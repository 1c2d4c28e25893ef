import Dd2Server.Boards.MapLeaderboard
import Dd2Server.ReadCommitted.Moves

/-!
# Rules for statements on the leaderboard tables

The rules of `ReadCommitted` at these tables, and that the listing trigger leaves the standings
alone.
-/

namespace Dd2Server.Boards

open ReadCommitted

/-- The events a proof about a transaction may forget: all but commits. -/
def Plain : LogEvent → Prop
  | .committed _ _ => False
  | _ => True

abbrev setting (P : Protocol Table.Key Table.Row) (C : Tag → Db → Prop)
    (G : Promise Table.Key Table.Row Tag Ask.Ans Act.Out) :
    Setting Table.Key Table.Row Tag Ask.Ans Act.Out := ⟨P, C, G, Plain⟩

/-- The error is what is left of a statement or a commit that did not work. -/
def OnTrouble (since : Log) (E : SqlxError → Known) : Prop :=
  ∀ log db ev, Quiet Plain since log → Plain ev → E .database (ev :: log) db

section

variable {P : Protocol Table.Key Table.Row} {C : Tag → Db → Prop}
  {G : Promise Table.Key Table.Row Tag Ask.Ans Act.Out} {since : Log} {E : SqlxError → Known}
  {L : List (Lock Table.Key)} {A : Assertion Table.Key Table.Row}

theorem Quiet.not_committed {log : Log} {r : Db → Db → Prop} (hq : Quiet Plain since log)
    (h : Commits r since) : Commits r log := hq.commits (fun _ _ hp => hp) h

/-- The rule of a statement, whatever it does to the view. -/
theorem sql_triple {α : Type} {s : Sql α} {L' : α → List (Lock Table.Key)}
    {A' : α → Assertion Table.Key Table.Row} (hE : OnTrouble since E)
    (hrun : ∀ ws db e a, P.Inv db → A db (Store.view ws db) → C s.tag (Store.view ws db) →
      s.run (Store.view ws db) = some (e, a) →
      (∀ x ∈ L' a, x ∈ e.allLocks (Store.view ws db) ++ L) ∧
      ∀ db', Rely P (e.allLocks (Store.view ws db) ++ L) db db' → A db' (Store.view ws db') →
        A' a db' (Store.view e.writes (Store.view ws db'))) :
    Triple (setting P C G) since E L A (sql s) L' A' :=
  Triple.query (fun _ => trivial) (fun log db hq _ => hE log db _ hq trivial)
    (fun log _ _ hq _ _ _ _ db' _ => hE log db' _ hq trivial) hrun

theorem select_triple {α : Type} {tag : Tag} {f : Db → α}
    {A' : α → Assertion Table.Key Table.Row} (hE : OnTrouble since E)
    (h : ∀ ws db, P.Inv db → A db (Store.view ws db) → C tag (Store.view ws db) →
      ∀ db', Rely P L db db' → A db' (Store.view ws db') →
        A' (f (Store.view ws db)) db' (Store.view ws db')) :
    Triple (setting P C G) since E L A (sql (selectAs tag f)) (fun _ => L) A' := by
  refine sql_triple hE fun ws db e a hinv hA hC hrun => ?_
  cases hrun
  refine ⟨fun x hx => List.mem_append_right _ hx, fun db' hr hA' => ?_⟩
  exact h ws db hinv hA hC db' (hr.mono fun x hx => List.mem_append_right _ hx) hA'

/-- What a `SELECT` returns is forgotten. -/
theorem forget_triple {α : Type} {tag : Tag} {f : Db → α} (hE : OnTrouble since E) :
    Triple (setting P C G) since E L A (sql (selectAs tag f)) (fun _ => L) (fun _ => A) :=
  select_triple hE fun _ _ _ _ _ _ _ hA' => hA'

/-! ## The trigger beside the standings -/

/-- The assertion looks only at the standings and the personal bests. -/
def OnBoards (A : Assertion Table.Key Table.Row) : Prop :=
  ∀ db v v', A db v →
    (∀ k, v'.get ⟨.mapLeaderboard, k⟩ = v.get ⟨.mapLeaderboard, k⟩) → A db v'

theorem advisoryLock_triple {key : Int} (hE : OnTrouble since E) :
    Triple (setting P C G) since E L A (sql (advisoryLockStmt key))
      (fun _ => ⟨⟨.advisoryLocks, key⟩, .update⟩ :: L) (fun _ => A) := by
  refine sql_triple hE fun ws db e a _ _ _ hrun => ?_
  cases hrun
  exact ⟨fun x hx => by simpa [Effect.allLocks] using hx, fun db' _ hA' => hA'⟩

theorem insertListed_triple {mapUid : String} {now : Time} (hE : OnTrouble since E)
    (hA : OnBoards A) :
    Triple (setting P C G) since E L A (sql (insertListedStmt mapUid now)) (fun _ => L)
      (fun _ => A) := by
  refine sql_triple hE fun ws db e a _ _ _ hrun => ?_
  refine ⟨fun x hx => List.mem_append_right _ hx, fun db' _ hA' => ?_⟩
  simp only [insertListedStmt] at hrun
  split at hrun
  · cases hrun
    exact hA'
  · split at hrun
    case isFalse => cases hrun
    case isTrue =>
      cases hrun
      exact hA _ _ _ hA' fun k => Store.get_put_of_ne (by simp)

/-- The trigger leaves the standings alone. -/
theorem mapLeaderboardMaybeList_triple {hash : String → Int} {mapUid : String} {now : Time}
    (hE : OnTrouble since E) (hA : OnBoards A) :
    Triple (setting P C G) since E L A (mapLeaderboardMaybeList hash mapUid now) (fun _ => L)
      (fun _ => A) := by
  have hpure : Triple (setting P C G) since E L A (pure () : Query SqlxError Unit) (fun _ => L)
      (fun _ => A) := .pure (fun _ _ _ h => h) fun _ hx => hx
  rw [mapLeaderboardMaybeList]
  split
  case isTrue => exact hpure
  case isFalse =>
  refine Triple.bind (forget_triple hE) fun listed => ?_
  split
  case isTrue => exact hpure
  case isFalse =>
  refine Triple.bind ((advisoryLock_triple hE).weaken (fun _ hx => hx) (fun _ _ _ hA => hA)
    (fun _ _ hx => List.mem_cons_of_mem _ hx) fun _ _ _ _ hA => hA) fun _ => ?_
  refine Triple.bind (forget_triple hE) fun listed => ?_
  split
  case isTrue => exact hpure
  case isFalse =>
  refine Triple.bind (forget_triple hE) fun thresh => Triple.bind (forget_triple hE) fun count => ?_
  split
  case isTrue => exact insertListed_triple hE hA
  case isFalse => exact hpure

/-! ## Statements on their own -/

/-- The rule of a statement on its own. -/
theorem autocommit_ends {α : Type} {A₀ : Known} {x : Time → Query SqlxError α}
    {B : α → Known} (h : ∀ now since log db₀, A₀ since db₀ → Quiet Plain since log →
      Ends (setting P C G) (.answered .now now :: log) E [] (fun db v => v = db ∧ A₀ since db)
        (do let a ← x now; commitQ; return a) B) :
    Pool (setting P C G) E A₀ (autocommit x) B :=
  Pool.transaction fun since db₀ _ hA => Ends.ask fun log now hq => h now since log db₀ hA hq

/-- The same where all that is known is of what kind the commits of the task were. -/
theorem autocommit_pool {α : Type} {r : Db → Db → Prop} {x : Time → Query SqlxError α}
    {B : α → Known} (h : ∀ now since, Commits r since →
      Ends (setting P C G) since E [] (fun db v => v = db)
      (do let a ← x now; commitQ; return a) B) :
    Pool (setting P C G) E (fun log _ => Commits r log) (autocommit x) B := by
  refine autocommit_ends fun now since log _ hc hq => ?_
  have hc' : Commits r (.answered .now now :: log : Log) :=
    (Quiet.not_committed hq hc).cons (by simp)
  exact (h now _ hc').pre fun db v _ hA => hA.1

end

end Dd2Server.Boards
