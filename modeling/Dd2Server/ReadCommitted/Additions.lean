import Dd2Server.ReadCommitted.Confined
import Dd2Server.ReadCommitted.Moves

/-!
# Tables that rows are only added to

A program adds to a table when each of its statements writes only such rows of it as the statement
does not see.  The row may not be there for another task either, when the program commits: its lock
keeps the others from it.  So if all programs only add to a table, then what is in it stays
(`Reach.added`).
-/

namespace ReadCommitted

variable {T : Type} {K R : T → Type} [∀ t, DecidableEq (K t)]
  {Tag Ask Act Mem Job ρ α β ε ε' : Type} {Ans : Ask → Type} {Out : Act → Type} {t : T}

/-- The writes to the table are of rows that the view lacks. -/
def Lacks (t : T) (v : Store K R) (ws : List (Write K R)) : Prop :=
  ∀ w ∈ ws, w.row.table = t → v.get w.row = none

namespace Prog

/-- Every statement writes only such rows of the table as it does not see. -/
def Adds (t : T) : Prog K R Tag Ans Out α → Prop
  | .ret _ => True
  | .stmt _ run next fail =>
      (∀ v e, run v = some e → Lacks t v e.writes) ∧ (∀ v, (next v).Adds t) ∧ fail.Adds t
  | .read _ next fail => (∀ v, (next v).Adds t) ∧ fail.Adds t
  | .commit next fail => next.Adds t ∧ fail.Adds t
  | .rollback next => next.Adds t
  | .ask _ next => ∀ a, (next a).Adds t
  | .act _ next => ∀ o, (next o).Adds t

theorem Adds.bind {p : Prog K R Tag Ans Out α} {k : α → Prog K R Tag Ans Out β} (hp : p.Adds t)
    (hk : ∀ a, (k a).Adds t) : (p.bind k).Adds t := by
  induction p with
  | ret a => exact hk a
  | stmt tag run next fail ihn ihf => exact ⟨hp.1, fun v => ihn v (hp.2.1 v), ihf hp.2.2⟩
  | read tag next fail ihn ihf => exact ⟨fun v => ihn v (hp.1 v), ihf hp.2⟩
  | commit next fail ihn ihf => exact ⟨ihn hp.1, ihf hp.2⟩
  | rollback next ih => exact ih hp
  | ask q next ih => exact fun a => ih a (hp a)
  | act a next ih => exact fun o => ih o (hp o)

/-- A program that leaves the table alone. -/
theorem Confined.adds {W : T → Prop} {p : Prog K R Tag Ans Out α} (h : p.Confined W)
    (ht : ¬W t) : p.Adds t := by
  induction p with
  | ret a => trivial
  | stmt tag run next fail ihn ihf =>
      refine ⟨fun v e he w hw hwt => ?_, fun v => ihn v (h.2.1 v), ihf h.2.2⟩
      exact absurd (hwt ▸ h.1 v e he w hw) ht
  | read tag next fail ihn ihf => exact ⟨fun v => ihn v (h.1 v), ihf h.2⟩
  | commit next fail ihn ihf => exact ⟨ihn h.1, ihf h.2⟩
  | rollback next ih => exact ih h
  | ask q next ih => exact fun a => ih a (h a)
  | act a next ih => exact fun o => ih o (h o)

end Prog

/-! ## Programs that may stop with an error -/

/-- The program only adds to the table. -/
def AddsTo (t : T) (x : ExceptT ε (Prog K R Tag Ans Out) α) : Prop := x.run.Adds t

namespace AddsTo

theorem pure {a : α} : AddsTo t (Pure.pure a : ExceptT ε (Prog K R Tag Ans Out) α) := trivial

theorem throw {e : ε} : AddsTo t (MonadExcept.throw e : ExceptT ε (Prog K R Tag Ans Out) α) :=
  trivial

theorem bind {x : ExceptT ε (Prog K R Tag Ans Out) β}
    {f : β → ExceptT ε (Prog K R Tag Ans Out) α} (hx : AddsTo t x)
    (hf : ∀ b, AddsTo t (f b)) : AddsTo t (x >>= f) := by
  have hrun : (x >>= f).run = x.run.bind (ExceptT.bindCont f) := rfl
  unfold AddsTo
  rw [hrun]
  refine Prog.Adds.bind hx fun r => ?_
  cases r with
  | ok b => exact hf b
  | error e => trivial

theorem adapt {f : ε' → ε} {x : ExceptT ε' (Prog K R Tag Ans Out) α} (h : AddsTo t x) :
    AddsTo t (x.adapt f) :=
  Prog.Adds.bind h fun _ => trivial

theorem query {dbError : ε} {s : Stmt K R Tag α} (h : ∀ v e a, s.run v = some (e, a) →
      Lacks t v e.writes) :
    AddsTo t (ReadCommitted.query dbError s : ExceptT ε (Prog K R Tag Ans Out) α) := by
  refine ⟨fun v e he => ?_, fun _ => trivial, trivial⟩
  obtain ⟨⟨e', a⟩, hrun, rfl⟩ := Option.map_eq_some_iff.1 he
  exact h v e' a hrun

theorem ask {q : Ask} :
    AddsTo t (ExceptT.lift (.ask q .ret) : ExceptT ε (Prog K R Tag Ans Out) (Ans q)) :=
  fun _ => trivial

theorem commit {dbError : ε} :
    AddsTo t (ReadCommitted.commit dbError : ExceptT ε (Prog K R Tag Ans Out) Unit) :=
  ⟨trivial, trivial⟩

theorem transaction {x : ExceptT ε (Prog K R Tag Ans Out) α} (h : AddsTo t x) :
    AddsTo t (ReadCommitted.transaction x) :=
  Prog.Adds.bind h fun _ => trivial

end AddsTo

/-! ## What is in the table stays -/

/-- The rows of the table stay as they are. -/
def Retains (t : T) (a b : Store K R) : Prop :=
  ∀ (k : K t) (r : R t), a.get ⟨t, k⟩ = some r → b.get ⟨t, k⟩ = some r

/-- The tasks leave each other the rows of the table. -/
def retaining (t : T) : Protocol K R where
  Inv _ := True
  stay := Retains t
  keep _ _ _ := True
  stay_refl _ _ _ h := h
  stay_trans h h' k r hr := h' k r (h k r hr)
  keep_refl _ _ := trivial
  keep_trans _ _ := trivial

/-- The rows of the table that the task wrote were not there, and it has their locks. -/
def New (t : T) (l : Local K R Tag Ans Out) (db : Store K R) : Prop :=
  ∀ w ∈ l.writes, w.row.table = t → db.get w.row = none ∧
    ∃ x ∈ l.locks, x.row = w.row ∧ x.mode.exclusive = true

variable {C : Tag → Store K R → Prop} {G : Promise K R Tag Ans Out} {l : Local K R Tag Ans Out}
    {db db' : Store K R}

theorem New.nil (log : List (Event K R Tag Ans Out)) : New t { log := log } db :=
  fun _ hw => by cases hw

theorem New.rely (h : New t l db) (hr : Rely (retaining t) l.locks db db') : New t l db' := by
  intro w hw ht
  obtain ⟨hnone, x, hx, hrow, hmode⟩ := h w hw ht
  refine ⟨?_, x, hx, hrow, hmode⟩
  rw [← hrow, hr.row x hx (Mode.ne_keyShare hmode), hrow, hnone]

variable [DecidableEq T]

/-- A row that the task does not see is not there. -/
theorem New.get_eq_none (h : New t l db) {k : RowKey K} (hk : k.table = t)
    (hv : (Store.view l.writes db).get k = none) : db.get k = none := by
  by_cases hw : ∃ w ∈ l.writes, w.row = k
  · obtain ⟨w, hw, rfl⟩ := hw
    exact (h w hw hk).1
  · rwa [Store.view_get_of_notMem db fun w hmem he => hw ⟨w, hmem, he⟩] at hv

theorem New.ran (h : New t l db) {tag : Tag} {e : Effect K R}
    (he : Lacks t (Store.view l.writes db) e.writes) :
    New t (l.ran tag (Store.view l.writes db) e) db := by
  intro w hw ht
  rcases List.mem_append.1 hw with hw | hw
  · refine ⟨h.get_eq_none ht (he w hw ht), w.lock (Store.view l.writes db), ?_, rfl,
      w.lock_exclusive _⟩
    exact List.mem_append_left _ (List.mem_append_left _ (List.mem_map_of_mem hw))
  · obtain ⟨hnone, x, hx, hrow, hmode⟩ := h w hw ht
    exact ⟨hnone, x, List.mem_append_right _ hx, hrow, hmode⟩

theorem New.retains (h : New t l db) : Retains t db (Store.view l.writes db) := by
  intro k r hr
  rw [Store.view_get_of_notMem db, hr]
  intro w hw he
  have hnone := (h w hw (congrArg RowKey.table he)).1
  rw [he, hr] at hnone
  cases hnone

/-- A program that only adds to the table keeps what is in it. -/
theorem Prog.Adds.safe {p : Prog K R Tag Ans Out α} (hp : p.Adds t) (hl : New t l db) :
    Safe (retaining t) C { commit := fun _ _ _ => True } (fun _ _ _ => True) p l db := by
  induction p generalizing l db with
  | ret a => exact fun _ _ => trivial
  | stmt tag run next fail ihn ihf =>
      intro db' hr
      refine ⟨ihf hp.2.2 (.nil _), fun _ => ?_⟩
      cases he : run (Store.view l.writes db') with
      | none => exact ihf hp.2.2 (.nil _)
      | some e => exact ihn _ (hp.2.1 _) ((hl.rely hr).ran (hp.1 _ e he))
  | read tag next fail ihn ihf =>
      exact fun db' hr => ⟨ihf hp.2 (hl.rely hr), ihn _ (hp.1 _) (hl.rely hr)⟩
  | commit next fail ihn ihf =>
      intro db' hr
      exact ⟨ihf hp.2 (.nil _), ⟨trivial, (hl.rely hr).retains, fun _ => .inr trivial⟩,
        trivial, ihn hp.1 (.nil _)⟩
  | rollback next ih => exact fun _ _ => ih hp (.nil _)
  | ask q next ih => exact fun _ hr a => ih a (hp a) (hl.rely hr)
  | act a next ih => exact fun _ hr => ⟨trivial, fun o => ih o (hp o) (hl.rely hr)⟩

variable {sh : Shared K R Tag Ans Out Mem} {body : Job → Prog K R Tag Ans Out ρ}
  {s₀ s s' : Sys K R Tag Ans Out Mem Job ρ}

/-- Where all programs only add to the table, what is in it stays. -/
theorem Reach.added (hbody : ∀ j, (body j).Adds t) (htasks : s₀.tasks = [])
    (hs : Reach sh body C s₀ s) (h : Reach sh body C s s') : Retains t s.db s'.db := by
  have hsafe : ∀ j db, (retaining t).Inv db →
      Safe (retaining t) C { commit := fun _ _ _ => True } (fun _ _ _ => True)
      (body j) {} db := fun j db _ => (hbody j).safe (.nil [])
  exact (h.stays hsafe (hs.sound hsafe trivial htasks)).2

end ReadCommitted
