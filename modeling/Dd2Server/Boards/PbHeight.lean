import Dd2Server.Boards.Rules
import Dd2Server.ReadCommitted.Scores

/-!
# Personal bests on Deep Dip 2

`update_user_pb_height` reads the stored height, compares, and then writes in statements of their
own.  Nothing holds the row in between: the write may come late, when a higher one went in since the
read.  Where no write comes late a height never falls, calls do not fail each other, and the stored
heights are the maxima.
-/

namespace Dd2Server.Boards

open ReadCommitted

/-! ## The function -/

/-- The row of `ranked_lb_view`: users who are shadow-banned have none. -/
def rankedLb (v : Db) (userId : Uuid) : Option (Height × Nat) :=
  if (v.get ⟨.shadowBans, userId⟩).isSome then none
  else (v.get ⟨.leaderboard, userId⟩).map fun r =>
    (r.height, 1 + ((v.rows .leaderboard).filter fun u =>
      (v.get ⟨.shadowBans, u.1⟩).isNone && decide (r.height < u.2.height)).length)

def pbHeightStmt (userId : Uuid) : Sql (Option Height) :=
  selectAs (.named "update_user_pb_height") fun v =>
    (v.get ⟨.leaderboard, userId⟩).map LeaderboardRow.height

/-- `UPDATE leaderboard SET … RETURNING update_count`. -/
def raisePbStmt (userId : Uuid) (height : Height) (now : Time) : Sql (Option Int) where
  tag := .raisePb userId height
  run v :=
    match v.get ⟨.leaderboard, userId⟩ with
    | none => some ({}, none)
    | some r => some ({ writes := [⟨⟨.leaderboard, userId⟩,
        some { height, updateCount := r.updateCount + 1, ts := now }⟩] },
          some (r.updateCount + 1))

/-- `INSERT INTO leaderboard_archive … SELECT … FROM ranked_lb_view … RETURNING
rank_at_time`. -/
def archivePbStmt (userId : Uuid) (now : Time) : Sql (Option Nat) where
  tag := .archivePb userId now
  run v :=
    match rankedLb v userId with
    | none => some ({}, none)
    | some (height, rank) =>
        match v.get ⟨.leaderboardArchive, (userId, now)⟩ with
        | some _ => none
        | none => some ({ writes := [⟨⟨.leaderboardArchive, (userId, now)⟩,
            some { height, rankAtTime := rank }⟩] }, some rank)

/-- `INSERT INTO leaderboard (user_id, height, ts)`. -/
def insertPbStmt (userId : Uuid) (height : Height) (now : Time) : Sql Unit where
  tag := .insertPb userId
  run v :=
    match v.get ⟨.leaderboard, userId⟩ with
    | some _ => none
    | none => some ({ writes := [⟨⟨.leaderboard, userId⟩,
        some { height, updateCount := 0, ts := now }⟩] }, ())

/-- `fetch_one` of a statement on its own. -/
def fetchOne {β : Type} (s : Time → Sql (Option β)) : Query SqlxError β := do
  match ← autocommit fun now => sql (s now) with
  | some b => return b
  | none => throw .rowNotFound

structure PBUpdateRes where
  isTop3 : Bool
  deriving DecidableEq

def updateUserPbHeight (userId : Uuid) (height : Height) : Query SqlxError PBUpdateRes := do
  match ← sql (pbHeightStmt userId) with
  | some old =>
      if old < height then
        let _ ← fetchOne (raisePbStmt userId height)
        let rank ← fetchOne (archivePbStmt userId)
        if rank < 10 then return { isTop3 := true } else return { isTop3 := false }
      else return { isTop3 := false }
  | none =>
      -- `fetch_one` failed with `RowNotFound`
      autocommit fun now => sql (insertPbStmt userId height now)
      return { isTop3 := false }

/-! ## Personal bests -/

/-- The heights of the leaderboard. -/
def pbs (db : Db) : Scores Uuid Height :=
  fun userId => (db.get ⟨.leaderboard, userId⟩).map LeaderboardRow.height

theorem pbs_eq_some {db : Db} {userId : Uuid} {h : Height} :
    pbs db userId = some h ↔ ∃ r, db.get ⟨.leaderboard, userId⟩ = some r ∧ r.height = h :=
  Option.map_eq_some_iff

theorem pbs_congr {db db' : Db}
    (h : ∀ userId, db'.get ⟨.leaderboard, userId⟩ = db.get ⟨.leaderboard, userId⟩) :
    pbs db' = pbs db := funext fun userId => congrArg (Option.map _) (h userId)

theorem pbs_put {db : Db} {userId : Uuid} {r : LeaderboardRow}
    (h : ∀ old, db.get ⟨.leaderboard, userId⟩ = some old → old.height ≤ r.height) :
    Scores.Put userId r.height (pbs db)
      (pbs (db.put ⟨⟨.leaderboard, userId⟩, some r⟩)) where
  below y hy := by
    obtain ⟨old, hold, rfl⟩ := pbs_eq_some.1 hy
    exact h old hold
  new := pbs_eq_some.2 ⟨r, Store.get_put_self db ⟨.leaderboard, userId⟩ (some r), rfl⟩
  others u hne := congrArg (Option.map _) (Store.get_put_of_ne (by simpa using Ne.symm hne))

theorem rankedLb_eq_none {v : Db} {userId : Uuid} {r : LeaderboardRow}
    (hr : v.get ⟨.leaderboard, userId⟩ = some r) (h : rankedLb v userId = none) :
    (v.get ⟨.shadowBans, userId⟩).isSome := by
  by_contra hban
  rw [rankedLb, if_neg hban, hr] at h
  cases h

/-! ## The calls -/

/-- A call of `update_user_pb_height`. -/
structure PbUpdate where
  userId : Uuid
  height : Height
  deriving DecidableEq

/-- A statement meets what the call expects where it runs: the `UPDATE` nothing higher, the `INSERT`
no row, and the archive no row of that time. -/
def InOrder : Tag → Db → Prop
  | .raisePb userId height, v =>
      ∀ r, v.get ⟨.leaderboard, userId⟩ = some r → r.height ≤ height
  | .insertPb userId, v => v.get ⟨.leaderboard, userId⟩ = none
  | .archivePb userId now, v => v.get ⟨.leaderboardArchive, (userId, now)⟩ = none
  | _, _ => True

instance : ∀ tag v, Decidable (InOrder tag v)
  | .raisePb userId height, v =>
      decidable_of_iff
        (((v.get ⟨.leaderboard, userId⟩).all fun r => decide (r.height ≤ height)) = true)
        ((Option.all_eq_true _ _).trans (by simp [InOrder]))
  | .insertPb userId, v => inferInstanceAs (Decidable (v.get ⟨.leaderboard, userId⟩ = none))
  | .archivePb userId now, v =>
      inferInstanceAs (Decidable (v.get ⟨.leaderboardArchive, (userId, now)⟩ = none))
  | .named _, _ | .countPublic .., _ | .insertStanding .., _ => .isTrue trivial

/-- The archive found the user shadow-banned. -/
def Unranked (userId : Uuid) (log : Log) : Prop :=
  ∃ now v, .saw (.archivePb userId now) v ∈ log ∧ (v.get ⟨.shadowBans, userId⟩).isSome

/-- What only the world outside does: a statement or a `COMMIT` fails. -/
def Disconnected (log : Log) : Prop := .failed ∈ log

namespace PbUpdate

def body (j : PbUpdate) : Server (Except SqlxError PBUpdateRes) :=
  (updateUserPbHeight j.userId j.height).run

/-- The calls and the heights they report. -/
def scoring : Scoring Table.Key Table.Row PbUpdate Uuid Height where
  read := pbs
  key := userId
  score := height
  accepts _ := True

/-- The height counts: no connection failed, or not before it was stored. -/
def Counts (log : Log) : Prop := Disconnected log → ¬Commits scoring.Same log

/-- What is known of a call that returned. -/
structure Ended (j : PbUpdate) (r : Except SqlxError PBUpdateRes) (log : Log) (db : Db) : Prop where
  stored : Counts log → Scores.AtLeast j.userId j.height (pbs db)
  error : ∀ e, r = .error e → Disconnected log ∨ e = .rowNotFound ∧ Unranked j.userId log

end PbUpdate

/-- The calls leave each other nothing but that heights do not fall. -/
def pbProtocol : Protocol Table.Key Table.Row where
  Inv _ := True
  stay a b := Scores.Raised (pbs a) (pbs b)
  keep _ _ _ := True
  stay_refl db := .refl (pbs db)
  stay_trans h h' := h.trans h'
  keep_refl _ _ := trivial
  keep_trans _ _ := trivial

section

variable {since : Log} {j : PbUpdate}

/-- What holds where a call fails. -/
def PbFailed (j : PbUpdate) : SqlxError → Known := fun e log db =>
  (PbUpdate.Counts log → Scores.AtLeast j.userId j.height (pbs db)) ∧
    (Disconnected log ∨ e = .rowNotFound ∧ Unranked j.userId log)

/-- No more than the commits is known of the log. -/
abbrev Untouched : Log → Prop := Commits PbUpdate.scoring.Same

abbrev pbSetting (j : PbUpdate) : Setting Table.Key Table.Row Tag Ask.Ans Act.Out :=
  setting pbProtocol InOrder { commit := fun _ => PbUpdate.scoring.Promised j }

theorem guarantee_pbs {ls : List (Lock Table.Key)} {db v : Db}
    (h : PbUpdate.scoring.Promised j db v) : Guarantee pbProtocol ls db v :=
  ⟨trivial, h.raised, fun _ => .inr trivial⟩

theorem failed_untouched {log : Log} {db : Db} (hq : Quiet Plain since log) (h : Untouched since) :
    PbFailed j .database (.failed :: log) db := by
  have hc : Untouched (.failed :: log) := (Quiet.not_committed hq h).cons (by simp)
  exact ⟨fun hcount => absurd hc (hcount (List.mem_cons_self ..)), .inl (List.mem_cons_self ..)⟩

theorem failed_stored {log : Log} {db : Db} (h : Scores.AtLeast j.userId j.height (pbs db)) :
    PbFailed j .database (.failed :: log) db := ⟨fun _ => h, .inl (List.mem_cons_self ..)⟩

/-- The end of a statement on its own. -/
theorem pbCommit_ends {α : Type} {a : α} {L : List (Lock Table.Key)}
    {A : Assertion Table.Key Table.Row} {B : α → Known}
    (hfail : ∀ log db v, Quiet Plain since log → A db v →
      ∀ db', Scores.Raised (pbs db) (pbs db') → PbFailed j .database (.failed :: log) db')
    (hstep : ∀ db v, A db v → PbUpdate.scoring.Promised j db v)
    (hB : ∀ log db v, Quiet Plain since log → A db v →
      ∀ db', Scores.Raised (pbs v) (pbs db') → B a (.committed db v :: log) db') :
    Ends (pbSetting j) since (PbFailed j) L A (do commitQ; return a) B := by
  refine Ends.commitWith ?_ ?_ ?_ ?_
  · exact fun log db v hq _ hA db' hr => hfail log db v hq hA db' hr.stay
  · exact fun db v _ hA => guarantee_pbs (hstep db v hA)
  · exact fun log db v _ _ hA => hstep db v hA
  · exact fun log db v hq _ hA db' hr => hB log db v hq hA db' hr.stay

/-! ## The statements -/

theorem raisePb_pool {old : Height} :
    Pool (pbSetting j) (PbFailed j)
      (fun log db => Untouched log ∧ Scores.AtLeast j.userId old (pbs db))
      (fetchOne (raisePbStmt j.userId j.height))
      (fun _ _ db => Scores.AtLeast j.userId j.height (pbs db)) := by
  refine Pool.bind (fun r _ db => r.isSome ∧ Scores.AtLeast j.userId j.height
    (pbs db)) ?_ fun r => ?_
  case refine_2 =>
    cases r with
    | some b => exact Pool.pure fun _ _ _ h => h.2
    | none => exact Pool.throw fun _ _ _ h => absurd h.1 (by simp)
  refine autocommit_ends fun now since log db₀ hknown hq => ?_
  have hc : Untouched (.answered .now now :: log) :=
    (Quiet.not_committed hq hknown.1).cons (by simp)
  refine Ends.stmt (fun log' _ db hq' _ _ db' _ => failed_untouched hq' hc) ?_ ?_
  · rintro log' ws db - - - - hrun
    simp only [raisePbStmt] at hrun
    split at hrun <;> cases hrun
  · rintro log' ws db e b hq' - ⟨hv, -, h, hh, -⟩ hadm hrun
    obtain ⟨r, hr, -⟩ := pbs_eq_some.1 hh
    rw [hv] at hadm hrun ⊢
    simp only [raisePbStmt, hr, Option.some.injEq, Prod.mk.injEq] at hrun
    obtain ⟨rfl, rfl⟩ := hrun
    have hc' : Untouched (.saw (.raisePb j.userId j.height) db :: log') :=
      (Quiet.not_committed hq' hc).cons (by simp)
    refine ⟨[⟨⟨.leaderboard, j.userId⟩, .noKeyUpdate⟩],
      fun db v => Scores.Put j.userId j.height (pbs db) (pbs v),
      by simp [Effect.allLocks, Write.lock, hr], fun db' hrely hA' => ?_, pbCommit_ends ?_ ?_ ?_⟩
    · have hrow : db'.get ⟨.leaderboard, j.userId⟩ = some r := by
        refine (hrely.row ⟨⟨.leaderboard, j.userId⟩, .noKeyUpdate⟩ ?_ (by simp)).trans hr
        simp [Effect.allLocks, Write.lock, hr]
      rw [hA'.1]
      refine pbs_put (r := ⟨j.height, _, now⟩) ?_
      intro r' hr'
      obtain rfl : r = r' := Option.some.inj (hrow.symm.trans hr')
      exact hadm r hr
    · exact fun log₂ db₂ v₂ hq₂ _ db₃ _ => failed_untouched hq₂ hc'
    · exact fun db₂ v₂ hput => .inr ⟨trivial, hput⟩
    · exact fun log₂ db₂ v₂ _ hput db₃ hr₃ => ⟨rfl, hput.atLeast.raised hr₃⟩

theorem insertPb_pool :
    Pool (pbSetting j) (PbFailed j) (fun log _ => Untouched log)
      (autocommit fun now => sql (insertPbStmt j.userId j.height now))
      (fun _ _ db => Scores.AtLeast j.userId j.height (pbs db)) := by
  refine autocommit_pool fun now since hc => ?_
  refine Ends.stmt (fun log' _ db hq' _ _ db' _ => failed_untouched hq' hc) ?_ ?_
  · rintro log' ws db - - hv hadm hrun
    simp only [insertPbStmt, show (Store.view ws db).get
      ⟨.leaderboard, j.userId⟩ = none from hadm] at hrun
    cases hrun
  · rintro log' ws db e b hq' - hv hadm hrun
    rw [hv] at hadm hrun ⊢
    have hnone : db.get ⟨.leaderboard, j.userId⟩ = none := hadm
    simp only [insertPbStmt, hnone, Option.some.injEq, Prod.mk.injEq] at hrun
    obtain ⟨rfl, -⟩ := hrun
    have hc' : Untouched (.saw (.insertPb j.userId) db :: log') :=
      (Quiet.not_committed hq' hc).cons (by simp)
    refine ⟨[⟨⟨.leaderboard, j.userId⟩, .update⟩],
      fun db v => Scores.Put j.userId j.height (pbs db) (pbs v),
      by simp [Effect.allLocks, Write.lock,
        hnone], fun db' hrely hA' => ?_, pbCommit_ends ?_ ?_ ?_⟩
    · have hrow : db'.get ⟨.leaderboard, j.userId⟩ = none := by
        refine (hrely.row ⟨⟨.leaderboard, j.userId⟩, .update⟩ ?_ (by simp)).trans hnone
        simp [Effect.allLocks, Write.lock, hnone]
      rw [hA']
      refine pbs_put (r := ⟨j.height, _, now⟩) ?_
      intro r hr
      exact absurd (hrow.symm.trans hr) (by simp)
    · exact fun log₂ db₂ v₂ hq₂ _ db₃ _ => failed_untouched hq₂ hc'
    · exact fun db₂ v₂ hput => .inr ⟨trivial, hput⟩
    · exact fun log₂ db₂ v₂ _ hput db₃ hr₃ => hput.atLeast.raised hr₃

/-- The archive leaves the heights alone, and misses only users who are shadow-banned. -/
theorem archivePb_pool :
    Pool (pbSetting j) (PbFailed j) (fun _ db => Scores.AtLeast j.userId j.height (pbs db))
      (fetchOne (archivePbStmt j.userId))
      (fun _ _ db => Scores.AtLeast j.userId j.height (pbs db)) := by
  refine Pool.bind (fun r log db =>
    (r = none → Unranked j.userId log) ∧ Scores.AtLeast j.userId j.height (pbs db)) ?_ fun r =>
      ?_
  case refine_2 =>
    cases r with
    | some b => exact Pool.pure fun _ _ _ h => h.2
    | none => exact Pool.throw fun _ _ _ h => ⟨fun _ => h.2, .inr ⟨rfl, h.1 rfl⟩⟩
  refine autocommit_ends fun now since log db₀ hknown hq => ?_
  refine Ends.stmt (fun log' ws db _ _ hA db' hr => failed_stored (hA.2.raised hr.stay)) ?_ ?_
  · rintro log' ws db - - - hadm hrun
    simp only [archivePbStmt,
      show (Store.view ws db).get ⟨.leaderboardArchive, (j.userId, now)⟩ =
        none from hadm] at hrun
    split at hrun <;> cases hrun
  · rintro log' ws db e b - - ⟨hv, h, hh, hle⟩ hadm hrun
    obtain ⟨r, hr, -⟩ := pbs_eq_some.1 hh
    rw [hv] at hadm hrun ⊢
    have hfree : db.get ⟨.leaderboardArchive, (j.userId, now)⟩ = none := hadm
    have hban : b = none → (db.get ⟨.shadowBans, j.userId⟩).isSome := by
      rintro rfl
      refine rankedLb_eq_none hr ?_
      cases hrank : rankedLb db j.userId with
      | none => rfl
      | some p =>
          obtain ⟨height, rank⟩ := p
          simp [archivePbStmt, hrank, hfree] at hrun
    have hsame : ∀ db', pbs (Store.view e.writes db') = pbs db' := by
      intro db'
      simp only [archivePbStmt] at hrun
      split at hrun
      · cases hrun
        rfl
      · simp only [hfree] at hrun
        cases hrun
        exact pbs_congr fun userId => Store.get_put_of_ne (by simp)
    refine ⟨[], fun db v => pbs v = pbs db ∧ Scores.AtLeast j.userId j.height (pbs db), by simp,
      fun db' hrely hA' => ?_, pbCommit_ends ?_ ?_ ?_⟩
    · rw [hA'.1]
      exact ⟨hsame db', hA'.2⟩
    · exact fun log₂ db₂ v₂ _ hA₂ db₃ hr₃ => failed_stored (hA₂.2.raised hr₃)
    · exact fun db₂ v₂ hA₂ => .inl hA₂.1
    · intro log₂ db₂ v₂ hq₂ hA₂ db₃ hr₃
      refine ⟨fun hb => ⟨now, db, ?_, hban hb⟩, ?_⟩
      · exact List.mem_cons_of_mem _ (hq₂.mem (List.mem_cons_self ..))
      · rw [← hA₂.1] at hA₂
        exact hA₂.2.raised hr₃

theorem PbUpdate.safe (j : PbUpdate) (db : Db) :
    Safe pbProtocol InOrder { commit := fun _ => scoring.Promised j }
      (fun r l db => j.Ended r l.log db) j.body {}
      db := by
  have hpool : Pool (pbSetting j) (PbFailed j) (fun log _ => Untouched log)
      (updateUserPbHeight j.userId j.height)
      (fun _ _ db => Scores.AtLeast j.userId j.height (pbs db)) := by
    rw [updateUserPbHeight]
    refine Pool.bind (fun old log db => Untouched log ∧
      ∀ h, old = some h → Scores.AtLeast j.userId h (pbs db)) ?_ fun old => ?_
    · refine Pool.read (fun v => ⟨_, rfl⟩) ?_ ?_
      · exact fun log db _ hc => failed_untouched (.refl log) hc
      · intro log db a _ hc _ hrun db' hr _
        refine ⟨hc.cons (by simp), fun h he => ?_⟩
        cases hrun
        have hat : Scores.AtLeast j.userId h (pbs db) := ⟨h, he, le_refl h⟩
        exact hat.raised hr.stay
    · cases old with
      | none =>
          refine Pool.bind _ (insertPb_pool.weaken (fun _ _ _ h => h.1) (fun _ _ _ h => h)
            fun _ _ _ h => h) fun _ => ?_
          exact Pool.pure fun _ _ _ h => h
      | some old =>
          dsimp only
          split
          case isFalse hlow =>
            exact Pool.pure fun _ _ _ h => (h.2 old rfl).mono (not_lt.1 hlow)
          case isTrue =>
            refine Pool.bind _ (raisePb_pool.weaken (fun _ _ _ h => ⟨h.1, h.2 old rfl⟩)
              (fun _ _ _ h => h) fun _ _ _ h => h) fun _ => ?_
            refine Pool.bind _ archivePb_pool fun rank => ?_
            split <;> exact Pool.pure fun _ _ _ h => h
  refine (hpool {} db trivial rfl rfl fun _ _ => .nil).post ?_
  rintro r l db ⟨-, -, hres⟩
  have hnow := hres db (.refl trivial)
  cases r with
  | ok a => exact ⟨fun _ => hnow, fun e he => by cases he⟩
  | error e =>
      refine ⟨hnow.1, fun e' he => ?_⟩
      cases he
      exact hnow.2

end

/-! ## All runs -/

/-- Any number of calls on a database. -/
abbrev PbUpdates :=
  Sys Table.Key Table.Row Tag Ask.Ans Act.Out Unit PbUpdate (Except SqlxError PBUpdateRes)

namespace PbUpdates

/-- A database, and no call. -/
def on (db : Db) : PbUpdates where
  db := db
  mem := ()

/-- The states of all interleavings. -/
abbrev Run (s s' : PbUpdates) : Prop := Reach shared PbUpdate.body (fun _ _ => True) s s'

/-- The states of the interleavings in which no write comes late. -/
abbrev Orderly (s s' : PbUpdates) : Prop := Reach shared PbUpdate.body InOrder s s'

/-- The same where no call is dropped. -/
abbrev Completing (s s' : PbUpdates) : Prop :=
  ReachBy shared PbUpdate.body (fun s m => m.Keeps ∧ s.Admits InOrder m) s s'

/-- All calls have returned. -/
def Returned (s : PbUpdates) : Prop := ∀ t ∈ s.tasks, ∃ r, t.prog = .ret r

/-- The initial height of a user and the reported ones that count. -/
def heights (db₀ : Db) (s : PbUpdates) (userId : Uuid) : Set Height :=
  PbUpdate.scoring.reported db₀ s (fun t => PbUpdate.Counts t.loc.log) userId

/-- The stored heights are the maxima. -/
def HoldsMaximum (db₀ : Db) (s : PbUpdates) : Prop :=
  ∀ userId h, pbs s.db userId = some h ↔ IsGreatest (s.heights db₀ userId) h

/-- A call fails only where a connection did, or because its user is shadow-banned. -/
def FailsAlone (s : PbUpdates) : Prop :=
  ∀ t ∈ s.tasks, ∀ e, t.prog = .ret (.error e) →
    Disconnected t.loc.log ∨ e = .rowNotFound ∧ Unranked t.job.userId t.loc.log

variable {db₀ : Db} {s s' : PbUpdates}

theorem sound (h : Orderly (on db₀) s) :
    Sound pbProtocol InOrder (fun j => { commit := fun _ => PbUpdate.scoring.Promised j })
      (fun j r l db => j.Ended r l.log db) s :=
  h.sound (fun j db _ => j.safe db) trivial rfl

theorem raised (h : Orderly (on db₀) s) (h' : Orderly s s') :
    Scores.Raised (pbs s.db) (pbs s'.db) :=
  (h'.stays (fun j db _ => j.safe db) (sound h)).2

theorem failsAlone (h : Orderly (on db₀) s) : s.FailsAlone :=
  fun _ ht e hr => ((sound h).ended ht hr).error e rfl

theorem holdsMaximum (h : Completing (on db₀) s) (hret : s.Returned) : s.HoldsMaximum db₀ := by
  intro userId x
  have hsound := sound (h.reach fun _ _ hm => hm.2)
  have hput : ∀ t ∈ s.tasks, ¬Commits PbUpdate.scoring.Same t.loc.log →
      PbUpdate.Counts t.loc.log := fun _ _ hc _ => hc
  refine Scoring.isGreatest (fun _ _ hm => hm) (fun j db _ => j.safe db) trivial rfl
    (fun _ _ hr => hr) h ?_ hput
  intro t ht hcounts _
  obtain ⟨r, hr⟩ := hret t ht
  exact (hsound.ended ht hr).stored hcounts

/-- Where no write comes late heights never fall, calls do not fail each other, and the stored
heights end as the maxima. -/
theorem best_pbs (db₀ : Db) :
    (∀ s s', Orderly (on db₀) s → Orderly s s' → Scores.Raised (pbs s.db) (pbs s'.db)) ∧
    (∀ s, Orderly (on db₀) s → s.FailsAlone) ∧
    ∀ s, Completing (on db₀) s → s.Returned → s.HoldsMaximum db₀ :=
  ⟨fun _ _ h h' => raised h h', fun _ h => failsAlone h, fun _ h hret => holdsMaximum h hret⟩

/-! ## Late writes -/

/-- Moves of a call: the clock of a transaction is read, and statements run. -/
def clock (i : Nat) (now : Time) : Move Ask.Ans PbUpdate := .run i (.answer fun | .now => now)

def steps (i n : Nat) : List (Move Ask.Ans PbUpdate) := List.replicate n (.run i .proceed)

/-- A statement on its own. -/
def once (i : Nat) (now : Time) : List (Move Ask.Ans PbUpdate) := clock i now :: steps i 3

/-- One call after another. -/
theorem best_pbs_sample :
    ∃ s, Completing (on .empty) s ∧ s.HoldsMaximum .empty ∧ pbs s.db 1 = some 30 := by
  let moves := .start ⟨1, 10⟩ :: steps 0 1 ++ once 0 0 ++ .start ⟨1, 30⟩ :: steps 1 1 ++
    once 1 1 ++ once 1 2
  obtain ⟨s, hs, htasks, hstored⟩ : ∃ s, Completing (on .empty) s ∧
      s.tasks.map (fun t => (t.job, t.prog.result)) =
        [(⟨1, 10⟩, .ok ⟨false⟩), (⟨1, 30⟩, .ok ⟨true⟩)].map
          (fun p => (p.1, some p.2)) ∧
      pbs s.db 1 = some 30 := ReachBy.played moves (by decide +kernel)
  exact ⟨s, hs, (best_pbs .empty).2.2 s hs (Sys.returned_of_map htasks), hstored⟩

/-- A user at height 10. -/
def atTen : Db := Store.empty.put ⟨⟨.leaderboard, 1⟩, some ⟨10, 0, 0⟩⟩

/-- Both calls read the height 10; the lower one writes last. -/
theorem late_update_lowers :
    ¬∀ db₀ s s', Run (on db₀) s → Run s s' → Scores.Raised (pbs s.db) (pbs s'.db) := by
  intro hall
  let before := .start ⟨1, 30⟩ :: .start ⟨1, 20⟩ :: steps 0 1 ++ steps 1 1 ++
    once 0 1 ++ once 0 2
  obtain ⟨s, hs, hhigh, hgo⟩ : ∃ s, Run (on atTen) s ∧ pbs s.db 1 = some 30 ∧
      ((s.play shared PbUpdate.body (once 1 3)).any fun s' => decide (pbs s'.db 1 = some 20)) =
        true :=
    Reach.played before (by decide +kernel)
  obtain ⟨s', hs', hlow⟩ : ∃ s', Run s s' ∧ pbs s'.db 1 = some 20 :=
    Reach.played (once 1 3) hgo
  obtain ⟨y, hy, hle⟩ := hall _ s s' hs hs' 1 30 hhigh
  obtain rfl : (20 : Height) = y := Option.some.inj (hlow.symm.trans hy)
  exact absurd hle (by decide +kernel)

end PbUpdates

end Dd2Server.Boards
