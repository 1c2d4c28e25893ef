import Dd2Server.LiveHeights.Reports

/-!
# Rows as histories

The row of a player on a map is a summary of the reports that came for it, in the order of their
commits (`row_standing`).  No report is lost between two connections, and the count of the trigger
is what it is meant to be: how many of the latest reports hardly moved the player (`idle`).
-/

namespace Dd2Server.LiveHeights

open ReadCommitted
open Boards (Height Pos SqlxError ApiError maxHeight)

/-! ## Histories -/

/-- How many of the latest reports are near the one before, without a break; the latest first. -/
def idle (a : Arithmetic) (reports : List LiveReport) : Nat :=
  ((reports.zip reports.tail).takeWhile fun p => a.near p.1.pos p.2.pos).length

/-- How fast a player moved between two reports. -/
def LiveReport.velocity (a : Arithmetic) (old new : LiveReport) : Pos :=
  let dt := new.time - old.time
  if dt ≤ 0 then ⟨0, 0, 0⟩
  else ⟨a.rate new.pos.x old.pos.x dt, a.rate new.pos.y old.pos.y dt,
    a.rate new.pos.z old.pos.z dt⟩

/-- What a row says of the reports that came for it, the latest first. -/
def standing (a : Arithmetic) : List LiveReport → Option LiveRow
  | [] => none
  | r :: older =>
      some
        { height := r.pos.y, pos := r.pos, raceTime := r.raceTime, updatedAt := r.time
          updateCount := older.length
          afkUpdateCount := idle a (r :: older)
          velocity := older.head?.elim ⟨0, 0, 0⟩ fun old => old.velocity a r
          dt := older.head?.elim 1 fun old => a.seconds (r.time - old.time) }

theorem idle_cons (a : Arithmetic) (r old : LiveReport) (older : List LiveReport) :
    idle a (r :: old :: older) = if a.near r.pos old.pos then idle a (old :: older) + 1 else 0 := by
  simp only [idle, List.tail_cons, List.zip_cons_cons, List.takeWhile_cons]
  split
  · rw [List.length_cons]
  · rfl

/-- One more report. -/
theorem upserted_standing (a : Arithmetic) (r : LiveReport) (older : List LiveReport) :
    some (LiveRow.upserted a r (standing a older)) = standing a (r :: older) := by
  cases older with
  | nil => rfl
  | cons old older =>
      simp only [standing, LiveRow.upserted, updateAfkAndVelocity, idle_cons a r old older,
        List.head?_cons, Option.elim_some, List.length_cons, LiveReport.velocity, Option.some.injEq,
          LiveRow.mk.injEq, and_true,
        true_and]
      split <;> simp

theorem foldr_standing (a : Arithmetic) (earlier reports : List LiveReport) :
    reports.foldr (fun r old => some (LiveRow.upserted a r old)) (standing a earlier) =
      standing a (reports ++ earlier) := by
  induction reports with
  | nil => rfl
  | cons r older ih => rw [List.foldr_cons, ih, upserted_standing, List.cons_append]

/-! ## The calls -/

/-- A call has put a report into its row. -/
def Reported (a : Arithmetic) (j : Job) (log : Log) (pre post : Db) : Prop :=
  j.Takes ∧ ∃ now, .answered .now now ∈ log ∧
    post = pre.put ⟨⟨.mapCurrHeights, j.key⟩,
      some (LiveRow.upserted a (j.report now) (pre.get ⟨.mapCurrHeights, j.key⟩))⟩

section

variable {a : Arithmetic} {j : Job} {α ε : Type}

abbrev LiveLeads (a : Arithmetic) (j : Job) (x : Query ε α) : Prop :=
  Tells { commit := Reported a j } (fun _ => True) (fun _ => True) x fun _ _ => True

theorem upsertMapCurrHeight_live {mapUid : String} {userId : Uuid} {pos : Pos} {raceTime : Int}
    (hkey : j.key = (userId, mapUid)) (hreport : ∀ now, j.report now = ⟨pos, raceTime, now⟩)
    (htakes : Text.byteLen mapUid = 27 → j.Takes) :
    LiveLeads a j (upsertMapCurrHeight a mapUid userId pos raceTime) := by
  rw [upsertMapCurrHeight]
  split
  case isTrue => exact .throw fun _ _ => trivial
  case isFalse hlen =>
  have hkeeps : Abides (fun _ _ => True) fun _ : Log => True := .true
  refine .asking hkeeps (fun _ _ => trivial)
    fun now v e b hrun log pre _ hnow _ hrows =>
      ⟨⟨htakes (not_not.1 hlen), now, hnow, ?_⟩, trivial⟩
  simp only [upsertMapCurrHeightStmt] at hrun
  split at hrun
  case isFalse => cases hrun
  case isTrue =>
    cases hrun
    rw [hkey, hreport, hrows _ List.mem_cons_self]
    rfl

theorem reportMapCurrPos_live {userId : Uuid} {mapUid : String} {pos : Pos} {raceTime : Int} :
    LiveLeads a (.mapCurrPos userId mapUid pos raceTime)
      (reportMapCurrPos a userId mapUid pos raceTime) := by
  rw [reportMapCurrPos]
  split
  case isTrue => exact .pure fun _ _ => trivial
  case isFalse hheight =>
  split
  case isTrue => exact .throw fun _ _ => trivial
  case isFalse =>
  exact .adapt _ (upsertMapCurrHeight_live rfl (fun _ => rfl)
    fun hlen => ⟨not_lt.1 hheight, hlen⟩)

theorem reportLiveVehicleState_live {userId : Uuid} {isOfficial : Bool} {pos : Pos} :
    LiveLeads a (.vehicleState userId isOfficial pos)
      (reportLiveVehicleState a userId isOfficial pos) := by
  have hinsert : LiveLeads a (.vehicleState userId isOfficial pos) insertVehicleState :=
    Pool.readCommitted (fun _ _ _ _ => trivial) fun _ _ _ _ _ _ _ => trivial
  refine .bind hinsert fun _ => ?_
  split
  case isTrue htakes => exact upsertMapCurrHeight_live rfl (fun _ => rfl) fun _ => htakes
  case isFalse => exact .pure fun _ _ => trivial

theorem body_live (db : Db) :
    Safe .free (fun _ _ => True) { commit := Reported a j } (fun _ _ _ => True)
      (j.body a) {} db := by
  have hsafe {x : Query ApiError Unit} (hx : LiveLeads a j x) :
      Safe .free (fun _ _ => True) { commit := Reported a j } (fun _ _ _ => True) x.run {} db :=
    (hx {} db trivial rfl rfl fun _ _ => trivial).post fun _ _ _ _ => trivial
  cases j with
  | mapCurrPos userId mapUid pos raceTime => exact hsafe reportMapCurrPos_live
  | vehicleState userId isOfficial pos => exact hsafe (.adapt _ reportLiveVehicleState_live)

end

/-! ## Every run -/

abbrev LiveSystem := Sys Table.Key Table.Row Tag Ask.Ans Act.Out Unit Job (Except ApiError Unit)

abbrev Commit := Entry Table.Key Table.Row Tag Ask.Ans Act.Out Job

/-- A run, with its commits; the latest first. -/
abbrev LiveRun (a : Arithmetic) (s₀ : LiveSystem) (es : List Commit) (s : LiveSystem) : Prop :=
  Chronicle shared (Job.body a) (fun _ _ => True) s₀ es s

/-- The report that a commit brought. -/
def Brings (e : Commit) (r : LiveReport) : Prop :=
  e.job.Takes ∧ ∃ now, .answered .now now ∈ e.log ∧ r = e.job.report now

/-- The commits of the calls for a row. -/
def commitsFor (es : List Commit) (k : Uuid × String) : List Commit :=
  es.filter fun e => e.job.key = k

/-- A row is the summary of its reports: those of the run, and those from before. -/
theorem row_standing {a : Arithmetic} {s₀ s : LiveSystem} {es : List Commit}
    (h : LiveRun a s₀ es s) (htasks : s₀.tasks = []) {k : Uuid × String}
    {earlier : List LiveReport}
    (hearlier : s₀.db.get ⟨.mapCurrHeights, k⟩ = standing a earlier) :
    ∃ reports, List.Forall₂ Brings (commitsFor es k) reports ∧
      s.db.get ⟨.mapCurrHeights, k⟩ = standing a (reports ++ earlier) := by
  have hpromised := h.promised (P := .free) (C := fun _ _ => True)
    (G := fun j => { commit := Reported a j })
    (Q := fun _ _ _ _ => True) (fun _ db _ => body_live db)
      (fun s _ _ => s.admits_true) trivial htasks
  have hmine : ∀ e ∈ es, decide (e.job.key = k) = true → ∃ r, Brings e r ∧
      e.post.get ⟨.mapCurrHeights, k⟩ =
        some (LiveRow.upserted a r (e.pre.get ⟨.mapCurrHeights, k⟩)) := by
    intro e he hk
    obtain ⟨htakes, now, hnow, hpost⟩ := (hpromised e he).2
    obtain rfl : e.job.key = k := of_decide_eq_true hk
    exact ⟨_, ⟨htakes, now, hnow, rfl⟩, by rw [hpost, Store.get_put_self]⟩
  have hother : ∀ e ∈ es, decide (e.job.key = k) = false →
      e.post.get ⟨.mapCurrHeights, k⟩ = e.pre.get ⟨.mapCurrHeights, k⟩ := by
    intro e he hk
    obtain ⟨-, now, -, hpost⟩ := (hpromised e he).2
    rw [hpost]
    exact Store.get_put_of_ne (by simpa using of_decide_eq_false hk)
  obtain ⟨reports, hbrings, hrow⟩ :=
    h.replayed (fun r old => some (LiveRow.upserted a r old)) _ Brings hmine hother
  exact ⟨reports, hbrings, by rw [hrow, hearlier, foldr_standing]⟩

end Dd2Server.LiveHeights
