import Dd2Server.PlayerStats.Queries

/-!
# Downgrades

The `UPDATE` of a downgrade has `pb_height <= $6`: it takes the requests that are not below the
stored height, where it should take those that are not above it.  The two agree on an equal height
alone.
-/

namespace Dd2Server.PlayerStats

open Machine

variable {db : StatsDb} {now : Time} {userId : Uuid} {stats : Stats} {r : StatsRow}

/-- How many updates a row still takes. -/
def StatsRow.room (r : StatsRow) : Nat := (2 ^ 31 - 1 - r.updateCount.toInt).toNat

theorem saddOverflow_one_iff (r : StatsRow) :
    r.updateCount.saddOverflow 1 = true ↔ r.room = 0 := by
  have h1 : (1 : BitVec 32).toInt = 1 := by decide
  have hlo := r.updateCount.le_toInt
  have hhi := r.updateCount.toInt_lt
  simp only [BitVec.saddOverflow, Bool.or_eq_true, decide_eq_true_eq, h1, StatsRow.room]
  omega

theorem room_succ {r r' : StatsRow} (h : r.room ≠ 0) (hc : r'.updateCount = r.updateCount + 1) :
    r'.room + 1 = r.room := by
  have h1 : (1 : BitVec 32).toInt = 1 := by decide
  have hlo := r.updateCount.le_toInt
  have hhi := r.updateCount.toInt_lt
  unfold StatsRow.room at h ⊢
  obtain ⟨-, hadd⟩ := addS_eq (x := r.updateCount) (y := 1) ⟨by omega, by omega⟩
  rw [hc, hadd, h1]
  omega

/-! ## One request -/

/-- A downgrade is taken, and its columns stored, where the row has room and the request is not
below it. -/
theorem downgradeStats_ok (hr : db.stats.lookup userId = some r) (hroom : r.room ≠ 0)
    (hle : r.columns.pbHeight.place ≤ stats.pbHeight.place) :
    downgradeStats db now userId stats =
      (.ok (),
        { db with stats := db.stats.insert userId ⟨stats.columns,
          r.updateCount + 1, now⟩ }) := by
  have hguard : (db.stats.lookup userId).filter (heightGuard stats) = some r := by
    rw [hr, Option.filter_some, heightGuard, decide_eq_true hle, if_pos rfl]
  rw [downgradeStats, updateRow, hguard]
  simp only [mt (saddOverflow_one_iff r).1 hroom, Bool.false_eq_true, if_false]

theorem downgradeStats_full (now : Time) (stats : Stats) (hr : db.stats.lookup userId = some r)
    (hroom : r.room = 0) : ∃ e, downgradeStats db now userId stats = (.error e, db) := by
  rw [downgradeStats, updateRow]
  cases hguard : (db.stats.lookup userId).filter (heightGuard stats) with
  | none => exact ⟨_, rfl⟩
  | some r' =>
      obtain rfl : r = r' := by
        rw [hr] at hguard
        exact Option.some.inj ((Option.filter_eq_some_iff.1 hguard).1)
      simp only [(saddOverflow_one_iff r).2 hroom, if_true]
      exact ⟨_, rfl⟩

theorem downgradeStats_below (hr : db.stats.lookup userId = some r)
    (hlt : stats.pbHeight.place < r.columns.pbHeight.place) :
    downgradeStats db now userId stats = (.error .rowNotFound, db) := by
  have hguard : (db.stats.lookup userId).filter (heightGuard stats) = none := by
    rw [hr, Option.filter_some, heightGuard, decide_eq_false (not_le.2 hlt),
      if_neg Bool.false_ne_true]
  rw [downgradeStats, updateRow, hguard]

/-- A downgrade succeeds exactly if the requested height is not above the stored one.  Then it
stores the requested values, and otherwise it changes nothing. -/
def DowngradeRight (db : StatsDb) (now : Time) (userId : Uuid) (stats : Stats)
    (r : StatsRow) : Prop :=
  ((downgradeStats db now userId stats).1 = .ok () ↔
    stats.pbHeight.place ≤ r.columns.pbHeight.place) ∧
  ((downgradeStats db now userId stats).1 = .ok () →
    ∃ r', (downgradeStats db now userId stats).2.stats.lookup userId = some r' ∧
      r'.columns.stats = { stats with extra := some (stats.extra.getD (.object [])) }) ∧
  ((downgradeStats db now userId stats).1 ≠ .ok () →
    (downgradeStats db now userId stats).2 = db)

theorem downgradeRight_iff (hr : db.stats.lookup userId = some r) :
    DowngradeRight db now userId stats r ↔
    if r.room = 0 then r.columns.pbHeight.place < stats.pbHeight.place
    else stats.pbHeight.place = r.columns.pbHeight.place ∧ stats.Fits := by
  split
  case isTrue hroom =>
    obtain ⟨e, he⟩ := downgradeStats_full now stats hr hroom
    rw [DowngradeRight, he]
    constructor
    · rintro ⟨hiff, -, -⟩
      exact not_le.1 fun hle => nomatch hiff.2 hle
    · intro hlt
      exact ⟨⟨fun h => (nomatch h), fun hle => absurd hle (not_le.2 hlt)⟩,
        fun h => (nomatch h), fun _ => rfl⟩
  case isFalse hroom =>
    rcases lt_trichotomy stats.pbHeight.place r.columns.pbHeight.place with hlt | heq | hgt
    · rw [DowngradeRight, downgradeStats_below hr hlt]
      exact iff_of_false (fun h => nomatch h.1.2 hlt.le) fun h => hlt.ne h.1
    · rw [DowngradeRight, downgradeStats_ok hr hroom heq.ge, and_iff_right heq]
      constructor
      · rintro ⟨-, hstored, -⟩
        obtain ⟨r', hr', hcolumns⟩ := hstored rfl
        rw [AList.lookup_insert] at hr'
        obtain rfl := Option.some.inj hr'
        exact (stats_columns_iff stats).1 hcolumns
      · intro hfits
        refine ⟨iff_of_true rfl heq.le, fun _ => ⟨_, AList.lookup_insert _, ?_⟩,
          fun h => absurd rfl h⟩
        exact (stats_columns_iff stats).2 hfits
    · rw [DowngradeRight, downgradeStats_ok hr hroom hgt.le]
      exact iff_of_false (fun h => absurd (h.1.1 rfl) (not_le.2 hgt)) fun h => hgt.ne' h.1

/-- A client is told that its height must not be above the stored one exactly where it is below it,
or the row takes no more updates. -/
theorem handleDowngradeStats_told_iff (debug : Boards.SqlxError → String)
    (now : Time) (stats : Stats) (hr : db.stats.lookup userId = some r) :
      (handleDowngradeStats debug db now userId stats).2.1 ≠ [] ↔
      stats.pbHeight.place < r.columns.pbHeight.place ∨ r.room = 0 := by
  rw [handleDowngradeStats]
  by_cases hroom : r.room = 0
  · obtain ⟨e, he⟩ := downgradeStats_full now stats hr hroom
    rw [he]
    exact iff_of_true (List.cons_ne_nil _ _) (.inr hroom)
  · rcases lt_or_ge stats.pbHeight.place r.columns.pbHeight.place with hlt | hle
    · rw [downgradeStats_below hr hlt]
      exact iff_of_true (List.cons_ne_nil _ _) (.inl hlt)
    · rw [downgradeStats_ok hr hroom hle]
      exact iff_of_false (fun h => h rfl) (not_or.2 ⟨not_lt.2 hle, hroom⟩)

/-! ## Any number of requests -/

def storedHeight (db : StatsDb) (userId : Uuid) : Option Int :=
  (db.stats.lookup userId).map (·.columns.pbHeight.place)

/-- No request of a run raises the stored height. -/
def NeverIncreases (userId : Uuid) : StatsDb → List (Time × Stats) → Prop
  | _, [] => True
  | db, (now, stats) :: qs =>
      (∀ h ∈ storedHeight (downgradeStats db now userId stats).2 userId,
        ∀ h₀ ∈ storedHeight db userId, h ≤ h₀) ∧
        NeverIncreases userId (downgradeStats db now userId stats).2 qs

/-- Every request above a height comes after `room` requests for that height. -/
def Harmless (h : Int) (room : Nat) (qs : List (Time × Stats)) : Prop :=
  ∀ pre q post, qs = pre ++ q :: post → h < q.2.pbHeight.place →
    room ≤ pre.countP fun q => q.2.pbHeight.place = h

theorem harmless_zero (h : Int) (qs : List (Time × Stats)) : Harmless h 0 qs :=
  fun _ _ _ _ _ => Nat.zero_le _

theorem harmless_cons_iff {h : Int} {room : Nat} {q : Time × Stats} {qs : List (Time × Stats)} :
    Harmless h room (q :: qs) ↔ (h < q.2.pbHeight.place → room = 0) ∧
      Harmless h (if q.2.pbHeight.place = h then room - 1 else room) qs := by
  constructor
  · intro hq
    refine ⟨fun hlt => Nat.le_zero.1 (hq [] q qs rfl hlt), fun pre q' post hqs hlt => ?_⟩
    have hle := hq (q :: pre) q' post (by rw [hqs, List.cons_append]) hlt
    rw [List.countP_cons] at hle
    split
    case isTrue heq =>
      rw [if_pos (decide_eq_true heq)] at hle
      omega
    case isFalse hne =>
      rwa [if_neg (by simpa using hne), Nat.add_zero] at hle
  · rintro ⟨hfirst, hrest⟩ pre q' post hqs hlt
    cases pre with
    | nil =>
        obtain ⟨rfl, rfl⟩ := List.cons.inj hqs
        rw [hfirst hlt]
        exact Nat.zero_le _
    | cons p pre =>
        obtain ⟨rfl, rfl⟩ := List.cons.inj hqs
        have hle := hrest pre q' post rfl hlt
        rw [List.countP_cons]
        split at hle
        case isTrue heq =>
          rw [if_pos (decide_eq_true heq)]
          omega
        case isFalse hne => omega

/-- The stored height never increases exactly where every request above it comes too late to be
counted. -/
theorem neverIncreases_iff {qs : List (Time × Stats)} (hr : db.stats.lookup userId = some r) :
    NeverIncreases userId db qs ↔ Harmless r.columns.pbHeight.place r.room qs := by
  induction qs generalizing db r with
  | nil => exact iff_of_true trivial fun pre q post h => by simp at h
  | cons q qs ih =>
      obtain ⟨now, stats⟩ := q
      have hstored : storedHeight db userId = some r.columns.pbHeight.place := by
        rw [storedHeight, hr, Option.map_some]
      rw [NeverIncreases, harmless_cons_iff]
      by_cases hroom : r.room = 0
      · obtain ⟨e, he⟩ := downgradeStats_full now stats hr hroom
        rw [he, hstored, hroom, ih hr, hroom]
        simp [harmless_zero]
      · rcases lt_trichotomy stats.pbHeight.place r.columns.pbHeight.place with hlt | heq | hgt
        · rw [downgradeStats_below hr hlt, hstored, ih hr, if_neg hlt.ne]
          simp [not_lt.2 hlt.le]
        · rw [downgradeStats_ok hr hroom heq.ge]
          let r' : StatsRow := ⟨stats.columns, r.updateCount + 1, now⟩
          have hlookup : (db.stats.insert userId r').lookup userId = some r' :=
            AList.lookup_insert _
          have hroom' : r'.room = r.room - 1 := by
            have hsucc : r'.room + 1 = r.room := room_succ hroom rfl
            omega
          have hplace : r'.columns.pbHeight.place = r.columns.pbHeight.place := heq
          rw [ih (r := r') hlookup, hroom', hplace, if_pos heq]
          refine and_congr_left' (iff_of_true ?_ fun hlt => absurd heq hlt.ne')
          simp only [storedHeight, hr]
          rw [hlookup]
          simp [hplace]
        · refine iff_of_false (fun h => ?_) fun h => hroom (h.1 hgt)
          rw [downgradeStats_ok hr hroom hgt.le] at h
          refine absurd (h.1 stats.pbHeight.place ?_ _ hstored) (not_le.2 hgt)
          rw [storedHeight, AList.lookup_insert]
          rfl

/-- Which downgrades of a row are right, and which runs of them never increase the height. -/
theorem downgrade_iff (db : StatsDb) (userId : Uuid) (r : StatsRow)
    (hr : db.stats.lookup userId = some r) :
    (∀ now stats, DowngradeRight db now userId stats r ↔
      if r.room = 0 then r.columns.pbHeight.place < stats.pbHeight.place
      else stats.pbHeight.place = r.columns.pbHeight.place ∧ stats.Fits) ∧
    ∀ qs, NeverIncreases userId db qs ↔ Harmless r.columns.pbHeight.place r.room qs :=
  ⟨fun _ _ => downgradeRight_iff hr, fun _ => neverIncreases_iff hr⟩

/-- Statistics with a height alone. -/
def statsAt (height : F32) : Stats where
  secondsSpentInMap := 0
  nbJumps := 0
  nbFalls := 0
  nbFloorsFallen := 0
  lastPbSetTs := 0
  totalDistFallen := ⟨0⟩
  pbHeight := height
  pbFloor := 0
  nbResets := 0
  ggsTriggered := 0
  titleGagsTriggered := 0
  titleGagsSpecialTriggered := 0
  byeByesTriggered := 0
  monumentTriggers := .array []
  reachedFloorCount := .array []
  floorVoiceLinesPlayed := .array []
  extra := none

/-- A player who stands at 10. -/
def atTenRow : StatsRow := ⟨(statsAt ⟨0x41200000⟩).columns, 0, 0⟩

def atTenStats : StatsDb := ⟨AList.insert 1 atTenRow ∅, []⟩

theorem downgrade_iff_atTen : DowngradeRight atTenStats 0 1 (statsAt ⟨0x41200000⟩) atTenRow ∧
    NeverIncreases 1 atTenStats [(0, statsAt ⟨0x40A00000⟩)] := by
  obtain ⟨hone, hrun⟩ := downgrade_iff atTenStats 1 atTenRow (AList.lookup_insert _)
  refine ⟨(hone _ _).2 (by decide), (hrun _).2 fun pre q post h hlt => ?_⟩
  cases pre with
  | nil =>
      obtain ⟨rfl, -⟩ := List.cons.inj h
      exact absurd hlt (by decide)
  | cons p pre => simp at h

/-- A downgrade to 5 is refused, and one to 20 raises the height. -/
theorem atTen_downgrades_wrong :
    ¬DowngradeRight atTenStats 0 1 (statsAt ⟨0x40A00000⟩) atTenRow ∧
    ¬NeverIncreases 1 atTenStats [(0, statsAt ⟨0x41A00000⟩)] := by
  have hr : atTenStats.stats.lookup 1 = some atTenRow := AList.lookup_insert _
  rw [downgradeRight_iff hr, neverIncreases_iff hr]
  refine ⟨by decide, fun h => ?_⟩
  exact absurd (h [] _ [] rfl (by decide)) (by decide)

end Dd2Server.PlayerStats
