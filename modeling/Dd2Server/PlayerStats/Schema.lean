import Dd2Server.Boards.GlobalBoard
import Dd2Server.Json
import Dd2Server.Queries.Collectibles

/-!
# The statistics of a player

What a client reports, and the columns that keep it.  A counter is a `u32` that goes to an `INTEGER`
and back with all its bits.  The seconds are an `i64`, and where they do not fit an `INTEGER` the
column holds zero.
-/

namespace Dd2Server

/-- Where a number stands in the order of PostgreSQL: zeros are equal, and so are NaNs, above
everything else. -/
def F32.place (x : F32) : Int :=
  if 255 * 2 ^ 23 < x.abs then 2 ^ 31
  else if x.bits.toNat < 2 ^ 31 then x.abs
  else -x.abs

namespace PlayerStats

open Boards Machine

/-- The statistics that a client reports and reads. -/
structure Stats where
  secondsSpentInMap : BitVec 64
  nbJumps : BitVec 32
  nbFalls : BitVec 32
  nbFloorsFallen : BitVec 32
  lastPbSetTs : BitVec 32
  totalDistFallen : F32
  pbHeight : F32
  pbFloor : BitVec 32
  nbResets : BitVec 32
  ggsTriggered : BitVec 32
  titleGagsTriggered : BitVec 32
  titleGagsSpecialTriggered : BitVec 32
  byeByesTriggered : BitVec 32
  monumentTriggers : Value
  reachedFloorCount : Value
  floorVoiceLinesPlayed : Value
  extra : Option Value

/-- The columns that a report sets.  A `DOUBLE PRECISION` holds a binary32 number exactly. -/
structure StatsColumns where
  secondsSpentInMap : BitVec 32
  nbJumps : BitVec 32
  nbFalls : BitVec 32
  nbFloorsFallen : BitVec 32
  lastPbSetTs : Option Time
  totalDistFallen : F32
  pbHeight : F32
  pbFloor : BitVec 32
  nbResets : BitVec 32
  ggsTriggered : BitVec 32
  titleGagsTriggered : BitVec 32
  titleGagsSpecialTriggered : BitVec 32
  byeByesTriggered : BitVec 32
  monumentTriggers : Value
  reachedFloorCount : Value
  floorVoiceLinesPlayed : Value
  extra : Value

/-- A row of `stats`, keyed by user. -/
structure StatsRow where
  columns : StatsColumns
  updateCount : BitVec 32
  ts : Time

/-- A row of `stats_archive`. -/
structure StatsArchiveRow where
  userId : Uuid
  columns : StatsColumns
  updateCount : BitVec 32
  rankAtTime : Nat

/-- The table `stats`. -/
abbrev StatsTable := AList fun _ : Uuid => StatsRow

/-- A row of `stats` with its key. -/
abbrev StatsEntry := Sigma fun _ : Uuid => StatsRow

structure StatsDb where
  stats : StatsTable
  archive : List StatsArchiveRow

/-- `to_i32().unwrap_or(0)`. -/
def toI32OrZero (x : BitVec 64) : BitVec 32 :=
  if -2 ^ 31 ≤ x.toInt ∧ x.toInt < 2 ^ 31 then x.setWidth 32 else 0

/-- What the three statements that write a report give as its columns. -/
def Stats.columns (s : Stats) : StatsColumns where
  secondsSpentInMap := toI32OrZero s.secondsSpentInMap
  nbJumps := s.nbJumps
  nbFalls := s.nbFalls
  nbFloorsFallen := s.nbFloorsFallen
  lastPbSetTs := some (s.lastPbSetTs.toNat * 1000000)
  totalDistFallen := s.totalDistFallen
  pbHeight := s.pbHeight
  pbFloor := s.pbFloor
  nbResets := s.nbResets
  ggsTriggered := s.ggsTriggered
  titleGagsTriggered := s.titleGagsTriggered
  titleGagsSpecialTriggered := s.titleGagsSpecialTriggered
  byeByesTriggered := s.byeByesTriggered
  monumentTriggers := s.monumentTriggers
  reachedFloorCount := s.reachedFloorCount
  floorVoiceLinesPlayed := s.floorVoiceLinesPlayed
  extra := s.extra.getD (.object [])

/-- The columns as they are read. -/
def StatsColumns.stats (c : StatsColumns) : Stats where
  secondsSpentInMap := c.secondsSpentInMap.signExtend 64
  nbJumps := c.nbJumps
  nbFalls := c.nbFalls
  nbFloorsFallen := c.nbFloorsFallen
  lastPbSetTs := (c.lastPbSetTs.map timestampU32).getD 0
  totalDistFallen := c.totalDistFallen
  pbHeight := c.pbHeight
  pbFloor := c.pbFloor
  nbResets := c.nbResets
  ggsTriggered := c.ggsTriggered
  titleGagsTriggered := c.titleGagsTriggered
  titleGagsSpecialTriggered := c.titleGagsSpecialTriggered
  byeByesTriggered := c.byeByesTriggered
  monumentTriggers := c.monumentTriggers
  reachedFloorCount := c.reachedFloorCount
  floorVoiceLinesPlayed := c.floorVoiceLinesPlayed
  extra := some c.extra

/-! ## What survives -/

/-- The seconds fit an `INTEGER`. -/
def Stats.Fits (s : Stats) : Prop := FitsS 32 s.secondsSpentInMap.toInt

instance (s : Stats) : Decidable s.Fits := inferInstanceAs (Decidable (_ ∧ _))

theorem toI32OrZero_signExtend (x : BitVec 64) :
    (toI32OrZero x).signExtend 64 = x ↔ FitsS 32 x.toInt := by
  unfold toI32OrZero FitsS
  split
  case isTrue h =>
    refine iff_of_true ?_ h
    have hsame : (x.setWidth 32).toInt = x.toInt := by
      rw [BitVec.toInt_setWidth, Int.bmod_def]
      have hx := x.toInt_eq_toNat_cond
      have hlt := x.isLt
      split <;> split at hx <;> omega
    refine BitVec.eq_of_toInt_eq ?_
    rw [BitVec.toInt_signExtend_of_le (by decide), hsame]
  case isFalse h =>
    refine iff_of_false (fun hx => h ?_) h
    rw [← hx]
    decide

theorem timestampU32_secs (x : BitVec 32) : timestampU32 (x.toNat * 1000000) = x := by
  rw [timestampU32, Int.mul_ediv_cancel _ (by decide), BitVec.ofInt_natCast, BitVec.ofNat_toNat,
    BitVec.setWidth_eq]

/-- What is read is what was reported, with an empty object for no extra, exactly if the seconds
fit. -/
theorem stats_columns_iff (s : Stats) :
    s.columns.stats = { s with extra := some (s.extra.getD (.object [])) } ↔ s.Fits := by
  rw [Stats.Fits, ← toI32OrZero_signExtend]
  constructor
  · intro h
    exact congrArg Stats.secondsSpentInMap h
  · intro h
    simp only [Stats.columns, StatsColumns.stats, Option.map_some, Option.getD_some,
      timestampU32_secs, h]

end PlayerStats

end Dd2Server
