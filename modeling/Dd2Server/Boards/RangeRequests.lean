import Dd2Server.Boards.GlobalBoard

/-!
# Requests for a range of a board

A client asks for a range of the global board, of a map's or of a minigame's by two `u32`s.  The
global board takes them as `i32`s, the other two as `i64`s.
-/

namespace Dd2Server.Boards

open Machine

/-- The requests for a range of a board. -/
inductive RangeRequest
  | getGlobalLB (start end' : BitVec 32)
  | getMapLB (uid : String) (start end' : BitVec 32)
  | getMinigameLB (uid slug : String) (start end' : BitVec 32)

namespace RangeRequest

def start : RangeRequest → Nat
  | getGlobalLB start _ | getMapLB _ start _ | getMinigameLB _ _ start _ => start.toNat

def end' : RangeRequest → Nat
  | getGlobalLB _ end' | getMapLB _ _ end' | getMinigameLB _ _ _ end' => end'.toNat

/-- The row that the request calls first. -/
def first : RangeRequest → Nat
  | getGlobalLB .. => 1
  | getMapLB .. | getMinigameLB .. => 0

/-- The query that the dispatch of a request comes to. -/
def query : RangeRequest → Checked (Except SqlxError (Option Range))
  | getGlobalLB start end' => return .ok (← GlobalTables.getGlobalLbRange start end')
  | getMapLB uid start end' => do
      return (← Tables.getMapLeaderboardRange uid (start.setWidth 64) (end'.setWidth 64)).map some
  | getMinigameLB _ _ start end' =>
      return .ok (some (← MinigameTables.getMinigameLeaderboardRange (start.setWidth 64)
        (end'.setWidth 64)))

/-- The request runs the query for its rows, as exact integers. -/
def Runs (q : RangeRequest) (b : Build) : Prop :=
  ∃ r : Range, q.query b = some (.ok (some r)) ∧ r.Exact (max (q.end' - q.start) 0)
    (max (q.start - q.first) 0)

end RangeRequest

open RangeRequest

variable {b : Build} {uid slug : String} {start end' : BitVec 32}

theorem getGlobalLB_runs_iff : (getGlobalLB start end').Runs b ↔
    start.toNat ≤ end'.toNat ∧ end'.toNat < 2 ^ 31 := by
  have hs := start.toInt_eq_toNat_cond
  have he := end'.toInt_eq_toNat_cond
  have hslt := start.isLt
  have helt := end'.isLt
  constructor
  · rintro ⟨r, hquery, hlimit, hoffset⟩
    have hrange : GlobalTables.getGlobalLbRange start end' b = some (some r) := by
      simp only [query, bind_run, Option.bind_eq_some_iff] at hquery
      obtain ⟨o, ho, hr⟩ := hquery
      rw [ho]
      exact congrArg some (Except.ok.inj (Option.some.inj hr))
    obtain ⟨hle, hl, ho⟩ := of_getGlobalLbRange hrange
    rw [hl] at hlimit
    rw [ho] at hoffset
    simp only [RangeRequest.start, RangeRequest.end', first, Int.bmod_def] at hlimit hoffset
    -- the offset is lost past `i32::MAX`, and the limit where the casts reverse the range
    split at hs <;> split at he <;> omega
  · rintro ⟨hle, hlt⟩
    rw [if_pos (by omega)] at hs he
    obtain ⟨r, hr, hexact⟩ := getGlobalLbRange_some b start end' (by omega) (by omega)
    refine ⟨r, ?_, ?_⟩
    · rw [query, bind_run, hr]
      rfl
    · rw [hs, he] at hexact
      simp only [RangeRequest.start, RangeRequest.end', first]
      rwa [max_eq_left (by omega)]

/-- A range that is reversed as `i32`s is answered without a query. -/
theorem getGlobalLB_none_iff :
    (getGlobalLB start end').query b = some (.ok none) ↔ end'.toInt < start.toInt := by
  constructor
  · intro h
    refine not_le.1 fun hle => ?_
    simp only [query, bind_run, Option.bind_eq_some_iff] at h
    obtain ⟨o, ho, hr⟩ := h
    obtain rfl : o = none := Except.ok.inj (Option.some.inj hr)
    have hslt : end'.slt start = false := by
      rw [BitVec.slt]
      exact decide_eq_false (not_lt.2 hle)
    rw [GlobalTables.getGlobalLbRange, hslt, if_neg Bool.false_ne_true, bind_run,
      Option.bind_eq_some_iff] at ho
    obtain ⟨limit, -, ho⟩ := ho
    rw [bind_run, Option.bind_eq_some_iff] at ho
    obtain ⟨offset, -, ho⟩ := ho
    cases ho
  · intro h
    rw [query, bind_run, getGlobalLbRange_none h]
    rfl

theorem getMapLB_runs_iff : (getMapLB uid start end').Runs b ↔
    Text.byteLen uid ≤ 30 ∧ start.toNat ≤ end'.toNat := by
  have hs : (start.setWidth 64).toInt = start.toNat := toInt_setWidth_of_lt start (by decide)
  have he : (end'.setWidth 64).toInt = end'.toNat := toInt_setWidth_of_lt end' (by decide)
  have hslt := start.isLt
  have helt := end'.isLt
  obtain ⟨hlimit, hlimitInt⟩ := subS_eq (x := end'.setWidth 64) (y := start.setWidth 64)
    ⟨by omega, by omega⟩
  rw [hs, he] at hlimitInt
  rcases Nat.lt_or_ge 30 (Text.byteLen uid) with hlong | hshort
  · refine iff_of_false ?_ fun h => absurd h.1 (not_le.2 hlong)
    rintro ⟨r, hquery, -⟩
    rw [query, Tables.getMapLeaderboardRange, if_pos hlong] at hquery
    cases hquery
  · have hquery : (getMapLB uid start end').query b =
        some (.ok (some ⟨end'.setWidth 64 - start.setWidth 64, start.setWidth 64⟩)) := by
      rw [query, Tables.getMapLeaderboardRange, if_neg (not_lt.2 hshort), hlimit]
      rfl
    rw [and_iff_right hshort]
    constructor
    · rintro ⟨r, hr, hl, -⟩
      rw [hquery] at hr
      obtain rfl := Option.some.inj (Except.ok.inj (Option.some.inj hr))
      simp only [RangeRequest.start, RangeRequest.end'] at hl
      omega
    · intro hle
      refine ⟨_, hquery, ?_, ?_⟩
      · rw [hlimitInt]
        exact (max_eq_left (sub_nonneg.2 (Int.ofNat_le.2 hle))).symm
      · rw [hs]
        simp only [RangeRequest.start, first]
        omega

theorem getMinigameLB_runs : (getMinigameLB uid slug start end').Runs b := by
  have hs : (start.setWidth 64).toInt = start.toNat := toInt_setWidth_of_lt start (by decide)
  have he : (end'.setWidth 64).toInt = end'.toNat := toInt_setWidth_of_lt end' (by decide)
  have h0 : (0 : BitVec 64).toInt = 0 := by decide
  have hslt := start.isLt
  have helt := end'.isLt
  obtain ⟨hlimit, hlimitInt⟩ := subS_eq (x := end'.setWidth 64) (y := start.setWidth 64)
    ⟨by omega, by omega⟩
  rw [hs, he] at hlimitInt
  refine ⟨⟨maxS (end'.setWidth 64 - start.setWidth 64) 0, start.setWidth 64⟩, ?_, ?_, ?_⟩
  · rw [query, MinigameTables.getMinigameLeaderboardRange, hlimit]
    rfl
  · rw [toInt_maxS, hlimitInt, h0]
    rfl
  · rw [hs]
    simp only [RangeRequest.start, first]
    omega

/-- Which range requests run the query for their rows, in either build. -/
theorem range_requests_run_iff (b : Build) (uid slug : String) (start end' : BitVec 32) :
    ((getGlobalLB start end').Runs b ↔ start.toNat ≤ end'.toNat ∧ end'.toNat < 2 ^ 31) ∧
    ((getGlobalLB start end').query b = some (.ok none) ↔ end'.toInt < start.toInt) ∧
    ((getMapLB uid start end').Runs b ↔
      Text.byteLen uid ≤ 30 ∧ start.toNat ≤ end'.toNat) ∧
    (getMinigameLB uid slug start end').Runs b ∧
    ((getGlobalLB start end').Runs b ∧ (getMapLB uid start end').Runs b ∧
        (getMinigameLB uid slug start end').Runs b ↔
      Text.byteLen uid ≤ 30 ∧ start.toNat ≤ end'.toNat ∧ end'.toNat < 2 ^ 31) := by
  refine ⟨getGlobalLB_runs_iff, getGlobalLB_none_iff, getMapLB_runs_iff, getMinigameLB_runs, ?_⟩
  rw [getGlobalLB_runs_iff, getMapLB_runs_iff, and_iff_left getMinigameLB_runs]
  exact ⟨fun ⟨⟨hle, hlt⟩, hlen, _⟩ => ⟨hlen, hle, hlt⟩,
    fun ⟨hlen, hle, hlt⟩ => ⟨⟨hle, hlt⟩, hlen, hle⟩⟩

/-- Past `i32::MAX` the global board shows its top, and a reversed range of a map is a negative
limit. -/
theorem range_requests_wrong : ¬(getGlobalLB 2147483749 2147483849).Runs .release ∧
    ¬(getMapLB "m" 10 5).Runs .release := by
  rw [getGlobalLB_runs_iff, getMapLB_runs_iff]
  decide

end Dd2Server.Boards
