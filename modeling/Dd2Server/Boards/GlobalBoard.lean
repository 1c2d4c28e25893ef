import Dd2Server.Boards.Pages
import Dd2Server.Machine.Binary64

/-!
# The global leaderboard

The view `ranked_lb_view` and the query for a range of it.  The game client counts the rows from 1,
and the query takes one off its start; a page over HTTP counts from 0 and goes through the same
query.  So every page but the first begins with the last row of the page before, and the last rows
fall off the end.
-/

namespace Dd2Server.Boards

open Machine Paging

/-- The tables that the global board reads. -/
structure GlobalTables where
  db : Db
  displayName : Uuid → Option String
  color : Uuid → Option (List ℚ)

/-- A row of `ranked_lb_view`. -/
structure RankedRow where
  userId : Uuid
  displayName : Option String
  rank : Nat
  height : Height
  ts : Time
  updateCount : Int
  deriving DecidableEq

structure LBEntry where
  wsid : Uuid
  height : Height
  rank : Nat
  ts : Time
  displayName : Option String
  updateCount : Int
  color : Option Color
  deriving DecidableEq

/-- The conversion to what a client is sent, with the cast of a height to `f32`. -/
def LBEntry.into (asF32 : Height → F32) (e : LBEntry) : LeaderboardEntry F32 Color where
  rank := BitVec.ofNat 32 e.rank
  wsid := e.wsid.text
  height := asF32 e.height
  ts := timestampU32 e.ts
  name := e.displayName.getD "?"
  updateCount := e.updateCount
  color := e.color.getD (1, 1, 1)

def vecToColor : List ℚ → Option Color
  | r :: g :: b :: _ => some (r, g, b)
  | _ => none

namespace GlobalTables

variable (t : GlobalTables)

/-- The rows of `leaderboard` without the shadow-banned users. -/
def shownRows : List (Uuid × LeaderboardRow) :=
  (t.db.rows .leaderboard).filter fun e => (t.db.get ⟨.shadowBans, e.1⟩).isNone

/-- `ranked_lb_view`, as a table: its definition orders nothing. -/
def rankedLbView : List RankedRow :=
  t.shownRows.map fun e =>
    { userId := e.1, displayName := t.displayName e.1
      rank := rank (fun x : Uuid × LeaderboardRow => OrderDual.toDual x.2.height) t.shownRows e
      height := e.2.height, ts := e.2.ts, updateCount := e.2.updateCount }

/-- A row of the range query. -/
def lbEntry (r : RankedRow) : LBEntry where
  wsid := r.userId
  height := r.height
  rank := r.rank
  ts := r.ts
  displayName := r.displayName
  updateCount := r.updateCount
  color := (t.color r.userId).bind vecToColor

def getUserInLb (userId : Uuid) : Option LBEntry :=
  (t.rankedLbView.find? (·.userId = userId)).map t.lbEntry

/-- The parameters of the query of `get_global_lb`, unless it runs none. -/
def getGlobalLbRange (start end' : BitVec 32) : Checked (Option Range) :=
  if end'.slt start then return none
  else do
    let limit ← subS end' start
    let offset ← subS (start.signExtend 64) 1
    return some { limit := limit.signExtend 64, offset := maxS offset 0 }

def getGlobalLb (view : List RankedRow) (start end' : BitVec 32) :
    Checked (Except SqlxError (List LBEntry)) := do
  match ← getGlobalLbRange start end' with
  | none => return .ok []
  | some range =>
      return do
        let rows ← range.select view
        return rows.map t.lbEntry

def handleGetGlobalLb (asF32 : Height → F32) (view : List RankedRow) (page : BitVec 32) :
    Checked (Except Rejection (List (LeaderboardEntry F32 Color))) := do
  let start ← mulU page 100
  let end' ← addS start 100
  let r ← t.getGlobalLb view start end'
  return (r.map fun es => es.map (LBEntry.into asF32)).mapError .api

def getGlobalLbCount (view : List RankedRow) : Nat := view.length

/-- `(r as f64 / 100.0).ceil() as i64`. -/
def pagesOf (len : Nat) : Int := min ⌈Binary64.round (Binary64.round len / 100)⌉ (2 ^ 63 - 1)

/-- The length of the board and the number of its pages. -/
def handleGetGlobalLbLen (view : List RankedRow) : Nat × Int :=
  (getGlobalLbCount view, pagesOf (getGlobalLbCount view))

end GlobalTables

open GlobalTables

/-! ## Which query a range is -/

section

variable {b : Build} {start end' : BitVec 32}

theorem getGlobalLbRange_none (h : end'.toInt < start.toInt) :
    getGlobalLbRange start end' b = some none := by
  rw [getGlobalLbRange, BitVec.slt, decide_eq_true h, if_pos rfl]
  rfl

/-- A range that is not reversed. -/
theorem getGlobalLbRange_some (b : Build) (start end' : BitVec 32) (h : start.toInt ≤ end'.toInt)
    (hfits : end'.toInt - start.toInt < 2 ^ 31) :
    ∃ r : Range, getGlobalLbRange start end' b = some (some r) ∧
      r.Exact (end'.toInt - start.toInt) (max (start.toInt - 1) 0) := by
  have h1 : (1 : BitVec 64).toInt = 1 := by decide
  have h0 : (0 : BitVec 64).toInt = 0 := by decide
  have hlo : -2 ^ 31 ≤ start.toInt := start.le_toInt
  have hhi : start.toInt < 2 ^ 31 := start.toInt_lt
  have hstart : (start.signExtend 64).toInt = start.toInt :=
    BitVec.toInt_signExtend_of_le (by decide)
  obtain ⟨hlimit, hlimitInt⟩ := subS_eq (x := end') (y := start) ⟨by omega, by omega⟩
  obtain ⟨hoffset, hoffsetInt⟩ := subS_eq (x := start.signExtend 64) (y := 1)
    ⟨by rw [hstart, h1]; omega, by rw [hstart, h1]; omega⟩
  have hslt : end'.slt start = false := by
    rw [BitVec.slt]
    exact decide_eq_false (not_lt.2 h)
  refine ⟨⟨(end' - start).signExtend 64, maxS (start.signExtend 64 - 1) 0⟩, ?_, ?_, ?_⟩
  · rw [getGlobalLbRange, hslt, if_neg Bool.false_ne_true, hlimit, hoffset]
    rfl
  · rw [← hlimitInt]
    exact BitVec.toInt_signExtend_of_le (by decide)
  · show (maxS (start.signExtend 64 - 1) 0).toInt = _
    rw [toInt_maxS, hoffsetInt, hstart, h1, h0]

/-- What a query can be, overflow or not. -/
theorem of_getGlobalLbRange {r : Range} (h : getGlobalLbRange start end' b = some (some r)) :
    start.toInt ≤ end'.toInt ∧ r.limit.toInt = (end'.toInt - start.toInt).bmod (2 ^ 32) ∧
      r.offset.toInt = max (start.toInt - 1) 0 := by
  have hle : start.toInt ≤ end'.toInt := by
    refine not_lt.1 fun hlt => ?_
    rw [getGlobalLbRange_none hlt] at h
    cases h
  refine ⟨hle, ?_⟩
  have hlo : -2 ^ 31 ≤ start.toInt := start.le_toInt
  have hhi : start.toInt < 2 ^ 31 := start.toInt_lt
  have hstart : (start.signExtend 64).toInt = start.toInt :=
    BitVec.toInt_signExtend_of_le (by decide)
  have h1 : (1 : BitVec 64).toInt = 1 := by decide
  have h0 : (0 : BitVec 64).toInt = 0 := by decide
  obtain ⟨-, hoffsetInt⟩ := subS_eq (x := start.signExtend 64) (y := 1)
    ⟨by rw [hstart, h1]; omega, by rw [hstart, h1]; omega⟩
  have hslt : end'.slt start = false := by
    rw [BitVec.slt]
    exact decide_eq_false (not_lt.2 hle)
  rw [getGlobalLbRange, hslt, if_neg Bool.false_ne_true, bind_run, Option.bind_eq_some_iff] at h
  obtain ⟨limit, hlimit, h⟩ := h
  rw [bind_run, Option.bind_eq_some_iff] at h
  obtain ⟨offset, hoffset, h⟩ := h
  obtain rfl := Option.some.inj (Option.some.inj h)
  constructor
  · show (limit.signExtend 64).toInt = _
    rw [BitVec.toInt_signExtend_of_le (by decide), eq_of_subS hlimit, BitVec.toInt_sub]
  · show (maxS offset 0).toInt = _
    rw [toInt_maxS, eq_of_subS hoffset, hoffsetInt, hstart, h1, h0]

end

/-! ## Pages -/

section

variable {t : GlobalTables} {asF32 : Height → F32} {view : List RankedRow} {b : Build}

/-- A player has one row in the view. -/
theorem rankedLbView_nodup (t : GlobalTables) : (t.rankedLbView.map RankedRow.userId).Nodup := by
  rw [rankedLbView, List.map_map]
  exact (ReadCommitted.Store.rows_nodup t.db .leaderboard).sublist
    (List.filter_sublist.map Prod.fst)

/-- The number of pages that the length comes with is right where it is less than two. -/
theorem pagesOf_eq {n : Nat} (h : n ≤ 100) : (pagesOf n).toNat = if n = 0 then 0 else 1 := by
  rcases Nat.eq_zero_or_pos n with rfl | hpos
  · simp [pagesOf]
  · have hn : (0 : ℚ) < n := by exact_mod_cast hpos
    have hle : (n : ℚ) ≤ 100 := by exact_mod_cast h
    have hq : (0 : ℚ) < n / 100 := by positivity
    have hceil : ⌈Binary64.round (Binary64.round n / 100)⌉ = 1 := by
      rw [Binary64.round_natCast (by omega), Int.ceil_eq_iff]
      constructor
      · simpa using Binary64.round_pos hq
      · simpa using Binary64.round_le_one hq ((div_le_one (by norm_num)).2 hle)
    rw [pagesOf, hceil, if_neg hpos.ne']
    rfl

theorem two_le_pagesOf {n : Nat} (h : 100 < n) : 2 ≤ (pagesOf n).toNat := by
  have hn : (101 : ℚ) ≤ n := by exact_mod_cast h
  have hpos : (0 : ℚ) < n := by linarith
  have hcast := (abs_le.1 (Binary64.abs_round_sub hpos)).1
  have hq : 0 < Binary64.round n / 100 := div_pos (Binary64.round_pos hpos) (by norm_num)
  have hdiv := (abs_le.1 (Binary64.abs_round_sub hq)).1
  have hone : 1 < Binary64.round (Binary64.round n / 100) := by linarith
  have hceil : 2 ≤ ⌈Binary64.round (Binary64.round n / 100)⌉ := by
    have hlt : (1 : ℤ) < ⌈Binary64.round (Binary64.round n / 100)⌉ :=
      Int.lt_ceil.2 (by exact_mod_cast hone)
    omega
  unfold pagesOf
  omega

/-- The first page begins at the top. -/
theorem handleGetGlobalLb_zero (t : GlobalTables) (asF32 : Height → F32)
    (view : List RankedRow) (b : Build) :
    t.handleGetGlobalLb asF32 view 0 b =
      some (.ok ((view.take 100).map fun r => (t.lbEntry r).into asF32)) := by
  have hstart : mulU (0 : BitVec 32) 100 b = some 0 := rfl
  have hend : addS (0 : BitVec 32) 100 b = some 100 := rfl
  obtain ⟨r, hr, hexact⟩ := getGlobalLbRange_some b 0 100 (by decide) (by decide)
  have hselect : r.select view = .ok (window 100 0 view) := Range.Exact.select hexact view
  simp only [handleGetGlobalLb, getGlobalLb, bind_run, hstart, hend, hr, Option.bind_some,
    pure_run, hselect]
  show some (Except.ok (((window 100 0 view).map t.lbEntry).map (LBEntry.into asF32))) = _
  rw [List.map_map]
  rfl

/-- The second page begins with the last row of the first. -/
theorem handleGetGlobalLb_one (t : GlobalTables) (asF32 : Height → F32)
    (view : List RankedRow) (b : Build) :
    t.handleGetGlobalLb asF32 view 1 b =
      some (.ok ((window 100 99 view).map fun r => (t.lbEntry r).into asF32)) := by
  have hstart : mulU (1 : BitVec 32) 100 b = some 100 := rfl
  have hend : addS (100 : BitVec 32) 100 b = some 200 := rfl
  obtain ⟨r, hr, hexact⟩ := getGlobalLbRange_some b 100 200 (by decide) (by decide)
  have hselect : r.select view = .ok (window 100 99 view) := Range.Exact.select hexact view
  simp only [handleGetGlobalLb, getGlobalLb, bind_run, hstart, hend, hr, Option.bind_some,
    pure_run, hselect]
  show some (Except.ok (((window 100 99 view).map t.lbEntry).map (LBEntry.into asF32))) = _
  rw [List.map_map]
  rfl

/-- The pages read as the whole view. -/
def GlobalPagesRight (t : GlobalTables) (asF32 : Height → F32) (view : List RankedRow)
    (b : Build) : Prop :=
  readPages ((List.range (handleGetGlobalLbLen view).2.toNat).map fun p =>
    t.handleGetGlobalLb asF32 view (BitVec.ofNat 32 p) b) =
      some (view.map fun r => (t.lbEntry r).into asF32)

theorem globalPagesRight_iff (hview : view.Perm t.rankedLbView) :
    GlobalPagesRight t asF32 view b ↔ view.length ≤ 100 := by
  constructor
  · intro hright
    refine not_lt.1 fun hlong => ?_
    obtain ⟨n, hn⟩ := Nat.exists_eq_add_of_le (two_le_pagesOf hlong)
    rw [GlobalPagesRight, handleGetGlobalLbLen, getGlobalLbCount, hn, Nat.add_comm,
      List.range_succ_eq_map, List.range_succ_eq_map] at hright
    simp only [List.map_cons, List.map_map] at hright
    rw [show BitVec.ofNat 32 0 = 0 from rfl, handleGetGlobalLb_zero, readPages,
      Option.map_eq_some_iff] at hright
    obtain ⟨es, hes, hall⟩ := hright
    rw [show BitVec.ofNat 32 (Nat.succ 0) = 1 from rfl, handleGetGlobalLb_one, readPages,
      Option.map_eq_some_iff] at hes
    obtain ⟨es', -, rfl⟩ := hes
    -- position 100 shows the row at position 99 again
    have hrow := congrArg (·[100]?) hall
    have hfirst : ((view.take 100).map fun r => (t.lbEntry r).into asF32).length = 100 := by
      rw [List.length_map, List.length_take_of_le (by omega)]
    have hsecond : ((window 100 99 view).map fun r => (t.lbEntry r).into asF32)[0]? =
        some ((t.lbEntry view[99]).into asF32) := by
      rw [window, List.getElem?_map, List.getElem?_take_of_lt (by decide), List.getElem?_drop,
        List.getElem?_eq_getElem (by omega)]
      rfl
    rw [List.getElem?_append_right (by omega), hfirst, List.getElem?_append_left (by
      rw [List.length_map, window, List.length_take, List.length_drop]
      omega), hsecond, List.getElem?_map, List.getElem?_eq_getElem hlong, Option.map_some] at hrow
    have hid : view[99].userId = view[100].userId :=
      Uuid.text_inj (congrArg LeaderboardEntry.wsid (Option.some.inj hrow))
    have hnd : (view.map RankedRow.userId).Nodup := (hview.map _).nodup_iff.2 (rankedLbView_nodup t)
    have hne := List.pairwise_iff_getElem.1 hnd 99 100 (by simp; omega)
      (by simpa using hlong) (by decide)
    rw [List.getElem_map, List.getElem_map] at hne
    exact hne hid
  · intro hshort
    rw [GlobalPagesRight, handleGetGlobalLbLen, getGlobalLbCount, pagesOf_eq hshort]
    split
    case isTrue hzero =>
      obtain rfl := List.length_eq_zero_iff.1 hzero
      rfl
    case isFalse =>
      rw [List.range_one, List.map_singleton, show BitVec.ofNat 32 0 = 0 from rfl,
        handleGetGlobalLb_zero, List.take_of_length_le hshort]
      simp [readPages]

/-- The pages of the global board whose numbers do not overflow. -/
theorem handleGetGlobalLb_isSome_iff (page : BitVec 32) :
    (t.handleGetGlobalLb asF32 view page .debug).isSome ↔ page.toNat < 42949673 ∧
    page.toNat ≠ 21474836 := by
  have h100 : (100 : BitVec 32).toNat = 100 := by decide
  have h100i : (100 : BitVec 32).toInt = 100 := by decide
  rcases Nat.lt_or_ge (100 * page.toNat) (2 ^ 32) with hlt | hge
  · have hmul : mulU page 100 .debug = some (page * 100) := by
      rw [mulU_100, if_neg (by omega)]
    have hstart : (page * 100).toNat = 100 * page.toNat := by
      rw [toNat_mul_100, Nat.mod_eq_of_lt hlt]
    have hstartInt := (page * 100).toInt_eq_toNat_cond
    rw [hstart] at hstartInt
    rcases Classical.em (page.toNat = 21474836) with heq | hne
    · have hadd : addS (page * 100) 100 = overflowed (page * 100 + 100) := by
        refine addS_overflow ?_
        rw [hstartInt, heq, h100i]
        decide
      refine iff_of_false ?_ fun h => h.2 heq
      rw [handleGetGlobalLb, bind_run, hmul, Option.bind_some, bind_run, hadd]
      exact Bool.false_ne_true
    · obtain ⟨hadd, haddInt⟩ := addS_eq (x := page * 100) (y := 100) (by
        rw [h100i]
        split at hstartInt
        · exact ⟨by omega, by omega⟩
        · exact ⟨by omega, by omega⟩)
      refine iff_of_true ?_ ⟨by omega, hne⟩
      rw [h100i] at haddInt
      obtain ⟨r, hr, -⟩ := getGlobalLbRange_some .debug (page * 100) (page * 100 + 100)
        (by omega) (by omega)
      simp only [handleGetGlobalLb, getGlobalLb, bind_run, hmul, hadd, hr,
        Option.bind_some, pure_run, Option.isSome_some]
  · refine iff_of_false ?_ fun h => absurd h.1 (by omega)
    rw [handleGetGlobalLb, bind_run, mulU_100, if_pos ⟨hge, rfl⟩]
    exact Bool.false_ne_true

end

/-- When the pages show the whole view, in whatever order it comes, and which pages are computed
without overflow. -/
theorem global_pages_iff (t : GlobalTables) (asF32 : Height → F32) (view : List RankedRow)
    (hview : view.Perm t.rankedLbView) :
    (∀ b, GlobalPagesRight t asF32 view b ↔ view.length ≤ 100) ∧
      ∀ page : BitVec 32, (t.handleGetGlobalLb asF32 view page .debug).isSome ↔
        page.toNat < 42949673 ∧ page.toNat ≠ 21474836 :=
  ⟨fun _ => globalPagesRight_iff hview, handleGetGlobalLb_isSome_iff⟩

/-- 101 players at the start of the tower. -/
def crowd : GlobalTables where
  db
    | .leaderboard =>
        ⟨(List.range 101).map fun i => ⟨BitVec.ofNat 128 i, ⟨0, 1, 0⟩⟩, by
          rw [List.NodupKeys, List.keys, List.map_map]
          refine List.nodup_range.map_on fun i hi j hj h => ?_
          have hij : (BitVec.ofNat 128 i).toNat = (BitVec.ofNat 128 j).toNat :=
            congrArg BitVec.toNat h
          rw [List.mem_range] at hi hj
          rwa [BitVec.toNat_ofNat, BitVec.toNat_ofNat, Nat.mod_eq_of_lt (by omega),
            Nat.mod_eq_of_lt (by omega)] at hij⟩
    | _ => ∅
  displayName _ := some "a"
  color _ := none

theorem crowd_length : crowd.rankedLbView.length = 101 := by
  rw [rankedLbView, List.length_map, shownRows, List.filter_eq_self.2]
  · simp [crowd, ReadCommitted.Store.rows]
  · simp [crowd, ReadCommitted.Store.rows, ReadCommitted.Store.get]

theorem global_pages_iff_crowd :
    (∀ b, ¬GlobalPagesRight crowd (fun _ => ⟨0⟩) crowd.rankedLbView b) ∧
    ¬(crowd.handleGetGlobalLb (fun _ => ⟨0⟩) crowd.rankedLbView 21474836 .debug).isSome := by
  obtain ⟨hpages, hpage⟩ :=
    global_pages_iff crowd (fun _ => ⟨0⟩) crowd.rankedLbView (List.Perm.refl _)
  refine ⟨fun b => ?_, ?_⟩
  · rw [hpages, crowd_length]
    decide
  · rw [hpage]
    decide

/-- The second page shows player 100 again, and page 21474836 overflows. -/
theorem crowd_pages_wrong :
    ¬GlobalPagesRight crowd (fun _ => ⟨0⟩) crowd.rankedLbView .release ∧
    ¬(crowd.handleGetGlobalLb (fun _ => ⟨0⟩) crowd.rankedLbView 21474836 .debug).isSome := by
  rw [globalPagesRight_iff (List.Perm.refl _), handleGetGlobalLb_isSome_iff, crowd_length]
  decide

end Dd2Server.Boards
