import Dd2Server.Boards.MinigameBoard

/-!
# Boards over HTTP, page by page

Every page of a map's or a minigame's board is a query of its own, ordered by the score alone.  The
pages show the whole board exactly where no two equal scores stand on two sides of a page boundary.
On a map every shown player needs a colour besides, and the number of the first row is computed in
`u32`: from page 42949673 on it overflows, and a release build goes back to rows near the top.
-/

namespace Dd2Server.Boards

open Machine Paging

/-- The pages that a board of so many rows fills, of those that have a number in `u32`. -/
def pageCount (rows : Nat) : Nat := min ((rows + 99) / 100) (2 ^ 32)

/-- The answer is the window of the page, at exact positions. -/
def PageExact {ρ σ : Type} (f : ρ → Option σ) (list : List ρ) (page : BitVec 32)
    (answer : Option (Except Rejection (List σ))) : Prop :=
  ∃ es, decoded f (window 100 (100 * page.toNat) list) = .ok es ∧ answer = some (.ok es)

/-- A request that reads all rows of a window is right exactly where they decode. -/
theorem pageExact_of_eq {ρ σ : Type} [Inhabited σ] {f : ρ → Option σ} {list : List ρ}
    {page : BitVec 32} {answer : Option (Except Rejection (List σ))}
    (h : answer = some ((decoded f (window 100 (100 * page.toNat) list)).mapError .api)) :
    PageExact f list page answer ↔ ∀ r ∈ window 100 (100 * page.toNat) list,
    (f r).isSome := by
  rw [← exists_decoded_iff, PageExact, h]
  refine exists_congr fun es => ⟨And.left, fun hes => ⟨hes, ?_⟩⟩
  rw [hes]
  rfl

theorem not_pageExact_of_error {ρ σ : Type} {f : ρ → Option σ} {list : List ρ}
    {page : BitVec 32} {e : Rejection} : ¬PageExact f list page (some (.error e)) := by
  rintro ⟨es, -, h⟩
  cases h

theorem le_pageCount {n : Nat} (h : n ≤ 100 * 2 ^ 32) : n ≤ 100 * pageCount n := by
  unfold pageCount
  omega

theorem pageCount_pos {n : Nat} (h : 0 < n) : 0 < pageCount n := by
  unfold pageCount
  omega

theorem mul_lt_of_lt_pageCount {n p : Nat} (hn : n < 2 ^ 31) (hp : p < pageCount n) :
    100 * p < 2 ^ 31 := by
  unfold pageCount at hp
  omega

theorem toNat_of_lt_pageCount {n p : Nat} (hp : p < pageCount n) :
    (BitVec.ofNat 32 p).toNat = p := by
  unfold pageCount at hp
  rw [BitVec.toNat_ofNat, Nat.mod_eq_of_lt (by omega)]

/-- A board without rows has no pages to read. -/
theorem pagesRight_of_empty {ρ σ κ : Type} [LinearOrder κ] {key : ρ → κ} {rows : List ρ}
    {f : ρ → Option σ}
    {answer : Nat → Arranged key rows → Option (Except Rejection (List σ))} (h : rows = []) :
    PagesRight key rows f (pageCount rows.length) answer := by
  have hcount : pageCount rows.length = 0 := by
    rw [h, List.length_nil]
    rfl
  rw [hcount]
  exact pagesRight_nil h

/-! ## Maps -/

section

variable {t : Tables} {mapUid : String} {b : Build}

/-- A range of 100 rows from a place that is not too far. -/
theorem getMapLeaderboard_eq (order : t.Order mapUid) {start : BitVec 64} {k : Nat}
    (hk : start.toInt = k) (hlt : k < 2 ^ 32) :
      (do Tables.getMapLeaderboard order start (← addS start 100)) b =
        some (if 30 < Text.byteLen mapUid then .error .rowNotFound else
          decoded (t.publicEntry mapUid) (window 100 k order.list)) := by
  have h100 : (100 : BitVec 64).toInt = 100 := by decide
  obtain ⟨hend, hlimit, hlimitInt⟩ :=
    range_eq (x := start) (n := 100) (by omega) (by omega) (by omega)
  rw [h100] at hlimitInt
  have hexact : (Range.mk (start + 100 - start) start).Exact (100 : Nat) (k : Nat) :=
    ⟨hlimitInt, hk⟩
  rw [hend]
  simp only [Tables.getMapLeaderboard, Tables.getMapLeaderboardRange, pure_bind, hlimit]
  split
  · rfl
  · simp only [pure_bind, pure_run]
    show some (((Range.mk (start + 100 - start) start).select order.list).bind
      (decoded (t.publicEntry mapUid))) = _
    rw [hexact.select]
    rfl

/-- What a page shows when the number of its first row has come out as it may. -/
theorem page_of_start (order : t.Order mapUid) {page start : BitVec 32}
    (h : mulU page 100 b = some start) :
    Tables.handleGetMapUidLeaderboard order page b =
      some ((if 30 < Text.byteLen mapUid then .error .rowNotFound
        else decoded (t.publicEntry mapUid) (window 100 start.toNat order.list)).mapError
          .api) := by
  have hstart : (start.setWidth 64).toInt = start.toNat := toInt_setWidth_of_lt start (by decide)
  have hread := getMapLeaderboard_eq (b := b) order hstart start.isLt
  rw [Tables.handleGetMapUidLeaderboard, Tables.getMapLeaderboardPage, bind_run, bind_run, h,
    Option.bind_some]
  rw [hread]
  rfl

/-- The number of the first row, as it comes out. -/
theorem mulU_100 (page : BitVec 32) (b : Build) : mulU page 100 b =
    if 2 ^ 32 ≤ 100 * page.toNat ∧ b = .debug then none else some (page * 100) := by
  have h100 : (100 : BitVec 32).toNat = 100 := by decide
  rcases Nat.lt_or_ge (100 * page.toNat) (2 ^ 32) with hlt | hge
  · rw [mulU_eq (by rw [h100]; omega), if_neg (by omega)]
    rfl
  · rw [mulU_overflow (by rw [h100]; omega)]
    cases b
    · rw [if_pos ⟨hge, rfl⟩]
      rfl
    · rw [if_neg (by simp)]
      rfl

theorem toNat_mul_100 (page : BitVec 32) : (page * 100).toNat = 100 * page.toNat % 2 ^ 32 := by
  rw [BitVec.toNat_mul, Nat.mul_comm]
  rfl

theorem handleGetMapUidLeaderboard_eq (order : t.Order mapUid) {page : BitVec 32}
    (h : 100 * page.toNat < 2 ^ 32) :
    Tables.handleGetMapUidLeaderboard order page b =
      some ((if 30 < Text.byteLen mapUid then .error .rowNotFound
        else decoded (t.publicEntry mapUid) (window 100 (100 * page.toNat) order.list)).mapError
          .api) := by
  have hstart : mulU page 100 b = some (page * 100) := by
    rw [mulU_100, if_neg (by omega)]
  rw [page_of_start order hstart, toNat_mul_100, Nat.mod_eq_of_lt h]

/-- No page is shown of a map whose uid is too long. -/
theorem handleGetMapUidLeaderboard_long (order : t.Order mapUid) (page : BitVec 32)
    (h : 30 < Text.byteLen mapUid) : Tables.handleGetMapUidLeaderboard order page b = none ∨
      Tables.handleGetMapUidLeaderboard order page b = some (.error (.api .rowNotFound)) := by
  cases hstart : mulU page 100 b with
  | none =>
      left
      rw [Tables.handleGetMapUidLeaderboard, Tables.getMapLeaderboardPage, bind_run,
        bind_run, hstart]
      rfl
  | some start =>
      right
      rw [page_of_start order hstart, if_pos h]
      rfl

theorem publicEntry_isSome {r : LbRow} (h : r ∈ t.publicRows mapUid) :
    (t.publicEntry mapUid r).isSome ↔ r.color.isSome := entry_isSome h _

theorem publicEntry_wsid {r : LbRow} {e : LeaderboardEntry2 Pos Color}
    (h : t.publicEntry mapUid r = some e) : e.wsid = r.userId.text := by
  simp only [Tables.publicEntry, LbRow.entry, Option.bind_eq_bind, Option.bind_eq_some_iff,
    Option.pure_def, Option.some.injEq] at h
  obtain ⟨-, -, -, -, rfl⟩ := h
  rfl

/-- The entries of two players differ. -/
theorem publicEntry_inj {r r' : LbRow} (hr : r ∈ t.publicRows mapUid)
    (hr' : r' ∈ t.publicRows mapUid) (hsome : (t.publicEntry mapUid r).isSome)
    (h : t.publicEntry mapUid r = t.publicEntry mapUid r') : r = r' := by
  obtain ⟨e, he⟩ := Option.isSome_iff_exists.1 hsome
  have hid : r.userId = r'.userId :=
    Uuid.text_inj ((publicEntry_wsid he).symm.trans (publicEntry_wsid (h ▸ he)))
  exact List.inj_on_of_nodup_map (lbRows_nodup t mapUid _) hr hr' hid

/-- The pages of a map's board show all of it exactly where every player shown has a colour and no
boundary comes between equal heights. -/
theorem map_pagesRight_iff : PagesRight LbRow.byHeight (t.publicRows mapUid) (t.publicEntry mapUid)
      (pageCount (t.publicRows mapUid).length)
      (fun p order => Tables.handleGetMapUidLeaderboard order (BitVec.ofNat 32 p) b) ↔
    t.publicRows mapUid = [] ∨ Text.byteLen mapUid ≤ 30 ∧
      (∀ r ∈ t.publicRows mapUid, r.color.isSome) ∧
      Parted LbRow.byHeight (t.publicRows mapUid) 100 := by
  by_cases hne : t.publicRows mapUid = []
  · exact iff_of_true (pagesRight_of_empty hne) (.inl hne)
  · rw [or_iff_right hne]
    rcases Nat.lt_or_ge 30 (Text.byteLen mapUid) with hlong | hshort
    · refine iff_of_false (fun hright => ?_) (fun h => absurd h.1 (not_le.2 hlong))
      have hcount := pageCount_pos (List.length_pos_iff.2 hne)
      refine not_pagesRight_of_error (e := .api .rowNotFound) hcount (fun order => ?_) hright
      rw [handleGetMapUidLeaderboard_eq order (by simp), if_pos hlong]
      rfl
    · rw [and_iff_right hshort]
      have hlen := lbRows_length_lt t mapUid (isPublic t.db t.now mapUid)
      refine (pagesRight_iff (by decide) (List.Nodup.of_map _ (lbRows_nodup t mapUid _))
        (le_pageCount (le_trans (le_of_lt hlen) (by decide)))
        (fun r hr r' hr' => publicEntry_inj hr hr') fun p hp order => ?_).trans ?_
      · have hp32 := toNat_of_lt_pageCount hp
        have hlt := mul_lt_of_lt_pageCount hlen hp
        rw [handleGetMapUidLeaderboard_eq order (by omega), if_neg (not_lt.2 hshort), hp32]
      · exact and_congr_left' (forall₂_congr fun r hr => publicEntry_isSome hr)

/-- A page of a map's board is the right one exactly where its rows have colours, or where it lies
past the end and so does the place that its overflowing number comes down to. -/
theorem map_pageExact_iff (order : t.Order mapUid) (page : BitVec 32) :
    PageExact (t.publicEntry mapUid) order.list page
      (Tables.handleGetMapUidLeaderboard order page b) ↔ Text.byteLen mapUid ≤ 30 ∧
        if 100 * page.toNat < 2 ^ 32 then
          ∀ r ∈ window 100 (100 * page.toNat) order.list, r.color.isSome
        else b = .release ∧ (t.publicRows mapUid).length ≤ 100 * page.toNat % 2 ^ 32 := by
  have hmem : ∀ {n k : Nat} {r : LbRow}, r ∈ window n k order.list →
      r ∈ t.publicRows mapUid :=
    fun hr => order.mem_iff.1 (List.mem_of_mem_drop (List.mem_of_mem_take hr))
  rcases Nat.lt_or_ge 30 (Text.byteLen mapUid) with hlong | hshort
  · refine iff_of_false ?_ fun h => absurd h.1 (not_le.2 hlong)
    rcases handleGetMapUidLeaderboard_long (b := b) order page hlong with h | h
    · rw [h]
      rintro ⟨es, -, hnone⟩
      cases hnone
    · rw [h]
      exact not_pageExact_of_error
  · rw [and_iff_right hshort]
    split
    case isTrue hlt =>
      refine (pageExact_of_eq ?_).trans (forall₂_congr fun r hr => publicEntry_isSome (hmem hr))
      rw [handleGetMapUidLeaderboard_eq order hlt, if_neg (not_lt.2 hshort)]
    case isFalse hge =>
      have hwindow : window 100 (100 * page.toNat) order.list = [] := by
        have hlen := lbRows_length_lt t mapUid (isPublic t.db t.now mapUid)
        refine window_of_length_le ?_
        rw [order.length_eq]
        exact le_trans (le_of_lt hlen) (by omega)
      have hmul := mulU_100 page b
      cases b with
      | debug =>
          refine iff_of_false ?_ fun h => nomatch h.1
          rw [if_pos ⟨not_lt.1 hge, rfl⟩] at hmul
          rw [Tables.handleGetMapUidLeaderboard, Tables.getMapLeaderboardPage,
            bind_run, bind_run, hmul]
          rintro ⟨es, -, hnone⟩
          cases hnone
      | release =>
          rw [if_neg (by simp)] at hmul
          rw [and_iff_right rfl, page_of_start order hmul, if_neg (not_lt.2 hshort), toNat_mul_100,
            PageExact, hwindow, ← order.length_eq]
          constructor
          · rintro ⟨es, hes, hanswer⟩
            cases hes
            exact window_eq_nil_iff.1 (decoded_mapError_eq_nil (Option.some.inj hanswer))
          · intro hle
            rw [window_of_length_le hle]
            exact ⟨[], rfl, rfl⟩

end

/-! ## Minigames -/

section

variable {t : MinigameTables} {mapUid slug : String} {b : Build}

/-- The row numbers of a minigame's page are computed in `i64`, where there is room for every
page. -/
theorem getMinigameLeaderboardPage_eq (order : t.Order mapUid slug) (page : BitVec 32) :
    MinigameTables.getMinigameLeaderboardPage order page b =
      some (decoded (t.publicEntry mapUid slug) (window 100 (100 * page.toNat) order.list)) := by
  have h100 : (100 : BitVec 64).toInt = 100 := by decide
  have h0 : (0 : BitVec 64).toInt = 0 := by decide
  have hpage : (page.setWidth 64).toInt = page.toNat := toInt_setWidth_of_lt page (by decide)
  have hlt := page.isLt
  have hmul : FitsS 64 ((page.setWidth 64).toInt * (100 : BitVec 64).toInt) := by
    rw [hpage, h100]
    exact ⟨by omega, by omega⟩
  obtain ⟨hstart, hstartInt⟩ := mulS_eq hmul
  rw [hpage, h100] at hstartInt
  obtain ⟨hend, hlimit, hlimitInt⟩ :=
    range_eq (x := page.setWidth 64 * 100) (n := 100) (by omega) (by omega)
    (by omega)
  rw [h100] at hlimitInt
  simp only [MinigameTables.getMinigameLeaderboardPage, MinigameTables.getMinigameLeaderboard,
    MinigameTables.getMinigameLeaderboardRange, hstart, hend, hlimit, pure_bind, pure_run]
  have hexact : (Range.mk (maxS (page.setWidth 64 * 100 + 100 - page.setWidth 64 * 100) 0)
      (page.setWidth 64 * 100)).Exact (100 : Nat) ((100 * page.toNat : Nat) : Int) := by
    refine ⟨?_, ?_⟩
    · rw [toInt_maxS, hlimitInt, h0]
      rfl
    · rw [hstartInt]
      push_cast
      exact mul_comm _ _
  rw [hexact.select]
  rfl

theorem handleGetMapUidMinigameLeaderboard_eq (order : t.Order mapUid slug) (page : BitVec 32)
    (h : '/' ∉ slug.toList) : MinigameTables.handleGetMapUidMinigameLeaderboard order page b =
      some ((decoded (t.publicEntry mapUid slug)
        (window 100 (100 * page.toNat) order.list)).mapError .api) := by
  have hslug : slug.toList.contains '/' = false := by simpa using h
  rw [MinigameTables.handleGetMapUidMinigameLeaderboard, hslug, if_neg Bool.false_ne_true, bind_run,
    getMinigameLeaderboardPage_eq]
  rfl

theorem handleGetMapUidMinigameLeaderboard_slash (order : t.Order mapUid slug) (page : BitVec 32)
    (h : '/' ∈ slug.toList) :
    MinigameTables.handleGetMapUidMinigameLeaderboard order page b = some (.error .notFound) := by
  have hslug : slug.toList.contains '/' = true := by simpa using h
  rw [MinigameTables.handleGetMapUidMinigameLeaderboard, hslug, if_pos rfl]
  rfl

theorem minigameEntry_inj {r r' : PbRow} (hr : r ∈ t.publicRows mapUid slug)
    (hr' : r' ∈ t.publicRows mapUid slug) (hsome : (t.publicEntry mapUid slug r).isSome)
    (h : t.publicEntry mapUid slug r = t.publicEntry mapUid slug r') : r = r' := by
  obtain ⟨e, he⟩ := Option.isSome_iff_exists.1 hsome
  have hwsid : ∀ x : PbRow, t.publicEntry mapUid slug x = some e → e.wsid = x.userId.text := by
    intro x hx
    simp only [MinigameTables.publicEntry, PbRow.entry, Option.bind_eq_bind,
      Option.bind_eq_some_iff, Option.pure_def, Option.some.injEq] at hx
    obtain ⟨-, -, rfl⟩ := hx
    rfl
  have hid : r.userId = r'.userId := Uuid.text_inj ((hwsid r he).symm.trans (hwsid r' (h ▸ he)))
  exact List.inj_on_of_nodup_map (pbRows_nodup t mapUid slug) hr hr' hid

/-- The pages of a minigame's board show all of it exactly where the route takes the slug and no
boundary comes between equal scores. -/
theorem minigame_pagesRight_iff :
      PagesRight PbRow.byScore (t.publicRows mapUid slug) (t.publicEntry mapUid slug)
        (pageCount (t.publicRows mapUid slug).length)
      (fun p order => MinigameTables.handleGetMapUidMinigameLeaderboard order
        (BitVec.ofNat 32 p) b) ↔
    t.publicRows mapUid slug = [] ∨ '/' ∉ slug.toList ∧
      (t.publicRows mapUid slug).length ≤ 100 * 2 ^ 32 ∧
      Parted PbRow.byScore (t.publicRows mapUid slug) 100 := by
  by_cases hne : t.publicRows mapUid slug = []
  · exact iff_of_true (pagesRight_of_empty hne) (.inl hne)
  · rw [or_iff_right hne]
    by_cases hslug : '/' ∈ slug.toList
    · have hcount := pageCount_pos (List.length_pos_iff.2 hne)
      refine iff_of_false ?_ fun h => h.1 hslug
      exact not_pagesRight_of_error hcount fun order =>
        handleGetMapUidMinigameLeaderboard_slash order _ hslug
    · rw [and_iff_right hslug]
      have hwindows : ∀ p < pageCount (t.publicRows mapUid slug).length,
          ∀ order : t.Order mapUid slug,
          MinigameTables.handleGetMapUidMinigameLeaderboard order (BitVec.ofNat 32 p) b =
            some ((decoded (t.publicEntry mapUid slug)
              (window 100 (100 * p) order.list)).mapError .api) := by
        intro p hp order
        rw [handleGetMapUidMinigameLeaderboard_eq order _ hslug, toNat_of_lt_pageCount hp]
      have hiff := fun hle => pagesRight_iff (by decide)
        (List.Nodup.of_map _ (pbRows_nodup t mapUid slug))
        (le_pageCount hle) (fun r hr r' hr' => minigameEntry_inj hr hr') hwindows
      constructor
      · intro hright
        have hle : (t.publicRows mapUid slug).length ≤ 100 * 2 ^ 32 := by
          refine (hright.length_le hwindows).trans (Nat.mul_le_mul_left 100 ?_)
          exact Nat.min_le_right _ _
        exact ⟨hle, ((hiff hle).1 hright).2⟩
      · rintro ⟨hle, hparted⟩
        exact (hiff hle).2 ⟨fun r hr => pbEntry_isSome hr _, hparted⟩

/-- A page of a minigame's board is the right one exactly where the route takes the slug. -/
theorem minigame_pageExact_iff (order : t.Order mapUid slug) (page : BitVec 32) :
    PageExact (t.publicEntry mapUid slug) order.list page
      (MinigameTables.handleGetMapUidMinigameLeaderboard order page b) ↔ '/' ∉ slug.toList := by
  by_cases hslug : '/' ∈ slug.toList
  · refine iff_of_false ?_ (not_not_intro hslug)
    rw [handleGetMapUidMinigameLeaderboard_slash order page hslug]
    exact not_pageExact_of_error
  · refine iff_of_true
      ((pageExact_of_eq (handleGetMapUidMinigameLeaderboard_eq order page hslug)).2 ?_) hslug
    intro r hr
    exact pbEntry_isSome (order.mem_iff.1 (List.mem_of_mem_drop (List.mem_of_mem_take hr))) _

end

/-! ## Both kinds of board -/

/-- When the pages of a board show the whole board, and which single pages are right, in either
build and for whatever the queries choose. -/
theorem board_pages_iff (b : Build) (t : Tables) (mt : MinigameTables) (mapUid slug : String) :
    (PagesRight LbRow.byHeight (t.publicRows mapUid) (t.publicEntry mapUid)
        (pageCount (t.publicRows mapUid).length)
        (fun p order => Tables.handleGetMapUidLeaderboard order (BitVec.ofNat 32 p) b) ↔
      t.publicRows mapUid = [] ∨ Text.byteLen mapUid ≤ 30 ∧
        (∀ r ∈ t.publicRows mapUid, r.color.isSome) ∧
        Parted LbRow.byHeight (t.publicRows mapUid) 100) ∧
    (∀ (order : t.Order mapUid) (page : BitVec 32),
      PageExact (t.publicEntry mapUid) order.list page
        (Tables.handleGetMapUidLeaderboard order page b) ↔ Text.byteLen mapUid ≤ 30 ∧
          if 100 * page.toNat < 2 ^ 32 then
            ∀ r ∈ window 100 (100 * page.toNat) order.list, r.color.isSome
          else b = .release ∧ (t.publicRows mapUid).length ≤ 100 * page.toNat % 2 ^ 32) ∧
    (PagesRight PbRow.byScore (mt.publicRows mapUid slug) (mt.publicEntry mapUid slug)
        (pageCount (mt.publicRows mapUid slug).length)
        (fun p order =>
          MinigameTables.handleGetMapUidMinigameLeaderboard order (BitVec.ofNat 32 p) b) ↔
      mt.publicRows mapUid slug = [] ∨ '/' ∉ slug.toList ∧
        (mt.publicRows mapUid slug).length ≤ 100 * 2 ^ 32 ∧
        Parted PbRow.byScore (mt.publicRows mapUid slug) 100) ∧
    ∀ (order : mt.Order mapUid slug) (page : BitVec 32),
      PageExact (mt.publicEntry mapUid slug) order.list page
        (MinigameTables.handleGetMapUidMinigameLeaderboard order page b) ↔ '/' ∉ slug.toList :=
  ⟨map_pagesRight_iff, map_pageExact_iff, minigame_pagesRight_iff, minigame_pageExact_iff⟩

/-- 101 players of one height on a map. -/
def tied : Tables where
  db
    | .mapLeaderboard =>
        ⟨(List.range 101).map fun i =>
          ⟨(BitVec.ofNat 128 i, "m"), ⟨10, ⟨0, 10, 0⟩, 0, 0, 1⟩⟩, by
          rw [List.NodupKeys, List.keys, List.map_map]
          refine List.nodup_range.map_on fun i hi j hj h => ?_
          have hij : (BitVec.ofNat 128 i).toNat = (BitVec.ofNat 128 j).toNat :=
            congrArg (·.1.toNat) h
          rw [List.mem_range] at hi hj
          rwa [BitVec.toNat_ofNat, BitVec.toNat_ofNat, Nat.mod_eq_of_lt (by omega),
            Nat.mod_eq_of_lt (by omega)] at hij⟩
    | _ => ∅
  now := 0
  displayName _ := some "a"
  color _ := some (1, 1, 1)
  named _ _ _ := rfl
  serial := by simp [ReadCommitted.Store.rows]

theorem tied_rows : (tied.publicRows "m").length = 101 ∧
    ∀ r ∈ tied.publicRows "m", r.byHeight = OrderDual.toDual 10 := by
  constructor
  · rw [Tables.publicRows, Tables.lbRows, List.length_map, List.filter_eq_self.2]
    · simp [tied, ReadCommitted.Store.rows]
    · simp [tied, ReadCommitted.Store.rows, isPublic, ReadCommitted.Store.get]
  · intro r hr
    have hget := (mem_lbRows.1 hr).1
    have hmem := ReadCommitted.Store.mem_rows.2 hget
    simp only [tied, ReadCommitted.Store.rows, List.map_map, List.mem_map] at hmem
    obtain ⟨i, -, he⟩ := hmem
    rw [LbRow.byHeight, ← (Prod.mk.inj he).2]

/-- Two pages may show one player twice, and page 42949673 shows the players from the fifth on. -/
theorem tied_pages_wrong : ¬PagesRight LbRow.byHeight (tied.publicRows "m") (tied.publicEntry "m")
      (pageCount (tied.publicRows "m").length)
      (fun p order => Tables.handleGetMapUidLeaderboard order (BitVec.ofNat 32 p) .release) ∧
    ∀ order : tied.Order "m", ¬PageExact (tied.publicEntry "m") order.list 42949673
      (Tables.handleGetMapUidLeaderboard order 42949673 .release) := by
  obtain ⟨hlen, htied⟩ := tied_rows
  constructor
  · rw [map_pagesRight_iff]
    rintro (hnil | ⟨-, -, hparted⟩)
    · rw [hnil] at hlen
      cases hlen
    · exact not_parted_of_tied (by decide) htied (by omega) hparted
  · intro order
    rw [map_pageExact_iff, if_neg (by decide), hlen]
    rintro ⟨-, -, hle⟩
    exact absurd hle (by decide)

end Dd2Server.Boards
