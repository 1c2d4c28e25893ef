import Dd2Server.Boards.Pages

/-!
# Ranks and lengths

The standing of one player, the board of a map and its length come from queries of their own.  For a
player whom the board shows, the standing ranks the same rows.  For one who is hidden by a map ban
alone, it ranks the rows that the board would show without that ban (`publicRows_liftBan`).
-/

namespace Dd2Server.Boards

open Machine Paging

namespace Tables

/-- The tables after the ban of a user from a map has been lifted, and nothing else. -/
def liftBan (t : Tables) (mapUid : String) (userId : Uuid) (ban : MapBanRow) (liftedAt : Time) :
    Tables where
  db := t.db.put ⟨⟨.mapBans, (mapUid, userId)⟩, some { ban with liftedAt := some liftedAt }⟩
  now := t.now
  displayName := t.displayName
  color := t.color
  named := by
    intro u m h
    rw [ReadCommitted.Store.get_put_of_ne (by simp)] at h
    exact t.named u m h
  serial := by
    have hrows : (t.db.put ⟨⟨.mapBans, (mapUid, userId)⟩,
        some { ban with liftedAt := some liftedAt }⟩).rows
        .mapLeaderboard = t.db.rows .mapLeaderboard := by
      simp [ReadCommitted.Store.rows, ReadCommitted.Store.put]
    rw [hrows]
    exact t.serial

end Tables

variable {t : Tables} {mapUid : String} {userId : Uuid} {ban : MapBanRow}
    {liftedAt : Time} {b : Build}

/-! ## The ranked rows -/

theorem lbRows_congr {shown shown' : Uuid → Bool} (h : ∀ u, shown u = shown' u) :
    t.lbRows mapUid shown = t.lbRows mapUid shown' := by
  rw [show shown = shown' from funext h]

/-- A public player is ranked among the public rows. -/
theorem rankedRows_eq (h : isPublic t.db t.now mapUid userId = true) :
    t.rankedRows mapUid userId = t.publicRows mapUid := by
  refine lbRows_congr fun u => ?_
  unfold isPublic at h ⊢
  rcases eq_or_ne u userId with rfl | hne
  · rw [decide_eq_true rfl, Bool.or_true, Bool.and_true]
    rw [Bool.and_eq_true] at h
    rw [h.1, h.2]
    rfl
  · rw [decide_eq_false hne, Bool.or_false]

theorem liftBan_rows (shown : Uuid → Bool) :
    (t.liftBan mapUid userId ban liftedAt).lbRows mapUid shown = t.lbRows mapUid shown := by
  have hrows : (t.liftBan mapUid userId ban liftedAt).db.rows .mapLeaderboard =
      t.db.rows .mapLeaderboard := by
    simp [Tables.liftBan, ReadCommitted.Store.rows, ReadCommitted.Store.put]
  rw [Tables.lbRows, hrows]
  rfl

/-- Without the ban, the player is hidden if shadow-banned, and every other player as before. -/
theorem isPublic_liftBan (u : Uuid) :
    isPublic (t.liftBan mapUid userId ban liftedAt).db t.now mapUid u =
      ((t.db.get ⟨.shadowBans, u⟩).isNone &&
        (!((t.db.get ⟨.mapBans, (mapUid, u)⟩).any fun b => b.isActive t.now) ||
          u = userId)) := by
  have hshadow : (t.liftBan mapUid userId ban liftedAt).db.get ⟨.shadowBans, u⟩ =
      t.db.get ⟨.shadowBans, u⟩ :=
    ReadCommitted.Store.get_put_of_ne (by simp)
  rw [isPublic, hshadow]
  rcases eq_or_ne u userId with rfl | hne
  · have hban : (t.liftBan mapUid u ban liftedAt).db.get ⟨.mapBans, (mapUid, u)⟩ =
        some { ban with liftedAt := some liftedAt } := ReadCommitted.Store.get_put_self _ _ _
    rw [hban, decide_eq_true rfl, Bool.or_true]
    rfl
  · have hban : (t.liftBan mapUid userId ban liftedAt).db.get ⟨.mapBans, (mapUid, u)⟩ =
        t.db.get ⟨.mapBans, (mapUid, u)⟩ :=
          ReadCommitted.Store.get_put_of_ne (by simp [hne.symm])
    rw [hban, decide_eq_false hne, Bool.or_false]

/-- The rows that a player is ranked among are the public ones without a ban of that player. -/
theorem publicRows_liftBan :
    (t.liftBan mapUid userId ban liftedAt).publicRows mapUid = t.rankedRows mapUid userId := by
  rw [Tables.publicRows, liftBan_rows]
  exact lbRows_congr isPublic_liftBan

/-! ## What the queries answer -/

/-- The row of a player who is ranked. -/
theorem find?_rankedRows {r : LbRow} (h : r ∈ t.rankedRows mapUid userId)
    (hid : r.userId = userId) :
    (t.rankedRows mapUid userId).find? (·.userId = userId) = some r := by
  cases hfind : (t.rankedRows mapUid userId).find? (·.userId = userId) with
  | none =>
      have hno := List.find?_eq_none.1 hfind r h
      exact absurd (decide_eq_true hid) hno
  | some r' =>
      have hid' : r'.userId = userId := by simpa using List.find?_some hfind
      have hmem := List.mem_of_find?_eq_some hfind
      rw [List.inj_on_of_nodup_map (lbRows_nodup t mapUid _) hmem h (hid'.trans hid.symm)]

theorem entry_of_color {shown : Uuid → Bool} {r : LbRow} (hcolor : ∀ u, (t.color u).isSome)
    (h : r ∈ t.lbRows mapUid shown) (rank : Nat) :
    ∃ e, r.entry rank = some e ∧ e.rank = BitVec.ofNat 32 rank ∧ e.wsid = r.userId.text := by
  obtain ⟨name, hname⟩ := Option.isSome_iff_exists.1 (name_of_mem h)
  obtain ⟨-, -, -, hc⟩ := mem_lbRows.1 h
  obtain ⟨color, hcolor⟩ := Option.isSome_iff_exists.1 (hcolor r.userId)
  rw [hcolor] at hc
  simp [LbRow.entry, hname, hc]

/-- The reported rank of a player who is ranked. -/
theorem getMapRankEntry_eq {r : LbRow} (hcolor : ∀ u, (t.color u).isSome)
    (h : r ∈ t.rankedRows mapUid userId) (hid : r.userId = userId) :
    ∃ e, t.getMapRankEntry mapUid userId = .ok (some e) ∧
      e.rank = BitVec.ofNat 32 (rank LbRow.byHeight (t.rankedRows mapUid userId) r) := by
  obtain ⟨e, he, hrank, -⟩ :=
    entry_of_color hcolor h (rank LbRow.byHeight (t.rankedRows mapUid userId) r)
  refine ⟨{ e with updateCount := 0 }, ?_, hrank⟩
  simp only [Tables.getMapRankEntry, find?_rankedRows h hid, he]

/-- The entry of a public player on any part of the board. -/
theorem mem_getMapLeaderboard {order : t.Order mapUid} {start end' : BitVec 64}
    {es : List (LeaderboardEntry2 Pos Color)}
    (h : Tables.getMapLeaderboard order start end' b = some (.ok es))
    {e : LeaderboardEntry2 Pos Color} (he : e ∈ es) :
    ∃ r ∈ t.publicRows mapUid, t.publicEntry mapUid r = some e := by
  rw [Tables.getMapLeaderboard, bind_run, Option.bind_eq_some_iff] at h
  obtain ⟨range, -, h⟩ := h
  cases range with
  | error e => cases h
  | ok range =>
      have hrows : (range.select order.list).bind (decoded (t.publicEntry mapUid)) = .ok es :=
        Option.some.inj h
      unfold Range.select at hrows
      split at hrows
      case isTrue => cases hrows
      case isFalse =>
        have hes : decoded (t.publicEntry mapUid)
            (window range.limit.toInt.toNat range.offset.toInt.toNat order.list) = .ok es := hrows
        obtain ⟨hall, rfl⟩ := (decoded_eq_ok_iff eq_getD_of_eq_some).1 hes
        obtain ⟨r, hr, rfl⟩ := List.mem_map.1 he
        obtain ⟨s, hs⟩ := Option.isSome_iff_exists.1 (hall r hr)
        refine ⟨r, order.mem_iff.1 (List.mem_of_mem_drop (List.mem_of_mem_take hr)), ?_⟩
        rw [hs, Option.getD_some]

/-- The full range is answered with an entry for each public row. -/
theorem getMapLeaderboard_full (hcolor : ∀ u, (t.color u).isSome)
    (hlen : Text.byteLen mapUid ≤ 30) (order : t.Order mapUid) {end' : BitVec 64}
    (hend : (t.publicRows mapUid).length ≤ end'.toInt) :
    ∃ es, Tables.getMapLeaderboard order 0 end' b = some (.ok es) ∧
      es.length = (t.publicRows mapUid).length ∧ ∀ r ∈ t.publicRows mapUid, ∃ e ∈ es,
      t.publicEntry mapUid r = some e := by
  have h0 : (0 : BitVec 64).toInt = 0 := by decide
  have hhi : end'.toInt < 2 ^ 63 := end'.toInt_lt
  obtain ⟨hlimit, hlimitInt⟩ :=
    subS_eq (x := end') (y := 0) ⟨by rw [h0]; omega, by rw [h0]; omega⟩
  rw [h0, Int.sub_zero] at hlimitInt
  have hexact : (Range.mk (end' - 0) 0).Exact (end'.toInt.toNat : Nat) (0 : Nat) := by
    refine ⟨?_, h0⟩
    rw [Int.toNat_of_nonneg (by omega)]
    exact hlimitInt
  have hall : ∀ r ∈ order.list, (t.publicEntry mapUid r).isSome := by
    intro r hr
    obtain ⟨e, he, -⟩ := entry_of_color hcolor (order.mem_iff.1 hr)
      (rank LbRow.byHeight (t.publicRows mapUid) r)
    exact Option.isSome_iff_exists.2 ⟨e, he⟩
  have hwindow : window end'.toInt.toNat 0 order.list = order.list := by
    rw [window, List.drop_zero, List.take_of_length_le]
    rw [order.length_eq]
    omega
  refine ⟨order.list.map fun r => (t.publicEntry mapUid r).getD default, ?_, ?_, ?_⟩
  · rw [Tables.getMapLeaderboard, Tables.getMapLeaderboardRange, if_neg (not_lt.2 hlen), hlimit]
    show some (((Range.mk (end' - 0) 0).select order.list).bind (decoded (t.publicEntry mapUid))) =
      _
    rw [hexact.select, hwindow]
    exact congrArg some ((decoded_eq_ok_iff eq_getD_of_eq_some).2 ⟨hall, rfl⟩)
  · rw [List.length_map, order.length_eq]
  · intro r hr
    obtain ⟨e, he⟩ := Option.isSome_iff_exists.1 (hall r (order.mem_iff.2 hr))
    refine ⟨e, List.mem_map.2 ⟨r, order.mem_iff.2 hr, ?_⟩, he⟩
    rw [he, Option.getD_some]

/-- Two entries of one player are one. -/
theorem publicEntry_of_wsid {r r' : LbRow} {e : LeaderboardEntry2 Pos Color}
    (hr : r ∈ t.publicRows mapUid) (hr' : r' ∈ t.publicRows mapUid)
    (he : t.publicEntry mapUid r' = some e) (hid : e.wsid = r.userId.text) : r' = r :=
  List.inj_on_of_nodup_map (lbRows_nodup t mapUid _) hr' hr
    (Uuid.text_inj ((publicEntry_wsid he).symm.trans hid))

/-- The reported rank of a public player is the rank on every part of the board. -/
theorem rank_of_public {r : LbRow} (hcolor : ∀ u, (t.color u).isSome)
    (hr : r ∈ t.publicRows mapUid) :
    ∃ own, t.getMapRankEntry mapUid r.userId = .ok (some own) ∧
      ∀ e, t.publicEntry mapUid r = some e → e.rank = own.rank := by
  have hpublic := (mem_lbRows.1 hr).2.1
  have hrows := rankedRows_eq hpublic
  obtain ⟨own, hown, hrank⟩ := getMapRankEntry_eq hcolor (hrows ▸ hr) rfl
  refine ⟨own, hown, fun e he => ?_⟩
  obtain ⟨e', he', hrank', -⟩ :=
    entry_of_color hcolor hr (rank LbRow.byHeight (t.publicRows mapUid) r)
  obtain rfl : e' = e := Option.some.inj (he'.symm.trans he)
  rw [hrank, hrank', hrows]

/-- The queries agree: the reported rank of a public player is the one on the board, that of a
player hidden by a map ban alone is the one on the board without the ban, and the lengths count the
board's entries. -/
theorem board_queries_agree (t : Tables) (afk : Uuid × String → Nat)
    (mapUid : String) (b : Build) (hcolor : ∀ u, (t.color u).isSome)
    (hlen : Text.byteLen mapUid ≤ 30) :
    (∀ (userId : Uuid) (order : t.Order mapUid),
      (t.db.get ⟨.mapLeaderboard, (userId, mapUid)⟩).isSome →
        isPublic t.db t.now mapUid userId = true →
        ∃ own, t.getMapRankEntry mapUid userId = .ok (some own) ∧
          (∀ start end' es, Tables.getMapLeaderboard order start end' b = some (.ok es) →
            ∀ e ∈ es, e.wsid = userId.text → e.rank = own.rank) ∧
        ∀ end' : BitVec 64, (t.publicRows mapUid).length ≤ end'.toInt →
          ∃ es, Tables.getMapLeaderboard order 0 end' b = some (.ok es) ∧
          ∃ e ∈ es, e.wsid = userId.text) ∧
    (∀ (userId : Uuid) (ban : MapBanRow) (liftedAt : Time),
      (t.db.get ⟨.mapLeaderboard, (userId, mapUid)⟩).isSome →
      t.db.get ⟨.shadowBans, userId⟩ = none →
      t.db.get ⟨.mapBans, (mapUid, userId)⟩ = some ban → ban.isActive t.now = true →
        ∃ own, t.getMapRankEntry mapUid userId = .ok (some own) ∧
          (∃ own', (t.liftBan mapUid userId ban liftedAt).getMapRankEntry mapUid userId =
            .ok (some own') ∧ own'.rank = own.rank) ∧
        ∀ (order : (t.liftBan mapUid userId ban liftedAt).Order mapUid)
          (start end' : BitVec 64) es,
          Tables.getMapLeaderboard order start end' b = some (.ok es) →
            ∀ e ∈ es, e.wsid = userId.text → e.rank = own.rank) ∧
    (∃ n, t.getMapLeaderboardLen mapUid = .ok n ∧
      (∃ live, t.getMapOverviewPlayerCounts afk mapUid = .ok (n, live)) ∧
      ∀ (order : t.Order mapUid) (end' : BitVec 64), n ≤ end'.toInt →
        ∃ es, Tables.getMapLeaderboard order 0 end' b = some (.ok es) ∧ es.length = n) := by
  refine ⟨?_, ?_, ?_⟩
  · intro userId order hstanding hpublic
    obtain ⟨s, hs⟩ := Option.isSome_iff_exists.1 hstanding
    let r : LbRow := ⟨userId, t.displayName userId, t.color userId, s⟩
    have hr : r ∈ t.publicRows mapUid := mem_lbRows.2 ⟨hs, hpublic, rfl, rfl⟩
    obtain ⟨own, hown, hrank⟩ := rank_of_public hcolor hr
    refine ⟨own, hown, ?_, ?_⟩
    · intro start end' es hes e he hid
      obtain ⟨r', hr', he'⟩ := mem_getMapLeaderboard hes he
      obtain rfl := publicEntry_of_wsid hr hr' he' hid
      exact hrank e he'
    · intro end' hend
      obtain ⟨es, hes, -, hall⟩ := getMapLeaderboard_full (b := b) hcolor hlen order hend
      obtain ⟨e, he, hentry⟩ := hall r hr
      obtain ⟨e', he', -, hid⟩ :=
        entry_of_color hcolor hr (rank LbRow.byHeight (t.publicRows mapUid) r)
      obtain rfl : e' = e := Option.some.inj (he'.symm.trans hentry)
      exact ⟨es, hes, e', he, hid⟩
  · intro userId ban liftedAt hstanding hshadow hban hactive
    obtain ⟨s, hs⟩ := Option.isSome_iff_exists.1 hstanding
    let r : LbRow := ⟨userId, t.displayName userId, t.color userId, s⟩
    have hr : r ∈ t.rankedRows mapUid userId := by
      refine mem_lbRows.2 ⟨hs, ?_, rfl, rfl⟩
      rw [hshadow, decide_eq_true rfl, Bool.or_true]
      rfl
    have hr' : r ∈ (t.liftBan mapUid userId ban liftedAt).publicRows mapUid := by
      rw [publicRows_liftBan]
      exact hr
    have hpublic := (mem_lbRows.1 hr').2.1
    have hrows : (t.liftBan mapUid userId ban liftedAt).rankedRows mapUid userId =
        t.rankedRows mapUid userId := by
      rw [rankedRows_eq hpublic, publicRows_liftBan]
    have hcolor' : ∀ u, ((t.liftBan mapUid userId ban liftedAt).color u).isSome := hcolor
    obtain ⟨own, hown, hrank⟩ := getMapRankEntry_eq hcolor hr rfl
    obtain ⟨own', hown', hrank'⟩ := getMapRankEntry_eq hcolor' (hrows ▸ hr) rfl
    have hsame : own'.rank = own.rank := by
      rw [hrank, hrank', hrows]
    obtain ⟨own'', hown'', hboard⟩ := rank_of_public hcolor' hr'
    obtain rfl : own' = own'' := Option.some.inj (Except.ok.inj (hown'.symm.trans hown''))
    refine ⟨own, hown, ⟨own', hown', hsame⟩, ?_⟩
    intro order start end' es hes e he hid
    obtain ⟨r', hr'', he'⟩ := mem_getMapLeaderboard hes he
    obtain rfl := publicEntry_of_wsid hr' hr'' he' hid
    rw [hboard e he', hsame]
  · have hcount : t.getMapLeaderboardLen mapUid = .ok (t.publicRows mapUid).length :=
      if_neg (not_lt.2 hlen)
    refine ⟨(t.publicRows mapUid).length, hcount,
      ⟨t.getMapNbPlayingLive afk mapUid, ?_⟩, ?_⟩
    · rw [Tables.getMapOverviewPlayerCounts, hcount]
      rfl
    · intro order end' hend
      obtain ⟨es, hes, hlength, -⟩ := getMapLeaderboard_full (b := b) hcolor hlen order hend
      exact ⟨es, hes, hlength⟩

/-- Two players on a map, of which the higher one is banned from it. -/
def podium : Tables where
  db :=
    ((ReadCommitted.Store.empty.put ⟨⟨.mapLeaderboard, (1, "m")⟩,
      some ⟨20, ⟨0, 20, 0⟩, 0, 0, 1⟩⟩).put
    ⟨⟨.mapLeaderboard, (2, "m")⟩, some ⟨10, ⟨0, 10, 0⟩, 0, 0, 1⟩⟩).put
      ⟨⟨.mapBans, ("m", 1)⟩, some ⟨none, none⟩⟩
  now := 0
  displayName _ := some "a"
  color _ := some (1, 1, 1)
  named _ _ _ := rfl
  serial := by decide

theorem board_queries_agree_podium :
    (∃ own, podium.getMapRankEntry "m" 2 = .ok (some own)) ∧
    ∃ own, podium.getMapRankEntry "m" 1 = .ok (some own) := by
  obtain ⟨hpublic, hbanned, -⟩ :=
    board_queries_agree podium (fun _ => 0) "m" .release (fun _ => rfl) (by decide)
  obtain ⟨own, hown, -⟩ := hpublic 2 (Arranged.sort _ _) (by decide) (by decide)
  obtain ⟨own', hown', -⟩ :=
    hbanned 1 ⟨none, none⟩ 0 (by decide) (by decide) (by decide) (by decide)
  exact ⟨⟨own, hown⟩, own', hown'⟩

end Dd2Server.Boards
