import Dd2Server.LiveHeights.Histories

/-!
# The live boards

The players that are live on a map: the HTTP route answers with all of them, the plugin with the
highest, and two counters count them.  Who is shown follows from the reports alone, whichever
connections they came on (`live_players`): who reported in the last two minutes, has moved within
the last 360 reports, and is not hidden.
-/

namespace Dd2Server.LiveHeights

open ReadCommitted Paging
open Boards (Height Pos Color SqlxError MapBanRow decoded)

/-- The time when a board is read, and what the other tables say of the players then. -/
structure Around where
  now : Time
  displayName : Uuid → Option String
  color : Uuid → Option Color
  shadowBanned : Uuid → Bool
  mapBan : String → Uuid → Option MapBanRow

/-- A row with the columns joined to it. -/
structure LivePlayer where
  userId : Uuid
  displayName : Option String
  color : Option Color
  row : LiveRow
  deriving DecidableEq

/-- `ORDER BY m.height DESC`. -/
def LivePlayer.byHeight (p : LivePlayer) : Heightᵒᵈ := OrderDual.toDual p.row.height

structure PlayerAtHeight where
  displayName : String
  userId : String
  height : Height
  ts : Int
  rank : Int
  color : Option Color
  pos : Option Pos
  vel : Option Pos
  afkCount : Int
  updateCount : Int
  dt : ℚ
  deriving DecidableEq

instance : Inhabited PlayerAtHeight := ⟨⟨"", "", 0, 0, 0, none, none, none, 0, 0, 0⟩⟩

/-- The row as the driver decodes it, at its place. -/
def LivePlayer.atHeight (a : Arithmetic) (place : Nat) (p : LivePlayer) :
    Option PlayerAtHeight := do
  let displayName ← p.displayName
  let color ← p.color
  return { displayName, userId := p.userId.text, height := p.row.height
           ts := p.row.updatedAt / 1000000
           rank := place + 1, color := some color, pos := some p.row.pos
           vel := some (a.roundV3 p.row.velocity), afkCount := p.row.afkUpdateCount
           updateCount := p.row.updateCount, dt := p.row.dt }

/-- The same for the plugin, at its rank. -/
def LivePlayer.entry (rank : Nat) (p : LivePlayer) : Option (LeaderboardEntry2 Pos Color) := do
  let name ← p.displayName
  let color ← p.color
  return { rank := BitVec.ofNat 32 rank, wsid := p.userId.text, pos := p.row.pos
           ts := Boards.timestampU32 p.row.updatedAt, name, updateCount := p.row.updateCount, color
           raceTime := p.row.raceTime }

namespace Around

variable (o : Around)

/-- Neither shadow-banned nor banned on the map. -/
def shows (mapUid : String) (userId : Uuid) : Bool :=
  !o.shadowBanned userId && !(o.mapBan mapUid userId).any fun b => b.isActive o.now

/-- Reported in the last two minutes, and not idle for long. -/
def isRecent (row : LiveRow) : Bool :=
  row.afkUpdateCount < 360 && o.now - 120 * 1000000 < row.updatedAt

def livePlayers (db : Db) (mapUid : String) : List LivePlayer :=
  ((db.rows .mapCurrHeights).filter fun e => e.1.2 = mapUid &&
    (o.shows mapUid e.1.1 && o.isRecent e.2)).map fun e =>
    { userId := e.1.1, displayName := o.displayName e.1.1, color := o.color e.1.1, row := e.2 }

/-- The order in which a query returns them. -/
abbrev Order (db : Db) (mapUid : String) := Arranged LivePlayer.byHeight (o.livePlayers db mapUid)

def getMapNbPlayingLive (db : Db) (mapUid : String) : Nat := (o.livePlayers db mapUid).length

/-- Over all maps; a map ban does not count. -/
def getNbPlayingLive (db : Db) : Nat :=
  (db.rows .mapCurrHeights).countP fun e => !o.shadowBanned e.1.1 && o.isRecent e.2

variable {o} {db : Db} {mapUid : String}

def getMapLiveHeights (a : Arithmetic) (order : o.Order db mapUid) :
    Except SqlxError (List PlayerAtHeight) :=
  if 20 ≤ Text.byteLen mapUid ∧ Text.byteLen mapUid < 30 then
    decoded (fun p => p.1.atHeight a p.2) order.list.zipIdx
  else .error .rowNotFound

def getMapLiveHeightsTopN (order : o.Order db mapUid) (n : BitVec 32) :
    Except SqlxError (List (LeaderboardEntry2 Pos Color)) :=
  if 20 ≤ Text.byteLen mapUid ∧ Text.byteLen mapUid < 30 then
    decoded (fun p => p.entry (rank LivePlayer.byHeight (o.livePlayers db mapUid) p))
      (order.list.take n.toNat)
  else .error .rowNotFound

end Around

/-! ## Who is live -/

/-- The latest report is from the last two minutes, and one of the last 360 moved the player. -/
def Active (a : Arithmetic) (now : Time) (reports : List LiveReport) : Prop :=
  ∃ r, reports.head? = some r ∧ now - 120 * 1000000 < r.time ∧ idle a reports < 360

/-- Where the latest report has the player. -/
def lastHeight (reports : List LiveReport) : Height := reports.head?.elim 0 fun r => r.pos.y

section

variable {a : Arithmetic} {o : Around} {db : Db} {mapUid : String} {p : LivePlayer}

theorem mem_livePlayers : p ∈ o.livePlayers db mapUid ↔
    db.get ⟨.mapCurrHeights, (p.userId, mapUid)⟩ = some p.row ∧
      o.shows mapUid p.userId = true ∧ o.isRecent p.row = true ∧
      p.displayName = o.displayName p.userId ∧ p.color = o.color p.userId := by
  simp only [Around.livePlayers, List.mem_map, List.mem_filter, Bool.and_eq_true, decide_eq_true_eq]
  constructor
  · rintro ⟨⟨⟨u, m⟩, row⟩, ⟨hmem, rfl, hshows, hrecent⟩, rfl⟩
    exact ⟨Store.mem_rows.1 hmem, hshows, hrecent, rfl, rfl⟩
  · rintro ⟨hget, hshows, hrecent, hname, hcolor⟩
    refine ⟨((p.userId, mapUid), p.row), ⟨Store.mem_rows.2 hget, rfl, hshows, hrecent⟩, ?_⟩
    rw [← hname, ← hcolor]

theorem livePlayers_nodup (o : Around) (db : Db) (mapUid : String) :
    ((o.livePlayers db mapUid).map LivePlayer.userId).Nodup := by
  rw [Around.livePlayers, List.map_map]
  refine Boards.nodup_firsts (Store.rows_nodup db .mapCurrHeights) (b := mapUid) fun e he => ?_
  rw [Bool.and_eq_true, decide_eq_true_eq] at he
  exact he.1

/-- What a row that decodes is shown as. -/
def LivePlayer.shown (a : Arithmetic) (place : Nat) (p : LivePlayer) : PlayerAtHeight where
  displayName := p.displayName.getD ""
  userId := p.userId.text
  height := p.row.height
  ts := p.row.updatedAt / 1000000
  rank := place + 1
  color := p.color
  pos := some p.row.pos
  vel := some (a.roundV3 p.row.velocity)
  afkCount := p.row.afkUpdateCount
  updateCount := p.row.updateCount
  dt := p.row.dt

theorem eq_shown {place : Nat} {q : PlayerAtHeight} (h : p.atHeight a place = some q) :
    q = p.shown a place := by
  obtain ⟨name, hname, h⟩ := Option.bind_eq_some_iff.1 h
  obtain ⟨color, hcolor, h⟩ := Option.bind_eq_some_iff.1 h
  cases h
  rw [LivePlayer.shown, hname, hcolor]
  rfl

theorem atHeight_isSome {place : Nat} : (p.atHeight a place).isSome ↔ p.displayName.isSome ∧
    p.color.isSome := by
  cases hname : p.displayName <;> cases hcolor : p.color
    <;> simp [LivePlayer.atHeight, hname, hcolor]

/-- A column that does not depend on the place. -/
theorem map_shown {β : Type} {column : PlayerAtHeight → β} {f : LivePlayer → β}
    (h : ∀ p place, column (p.shown a place) = f p) (l : List LivePlayer) :
    (l.zipIdx.map fun p => p.1.shown a p.2).map column = l.map f :=
  calc (l.zipIdx.map fun p => p.1.shown a p.2).map column
      = (l.zipIdx.map Prod.fst).map f := by
        rw [List.map_map, List.map_map]
        exact List.map_congr_left fun p _ => h p.1 p.2
    _ = l.map f := by rw [List.zipIdx_map_fst]

theorem getMapLiveHeights_eq_ok {order : o.Order db mapUid} {ps : List PlayerAtHeight} :
    o.getMapLiveHeights a order = .ok ps ↔
      (20 ≤ Text.byteLen mapUid ∧ Text.byteLen mapUid < 30) ∧
      (∀ p ∈ order.list, p.displayName.isSome ∧ p.color.isSome) ∧ ps = order.list.zipIdx.map
      fun p => p.1.shown a p.2 := by
  rw [Around.getMapLiveHeights]
  split
  case isFalse hlen => simp [hlen]
  case isTrue hlen =>
    rw [Boards.decoded_eq_ok_iff (fun p q => eq_shown)]
    simp only [hlen, and_self, true_and, atHeight_isSome]
    refine and_congr_left fun _ =>
      ⟨fun h p hp => ?_, fun h p hp => h p.1 (List.fst_mem_of_mem_zipIdx hp)⟩
    obtain ⟨i, hi⟩ := List.getElem?_of_mem hp
    exact h (p, i) (List.mem_zipIdx_iff_getElem?.2 hi)

/-- What a row that decodes is shown as to the plugin. -/
def LivePlayer.ranked (rank : Nat) (p : LivePlayer) : LeaderboardEntry2 Pos Color where
  rank := BitVec.ofNat 32 rank
  wsid := p.userId.text
  pos := p.row.pos
  ts := Boards.timestampU32 p.row.updatedAt
  name := p.displayName.getD ""
  updateCount := p.row.updateCount
  color := p.color.getD (0, 0, 0)
  raceTime := p.row.raceTime

theorem eq_ranked {place : Nat} {e : LeaderboardEntry2 Pos Color} (h : p.entry place = some e) :
    e = p.ranked place := by
  obtain ⟨name, hname, h⟩ := Option.bind_eq_some_iff.1 h
  obtain ⟨color, hcolor, h⟩ := Option.bind_eq_some_iff.1 h
  cases h
  rw [LivePlayer.ranked, hname, hcolor]
  rfl

theorem eq_of_getMapLiveHeightsTopN {order : o.Order db mapUid} {n : BitVec 32}
    {es : List (LeaderboardEntry2 Pos Color)} (h : o.getMapLiveHeightsTopN order n = .ok es) :
    es = (order.list.take n.toNat).map fun p =>
      p.ranked (rank LivePlayer.byHeight (o.livePlayers db mapUid) p) := by
  rw [Around.getMapLiveHeightsTopN] at h
  split at h
  case isFalse => cases h
  case isTrue => exact ((Boards.decoded_eq_ok_iff fun p e => eq_ranked).1 h).2

end

/-! ## Boards from histories -/

/-- What a row says of its reports. -/
structure Sums (a : Arithmetic) (reports : List LiveReport) (r : LiveReport)
    (row : LiveRow) : Prop where
  latest : reports.head? = some r
  pos : row.pos = r.pos
  height : row.height = r.pos.y
  raceTime : row.raceTime = r.raceTime
  updatedAt : row.updatedAt = r.time
  afkUpdateCount : row.afkUpdateCount = idle a reports
  updateCount : row.updateCount + 1 = reports.length

theorem sums_of_standing {a : Arithmetic} {reports : List LiveReport} {row : LiveRow}
    (h : standing a reports = some row) : ∃ r, Sums a reports r row := by
  cases reports with
  | nil => cases h
  | cons r older =>
      cases h
      exact ⟨r, rfl, rfl, rfl, rfl, rfl, rfl, rfl⟩

/-- Whether a row is recent follows from its reports. -/
theorem recent_iff {a : Arithmetic} {o : Around} {reports : List LiveReport} :
    (∃ row, standing a reports = some row ∧ o.isRecent row = true) ↔
    Active a o.now reports := by
  constructor
  · rintro ⟨row, hrow, hrecent⟩
    obtain ⟨r, hsums⟩ := sums_of_standing hrow
    rw [Around.isRecent, hsums.afkUpdateCount, hsums.updatedAt, Bool.and_eq_true, decide_eq_true_eq,
      decide_eq_true_eq] at hrecent
    exact ⟨r, hsums.latest, hrecent.2, by omega⟩
  · rintro ⟨r, hlatest, hnow, hidle⟩
    obtain ⟨older, rfl⟩ := List.head?_eq_some_iff.1 hlatest
    refine ⟨_, rfl, Bool.and_eq_true_iff.2 ⟨decide_eq_true ?_, decide_eq_true hnow⟩⟩
    exact Int.ofNat_lt.2 hidle

section

variable {a : Arithmetic} {o : Around} {db : Db} {mapUid : String}
    {history : Uuid → List LiveReport}

/-- The players that are live on a map. -/
def liveUsers (o : Around) (db : Db) (mapUid : String) : List Uuid :=
  (o.livePlayers db mapUid).map LivePlayer.userId

variable (hrow : ∀ u, db.get ⟨.mapCurrHeights, (u, mapUid)⟩ = standing a (history u))
include hrow

theorem sums_of_mem {p : LivePlayer} (hp : p ∈ o.livePlayers db mapUid) :
    ∃ r, Sums a (history p.userId) r p.row :=
  sums_of_standing ((hrow p.userId).symm.trans (mem_livePlayers.1 hp).1)

theorem height_of_mem {p : LivePlayer} (hp : p ∈ o.livePlayers db mapUid) :
    p.row.height = lastHeight (history p.userId) := by
  obtain ⟨r, hsums⟩ := sums_of_mem hrow hp
  rw [lastHeight, hsums.latest, hsums.height]
  rfl

theorem mem_liveUsers {u : Uuid} :
    u ∈ liveUsers o db mapUid ↔ o.shows mapUid u = true ∧ Active a o.now (history u) := by
  rw [← recent_iff, liveUsers, List.mem_map]
  constructor
  · rintro ⟨p, hp, rfl⟩
    obtain ⟨hget, hshows, hrecent, -⟩ := mem_livePlayers.1 hp
    exact ⟨hshows, p.row, (hrow p.userId).symm.trans hget, hrecent⟩
  · rintro ⟨hshows, row, hstanding, hrecent⟩
    exact ⟨⟨u, o.displayName u, o.color u, row⟩,
      mem_livePlayers.2 ⟨(hrow u).trans hstanding, hshows, hrecent, rfl, rfl⟩, rfl⟩

end

/-- What the counter and the answers say of a map, whatever order the database chooses among equal
heights. -/
structure Shown (a : Arithmetic) (o : Around) (db : Db) (mapUid : String)
    (history : Uuid → List LiveReport) (users : List Uuid) : Prop where
  nodup : users.Nodup
  live : ∀ u, u ∈ users ↔ o.shows mapUid u = true ∧ Active a o.now (history u)
  count : o.getMapNbPlayingLive db mapUid = users.length
  /-- One player without a colour fails the whole request. -/
  answered : ∀ order : o.Order db mapUid, (∃ ps, o.getMapLiveHeights a order = .ok ps) ↔
    (20 ≤ Text.byteLen mapUid ∧ Text.byteLen mapUid < 30) ∧
      ∀ u ∈ users, (o.displayName u).isSome ∧ (o.color u).isSome
  /-- Each live player once, the highest first, as of the latest report. -/
  heights : ∀ (order : o.Order db mapUid) ps, o.getMapLiveHeights a order = .ok ps →
    (ps.map PlayerAtHeight.userId).Perm (users.map Uuid.text) ∧
      ps.Pairwise (fun p q => q.height ≤ p.height) ∧ (∀ (i : Nat) p, ps[i]? = some p →
        p.rank = i + 1) ∧
      ∀ p ∈ ps, ∃ u ∈ users, ∃ r, p.userId = u.text ∧ (history u).head? = some r ∧
        p.pos = some r.pos ∧
        p.ts = r.time / 1000000 ∧ p.afkCount = idle a (history u) ∧
          p.updateCount + 1 = (history u).length
  /-- As many as fit, and nobody who is left out is higher. -/
  topN : ∀ (order : o.Order db mapUid) (n : BitVec 32) es, o.getMapLiveHeightsTopN order n =
    .ok es →
    es.length = min n.toNat users.length ∧ (es.map LeaderboardEntry2.wsid).Nodup ∧
      ∀ e ∈ es, ∃ u ∈ users, ∃ r, e.wsid = u.text ∧ (history u).head? = some r ∧
        e.pos = r.pos ∧
        e.rank = BitVec.ofNat 32
          (users.countP (fun v => lastHeight (history u) < lastHeight (history v)) + 1) ∧
        ∀ v ∈ users, v.text ∉ es.map LeaderboardEntry2.wsid →
          lastHeight (history v) ≤ lastHeight (history u)

section

variable {a : Arithmetic} {o : Around} {db : Db} {mapUid : String}
  {history : Uuid → List LiveReport}
  (hrow : ∀ u, db.get ⟨.mapCurrHeights, (u, mapUid)⟩ = standing a (history u))
include hrow

theorem rank_eq {p : LivePlayer} (hp : p ∈ o.livePlayers db mapUid) :
    rank LivePlayer.byHeight (o.livePlayers db mapUid) p =
      (liveUsers o db mapUid).countP (fun v =>
        lastHeight (history p.userId) < lastHeight (history v)) + 1 := by
  rw [rank, liveUsers, List.countP_map]
  refine congrArg (· + 1) (List.countP_congr fun q hq => ?_)
  simp only [Function.comp_apply, decide_eq_true_eq, LivePlayer.byHeight,
    OrderDual.toDual_lt_toDual, height_of_mem hrow hp, height_of_mem hrow hq]

theorem shown_heights (order : o.Order db mapUid) {ps : List PlayerAtHeight}
    (h : o.getMapLiveHeights a order = .ok ps) :
    (ps.map PlayerAtHeight.userId).Perm ((liveUsers o db mapUid).map Uuid.text) ∧
      ps.Pairwise (fun p q => q.height ≤ p.height) ∧ (∀ (i : Nat) p, ps[i]? = some p →
        p.rank = i + 1) ∧
      ∀ p ∈ ps, ∃ u ∈ liveUsers o db mapUid, ∃ r, p.userId = u.text ∧
        (history u).head? = some r ∧ p.pos = some r.pos ∧ p.ts = r.time / 1000000 ∧
        p.afkCount = idle a (history u) ∧ p.updateCount + 1 = (history u).length := by
  obtain ⟨-, -, rfl⟩ := getMapLiveHeights_eq_ok.1 h
  refine ⟨?_, ?_, ?_, ?_⟩
  · rw [map_shown (fun _ _ => rfl), liveUsers, List.map_map]
    exact order.perm.map _
  · have hsorted : (order.list.map fun p => p.row.height).Pairwise fun x y => y ≤ x :=
      List.pairwise_map.2 order.sorted
    have hheights : (order.list.zipIdx.map fun p => p.1.shown a p.2).map PlayerAtHeight.height =
        order.list.map fun p => p.row.height := map_shown (fun _ _ => rfl) _
    rw [← hheights] at hsorted
    exact List.pairwise_map.1 hsorted
  · intro i p hp
    rw [List.getElem?_map, List.getElem?_zipIdx] at hp
    obtain ⟨q, hq, rfl⟩ := Option.map_eq_some_iff.1 hp
    obtain ⟨x, hx, rfl⟩ := Option.map_eq_some_iff.1 hq
    simp [LivePlayer.shown]
  · intro p hp
    obtain ⟨q, hq, rfl⟩ := List.mem_map.1 hp
    have hmem := order.mem_iff.1 (List.fst_mem_of_mem_zipIdx hq)
    obtain ⟨r, hsums⟩ := sums_of_mem hrow hmem
    refine ⟨_, List.mem_map_of_mem hmem, r, rfl, hsums.latest, congrArg some hsums.pos, ?_,
      hsums.afkUpdateCount, hsums.updateCount⟩
    rw [LivePlayer.shown, hsums.updatedAt]

theorem shown_topN (order : o.Order db mapUid) {n : BitVec 32}
    {es : List (LeaderboardEntry2 Pos Color)} (h : o.getMapLiveHeightsTopN order n = .ok es) :
    es.length = min n.toNat (liveUsers o db mapUid).length ∧
      (es.map LeaderboardEntry2.wsid).Nodup ∧ ∀ e ∈ es, ∃ u ∈ liveUsers o db mapUid,
        ∃ r, e.wsid = u.text ∧ (history u).head? = some r ∧ e.pos = r.pos ∧
          e.rank = BitVec.ofNat 32 ((liveUsers o db mapUid).countP (fun v =>
            lastHeight (history u) < lastHeight (history v)) + 1) ∧
        ∀ v ∈ liveUsers o db mapUid, v.text ∉ es.map LeaderboardEntry2.wsid →
          lastHeight (history v) ≤ lastHeight (history u) := by
  obtain rfl := eq_of_getMapLiveHeightsTopN h
  have hwsids : ((order.list.take n.toNat).map fun p =>
      p.ranked (rank LivePlayer.byHeight (o.livePlayers db mapUid) p)).map LeaderboardEntry2.wsid =
      (order.list.take n.toNat).map fun p => p.userId.text := List.map_map
  rw [hwsids]
  refine ⟨?_, ?_, fun e he => ?_⟩
  · rw [List.length_map, List.length_take, order.length_eq, liveUsers, List.length_map]
  · have hnodup : (order.list.map LivePlayer.userId).Nodup :=
      (order.perm.map _).nodup_iff.2 (livePlayers_nodup o db mapUid)
    have htexts := hnodup.map fun u v => Uuid.text_inj
    rw [List.map_map] at htexts
    exact htexts.sublist ((List.take_sublist _ _).map _)
  · obtain ⟨p, hp, rfl⟩ := List.mem_map.1 he
    have hmem := order.mem_iff.1 (List.mem_of_mem_take hp)
    obtain ⟨r, hsums⟩ := sums_of_mem hrow hmem
    refine ⟨_, List.mem_map_of_mem hmem, r, rfl, hsums.latest, hsums.pos, ?_,
      fun v hv hout => ?_⟩
    · rw [LivePlayer.ranked, rank_eq hrow hmem]
    · obtain ⟨q, hq, rfl⟩ := List.mem_map.1 hv
      rw [← height_of_mem hrow hmem, ← height_of_mem hrow hq]
      have hdrop : q ∈ order.list.drop n.toNat := by
        have hsplit := order.mem_iff.2 hq
        rw [← List.take_append_drop n.toNat order.list] at hsplit
        exact (List.mem_append.1 hsplit).resolve_left fun htake =>
          hout (List.mem_map.2 ⟨q, htake, rfl⟩)
      have hsorted := order.sorted
      rw [← List.take_append_drop n.toNat order.list] at hsorted
      exact (List.pairwise_append.1 hsorted).2.2 p hp q hdrop

theorem shown : Shown a o db mapUid history (liveUsers o db mapUid) where
  nodup := livePlayers_nodup o db mapUid
  live _ := mem_liveUsers hrow
  count := (List.length_map _).symm
  answered order := by
    have hdecodes : (∀ p ∈ order.list, p.displayName.isSome ∧ p.color.isSome) ↔
        ∀ u ∈ liveUsers o db mapUid, (o.displayName u).isSome ∧ (o.color u).isSome := by
      rw [liveUsers, List.forall_mem_map]
      refine forall_congr' fun p => ?_
      rw [order.mem_iff]
      refine imp_congr_right fun hp => ?_
      obtain ⟨-, -, -, hname, hcolor⟩ := mem_livePlayers.1 hp
      rw [hname, hcolor]
    rw [← hdecodes]
    constructor
    · rintro ⟨ps, h⟩
      obtain ⟨hlen, hall, -⟩ := getMapLiveHeights_eq_ok.1 h
      exact ⟨hlen, hall⟩
    · rintro ⟨hlen, hall⟩
      exact ⟨_, getMapLiveHeights_eq_ok.2 ⟨hlen, hall, rfl⟩⟩
  heights order _ := shown_heights hrow order
  topN order _ _ := shown_topN hrow order

end

/-- The counter over all maps. -/
theorem nbPlayingLive {a : Arithmetic} {o : Around} {db : Db}
    {history : Uuid × String → List LiveReport}
    (hrow : ∀ k, db.get ⟨.mapCurrHeights, k⟩ = standing a (history k)) :
    ∃ ks : List (Uuid × String), ks.Nodup ∧ o.getNbPlayingLive db = ks.length ∧
      ∀ k, k ∈ ks ↔ o.shadowBanned k.1 = false ∧ Active a o.now (history k) := by
  refine ⟨((db.rows .mapCurrHeights).filter fun e => !o.shadowBanned e.1.1 &&
    o.isRecent e.2).map Prod.fst,
    (Store.rows_nodup db .mapCurrHeights).sublist (List.filter_sublist.map _), ?_, fun k => ?_⟩
  · rw [List.length_map, Around.getNbPlayingLive, List.countP_eq_length_filter]
  · rw [← recent_iff, List.mem_map]
    simp only [List.mem_filter, Bool.and_eq_true, Bool.not_eq_true']
    constructor
    · rintro ⟨e, ⟨hget, hbanned, hrecent⟩, rfl⟩
      exact ⟨hbanned, e.2, (hrow e.1).symm.trans (Store.mem_rows.1 hget), hrecent⟩
    · rintro ⟨hbanned, row, hstanding, hrecent⟩
      exact ⟨(k, row), ⟨Store.mem_rows.2 ((hrow k).trans hstanding), hbanned, hrecent⟩, rfl⟩

/-- **Who is live follows from the reports of each player on each map, in the order of their
commits.** -/
theorem live_players {a : Arithmetic} {s₀ s : LiveSystem} {es : List Commit}
    (h : LiveRun a s₀ es s) (htasks : s₀.tasks = [])
    (earlier : Uuid × String → List LiveReport)
    (hearlier : ∀ k, s₀.db.get ⟨.mapCurrHeights, k⟩ = standing a (earlier k)) :
    ∃ reports : Uuid × String → List LiveReport,
      (∀ k, List.Forall₂ Brings (commitsFor es k) (reports k)) ∧
      (∀ k, s.db.get ⟨.mapCurrHeights, k⟩ = standing a (reports k ++ earlier k)) ∧
      ∀ (o : Around),
        (∃ ks : List (Uuid × String), ks.Nodup ∧ o.getNbPlayingLive s.db = ks.length ∧
          ∀ k, k ∈ ks ↔ o.shadowBanned k.1 = false ∧
            Active a o.now (reports k ++ earlier k)) ∧
        ∀ mapUid, ∃ users,
          Shown a o s.db mapUid (fun u => reports (u, mapUid) ++ earlier (u, mapUid)) users := by
  choose reports hbrings hrow using fun k => row_standing h htasks (hearlier k)
  exact ⟨reports, hbrings, hrow, fun o =>
    ⟨nbPlayingLive hrow, fun mapUid => ⟨_, shown fun u => hrow (u, mapUid)⟩⟩⟩

/-! ## One player on two connections -/

/-- Without rounding. -/
def Arithmetic.exact : Arithmetic where
  near p q := (p.x - q.x) ^ 2 + (p.y - q.y) ^ 2 + (p.z - q.z) ^ 2 ≤ 1
  rate x y dt := (x - y) * 1000000 / dt
  seconds dt := dt / 1000000
  roundV3 v := v

def onMap (y : Height) : Job := .mapCurrPos 1 "Map________________________" ⟨0, y, 0⟩ 0

/-- The second call commits first. -/
def crossed : List (Cue Ask.Ans Job) :=
  [.start (onMap 10), .start (onMap (21 / 2)), .go 1 10 fun | .now => (2 : Int),
    .go 0 10 fun | .now => (1 : Int)]

def here : Around where
  now := 3
  displayName _ := some "A"
  color _ := some (1, 1, 1)
  shadowBanned _ := false
  mapBan _ _ := none

theorem live_players_crossed : ∃ es s, LiveRun .exact { db := .empty, mem := () } es s ∧
    s.db.get ⟨.mapCurrHeights, (1, "Map________________________")⟩ =
      some ⟨10, ⟨0, 10, 0⟩, 0, 1, 1, 1, ⟨0, 0, 0⟩, -1 / 1000000⟩ ∧
    here.getMapNbPlayingLive s.db "Map________________________" = 1 ∧
    ∃ history users, Shown .exact here s.db "Map________________________" history users := by
  obtain ⟨s, hs, hrow⟩ : ∃ s, Reach shared (Job.body .exact) (fun _ _ => True)
      { db := .empty, mem := () } s ∧
      s.db.get ⟨.mapCurrHeights, (1, "Map________________________")⟩ =
        some ⟨10, ⟨0, 10, 0⟩, 0, 1, 1, 1, ⟨0, 0, 0⟩, -1 / 1000000⟩ ∧
      here.getMapNbPlayingLive s.db "Map________________________" = 1 :=
    Reach.scripted crossed (by decide +kernel)
  obtain ⟨es, hes⟩ := (hs.reachBy.mono fun _ _ _ => trivial).chronicle
  obtain ⟨reports, -, -, hshown⟩ := live_players hes rfl (fun _ => []) fun _ => rfl
  obtain ⟨users, husers⟩ := (hshown here).2 "Map________________________"
  exact ⟨es, s, hes, hrow.1, hrow.2, _, users, husers⟩

end Dd2Server.LiveHeights
