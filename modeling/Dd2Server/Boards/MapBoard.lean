import Dd2Server.Boards.MapLeaderboard
import Dd2Server.Boards.Ranges
import Dd2Server.Entries

/-!
# The leaderboard of a map

The queries that show the standings on a map: a range, a page over HTTP, how long the board is, and
where one player stands.  Each reads the rows committed then, at its own `NOW()`.

Two columns come from a `LEFT JOIN` and decode into types without `NULL`: the name, which a foreign
key provides, and the colour, which nothing does.  A row without a colour fails the whole request.
-/

namespace Dd2Server.Boards

open Machine Paging

abbrev Color := ℚ × ℚ × ℚ

/-- The tables that the board requests read, at a time. -/
structure Tables where
  db : Db
  now : Time
  displayName : Uuid → Option String
  color : Uuid → Option Color
  /-- The foreign key to `users`. -/
  named : ∀ userId mapUid, (db.get ⟨.mapLeaderboard, (userId, mapUid)⟩).isSome →
    (displayName userId).isSome
  /-- The ids of `map_leaderboard` are a `SERIAL`. -/
  serial : (db.rows .mapLeaderboard).length < 2 ^ 31

/-- A standing with the columns joined to it. -/
structure LbRow where
  userId : Uuid
  displayName : Option String
  color : Option Color
  standing : StandingRow
  deriving DecidableEq

/-- `ORDER BY m.height DESC`. -/
def LbRow.byHeight (r : LbRow) : Heightᵒᵈ := OrderDual.toDual r.standing.height

instance : Inhabited (LeaderboardEntry2 Pos Color) :=
  ⟨⟨0, "", ⟨0, 0, 0⟩, 0, "", 0, (0, 0, 0), 0⟩⟩

/-- `timestamp() as u32`. -/
def timestampU32 (t : Time) : BitVec 32 := BitVec.ofInt 32 (t / 1000000)

/-- The row as the driver decodes it, at its rank. -/
def LbRow.entry (rank : Nat) (r : LbRow) : Option (LeaderboardEntry2 Pos Color) := do
  let name ← r.displayName
  let color ← r.color
  return { rank := BitVec.ofNat 32 rank, wsid := r.userId.text, pos := r.standing.pos
           ts := timestampU32 r.standing.updatedAt, name, updateCount := r.standing.updateCount,
             color
           raceTime := r.standing.raceTime }

namespace Tables

variable (t : Tables)

/-- The joined rows of `map_leaderboard` of the users that `shown` picks. -/
def lbRows (mapUid : String) (shown : Uuid → Bool) : List LbRow :=
  ((t.db.rows .mapLeaderboard).filter fun e => e.1.2 = mapUid && shown e.1.1).map fun e =>
    { userId := e.1.1, displayName := t.displayName e.1.1, color := t.color e.1.1, standing := e.2 }

/-- The rows on the public board. -/
def publicRows (mapUid : String) : List LbRow := t.lbRows mapUid (isPublic t.db t.now mapUid)

/-- The rows among which one player is ranked: a map ban does not hide that player. -/
def rankedRows (mapUid : String) (userId : Uuid) : List LbRow :=
  t.lbRows mapUid fun u => (t.db.get ⟨.shadowBans, u⟩).isNone &&
    (!((t.db.get ⟨.mapBans, (mapUid, u)⟩).any fun b => b.isActive t.now) || u = userId)

/-- The order in which a query returns the public rows. -/
abbrev Order (mapUid : String) := Arranged LbRow.byHeight (t.publicRows mapUid)

/-- The entry of a public row. -/
def publicEntry (mapUid : String) (r : LbRow) : Option (LeaderboardEntry2 Pos Color) :=
  r.entry (rank LbRow.byHeight (t.publicRows mapUid) r)

variable {t}

/-- The parameters of the query of `get_map_leaderboard`. -/
def getMapLeaderboardRange (mapUid : String) (start end' : BitVec 64) :
    Checked (Except SqlxError Range) :=
  if 30 < Text.byteLen mapUid then return .error .rowNotFound
  else do
    let limit ← subS end' start
    return .ok { limit, offset := start }

def getMapLeaderboard {mapUid : String} (order : t.Order mapUid) (start end' : BitVec 64) :
    Checked (Except SqlxError (List (LeaderboardEntry2 Pos Color))) := do
  let range ← getMapLeaderboardRange mapUid start end'
  return do
    let rows ← (← range).select order.list
    decoded (t.publicEntry mapUid) rows

def getMapLeaderboardPage {mapUid : String} (order : t.Order mapUid) (page : BitVec 32) :
    Checked (Except SqlxError (List (LeaderboardEntry2 Pos Color))) := do
  let start := (← mulU page 100).setWidth 64
  let end' ← addS start 100
  getMapLeaderboard order start end'

def handleGetMapUidLeaderboard {mapUid : String} (order : t.Order mapUid) (page : BitVec 32) :
    Checked (Except Rejection (List (LeaderboardEntry2 Pos Color))) := do
  let r ← getMapLeaderboardPage order page
  return r.mapError .api

variable (t)

def getMapLeaderboardLen (mapUid : String) : Except SqlxError Nat :=
  if 30 < Text.byteLen mapUid then .error .rowNotFound
  else .ok (t.publicRows mapUid).length

/-- The players that are live on a map: seen in the last two minutes and not idle for long. -/
def getMapNbPlayingLive (afk : Uuid × String → Nat) (mapUid : String) : Nat :=
  ((t.db.rows .mapCurrHeights).filter fun e => e.1.2 = mapUid && isPublic t.db t.now mapUid e.1.1 &&
    afk e.1 < 360 && t.now - 120 * 1000000 < e.2.updatedAt).length

def getMapOverviewPlayerCounts (afk : Uuid × String → Nat) (mapUid : String) :
    Except SqlxError (Nat × Nat) := do
  let nbPlayersOnLb ← t.getMapLeaderboardLen mapUid
  return (nbPlayersOnLb, t.getMapNbPlayingLive afk mapUid)

/-- The standing of one player, and none where there is no row. -/
def getMapRankEntry (mapUid : String) (userId : Uuid) :
    Except SqlxError (Option (LeaderboardEntry2 Pos Color)) :=
  match (t.rankedRows mapUid userId).find? (·.userId = userId) with
  | none => .ok none
  | some r =>
      match r.entry (rank LbRow.byHeight (t.rankedRows mapUid userId) r) with
      | none => .error .database
      | some e => .ok (some { e with updateCount := 0 })

end Tables

/-! ## The rows of a board -/

section

variable {t : Tables} {mapUid : String} {shown : Uuid → Bool} {r : LbRow}

theorem mem_lbRows : r ∈ t.lbRows mapUid shown ↔
    t.db.get ⟨.mapLeaderboard, (r.userId, mapUid)⟩ = some r.standing ∧
      shown r.userId = true ∧ r.displayName = t.displayName r.userId ∧
      r.color = t.color r.userId := by
  simp only [Tables.lbRows, List.mem_map, List.mem_filter, Bool.and_eq_true, decide_eq_true_eq]
  constructor
  · rintro ⟨⟨⟨u, m⟩, s⟩, ⟨hmem, rfl, hshown⟩, rfl⟩
    exact ⟨ReadCommitted.Store.mem_rows.1 hmem, hshown, rfl, rfl⟩
  · rintro ⟨hget, hshown, hname, hcolor⟩
    refine ⟨((r.userId, mapUid), r.standing), ⟨ReadCommitted.Store.mem_rows.2 hget, rfl,
      hshown⟩, ?_⟩
    rw [← hname, ← hcolor]

/-- Rows whose keys agree in the second column differ in the first. -/
theorem nodup_firsts {α β R : Type} {rows : List ((α × β) × R)}
    (hrows : (rows.map Prod.fst).Nodup) {b : β} {p : (α × β) × R → Bool}
    (hp : ∀ e, p e = true → e.1.2 = b) : ((rows.filter p).map fun e => e.1.1).Nodup := by
  have hnd := hrows.sublist ((List.filter_sublist (p := p)).map Prod.fst)
  rw [List.Nodup, List.pairwise_map] at hnd ⊢
  refine hnd.imp_of_mem fun {e e'} he he' hne hfirst => hne (Prod.ext hfirst ?_)
  exact (hp e (List.mem_filter.1 he).2).trans (hp e' (List.mem_filter.1 he').2).symm

/-- A user has at most one row on a map. -/
theorem lbRows_nodup (t : Tables) (mapUid : String) (shown : Uuid → Bool) :
    ((t.lbRows mapUid shown).map LbRow.userId).Nodup := by
  rw [Tables.lbRows, List.map_map]
  refine nodup_firsts (ReadCommitted.Store.rows_nodup t.db .mapLeaderboard)
    (b := mapUid) fun e he => ?_
  rw [Bool.and_eq_true, decide_eq_true_eq] at he
  exact he.1

theorem lbRows_length_lt (t : Tables) (mapUid : String) (shown : Uuid → Bool) :
    (t.lbRows mapUid shown).length < 2 ^ 31 := by
  rw [Tables.lbRows, List.length_map]
  exact lt_of_le_of_lt (List.length_filter_le _ _) t.serial

theorem name_of_mem (h : r ∈ t.lbRows mapUid shown) : r.displayName.isSome := by
  obtain ⟨hget, -, hname, -⟩ := mem_lbRows.1 h
  rw [hname]
  exact t.named r.userId mapUid (by rw [hget]; rfl)

/-- A row of a board decodes if it has a colour. -/
theorem entry_isSome (h : r ∈ t.lbRows mapUid shown) (rank : Nat) :
    (r.entry rank).isSome ↔ r.color.isSome := by
  obtain ⟨name, hname⟩ := Option.isSome_iff_exists.1 (name_of_mem h)
  cases hcolor : r.color <;> simp [LbRow.entry, hname, hcolor]

end

end Dd2Server.Boards
