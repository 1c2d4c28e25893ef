import Dd2Server.Boards.Schema

/-!
# Standings on custom maps

`report_map_curr_pos` and the trigger that lists a map when its public leaderboard is long enough.
The trigger runs inside the statement that inserts, and each of its own statements sees the rows
committed by then.
-/

namespace Dd2Server.Boards

open ReadCommitted

/-! ## The listing trigger -/

/-- The ban counts in a statement of a transaction that began at `now`. -/
def MapBanRow.isActive (now : Time) (b : MapBanRow) : Bool :=
  b.liftedAt.isNone && b.expiresAt.all fun t => now < t

/-- The standing of the user on the map is not hidden. -/
def isPublic (v : Db) (now : Time) (mapUid : String) (userId : Uuid) : Bool :=
  (v.get ⟨.shadowBans, userId⟩).isNone &&
    !(v.get ⟨.mapBans, (mapUid, userId)⟩).any fun b => b.isActive now

/-- The users on the public leaderboard of a map. -/
def publicUsers (v : Db) (now : Time) (mapUid : String) : List Uuid :=
  (((v.rows .mapLeaderboard).map Prod.fst).filter fun k =>
    k.2 = mapUid && isPublic v now mapUid k.1).map Prod.fst

def isListed (v : Db) (mapUid : String) : Bool :=
  (v.get ⟨.listedMaps, mapUid⟩).any fun r => r.listed

/-- The threshold of the spec that is bound to the map and verified. -/
def boundThreshold (v : Db) (mapUid : String) : Option Int :=
  (v.get ⟨.mapListingBind, mapUid⟩).bind fun b =>
    (v.get ⟨.specs, b.specId⟩).bind fun s =>
      if b.isVerified s then some s.listingThreshold else none

/-- `LEAST(100, GREATEST(5, COALESCE(thresh, 25)))`. -/
def effectiveThreshold (v : Db) (mapUid : String) : Int :=
  min 100 (max 5 ((boundThreshold v mapUid).getD 25))

/-- `pg_advisory_xact_lock`. -/
def advisoryLockStmt (key : Int) : Sql Unit where
  tag := .named "pg_advisory_xact_lock"
  run _ := some ({ locks := [⟨⟨.advisoryLocks, key⟩, .update⟩] }, ())

/-- `INSERT INTO listed_maps … ON CONFLICT (map_uid) DO NOTHING`. -/
def insertListedStmt (mapUid : String) (now : Time) : Sql Unit where
  tag := .named "map_leaderboard_maybe_list"
  run v :=
    match v.get ⟨.listedMaps, mapUid⟩ with
    | some _ => some ({}, ())
    | none =>
        if mapUid.length ≤ 27 then
          some
            ({ writes :=
                [⟨⟨.listedMaps, mapUid⟩, some { listed := true, becameListed := now }⟩] },
                  ())
        else none

/-- The trigger for one new row; `hash` is `hashtextextended(·, 0)`. -/
def mapLeaderboardMaybeList (hash : String → Int) (mapUid : String) (now : Time) :
    Query SqlxError Unit :=
  if mapUid = dd2MapUid then return ()
  else do
    let listed ← sql (selectAs (.named "map_leaderboard_maybe_list") fun v => isListed v mapUid)
    if listed then return ()
    else
      sql (advisoryLockStmt (hash mapUid))
      let listed ← sql (selectAs (.named "map_leaderboard_maybe_list") fun v => isListed v mapUid)
      if listed then return ()
      else
        let thresh ← sql
          (selectAs (.named "map_leaderboard_maybe_list") fun v => effectiveThreshold v mapUid)
        let publicCount ← sql
          (selectAs (.countPublic mapUid now) fun v => (publicUsers v now mapUid).length)
        if thresh ≤ publicCount then sql (insertListedStmt mapUid now) else return ()

/-! ## New standings -/

/-- The columns of an `INSERT INTO map_leaderboard`. -/
structure NewStanding where
  mapUid : String
  userId : Uuid
  pos : Pos
  height : Height
  raceTime : Int
  deriving DecidableEq

namespace NewStanding

def key (n : NewStanding) : DbKey := ⟨.mapLeaderboard, (n.userId, n.mapUid)⟩

def row (n : NewStanding) (now : Time) : StandingRow where
  height := n.height
  pos := n.pos
  raceTime := n.raceTime
  updatedAt := now
  updateCount := 0

/-- `INSERT` of one row, with whether it went in; `skip` is `ON CONFLICT (map_uid, user_id) DO
NOTHING`. -/
def stmt (n : NewStanding) (skip : Bool) (now : Time) : Sql Bool where
  tag := .insertStanding n.userId n.mapUid n.height
  run v :=
    match v.get n.key with
    | some _ => if skip then some ({}, false) else none
    | none =>
        if n.mapUid.length ≤ 27 then some ({ writes := [⟨n.key, some (n.row now)⟩] }, true)
          else none

/-- The statement with its trigger. -/
def insert (hash : String → Int) (n : NewStanding) (skip : Bool) (now : Time) :
    Query SqlxError Unit := do
  let inserted ← sql (n.stmt skip now)
  if inserted then mapLeaderboardMaybeList hash n.mapUid now else return ()

end NewStanding

/-! ## Reported positions -/

/-- `MAX_HEIGHT`. -/
def maxHeight : Height := 5000

/-- `INSERT INTO map_curr_heights … ON CONFLICT (map_uid, user_id) DO UPDATE`. -/
def upsertMapCurrHeightStmt (mapUid : String) (userId : Uuid) (pos : Pos) (raceTime : Int)
    (now : Time) : Sql Unit where
  tag := .named "upsert_map_curr_height"
  run v :=
    let count := (v.get ⟨.mapCurrHeights, (userId, mapUid)⟩).elim 0 fun r => r.updateCount + 1
    some ({ writes := [⟨⟨.mapCurrHeights, (userId, mapUid)⟩,
      some { height := pos.y, pos, raceTime, updatedAt := now, updateCount := count }⟩] }, ())

def upsertMapCurrHeight (mapUid : String) (userId : Uuid) (pos : Pos) (raceTime : Int) :
    Query SqlxError Unit :=
  if Text.byteLen mapUid ≠ 27 then throw .rowNotFound
  else autocommit fun now => sql (upsertMapCurrHeightStmt mapUid userId pos raceTime now)

/-- `UPDATE map_leaderboard … WHERE … AND height < $2`, with whether a row matched. -/
def raiseStandingStmt (mapUid : String) (userId : Uuid) (pos : Pos) (raceTime : Int) (now : Time) :
    Sql Bool where
  tag := .named "report_map_curr_pos"
  run v :=
    match v.get ⟨.mapLeaderboard, (userId, mapUid)⟩ with
    | none => some ({}, false)
    | some r =>
        if r.height < pos.y then
          some ({ writes := [⟨⟨.mapLeaderboard, (userId, mapUid)⟩,
            some { height := pos.y, pos, raceTime, updatedAt := now
                   updateCount := r.updateCount + 1 }⟩] }, true)
        else some ({}, false)

inductive ApiError
  | str (msg : String)
  | sqlx (e : SqlxError)
  deriving DecidableEq

def reportMapCurrPos (hash : String → Int) (userId : Uuid) (mapUid : String) (pos : Pos)
    (raceTime : Int) : Query ApiError Unit :=
  -- bad height, discard report
  if maxHeight < pos.y then return ()
  else if Text.byteLen mapUid ≠ 27 then throw (.str "Invalid map_uid")
  else do
    ExceptT.adapt .sqlx (upsertMapCurrHeight mapUid userId pos raceTime)
    let raised ← ExceptT.adapt .sqlx
      (autocommit fun now => sql (raiseStandingStmt mapUid userId pos raceTime now))
    if raised then return ()
    else
      -- `fetch_one` failed with `RowNotFound`
      let n : NewStanding := { mapUid, userId, pos, height := pos.y, raceTime }
      ExceptT.adapt .sqlx (autocommit fun now => n.insert hash true now)

end Dd2Server.Boards
