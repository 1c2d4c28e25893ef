import Dd2Server.Boards.MinigameBoard
import Dd2Server.Dispatch.Contexts

/-!
# Requests about maps

The boards of a map and where a player stands there, the catalogs of a map, the specs of a mapper,
and the reports about minigames, collectibles and hats.  The boards index the arrays of their rows,
which have three numbers; the other requests run programs over the Wayfinder tables and slice
nothing.
-/

namespace Dd2Server.Dispatch

open Boards (SqlxError timestampU32)
open Machine PlayerStats ReadCommitted

/-- What the handlers get from elsewhere. -/
structure Env where
  build : Build
  pg : Pg
  /-- The key of an advisory lock. -/
  hash : String → Int
  /-- The `Debug` text of an error of the driver. -/
  debug : SqlxError → String
  /-- `BigDecimal::to_f64`. -/
  toF64 : BigDecimal → Option F64

/-- A handler that leaves the connection as it is. -/
def plain (conn : Connection) (x : Handler Error Unit) : Arm := do
  let r ← result x
  return (r, conn)

def Error.ofDb : DbError → Error
  | .database => .sqlxErr .database

/-! ## Boards -/

/-- `[v[0], v[1], v[2]]`, `none` where an index panics. -/
def triple : List F64 → Option Triple
  | x :: y :: z :: _ => some (x, y, z)
  | _ => none

/-- The entry of a row, `none` where an index panics. -/
def MapLbRow.entry (r : MapLbRow) : Option (LeaderboardEntry2 Triple Triple) := do
  let pos ← triple r.pos
  let color ← triple r.color
  return { rank := BitVec.ofInt 32 (r.rank.getD 0), wsid := r.userId.text, pos
           ts := timestampU32 r.updatedAt
           name := r.displayName, updateCount := r.updateCount.toInt, color,
             raceTime := r.raceTime }

section

variable (env : Env) (s : LoginSession)

def getMapLeaderboard (mapUid : String) (start end' : BitVec 64) :
    Handler SqlxError (List (LeaderboardEntry2 Triple Triple)) := do
  let range ← ExceptT.mk
      (checked env.build (Boards.Tables.getMapLeaderboardRange mapUid start end'))
  let rows ← Coroutine.request (.mapLeaderboard mapUid range)
  ExceptT.lift (.unwrap (rows.mapM MapLbRow.entry))

def sendMapLb (mapUid : String) (start end' : BitVec 64) : Handler Error Unit := do
  let entries ← (getMapLeaderboard env mapUid start end').adapt Error.sqlxErr
  send (.mapLB mapUid entries)

def getMapLiveHeightsTopN (mapUid : String) (n : BitVec 32) :
    Handler SqlxError (List (LeaderboardEntry2 Triple Triple)) :=
  if 20 ≤ Text.byteLen mapUid ∧ Text.byteLen mapUid < 30 then do
    let rows ← Coroutine.request (.mapLiveHeights mapUid n)
    ExceptT.lift (.unwrap (rows.mapM MapLbRow.entry))
  else throw .rowNotFound

def sendMapLive (mapUid : String) : Handler Error Unit := do
  let players ← (getMapLiveHeightsTopN mapUid 100).adapt Error.sqlxErr
  send (.mapLivePlayers mapUid players)

def getMapLeaderboardLen (mapUid : String) : Handler Error Int :=
  if 30 < Text.byteLen mapUid then throw (.sqlxErr .rowNotFound)
  else do
    let count ← query (.mapLeaderboardLen mapUid)
    return count.getD 0

def getMapOverview (mapUid : String) : Handler Error Unit := do
  let nbPlayersOnLb ← getMapLeaderboardLen mapUid
  let nbPlayingNow ← query (.mapNbPlayingLive mapUid)
  send (.mapOverview mapUid (BitVec.ofInt 32 nbPlayersOnLb) (BitVec.ofInt 32 (nbPlayingNow.getD 0)))

def getMapRankEntry (mapUid : String) (userId : Uuid) :
    Handler Error (Option (LeaderboardEntry2 Triple Triple)) := do
  match ← query (.mapRankEntry mapUid userId) with
  | none => return none
  | some r =>
      let entry ← ExceptT.lift (.unwrap r.entry)
      return some entry

def getMapRank (mapUid : String) (userId : Uuid) : Handler Error Unit := do
  let r ← getMapRankEntry mapUid userId
  let ban ← query (.activeBan mapUid userId)
  let unofficial ← query (.isUnofficial mapUid userId)
  send (.mapRank mapUid r ban.isSome ban unofficial)

def Error.ofApi : Boards.ApiError → Error
  | .str msg => .strErr msg
  | .sqlx e => .sqlxErr e

def reportMapCurrPos (mapUid : String) (pos : Boards.Pos) (raceTime : Option (BitVec 64)) :
    Handler Error Unit := do
  let raceTime := ((raceTime.getD (-1)).setWidth 32).toInt
  (runBoards (Boards.reportMapCurrPos env.hash s.userId mapUid pos raceTime)).adapt Error.ofApi
  -- a debug build logs where the player stands now
  if env.build = .debug ∧ pos.y ≤ Boards.maxHeight then
    let _ ← getMapRankEntry mapUid s.userId
    return ()
  else return ()

/-! ## Catalogs -/

def MinigameLbRow.entry (r : MinigameLbRow) : MinigameLBEntry where
  rank := BitVec.ofInt 32 (r.rank.getD 0)
  wsid := r.userId.text
  name := r.displayName
  score := r.score
  ts := timestampU32 r.updatedAt

def sendMinigameLb (mapUid slug : String) (start end' : BitVec 64) : Handler Error Unit := do
  let range ← ExceptT.lift
      (checked env.build (Boards.MinigameTables.getMinigameLeaderboardRange start end'))
  let rows ← query (.minigameLeaderboard mapUid slug range)
  send (.minigameLB mapUid slug (rows.map MinigameLbRow.entry))

def getMinigameMyRank (mapUid slug : String) : Handler Error Unit := do
  let r ← query (.minigameMyRank mapUid slug s.userId)
  send (.minigameRank mapUid slug (r.map MinigameLbRow.entry))

def sendMinigameList (mapUid : String) : Handler Error Unit := do
  let games ← query (.minigameList mapUid)
  send (.minigameList mapUid (games.map fun g => { g with key := Text.trim g.key }))

def sendCollectibleList (mapUid : String) : Handler Error Unit := do
  let items ← query (.collectibleList mapUid)
  send (.collectibleList mapUid (items.map fun i => { i with key := Text.trim i.key }))

def sendCollectibleMine (mapUid : String) : Handler Error Unit := do
  let rows ← query (.collectibleMine mapUid s.userId)
  send (.collectibleMine mapUid (rows.map fun (i, unlockedAt, collectedAt) =>
    { i with key := Text.trim i.key, unlockedAt := unlockedAt.map timestampU32
             collectedAt := collectedAt.map timestampU32 }))

/-! ## Specs -/

def sendSpecTaskResult (requestId : BitVec 32) (outcome : Except String Unit) :
    Handler Error Unit :=
  let error := match outcome with
    | .ok () => none
    | .error e => some e
  send (.taskResponse requestId error.isNone error)

def reportCustomMapAuxSpec (requestId : BitVec 32) (nameId : String) (spec : Value) :
    Handler Error Unit := do
  let outcome ← ExceptT.lift
      (result (runWayfinder (upsertCustomMapAuxSpec env.pg s.userId nameId spec)))
  sendSpecTaskResult requestId outcome

def deleteCustomMapAuxSpec (requestId : BitVec 32) (nameId : String) : Handler Error Unit := do
  let outcome ← ExceptT.lift (result (runWayfinder (deleteCustomMapAuxSpecInner s.userId nameId)))
  sendSpecTaskResult requestId outcome

/-- The entries of the object are in the order of their keys. -/
def CustomMapAuxSpec.into (x : CustomMapAuxSpec) : Value :=
  .object [("created_at", .number (.int (x.createdAt / 1000000))),
    ("hit_counter", .number (.int x.hitCounter)),
    ("id", .number (.int x.id)), ("name_id", .string x.nameId), ("spec", x.spec),
    ("updated_at", .number (.int (x.updatedAt / 1000000))), ("user_id", .string x.userId.text)]

def listCustomMapAuxSpec (requestId : BitVec 32) : Handler Error Unit := do
  let specs ← query (.listSpecs s.userId)
  send (.taskResponseJson requestId (.array (specs.map CustomMapAuxSpec.into)))

/-! ## Minigames and collectibles -/

/-- The report goes to the binding of the map, if it has this one. -/
def onBoundSpec (mapUid : String) (specId : Int) (report : Int → Dd2Server.Query DbError Unit) :
    Dd2Server.Query DbError Unit := do
  match ← ListedMaps.resolveBoundSpec env.pg mapUid specId with
  | none => return ()
  | some specId => report specId

def reportMinigameAttempt (mapUid slug : String) (specId elapsedMs : Int) (status : String) :
    Handler Error Unit :=
  if Text.byteLen mapUid ≠ 27 ∨ specId ≤ 0 ∨ status ≠ "finish" ∧
    status ≠ "cancel" then return ()
  else (runWayfinder (onBoundSpec env mapUid specId fun specId =>
    Minigames.reportAttempt env.pg s.userId mapUid slug specId elapsedMs status)).adapt Error.ofDb

def reportCollectibleUnlock (mapUid slug : String) (specId : Int) : Handler Error Unit :=
  if Text.byteLen mapUid ≠ 27 ∨ specId ≤ 0 ∨ slug = "" then return ()
  else (runWayfinder (onBoundSpec env mapUid specId fun specId =>
    Collectibles.reportUnlock env.pg s.userId mapUid slug specId)).adapt Error.ofDb

def reportCollectibleCollect (mapUid slug : String) (specId : Int) (x y z : F32) (source : String) :
    Handler Error Unit :=
  if Text.byteLen mapUid ≠ 27 ∨ specId ≤ 0 ∨ slug = "" then return ()
  else match Collectibles.collectLogSource source with
    | none => return ()
    | some source => (runWayfinder (onBoundSpec env mapUid specId fun specId =>
        Collectibles.reportCollect env.pg s.userId mapUid slug specId x y z source)).adapt
          Error.ofDb

/-! ## The tracked map and hats -/

def Error.ofWayfinder (debug : SqlxError → String) : ApiError → Error
  | .db => .sqlxErr .database
  | .str e => .strErr (e.text (debug .database))

variable (c : Nat) (conn : Connection)

/-- A request that may move the connection to another map. -/
def tracking {α : Type} (x : Dd2Server.Query Empty (Option String × α)) :
    Coroutine Question (α × Connection) := do
  match ← result (runWayfinder x) with
  | .ok (tracked, a) => return (a, { conn with loop.wayfinderMapUid := tracked })
  | .error e => e.elim

def reportMinigameMap (mapUid : String) (specId : Int) : Arm := do
  let r ← result ((runWayfinder (Server2.reportMinigameMap env.pg s.userId mapUid specId)).adapt
    (Error.ofWayfinder env.debug))
  let (_, conn) ← tracking conn
    (Server2.adoptWayfinderMap env.pg c s.userId s.displayName conn.loop.wayfinderMapUid mapUid)
  return (r, conn)

def reportHatUnlock (mapUid slug : String) (specId : Int) : Handler Error Unit :=
  (runWayfinder (Server2.reportHatUnlock env.pg c s.userId mapUid slug specId)).adapt
    (Error.ofWayfinder env.debug)

def reportHatEquip (mapUid slug : String) : Handler Error Unit :=
  (runWayfinder (Server2.reportHatEquip env.pg c s.userId conn.loop.wayfinderMapUid
    mapUid slug)).adapt
    (Error.ofWayfinder env.debug)

/-- A request about the map that the connection is on, or comes to. -/
def onTracked (mapUid : String) (send : Option String → Dd2Server.Query ApiError Unit) : Arm := do
  let (current, conn) ← tracking conn
    (Server2.adoptWayfinderMapOrTracked env.pg c s.userId s.displayName
      conn.loop.wayfinderMapUid mapUid)
  plain conn ((runWayfinder (send current)).adapt (Error.ofWayfinder env.debug))

def getHatsMine (mapUid : String) : Arm :=
  onTracked env s c conn mapUid fun current => Server2.sendHatsMine env.pg c s.userId current mapUid

def getHatsOnMap (mapUid : String) : Arm :=
  onTracked env s c conn mapUid fun current => Server2.sendHatsOnMap env.pg c current mapUid

end

/-! ## No panics -/

section

open Coroutine

variable {env : Env} {s : LoginSession} {c : Nat} {conn : Connection} {mapUid slug nameId : String}
  {specId : Int} {requestId : BitVec 32} {α β : Type}

theorem ensures_plain {x : Handler Error Unit} :
    (plain conn x).Ensures (fun _ => True) ↔ Calm x := by
  rw [plain, ensures_bind, ensures_result]
  exact fun _ => trivial

theorem mapM_isSome {f : α → Option β} (hf : ∀ a, (f a).isSome) (l : List α) :
    (l.mapM f).isSome := by
  induction l with
  | nil => rfl
  | cons a l ih =>
      obtain ⟨b, hb⟩ := Option.isSome_iff_exists.1 (hf a)
      obtain ⟨bs, hbs⟩ := Option.isSome_iff_exists.1 ih
      rw [List.mapM_cons, hb, hbs]
      rfl

theorem calm_unwrap_mapM {f : α → Option β} (hf : ∀ a, (f a).isSome) (l : List α) :
    Calm (ExceptT.lift (unwrap (l.mapM f)) : Handler SqlxError (List β)) := by
  obtain ⟨bs, hbs⟩ := Option.isSome_iff_exists.1 (mapM_isSome hf l)
  rw [hbs]
  exact trivial

theorem triple_isSome {v : List F64} (h : v.length = 3) : (triple v).isSome := by
  obtain ⟨x, y, z, rfl⟩ := List.length_eq_three.1 h
  rfl

/-- The rows of a board have the three numbers that are indexed. -/
theorem MapLbRow.entry_isSome (r : MapLbRow) : r.entry.isSome := by
  obtain ⟨color, hcolor⟩ := Option.isSome_iff_exists.1 (triple_isSome r.three.1)
  obtain ⟨pos, hpos⟩ := Option.isSome_iff_exists.1 (triple_isSome r.three.2)
  rw [MapLbRow.entry, hcolor, hpos]
  rfl

theorem calm_getMapLeaderboard {start end' : BitVec 64} (h : FitsS 64 (end'.toInt - start.toInt)) :
    Calm (getMapLeaderboard env mapUid start end') := by
  refine Calm.bind ?_ fun range => Calm.bind calm_request (calm_unwrap_mapM MapLbRow.entry_isSome)
  show (checked env.build (Boards.Tables.getMapLeaderboardRange mapUid start end')).Ensures _
  rw [Boards.Tables.getMapLeaderboardRange, (subS_eq h).1]
  split <;> exact trivial

/-- A range of `u32`s has a length as `i64`s. -/
theorem fits_setWidth (start end' : BitVec 32) :
    FitsS 64 ((end'.setWidth 64).toInt - (start.setWidth 64).toInt) := by
  have hs := start.isLt
  have he := end'.isLt
  rw [toInt_setWidth_of_lt start (by decide), toInt_setWidth_of_lt end' (by decide)]
  exact ⟨by omega, by omega⟩

theorem calm_sendMapLb {start end' : BitVec 64} (h : FitsS 64 (end'.toInt - start.toInt)) :
    Calm (sendMapLb env mapUid start end') :=
  Calm.bind (calm_adapt.2 (calm_getMapLeaderboard h)) fun _ => calm_send

theorem calm_getMapLiveHeightsTopN {n : BitVec 32} : Calm (getMapLiveHeightsTopN mapUid n) := by
  unfold getMapLiveHeightsTopN
  split
  · exact Calm.bind calm_request (calm_unwrap_mapM MapLbRow.entry_isSome)
  · exact calm_throw

theorem calm_sendMapLive : Calm (sendMapLive mapUid) :=
  Calm.bind (calm_adapt.2 calm_getMapLiveHeightsTopN) fun _ => calm_send

theorem calm_getMapOverview : Calm (getMapOverview mapUid) := by
  refine Calm.bind ?_ fun _ => calm_query_bind.2 fun _ => calm_send
  unfold getMapLeaderboardLen
  split
  · exact calm_throw
  · exact calm_query_bind.2 fun _ => calm_pure

theorem calm_getMapRankEntry {userId : Uuid} : Calm (getMapRankEntry mapUid userId) := by
  refine calm_query_bind.2 fun r => ?_
  cases r with
  | none => exact calm_pure
  | some r =>
      obtain ⟨entry, hentry⟩ := Option.isSome_iff_exists.1 r.entry_isSome
      simp only [hentry]
      exact trivial

theorem calm_getMapRank {userId : Uuid} : Calm (getMapRank mapUid userId) :=
  Calm.bind calm_getMapRankEntry fun _ => calm_query_bind.2 fun _ => calm_query_bind.2
    fun _ => calm_send

theorem calm_reportMapCurrPos {pos : Boards.Pos} {raceTime : Option (BitVec 64)} :
    Calm (reportMapCurrPos env s mapUid pos raceTime) := by
  refine Calm.bind (calm_adapt.2 calm_runBoards) fun _ => ?_
  split
  · exact Calm.bind calm_getMapRankEntry fun _ => calm_pure
  · exact calm_pure

theorem calm_sendMinigameLb {start end' : BitVec 64} (h : FitsS 64 (end'.toInt - start.toInt)) :
    Calm (sendMinigameLb env mapUid slug start end') := by
  refine calm_lift_bind.2 (ensures_unwrap.2 ⟨⟨maxS (end' - start) 0, start⟩, ?_,
    calm_query_bind.2 fun _ => calm_send⟩)
  rw [Boards.MinigameTables.getMinigameLeaderboardRange, (subS_eq h).1]
  rfl

theorem calm_getMinigameMyRank : Calm (getMinigameMyRank s mapUid slug) :=
  calm_query_bind.2 fun _ => calm_send

theorem calm_sendMinigameList : Calm (sendMinigameList mapUid) :=
  calm_query_bind.2 fun _ => calm_send

theorem calm_sendCollectibleList : Calm (sendCollectibleList mapUid) :=
  calm_query_bind.2 fun _ => calm_send

theorem calm_sendCollectibleMine : Calm (sendCollectibleMine s mapUid) :=
  calm_query_bind.2 fun _ => calm_send

/-- What a program over the Wayfinder tables comes to is told. -/
theorem calm_told {ε : Type} {x : Dd2Server.Query ε α} {k : Except ε α → Handler Error β}
    (hk : ∀ r, Calm (k r)) : Calm (ExceptT.lift (result (runWayfinder x)) >>= k) :=
  calm_lift_bind.2 ((ensures_result hk).2 calm_runWayfinder)

theorem calm_reportCustomMapAuxSpec {spec : Value} :
    Calm (reportCustomMapAuxSpec env s requestId nameId spec) :=
  calm_told fun _ => calm_send

theorem calm_deleteCustomMapAuxSpec : Calm (deleteCustomMapAuxSpec s requestId nameId) :=
  calm_told fun _ => calm_send

theorem calm_listCustomMapAuxSpec : Calm (listCustomMapAuxSpec s requestId) :=
  calm_query_bind.2 fun _ => calm_send

theorem calm_reportMinigameAttempt {elapsedMs : Int} {status : String} :
    Calm (reportMinigameAttempt env s mapUid slug specId elapsedMs status) := by
  unfold reportMinigameAttempt
  split
  · exact calm_pure
  · exact calm_adapt.2 calm_runWayfinder

theorem calm_reportCollectibleUnlock : Calm (reportCollectibleUnlock env s mapUid slug specId) := by
  unfold reportCollectibleUnlock
  split
  · exact calm_pure
  · exact calm_adapt.2 calm_runWayfinder

theorem calm_reportCollectibleCollect {x y z : F32} {source : String} :
    Calm (reportCollectibleCollect env s mapUid slug specId x y z source) := by
  unfold reportCollectibleCollect
  split
  · exact calm_pure
  · split
    · exact calm_pure
    · exact calm_adapt.2 calm_runWayfinder

theorem ensures_tracking {x : Dd2Server.Query Empty (Option String × α)}
    {P : α × Connection → Prop} (hP : ∀ r, P r) : (tracking conn x).Ensures P := by
  refine ensures_bind.2 ((ensures_result ?_).2 calm_runWayfinder)
  rintro (e | r)
  · exact e.elim
  · exact hP _

theorem ensures_reportMinigameMap :
    (reportMinigameMap env s c conn mapUid specId).Ensures fun _ => True := by
  refine ensures_bind.2 ((ensures_result fun r => ?_).2 (calm_adapt.2 calm_runWayfinder))
  exact ensures_bind.2 (ensures_tracking fun _ => trivial)

theorem ensures_onTracked {send : Option String → Dd2Server.Query ApiError Unit} :
    (onTracked env s c conn mapUid send).Ensures fun _ => True :=
  ensures_bind.2 (ensures_tracking fun _ => ensures_plain.2 (calm_adapt.2 calm_runWayfinder))

theorem ensures_getHatsMine : (getHatsMine env s c conn mapUid).Ensures fun _ => True :=
  ensures_onTracked

theorem ensures_getHatsOnMap : (getHatsOnMap env s c conn mapUid).Ensures fun _ => True :=
  ensures_onTracked

end

end Dd2Server.Dispatch
