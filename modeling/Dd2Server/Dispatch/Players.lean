import Dd2Server.Comment
import Dd2Server.Dispatch.Maps
import Dd2Server.PlayerStats.Queries

/-!
# Requests about players

What a client reports of its runs, the statistics and the personal best of a player, the global
board, profiles and preferences, donations, and the ping.

Two of them may panic.  A profile is changed by indexing the body of the request, which has to be an
object or `null`.  A debug build adds to the count of updates that the database returns, and
subtracts the ends of a range as `i32`s.
-/

namespace Dd2Server.Dispatch

open Boards (SqlxError timestampU32)
open Machine PlayerStats ReadCommitted

section

variable (env : Env) (s : LoginSession) (conn : Connection)

/-- `Uuid::from_str`. -/
@[irreducible] def uuidFromStr (text : String) : Option Uuid := Uuid.parse text.toList

/-! ## Runs -/

def upsertMapCurrHeight (mapUid : String) (userId : Uuid) (pos : F32 × F32 × F32)
    (raceTime : BitVec 32) : Handler Error Unit :=
  if Text.byteLen mapUid ≠ 27 then throw (.sqlxErr .rowNotFound)
  else query (.upsertMapCurrHeight mapUid userId pos raceTime)

def reportLiveVehicleState (isOfficial : Bool) (pos : F32 × F32 × F32)
    (rotq : F32 × F32 × F32 × F32) (vel : F32 × F32 × F32) : Handler Error Unit := do
  query (.insertVehicleState s.sessionToken isOfficial pos rotq vel)
  if isOfficial ∧ f32ToF64 pos.2.1 ≤ 5000 then upsertMapCurrHeight dd2MapUid s.userId pos (-1)
  else return ()

def reportVehicleState (pos : F32 × F32 × F32) (rotq : F32 × F32 × F32 × F32)
    (vel : F32 × F32 × F32) : Arm := do
  let (isOfficial, conn) ← conn.official
  plain conn (reportLiveVehicleState s isOfficial pos rotq vel)

def reportRespawn (raceTime : BitVec 64) : Handler Error Unit :=
  query (.insertRespawn s.sessionToken
    (if 2 ^ 31 - 1 < raceTime.toInt then -1 else raceTime.setWidth 32))

def reportFinish (raceTime : BitVec 32) : Handler Error Unit :=
  query (.insertFinish s.sessionToken raceTime)

/-! ## Statistics -/

/-- `DateTime::from_timestamp(secs, 0)`: years from -262143 to 262142. -/
def fromTimestamp (secs : Int) : Option Time :=
  if -8334601228800 ≤ secs ∧ secs ≤ 8210266876799 then some (secs * 1000000) else none

/-- The columns of a report, `none` where the time is unwrapped in vain. -/
def statsColumns (stats : Stats) : Option StatsColumns :=
  (fromTimestamp stats.lastPbSetTs.toNat).map fun ts =>
    { stats.columns with lastPbSetTs := some ts }

def updateUsersStats (stats : Stats) : Handler Error Unit := do
  let columns ← ExceptT.lift (.unwrap (statsColumns stats))
  match ← ExceptT.lift (.ask (.updateStats s.userId columns)) with
  | .ok updateCount =>
      let n ← ExceptT.lift (checked env.build (addS updateCount 2))
      if n.srem 10 = 0 then query (.archiveStats s.userId) else return ()
  | .error .rowNotFound =>
      let columns ← ExceptT.lift (.unwrap (statsColumns stats))
      query (.insertStats s.userId columns)
  | .error e => throw (.sqlxErr e)

def onReportStats (stats : Stats) : Arm := do
  let (isOfficial, conn) ← conn.official
  if isOfficial then plain conn (updateUsersStats env s stats) else return (.ok (), conn)

def downgradeStats (stats : Stats) : Handler Error Unit := do
  let columns ← ExceptT.lift (.unwrap (statsColumns stats))
  match ← ExceptT.lift (.ask (.downgradeStats s.userId columns)) with
  | .ok () => return ()
  | .error e =>
      let (level, msg) := downgradeFailed env.debug e
      send (.nonFatalErrorMsg level msg)
      throw (.sqlxErr e)

/-! ## The global board -/

structure LBEntry where
  wsid : Uuid
  height : F64
  rank : Option Int
  ts : Time
  displayName : Option String
  updateCount : BitVec 32
  color : Option Triple

/-- The entry of a row, `none` where a column is unwrapped in vain. -/
def RankedLbRow.entry (e : RankedLbRow) : Option LBEntry := do
  let wsid ← e.wsid
  let height ← e.height
  let ts ← e.ts
  -- `vec_to_color` is `triple` with a check of the length
  return { wsid, height, rank := e.rank, ts, displayName := e.displayName
           updateCount := e.updateCount.getD 0
           color := e.color.bind triple }

def LBEntry.into (e : LBEntry) : LeaderboardEntry Float32 Triple where
  wsid := e.wsid.text
  height := e.height.toFloat32
  rank := BitVec.ofInt 32 (e.rank.getD 99999)
  ts := timestampU32 e.ts
  name := e.displayName.getD "?"
  updateCount := e.updateCount.toInt
  color := e.color.getD (1, 1, 1)

def getUserInLb (userId : Uuid) : Handler SqlxError (Option LBEntry) := do
  match ← Coroutine.request (.userInLb userId) with
  | none => return none
  | some r =>
      let entry ← ExceptT.lift (.unwrap r.entry)
      return some entry

def getMyRank : Handler Error Unit := do
  let r ← ExceptT.lift (result (getUserInLb s.userId))
  match r with
  | .ok r => send (.myRank (r.map LBEntry.into))
  | .error .rowNotFound => send (.myRank none)
  | .error e => throw (.sqlxErr e)

def getPlayersPb (wsid : String) : Handler Error Unit :=
  match uuidFromStr wsid with
  -- bad ids are ignored
  | none => return ()
  | some userId => do
      match ← (getUserInLb userId).adapt Error.sqlxErr with
      | none => return ()
      | some pb =>
          send (.playersPB (pb.displayName.getD wsid) pb.height (pb.rank.getD 99999) wsid
            (pb.ts / 1000000) pb.updateCount)

def getGlobalLb (start end' : BitVec 32) : Handler SqlxError (List LBEntry) := do
  match ← ExceptT.lift (checked env.build (Boards.GlobalTables.getGlobalLbRange start end')) with
  | none => return []
  | some range =>
      let rows ← Coroutine.request (.globalLb range)
      ExceptT.lift (.unwrap (rows.mapM RankedLbRow.entry))

def handleGetGlobalLb (start end' : BitVec 32) : Handler Error Unit := do
  let lb ← (getGlobalLb env start end').adapt Error.sqlxErr
  send (.globalLB (lb.map LBEntry.into))

def getUserStats : Handler SqlxError (Stats × BitVec 32) := do
  let (columns, rank) ← Coroutine.request (.rankedStats s.userId)
  let r2 ← getUserInLb s.userId
  let stats := match r2 with
    | some lbe => { columns.stats with pbHeight := ⟨lbe.height.toFloat32.toBits.toBitVec⟩ }
    | none => columns.stats
  return (stats, BitVec.ofInt 32 (rank.getD (2 ^ 32 - 1)))

def getStats : Handler Error Unit := do
  match ← ExceptT.lift (result (getUserStats s)) with
  | .ok (stats, rank) => send (.stats stats rank)
  -- nothing to return
  | .error .rowNotFound => return ()
  | .error e => throw (.sqlxErr e)

/-! ## Personal bests -/

def updateUserPbHeight (height : F64) : Handler Error Bool := do
  match ← ExceptT.lift (.ask (.pbHeight s.userId)) with
  | .ok old =>
      if old < height then
        let _ ← query (.raisePb s.userId height)
        let rankAtTime ← query (.archivePb s.userId)
        return rankAtTime.slt 10
      else return false
  | .error .rowNotFound =>
      query (.insertPb s.userId height)
      return false
  | .error e => throw (.sqlxErr e)

/-- What is only logged of a height that an unofficial context reports. -/
def logUnofficial : Coroutine Question Connection :=
  match conn.ctx.bind fun ctx => ctx.map.map fun map => (ctx, map) with
  | none => return conn
  | some (ctx, map) =>
      if map.uid ≠ dd2MapUid then return conn
      else do
        let valid ← .unwrap (Player.checkFlagsSfMi ctx.sf.toNat ctx.mi.toNat)
        if valid then
          let (_, conn) ← conn.official
          return conn
        else return conn

def onReportPbHeight (h : F32) : Arm := do
  let (isOfficial, conn) ← conn.official
  if isOfficial then
    plain conn do
      let isTop3 ← updateUserPbHeight s (f32ToF64 h)
      if isTop3 then
        let _ ← ExceptT.lift (.ask .sendNewTop3)
        return ()
      else return ()
  else
    let conn ← logUnofficial conn
    return (.ok (), conn)

/-! ## Names and colours -/

def onReportColor (wsid : String) (color : Boards.Color) : Handler Error Unit :=
  match uuidFromStr wsid with
  | none => return ()
  | some userId => query (.updateUserColor userId color)

def getTwitch (userId : Uuid) : Handler Error Unit := do
  match ← ExceptT.lift (.ask (.twitch userId)) with
  | .ok (userId, twitchName) => send (.twitchName userId.text twitchName)
  -- missing names are ignored
  | .error _ => return ()

/-! ## Profiles and preferences -/

/-- An entry of an object whose keys are in order. -/
def insertField (key : String) (x : Value) : List (String × Value) → List (String × Value)
  | [] => [(key, x)]
  | (key', x') :: fields =>
      if key < key' then (key, x) :: (key', x') :: fields
      else if key = key' then (key, x) :: fields
      else (key', x') :: insertField key x fields

/-- `value[key] = x`, `none` where the value cannot be indexed by a text: it is neither an object
nor `null`. -/
def setIndex (value : Value) (key : String) (x : Value) : Option Value :=
  match value with
  | .null => some (.object [(key, x)])
  | .object fields => some (.object (insertField key x fields))
  | _ => none

def setMyProfile (body : Value) : Handler Error Unit := do
  let body ← ExceptT.lift (.unwrap (setIndex body "wsid" (.string s.userId.text)))
  let body ← ExceptT.lift (.unwrap (setIndex body "name" (.string s.displayName)))
  query (.setProfile s.userId body)

/-- A profile that is not there yet is made from the name of its user. -/
def profileOrNew (userId : Uuid) : Except SqlxError Value → Handler Error (Except SqlxError Value)
  | .error .rowNotFound => do
      let name ← query (.displayName userId)
      query (.insertProfile userId
        (.object [("name", .string name), ("wsid", .string userId.text)]))
      ExceptT.lift (.ask (.getProfile userId))
  | profileR => return profileR

def getUsersProfile (wsid : String) : Handler Error Unit :=
  match uuidFromStr wsid with
  | none => throw .uuidErr
  | some userId => do
      let profileR ← ExceptT.lift (.ask (.getProfile userId))
      match ← profileOrNew userId profileR with
      | .ok profile => send (.usersProfile profile)
      | .error e => throw (.sqlxErr e)

def getUsersPreferences : Handler Error Unit := do
  let preferences ← query (.getPreferences s.userId)
  send (.yourPreferences preferences)

def getPlayersSpecInfo (uid wsid : String) : Handler Error Unit :=
  match uuidFromStr wsid with
  | none => throw (.strErr "Invalid WSID")
  | some userId => do
      match ← ExceptT.lift (.ask (.mapStats uid userId)) with
      | .ok (totalMapTime, updatedAt) =>
          send (.playersSpecInfo userId.text uid (totalMapTime.getD 0) (updatedAt / 1000000))
      | .error _ => return ()

/-! ## Overviews -/

def getGlobalOverview : Handler Error Unit := do
  let overview ← query .globalOverview
  send (.globalOverview overview)

def getServerStats : Handler Error Unit := do
  let total ← query .playerCounts
  send (.serverInfo (BitVec.ofInt 32 (total.getD 0)))

/-- A donor, `none` where the total is unwrapped in vain. -/
def donor (e : String × BigDecimal) : Option Donor :=
  (env.toF64 e.2).map fun amount => { name := e.1, amount }

def getDonations : Handler Error Unit := do
  let rows ← query .donations
  let totals ← query .donors
  let donors ← ExceptT.lift (.unwrap (totals.mapM (donor env)))
  send (.donations donors (rows.map fun (name, amount, donatedAt, comment) =>
    { name, amount := (env.toF64 amount).getD (-1), comment, ts := donatedAt / 1000000 }))

def getGfmDonations : Handler Error Unit := do
  let total ← query .gfmDonations
  send (.gfmDonations total)

def dd2Top10 : List String :=
  ["5d6b14db-4d41-47a4-93e2-36a3bf229f9b", "e5a9863b-1844-4436-a8a8-cea583888f8b",
    "d46fb45d-d422-47c9-9785-67270a311e25", "e3ff2309-bc24-414a-b9f1-81954236c34b",
    "0fd26a9f-8f70-4f51-85e1-fe99a4ed6ffb", "bd45204c-80f1-4809-b983-38b3f0ffc1ef",
    "da4642f9-6acf-43fe-88b6-b120ff1308ba", "d320a237-1b0a-4069-af83-f2c09fbf042e",
    "803695f6-8319-4b8e-8c28-44856834fe3b", "076d23a5-51a6-48aa-8d99-9d618cd13c93",
    "0a2d1bc0-4aaa-4374-b2db-3d561bdab1c9"]

def secretAssets (fanfareName : String) : List AssetRef :=
  [{ name := "head", filename := "img/s1head.jpg"
     url := "https://assets.xk.io/d++/secret/s1head-3948765.jpg" },
    { name := "s-flight-vae", filename := "subs/flight-vae.txt"
      url := "https://assets.xk.io/d++/secret/subs-vae-3948765.txt" },
    { name := "s-flight", filename := "subs/flight.txt"
      url := "https://assets.xk.io/d++/secret/subs-3948765.txt" },
    { name := "flight-vae", filename := "vl/flight-vae.mp3"
      url := "https://assets.xk.io/d++/secret/flight-vae-3948765.mp3" },
    { name := "flight", filename := "vl/flight.mp3"
      url := "https://assets.xk.io/d++/secret/flight-3948765.mp3" },
    { name := "fanfare", filename := "img/fanfare-self.png"
      url := "https://assets.xk.io/d++/secret/" ++ fanfareName ++ ".png" }]

def getSecretAssets : Handler Error Unit := do
  let happened ← ExceptT.lift (.ask .thirdFinish)
  let top3Done := match happened with
    | .ok hasHappened => hasHappened
    | .error _ => false
  let hasSpecialFf := dd2Top10.contains s.userId.text
  let fanfareName := if hasSpecialFf || !top3Done then s.userId.text else "generic"
  if top3Done || hasSpecialFf then send (.secretAssets (secretAssets fanfareName)) else return ()

def stressMe : Handler Error Unit := (List.range 100).forM fun _ => send .ping

/-! ## Pings -/

def getOrInsertWith (cache : Cached) (key : String)
    (getFresh : Handler SqlxError (List (LeaderboardEntry2 Triple Triple))) :
    Handler SqlxError (Nat × List (LeaderboardEntry2 Triple Triple)) := do
  match ← ExceptT.lift (.ask (.cacheGet cache key)) with
  | some hit => return hit
  | none =>
      -- once more under the write lock
      match ← ExceptT.lift (.ask (.cacheGet cache key)) with
      | some hit => return hit
      | none =>
          let value ← getFresh
          let age ← ExceptT.lift (.ask (.cachePut cache key value))
          return (age, value)

/-- In nanoseconds. -/
def sendTtl : Nat := 11000 * 1000000

def sendRegular (mapChanged : Bool) (mapUid : String) : Handler Error Unit := do
  let (age, entries) ← (getOrInsertWith .lb mapUid
      (getMapLeaderboard env mapUid 0 10)).adapt Error.sqlxErr
  if mapChanged ∨ age ≤ sendTtl then send (.mapLB mapUid entries)
  let (age, players) ← (getOrInsertWith .live mapUid
      (getMapLiveHeightsTopN mapUid 10)).adapt Error.sqlxErr
  if mapChanged ∨ age ≤ sendTtl then send (.mapLivePlayers mapUid players)

def checkRegularOnPing (ctx : PlayerCtx) : Coroutine Question Connection := do
  let (lastPingMapUid, mapChanged) :=
    Server2.updateLastMap conn.lastPingMapUid (ctx.map.map Map.uid)
  let conn := { conn with lastPingMapUid }
  match (ctx.map.map Map.uid).filter fun uid => 20 ≤ Text.byteLen uid ∧
    Text.byteLen uid < 30 with
  | none => return conn
  | some mapUid =>
      -- an error is only logged
      let _ ← result (sendRegular env mapChanged mapUid)
      return conn

def ping : Arm := do
  let r ← result (send .ping)
  match conn.ctx with
  | none => return (r, conn)
  | some ctx =>
      let conn ← checkRegularOnPing env conn ctx
      return (r, conn)

end

/-! ## No panics -/

/-- The context of the connection is official. -/
def Connection.IsOfficial (conn : Connection) : Prop :=
  ∃ ctx ∈ conn.ctx, ctx.official.map Prod.fst = some true

section

open Coroutine

variable {env : Env} {s : LoginSession} {conn : Connection} {userId : Uuid} {wsid uid key : String}

/-- The read loop finds whether the context is official. -/
theorem official_read (conn : Connection) :
    ∃ isOfficial conn', conn.official = pure (isOfficial, conn') ∧
    (isOfficial = true ↔ conn.IsOfficial) := by
  unfold Connection.official
  cases hctx : conn.ctx with
  | none => exact ⟨false, conn, rfl, by simp [Connection.IsOfficial, hctx]⟩
  | some ctx =>
      obtain ⟨⟨isOfficial, ctx'⟩, hread⟩ := Option.isSome_iff_exists.1 ctx.official_isSome
      refine ⟨isOfficial, { conn with ctx := some ctx' }, ?_, ?_⟩
      · simp only [hread]
        rfl
      · simp [Connection.IsOfficial, hctx, hread]

theorem ensures_reportVehicleState {pos vel : F32 × F32 × F32} {rotq : F32 × F32 × F32 × F32} :
    (reportVehicleState s conn pos rotq vel).Ensures fun _ => True := by
  refine ensures_bind.2 (ensures_official fun r => ensures_plain.2 ?_)
  exact calm_query_bind.2 fun _ => Calm.ite (Calm.ite calm_throw calm_query) calm_pure

/-- A `u32` of seconds is a time. -/
theorem statsColumns_isSome (stats : Stats) : (statsColumns stats).isSome := by
  have hlt := stats.lastPbSetTs.isLt
  rw [statsColumns, Option.isSome_map, fromTimestamp, if_pos ⟨by omega, by omega⟩]
  rfl

/-- The count of updates is whatever the database returns. -/
theorem calm_updateUsersStats {stats : Stats} :
    Calm (updateUsersStats env s stats) ↔ env.build = .release := by
  refine calm_unwrap_bind (statsColumns_isSome stats) fun columns => ?_
  rw [calm_ask_bind]
  have hcount : ∀ updateCount : BitVec 32,
      Calm (do
        let n ← ExceptT.lift (checked env.build (addS updateCount 2))
        if n.srem 10 = 0 then query (.archiveStats s.userId) else return ()) ↔
      (env.build = .debug → FitsS 32 (updateCount.toInt + 2)) := by
    intro updateCount
    rw [calm_lift_bind, ensures_addS]
    · exact Iff.rfl
    · intro n
      split
      · exact calm_query
      · exact calm_pure
  constructor
  · intro h
    have hmax := (hcount (BitVec.intMax 32)).1 (h (.ok (BitVec.intMax 32)))
    cases hbuild : env.build with
    | release => rfl
    | debug => exact absurd (hmax hbuild).2 (by decide)
  · intro hrelease r
    cases r with
    | ok updateCount =>
        refine (hcount updateCount).2 fun hdebug => ?_
        rw [hrelease] at hdebug
        cases hdebug
    | error e =>
        cases e with
        | rowNotFound =>
            exact (calm_unwrap_bind (statsColumns_isSome stats) fun _ =>
              iff_true_intro calm_query).2 trivial
        | _ => exact calm_throw

/-- A debug build may panic on the statistics of an official context. -/
theorem ensures_onReportStats {stats : Stats} :
    (onReportStats env s conn stats).Ensures (fun _ => True) ↔
    (conn.IsOfficial → env.build = .release) := by
  obtain ⟨isOfficial, conn', hread, hofficial⟩ := official_read conn
  rw [onReportStats, hread, ← hofficial]
  cases isOfficial with
  | false => simp
  | true => simpa using ensures_plain.trans calm_updateUsersStats

theorem calm_downgradeStats {stats : Stats} : Calm (downgradeStats env s stats) := by
  refine (calm_unwrap_bind (statsColumns_isSome stats) fun columns => iff_true_intro ?_).2 trivial
  refine calm_ask_bind.2 fun r => ?_
  cases r with
  | ok _ => exact calm_pure
  | error e => exact Calm.bind calm_send fun _ => calm_throw

/-! ### The global board -/

/-- The columns that are unwrapped are `NOT NULL`. -/
theorem RankedLbRow.entry_isSome (r : RankedLbRow) : r.entry.isSome := by
  obtain ⟨hwsid, hheight, hts⟩ := r.notNull
  obtain ⟨wsid, hwsid⟩ := Option.isSome_iff_exists.1 hwsid
  obtain ⟨height, hheight⟩ := Option.isSome_iff_exists.1 hheight
  obtain ⟨ts, hts⟩ := Option.isSome_iff_exists.1 hts
  rw [RankedLbRow.entry, hwsid, hheight, hts]
  rfl

theorem calm_getUserInLb : Calm (getUserInLb userId) := by
  refine calm_request_bind.2 fun r => ?_
  cases r with
  | none => exact calm_pure
  | some r => exact (calm_unwrap_bind r.entry_isSome fun _ => iff_true_intro calm_pure).2 trivial

theorem calm_getMyRank : Calm (getMyRank s) := by
  refine calm_lift_bind.2 ((ensures_result fun r => ?_).2 calm_getUserInLb)
  cases r with
  | ok r => exact calm_send
  | error e =>
      cases e with
      | rowNotFound => exact calm_send
      | database => exact calm_throw

theorem calm_getPlayersPb : Calm (getPlayersPb wsid) := by
  unfold getPlayersPb
  split
  · exact calm_pure
  · refine Calm.bind (calm_adapt.2 calm_getUserInLb) fun pb => ?_
    cases pb with
    | none => exact calm_pure
    | some pb => exact calm_send

theorem calm_getStats : Calm (getStats s) := by
  have huser : Calm (getUserStats s) :=
    calm_request_bind.2 fun _ => Calm.bind calm_getUserInLb fun _ => calm_pure
  refine calm_lift_bind.2 ((ensures_result fun r => ?_).2 huser)
  cases r with
  | ok r => exact calm_send
  | error e =>
      cases e with
      | rowNotFound => exact calm_pure
      | database => exact calm_throw

/-- The ends of a range of the global board are subtracted as `i32`s, unless the range is
reversed. -/
theorem ensures_getGlobalLbRange {b : Build} {start end' : BitVec 32}
    {P : Option Boards.Range → Prop} (hP : ∀ range, P range) :
    (checked b (Boards.GlobalTables.getGlobalLbRange start end')).Ensures P ↔
      (b = .debug → end'.toInt - start.toInt < 2 ^ 31) := by
  unfold Boards.GlobalTables.getGlobalLbRange
  split
  next hslt =>
    rw [BitVec.slt_iff_toInt_lt] at hslt
    exact iff_of_true (hP none) fun _ => by omega
  next hslt =>
    rw [BitVec.slt_iff_toInt_lt] at hslt
    rw [ensures_checked_bind, ensures_subS]
    · exact forall_congr' fun _ => ⟨fun h => h.2, fun h => ⟨by omega, h⟩⟩
    · intro limit
      rw [ensures_checked_bind, ensures_subS]
      · intro _
        -- one less than an `i32` is an `i64`
        have h1 : (1 : BitVec 64).toInt = 1 := by decide
        have hlo := start.le_toInt
        have hhi := start.toInt_lt
        rw [BitVec.toInt_signExtend_of_le (by decide), h1]
        exact ⟨by omega, by omega⟩
      · intro offset
        exact hP _

theorem calm_handleGetGlobalLb {start end' : BitVec 32} :
    Calm (handleGetGlobalLb env start end') ↔
    (env.build = .debug → end'.toInt - start.toInt < 2 ^ 31) := by
  rw [handleGetGlobalLb, calm_bind_of fun _ => calm_send, calm_adapt, getGlobalLb, calm_lift_bind]
  refine ensures_getGlobalLbRange fun range => ?_
  cases range with
  | none => exact calm_pure
  | some range => exact Calm.bind calm_request (calm_unwrap_mapM RankedLbRow.entry_isSome)

/-! ### Personal bests, names and profiles -/

theorem ensures_logUnofficial {P : Connection → Prop} (hP : ∀ conn, P conn) :
    (logUnofficial conn).Ensures P := by
  unfold logUnofficial
  split
  · exact hP _
  next ctx map _ =>
    split
    · exact hP _
    · obtain ⟨valid, hvalid, -⟩ := Player.checkFlagsSfMi_spec ctx.sf.toNat ctx.mi.toNat
      rw [hvalid, ensures_bind, ensures_unwrap]
      refine ⟨valid, rfl, ?_⟩
      split
      · exact ensures_bind.2 (ensures_official fun _ => hP _)
      · exact hP _

theorem calm_updateUserPbHeight {height : F64} : Calm (updateUserPbHeight s height) := by
  refine calm_ask_bind.2 fun r => ?_
  cases r with
  | ok old =>
      exact Calm.ite (calm_query_bind.2 fun _ => calm_query_bind.2 fun _ => calm_pure) calm_pure
  | error e =>
      cases e with
      | rowNotFound => exact calm_query_bind.2 fun _ => calm_pure
      | database => exact calm_throw

theorem ensures_onReportPbHeight {h : F32} : (onReportPbHeight s conn h).Ensures fun _ => True := by
  refine ensures_bind.2 (ensures_official fun r => ?_)
  obtain ⟨isOfficial, conn⟩ := r
  cases isOfficial with
  | false => exact ensures_bind.2 (ensures_logUnofficial fun _ => trivial)
  | true =>
      refine ensures_plain.2 (Calm.bind calm_updateUserPbHeight fun isTop3 => ?_)
      cases isTop3 with
      | false => exact calm_pure
      | true => exact calm_ask_bind.2 fun _ => calm_pure

theorem calm_onReportColor {color : Boards.Color} : Calm (onReportColor wsid color) := by
  unfold onReportColor
  split
  · exact calm_pure
  · exact calm_query

theorem calm_getTwitch : Calm (getTwitch userId) := by
  refine calm_ask_bind.2 fun r => ?_
  cases r with
  | ok r =>
      obtain ⟨userId, twitchName⟩ := r
      exact calm_send
  | error e => exact calm_pure

theorem calm_setMyProfile {body : Value} :
    Calm (setMyProfile s body) ↔ body = .null ∨ ∃ fields, body = .object fields := by
  -- what can be indexed by a text still can be after it was
  cases body <;> simp [setMyProfile, setIndex]

theorem calm_getUsersProfile : Calm (getUsersProfile wsid) := by
  unfold getUsersProfile
  split
  · exact calm_throw
  · refine calm_ask_bind.2 fun profileR => Calm.bind ?_ fun r => ?_
    · unfold profileOrNew
      split
      · exact calm_query_bind.2 fun _ => calm_query_bind.2 fun _ => fun _ => trivial
      · exact calm_pure
    · cases r with
      | ok profile => exact calm_send
      | error e => exact calm_throw

theorem calm_getUsersPreferences : Calm (getUsersPreferences s) :=
  calm_query_bind.2 fun _ => calm_send

theorem calm_getPlayersSpecInfo : Calm (getPlayersSpecInfo uid wsid) := by
  unfold getPlayersSpecInfo
  split
  · exact calm_throw
  · refine calm_ask_bind.2 fun r => ?_
    cases r with
    | ok r =>
        obtain ⟨totalMapTime, updatedAt⟩ := r
        exact calm_send
    | error e => exact calm_pure

/-! ### Overviews and pings -/

theorem calm_getGlobalOverview : Calm getGlobalOverview := calm_query_bind.2 fun _ => calm_send

theorem calm_getServerStats : Calm getServerStats := calm_query_bind.2 fun _ => calm_send

/-- The total of a donor is unwrapped. -/
theorem calm_getDonations (hto : ∀ d, (env.toF64 d).isSome) : Calm (getDonations env) := by
  have hdonor : ∀ e, (donor env e).isSome := fun e => by
    rw [donor, Option.isSome_map]
    exact hto e.2
  refine calm_query_bind.2 fun rows => calm_query_bind.2 fun totals => ?_
  exact (calm_unwrap_bind (mapM_isSome hdonor totals) fun _ => iff_true_intro calm_send).2 trivial

theorem calm_getGfmDonations : Calm getGfmDonations := calm_query_bind.2 fun _ => calm_send

theorem calm_getSecretAssets : Calm (getSecretAssets s) :=
  calm_ask_bind.2 fun _ => Calm.ite calm_send calm_pure

theorem calm_stressMe : Calm stressMe := by
  have hforM : ∀ l : List Nat, Calm (l.forM fun _ => send .ping) := by
    intro l
    induction l with
    | nil => exact calm_pure
    | cons n l ih => exact Calm.bind calm_send fun _ => ih
  exact hforM _

theorem calm_getOrInsertWith {cache : Cached}
    {getFresh : Handler Boards.SqlxError (List (LeaderboardEntry2 Triple Triple))}
    (hfresh : Calm getFresh) : Calm (getOrInsertWith cache key getFresh) := by
  refine calm_ask_bind.2 fun hit => ?_
  cases hit with
  | some hit => exact calm_pure
  | none =>
      refine calm_ask_bind.2 fun hit => ?_
      cases hit with
      | some hit => exact calm_pure
      | none => exact Calm.bind hfresh fun value => calm_ask_bind.2 fun age => calm_pure

theorem calm_sendRegular {mapChanged : Bool} {mapUid : String} :
    Calm (sendRegular env mapChanged mapUid) := by
  have hfits : FitsS 64 ((10 : BitVec 64).toInt - (0 : BitVec 64).toInt) :=
    ⟨by decide, by decide⟩
  have hlb : Calm (getOrInsertWith .lb mapUid (getMapLeaderboard env mapUid 0 10)) :=
    calm_getOrInsertWith (calm_getMapLeaderboard hfits)
  have hlive : Calm (getOrInsertWith .live mapUid (getMapLiveHeightsTopN mapUid 10)) :=
    calm_getOrInsertWith calm_getMapLiveHeightsTopN
  -- the second part follows, whether or not the first one sends
  have hrest : Calm (do
      let (age, players) ← (getOrInsertWith .live mapUid
          (getMapLiveHeightsTopN mapUid 10)).adapt Error.sqlxErr
      if mapChanged ∨ age ≤ sendTtl then send (.mapLivePlayers mapUid players)) := by
    refine Calm.bind (calm_adapt.2 hlive) fun r => ?_
    obtain ⟨age, players⟩ := r
    exact Calm.ite calm_send calm_pure
  refine Calm.bind (calm_adapt.2 hlb) fun r => ?_
  obtain ⟨age, entries⟩ := r
  exact Calm.ite (Calm.bind calm_send fun _ => hrest) hrest

theorem ensures_checkRegularOnPing {ctx : PlayerCtx} {P : Connection → Prop}
    (hP : ∀ conn, P conn) : (checkRegularOnPing env conn ctx).Ensures P := by
  unfold checkRegularOnPing
  split
  split
  · exact hP _
  · exact ensures_bind.2 ((ensures_result fun _ => hP _).2 calm_sendRegular)

theorem ensures_ping : (ping env conn).Ensures fun _ => True := by
  refine ensures_bind.2 ((ensures_result fun r => ?_).2 calm_send)
  split
  · trivial
  · exact ensures_bind.2 (ensures_checkRegularOnPing fun _ => trivial)

end

end Dd2Server.Dispatch
