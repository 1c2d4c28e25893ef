import Dd2Server.Server2.Requests

/-!
# Connections

The read loop of a connection with its six requests about maps and hats, the tasks it leaves behind,
and the manager that hands the messages of its channel to the connections.

The tracked map of a connection is behind a mutex that only its read loop writes.  It is a variable
of the loop here, and `setTracked` is where the manager sees it change.
-/

namespace Dd2Server

namespace Server2

open ReadCommitted

/-! ## Which map a connection is on -/

def deliveryMatchesMap (current : Option String) (target : String) : Bool := current = some target

/-- The first 30 digits of the MD5 of the uid. -/
def obfuscatedMapUid (pg : Pg) (mapUid : String) : String :=
  String.ofList ((pg.md5 mapUid).toList.take 30)

/-- `str::eq_ignore_ascii_case`. -/
def eqIgnoreAsciiCase (a b : String) : Bool := a.toList.map Char.toLower = b.toList.map Char.toLower

/-- The map id of a context report names the map. -/
def contextUidRefersToMap (pg : Pg) (contextUid : Option String) (trackedMapUid : String) : Bool :=
  contextUid.any fun uid =>
    uid = trackedMapUid || eqIgnoreAsciiCase uid (obfuscatedMapUid pg trackedMapUid)

/-- The map id of the last context report, and whether this one changed it. -/
def updateLastMap (last current : Option String) : Option String × Bool :=
  if last = current then (last, false) else (current, true)

section

variable {ε : Type} (pg : Pg) (c : Nat) (userId : Uuid) (displayName : String)

/-- Leave a task that reads the published comment of the map. -/
def observeMapForCommentBind (mapUid : String) : Query ε Unit :=
  if mapUid = dd2MapUid ∨ Text.byteLen mapUid ≠ 27 then return ()
  else do
    let admitted ← askQ (Ask.admitCommentBind mapUid)
    if admitted then actQ (Act.spawn (.commentBind mapUid)) else return ()

/-- The leave push for the map the player was on. -/
def broadcastLeave (previousMapUid : Option String) : Query DbError Unit :=
  match previousMapUid.filter fun uid => Text.byteLen uid = 27 with
  | none => return ()
  | some previous =>
      underMapLock previous
        (actQ
          (Act.broadcastToMap previous [{ wsid := userId.text, name := displayName, slug := "" }]))

/-- The join push for the map the player is on. -/
def broadcastJoin (currentMapUid : Option String) : Query DbError Unit :=
  match currentMapUid.filter fun uid => Text.byteLen uid = 27 with
  | none => return ()
  | some current =>
      underMapLock current do
        let entry ← Hats.equippedPushEntry pg userId current
        match entry with
        | none => return ()
        | some entry => actQ (Act.broadcastToMap current [entry])

def broadcastHatContextTransition (previousMapUid currentMapUid : Option String) :
    Query DbError Unit :=
  if previousMapUid = currentMapUid then return ()
  else do
    broadcastLeave userId displayName previousMapUid
    broadcastJoin pg userId currentMapUid

/-- The tracked map after it, and the result. -/
def setWayfinderMap (tracked next : Option String) :
    Query ε (Option String × Except DbError (Option String)) :=
  if tracked = next then return (tracked, .ok tracked)
  else do
    actQ (Act.setTracked c next)
    let r ← attempt (broadcastHatContextTransition pg userId displayName tracked next)
    return (next, r.map fun _ => next)

def adoptWayfinderMap (tracked : Option String) (uid : String) :
    Query ε (Option String × Except DbError (Option String)) :=
  if Text.byteLen uid ≠ 27 then return (tracked, .ok tracked)
  else do
    observeMapForCommentBind uid
    setWayfinderMap pg c userId displayName tracked (some uid)

def applyContextMapChange (tracked contextUid : Option String) :
    Query ε (Option String × Except DbError (Option String)) :=
  if tracked.any fun uid => contextUidRefersToMap pg contextUid uid then
    return (tracked, .ok tracked)
  else setWayfinderMap pg c userId displayName tracked none

/-- The tracked map after it, and the map the answer is about. -/
def adoptWayfinderMapOrTracked (tracked : Option String) (uid : String) :
    Query ε (Option String × Option String) := do
  let (tracked', r) ← adoptWayfinderMap pg c userId displayName tracked uid
  return match r with
    | .ok current => (tracked', current)
    | .error _ => (tracked', tracked')

/-! ## Requests -/

/-- Request 81, with the bind left to a task when it has to ask Nadeo. -/
def reportMinigameMap (mapUid : String) (specId : Int) : Query ApiError Unit :=
  if Text.byteLen mapUid ≠ 27 ∨ specId ≤ 0 then return ()
  else do
    let asks ← ExceptT.adapt .ofDb
      (ListedMaps.bindRequiresAuthorVerification userId mapUid specId)
    if asks then actQ (Act.spawn (.deferredBind userId mapUid specId))
    else reportMinigameMapWithVerifier pg userId mapUid specId

/-- Request 84. -/
def reportHatUnlock (mapUid slug : String) (specId : Int) : Query ApiError Unit :=
  if Text.byteLen mapUid ≠ 27 ∨ specId ≤ 0 ∨ slug = "" then return ()
  else do
    let bound ← ExceptT.adapt .ofDb (ListedMaps.resolveBoundSpec pg mapUid specId)
    match bound with
    | none => return ()
    | some boundSpecId =>
        let owed ← actQ (Act.beginUnlock c mapUid slug)
        if owed then actQ (Act.spawn (.unlockValidation c userId mapUid slug boundSpecId))
        else return ()

/-- Request 85. -/
def reportHatEquip (current : Option String) (mapUid slug : String) : Query ApiError Unit :=
  if Text.byteLen mapUid ≠ 27 ∨ !deliveryMatchesMap current mapUid then return ()
  else do
    let verdict ← askQ (Ask.equipRate userId)
    match verdict with
    | .allowed => Dd2Server.reportHatEquip pg userId mapUid slug
    | .perUser =>
        actQ (Act.send c (.nonFatalErrorMsg 2 "Hat change was too fast - try again in a moment."))
    | .global => return ()

/-- The answer of 213, without the gates of the request. -/
def pushHatsMine (mapUid : String) : Query ApiError Unit := do
  let mine ← ExceptT.adapt .ofDb (Hats.getHatsMine pg mapUid userId)
  match mine with
  | none => return ()
  | some (equipped, items) => actQ (Act.send c (.hatsMine mapUid equipped items))

/-- Request 213 on the map the connection is on. -/
def sendHatsMine (current : Option String) (mapUid : String) : Query ApiError Unit :=
  if !deliveryMatchesMap current mapUid then return ()
  else do
    let pending ← actQ (Act.anyForMap c mapUid)
    if pending then return () else pushHatsMine pg c userId mapUid

/-- Request 214 on the map the connection is on. -/
def sendHatsOnMap (current : Option String) (mapUid : String) : Query ApiError Unit :=
  if !deliveryMatchesMap current mapUid then return ()
  else do
    let hats ← ExceptT.adapt .ofDb (Hats.getHatsOnMap pg mapUid)
    actQ (Act.send c (.hatsOnMap mapUid hats))

/-- What the read loop keeps from one request to the next. -/
structure ReadLoop where
  contextMapUid : Option String := none
  wayfinderMapUid : Option String := none

/-- One request; its errors are only logged. -/
def handle (st : ReadLoop) : Request → Query ε ReadLoop
  | .reportContext mapUid => do
      let stored ← askQ (Ask.updateContext mapUid)
      match stored with
      | .error _ => return st
      | .ok () =>
          let (contextMapUid, changed) := updateLastMap st.contextMapUid mapUid
          if changed then
            let (tracked, _) ←
              applyContextMapChange pg c userId displayName st.wayfinderMapUid mapUid
            return { contextMapUid, wayfinderMapUid := tracked }
          else return { st with contextMapUid }
  | .reportMinigameMap uid specId => do
      let _ ← attempt (reportMinigameMap pg userId uid specId)
      let (tracked, _) ← adoptWayfinderMap pg c userId displayName st.wayfinderMapUid uid
      return { st with wayfinderMapUid := tracked }
  | .reportHatUnlock uid slug specId => do
      let _ ← attempt (reportHatUnlock pg c userId uid slug specId)
      return st
  | .reportHatEquip uid slug => do
      let _ ← attempt (reportHatEquip pg c userId st.wayfinderMapUid uid slug)
      return st
  | .getHatsMine uid => do
      let (tracked, current) ←
        adoptWayfinderMapOrTracked pg c userId displayName st.wayfinderMapUid uid
      let _ ← attempt (sendHatsMine pg c userId current uid)
      return { st with wayfinderMapUid := tracked }
  | .getHatsOnMap uid => do
      let (tracked, current) ←
        adoptWayfinderMapOrTracked pg c userId displayName st.wayfinderMapUid uid
      let _ ← attempt (sendHatsOnMap pg c current uid)
      return { st with wayfinderMapUid := tracked }

/-- The loop over the requests a client sends before it closes the connection. -/
def readLoop : ReadLoop → List Request → Query ε Unit
  | _, [] => return ()
  | st, request :: requests => do
      actQ (Act.received c request)
      let st' ← handle pg c userId displayName st request
      readLoop st' requests

end

/-! ## Tasks -/

section

variable {ε : Type} (pg : Pg)

def connection (userId : Uuid) (displayName : String) (requests : List Request) :
    Query ε Unit := do
  let c ← actQ Act.openConnection
  readLoop pg c userId displayName {} requests

/-- A query as a task of its own, whose panic is an error of the task that waits for it. -/
def joined {ε' α : Type} (panics : Option Nat) (x : Query ε' α) :
    Query ε (Option (Except ε' α)) :=
  ExceptT.mk <| match panics with
    | none => x.run.bind fun r => .ret (.ok (some r))
    | some n => (x.run.cut n).bind fun r => .ret (.ok r)

/-- What request 84 leaves behind: it validates, and the release that drains the map answers. -/
def hatUnlockValidation (c : Nat) (userId : Uuid) (mapUid slug : String) (specId : Int) :
    Query ε Unit := do
  actQ (Act.acquirePermit c)
  let panics ← askQ (Ask.panics mapUid slug)
  let _ ← joined panics (Hats.reportUnlock pg userId mapUid slug specId)
  actQ (Act.dropPermit c)
  let drained ← actQ (Act.releaseUnlock c mapUid slug)
  if drained then
    let _ ← attempt (pushHatsMine pg c userId mapUid)
    return ()
  else return ()

/-- A task that was left behind. -/
def spawned : Spawned → Query ε Unit
  | .deferredBind userId mapUid specId => do
      let _ ← attempt (reportMinigameMapWithVerifier pg userId mapUid specId)
      return ()
  | .commentBind mapUid => do
      let _ ← Dd2Server.observeMapForCommentBind pg mapUid
      return ()
  | .unlockValidation c userId mapUid slug specId =>
      hatUnlockValidation pg c userId mapUid slug specId

/-- The task starts once it was left behind. -/
def begunTask (task : Spawned) : Query ε Unit := do
  actQ (Act.begun task)
  spawned pg task

/-- A message of the manager's channel, for each of its players. -/
def offerEach (mapUid : String) (hats : List HatOnMapPlayer) : List Nat → Query ε Unit
  | [] => return ()
  | c :: players => do
      actQ (Act.offer c mapUid hats)
      offerEach mapUid hats players

def deliverPlayerMgrMessage : Query ε Unit := do
  let ((mapUid, hats), players) ← actQ Act.nextMessage
  offerEach mapUid hats (List.range players)
  actQ Act.delivered

/-- What a server process starts a task for. -/
inductive Job
  | connection (userId : Uuid) (displayName : String) (requests : List Request)
  | spawned (task : Spawned)
  | deliver
  | relay (conn : Nat)
  | login (accountId : Uuid) (displayName : String)
  | upload (userId : Uuid) (nameId : String) (spec : Value)
  | deleteSpec (userId : Uuid) (nameId : String)
  | recheckBind (mapUid : String)

/-- A query whose result nobody waits for. -/
def detached {α : Type} (x : Query ε α) : Server Unit := x.run.bind fun _ => .ret ()

def Job.body : Job → Server Unit
  | .connection userId displayName requests =>
      detached (Server2.connection pg userId displayName requests : Query Empty Unit)
  | .spawned task => detached (begunTask pg task : Query Empty Unit)
  | .deliver => detached (deliverPlayerMgrMessage : Query Empty Unit)
  | .relay c => detached (actQ (Act.relay c) : Query Empty Unit)
  | .login accountId displayName => detached (registerOrLogin accountId displayName)
  | .upload userId nameId spec => detached (upsertCustomMapAuxSpec pg userId nameId spec)
  | .deleteSpec userId nameId => detached (deleteCustomMapAuxSpecInner userId nameId)
  | .recheckBind mapUid =>
      detached (handleRecheckBind pg mapUid : Query Empty (Option CommentBindOutcome))

end

end Server2

end Dd2Server
