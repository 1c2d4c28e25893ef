import Dd2Server.Moderation.Schema

/-!
# The moderation queries

Each function sends its statements on its own, but for `apply_map_ban` and `lift_map_ban`, which are
transactions.
-/

namespace Dd2Server.Moderation

open ReadCommitted

variable {ε : Type}

/-! ## Who moderates -/

/-- The user is protected on the map in this way. -/
def Protection.covers : Protection → Db → String → Uuid → Bool
  | .superMod, db, _, userId => (db.get ⟨.superMods, userId⟩).isSome
  | .author, db, mapUid, userId => (db.get ⟨.mapMeta, mapUid⟩).any fun m => m.authorId = userId
  | .delegate, db, mapUid, userId => (db.get ⟨.mapDelegates, (mapUid, userId)⟩).isSome

def isSuperMod (tag : Tag) (userId : Uuid) : Query DbError Bool :=
  poolRead tag fun db => (db.get ⟨.superMods, userId⟩).isSome

def isMapAuthor (tag : Tag) (mapUid : String) (userId : Uuid) : Query DbError Bool :=
  poolRead tag fun db => (db.get ⟨.mapMeta, mapUid⟩).any fun m => m.authorId = userId

def isMapDelegate (tag : Tag) (mapUid : String) (userId : Uuid) : Query DbError Bool :=
  poolRead tag fun db => (db.get ⟨.mapDelegates, (mapUid, userId)⟩).isSome

def canModerateMap (mapUid : String) (userId : Uuid) : Query DbError Bool := do
  let isSm ← isSuperMod (.named "is_super_mod") userId
  if isSm then return true
  else
    let isAuthor ← isMapAuthor (.named "is_map_author") mapUid userId
    if isAuthor then return true
    else isMapDelegate (.named "is_map_delegate") mapUid userId

def isProtectedFromMapBan (mapUid : String) (target : Uuid) : Query DbError Bool := do
  let isSm ← isSuperMod (.vets .superMod mapUid target) target
  if isSm then return true
  else
    let isAuthor ← isMapAuthor (.vets .author mapUid target) mapUid target
    if isAuthor then return true
    else isMapDelegate (.vets .delegate mapUid target) mapUid target

def addDelegate (mapUid : String) (userId grantedBy : Uuid) : Query DbError Unit :=
  autocommit fun now => {
    tag := .addDelegate
    run := fun v =>
      (insertRow .mapDelegates (mapUid, userId) { grantedBy := grantedBy, createdAt := now } v).map
        fun e => (e, ()) }

def removeDelegate (mapUid : String) (userId : Uuid) : Query DbError Unit :=
  autocommit fun _ => {
    tag := .named "remove_delegate"
    run := fun v => some (deleteRow .mapDelegates (mapUid, userId) v, ()) }

def addSuperMod (userId grantedBy : Uuid) : Query DbError Unit :=
  autocommit fun now => {
    tag := .named "add_super_mod"
    run := fun v =>
      (insertRow .superMods userId { grantedBy := some grantedBy, createdAt := now } v).map
        fun e => (e, ()) }

def superMods (db : Db) : List Uuid := (db.rows .superMods).map Prod.fst

def countSuperMods : Query DbError Nat := poolRead .countSuperMods fun db => (superMods db).length

/-- The result says whether a row went. -/
def removeSuperMod (userId : Uuid) : Query DbError Bool :=
  autocommit fun _ => {
    tag := .removeSuperMod
    run := fun v => some (deleteRow .superMods userId v, (v.get ⟨.superMods, userId⟩).isSome) }

/-! ## Bans -/

def getActiveBan (mapUid : String) (userId : Uuid) : Query DbError (Option MapBan) := do
  let now ← actQ Act.clock
  poolRead (.activeBan mapUid userId) fun db =>
    (db.get ⟨.mapBans, (mapUid, userId)⟩).filter fun b => b.isActive now

/-- The row a ban writes. -/
def newBan (createdBy : Uuid) (privateReason publicMessage : String) (expiresAt : Option Time)
    (now : Time) : MapBan where
  privateReason := privateReason
  publicMessage := publicMessage
  createdBy := createdBy
  createdAt := now
  expiresAt := expiresAt
  liftedAt := none
  liftedBy := none

def applyMapBan (mapUid : String) (userId createdBy : Uuid) (privateReason publicMessage : String)
    (expiresAt : Option Time) : Query DbError Unit :=
  transaction do
    let now ← actQ Act.clock
    sql {
      tag := .named "apply_map_ban"
      run := fun v => (constraints.upsertRow .mapBans (mapUid, userId)
        (newBan createdBy privateReason publicMessage expiresAt now) v).map fun e => (e, ()) }
    sql {
      tag := .markUnofficial
      run := fun v => (constraints.upsertRow .mapUnofficial (mapUid, userId)
        { source := "ban", updatedAt := now, updatedBy := some createdBy } v).map fun e => (e, ()) }
    commitQ
    return ()

/-- The ban `lift_map_ban` updates, if there is one. -/
def liftable (v : Db) (mapUid : String) (userId : Uuid) (now : Time) : Option MapBan :=
  (v.get ⟨.mapBans, (mapUid, userId)⟩).filter fun b => b.isActive now

def MapBan.lifted (b : MapBan) (liftedBy : Uuid) (now : Time) : MapBan :=
  { b with liftedAt := some now, liftedBy := some liftedBy }

/-- `UPDATE map_bans`, with whether a row was affected. -/
def liftStmt (mapUid : String) (userId liftedBy : Uuid) (now : Time) : Sql Bool where
  tag := .named "lift_map_ban"
  run v :=
    match liftable v mapUid userId now with
    | none => some ({}, false)
    | some b =>
        (constraints.upsertRow .mapBans (mapUid, userId) (b.lifted liftedBy now) v).map
          fun e => (e, true)

def clearMarkStmt (mapUid : String) (userId : Uuid) : Sql Unit where
  tag := .named "lift_map_ban"
  run v := some (deleteRow .mapUnofficial (mapUid, userId) v, ())

def liftMapBan (mapUid : String) (userId liftedBy : Uuid) (keepUnofficial : Bool) :
    Query DbError Bool :=
  transaction do
    let now ← actQ Act.clock
    let lifted ← sql (liftStmt mapUid userId liftedBy now)
    if lifted && !keepUnofficial then
      sql (clearMarkStmt mapUid userId)
      commitQ
      return lifted
    else
      commitQ
      return lifted

/-! ## Users, sessions and the audit trail -/

def ensureUserReference (userId : Uuid) (displayName : Option String) : Query DbError Unit :=
  autocommit fun now => {
    tag := .named "ensure_user_reference"
    run := fun v =>
      (insertRow .users userId
        { displayName := displayName.getD "unknown", lastLoginTs := now } v).map
        fun e => (e, ()) }

def findUserIdByDisplayName (name : String) : Query DbError (Option Uuid) :=
  poolRead (.named "find_user_id_by_display_name") fun db =>
    ((db.rows .users).find? fun u => u.2.displayName = name).map Prod.fst

def getWebSession (sessionId : Uuid) : Query DbError (Option (Uuid × String)) := do
  let now ← actQ Act.clock
  poolRead (.named "get_web_session") fun db =>
    ((db.get ⟨.webSessions, sessionId⟩).filter fun s => now < s.expiresAt).map
      fun s => (s.userId, s.displayName)

def insertAuditEvent (actorId : Uuid) (action : String) (mapUid : Option String)
    (targetUserId : Option Uuid) (detail : Value) : Query DbError Unit := do
  let id ← askQ Ask.nextAuditId
  autocommit fun now => {
    tag := .named "insert_audit_event"
    run := fun v =>
      (constraints.insertRow .auditEvents id
        { at_ := now, actorId := actorId, action := action, mapUid := mapUid,
          targetUserId := targetUserId, detail := detail } v).map fun e => (e, ()) }

/-! ## Map metadata -/

/-- What the handlers are given: the configuration, and functions of libraries. -/
structure Env where
  nadeoConfigured : Bool
  parseRfc3339 : String → Option Time
  /-- A naive time in one of the formats of `chrono`, as UTC. -/
  parseNaive : (s format : String) → Option Time
  rfc3339 : Time → String
  sqlxText : DbError → String
  /-- What `Uuid::parse_str` says of a text it does not take. -/
  uuidText : String → String

def getMapMeta (mapUid : String) : Query DbError (Option MapMeta) :=
  poolRead (.named "get_map_meta") fun db => db.get ⟨.mapMeta, mapUid⟩

def upsertMapMeta (mapUid : String) (authorId : Uuid) (mapName thumbnailUrl : Option String) :
    Query DbError MapMeta :=
  autocommit fun now =>
    let row : MapMeta := {
      authorId := authorId
      mapName := mapName
      thumbnailUrl := thumbnailUrl
      fetchedAt := now
      updatedAt := now }
    { tag := .named "upsert_map_meta"
      run := fun v => (constraints.upsertRow .mapMeta mapUid row v).map fun e => (e, row) }

def verifiedMapAuthor (env : Env) (requestedUid : String) (info : LiveMapInfo) :
    Except String Uuid :=
  if info.uid ≠ requestedUid then
    .error ("Nadeo map info UID mismatch: requested " ++ requestedUid ++ ", received " ++ info.uid)
  else
    match Uuid.parse info.author.toList with
    | some u => .ok u
    | none => .error (env.uuidText info.author)

def authorIdForUid (env : Env) (mapUid : String) : Query String (Uuid × LiveMapInfo) := do
  let r ← askQ (Ask.mapInfo mapUid)
  let info ← (ExceptT.mk (.ret r) : Query String LiveMapInfo)
  let authorId ← (ExceptT.mk (.ret (verifiedMapAuthor env mapUid info)) : Query String Uuid)
  return (authorId, info)

/-- What `ensure_map_meta` does without a row that is fresh. -/
def fetchMapMeta (env : Env) (mapUid : String) : Query String MapMeta :=
  if env.nadeoConfigured then do
    let (authorId, info) ← authorIdForUid env mapUid
    (upsertMapMeta mapUid authorId info.name info.thumbnailUrl).adapt env.sqlxText
  else do
    let row ← (getMapMeta mapUid).adapt env.sqlxText
    match row with
    | some m => return m
    | none => throw "map meta missing and Nadeo client not configured"

/-- `Duration::days(7)`. -/
def sevenDays : Time := 7 * 24 * 60 * 60 * 1000000

def ensureMapMeta (env : Env) (mapUid : String) : Query String MapMeta := do
  let row ← (getMapMeta mapUid).adapt env.sqlxText
  match row with
  | some m =>
      let now ← askQ Ask.utcNow
      if now - sevenDays < m.fetchedAt then return m else fetchMapMeta env mapUid
  | none => fetchMapMeta env mapUid

end Dd2Server.Moderation
