import Dd2Server.Moderation.Queries

/-!
# The moderation requests

The handlers of bans, delegates and super-mods.  Each ends in a reply, early or not, so a handler is
a query whose error is a reply too.
-/

namespace Dd2Server.Moderation

open ReadCommitted

/-! ## Replies -/

structure Reply where
  status : Nat
  body : Value

def jsonErr (status : Nat) (msg : String) : Reply := ⟨status, .object [("error", .string msg)]⟩

def jsonOk (v : Value) : Reply := ⟨200, v⟩

/-- `{"ok": true}`. -/
def okTrue : Reply := jsonOk (.object [("ok", .bool true)])

/-- `INTERNAL_SERVER_ERROR` with the text of the error. -/
def internal (env : Env) (e : DbError) : Reply := jsonErr 500 (env.sqlxText e)

/-! ## Cookies and dates -/

/-- `split_once`. -/
def splitOnce (sep : Char) : List Char → Option (List Char × List Char)
  | [] => none
  | c :: cs => if c = sep then some ([], cs) else (splitOnce sep cs).map fun p => (c :: p.1, p.2)

def sessionCookie : String := "dd2_session"

def cookieValue (header name : String) : Option (List Char) :=
  (header.toList.splitOn ';').findSome? fun part =>
    (splitOnce '=' (Text.trimChars part)).bind fun p =>
      if p.1 = name.toList then some p.2 else none

/-- The session a cookie header names. -/
def sessionId (cookie : Option String) : Option Uuid :=
  cookie.bind fun header => (cookieValue header sessionCookie).bind Uuid.parse

variable {ε : Type}

def sessionUser (cookie : Option String) : Query ε (Option (Uuid × String)) :=
  match sessionId cookie with
  | none => return none
  | some sid => do
      let r ← attempt (getWebSession sid)
      return r.toOption.join

/-- The three formats a date may have. -/
def parseDateTime (env : Env) (s : String) : Option Time :=
  env.parseRfc3339 s <|> env.parseNaive s "%Y-%m-%dT%H:%M:%S" <|> env.parseNaive s "%Y-%m-%dT%H:%M"

def parseBanExpiresAt (env : Env) (raw : Option String) : Query String (Option Time) :=
  match (raw.map Text.trim).filter fun s => s ≠ "" with
  | none => return none
  | some s =>
      match parseDateTime env s with
      | none => throw ("invalid expires_at: " ++ s)
      | some parsed => do
          let now ← askQ Ask.utcNow
          if parsed ≤ now then throw "expires_at must be in the future" else return some parsed

/-! ## Who asks, and about whom -/

def requireModerator (env : Env) (mapUid : String) (cookie : Option String) : Query Reply Uuid := do
  let user ← sessionUser cookie
  match user with
  | none => throw (jsonErr 401 "not logged in")
  | some (userId, _) =>
      let _ ← attempt (ensureMapMeta env mapUid)
      let moderates ← (canModerateMap mapUid userId).adapt (internal env)
      if moderates then return userId else throw (jsonErr 403 "not a moderator for this map")

def requireSuperMod (env : Env) (cookie : Option String) : Query Reply Uuid := do
  let user ← sessionUser cookie
  match user with
  | none => throw (jsonErr 401 "not logged in")
  | some (userId, _) =>
      let isSm ← (isSuperMod (.named "is_super_mod") userId).adapt (internal env)
      if isSm then return userId else throw (jsonErr 403 "super-mod only")

/-- `Uuid::parse_str` of an id in a request. -/
def parseTarget (userId : String) : Query Reply Uuid :=
  match Uuid.parse userId.toList with
  | some u => return u
  | none => throw (jsonErr 400 "invalid user_id")

/-- The user a body names, by id or else by display name. -/
def findTarget (env : Env) (notFound : String) (userId displayName : Option String) :
    Query Reply Uuid :=
  match userId, displayName with
  | some id, _ => parseTarget id
  | none, some name => do
      let found ← (findUserIdByDisplayName name).adapt (internal env)
      match found with
      | some u => return u
      | none => throw (jsonErr 404 notFound)
  | none, none => throw (jsonErr 400 "user_id or display_name required")

/-- `is_super_mod` and `is_map_author`, each `false` when the read fails. -/
def runsMap (mapUid : String) (actor : Uuid) : Query ε Bool := do
  let isSm ← attempt (isSuperMod (.named "is_super_mod") actor)
  let isAuthor ← attempt (isMapAuthor (.named "is_map_author") mapUid actor)
  return isSm.toOption.getD false || isAuthor.toOption.getD false

/-! ## Bans -/

structure CreateBanBody where
  userId : Option String
  displayName : Option String
  privateReason : String
  publicMessage : String
  expiresAt : Option String
  deriving DecidableEq

/-- The detail of a `ban.create` event. -/
def CreateBanBody.detail (env : Env) (body : CreateBanBody) (expiresAt : Option Time) : Value :=
  .object [
    ("private_reason", .string (Text.trim body.privateReason)),
    ("public_message", .string (Text.trim body.publicMessage)),
    ("expires_at", expiresAt.elim .null fun t => .string (env.rfc3339 t))]

/-- A ban once its target is known. -/
def banTarget (env : Env) (mapUid : String) (body : CreateBanBody) (actor : Uuid)
    (expiresAt : Option Time) (target : Uuid) : Query Reply Reply := do
  let isProtected ← (isProtectedFromMapBan mapUid target).adapt (internal env)
  if isProtected then throw (jsonErr 403 "cannot Map-Ban Map Author, Super-mod, or Map Delegate")
  else
    (ensureUserReference target body.displayName).adapt (internal env)
    (applyMapBan mapUid target actor (Text.trim body.privateReason) (Text.trim body.publicMessage)
      expiresAt).adapt (internal env)
    let _ ← attempt (insertAuditEvent actor "ban.create" (some mapUid) (some target)
      (body.detail env expiresAt))
    return okTrue

def handleCreateBan (env : Env) (mapUid : String) (cookie : Option String) (body : CreateBanBody) :
    Query Reply Reply := do
  let actor ← requireModerator env mapUid cookie
  if Text.trim body.privateReason = "" ∨ Text.trim body.publicMessage = "" then
    throw (jsonErr 400 "private_reason and public_message required")
  else
    let expiresAt ← (parseBanExpiresAt env body.expiresAt).adapt (jsonErr 400)
    let target ← findTarget env "user not found by display name" body.userId body.displayName
    banTarget env mapUid body actor expiresAt target

def handleLiftBan (env : Env) (mapUid userId : String) (cookie : Option String)
    (keepUnofficial : Bool) : Query Reply Reply := do
  let actor ← requireModerator env mapUid cookie
  let target ← parseTarget userId
  let lifted ← (liftMapBan mapUid target actor keepUnofficial).adapt (internal env)
  if lifted then
    let _ ← attempt (insertAuditEvent actor "ban.lift" (some mapUid) (some target)
      (.object [("keep_unofficial", .bool keepUnofficial)]))
    return okTrue
  else throw (jsonErr 404 "no active Map Ban")

/-! ## Delegates -/

/-- A new delegate once it is known who. -/
def delegateTarget (env : Env) (mapUid : String) (displayName : Option String)
    (actor target : Uuid) :
    Query Reply Reply := do
  let ban ← (getActiveBan mapUid target).adapt (internal env)
  match ban with
  | some _ => throw (jsonErr 409 "lift the active Map Ban before adding this Delegate")
  | none =>
      (ensureUserReference target displayName).adapt (internal env)
      (addDelegate mapUid target actor).adapt (internal env)
      let _ ← attempt (insertAuditEvent actor "delegate.add" (some mapUid)
          (some target) (.object []))
      return okTrue

def handleAddDelegate (env : Env) (mapUid : String) (cookie userId displayName : Option String) :
    Query Reply Reply := do
  let actor ← requireModerator env mapUid cookie
  let runs ← runsMap mapUid actor
  if runs then
    let target ← findTarget env "user not found" userId displayName
    delegateTarget env mapUid displayName actor target
  else throw (jsonErr 403 "only Map Author or Super-mod can add Delegates")

def handleRemoveDelegate (env : Env) (mapUid userId : String) (cookie : Option String) :
    Query Reply Reply := do
  let actor ← requireModerator env mapUid cookie
  let runs ← runsMap mapUid actor
  if runs then
    let target ← parseTarget userId
    (removeDelegate mapUid target).adapt (internal env)
    let _ ← attempt
      (insertAuditEvent actor "delegate.remove" (some mapUid) (some target) (.object []))
    return okTrue
  else throw (jsonErr 403 "only Map Author or Super-mod can remove Delegates")

/-! ## Super-mods -/

def handleAddSuperMod (env : Env) (cookie userId displayName : Option String) :
    Query Reply Reply := do
  let actor ← requireSuperMod env cookie
  let target ← findTarget env "user not found" userId displayName
  (ensureUserReference target displayName).adapt (internal env)
  (addSuperMod target actor).adapt (internal env)
  let _ ← attempt (insertAuditEvent actor "super_mod.add" none (some target) (.object []))
  return okTrue

def handleRemoveSuperMod (env : Env) (userId : String) (cookie : Option String) :
    Query Reply Reply := do
  let actor ← requireSuperMod env cookie
  let target ← parseTarget userId
  let count ← countSuperMods.adapt (internal env)
  if count ≤ 1 then throw (jsonErr 409 "cannot remove the last Super-mod")
  else
    let removed ← (removeSuperMod target).adapt (internal env)
    if removed then
      let _ ← attempt (insertAuditEvent actor "super_mod.remove" none (some target) (.object []))
      return okTrue
    else throw (jsonErr 404 "not a Super-mod")

/-! ## Jobs -/

/-- A request, or time that passes. -/
inductive Job
  | createBan (mapUid : String) (cookie : Option String) (body : CreateBanBody)
  | liftBan (mapUid userId : String) (cookie : Option String) (keepUnofficial : Bool)
  | addDelegate (mapUid : String) (cookie userId displayName : Option String)
  | removeDelegate (mapUid userId : String) (cookie : Option String)
  | addSuperMod (cookie userId displayName : Option String)
  | removeSuperMod (userId : String) (cookie : Option String)
  | timePasses (d : Nat)
  deriving DecidableEq

/-- The reply, early or not. -/
def reply (x : Query Reply Reply) : Server (Option Reply) :=
  x.run.bind fun r => .ret (some (match r with | .ok r => r | .error r => r))

def Job.body (env : Env) : Job → Server (Option Reply)
  | .createBan mapUid cookie body => reply (handleCreateBan env mapUid cookie body)
  | .liftBan mapUid userId cookie keepUnofficial =>
      reply (handleLiftBan env mapUid userId cookie keepUnofficial)
  | .addDelegate mapUid cookie userId displayName =>
      reply (handleAddDelegate env mapUid cookie userId displayName)
  | .removeDelegate mapUid userId cookie => reply (handleRemoveDelegate env mapUid userId cookie)
  | .addSuperMod cookie userId displayName =>
      reply (handleAddSuperMod env cookie userId displayName)
  | .removeSuperMod userId cookie => reply (handleRemoveSuperMod env userId cookie)
  | .timePasses d => .act (.pass d) fun _ => .ret none

abbrev Task := ReadCommitted.Task Table.Key Table.Row Tag Ask.Ans Act.Out Job (Option Reply)

/-- The tables, the clock, and the requests. -/
abbrev System := Sys Table.Key Table.Row Tag Ask.Ans Act.Out Time Job (Option Reply)

/-! ## A small system -/

namespace Sample

/-- Nadeo is not configured, and no date is understood. -/
def env : Env where
  nadeoConfigured := false
  parseRfc3339 _ := none
  parseNaive _ _ := none
  rfc3339 _ := ""
  sqlxText _ := "database error"
  uuidText _ := "invalid uuid"

def user (name : String) : UserRow := { displayName := name, lastLoginTs := 0 }

def superMod : SuperModRow := { grantedBy := none, createdAt := 0 }

/-- Users 1, 2 and 3, of whom 1 is a super-mod and logged in. -/
def db : Db :=
  ((((Store.empty.put ⟨⟨.users, 1⟩, some (user "one")⟩).put ⟨⟨.users, 2⟩,
    some (user "two")⟩).put
    ⟨⟨.users, 3⟩, some (user "three")⟩).put ⟨⟨.superMods, 1⟩, some superMod⟩).put
      ⟨⟨.webSessions, 10⟩, some { userId := 1, displayName := "one", expiresAt := 1000 }⟩

def system : System := { db := db, mem := 100 }

/-- The cookie of user 1. -/
def cookie : Option String := some "theme=dark; dd2_session=0000000000000000000000000000000a"

def two : String := "00000000000000000000000000000002"

def ban : CreateBanBody where
  userId := some two
  displayName := none
  privateReason := "cheating"
  publicMessage := "banned"
  expiresAt := none

/-- What the world outside answers, with the next id of an audit event. -/
def answers (id : Int) : (q : Ask) → q.Ans
  | .utcNow => 100
  | .mapInfo _ => .error "nadeo not configured"
  | .nextAuditId => id

end Sample

end Dd2Server.Moderation
