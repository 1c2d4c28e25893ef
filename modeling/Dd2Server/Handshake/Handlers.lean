import Dd2Server.Handshake.Schema

/-!
# The handshake

`run_auth` reads one request, looks at the version of the plugin and logs in, by a token of the
Openplanet service or by the token of an old session.  Either way the connection gets a session of
its own.
-/

namespace Dd2Server.Handshake

open ReadCommitted

/-! ## Users and sessions -/

def accounts : Accounts Table.Key Table.Row Tag Ask.Ans Act.Out where
  autocommit := autocommit
  tag := "register_or_login"
  findUser accountId _ :=
    poolRead "register_or_login" fun db => (db.get ⟨.users, accountId⟩).map
      (UserRow.user accountId)
  userRow accountId v := v.get ⟨.users, accountId⟩
  updateUser := constraints.upsertRow .users
  insertUser := constraints.insertRow .users
  insertName := constraints.insertRow .displayNames

def registerOrLogin (accountId : Uuid) (displayName : String) : Query DbError User :=
  accounts.registerOrLogin accountId displayName

/-- `Session`: the token. -/
structure Session where
  sessionToken : Uuid
  deriving DecidableEq

def createSession (userId : Uuid) (ipAddress : String) : Query DbError Session := do
  let sessionToken ← askQ Ask.newUuid
  autocommit fun now => {
    tag := "create_session"
    run := fun v =>
      (constraints.insertRow .sessions sessionToken
        { userId, ipAddress := String.ofList (ipAddress.toList.take 39), createdTs := now,
          replaced := false } v).map
          fun e => (e, (⟨sessionToken⟩ : Session)) }

/-- `UPDATE sessions SET replaced = true`. -/
def replaceSessionStmt (sessionToken : Uuid) : Sql Unit where
  tag := "resume_session"
  run v :=
    match v.get ⟨.sessions, sessionToken⟩ with
    | none => some ({}, ())
    | some r =>
        (constraints.upsertRow .sessions sessionToken { r with replaced := true } v).map
          fun e => (e, ())

/-- The user of the session, whether it is replaced or not. -/
def sessionOwner (sessionToken : Uuid) (db : Db) : Option User := do
  let r ← db.get ⟨.sessions, sessionToken⟩
  let u ← db.get ⟨.users, r.userId⟩
  return ⟨r.userId, u.displayName⟩

def resumeSession (sessionToken : Uuid) (ipAddress : String) : Query DbError (Session × User) := do
  let found ← poolRead "resume_session" (sessionOwner sessionToken)
  match found with
  | none => throw .database
  | some user =>
      autocommit fun _ => replaceSessionStmt sessionToken
      let session ← createSession user.webServicesUserId ipAddress
      return (session, user)

/-! ## Logins -/

/-- What the handshake is given: whether the plugin has a secret, and texts of libraries. -/
structure Env where
  opConfigured : Bool
  /-- `DB Error: …`. -/
  dbErrorText : DbError → String
  /-- What `Uuid::from_str` says of a text it does not take. -/
  uuidText : String → String

/-- `check_token`, for the plugin with id 519. -/
def checkToken (env : Env) (token : String) : Query ε (Option TokenResp) :=
  if env.opConfigured then do
    let cached ← actQ (Act.tokenGet token)
    match cached with
    | some resp => return some resp
    | none =>
        let reply ← askQ (Ask.opAuth token)
        match reply with
        | .ok (some resp) => do
            actQ (Act.tokenPut token resp)
            return some resp
        | _ => return none
  else return none

structure LoginSession where
  user : User
  session : Session
  resumed : Bool
  pluginVer : List Char
  deriving DecidableEq

def loginViaToken (env : Env) (ipAddress token pluginInfo : String) :
    Query String LoginSession := do
  let tokenResp ← checkToken env token
  match tokenResp with
  | none => throw "Invalid token"
  | some resp =>
      match Uuid.parse resp.accountId.toList with
      | none => throw ("Invalid account_id: " ++ env.uuidText resp.accountId)
      | some wsid =>
          let user ← (registerOrLogin wsid resp.displayName).adapt env.dbErrorText
          let session ← (createSession user.webServicesUserId ipAddress).adapt env.dbErrorText
          return ⟨user, session, false, Server2.pluginInfoExtractVersion pluginInfo.toList⟩

def loginViaSession (env : Env) (ipAddress sessionToken pluginInfo : String) :
    Query String LoginSession :=
  match Uuid.parse sessionToken.toList with
  | none => throw ("Invalid session_token: " ++ env.uuidText sessionToken)
  | some token => do
      let (session, user) ← (resumeSession token ipAddress).adapt env.dbErrorText
      return ⟨user, session, true, Server2.pluginInfoExtractVersion pluginInfo.toList⟩

/-- The first request of a connection, or that there is none to read. -/
inductive First
  | authenticate (token pluginInfo : String)
  | resumeSession (sessionToken pluginInfo : String)
  /-- Another request, or the end of the stream, in the words of the error. -/
  | other (text : String)
  /-- The socket failed, in the words of the error. -/
  | unread (text : String)
  deriving DecidableEq

/-- `?` on `check_min_plugin_version`. -/
def requireVersion (pluginInfo : String) : Query String Unit :=
  ExceptT.mk (.ret (Server2.checkMinPluginVersion pluginInfo.toList))

def runAuth (env : Env) (ipAddress : String) : First → Query String LoginSession
  | .authenticate token pluginInfo => do
      requireVersion pluginInfo
      loginViaToken env ipAddress token pluginInfo
  | .resumeSession sessionToken pluginInfo => do
      requireVersion pluginInfo
      loginViaSession env ipAddress sessionToken pluginInfo
  | .other text => throw text
  | .unread text => throw text

/-! ## Connections -/

/-- A connection: the address it is from, and its first request. -/
structure Job where
  ipAddress : String
  first : First
  deriving DecidableEq

/-- The session of the connection, or the text of `AuthFail`. -/
abbrev Answer := Except String LoginSession

def Job.body (env : Env) (j : Job) : Server Answer := (runAuth env j.ipAddress j.first).run

abbrev Task := ReadCommitted.Task Table.Key Table.Row Tag Ask.Ans Act.Out Job Answer

/-- The rows, the cache and the connections. -/
abbrev System := Sys Table.Key Table.Row Tag Ask.Ans Act.Out TokenCache Job Answer

/-- The cache of `lazy_static`, with room for 4096 tokens. -/
def emptyCache : TokenCache := .empty 4096 (by decide)

end Dd2Server.Handshake
