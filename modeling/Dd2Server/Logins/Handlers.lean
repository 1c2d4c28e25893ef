import Dd2Server.Logins.Schema
import Dd2Server.Queries.Auth

/-!
# The two logins

The login of the plugin is `register_or_login`.  The callback of the web login writes the account in
one statement.
-/

namespace Dd2Server.Logins

open ReadCommitted

/-! ## The plugin -/

def findUserStmt (accountId : Uuid) (displayName : String) : Sql (Option User) where
  tag := .findUser accountId displayName
  run v := some ({}, (v.get ⟨.users, accountId⟩).map (UserRow.user accountId))

def accounts : Accounts Table.Key Table.Row Tag Ask.Ans Act.Out where
  autocommit := autocommit
  tag := .named "register_or_login"
  findUser accountId displayName := sql (findUserStmt accountId displayName)
  userRow accountId v := v.get ⟨.users, accountId⟩
  updateUser := constraints.upsertRow .users
  insertUser := constraints.insertRow .users
  insertName := constraints.insertRow .displayNames

def registerOrLogin (accountId : Uuid) (displayName : String) : Query DbError User :=
  accounts.registerOrLogin accountId displayName

/-! ## The web pages -/

structure TmOauthConfig where
  clientId : String
  redirectUri : String

/-- What the handlers are given: the configuration, and functions of libraries. -/
structure Env where
  oauth : Option TmOauthConfig
  sqlxText : DbError → String
  /-- What `Uuid::parse_str` says of a text it does not take. -/
  uuidText : String → String

/-- What a browser gets. -/
inductive Page
  /-- `warp::reject::not_found`. -/
  | notFound
  | reply (r : Moderation.Reply)
  /-- `FOUND`, with the cookies that are set. -/
  | found (location : String) (cookies : List String)

/-- `json_err`. -/
def jsonErr (status : Nat) (msg : String) : Page := .reply (Moderation.jsonErr status msg)

def internal (env : Env) (e : DbError) : Page := jsonErr 500 (env.sqlxText e)

def oauthStateCookie : String := "dd2_oauth_state"

def secureCookieSuffix (oauth : TmOauthConfig) : String :=
  if "https://".toList.isPrefixOf oauth.redirectUri.toList then "; Secure" else ""

/-- One digit of `{:02X}`. -/
def hexUpper (n : Nat) : Char := Char.ofNat (if n < 10 then 0x30 + n else 0x41 + (n - 10))

def urlencodingEncode (s : String) : String :=
  String.ofList <| s.toList.flatMap fun c =>
    if c.isAlphanum || c = '-' || c = '_' || c = '.' || c = '~' then [c]
    else ['%', hexUpper (c.toNat % 256 / 16), hexUpper (c.toNat % 16)]

def TmOauthConfig.authorizeUrl (cfg : TmOauthConfig) (state : String) : String :=
  "https://api.trackmania.com/oauth/authorize?response_type=code&client_id=" ++
    urlencodingEncode cfg.clientId ++ "&redirect_uri=" ++ urlencodingEncode cfg.redirectUri ++
    "&state=" ++ urlencodingEncode state

def saveOauthState (state : String) (expiresAt : Time) : Query DbError Unit :=
  autocommit fun _ => {
    tag := .named "save_oauth_state"
    run := fun v => (constraints.insertRow .oauthStates state expiresAt v).map fun e => (e, ()) }

/-- `DELETE … WHERE state = $1 AND expires_at > NOW() RETURNING state`: whether a row went. -/
def takeOauthState (state : String) : Query DbError Bool :=
  autocommit fun now => {
    tag := .named "take_oauth_state"
    run := fun v =>
      if (v.get ⟨.oauthStates, state⟩).any fun expiresAt => now < expiresAt then
        some ({ writes := [⟨⟨.oauthStates, state⟩, none⟩] }, true)
      else some ({}, false) }

def ensureUser (userId : Uuid) (displayName : String) : Query DbError Unit :=
  autocommit fun now => {
    tag := .named "ensure_user"
    run := fun v =>
      (constraints.upsertRow .users userId { displayName, lastLoginTs := now } v).map
        fun e => (e, ()) }

def createWebSession (sessionId userId : Uuid) (displayName : String) (expiresAt : Time) :
    Query DbError Unit :=
  autocommit fun _ => {
    tag := .named "create_web_session"
    run := fun v =>
      (constraints.insertRow .webSessions sessionId { userId, displayName, expiresAt } v).map
        fun e => (e, ()) }

/-- `Duration` of so many minutes. -/
def minutes (n : Int) : Time := n * 60 * 1000000

def handleOauthStart (env : Env) : Query Page Page :=
  match env.oauth with
  | none => throw (jsonErr 503 "TM OAuth not configured")
  | some oauth => do
      let id ← askQ Ask.newUuid
      let now ← askQ Ask.utcNow
      (saveOauthState id.text (now + minutes 10)).adapt (internal env)
      return .found (oauth.authorizeUrl id.text)
        [oauthStateCookie ++ "=" ++ id.text ++
          "; Path=/api/mod/oauth/callback; HttpOnly; SameSite=Lax; Max-Age=600" ++
            secureCookieSuffix oauth]

structure OauthCallbackQuery where
  code : Option String
  state : Option String
  error : Option String
  deriving DecidableEq

/-- `?` on what the world outside answered. -/
def answered {α : Type} (f : ε → Page) : Except ε α → Query Page α
  | .ok a => return a
  | .error e => throw (f e)

/-- The callback from where its state is taken. -/
def finishOauth (env : Env) (oauth : TmOauthConfig) (code state : String) : Query Page Page := do
  let taken ← (takeOauthState state).adapt (internal env)
  if taken then
    let token ← answered (jsonErr 502) (← askQ (Ask.exchangeCode code))
    let user ← answered (jsonErr 502) (← askQ (Ask.fetchUser token.accessToken))
    match Uuid.parse user.accountId.toList with
    | none => throw (jsonErr 502 (env.uuidText user.accountId))
    | some userId =>
        (ensureUser userId user.displayName).adapt (internal env)
        let sessionId ← askQ Ask.newUuid
        let now ← askQ Ask.utcNow
        (createWebSession sessionId userId user.displayName (now + minutes (14 * 24 * 60))).adapt
          (internal env)
        return .found "/admin"
          [Moderation.sessionCookie ++ "=" ++ sessionId.text ++
              "; Path=/; HttpOnly; SameSite=Lax; Max-Age=1209600" ++ secureCookieSuffix oauth,
            oauthStateCookie ++
              "=; Path=/api/mod/oauth/callback; HttpOnly; SameSite=Lax; Max-Age=0" ++
              secureCookieSuffix oauth]
  else throw (jsonErr 400 "invalid oauth state")

def handleOauthCallback (env : Env) (q : OauthCallbackQuery) (cookie : Option String) :
    Query Page Page :=
  match q.error with
  | some err => throw (jsonErr 400 ("oauth error: " ++ err))
  | none =>
    match env.oauth with
    | none => throw (jsonErr 503 "TM OAuth not configured")
    | some oauth =>
      match q.code, q.state with
      | some code, some state =>
          if (cookie.bind fun header => Moderation.cookieValue header oauthStateCookie) =
              some state.toList then finishOauth env oauth code state
          else throw (jsonErr 400 "oauth state does not match browser")
      | _, _ => throw .notFound

/-! ## Requests -/

/-- A login. -/
inductive Job
  | plugin (accountId : Uuid) (displayName : String)
  | oauthStart
  | oauthCallback (q : OauthCallbackQuery) (cookie : Option String)
  deriving DecidableEq

/-- What a login comes to. -/
inductive Answer
  | user (r : Except DbError User)
  | page (p : Page)

def page (x : Query Page Page) : Server Answer :=
  x.run.bind fun r => .ret (.page (match r with | .ok p => p | .error p => p))

def Job.body (env : Env) : Job → Server Answer
  | .plugin accountId displayName =>
      (registerOrLogin accountId displayName).run.bind fun r => .ret (.user r)
  | .oauthStart => page (handleOauthStart env)
  | .oauthCallback q cookie => page (handleOauthCallback env q cookie)

/-- Any number of logins on a database. -/
abbrev System := Sys Table.Key Table.Row Tag Ask.Ans Act.Out Unit Job Answer

/-- A database, and no login. -/
def System.on (db : Db) : System where
  db := db
  mem := ()

end Dd2Server.Logins
