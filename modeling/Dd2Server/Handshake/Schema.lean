import Dd2Server.Limits.Lru
import Dd2Server.Logins.Handlers
import Dd2Server.Server2.Versions

/-!
# The tables of the handshake

A connection begins with one request, by which its client logs in or goes on with an old session.
The rows are the users, the history of their names and the sessions.  What the tasks share is the
cache of the tokens that the Openplanet service has confirmed.
-/

namespace Dd2Server.Handshake

open ReadCommitted

/-! ## Rows -/

inductive Table
  | users
  | displayNames
  | sessions
  deriving DecidableEq

/-- A row of `sessions`, keyed by the token. -/
structure SessionRow where
  userId : Uuid
  ipAddress : String
  createdTs : Time
  replaced : Bool
  deriving DecidableEq

@[reducible] def Table.Key : Table → Type
  | .users => Uuid
  | .displayNames => Uuid × Time
  | .sessions => Uuid

@[reducible] def Table.Row : Table → Type
  | .users => UserRow
  /- the name -/
  | .displayNames => String
  | .sessions => SessionRow

instance : ∀ t : Table, DecidableEq t.Key
  | .users | .displayNames | .sessions => inferInstance

abbrev Db := Store Table.Key Table.Row

abbrev DbKey := RowKey Table.Key

/-- The declared lengths.  A longer text of which the excess is spaces is cut by PostgreSQL and
refused here. -/
def Table.check : (t : Table) → t.Key → t.Row → Bool
  | .users, _, r => r.displayName.length ≤ 75
  | .displayNames, _, name => name.length ≤ 75
  | .sessions, _, r => r.ipAddress.length ≤ 39

/-- The user a row refers to. -/
def Table.parents : (t : Table) → t.Key → t.Row → List DbKey
  | .users, _, _ => []
  | .displayNames, (userId, _), _ => [⟨.users, userId⟩]
  | .sessions, _, r => [⟨.users, r.userId⟩]

def constraints : Constraints Table.Key Table.Row := ⟨Table.check, Table.parents⟩

/-! ## Tasks -/

/-- `TokenResp`. -/
structure TokenResp where
  accountId : String
  displayName : String
  tokenTime : Int
  deriving DecidableEq

/-- What the request to the Openplanet service comes to. -/
inductive OpReply
  /-- The request was not sent. -/
  | unsent
  | status (code : Nat)
  /-- `OK`, with the body as `serde_json` reads it. -/
  | ok (body : Option TokenResp)
  deriving DecidableEq

inductive Ask
  /-- `NOW()` of a statement. -/
  | now
  /-- `Uuid::now_v7()`. -/
  | newUuid
  /-- The token goes to the service, with the secret of the plugin. -/
  | opAuth (token : String)
  deriving DecidableEq

@[reducible] def Ask.Ans : Ask → Type
  | .now => Time
  | .newUuid => Uuid
  | .opAuth _ => OpReply

inductive Act
  /-- `TOKEN_CACHE.get`. -/
  | tokenGet (token : String)
  /-- `TOKEN_CACHE.put`. -/
  | tokenPut (token : String) (resp : TokenResp)
  deriving DecidableEq

@[reducible] def Act.Out : Act → Type
  | .tokenGet _ => Option TokenResp
  | .tokenPut _ _ => Unit

/-- The name of a statement. -/
abbrev Tag := String

abbrev vocabulary : Vocabulary := ⟨Table.Key, Table.Row, Tag, Ask.Ans, Act.Out⟩

abbrev LogEvent := Event Table.Key Table.Row Tag Ask.Ans Act.Out

abbrev Log := List LogEvent

/-- `TOKEN_CACHE`. -/
abbrev TokenCache := Limits.LruCache String TokenResp

def shared : Shared Table.Key Table.Row Tag Ask.Ans Act.Out TokenCache where
  perform
    | .tokenGet token, cache => some (cache.get token)
    | .tokenPut token resp, cache => some (cache.put token resp, ())
  abandon _ cache := cache

abbrev Server := vocabulary.Server

abbrev Query := vocabulary.Query

abbrev Sql := vocabulary.Sql

variable {β : Type}

/-- A statement that writes, on its own. -/
def autocommit (s : Time → Sql β) : Query DbError β :=
  single .database (askQ Ask.now) fun now => sql (s now)

end Dd2Server.Handshake
