import Dd2Server.Moderation.Handlers

/-!
# The login tables

What the login of the plugin and the login of the web pages share: the users, the history of their
display names, and the states and sessions of the web login.  They are a database of their own here:
no transaction touches both these rows and others, and the server removes no row of `users`.
-/

namespace Dd2Server.Logins

open ReadCommitted

/-! ## Rows -/

inductive Table
  | users
  | displayNames
  | oauthStates
  | webSessions
  deriving DecidableEq

@[reducible] def Table.Key : Table → Type
  | .users => Uuid
  | .displayNames => Uuid × Time
  | .oauthStates => String
  | .webSessions => Uuid

@[reducible] def Table.Row : Table → Type
  | .users => UserRow
  /- the name -/
  | .displayNames => String
  /- when the state expires -/
  | .oauthStates => Time
  | .webSessions => Moderation.WebSession

instance : ∀ t : Table, DecidableEq t.Key
  | .users | .displayNames | .oauthStates | .webSessions => inferInstance

abbrev Db := Store Table.Key Table.Row

abbrev DbKey := RowKey Table.Key

abbrev DbEffect := Effect Table.Key Table.Row

/-- `VARCHAR(75)`.  A longer name of which the excess is spaces is cut by PostgreSQL and refused
here. -/
def Table.check : (t : Table) → t.Key → t.Row → Bool
  | .users, _, r => r.displayName.length ≤ 75
  | .displayNames, _, name => name.length ≤ 75
  | .oauthStates, _, _ | .webSessions, _, _ => true

/-- The user a row refers to. -/
def Table.parents : (t : Table) → t.Key → t.Row → List DbKey
  | .users, _, _ | .oauthStates, _, _ => []
  | .displayNames, (userId, _), _ => [⟨.users, userId⟩]
  | .webSessions, _, r => [⟨.users, r.userId⟩]

def constraints : Constraints Table.Key Table.Row := ⟨Table.check, Table.parents⟩

/-! ## Tasks -/

structure TokenResponse where
  accessToken : String
  deriving DecidableEq

/-- Who the web login says it is. -/
structure TmUser where
  accountId : String
  displayName : String
  deriving DecidableEq

inductive Ask
  /-- `NOW()` of a statement. -/
  | now
  /-- `Utc::now()`. -/
  | utcNow
  /-- `Uuid::new_v4()`. -/
  | newUuid
  | exchangeCode (code : String)
  | fetchUser (accessToken : String)
  deriving DecidableEq

@[reducible] def Ask.Ans : Ask → Type
  | .now => Time
  | .utcNow => Time
  | .newUuid => Uuid
  | .exchangeCode _ => Except String TokenResponse
  | .fetchUser _ => Except String TmUser

@[reducible] def Act.Out : Empty → Type := Empty.elim

/-- The name of a statement, with what the theorems about its runs need to know of it. -/
inductive Tag
  | named (fn : String)
  /-- `register_or_login` looks for the account. -/
  | findUser (accountId : Uuid) (displayName : String)
  deriving DecidableEq

abbrev vocabulary : Vocabulary := ⟨Table.Key, Table.Row, Tag, Ask.Ans, Act.Out⟩

abbrev LogEvent := Event Table.Key Table.Row Tag Ask.Ans Act.Out

abbrev Log := List LogEvent

/-- These tasks share nothing but the database. -/
def shared : Shared Table.Key Table.Row Tag Ask.Ans Act.Out Unit where
  perform a := nomatch a
  abandon _ mem := mem

abbrev Server := vocabulary.Server

abbrev Query := vocabulary.Query

abbrev Sql := vocabulary.Sql

variable {β : Type}

/-- A statement that writes, on its own. -/
def autocommit (s : Time → Sql β) : Query DbError β :=
  single .database (askQ Ask.now) fun now => sql (s now)

end Dd2Server.Logins
