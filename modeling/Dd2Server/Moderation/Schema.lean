import Dd2Server.Comment
import Dd2Server.ReadCommitted.Constraints
import Dd2Server.ReadCommitted.Moves

/-!
# The moderation tables

Super-mods, map authors, delegates, Map Bans and the marks they leave.  They are a database of their
own here: no transaction touches both these rows and the rows of a hat or a leaderboard.

The clock of the database is memory the tasks share.  `NOW()` reads it where a transaction begins,
and time passes between any two moves.  The clock of the server is asked for like the world outside.
-/

namespace Dd2Server.Moderation

open ReadCommitted

/-! ## Rows -/

inductive Table
  | users
  | superMods
  | mapMeta
  | mapDelegates
  | mapBans
  | mapUnofficial
  | webSessions
  | auditEvents
  deriving DecidableEq

/-- A row of `super_mods`, keyed by user. -/
structure SuperModRow where
  grantedBy : Option Uuid
  createdAt : Time
  deriving DecidableEq

/-- A row of `map_meta`, keyed by map. -/
structure MapMeta where
  authorId : Uuid
  mapName : Option String
  thumbnailUrl : Option String
  fetchedAt : Time
  updatedAt : Time
  deriving DecidableEq

/-- A row of `map_delegates`, keyed by map and user. -/
structure MapDelegate where
  grantedBy : Uuid
  createdAt : Time
  deriving DecidableEq

/-- A row of `map_bans`, keyed by map and user. -/
structure MapBan where
  privateReason : String
  publicMessage : String
  createdBy : Uuid
  createdAt : Time
  expiresAt : Option Time
  liftedAt : Option Time
  liftedBy : Option Uuid
  deriving DecidableEq

/-- The ban counts at `now`. -/
def MapBan.isActive (now : Time) (b : MapBan) : Bool :=
  b.liftedAt.isNone && b.expiresAt.all fun t => now < t

/-- A row of `map_unofficial`, keyed by map and user. -/
structure UnofficialRow where
  source : String
  updatedAt : Time
  updatedBy : Option Uuid
  deriving DecidableEq

/-- A row of `web_sessions`, keyed by session. -/
structure WebSession where
  userId : Uuid
  displayName : String
  expiresAt : Time
  deriving DecidableEq

/-- A row of `mod_audit_events`, keyed by id. -/
structure AuditEvent where
  at_ : Time
  actorId : Uuid
  action : String
  mapUid : Option String
  targetUserId : Option Uuid
  detail : Value

@[reducible] def Table.Key : Table → Type
  | .users => Uuid
  | .superMods => Uuid
  | .mapMeta => String
  | .mapDelegates => String × Uuid
  | .mapBans => String × Uuid
  | .mapUnofficial => String × Uuid
  | .webSessions => Uuid
  | .auditEvents => Int

@[reducible] def Table.Row : Table → Type
  | .users => UserRow
  | .superMods => SuperModRow
  | .mapMeta => MapMeta
  | .mapDelegates => MapDelegate
  | .mapBans => MapBan
  | .mapUnofficial => UnofficialRow
  | .webSessions => WebSession
  | .auditEvents => AuditEvent

instance : ∀ t : Table, DecidableEq t.Key
  | .users | .superMods | .mapMeta | .mapDelegates | .mapBans | .mapUnofficial | .webSessions
  | .auditEvents => inferInstance

abbrev Db := Store Table.Key Table.Row

abbrev DbKey := RowKey Table.Key

abbrev DbEffect := Effect Table.Key Table.Row

/-! ## Constraints -/

/-- The declared lengths of a row.  A longer text of which the excess is spaces is cut by PostgreSQL
and refused here. -/
def Table.check : (t : Table) → t.Key → t.Row → Bool
  | .users, _, r => r.displayName.length ≤ 75
  | .mapMeta, mapUid, _ => mapUid.length ≤ 27
  | .mapDelegates, (mapUid, _), _ => mapUid.length ≤ 27
  | .mapBans, (mapUid, _), _ => mapUid.length ≤ 27
  | .mapUnofficial, (mapUid, _), _ => mapUid.length ≤ 27
  | .auditEvents, _, r => r.mapUid.all fun m => m.length ≤ 27
  | _, _, _ => true

/-- The rows a row refers to. -/
def Table.parents : (t : Table) → t.Key → t.Row → List DbKey
  | .superMods, userId, r => ⟨.users, userId⟩ :: r.grantedBy.toList.map fun u => ⟨.users, u⟩
  | .mapDelegates, (_, userId), r => [⟨.users, userId⟩, ⟨.users, r.grantedBy⟩]
  | .mapBans, (_, userId), r =>
      ⟨.users, userId⟩ :: ⟨.users, r.createdBy⟩ :: r.liftedBy.toList.map
        fun u => ⟨.users, u⟩
  | .mapUnofficial, (_, userId), r =>
      ⟨.users, userId⟩ :: r.updatedBy.toList.map fun u => ⟨.users, u⟩
  | .webSessions, _, r => [⟨.users, r.userId⟩]
  | .auditEvents, _, r =>
      ⟨.users, r.actorId⟩ :: r.targetUserId.toList.map fun u => ⟨.users, u⟩
  | _, _, _ => []

def constraints : Constraints Table.Key Table.Row := ⟨Table.check, Table.parents⟩

/-- `INSERT … ON CONFLICT DO NOTHING`. -/
def insertRow (t : Table) (k : t.Key) (r : t.Row) (v : Db) : Option DbEffect :=
  match v.get ⟨t, k⟩ with
  | some _ => some {}
  | none => constraints.upsertRow t k r v

/-- `DELETE` of one row. -/
def deleteRow (t : Table) (k : t.Key) (v : Db) : DbEffect :=
  match v.get ⟨t, k⟩ with
  | some _ => { writes := [⟨⟨t, k⟩, none⟩] }
  | none => {}

theorem insertRow_writes {t : Table} {k : t.Key} {r : t.Row} {v : Db} {e : DbEffect}
    (h : insertRow t k r v = some e) : e.writes = [] ∨ e.writes = [⟨⟨t, k⟩, some r⟩] := by
  rw [insertRow] at h
  split at h
  · cases h
    exact .inl rfl
  · exact .inr (Constraints.upsertRow_writes h)

theorem deleteRow_writes (t : Table) (k : t.Key) (v : Db) :
    (deleteRow t k v).writes = [] ∨ (deleteRow t k v).writes = [⟨⟨t, k⟩, none⟩] := by
  rw [deleteRow]
  split
  · exact .inr rfl
  · exact .inl rfl

/-! ## Tasks -/

/-- What Nadeo says of a map, as far as it is used here. -/
structure LiveMapInfo where
  uid : String
  author : String
  name : Option String
  thumbnailUrl : Option String
  deriving DecidableEq

inductive Ask
  /-- `Utc::now()`. -/
  | utcNow
  /-- `get_map_info` of the Nadeo client. -/
  | mapInfo (mapUid : String)
  /-- `nextval` of the ids of `mod_audit_events`. -/
  | nextAuditId
  deriving DecidableEq

@[reducible] def Ask.Ans : Ask → Type
  | .utcNow => Time
  | .mapInfo _ => Except String LiveMapInfo
  | .nextAuditId => Int

inductive Act
  /-- `NOW()`. -/
  | clock
  | pass (d : Nat)
  deriving DecidableEq

@[reducible] def Act.Out : Act → Type
  | .clock => Time
  | .pass _ => Unit

/-- What keeps a user from being banned on a map. -/
inductive Protection
  | superMod
  | author
  | delegate
  deriving DecidableEq

/-- The name of a statement, with what the theorems about its runs need to know of it. -/
inductive Tag
  | named (fn : String)
  /-- A read of `is_protected_from_map_ban`. -/
  | vets (kind : Protection) (mapUid : String) (target : Uuid)
  | activeBan (mapUid : String) (userId : Uuid)
  | countSuperMods
  | markUnofficial
  | addDelegate
  | removeSuperMod
  deriving DecidableEq

abbrev vocabulary : Vocabulary := ⟨Table.Key, Table.Row, Tag, Ask.Ans, Act.Out⟩

abbrev LogEvent := Event Table.Key Table.Row Tag Ask.Ans Act.Out

abbrev Log := List LogEvent

abbrev Known := ReadCommitted.Known Table.Key Table.Row Tag Ask.Ans Act.Out

/-- The tasks share the clock. -/
def shared : Shared Table.Key Table.Row Tag Ask.Ans Act.Out Time where
  perform
    | .clock, now => some (now, now)
    | .pass d, now => some (now + d, ())
  abandon _ now := now

abbrev Server := vocabulary.Server

abbrev Query := vocabulary.Query

abbrev Sql := vocabulary.Sql

/-- A statement that writes, on its own. -/
def autocommit (s : Time → Sql β) : Query DbError β :=
  single .database (actQ Act.clock) fun now => sql (s now)

end Dd2Server.Moderation
