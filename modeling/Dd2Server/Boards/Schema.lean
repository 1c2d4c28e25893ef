import Dd2Server.Queries.ListedMaps
import Mathlib.Algebra.Order.Ring.Rat

/-!
# The leaderboard tables

The tables of best heights, on custom maps and on Deep Dip 2, with what the listing of a map reads.
They are a database of their own here: no transaction touches both these rows and the rows of a hat
or a catalog, and the binding and the specs are only read.

A height is a finite `DOUBLE PRECISION`.  Such numbers compare as the rationals they are.  Foreign
keys to `users` are left out: every caller is a logged-in user, and no row of `users` is removed.
-/

namespace Dd2Server.Boards

open ReadCommitted

abbrev Height := ℚ

/-- A position; the middle coordinate is the height. -/
structure Pos where
  x : ℚ
  y : Height
  z : ℚ
  deriving DecidableEq

inductive Table
  | shadowBans
  | mapBans
  | mapListingBind
  | specs
  | mapCurrHeights
  | mapLeaderboard
  | listedMaps
  | leaderboard
  | leaderboardArchive
  /-- `pg_advisory_xact_lock`: rows that are locked and never written. -/
  | advisoryLocks
  deriving DecidableEq

/-- A row of `map_bans`, keyed by map and user. -/
structure MapBanRow where
  expiresAt : Option Time
  liftedAt : Option Time
  deriving DecidableEq

/-- A row of `map_leaderboard` or `map_curr_heights`, keyed by user and map. -/
structure StandingRow where
  height : Height
  pos : Pos
  raceTime : Int
  updatedAt : Time
  updateCount : Int
  deriving DecidableEq

/-- A row of `listed_maps`, keyed by map. -/
structure ListedMapRow where
  listed : Bool
  becameListed : Time
  deriving DecidableEq

/-- A row of `leaderboard`, keyed by user. -/
structure LeaderboardRow where
  height : Height
  updateCount : Int
  ts : Time
  deriving DecidableEq

/-- A row of `leaderboard_archive`, keyed by user and time. -/
structure ArchiveRow where
  height : Height
  rankAtTime : Nat
  deriving DecidableEq

@[reducible] def Table.Key : Table → Type
  | .shadowBans => Uuid
  | .mapBans => String × Uuid
  | .mapListingBind => String
  | .specs => Int
  | .mapCurrHeights => Uuid × String
  | .mapLeaderboard => Uuid × String
  | .listedMaps => String
  | .leaderboard => Uuid
  | .leaderboardArchive => Uuid × Time
  | .advisoryLocks => Int

@[reducible] def Table.Row : Table → Type
  | .shadowBans => Unit
  | .mapBans => MapBanRow
  | .mapListingBind => BindRow
  | .specs => SpecRow
  | .mapCurrHeights => StandingRow
  | .mapLeaderboard => StandingRow
  | .listedMaps => ListedMapRow
  | .leaderboard => LeaderboardRow
  | .leaderboardArchive => ArchiveRow
  | .advisoryLocks => Unit

instance : ∀ t : Table, DecidableEq t.Key
  | .shadowBans | .mapBans | .mapListingBind | .specs | .mapCurrHeights | .mapLeaderboard
  | .listedMaps | .leaderboard | .leaderboardArchive | .advisoryLocks => inferInstance

abbrev Db := Store Table.Key Table.Row

abbrev DbKey := RowKey Table.Key

/-! ## Tasks -/

inductive Ask
  /-- `NOW()` of a transaction. -/
  | now
  deriving DecidableEq

@[reducible] def Ask.Ans : Ask → Type
  | .now => Time

@[reducible] def Act.Out : Empty → Type := Empty.elim

/-- The name of a statement, with what the theorems about its runs need to know of it. -/
inductive Tag
  | named (fn : String)
  /-- The count of a listing check, in a transaction that began at `now`. -/
  | countPublic (mapUid : String) (now : Time)
  /-- The first standing of a user on a map, unless there is one. -/
  | insertStanding (userId : Uuid) (mapUid : String) (height : Height)
  | raisePb (userId : Uuid) (height : Height)
  | insertPb (userId : Uuid)
  | archivePb (userId : Uuid) (now : Time)
  deriving DecidableEq

abbrev vocabulary : Vocabulary := ⟨Table.Key, Table.Row, Tag, Ask.Ans, Act.Out⟩

abbrev LogEvent := Event Table.Key Table.Row Tag Ask.Ans Act.Out

abbrev Log := List LogEvent

abbrev Known := ReadCommitted.Known Table.Key Table.Row Tag Ask.Ans Act.Out

/-- These tasks share nothing but the database. -/
def shared : Shared Table.Key Table.Row Tag Ask.Ans Act.Out Unit where
  perform a := nomatch a
  abandon _ mem := mem

/-- What `sqlx` returns besides rows. -/
inductive SqlxError
  | rowNotFound
  | database
  deriving DecidableEq

abbrev Server := vocabulary.Server

abbrev Query := vocabulary.Query

abbrev Sql := vocabulary.Sql

def sql (s : Sql β) : Query SqlxError β := query .database s

def commitQ : Query SqlxError Unit := commit .database

/-- A statement that writes, on its own; its triggers run with it. -/
def autocommit (x : Time → Query SqlxError β) : Query SqlxError β :=
  single .database (askQ Ask.now) x

end Dd2Server.Boards
