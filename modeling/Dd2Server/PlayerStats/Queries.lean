import Dd2Server.PlayerStats.Schema
import Dd2Server.Paging.Arranged

/-!
# Reporting and reading statistics

A report updates the row of its user or inserts one, and every tenth count of updates goes to the
archive.  A downgrade is the same update with one more condition.
-/

namespace Dd2Server.PlayerStats

open Boards Machine

/-- A handler of a request: an answer, or none where the build panics, and the tables after it. -/
abbrev Answer := Option (Except SqlxError Unit)

/-- `UPDATE stats SET … WHERE user_id = $18 AND …`, which one of the users has.  The count of
updates may not overflow. -/
def updateRow (db : StatsDb) (now : Time) (userId : Uuid) (stats : Stats)
    (guard : StatsRow → Bool) : Except SqlxError (StatsRow × StatsDb) :=
  match (db.stats.lookup userId).filter guard with
  | none => .error .rowNotFound
  | some r =>
      if r.updateCount.saddOverflow 1 then .error .database
      else
        let r' := { columns := stats.columns, updateCount := r.updateCount + 1, ts := now }
        .ok (r', { db with stats := db.stats.insert userId r' })

def insertRow (db : StatsDb) (now : Time) (userId : Uuid) (stats : Stats) : StatsDb :=
  { db with
    stats := db.stats.insert userId { columns := stats.columns, updateCount := 0, ts := now } }

/-- The rank of a user in `ranked_stats`, where nobody is hidden. -/
def rankInStats (db : StatsDb) (r : StatsRow) : Nat :=
  Paging.rank (fun x : StatsRow => OrderDual.toDual x.columns.pbHeight.place)
    (db.stats.entries.map (·.2)) r

/-- The row as `ranked_stats` has it goes to the archive. -/
def archiveRow (db : StatsDb) (userId : Uuid) : StatsDb :=
  match db.stats.lookup userId with
  | none => db
  | some r =>
      { db with archive := db.archive ++
          [{ userId, columns := r.columns, updateCount := r.updateCount
             rankAtTime := rankInStats db r }] }

def updateUsersStats (b : Build) (db : StatsDb) (now : Time) (userId : Uuid) (stats : Stats) :
    Answer × StatsDb :=
  match updateRow db now userId stats fun _ => true with
  | .ok (r, db') =>
      match addS r.updateCount 2 b with
      | none => (none, db')
      | some n => (some (.ok ()), if n.srem 10 = 0 then archiveRow db' userId else db')
  | .error .rowNotFound => (some (.ok ()), insertRow db now userId stats)
  | .error e => (some (.error e), db)

def onReportStats (b : Build) (db : StatsDb) (now : Time) (userId : Uuid) (stats : Stats)
    (isOfficial : Bool) : Answer × StatsDb :=
  if isOfficial then updateUsersStats b db now userId stats
  else (some (.ok ()), db)

/-- `pb_height <= $6`. -/
def heightGuard (stats : Stats) (r : StatsRow) : Bool :=
  r.columns.pbHeight.place ≤ stats.pbHeight.place

/-- Allow the user to decrease their stats. -/
def downgradeStats (db : StatsDb) (now : Time) (userId : Uuid) (stats : Stats) :
    Except SqlxError Unit × StatsDb :=
  match updateRow db now userId stats (heightGuard stats) with
  | .ok (_, db') => (.ok (), db')
  | .error e => (.error e, db)

/-- What a client is told about a downgrade that failed: a level and a text. -/
def downgradeFailed (debug : SqlxError → String) (e : SqlxError) : Nat × String :=
  (1,
    "Failed to downgrade stats (note: pb height must be less than or equal to existing)\nError: " ++
    debug e)

/-- The request for a downgrade, with the messages it sends. -/
def handleDowngradeStats (debug : SqlxError → String) (db : StatsDb) (now : Time) (userId : Uuid)
    (stats : Stats) : Except SqlxError Unit × List (Nat × String) × StatsDb :=
  match downgradeStats db now userId stats with
  | (.ok (), db') => (.ok (), [], db')
  | (.error e, db') => (.error e, [downgradeFailed debug e], db')

def getUserStats (db : StatsDb) (board : GlobalTables) (asF32 : Height → F32) (userId : Uuid) :
    Except SqlxError (Stats × BitVec 32) :=
  match db.stats.lookup userId with
  | none => .error .rowNotFound
  | some r =>
      let s := r.columns.stats
      let s := match board.getUserInLb userId with
        | some e => { s with pbHeight := asF32 e.height }
        | none => s
      .ok (s, BitVec.ofNat 32 (rankInStats db r))

/-! ## The overview -/

/-- The rows whose users are not shadow-banned. -/
def countedRows (db : StatsDb) (board : GlobalTables) : List StatsEntry :=
  db.stats.entries.filter fun e => (board.db.get ⟨.shadowBans, e.1⟩).isNone

/-- `SUM` of an `INTEGER` column; of no rows it is `NULL`. -/
def sumOf (db : StatsDb) (board : GlobalTables) (column : StatsColumns → BitVec 32) :
    Option Int :=
  match countedRows db board with
  | [] => none
  | rows => some (rows.map fun e => (column e.2.columns).toInt).sum

/-- The sums of the overview. -/
structure Overview where
  resets : Option Int
  jumps : Option Int
  falls : Option Int
  floorsFallen : Option Int

def updateGlobalOverview (db : StatsDb) (board : GlobalTables) : Overview where
  resets := sumOf db board (·.nbResets)
  jumps := sumOf db board (·.nbJumps)
  falls := sumOf db board (·.nbFalls)
  floorsFallen := sumOf db board (·.nbFloorsFallen)

end Dd2Server.PlayerStats
