import Dd2Server.Boards.MapBoard
import Dd2Server.ReadCommitted.Chronicle
import Dd2Server.ReadCommitted.Evidence

/-!
# Live positions

Players report where they are, on custom maps and on Deep Dip 2.  A report goes into the row of its
player on its map, and a trigger counts for how many reports in a row the player has hardly moved.
Reports of one player may come from several connections at once.

The rows are a database of their own here: no other statement writes them.
-/

namespace Dd2Server.LiveHeights

open ReadCommitted
open Boards (Height Pos SqlxError ApiError maxHeight)

/-- The arithmetic on `DOUBLE PRECISION` of the trigger and of the answers.  Nothing here rests on
how it rounds. -/
structure Arithmetic where
  /-- The distance of two positions is at most 1. -/
  near : Pos → Pos → Bool
  /-- The difference of two coordinates over a number of microseconds, per second. -/
  rate : ℚ → ℚ → Int → ℚ
  /-- Microseconds in seconds, as `REAL`. -/
  seconds : Int → ℚ
  /-- `round_v3` to three digits. -/
  roundV3 : Pos → Pos

/-- A row of `map_curr_heights`, keyed by user and map. -/
structure LiveRow where
  height : Height
  pos : Pos
  raceTime : Int
  updatedAt : Time
  updateCount : Int
  afkUpdateCount : Int
  velocity : Pos
  dt : ℚ
  deriving DecidableEq

/-- A report as it comes to the database, with the `NOW()` of its statement. -/
structure LiveReport where
  pos : Pos
  raceTime : Int
  time : Time
  deriving DecidableEq

/-! ## The trigger -/

/-- `update_afk_and_velocity()`. -/
def updateAfkAndVelocity (a : Arithmetic) (now : Time) (old new : LiveRow) : LiveRow :=
  let dt := now - old.updatedAt
  { new with
    velocity :=
      if dt ≤ 0 then ⟨0, 0, 0⟩
      else ⟨a.rate new.pos.x old.pos.x dt, a.rate new.pos.y old.pos.y dt,
        a.rate new.pos.z old.pos.z dt⟩
    dt := a.seconds dt
    afkUpdateCount := if a.near new.pos old.pos then old.afkUpdateCount + 1 else 0 }

/-- The row after `INSERT … ON CONFLICT (map_uid, user_id) DO UPDATE`, with the trigger. -/
def LiveRow.upserted (a : Arithmetic) (r : LiveReport) : Option LiveRow → LiveRow
  | none =>
      { height := r.pos.y, pos := r.pos, raceTime := r.raceTime, updatedAt := r.time,
        updateCount := 0
        afkUpdateCount := 0, velocity := ⟨0, 0, 0⟩, dt := 1 }
  | some old =>
      updateAfkAndVelocity a r.time old
        { old with height := r.pos.y, pos := r.pos, raceTime := r.raceTime, updatedAt := r.time
                   updateCount := old.updateCount + 1 }

/-! ## Tasks -/

inductive Table
  | mapCurrHeights
  deriving DecidableEq

@[reducible] def Table.Key : Table → Type
  | .mapCurrHeights => Uuid × String

@[reducible] def Table.Row : Table → Type
  | .mapCurrHeights => LiveRow

instance : ∀ t : Table, DecidableEq t.Key
  | .mapCurrHeights => inferInstance

abbrev Db := Store Table.Key Table.Row

inductive Ask
  /-- `NOW()` of a statement. -/
  | now
  deriving DecidableEq

@[reducible] def Ask.Ans : Ask → Type
  | .now => Time

@[reducible] def Act.Out : Empty → Type := Empty.elim

/-- The name of a statement. -/
abbrev Tag := String

abbrev vocabulary : Vocabulary := ⟨Table.Key, Table.Row, Tag, Ask.Ans, Act.Out⟩

abbrev Log := List (Event Table.Key Table.Row Tag Ask.Ans Act.Out)

/-- These tasks share nothing but the database. -/
def shared : Shared Table.Key Table.Row Tag Ask.Ans Act.Out Unit where
  perform a := a.elim
  abandon _ mem := mem

abbrev Query := vocabulary.Query

abbrev Sql := vocabulary.Sql

/-- A statement that writes, on its own. -/
def autocommit {β : Type} (s : Time → Sql β) : Query SqlxError β :=
  single .database (askQ Ask.now) fun now => query .database (s now)

/-- `update_count` is an `INTEGER`. -/
def upsertMapCurrHeightStmt (a : Arithmetic) (mapUid : String) (userId : Uuid) (r : LiveReport) :
    Sql Unit where
  tag := "upsert_map_curr_height"
  run v :=
    let old := v.get ⟨.mapCurrHeights, (userId, mapUid)⟩
    if old.all fun row => row.updateCount < 2 ^ 31 - 1 then
      some
        ({ writes :=
            [⟨⟨.mapCurrHeights, (userId, mapUid)⟩, some (LiveRow.upserted a r old)⟩] }, ())
    else none

def upsertMapCurrHeight (a : Arithmetic) (mapUid : String) (userId : Uuid) (pos : Pos)
    (raceTime : Int) : Query SqlxError Unit :=
  if Text.byteLen mapUid ≠ 27 then throw .rowNotFound
  else autocommit fun now => upsertMapCurrHeightStmt a mapUid userId ⟨pos, raceTime, now⟩

/-- `vehicle_states` is not among these tables: what counts is whether the row went in. -/
def insertVehicleState : Query SqlxError Unit :=
  ExceptT.mk (.read "insert_vehicle_state" (fun _ => .ret (.ok ())) (.ret (.error .database)))

/-- The path of Deep Dip 2. -/
def reportLiveVehicleState (a : Arithmetic) (userId : Uuid) (isOfficial : Bool) (pos : Pos) :
    Query SqlxError Unit := do
  insertVehicleState
  if isOfficial ∧ pos.y ≤ 5000 then upsertMapCurrHeight a dd2MapUid userId pos (-1)
  else return ()

/-- The path of custom maps, up to the standings. -/
def reportMapCurrPos (a : Arithmetic) (userId : Uuid) (mapUid : String) (pos : Pos)
    (raceTime : Int) : Query ApiError Unit :=
  if maxHeight < pos.y then return ()
  else if Text.byteLen mapUid ≠ 27 then throw (.str "Invalid map_uid")
  else ExceptT.adapt .sqlx (upsertMapCurrHeight a mapUid userId pos raceTime)

/-- A call. -/
inductive Job
  | mapCurrPos (userId : Uuid) (mapUid : String) (pos : Pos) (raceTime : Int)
  | vehicleState (userId : Uuid) (isOfficial : Bool) (pos : Pos)
  deriving DecidableEq

namespace Job

def body (a : Arithmetic) :
    Job → Prog Table.Key Table.Row Tag Ask.Ans Act.Out (Except ApiError Unit)
  | .mapCurrPos userId mapUid pos raceTime => (reportMapCurrPos a userId mapUid pos raceTime).run
  | .vehicleState userId isOfficial pos =>
      (ExceptT.adapt .sqlx (reportLiveVehicleState a userId isOfficial pos)).run

/-- The row that a call is about. -/
def key : Job → Uuid × String
  | .mapCurrPos userId mapUid _ _ => (userId, mapUid)
  | .vehicleState userId _ _ => (userId, dd2MapUid)

def pos : Job → Pos
  | .mapCurrPos _ _ pos _ => pos
  | .vehicleState _ _ pos => pos

def raceTime : Job → Int
  | .mapCurrPos _ _ _ raceTime => raceTime
  | .vehicleState .. => -1

/-- A report that a call may bring. -/
def report (j : Job) (now : Time) : LiveReport := ⟨j.pos, j.raceTime, now⟩

/-- A position that is not discarded. -/
def Takes : Job → Prop
  | .mapCurrPos _ mapUid pos _ => pos.y ≤ maxHeight ∧ Text.byteLen mapUid = 27
  | .vehicleState _ isOfficial pos => isOfficial = true ∧ pos.y ≤ maxHeight

end Job

end Dd2Server.LiveHeights
