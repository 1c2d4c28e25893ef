import Dd2Server.Queries.Minigames

/-!
# Collected collectibles

`report_unlock` makes a collectible available to a player, `report_collect` collects it and logs
where.
-/

namespace Dd2Server

open ReadCommitted

/-- The bits of the absolute value.  Those of two numbers are in the order of the numbers. -/
def F32.abs (x : F32) : Nat := x.bits.toNat % 2 ^ 31

def F32.isFinite (x : F32) : Bool := x.abs / 2 ^ 23 ≠ 255

namespace Collectibles

/-- What a report looks at. -/
structure OnMapRow where
  collectibleKey : String
  collectOnUnlock : Bool
  hasZone : Bool

/-- A collectible of a map, locked `FOR SHARE` if it is there. -/
def shareCollectibleStmt (mapUid slug : String) : Sql (Option OnMapRow) where
  tag := .named "collectibles::lock_materialized_row"
  run v :=
    match v.get ⟨.collectibleOnMap, (mapUid, slug)⟩ with
    | none => some ({}, none)
    | some r =>
        some ({ locks := [⟨⟨.collectibleOnMap, (mapUid, slug)⟩, .share⟩] },
          some
            { collectibleKey := r.collectibleKey, collectOnUnlock := r.collectOnUnlock,
              hasZone := r.hasZone })

def lockMaterializedRow (pg : Pg) (mapUid : String) (specId : Int) (slug : String) :
    Query DbError (Option OnMapRow) := do
  let current ← ListedMaps.lockMaterializedSpec pg mapUid specId
  if !current then return none
  else sql (shareCollectibleStmt mapUid slug)

def collectLogSource (raw : String) : Option String :=
  if raw = "zone" ∨ raw = "grant" then some raw else none

/-! ## Unlocks -/

/-- `INSERT INTO collectible_progress … ON CONFLICT DO UPDATE SET unlocked_at = COALESCE(…)`. -/
def unlockStmt (userId : Uuid) (key mapUid slug : String) (now : Time) : Sql Unit where
  tag := .named "collectibles::report_unlock"
  run v :=
    (upsertRow .collectibleProgress (userId, key)
      { mapUid, slug, unlockedAt := some now, collectedAt := none }
      (fun r => { r with unlockedAt := r.unlockedAt.or (some now) }) v).map fun e => (e, ())

def reportUnlock (pg : Pg) (userId : Uuid) (mapUid slug : String) (specId : Int) :
    Query DbError Unit :=
  transaction do
    let now ← askQ Ask.now
    let row ← lockMaterializedRow pg mapUid specId slug
    match row with
    | none => return ()
    | some row =>
        sql (unlockStmt userId row.collectibleKey mapUid slug now)
        commitQ

/-! ## Collections -/

/-- `SELECT collected_at … FOR UPDATE`. -/
def lockProgressStmt (userId : Uuid) (key : String) : Sql (Option (Option Time)) where
  tag := .named "record_collect_transition: previous"
  run v :=
    match v.get ⟨.collectibleProgress, (userId, key)⟩ with
    | none => some ({}, none)
    | some r =>
        some ({ locks := [⟨⟨.collectibleProgress, (userId, key)⟩, .update⟩] },
          some r.collectedAt)

/-- `INSERT INTO collectible_progress … ON CONFLICT DO UPDATE SET` both times, where they are
missing. -/
def collectStmt (userId : Uuid) (key mapUid slug : String) (now : Time) : Sql Unit where
  tag := .named "record_collect_transition: progress"
  run v :=
    (upsertRow .collectibleProgress (userId, key)
      { mapUid, slug, unlockedAt := some now, collectedAt := some now }
      (fun r => { r with
        unlockedAt := r.unlockedAt.or (some now)
        collectedAt := r.collectedAt.or (some now) }) v).map fun e => (e, ())

/-- `INSERT INTO collectible_collect_log … ON CONFLICT DO NOTHING`. -/
def logStmt (userId : Uuid) (key : String) (r : CollectLogRow) : Sql Unit where
  tag := .named "record_collect_transition: log"
  run v :=
    match v.get ⟨.collectibleCollectLog, (userId, key)⟩ with
    | some _ => if Table.collectibleCollectLog.check (userId, key) r then some ({}, ()) else none
    | none => (insertRow .collectibleCollectLog (userId, key) r v).map fun e => (e, ())

def recordCollectTransition (userId : Uuid) (key mapUid slug : String) (x y z : F32)
    (source : String) (now : Time) : Query DbError Unit := do
  let previous ← sql (lockProgressStmt userId key)
  sql (collectStmt userId key mapUid slug now)
  if previous.all Option.isNone then
    sql (logStmt userId key { mapUid, slug, collectedAt := now, pos := some (x, y, z), source })

/-- `1.0e6`. -/
def collectPositionLimit : F32 := ⟨0x49742400⟩

def collectPositionIsPlausible (x y z : F32) : Bool :=
  [x, y, z].all fun value => value.isFinite && value.abs ≤ collectPositionLimit.abs

/-- The row has the collect path that the source names. -/
def OnMapRow.allows (row : OnMapRow) (source : String) : Bool :=
  if source = "grant" then row.collectOnUnlock else if source = "zone" then row.hasZone else false

def reportCollect (pg : Pg) (userId : Uuid) (mapUid slug : String) (specId : Int) (x y z : F32)
    (source : String) : Query DbError Unit :=
  match collectLogSource source with
  | none => return ()
  | some source =>
      if !collectPositionIsPlausible x y z then return ()
      else
        transaction do
          let now ← askQ Ask.now
          let row ← lockMaterializedRow pg mapUid specId slug
          match row with
          | none => return ()
          | some row =>
              if !row.allows source then return ()
              else
                recordCollectTransition userId row.collectibleKey mapUid slug x y z source now
                commitQ

end Collectibles

end Dd2Server
