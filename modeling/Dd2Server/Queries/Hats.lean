import Dd2Server.Queries.ListedMaps

/-!
# Hat unlocks, equips and reads
-/

namespace Dd2Server

open ReadCommitted

namespace Hats

/-- `uids_from_json`. -/
def uidsFromJson (uids : List String) : List String :=
  (uids.map Text.trim).filter fun s => s ≠ ""

/-- What a validation looks at. -/
structure OnMapRow where
  hatKey : String
  finishThisMap : Bool
  recordUids : List String
  deriving DecidableEq

def OnMapRow.ofRow (r : HatOnMapRow) : OnMapRow where
  hatKey := r.hatKey
  finishThisMap := r.finishThisMap
  recordUids := uidsFromJson r.recordUids

def materializedRow (pg : Pg) (mapUid : String) (specId : Int) (slug : String) :
    Query DbError (Option OnMapRow) := do
  let bound ← ListedMaps.resolveBoundSpec pg mapUid specId
  match bound with
  | none => return none
  | some _ =>
      sql (select "materialized_row" fun v =>
        (v.get ⟨.hatOnMap, (mapUid, slug)⟩).map OnMapRow.ofRow)

/-- A hat of a map, locked `FOR SHARE` if it is there. -/
def shareHatStmt (mapUid slug : String) : Sql (Option OnMapRow) where
  tag := .named "lock_materialized_row"
  run v :=
    match v.get ⟨.hatOnMap, (mapUid, slug)⟩ with
    | none => some ({}, none)
    | some r => some ({ locks := [⟨⟨.hatOnMap, (mapUid, slug)⟩, .share⟩] }, some (.ofRow r))

def lockMaterializedRow (pg : Pg) (mapUid : String) (specId : Int) (slug : String) :
    Query DbError (Option OnMapRow) := do
  let current ← ListedMaps.lockMaterializedSpec pg mapUid specId
  if current then sql (shareHatStmt mapUid slug) else return none

/-! ## Validation -/

def validateFinishThisMap (userId : Uuid) (mapUid : String) : Query DbError Bool := do
  let answer ← askQ (Ask.hasRecentOfficialRecord userId mapUid)
  return match answer with
    | .ok valid => valid
    | .error _ => false

def validateRecordForUid (userId : Uuid) (uid : String) : Query DbError Bool := do
  let answer ← askQ (Ask.hasOfficialRecord userId uid)
  return match answer with
    | .ok valid => valid
    | .error _ => false

def validateRecords (userId : Uuid) : List String → Query DbError Bool
  | [] => return true
  | uid :: uids => do
      let valid ← validateRecordForUid userId uid
      if valid then validateRecords userId uids else return false

def validateHatUnlock (userId : Uuid) (mapUid : String) (row : OnMapRow) : Query DbError Bool := do
  if !row.finishThisMap && row.recordUids.isEmpty then return false
  else
    let finished ← (if row.finishThisMap then validateFinishThisMap userId mapUid else pure true)
    if finished then validateRecords userId row.recordUids else return false

def alreadyUnlocked (userId : Uuid) (hatKey : String) : Query DbError Bool :=
  sql (select "already_unlocked" fun v => (v.get ⟨.hatUnlock, (userId, hatKey)⟩).isSome)

/-- `INSERT INTO hat_unlock … ON CONFLICT (user_id, hat_key) DO NOTHING`. -/
def insertUnlockStmt (userId : Uuid) (hatKey mapUid slug : String) (now : Time) : Sql Unit where
  tag := .named "report_unlock"
  run v :=
    match v.get ⟨.hatUnlock, (userId, hatKey)⟩ with
    | some _ => some ({}, ())
    | none =>
        (insertRow .hatUnlock (userId, hatKey) { mapUid, slug, unlockedAt := now } v).map fun e =>
          (e, ())

/-- The transaction of an unlock: `row` was validated before it. -/
def commitUnlock (pg : Pg) (userId : Uuid) (mapUid slug : String) (specId : Int) (row : OnMapRow) :
    Query DbError Bool :=
  transaction do
    let now ← askQ Ask.now
    let lockedRow ← lockMaterializedRow pg mapUid specId slug
    match lockedRow with
    | none => return false
    | some lockedRow =>
        if lockedRow ≠ row then return false
        else
          sql (insertUnlockStmt userId lockedRow.hatKey mapUid slug now)
          commitQ
          return true

def reportUnlock (pg : Pg) (userId : Uuid) (mapUid slug : String) (specId : Int) :
    Query DbError Bool := do
  let row ← materializedRow pg mapUid specId slug
  match row with
  | none => return false
  | some row =>
      let unlocked ← alreadyUnlocked userId row.hatKey
      if unlocked then return true
      else
        let allowed ← askQ (Ask.allowUnlockValidation userId mapUid slug)
        if !allowed then return false
        else
          let valid ← validateHatUnlock userId mapUid row
          if valid then commitUnlock pg userId mapUid slug specId row else return false

/-! ## Equips -/

/-- `DELETE FROM hat_equipped … RETURNING user_id`. -/
def unequipStmt (userId : Uuid) (mapUid : String) : Sql Bool where
  tag := .named "report_equip: unequip"
  run v :=
    match v.get ⟨.hatEquipped, (userId, mapUid)⟩ with
    | none => some ({}, false)
    | some _ => some ({ writes := [⟨⟨.hatEquipped, (userId, mapUid)⟩, none⟩] }, true)

/-- The hat is on the map under its canonical key and the user unlocked it there, both locked
`FOR SHARE`. -/
def shareUnlockStmt (pg : Pg) (userId : Uuid) (mapUid slug : String) : Sql (Option String) where
  tag := .named "report_equip: unlocked"
  run v :=
    let key := hatKey pg mapUid slug
    match v.get ⟨.hatUnlock, (userId, key)⟩, v.get ⟨.hatOnMap, (mapUid, slug)⟩ with
    | some u, some h =>
        if u.mapUid = mapUid ∧ u.slug = slug ∧ h.hatKey = key then
          some ({ locks :=
            [⟨⟨.hatOnMap, (mapUid, slug)⟩, .share⟩,
              ⟨⟨.hatUnlock, (userId, key)⟩, .share⟩] },
            some h.hatKey)
        else some ({}, none)
    | _, _ => some ({}, none)

/-- `INSERT INTO hat_equipped … ON CONFLICT (user_id, map_uid) DO UPDATE … WHERE` it differs,
with whether it did. -/
def upsertEquippedStmt (userId : Uuid) (mapUid slug hatKey : String) (now : Time) : Sql Bool where
  tag := .named "report_equip: upsert"
  run v :=
    let r : HatEquippedRow := { slug, hatKey, updatedAt := now }
    match v.get ⟨.hatEquipped, (userId, mapUid)⟩ with
    | none => (insertRow .hatEquipped (userId, mapUid) r v).map fun e => (e, true)
    | some old =>
        if old.slug ≠ slug ∨ old.hatKey ≠ hatKey then
          some ({ writes := [⟨⟨.hatEquipped, (userId, mapUid)⟩, some r⟩] }, true)
        else some ({ locks := [⟨⟨.hatEquipped, (userId, mapUid)⟩, .noKeyUpdate⟩] }, false)

/-- Write the equip; `none` when nothing changed. -/
def writeEquip (pg : Pg) (userId : Uuid) (mapUid slug : String) (now : Time) :
    Query DbError (Option String) := do
  if slug = "" then
    let removed ← sql (unequipStmt userId mapUid)
    return if removed then some "" else none
  else
    let binding ← sql (select "report_equip" fun v =>
      (v.get ⟨.mapListingBind, mapUid⟩).map fun b => b.specId)
    match binding with
    | none => return none
    | some specId =>
        let current ← ListedMaps.lockMaterializedSpec pg mapUid specId
        if !current then return none
        else
          let unlocked ← sql (shareUnlockStmt pg userId mapUid slug)
          match unlocked with
          | none => return none
          | some key =>
              let changed ← sql (upsertEquippedStmt userId mapUid slug key now)
              return if changed then some slug else none

/-- The name of a user, who must be there. -/
def displayName (userId : Uuid) : Query DbError String := do
  let name ← sql (select "display_name" fun v =>
    (v.get ⟨.users, userId⟩).map fun u => u.displayName)
  match name with
  | none => throw .database
  | some name => return name

def reportEquipWithBeforePayload (pg : Pg) (userId : Uuid) (mapUid slug : String) :
    Query DbError (Option HatOnMapPlayer) :=
  transaction do
    let now ← askQ Ask.now
    let eventSlug ← writeEquip pg userId mapUid slug now
    match eventSlug with
    | none => return none
    | some eventSlug =>
        let hook ← askQ Ask.beforePayload
        let _ ← liftE id hook
        let name ← displayName userId
        commitQ
        return some { wsid := userId.text, name, slug := eventSlug }

/-! ## Reads -/

/-- The columns a statement joins: the binding is verified and materialized. -/
def bindingUsable (pg : Pg) (v : Db) (mapUid : String) : Bool :=
  (joinBinding v mapUid).any fun (b, s) => b.isVerified s && b.isCurrent pg s

/-- The slug of the hat a user wears on a map, when it is on the map. -/
def equippedSlug (pg : Pg) (v : Db) (userId : Uuid) (mapUid : String) : Option String :=
  (v.get ⟨.hatEquipped, (userId, mapUid)⟩).bind fun e =>
    if onMap v mapUid e && bindingUsable pg v mapUid then some e.slug else none

/-- `t.timestamp() as u32`. -/
def timestampU32 (t : Time) : Nat := (t / 1000000 % 2 ^ 32).toNat

/-- `ORDER BY` one text column. -/
def orderByText {α : Type} (key : α → String) (xs : List α) : List α :=
  xs.mergeSort fun a b => key a ≤ key b

/-- The hats of a map with the time this user unlocked them. -/
def mineItems (pg : Pg) (v : Db) (userId : Uuid) (mapUid : String) : List HatMineItem :=
  if bindingUsable pg v mapUid then
    orderByText HatMineItem.slug
      ((selectWhere .hatOnMap (fun k _ => k.1 = mapUid) v).map fun e =>
        { slug := e.1.2
          name := e.2.name
          key := Text.trim e.2.hatKey
          unlockedAt := (v.get ⟨.hatUnlock, (userId, e.2.hatKey)⟩).map fun u =>
            timestampU32 u.unlockedAt })
  else []

def getHatsMine (pg : Pg) (mapUid : String) (userId : Uuid) :
    Query DbError (Option (String × List HatMineItem)) := do
  let bound ← ListedMaps.verifiedBindingSpecId pg mapUid
  match bound with
  | none => return none
  | some _ =>
      let equipped ← poolRead (.named "get_hats_mine: equipped") fun db =>
          equippedSlug pg db userId mapUid
      let items ← poolRead (.named "get_hats_mine: items") fun db => mineItems pg db userId mapUid
      return some (equipped.getD "", items)

/-- 120 seconds. -/
def presenceMicros : Int := 120 * 1000000

/-- The worn hat is unlocked, on the map, not the empty slug, and the binding stands. -/
def shown (pg : Pg) (v : Db) (userId : Uuid) (mapUid : String) (e : HatEquippedRow) : Bool :=
  (v.get ⟨.hatUnlock, (userId, e.hatKey)⟩).isSome && onMap v mapUid e && e.slug ≠ "" &&
    bindingUsable pg v mapUid

/-- The worn hats on a map, of the players seen there within the last two minutes. -/
def wornOnMap (pg : Pg) (v : Db) (mapUid : String) (now : Time) : List HatOnMapPlayer :=
  orderByText HatOnMapPlayer.name
    (orderByText HatOnMapPlayer.slug
      ((selectWhere .hatEquipped (fun k e => k.2 = mapUid && shown pg v k.1 mapUid e &&
          (v.get ⟨.mapCurrHeights, (k.1, mapUid)⟩).any fun m =>
            now - presenceMicros < m.updatedAt)
        v).filterMap fun e =>
          (v.get ⟨.users, e.1.1⟩).map fun u =>
            { wsid := e.1.1.text, name := u.displayName, slug := e.2.slug }))

def getHatsOnMap (pg : Pg) (mapUid : String) : Query DbError (List HatOnMapPlayer) := do
  let now ← askQ Ask.now
  poolRead (.named "get_hats_on_map") fun db => wornOnMap pg db mapUid now

def pushEntry (pg : Pg) (v : Db) (userId : Uuid) (mapUid : String) : Option HatOnMapPlayer :=
  (v.get ⟨.hatEquipped, (userId, mapUid)⟩).bind fun e =>
    if shown pg v userId mapUid e then
      (v.get ⟨.users, userId⟩).map fun u =>
        { wsid := userId.text, name := u.displayName, slug := e.slug }
    else none

def equippedPushEntry (pg : Pg) (userId : Uuid) (mapUid : String) :
    Query DbError (Option HatOnMapPlayer) :=
  poolRead (.named "equipped_push_entry") fun db => pushEntry pg db userId mapUid

end Hats

end Dd2Server
