import Dd2Server.Runtime

/-!
# Catalog tables and their copies on maps

`replace_catalog_in_tx`, `delete_catalog` and `bind_map_from_catalog_in_tx` of the minigames, the
collectibles and the hats, and the two statements that take hats off.  The three catalogs differ in
their columns and in one more point: the minigame rows are keyed by owner and name, the others by
the spec.
-/

namespace Dd2Server

open ReadCommitted

/-- `DELETE FROM t WHERE p`. -/
def deleteStmt (tag : Tag) (t : Table) (p : t.Key → t.Row → Bool) : Sql Unit where
  tag := tag
  run v := some ({ writes := deleteWhere t p v }, ())

/-- `INSERT INTO t VALUES (k, r)`. -/
def insertStmt (tag : Tag) (t : Table) (k : t.Key) (r : t.Row) : Sql Unit where
  tag := tag
  run v := (insertRow t k r v).map fun e => (e, ())

/-- `INSERT INTO t SELECT`, with whether any row came. -/
def insertSelectStmt (tag : Tag) (t : Table) (rows : Db → List (t.Key × t.Row)) : Sql Bool where
  tag := tag
  run v := (insertRows t (rows v) v).map fun e => (e, !(rows v).isEmpty)

theorem insertStmt_run {tag : Tag} {t : Table} {k : t.Key} {r : t.Row} {v : Db}
    {e : DbEffect} {b : Unit} :
    (insertStmt tag t k r).run v = some (e, b) ↔ insertRow t k r v = some e := by
  simp [insertStmt]

theorem insertSelectStmt_run {tag : Tag} {t : Table} {rows : Db → List (t.Key × t.Row)} {v : Db}
    {e : DbEffect} {b : Bool} :
    (insertSelectStmt tag t rows).run v = some (e, b) ↔
      insertRows t (rows v) v = some e ∧ b = !(rows v).isEmpty := by
  simp [insertSelectStmt, eq_comm]

/-- `substring(md5(s) from 1 for 16)`. -/
def Pg.key16 (pg : Pg) (s : String) : String := String.ofList ((pg.md5 s).toList.take 16)

/-! ## Minigames -/

namespace Minigames

def catalogKey (userId : Uuid) (nameId : String) (g : CatalogGame) : Table.minigameCatalog.Key :=
  (userId, nameId, g.slug)

def catalogRow (specId : Int) (g : CatalogGame) : MinigameCatalogRow where
  specId := some specId
  kind := g.kind
  name := g.name
  lowerIsBetter := g.lowerIsBetter

def replaceCatalogInTx (specId : Int) (userId : Uuid) (nameId : String)
    (games : List CatalogGame) : Query DbError Unit := do
  sql (deleteStmt (.named "minigames::replace_catalog_in_tx") .minigameCatalog fun _ r =>
    r.specId = some specId)
  games.forM fun g =>
    sql (insertStmt (.named "minigames::replace_catalog_in_tx") .minigameCatalog
      (catalogKey userId nameId g) (catalogRow specId g))

def deleteCatalog (userId : Uuid) (nameId : String) : Query DbError Unit :=
  autocommit fun _ =>
    deleteStmt (.deleteCatalog .minigameCatalog userId nameId) .minigameCatalog fun k _ =>
      k.1 = userId ∧ k.2.1 = nameId

def onMapRow (pg : Pg) (mapUid : String) (k : Table.minigameCatalog.Key) (r : MinigameCatalogRow) :
    MinigameOnMapRow where
  minigameKey := pg.key16 (mapUid ++ ":" ++ k.2.2)
  kind := r.kind
  name := r.name
  specUser := k.1
  nameId := k.2.1

def bindMapFromCatalogInTx (pg : Pg) (mapUid : String) (specId : Int) : Query DbError Bool := do
  sql (deleteStmt (.named "minigames::bind_map_from_catalog_in_tx") .minigameOnMap fun k _ =>
    k.1 = mapUid)
  sql (insertSelectStmt (.named "minigames::bind_map_from_catalog_in_tx") .minigameOnMap fun v =>
    (selectWhere .minigameCatalog (fun _ r => r.specId = some specId) v).map fun e =>
      ((mapUid, e.1.2.2), onMapRow pg mapUid e.1 e.2))

end Minigames

/-! ## Collectibles -/

namespace Collectibles

def catalogRow (userId : Uuid) (nameId : String) (c : CatalogCollectible) :
    CollectibleCatalogRow where
  userId := userId
  nameId := nameId
  name := c.name
  pickup := c.pickup
  collectOnUnlock := c.collectOnUnlock
  hasZone := c.hasZone
  gatedBy := c.gatedBy
  unlockScore := c.unlockScore

def replaceCatalogInTx (specId : Int) (userId : Uuid) (nameId : String)
    (items : List CatalogCollectible) : Query DbError Unit := do
  sql (deleteStmt (.named "collectibles::replace_catalog_in_tx") .collectibleCatalog fun k _ =>
    k.1 = specId)
  items.forM fun c =>
    sql (insertStmt (.named "collectibles::replace_catalog_in_tx") .collectibleCatalog
      (specId, c.slug) (catalogRow userId nameId c))

def deleteCatalog (userId : Uuid) (nameId : String) : Query DbError Unit :=
  autocommit fun _ =>
    deleteStmt (.deleteCatalog .collectibleCatalog userId nameId) .collectibleCatalog fun _ r =>
      r.userId = userId ∧ r.nameId = nameId

def onMapRow (pg : Pg) (mapUid : String) (k : Table.collectibleCatalog.Key)
    (r : CollectibleCatalogRow) : CollectibleOnMapRow where
  collectibleKey := pg.key16 (mapUid ++ ":c:" ++ k.2)
  name := r.name
  pickup := r.pickup
  collectOnUnlock := r.collectOnUnlock
  hasZone := r.hasZone
  gatedBy := r.gatedBy
  unlockScore := r.unlockScore
  specUser := r.userId
  nameId := r.nameId

def bindMapFromCatalogInTx (pg : Pg) (mapUid : String) (specId : Int) : Query DbError Bool := do
  sql (deleteStmt (.named "collectibles::bind_map_from_catalog_in_tx") .collectibleOnMap
    fun k _ => k.1 = mapUid)
  sql (insertSelectStmt (.named "collectibles::bind_map_from_catalog_in_tx") .collectibleOnMap
    fun v =>
      (selectWhere .collectibleCatalog (fun k _ => k.1 = specId) v).map fun e =>
        ((mapUid, e.1.2), onMapRow pg mapUid e.1 e.2))

end Collectibles

/-! ## Hats -/

namespace Hats

def catalogRow (userId : Uuid) (nameId : String) (h : CatalogHat) : HatCatalogRow where
  userId := userId
  nameId := nameId
  name := h.name
  finishThisMap := h.finishThisMap
  recordUids := h.recordUids

def replaceCatalogInTx (specId : Int) (userId : Uuid) (nameId : String)
    (items : List CatalogHat) : Query DbError Unit := do
  sql (deleteStmt (.named "hats::replace_catalog_in_tx") .hatCatalog fun k _ => k.1 = specId)
  items.forM fun h =>
    sql (insertStmt (.named "hats::replace_catalog_in_tx") .hatCatalog (specId, h.slug)
      (catalogRow userId nameId h))

def deleteCatalog (userId : Uuid) (nameId : String) : Query DbError Unit :=
  autocommit fun _ =>
    deleteStmt (.deleteCatalog .hatCatalog userId nameId) .hatCatalog fun _ r =>
      r.userId = userId ∧ r.nameId = nameId

/-- The key of a hat on a map. -/
def hatKey (pg : Pg) (mapUid slug : String) : String := pg.key16 (mapUid ++ ":h:" ++ slug)

def onMapRow (pg : Pg) (mapUid : String) (k : Table.hatCatalog.Key) (r : HatCatalogRow) :
    HatOnMapRow where
  hatKey := hatKey pg mapUid k.2
  name := r.name
  finishThisMap := r.finishThisMap
  recordUids := r.recordUids
  specUser := r.userId
  nameId := r.nameId

/-- The entries that tell the players on a map that a hat is off. -/
def removedWearers (v : Db) (rows : List (Table.hatEquipped.Key × HatEquippedRow)) :
    List HatOnMapPlayer :=
  rows.filterMap fun e =>
    (v.get ⟨.users, e.1.1⟩).map fun u =>
      { wsid := e.1.1.text, name := u.displayName, slug := "" }

/-- `DELETE FROM hat_equipped` of the rows of a map that `p` picks, with the entries to send. -/
def takeOffStmt (fn mapUid : String)
    (p : Db → Table.hatEquipped.Key → HatEquippedRow → Bool) : Sql (List HatOnMapPlayer) where
  tag := .named fn
  run v :=
    let q := fun k r => k.2 = mapUid && p v k r
    some ({ writes := deleteWhere .hatEquipped q v },
      removedWearers v (selectWhere .hatEquipped q v))

def purgeMapEquipmentInTx (mapUid : String) : Query DbError (List HatOnMapPlayer) :=
  sql (takeOffStmt "hats::purge_map_equipment_in_tx" mapUid fun _ _ _ => true)

/-- The worn hat is on the map with its slug and key. -/
def onMap (v : Db) (mapUid : String) (r : HatEquippedRow) : Bool :=
  match v.get ⟨.hatOnMap, (mapUid, r.slug)⟩ with
  | some h => h.hatKey = r.hatKey
  | none => false

structure HatBindResult where
  bound : Bool
  removedWearers : List HatOnMapPlayer

def bindMapFromCatalogInTx (pg : Pg) (mapUid : String) (specId : Int) :
    Query DbError HatBindResult := do
  sql (deleteStmt (.named "hats::bind_map_from_catalog_in_tx") .hatOnMap fun k _ => k.1 = mapUid)
  let bound ← sql (insertSelectStmt (.named "hats::bind_map_from_catalog_in_tx") .hatOnMap
    fun v =>
    (selectWhere .hatCatalog (fun k _ => k.1 = specId) v).map fun e =>
      ((mapUid, e.1.2), onMapRow pg mapUid e.1 e.2))
  let removed ← sql (takeOffStmt "hats::bind_map_from_catalog_in_tx" mapUid fun v k r =>
    !onMap v k.2 r)
  return { bound, removedWearers := removed }

end Hats

end Dd2Server
