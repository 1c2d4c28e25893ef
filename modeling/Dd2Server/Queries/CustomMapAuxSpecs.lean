import Dd2Server.Queries.Auth
import Dd2Server.Queries.Catalogs

/-!
# Aux specs

The upload of a spec with its three catalogs in one transaction, the delete request, which is a
sequence of statements each on its own, and the login that creates the owners.
-/

namespace Dd2Server

open ReadCommitted

/-- `?` on a parsed catalog or another pure `Result`. -/
def liftE {ε ε' α : Type} (f : ε' → ε) (r : Except ε' α) : Query ε α :=
  ExceptT.mk (.ret (r.mapError f))

inductive UpsertWayfinderSpecError
  | validation (e : CatalogValidationError)
  | database
  deriving DecidableEq

def UpsertWayfinderSpecError.ofDb : DbError → UpsertWayfinderSpecError
  | .database => .database

namespace CustomMapAuxSpecs

/-- The spec of an owner and name, through the unique index. -/
def find (v : Db) (userId : Uuid) (nameId : String) : Option (Int × SpecRow) :=
  (v.get ⟨.specNames, (userId, nameId)⟩).bind fun id =>
    (v.get ⟨.specs, id⟩).map fun r => (id, r)

/-- The read of a spec counts a hit. -/
def getSpecStmt (userId : Uuid) (nameId : String) : Sql (Option (Int × SpecRow)) where
  tag := .named "get_spec"
  run v :=
    match find v userId nameId with
    | none => some ({}, none)
    | some (id, r) =>
        let r' := { r with hitCounter := r.hitCounter + 1 }
        some ({ writes := [⟨⟨.specs, id⟩, some r'⟩] }, some (id, r'))

def getSpec (userId : Uuid) (nameId : String) : Query DbError (Option (Int × SpecRow)) :=
  autocommit fun _ => getSpecStmt userId nameId

/-- `INSERT … ON CONFLICT (user_id, name_id) DO UPDATE … RETURNING id`. -/
def upsertSpecStmt (pg : Pg) (id : Int) (now : Time) (userId : Uuid) (nameId : String)
    (spec : Value) (listingThreshold : Int) : Sql Int where
  tag := .upsertSpec userId nameId spec
  run v :=
    match find v userId nameId with
    | some (id, r) =>
        let r' := { r with spec := pg.jsonb spec, listingThreshold, updatedAt := now }
        if Table.specs.check id r' then
          some
            ({ writes := [⟨⟨.specs, id⟩, some r'⟩]
               locks := [⟨⟨.specs, id⟩, .noKeyUpdate⟩] }, id)
        else none
    | none =>
        let r : SpecRow :=
          { userId, nameId, spec := pg.jsonb spec, hitCounter := 0, createdAt := now
            updatedAt := now, listingThreshold }
        if (v.get ⟨.specNames, (userId, nameId)⟩).isNone then
          (insertRow .specs id r v).map fun e =>
            ({ writes := ⟨⟨.specNames, (userId, nameId)⟩, some id⟩ :: e.writes
               locks := ⟨⟨.specs, id⟩, .noKeyUpdate⟩ :: e.locks }, id)
        else none

/-- Replace the spec and its three catalogs, or nothing. -/
def upsertSpecAndCatalogs (pg : Pg) (userId : Uuid) (nameId : String) (spec : Value) :
    Query UpsertWayfinderSpecError Int := do
  let spec := stripInjectedSpecId spec
  let games ← liftE .validation (parseCatalogGames spec)
  let collectibles ← liftE .validation (parseCatalogCollectibles spec)
  let hats ← liftE .validation (parseCatalogHats spec)
  let listingThreshold := listingThresholdFromSpec spec
  ExceptT.adapt .ofDb <| transaction do
    let now ← askQ Ask.now
    let nextId ← askQ Ask.nextSpecId
    let id ← sql (upsertSpecStmt pg nextId now userId nameId spec listingThreshold)
    Minigames.replaceCatalogInTx id userId nameId games
    Collectibles.replaceCatalogInTx id userId nameId collectibles
    Hats.replaceCatalogInTx id userId nameId hats
    commitQ
    return id

/-- The maps bound to a spec. -/
def boundMaps (v : Db) (id : Int) : List String :=
  (selectWhere .mapListingBind (fun _ b => b.specId = id) v).map Prod.fst

/-- `ORDER BY … LIMIT 1` of one text column. -/
def leastText (xs : List String) : Option String :=
  xs.foldl (fun acc x => some (acc.elim x fun a => if x < a then x else a)) none

def boundMapUid (userId : Uuid) (nameId : String) : Query DbError (Option String) :=
  sql (select "bound_map_uid" fun v =>
    (find v userId nameId).bind fun s => leastText (boundMaps v s.1))

/-- The delete of a spec cascades to its catalogs and is refused while a map is bound to it. -/
def deleteSpecStmt (userId : Uuid) (nameId : String) : Sql Unit where
  tag := .named "delete_spec"
  run v :=
    match find v userId nameId with
    | none => some ({}, ())
    | some (id, _) =>
        if (boundMaps v id).isEmpty then
          some
            ({ writes :=
                deleteWhere .minigameCatalog (fun _ r => r.specId = some id) v ++
                deleteWhere .collectibleCatalog (fun k _ => k.1 = id) v ++
                deleteWhere .hatCatalog (fun k _ => k.1 = id) v ++
                [⟨⟨.specNames, (userId, nameId)⟩, none⟩, ⟨⟨.specs, id⟩, none⟩] },
                  ())
        else none

def deleteSpec (userId : Uuid) (nameId : String) : Query DbError Unit :=
  autocommit fun _ => deleteSpecStmt userId nameId

end CustomMapAuxSpecs

/-! ## Request handlers -/

/-- 24 hours. -/
def dayMicros : Int := 24 * 60 * 60 * 1000000

def specTaskInternalError (action : String) (_ : DbError) : String :=
  "Server error while " ++ action ++ " the spec"

def UpsertWayfinderSpecError.text : UpsertWayfinderSpecError → String
  | .validation e => e.text
  | .database => specTaskInternalError "saving" .database

def Value.isNonEmptyObject : Value → Bool
  | .object fields => !fields.isEmpty
  | _ => false

def upsertCustomMapAuxSpec (pg : Pg) (userId : Uuid) (nameId : String) (spec : Value) :
    Query String Unit := do
  if spec.isNonEmptyObject then
    let existing ← ExceptT.adapt (specTaskInternalError "saving")
      (CustomMapAuxSpecs.getSpec userId nameId)
    let now ← askQ Ask.now
    if existing.any fun s => s.2.createdAt < now - dayMicros then
      throw "Spec can no longer be modified"
    else
      let _ ← ExceptT.adapt UpsertWayfinderSpecError.text
        (CustomMapAuxSpecs.upsertSpecAndCatalogs pg userId nameId spec)
      return ()
  else throw "Invalid spec: must be a non-empty object"

def deleteCustomMapAuxSpecInner (userId : Uuid) (nameId : String) : Query String Unit := do
  let existing ← ExceptT.adapt (specTaskInternalError "deleting")
    (CustomMapAuxSpecs.getSpec userId nameId)
  let now ← askQ Ask.now
  if existing.any fun s => s.2.createdAt < now - dayMicros then
    throw "Spec can no longer be deleted"
  else
    let boundMap ← ExceptT.adapt (specTaskInternalError "deleting")
      (CustomMapAuxSpecs.boundMapUid userId nameId)
    match boundMap with
    | some mapUid =>
        throw ("Spec is bound to map " ++ mapUid ++ " and can no longer be deleted")
    | none =>
        ExceptT.adapt (specTaskInternalError "deleting")
          (CustomMapAuxSpecs.deleteSpec userId nameId)
        ExceptT.adapt (specTaskInternalError "deleting") (Minigames.deleteCatalog userId nameId)
        ExceptT.adapt (specTaskInternalError "deleting") (Collectibles.deleteCatalog userId nameId)
        ExceptT.adapt (specTaskInternalError "deleting") (Hats.deleteCatalog userId nameId)

/-! ## Logins -/

def accounts : Accounts Table.Key Table.Row Tag Ask.Ans Act.Out where
  autocommit := autocommit
  tag := .named "register_or_login"
  findUser accountId _ :=
    sql (select "register_or_login" fun v => (v.get ⟨.users, accountId⟩).map
      (UserRow.user accountId))
  userRow accountId v := v.get ⟨.users, accountId⟩
  updateUser accountId r _ :=
    if Table.users.check accountId r then some { writes := [⟨⟨.users, accountId⟩, some r⟩] }
      else none
  insertUser := insertRow .users
  insertName := insertRow .displayNames

def registerOrLogin (accountId : Uuid) (displayName : String) : Query DbError User :=
  accounts.registerOrLogin accountId displayName

end Dd2Server
