import Dd2Server.Queries.CustomMapAuxSpecs

/-!
# Map bindings

The binding of a map to a spec and the materialized copy of its catalogs: the author-present path
(`prepare_authoritative_bind`, `commit_authoritative_bind`), the path that follows the published
comment (`commit_comment_bind`), and the gates that gameplay asks.
-/

namespace Dd2Server

open ReadCommitted

inductive BindSpecError
  | conflictingBinding
  | specNotFound
  | specNotOwned
  | authorMismatch
  | authorVerification (msg : String)
  | catalog (e : CatalogValidationError)
  | database
  deriving DecidableEq

def BindSpecError.ofDb : DbError → BindSpecError
  | .database => .database

/-- The `Display` text of the error; the driver has its own. -/
def BindSpecError.text (driver : String) : BindSpecError → String
  | .conflictingBinding => "map is already bound to a different spec"
  | .specNotFound => "spec does not exist"
  | .specNotOwned => "authenticated reporter does not own the spec"
  | .authorMismatch => "Nadeo map author does not own the spec"
  | .authorVerification msg => "Nadeo map author verification failed: " ++ msg
  | .catalog e => e.text
  | .database => driver

/-- The binding names an author and that author owns its spec. -/
def BindRow.isVerified (b : BindRow) (s : SpecRow) : Bool :=
  b.authorVerifiedAt.isSome && b.verifiedAuthorId == some s.userId

/-- The materialized copy is the one of the spec's present revision. -/
def BindRow.isCurrent (pg : Pg) (b : BindRow) (s : SpecRow) : Bool :=
  b.materializedSpecUpdatedAt == some s.updatedAt && b.materializedSpecHash == some (s.specHash pg)

/-- The binding of a map joined with its spec. -/
def joinBinding (v : Db) (mapUid : String) : Option (BindRow × SpecRow) :=
  (v.get ⟨.mapListingBind, mapUid⟩).bind fun b =>
    (v.get ⟨.specs, b.specId⟩).map fun s => (b, s)

namespace ListedMaps

/-! ## Reads -/

structure SpecBinding where
  specId : Int
  verified : Bool

def getSpecBinding (mapUid : String) : Query DbError (Option SpecBinding) :=
  sql (select "get_spec_binding" fun v =>
    (joinBinding v mapUid).map fun (b, s) => { specId := b.specId, verified := b.isVerified s })

def bindRequiresAuthorVerification (reporterId : Uuid) (mapUid : String) (requestedSpecId : Int) :
    Query DbError Bool := do
  let (verified, owned) ← sql (select "bind_requires_author_verification" fun v =>
    ((joinBinding v mapUid).any fun (b, s) => b.specId = requestedSpecId && b.isVerified s,
      (v.get ⟨.specs, requestedSpecId⟩).any fun s => s.userId = reporterId))
  return !verified && owned

/-- The spec of the verified and materialized binding of a map. -/
def verifiedBinding (pg : Pg) (v : Db) (mapUid : String) : Option Int :=
  (joinBinding v mapUid).bind fun (b, s) =>
    if b.isVerified s && b.isCurrent pg s then some b.specId else none

def verifiedBindingSpecId (pg : Pg) (mapUid : String) : Query DbError (Option Int) :=
  sql (select "verified_binding_spec_id" fun v => verifiedBinding pg v mapUid)

/-- `resolve_bound_spec` on one state of the database. -/
def resolvedSpec (pg : Pg) (v : Db) (mapUid : String) (clientSpecId : Int) : Option Int :=
  (joinBinding v mapUid).bind fun (b, s) =>
    if b.specId = clientSpecId && (b.isVerified s && b.isCurrent pg s) then some b.specId else none

def resolveBoundSpec (pg : Pg) (mapUid : String) (clientSpecId : Int) :
    Query DbError (Option Int) :=
  sql (select "resolve_bound_spec" fun v => resolvedSpec pg v mapUid clientSpecId)

/-! ## Locking reads -/

/-- A spec by its id, locked if it is there. -/
def lockSpecStmt (mode : Mode) (specId : Int) : Sql (Option SpecRow) where
  tag := .named "lock spec"
  run v :=
    match v.get ⟨.specs, specId⟩ with
    | none => some ({}, none)
    | some s => some ({ locks := [⟨⟨.specs, specId⟩, mode⟩] }, some s)

/-- What the locking read of a binding returns. -/
structure LockedBinding where
  specId : Int
  verified : Bool
  materializedSpecUpdatedAt : Option Time
  materializedSpecHash : Option String

/-- `SELECT … INNER JOIN custom_map_aux_specs … FOR UPDATE OF b`. -/
def lockBindingStmt (mapUid : String) : Sql (Option LockedBinding) where
  tag := .lockBinding mapUid
  run v :=
    match joinBinding v mapUid with
    | none => some ({}, none)
    | some (b, s) =>
        some ({ locks := [⟨⟨.mapListingBind, mapUid⟩, .update⟩] },
          some
            { specId := b.specId
              verified := b.isVerified s
              materializedSpecUpdatedAt := b.materializedSpecUpdatedAt
              materializedSpecHash := b.materializedSpecHash })

/-- The locked binding has the copy of the locked spec's present revision. -/
def LockedBinding.isCurrent (pg : Pg) (b : LockedBinding) (s : SpecRow) : Bool :=
  b.materializedSpecUpdatedAt == some s.updatedAt && b.materializedSpecHash == some (s.specHash pg)

/-- `FOR SHARE` of a binding to the spec that names an author. -/
def shareBindingStmt (mapUid : String) (specId : Int) : Sql (Option BindRow) where
  tag := .named "lock_materialized_spec"
  run v :=
    match v.get ⟨.mapListingBind, mapUid⟩ with
    | none => some ({}, none)
    | some b =>
        if b.specId = specId && b.authorVerifiedAt.isSome then
          some ({ locks := [⟨⟨.mapListingBind, mapUid⟩, .share⟩] }, some b)
        else some ({}, none)

/-- Lock the spec and the binding, then prove that the copy on the map is still the spec's. -/
def lockMaterializedSpec (pg : Pg) (mapUid : String) (specId : Int) : Query DbError Bool := do
  let source ← sql (lockSpecStmt .share specId)
  match source with
  | none => return false
  | some source =>
      let binding ← sql (shareBindingStmt mapUid specId)
      return binding.any fun b =>
        b.verifiedAuthorId == some source.userId &&
          b.materializedSpecUpdatedAt == some source.updatedAt &&
          b.materializedSpecHash == some (source.specHash pg)

/-! ## The author-present bind -/

structure PreparedBind where
  verifiedAuthor : Option Uuid

structure AuthoritativeBindResult where
  specId : Int
  removedHatWearers : List HatOnMapPlayer
  materialized : Bool
  replacedPrevious : Bool

def prepareAuthoritativeBind (reporterId : Uuid) (mapUid : String) (requestedSpecId : Int) :
    Query BindSpecError PreparedBind := do
  let existingBinding ← ExceptT.adapt .ofDb (getSpecBinding mapUid)
  if existingBinding.any fun b => b.verified && b.specId ≠ requestedSpecId then
    throw .conflictingBinding
  else
    let spec ← ExceptT.adapt .ofDb (sql (select "prepare_authoritative_bind" fun v =>
      v.get ⟨.specs, requestedSpecId⟩))
    match spec with
    | none => throw .specNotFound
    | some spec =>
        if existingBinding.any fun b => b.verified then return { verifiedAuthor := none }
        else if spec.userId ≠ reporterId then throw .specNotOwned
        else
          let answer ← askQ (Ask.authorIdForUid reporterId mapUid)
          match answer with
          | .error e => throw (.authorVerification e)
          | .ok nadeoAuthor =>
              if nadeoAuthor ≠ spec.userId then throw .authorMismatch
              else return { verifiedAuthor := some nadeoAuthor }

/-- `INSERT INTO map_listing_bind … SELECT … ON CONFLICT (map_uid) DO NOTHING`. -/
def insertBindingStmt (mapUid : String) (specId : Int) (reporterId : Uuid) (now : Time) :
    Sql Unit where
  tag := .named "commit_authoritative_bind: insert"
  run v :=
    match v.get ⟨.specs, specId⟩ with
    | none => some ({}, ())
    | some s =>
        if s.userId = reporterId && (v.get ⟨.mapListingBind, mapUid⟩).isNone then
          (insertRow .mapListingBind mapUid
            { specId, verified := some (s.userId, now), materialized := none } v).map fun e =>
              (e, ())
        else some ({}, ())

/-- A new content for a row that is there, which may refer to another row than before. -/
def updateRow (t : Table) (k : t.Key) (r : t.Row) (v : Db) : Option DbEffect :=
  if t.check k r && (t.parents k r).all fun p => (v.get p).isSome then
    some
      { writes := [⟨⟨t, k⟩, some r⟩]
        locks := ⟨⟨t, k⟩, .noKeyUpdate⟩ :: (t.parents k r).map fun p => ⟨p, .keyShare⟩ }
  else none

/-- The binding has no author, or not the owner of its spec. -/
def isLegacy (v : Db) (b : BindRow) : Bool :=
  b.authorVerifiedAt.isNone ||
    b.verifiedAuthorId ≠ (v.get ⟨.specs, b.specId⟩).map fun s => s.userId

/-- `UPDATE map_listing_bind` where the binding is not verified. -/
def takeOverBindingStmt (mapUid : String) (specId : Int) (reporterId : Uuid) (now : Time) :
    Sql Unit where
  tag := .named "commit_authoritative_bind: take over"
  run v :=
    match v.get ⟨.mapListingBind, mapUid⟩ with
    | none => some ({}, ())
    | some b =>
        if isLegacy v b then
          (updateRow .mapListingBind mapUid
            { specId, verified := some (reporterId, now), materialized := none } v).map fun e =>
              (e, ())
        else some ({}, ())

/-- The binding that won, locked. -/
def lockWinnerStmt (mapUid : String) : Sql (Option SpecBinding) where
  tag := .named "commit_authoritative_bind: winner"
  run v :=
    match joinBinding v mapUid with
    | none => some ({}, none)
    | some (b, s) =>
        some ({ locks := [⟨⟨.mapListingBind, mapUid⟩, .update⟩] },
          some { specId := b.specId, verified := b.isVerified s })

/-- `UPDATE map_listing_bind SET materialized_spec_… WHERE map_uid = … AND spec_id = …`. -/
def setMaterializedStmt (mapUid : String) (specId : Int) (updatedAt : Time) (hash : String) :
    Sql Unit where
  tag := .named "set materialized"
  run v :=
    match v.get ⟨.mapListingBind, mapUid⟩ with
    | none => some ({}, ())
    | some b =>
        if b.specId = specId then
          let b' := { b with materialized := some (updatedAt, hash) }
          some ({ writes := [⟨⟨.mapListingBind, mapUid⟩, some b'⟩] }, ())
        else some ({}, ())

/-- The statements both binds run once the binding row is theirs: replace the catalogs of the spec,
copy them onto the map, and record the revision. -/
def materializeInTx (pg : Pg) (mapUid : String) (specId : Int) (spec : SpecRow)
    (games : List CatalogGame) (collectibles : List CatalogCollectible) (hats : List CatalogHat) :
    Query DbError (List HatOnMapPlayer) := do
  Minigames.replaceCatalogInTx specId spec.userId spec.nameId games
  Collectibles.replaceCatalogInTx specId spec.userId spec.nameId collectibles
  Hats.replaceCatalogInTx specId spec.userId spec.nameId hats
  let _ ← Minigames.bindMapFromCatalogInTx pg mapUid specId
  let _ ← Collectibles.bindMapFromCatalogInTx pg mapUid specId
  let hatBind ← Hats.bindMapFromCatalogInTx pg mapUid specId
  sql (setMaterializedStmt mapUid specId spec.updatedAt (spec.specHash pg))
  return hatBind.removedWearers

def commitAuthoritativeBind (pg : Pg) (prepared : PreparedBind) (reporterId : Uuid)
    (mapUid : String) (requestedSpecId : Int) : Query BindSpecError AuthoritativeBindResult :=
  transaction do
    let now ← askQ Ask.now
    let lockedSpec ← ExceptT.adapt .ofDb (sql (lockSpecStmt .update requestedSpecId))
    match lockedSpec with
    | none => throw .specNotFound
    | some lockedSpec =>
    let lockedBinding ← ExceptT.adapt .ofDb (sql (lockBindingStmt mapUid))
    let needsVerification := !(lockedBinding.any fun b => b.verified)
    if needsVerification && lockedSpec.userId ≠ reporterId then throw .specNotOwned
    else if needsVerification && prepared.verifiedAuthor ≠ some lockedSpec.userId then
      throw (.authorVerification "map author was not verified for this binding attempt")
    else
    let recoveringLegacy := lockedBinding.any fun b => !b.verified
    if lockedBinding.any fun b => b.verified && b.specId ≠ requestedSpecId then
      throw .conflictingBinding
    else if lockedBinding.any fun b => b.verified && b.isCurrent pg lockedSpec then
      ExceptT.adapt .ofDb commitQ
      return { specId := (lockedBinding.map fun b => b.specId).getD requestedSpecId
               removedHatWearers := [], materialized := false, replacedPrevious := false }
    else
    let games ← liftE .catalog (parseCatalogGames (pg.value lockedSpec.spec))
    let collectibleRows ← liftE .catalog (parseCatalogCollectibles (pg.value lockedSpec.spec))
    let hatRows ← liftE .catalog (parseCatalogHats (pg.value lockedSpec.spec))
    ExceptT.adapt .ofDb (sql (insertBindingStmt mapUid requestedSpecId reporterId now))
    ExceptT.adapt .ofDb (sql (takeOverBindingStmt mapUid requestedSpecId reporterId now))
    let winner ← ExceptT.adapt .ofDb (sql (lockWinnerStmt mapUid))
    match winner with
    | none => throw .specNotFound
    | some winner =>
    if winner.specId ≠ requestedSpecId then throw .conflictingBinding
    else if !winner.verified then throw (.authorVerification "binding was not durably verified")
    else
    let purged ← ExceptT.adapt .ofDb
      (if recoveringLegacy then Hats.purgeMapEquipmentInTx mapUid else return [])
    let removed ← ExceptT.adapt .ofDb
      (materializeInTx pg mapUid requestedSpecId lockedSpec games collectibleRows hatRows)
    ExceptT.adapt .ofDb commitQ
    return { specId := winner.specId, removedHatWearers := purged ++ removed, materialized := true
             replacedPrevious := recoveringLegacy }

/-- Both phases back to back. -/
def bindAuthoritativeSpec (pg : Pg) (reporterId : Uuid) (mapUid : String)
    (requestedSpecId : Int) : Query BindSpecError AuthoritativeBindResult := do
  let prepared ← prepareAuthoritativeBind reporterId mapUid requestedSpecId
  commitAuthoritativeBind pg prepared reporterId mapUid requestedSpecId

/-! ## The bind by published comment -/

/-- `INSERT INTO map_listing_bind … ON CONFLICT (map_uid) DO UPDATE`. -/
def upsertBindingStmt (mapUid : String) (specId : Int) (owner : Uuid) (now : Time) : Sql Unit where
  tag := .named "commit_comment_bind: upsert"
  run v :=
    (updateRow .mapListingBind mapUid
      { specId, verified := some (owner, now), materialized := none } v).map fun e => (e, ())

def commitCommentBind (pg : Pg) (mapUid : String) (specId : Int) :
    Query BindSpecError AuthoritativeBindResult :=
  transaction do
    let now ← askQ Ask.now
    let lockedSpec ← ExceptT.adapt .ofDb (sql (lockSpecStmt .update specId))
    match lockedSpec with
    | none => throw .specNotFound
    | some lockedSpec =>
    let lockedBinding ← ExceptT.adapt .ofDb (sql (lockBindingStmt mapUid))
    let replacedPrevious := lockedBinding.any fun b => b.specId ≠ specId
    if lockedBinding.any fun b =>
        !replacedPrevious && b.verified && b.isCurrent pg lockedSpec then
      ExceptT.adapt .ofDb commitQ
      return { specId, removedHatWearers := [], materialized := false, replacedPrevious := false }
    else
    let games ← liftE .catalog (parseCatalogGames (pg.value lockedSpec.spec))
    let collectibleRows ← liftE .catalog (parseCatalogCollectibles (pg.value lockedSpec.spec))
    let hatRows ← liftE .catalog (parseCatalogHats (pg.value lockedSpec.spec))
    ExceptT.adapt .ofDb (sql (upsertBindingStmt mapUid specId lockedSpec.userId now))
    let removedHatWearers ← ExceptT.adapt .ofDb
      (if replacedPrevious then Hats.purgeMapEquipmentInTx mapUid else return [])
    -- the wearers this rematerialization takes off are not kept
    let _ ← ExceptT.adapt .ofDb
      (materializeInTx pg mapUid specId lockedSpec games collectibleRows hatRows)
    ExceptT.adapt .ofDb commitQ
    return { specId, removedHatWearers, materialized := true, replacedPrevious }

def bindFromResolvedComment (pg : Pg) (mapUid : String) (wsid : Uuid) (nameId : String) :
    Query BindSpecError AuthoritativeBindResult := do
  let row ← ExceptT.adapt .ofDb (sql (selectAs (.resolveComment wsid nameId) fun v =>
    (CustomMapAuxSpecs.find v wsid nameId).map Prod.fst))
  match row with
  | none => throw .specNotFound
  | some id => commitCommentBind pg mapUid id

end ListedMaps

end Dd2Server
