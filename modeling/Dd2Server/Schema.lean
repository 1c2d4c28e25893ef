import Dd2Server.Catalog
import Dd2Server.ReadCommitted.Transaction

/-!
# The tables of the aux specs, their bindings and what players do on bound maps

One row type for each table, keyed by its primary key or by the unique index the statements go
through.  The index of `custom_map_aux_specs` on `(user_id, name_id)` is the table `specNames`.
A pair of columns that a `CHECK` keeps `NULL` together is one optional pair.

`Pg` stands for what PostgreSQL and the driver compute: the canonical text of a JSONB value, the
value the driver reads back from it, and `md5`.
-/

namespace Dd2Server

open ReadCommitted

/-- An account id. -/
abbrev Uuid := BitVec 128

/-- A `TIMESTAMPTZ` in microseconds. -/
abbrev Time := Int

/-- The functions of PostgreSQL and its driver. -/
structure Pg where
  /-- The canonical text of a value stored as JSONB. -/
  jsonb : Value → String
  /-- The value the driver reads from a JSONB column. -/
  value : String → Value
  md5 : String → String

/-! ## Rows -/

inductive Table
  | users
  | displayNames
  | specs
  | specNames
  | minigameCatalog
  | collectibleCatalog
  | hatCatalog
  | mapListingBind
  | minigameOnMap
  | collectibleOnMap
  | hatOnMap
  | hatUnlock
  | hatEquipped
  | minigamePb
  | minigameAttempt
  | collectibleProgress
  | collectibleCollectLog
  | mapCurrHeights
  deriving DecidableEq

/-- A row of `users`. -/
structure UserRow where
  displayName : String
  lastLoginTs : Time
  deriving DecidableEq

/-- A row of `custom_map_aux_specs`; `spec` is the text of the JSONB column. -/
structure SpecRow where
  userId : Uuid
  nameId : String
  spec : String
  hitCounter : Int
  createdAt : Time
  updatedAt : Time
  listingThreshold : Int
  deriving DecidableEq

/-- The generated column `spec_hash`. -/
def SpecRow.specHash (pg : Pg) (r : SpecRow) : String := pg.md5 r.spec

/-- A row of `minigame_catalog`, keyed by owner, name and slug. -/
structure MinigameCatalogRow where
  specId : Option Int
  kind : String
  name : String
  lowerIsBetter : Bool
  deriving DecidableEq

/-- A row of `collectible_catalog`, keyed by spec and slug. -/
structure CollectibleCatalogRow where
  userId : Uuid
  nameId : String
  name : String
  pickup : String
  collectOnUnlock : Bool
  hasZone : Bool
  gatedBy : Option String
  unlockScore : Option Int
  deriving DecidableEq

/-- A row of `hat_catalog`, keyed by spec and slug. -/
structure HatCatalogRow where
  userId : Uuid
  nameId : String
  name : String
  finishThisMap : Bool
  recordUids : List String
  deriving DecidableEq

/-- A row of `map_listing_bind`, keyed by map: the verification is the author and its time, the
materialization is the spec's `updated_at` and hash. -/
structure BindRow where
  specId : Int
  verified : Option (Uuid × Time)
  materialized : Option (Time × String)
  deriving DecidableEq

namespace BindRow

def verifiedAuthorId (b : BindRow) : Option Uuid := b.verified.map Prod.fst

def authorVerifiedAt (b : BindRow) : Option Time := b.verified.map Prod.snd

def materializedSpecUpdatedAt (b : BindRow) : Option Time := b.materialized.map Prod.fst

def materializedSpecHash (b : BindRow) : Option String := b.materialized.map Prod.snd

end BindRow

/-- A row of `minigame_on_map`, keyed by map and slug. -/
structure MinigameOnMapRow where
  minigameKey : String
  kind : String
  name : String
  specUser : Uuid
  nameId : String
  deriving DecidableEq

/-- A row of `collectible_on_map`, keyed by map and slug. -/
structure CollectibleOnMapRow where
  collectibleKey : String
  name : String
  pickup : String
  collectOnUnlock : Bool
  hasZone : Bool
  gatedBy : Option String
  unlockScore : Option Int
  specUser : Uuid
  nameId : String
  deriving DecidableEq

/-- A row of `hat_on_map`, keyed by map and slug. -/
structure HatOnMapRow where
  hatKey : String
  name : String
  finishThisMap : Bool
  recordUids : List String
  specUser : Uuid
  nameId : String
  deriving DecidableEq

/-- A row of `hat_unlock`, keyed by user and hat key. -/
structure HatUnlockRow where
  mapUid : String
  slug : String
  unlockedAt : Time
  deriving DecidableEq

/-- A row of `hat_equipped`, keyed by user and map. -/
structure HatEquippedRow where
  slug : String
  hatKey : String
  updatedAt : Time
  deriving DecidableEq

/-- A row of `minigame_pb`, keyed by user and minigame key. -/
structure MinigamePbRow where
  mapUid : String
  slug : String
  score : Int
  finishCount : Int
  attemptCount : Int
  lastPlayed : Time
  updatedAt : Time
  deriving DecidableEq

/-- A row of `minigame_attempt`, keyed by its serial id. -/
structure MinigameAttemptRow where
  userId : Uuid
  minigameKey : String
  mapUid : String
  slug : String
  elapsedMs : Int
  status : String
  createdAt : Time
  deriving DecidableEq

/-- A row of `collectible_progress`, keyed by user and collectible key. -/
structure CollectibleProgressRow where
  mapUid : String
  slug : String
  unlockedAt : Option Time
  collectedAt : Option Time
  deriving DecidableEq

/-- A binary32 number by its bits. -/
structure F32 where
  bits : BitVec 32
  deriving DecidableEq

/-- A row of `collectible_collect_log`, keyed by user and collectible key.  The three `DOUBLE
PRECISION` columns hold binary32 numbers, which they keep exactly; old rows have none. -/
structure CollectLogRow where
  mapUid : String
  slug : String
  collectedAt : Time
  pos : Option (F32 × F32 × F32)
  source : String
  deriving DecidableEq

/-- A row of `map_curr_heights`, keyed by user and map. -/
structure MapCurrHeightRow where
  updatedAt : Time
  deriving DecidableEq

@[reducible] def Table.Key : Table → Type
  | .users => Uuid
  | .displayNames => Uuid × Time
  | .specs => Int
  | .specNames => Uuid × String
  | .minigameCatalog => Uuid × String × String
  | .collectibleCatalog => Int × String
  | .hatCatalog => Int × String
  | .mapListingBind => String
  | .minigameOnMap => String × String
  | .collectibleOnMap => String × String
  | .hatOnMap => String × String
  | .hatUnlock => Uuid × String
  | .hatEquipped => Uuid × String
  | .minigamePb => Uuid × String
  | .minigameAttempt => Int
  | .collectibleProgress => Uuid × String
  | .collectibleCollectLog => Uuid × String
  | .mapCurrHeights => Uuid × String

@[reducible] def Table.Row : Table → Type
  | .users => UserRow
  | .displayNames => String
  | .specs => SpecRow
  | .specNames => Int
  | .minigameCatalog => MinigameCatalogRow
  | .collectibleCatalog => CollectibleCatalogRow
  | .hatCatalog => HatCatalogRow
  | .mapListingBind => BindRow
  | .minigameOnMap => MinigameOnMapRow
  | .collectibleOnMap => CollectibleOnMapRow
  | .hatOnMap => HatOnMapRow
  | .hatUnlock => HatUnlockRow
  | .hatEquipped => HatEquippedRow
  | .minigamePb => MinigamePbRow
  | .minigameAttempt => MinigameAttemptRow
  | .collectibleProgress => CollectibleProgressRow
  | .collectibleCollectLog => CollectLogRow
  | .mapCurrHeights => MapCurrHeightRow

instance : ∀ t : Table, DecidableEq t.Key
  | .users | .displayNames | .specs | .specNames | .minigameCatalog | .collectibleCatalog
  | .hatCatalog | .mapListingBind | .minigameOnMap | .collectibleOnMap | .hatOnMap | .hatUnlock
  | .hatEquipped | .minigamePb | .minigameAttempt | .collectibleProgress | .collectibleCollectLog
  | .mapCurrHeights => inferInstance

/-- The committed rows, or a view of them. -/
abbrev Db := Store Table.Key Table.Row

abbrev DbKey := RowKey Table.Key

abbrev DbWrite := Write Table.Key Table.Row

abbrev DbEffect := Effect Table.Key Table.Row

/-! ## Constraints -/

def minigameKinds : List String :=
  ["Sprint", "Survival", "Darts", "HighJump", "LongJump", "MaxAvgSpeed"]

/-- The declared lengths and `CHECK`s of a row.  A longer text of which the excess is spaces is cut
by PostgreSQL and refused here. -/
def Table.check : (t : Table) → t.Key → t.Row → Bool
  | .users, _, r => r.displayName.length ≤ 75
  | .displayNames, _, name => name.length ≤ 75
  | .specs, _, r =>
      r.nameId.length ≤ 32 && 5 ≤ r.listingThreshold && r.listingThreshold ≤ 100
  | .specNames, _, _ => true
  | .minigameCatalog, (_, nameId, _), r =>
      nameId.length ≤ 32 && minigameKinds.contains r.kind &&
        r.lowerIsBetter == decide (r.kind = "Sprint")
  | .collectibleCatalog, _, r =>
      r.nameId.length ≤ 32 && ["zone", "grant"].contains r.pickup &&
        (r.collectOnUnlock || r.hasZone)
  | .hatCatalog, _, r => r.nameId.length ≤ 32
  | .mapListingBind, mapUid, _ => mapUid.length ≤ 27
  | .minigameOnMap, (mapUid, _), r =>
      mapUid.length ≤ 27 && r.nameId.length ≤ 32 && minigameKinds.contains r.kind
  | .collectibleOnMap, (mapUid, _), r =>
      mapUid.length ≤ 27 && r.nameId.length ≤ 32 && (r.collectOnUnlock || r.hasZone)
  | .hatOnMap, (mapUid, _), r => mapUid.length ≤ 27 && r.nameId.length ≤ 32
  | .hatUnlock, _, r => r.mapUid.length ≤ 27
  | .hatEquipped, (_, mapUid), _ => mapUid.length ≤ 27
  | .minigamePb, _, r =>
      r.mapUid.length ≤ 27 && 0 ≤ r.score && r.finishCount < 2 ^ 31 && r.attemptCount < 2 ^ 31
  | .minigameAttempt, _, r =>
      r.mapUid.length ≤ 27 && ["finish", "cancel"].contains r.status &&
        (r.status ≠ "finish" || 0 ≤ r.elapsedMs)
  | .collectibleProgress, _, r => r.mapUid.length ≤ 27
  | .collectibleCollectLog, _, r =>
      r.mapUid.length ≤ 27 && ["zone", "grant"].contains r.source && r.pos.isSome
  | .mapCurrHeights, _, _ => true

/-- The rows a row refers to. -/
def Table.parents : (t : Table) → t.Key → t.Row → List DbKey
  | .displayNames, (userId, _), _ => [⟨.users, userId⟩]
  | .specs, _, r => [⟨.users, r.userId⟩]
  | .minigameCatalog, (userId, _, _), r =>
      ⟨.users, userId⟩ :: (r.specId.toList.map fun s => ⟨.specs, s⟩)
  | .collectibleCatalog, (specId, _), r => [⟨.specs, specId⟩, ⟨.users, r.userId⟩]
  | .hatCatalog, (specId, _), r => [⟨.specs, specId⟩, ⟨.users, r.userId⟩]
  | .mapListingBind, _, r => [⟨.specs, r.specId⟩]
  | .minigameOnMap, _, r => [⟨.users, r.specUser⟩]
  | .collectibleOnMap, _, r => [⟨.users, r.specUser⟩]
  | .hatOnMap, _, r => [⟨.users, r.specUser⟩]
  | .hatUnlock, (userId, _), _ => [⟨.users, userId⟩]
  | .hatEquipped, (userId, _), _ => [⟨.users, userId⟩]
  | .minigamePb, (userId, _), _ => [⟨.users, userId⟩]
  | .minigameAttempt, _, r => [⟨.users, r.userId⟩]
  | .collectibleProgress, (userId, _), _ => [⟨.users, userId⟩]
  | .collectibleCollectLog, (userId, _), _ => [⟨.users, userId⟩]
  | .mapCurrHeights, (userId, _), _ => [⟨.users, userId⟩]
  | _, _, _ => []

/-- The row may be inserted: its checks pass, its key is free, its parents are there. -/
def insertable (t : Table) (k : t.Key) (r : t.Row) (v : Db) : Bool :=
  t.check k r && (v.get ⟨t, k⟩).isNone && (t.parents k r).all fun p => (v.get p).isSome

/-- `INSERT` of one row. -/
def insertRow (t : Table) (k : t.Key) (r : t.Row) (v : Db) : Option DbEffect :=
  if insertable t k r v then
    some
      { writes := [⟨⟨t, k⟩, some r⟩],
        locks := (t.parents k r).map fun p => ⟨p, .keyShare⟩ }
  else none

/-- `INSERT` of rows whose keys differ from each other. -/
def insertRows (t : Table) (rs : List (t.Key × t.Row)) (v : Db) : Option DbEffect :=
  if (rs.map Prod.fst).Nodup ∧ rs.all (fun p => insertable t p.1 p.2 v) then
    some
      { writes := Store.insertions t rs
        locks := rs.flatMap fun p => (t.parents p.1 p.2).map fun q => ⟨q, .keyShare⟩ }
  else none

theorem free_of_insertable {t : Table} {k : t.Key} {r : t.Row} {v : Db}
    (h : insertable t k r v = true) : v.get ⟨t, k⟩ = none := by
  simp only [insertable, Bool.and_eq_true, Option.isNone_iff_eq_none] at h
  exact h.1.2

theorem insertRow_eq_some {t : Table} {k : t.Key} {r : t.Row} {v : Db} {e : DbEffect} :
    insertRow t k r v = some e ↔ insertable t k r v = true ∧
      e =
        { writes := [⟨⟨t, k⟩, some r⟩], locks := (t.parents k r).map fun p => ⟨p,
          .keyShare⟩ } := by
  rw [insertRow, Option.ite_none_right_eq_some, Option.some.injEq, eq_comm (b := e)]

theorem insertRows_eq_some {t : Table} {rs : List (t.Key × t.Row)} {v : Db} {e : DbEffect} :
    insertRows t rs v = some e ↔
      ((rs.map Prod.fst).Nodup ∧ rs.all (fun p => insertable t p.1 p.2 v) = true) ∧
      e = { writes := Store.insertions t rs
            locks := rs.flatMap fun p => (t.parents p.1 p.2).map fun q => ⟨q, .keyShare⟩ } := by
  rw [insertRows, Option.ite_none_right_eq_some, Option.some.injEq, eq_comm (b := e)]

/-- The rows of a table that a `WHERE` selects. -/
def selectWhere (t : Table) (p : t.Key → t.Row → Bool) (v : Db) : List (t.Key × t.Row) :=
  (v.rows t).filter fun e => p e.1 e.2

/-- The writes of a `DELETE`. -/
def deleteWhere (t : Table) (p : t.Key → t.Row → Bool) (v : Db) : List DbWrite :=
  Store.removals t ((selectWhere t p v).map Prod.fst)

theorem mem_selectWhere {t : Table} {p : t.Key → t.Row → Bool} {v : Db}
    {k : t.Key} {r : t.Row} :
    (k, r) ∈ selectWhere t p v ↔ v.get ⟨t, k⟩ = some r ∧ p k r = true := by
  simp only [selectWhere, List.mem_filter, Store.mem_rows]

/-- What a `DELETE` computed on the view `v` does to a view `v'`. -/
theorem get_deleteWhere {t : Table} {p : t.Key → t.Row → Bool} (v v' : Db) (k : t.Key) :
    (Store.view (deleteWhere t p v) v').get ⟨t, k⟩ =
      if ∃ r, v.get ⟨t, k⟩ = some r ∧ p k r = true then none else v'.get ⟨t, k⟩ := by
  have hiff : k ∈ (selectWhere t p v).map Prod.fst ↔ ∃ r, v.get ⟨t, k⟩ = some r ∧
      p k r = true := by
    constructor
    · intro h
      obtain ⟨⟨k', r⟩, he, rfl⟩ := List.mem_map.1 h
      exact ⟨r, mem_selectWhere.1 he⟩
    · rintro ⟨r, hr⟩
      exact List.mem_map.2 ⟨(k, r), mem_selectWhere.2 hr, rfl⟩
  simp only [deleteWhere, Store.get_view_removals, hiff]

theorem deleteWhere_row {t : Table} {p : t.Key → t.Row → Bool} {v : Db} {w : DbWrite}
    (h : w ∈ deleteWhere t p v) : ∃ k r, w.row = ⟨t, k⟩ ∧ v.get ⟨t, k⟩ = some r ∧
    p k r = true := by
  obtain ⟨k, hk, he⟩ := Store.removals_row h
  obtain ⟨⟨k', r⟩, hm, rfl⟩ := List.mem_map.1 hk
  exact ⟨k', r, he, mem_selectWhere.1 hm⟩

end Dd2Server
