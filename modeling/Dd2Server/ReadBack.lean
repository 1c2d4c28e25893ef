import Dd2Server.DefaultSlugs
import Dd2Server.Protocol

/-!
# A spec read back from its JSONB column

JSONB keeps the shape of a value, its strings and its booleans.  A number is stored as the decimal
that was written, and an `f64` from 10^16 on is written with an exponent and printed without one, so
that it may come back as an integer.  The catalogs read a number in two places: the `type` of a
minigame and the score of a collectible.
-/

namespace Dd2Server

namespace Value

mutual

/-- The value with its numbers replaced. -/
def mapNumbers (f : Number → Number) : Value → Value
  | .null => .null
  | .bool b => .bool b
  | .number n => .number (f n)
  | .string s => .string s
  | .array items => .array (mapItems f items)
  | .object fields => .object (mapFields f fields)

def mapItems (f : Number → Number) : List Value → List Value
  | [] => []
  | v :: items => mapNumbers f v :: mapItems f items

def mapFields (f : Number → Number) : List (String × Value) → List (String × Value)
  | [] => []
  | (key, v) :: fields => (key, mapNumbers f v) :: mapFields f fields

end

section

variable {f : Number → Number}

theorem mapItems_eq_map (items : List Value) : mapItems f items = items.map (mapNumbers f) := by
  induction items with
  | nil => rfl
  | cons v items ih => rw [mapItems, List.map_cons, ih]

theorem lookup_mapFields (fields : List (String × Value)) (key : String) :
    (mapFields f fields).lookup key = (fields.lookup key).map (mapNumbers f) := by
  induction fields with
  | nil => rfl
  | cons field fields ih =>
      obtain ⟨k, v⟩ := field
      rw [mapFields, List.lookup_cons, List.lookup_cons]
      cases key == k with
      | true => rfl
      | false => exact ih

@[simp]
theorem get_mapNumbers (v : Value) (key : String) :
    (v.mapNumbers f).get key = (v.get key).map (mapNumbers f) := by
  cases v with
  | object fields => exact lookup_mapFields fields key
  | _ => rfl

@[simp]
theorem asStr_mapNumbers (v : Value) : (v.mapNumbers f).asStr = v.asStr := by cases v <;> rfl

@[simp]
theorem asBool_mapNumbers (v : Value) : (v.mapNumbers f).asBool = v.asBool := by cases v <;> rfl

@[simp]
theorem isObject_mapNumbers (v : Value) : (v.mapNumbers f).isObject = v.isObject := by
  cases v <;> rfl

@[simp]
theorem asArray_mapNumbers (v : Value) :
    (v.mapNumbers f).asArray = v.asArray.map (List.map (mapNumbers f)) := by
  cases v with
  | array items => exact congrArg some (mapItems_eq_map items)
  | _ => rfl

/-- What does not look at numbers reads the same. -/
theorem bind_mapNumbers {α : Type} {read : Value → Option α}
    (hread : ∀ v, read (mapNumbers f v) = read v) (o : Option Value) :
    (o.map (mapNumbers f)).bind read = o.bind read := by
  cases o with
  | none => rfl
  | some v => exact hread v

/-- What finds a list of values finds the same list. -/
theorem bind_mapNumbers_list {read : Value → Option (List Value)}
    (hread : ∀ v, read (mapNumbers f v) = (read v).map (List.map (mapNumbers f)))
    (o : Option Value) :
    (o.map (mapNumbers f)).bind read = (o.bind read).map (List.map (mapNumbers f)) := by
  cases o with
  | none => rfl
  | some v => exact hread v

theorem getD_mapNumbers (o : Option (List Value)) :
    (o.map (List.map (mapNumbers f))).getD [] = (o.getD []).map (mapNumbers f) := by cases o <;> rfl

end

end Value

open Value

section

variable {f : Number → Number}

/-! ## Entries -/

theorem slugOr_mapNumbers (catalog : String) (item : Value) (dflt : String) :
    slugOr catalog (item.mapNumbers f) dflt = slugOr catalog item dflt := by
  rw [slugOr, slugOr, get_mapNumbers]
  cases item.get "slug" with
  | none => rfl
  | some value => simp only [Option.map_some, asStr_mapNumbers]

theorem nameOr_mapNumbers (item : Value) (slug : String) :
    nameOr (item.mapNumbers f) slug = nameOr item slug := by
  rw [nameOr, nameOr, get_mapNumbers, bind_mapNumbers asStr_mapNumbers]

theorem itemsOf_mapNumbers (v : Value) :
    itemsOf (v.mapNumbers f) = (itemsOf v).map (List.map (mapNumbers f)) := by
  simp only [itemsOf, get_mapNumbers, asArray_mapNumbers, bind_mapNumbers_list asArray_mapNumbers,
    Option.map_or]

theorem parseCollectPaths_mapNumbers (item : Value) :
    parseCollectPaths (item.mapNumbers f) = parseCollectPaths item := by
  have hzone : ∀ o : Option Value, (o.map (mapNumbers f)).any isObject = o.any isObject := by
    intro o
    cases o with
    | none => rfl
    | some v => exact isObject_mapNumbers v
  simp only [parseCollectPaths, get_mapNumbers, bind_mapNumbers asBool_mapNumbers,
    bind_mapNumbers asStr_mapNumbers, Option.isSome_map, hzone]

theorem parseGatedBy_mapNumbers (item : Value) :
    parseGatedBy (item.mapNumbers f) = parseGatedBy item := by
  simp only [parseGatedBy, get_mapNumbers, ← Option.map_or, bind_mapNumbers asStr_mapNumbers]

theorem recordUidsFrom_mapNumbers (seen : List String) (vs : List Value) :
    recordUidsFrom seen (vs.map (mapNumbers f)) = recordUidsFrom seen vs := by
  induction vs generalizing seen with
  | nil => rfl
  | cons v vs ih => simp only [List.map_cons, recordUidsFrom, asStr_mapNumbers, ih]

theorem parseUnlock_mapNumbers (item : Value) :
    parseUnlock (item.mapNumbers f) = parseUnlock item := by
  rw [parseUnlock, parseUnlock, get_mapNumbers]
  cases item.get "unlock" with
  | none => rfl
  | some unlock =>
      simp only [Option.map_some, get_mapNumbers, ← Option.map_or,
        bind_mapNumbers asBool_mapNumbers, bind_mapNumbers_list asArray_mapNumbers, getD_mapNumbers,
          recordUidsFrom_mapNumbers]

/-! ## Catalogs -/

theorem catalogGamesFrom_mapNumbers (seen : List String) (kindCounts : String → Nat)
    {games : List Value}
    (h : ∀ g ∈ games, mapKindFromGame (g.mapNumbers f) = mapKindFromGame g) :
    catalogGamesFrom seen kindCounts (games.map (mapNumbers f)) =
      catalogGamesFrom seen kindCounts games := by
  induction games generalizing seen kindCounts with
  | nil => rfl
  | cons g games ih =>
      have ih := fun seen kindCounts => ih seen kindCounts fun g hg =>
        h g (List.mem_cons_of_mem _ hg)
      simp only [List.map_cons, catalogGamesFrom, isObject_mapNumbers, h g List.mem_cons_self,
        slugOr_mapNumbers, get_mapNumbers, bind_mapNumbers asStr_mapNumbers, ih]

theorem catalogCollectiblesFrom_mapNumbers (seen : List String) (nextDefault : Nat)
    {items : List Value}
    (h : ∀ item ∈ items, parseUnlockScore (item.mapNumbers f) = parseUnlockScore item) :
    catalogCollectiblesFrom seen nextDefault (items.map (mapNumbers f)) =
      catalogCollectiblesFrom seen nextDefault items := by
  induction items generalizing seen nextDefault with
  | nil => rfl
  | cons item items ih =>
      have ih := fun seen nextDefault => ih seen nextDefault fun x hx =>
        h x (List.mem_cons_of_mem _ hx)
      simp only [List.map_cons, catalogCollectiblesFrom, isObject_mapNumbers,
        parseCollectPaths_mapNumbers, slugOr_mapNumbers, nameOr_mapNumbers, parseGatedBy_mapNumbers,
          h item List.mem_cons_self, ih]

theorem catalogHatsFrom_mapNumbers (seen : List String) (nextDefault : Nat) (items : List Value) :
    catalogHatsFrom seen nextDefault (items.map (mapNumbers f)) =
      catalogHatsFrom seen nextDefault items := by
  induction items generalizing seen nextDefault with
  | nil => rfl
  | cons item items ih =>
      simp only [List.map_cons, catalogHatsFrom, isObject_mapNumbers, slugOr_mapNumbers,
        nameOr_mapNumbers, parseUnlock_mapNumbers, ih]

/-- The numbers the catalogs of a spec read keep their readings. -/
structure KeepsReadings (f : Number → Number) (spec : Value) : Prop where
  kinds : ∀ g ∈ gamesOf spec, mapKindFromGame (g.mapNumbers f) = mapKindFromGame g
  scores : ∀ item ∈ (collectibleArray spec).getD [],
    parseUnlockScore (item.mapNumbers f) = parseUnlockScore item

/-- The score 1e19 is too large for an `i64` on upload, and a wrapped `u64` once it is stored. -/
example : (Value.number (.float (10 ^ 19))).toI64 = some (2 ^ 63 - 1) ∧
    (Value.number (.int (10 ^ 19))).toI64 = some (10 ^ 19 - 2 ^ 64) := by decide

variable {spec : Value}

theorem gamesOf_mapNumbers : gamesOf (spec.mapNumbers f) = (gamesOf spec).map (mapNumbers f) := by
  rw [gamesOf, gamesOf, get_mapNumbers, ← getD_mapNumbers]
  cases spec.get "minigames" with
  | none => rfl
  | some m =>
      rw [Option.map_some, Option.bind_some, Option.bind_some, get_mapNumbers,
        bind_mapNumbers_list asArray_mapNumbers]

theorem KeepsReadings.games (h : KeepsReadings f spec) :
    parseCatalogGames (spec.mapNumbers f) = parseCatalogGames spec := by
  rw [parseCatalogGames_eq, parseCatalogGames_eq, gamesOf_mapNumbers]
  exact catalogGamesFrom_mapNumbers [] _ h.kinds

theorem KeepsReadings.collectibles (h : KeepsReadings f spec) :
    parseCatalogCollectibles (spec.mapNumbers f) = parseCatalogCollectibles spec := by
  have harray : collectibleArray (spec.mapNumbers f) = (collectibleArray spec).map
      (List.map (mapNumbers f)) := by
    simp only [collectibleArray, get_mapNumbers, bind_mapNumbers_list itemsOf_mapNumbers,
      Option.map_or]
  rw [parseCatalogCollectibles_eq, parseCatalogCollectibles_eq, harray, getD_mapNumbers]
  exact catalogCollectiblesFrom_mapNumbers [] 1 h.scores

theorem parseCatalogHats_mapNumbers :
    parseCatalogHats (spec.mapNumbers f) = parseCatalogHats spec := by
  rw [parseCatalogHats_eq, parseCatalogHats_eq, hatsArray, hatsArray, get_mapNumbers,
    bind_mapNumbers_list itemsOf_mapNumbers, getD_mapNumbers]
  exact catalogHatsFrom_mapNumbers [] 1 _

/-- The catalogs do not depend on any other number. -/
theorem KeepsReadings.catalogs (h : KeepsReadings f spec) :
    parseCatalogs (spec.mapNumbers f) = parseCatalogs spec := by
  rw [parseCatalogs, parseCatalogs, h.games, h.collectibles, parseCatalogHats_mapNumbers]

end

end Dd2Server
