import Dd2Server.Json

/-!
# Catalogs of an aux spec

The three parsers `parse_catalog_games`, `parse_catalog_collectibles` and `parse_catalog_hats` read
the entries of a spec's JSON.  Each walks its array once, with the slugs seen so far and the state
of its default slugs, and stops at the first entry whose slug is blank or taken.
-/

namespace Dd2Server

/-- Why a spec is refused. -/
inductive CatalogValidationError
  | blankSlug (catalog : String)
  | duplicateSlug (catalog slug : String)
  | duplicateRecordUid (uid : String)
  deriving DecidableEq

/-- The `Display` text of the error. -/
def CatalogValidationError.text : CatalogValidationError → String
  | .blankSlug catalog => "explicit " ++ catalog ++ " slug is blank after canonicalization"
  | .duplicateSlug catalog slug =>
      "duplicate " ++ catalog ++ " slug after canonicalization: " ++ slug
  | .duplicateRecordUid uid => "duplicate hat record UID after canonicalization: " ++ uid

/-- A minigame of a catalog. -/
structure CatalogGame where
  slug : String
  kind : String
  name : String
  lowerIsBetter : Bool
  deriving DecidableEq

/-- A collectible of a catalog. -/
structure CatalogCollectible where
  slug : String
  name : String
  pickup : String
  collectOnUnlock : Bool
  hasZone : Bool
  gatedBy : Option String
  unlockScore : Option Int
  deriving DecidableEq

/-- A hat of a catalog. -/
structure CatalogHat where
  slug : String
  name : String
  finishThisMap : Bool
  recordUids : List String
  deriving DecidableEq

/-- The slug of an entry: the trimmed explicit one, which must not be blank, or the default. -/
def slugOr (catalog : String) (item : Value) (dflt : String) :
    Except CatalogValidationError String :=
  match item.get "slug" with
  | none => .ok dflt
  | some value =>
      match value.asStr with
      | none => .error (.blankSlug catalog)
      | some slug =>
          if Text.trim slug = "" then .error (.blankSlug catalog) else .ok (Text.trim slug)

/-- The trimmed name of an entry, or its slug when there is none. -/
def nameOr (item : Value) (slug : String) : String :=
  match ((item.get "name").bind Value.asStr).map Text.trim with
  | none => slug
  | some name => if name = "" then slug else name

/-- The next default number after a slug that may itself be a numbered one. -/
def nextDefaultAfter (stem slug : String) (nextDefault : Nat) : Nat :=
  match (Text.stripPrefix stem.toList slug.toList).bind Text.parseU32 with
  | none => nextDefault
  | some number => if nextDefault ≤ number then min (number + 1) (2 ^ 32 - 1) else nextDefault

/-- A default slug: the stem and a number. -/
def numbered (stem : String) (n : Nat) : String := stem ++ String.ofList (Text.natChars n)

/-! ## Minigames -/

def mapKindStr : String → Option (String × Bool)
  | "Sprint" => some ("Sprint", true)
  | "TimeTrial" => some ("Sprint", true)
  | "PuzzleLocations" => some ("Sprint", true)
  | "Survival" => some ("Survival", false)
  | "TimeOffGround" => some ("Survival", false)
  | "KingOfTheHill" => some ("Survival", false)
  | "Darts" => some ("Darts", false)
  | "JumpAccuracy" => some ("Darts", false)
  | "HighJump" => some ("HighJump", false)
  | "JumpHigh" => some ("HighJump", false)
  | "LongJump" => some ("LongJump", false)
  | "MaxAvgSpeed" => some ("MaxAvgSpeed", false)
  | _ => none

def mapKindInt : Int → Option (String × Bool)
  | 1 => some ("Sprint", true)
  | 2 => some ("HighJump", false)
  | 3 => some ("Darts", false)
  | 4 => some ("MaxAvgSpeed", false)
  | 5 => some ("Survival", false)
  | 6 => some ("Sprint", true)
  | _ => none

/-- A string `kind` decides when it is not blank, else an integer `type`. -/
def mapKindFromGame (game : Value) : Option (String × Bool) :=
  match ((game.get "kind").bind Value.asStr).map Text.trim with
  | some k => if k = "" then ((game.get "type").bind Value.toI64).bind mapKindInt else mapKindStr k
  | none => ((game.get "type").bind Value.toI64).bind mapKindInt

def catalogGamesFrom (seen : List String) (kindCounts : String → Nat) :
    List Value → Except CatalogValidationError (List CatalogGame)
  | [] => .ok []
  | g :: games =>
      if g.isObject then
        match mapKindFromGame g with
        | none => catalogGamesFrom seen kindCounts games
        | some (kind, lowerIsBetter) => do
            let next := kindCounts kind + 1
            let slug ← slugOr "minigame" g (numbered (kind ++ "-") next)
            if slug ∈ seen then .error (.duplicateSlug "minigame" slug)
            else do
              let name := ((g.get "name").bind Value.asStr).getD ""
              let counts := fun k => if k = kind then next else kindCounts k
              let rest ← catalogGamesFrom (slug :: seen) counts games
              return { slug, kind, name, lowerIsBetter } :: rest
      else catalogGamesFrom seen kindCounts games

/-- The minigames of a spec, from `minigames.games`. -/
def parseCatalogGames (spec : Value) : Except CatalogValidationError (List CatalogGame) :=
  match ((spec.get "minigames").bind fun m => m.get "games").bind Value.asArray with
  | none => .ok []
  | some games => catalogGamesFrom [] (fun _ => 0) games

/-! ## Collectibles -/

/-- The entries under one key: an array, or an object with `items` or `games`. -/
def itemsOf (v : Value) : Option (List Value) :=
  v.asArray.or (((v.get "items").bind Value.asArray).or ((v.get "games").bind Value.asArray))

def collectibleArray (spec : Value) : Option (List Value) :=
  ((spec.get "collectibles").bind itemsOf).or ((spec.get "collectables").bind itemsOf)

/-- `to_ascii_lowercase`. -/
def toAsciiLowercase (s : String) : String := String.ofList (s.toList.map Char.toLower)

/-- Whether an item is collected on unlock, whether it has a zone, and the pickup word older
clients read. -/
def parseCollectPaths (item : Value) : Option (Bool × Bool × String) :=
  let canonicalCollect := (item.get "collectOnUnlock").bind Value.asBool
  let canonicalMarker := (item.get "collectOnUnlock").isSome || (item.get "zone").isSome
  let hasCanonicalZone := (item.get "zone").any Value.isObject
  let legacyPickup := ((item.get "pickup").bind Value.asStr).map fun s =>
    toAsciiLowercase (Text.trim s)
  let legacy : Option (Bool × Bool) :=
    match legacyPickup with
    | some "" => some (false, true)
    | some "zone" => some (false, true)
    | some "grant" => some (true, false)
    | some _ => none
    | none => some (false, !canonicalMarker)
  legacy.bind fun (legacyCollect, legacyZone) =>
    let collectOnUnlock := canonicalCollect.getD false || legacyCollect
    let hasZone := hasCanonicalZone || legacyZone
    if collectOnUnlock || hasZone then
      some (collectOnUnlock, hasZone, if collectOnUnlock then "grant" else "zone")
    else none

def parseUnlockScore (item : Value) : Option Int :=
  ((item.get "unlock_score").or (item.get "unlockScore")).bind Value.toI64

def parseGatedBy (item : Value) : Option String :=
  let s := Text.trim ((((item.get "gated_by").or (item.get "gatedBy")).bind Value.asStr).getD "")
  if s = "" then none else some s

def catalogCollectiblesFrom (seen : List String) (nextDefault : Nat) :
    List Value → Except CatalogValidationError (List CatalogCollectible)
  | [] => .ok []
  | item :: items =>
      if item.isObject then
        match parseCollectPaths item with
        | none => catalogCollectiblesFrom seen nextDefault items
        | some (collectOnUnlock, hasZone, pickup) => do
            let slug ← slugOr "collectible" item (numbered "Collectible-" nextDefault)
            let nextDefault := nextDefaultAfter "Collectible-" slug nextDefault
            if slug ∈ seen then .error (.duplicateSlug "collectible" slug)
            else do
              let entry : CatalogCollectible :=
                { slug, name := nameOr item slug, pickup, collectOnUnlock, hasZone
                  gatedBy := parseGatedBy item, unlockScore := parseUnlockScore item }
              let rest ← catalogCollectiblesFrom (slug :: seen) nextDefault items
              return entry :: rest
      else catalogCollectiblesFrom seen nextDefault items

/-- The collectibles of a spec, from `collectibles` or `collectables`. -/
def parseCatalogCollectibles (spec : Value) :
    Except CatalogValidationError (List CatalogCollectible) :=
  match collectibleArray spec with
  | none => .ok []
  | some items => catalogCollectiblesFrom [] 1 items

/-! ## Hats -/

def hatsArray (spec : Value) : Option (List Value) := (spec.get "hats").bind itemsOf

/-- The record uids of an unlock, trimmed, without blanks. -/
def recordUidsFrom (seen : List String) : List Value → Except CatalogValidationError (List String)
  | [] => .ok []
  | v :: vs =>
      match v.asStr with
      | none => recordUidsFrom seen vs
      | some s =>
          let s := Text.trim s
          if s = "" then recordUidsFrom seen vs
          else if s ∈ seen then .error (.duplicateRecordUid s)
          else do
            let rest ← recordUidsFrom (s :: seen) vs
            return s :: rest

/-- What unlocks a hat: a finish of the map, and records on other maps. -/
def parseUnlock (item : Value) : Except CatalogValidationError (Bool × List String) :=
  match item.get "unlock" with
  | none => .ok (false, [])
  | some unlock => do
      let finish :=
        (((unlock.get "finishThisMap").or (unlock.get "finish_this_map")).bind Value.asBool).getD
          false
      let raw := ((unlock.get "recordUids").or (unlock.get "record_uids")).bind Value.asArray
      let uids ← recordUidsFrom [] (raw.getD [])
      return (finish, uids)

def catalogHatsFrom (seen : List String) (nextDefault : Nat) :
    List Value → Except CatalogValidationError (List CatalogHat)
  | [] => .ok []
  | item :: items =>
      if item.isObject then do
        let slug ← slugOr "hat" item (numbered "Hat-" nextDefault)
        let nextDefault := nextDefaultAfter "Hat-" slug nextDefault
        if slug ∈ seen then .error (.duplicateSlug "hat" slug)
        else do
          let (finishThisMap, recordUids) ← parseUnlock item
          let rest ← catalogHatsFrom (slug :: seen) nextDefault items
          -- an unconditional hat is skipped, and its slug stays taken
          if finishThisMap || !recordUids.isEmpty then
            return { slug, name := nameOr item slug, finishThisMap, recordUids } :: rest
          else return rest
      else catalogHatsFrom seen nextDefault items

/-- The hats of a spec, from `hats`. -/
def parseCatalogHats (spec : Value) : Except CatalogValidationError (List CatalogHat) :=
  match hatsArray spec with
  | none => .ok []
  | some items => catalogHatsFrom [] 1 items

/-! ## Spec JSON -/

/-- The stored JSON drops the identity that reads inject. -/
def stripInjectedSpecId : Value → Value
  | .object fields => .object (fields.filter fun f => f.1 ≠ "specId" ∧ f.1 ≠ "spec_id")
  | v => v

def defaultListingThreshold : Int := 25
def minListingThreshold : Int := 5
def maxListingThreshold : Int := 100

/-- The top-level `listingThreshold`, clamped, or the default. -/
def listingThresholdFromSpec (spec : Value) : Int :=
  match spec.get "listingThreshold" with
  | none => defaultListingThreshold
  | some raw =>
      let n := raw.asI64.or ((raw.asU64.map fun u =>
        if u < 2 ^ 63 then u else maxListingThreshold).or (raw.asF64.map Value.truncI64))
      match n with
      | none => defaultListingThreshold
      | some n => max minListingThreshold (min maxListingThreshold n)

/-! ## The entries of a catalog have distinct slugs -/

theorem bind_ok {ε α β : Type} {x : Except ε α} {f : α → Except ε β} {b : β}
    (h : (x >>= f) = .ok b) : ∃ a, x = .ok a ∧ f a = .ok b := by
  cases x with
  | error e => cases h
  | ok a => exact ⟨a, rfl, h⟩

/-- The slugs of a parsed tail are distinct and avoid those seen before it. -/
def Fresh {α : Type} (slug : α → String) (seen : List String) (entries : List α) : Prop :=
  (entries.map slug).Nodup ∧ ∀ e ∈ entries, slug e ∉ seen

theorem Fresh.nil {α : Type} {slug : α → String} {seen : List String} :
    Fresh slug seen [] := ⟨List.nodup_nil, by simp⟩

theorem Fresh.tail {α : Type} {slug : α → String} {seen : List String} {s : String}
    {entries : List α} (h : Fresh slug (s :: seen) entries) : Fresh slug seen entries :=
  ⟨h.1, fun e he hs => h.2 e he (List.mem_cons_of_mem s hs)⟩

theorem Fresh.cons {α : Type} {slug : α → String} {seen : List String} {e : α}
    {entries : List α} (hs : slug e ∉ seen) (h : Fresh slug (slug e :: seen) entries) :
    Fresh slug seen (e :: entries) := by
  refine ⟨List.nodup_cons.2 ⟨fun hm => ?_, h.1⟩, ?_⟩
  · obtain ⟨e', he', heq⟩ := List.mem_map.1 hm
    exact h.2 e' he' (by rw [heq]; exact List.mem_cons_self)
  · intro e' he'
    rcases List.mem_cons.1 he' with rfl | he'
    · exact hs
    · exact h.tail.2 e' he'

theorem catalogGamesFrom_fresh {games : List Value} {seen : List String}
    {kindCounts : String → Nat} {entries : List CatalogGame}
    (h : catalogGamesFrom seen kindCounts games = .ok entries) :
    Fresh CatalogGame.slug seen entries := by
  induction games generalizing seen kindCounts entries with
  | nil =>
      cases h
      exact .nil
  | cons g games ih =>
      simp only [catalogGamesFrom] at h
      split at h
      · split at h
        · exact ih h
        · obtain ⟨slug, -, h⟩ := bind_ok h
          split at h
          · cases h
          · obtain ⟨rest, hr, h⟩ := bind_ok h
            cases h
            exact .cons (by assumption) (ih hr)
      · exact ih h

theorem catalogCollectiblesFrom_fresh {items : List Value} {seen : List String} {n : Nat}
    {entries : List CatalogCollectible}
    (h : catalogCollectiblesFrom seen n items = .ok entries) :
    Fresh CatalogCollectible.slug seen entries := by
  induction items generalizing seen n entries with
  | nil =>
      cases h
      exact .nil
  | cons item items ih =>
      simp only [catalogCollectiblesFrom] at h
      split at h
      · split at h
        · exact ih h
        · obtain ⟨slug, -, h⟩ := bind_ok h
          split at h
          · cases h
          · obtain ⟨rest, hr, h⟩ := bind_ok h
            cases h
            exact .cons (by assumption) (ih hr)
      · exact ih h

theorem catalogHatsFrom_fresh {items : List Value} {seen : List String} {n : Nat}
    {entries : List CatalogHat} (h : catalogHatsFrom seen n items = .ok entries) :
    Fresh CatalogHat.slug seen entries := by
  induction items generalizing seen n entries with
  | nil =>
      cases h
      exact .nil
  | cons item items ih =>
      simp only [catalogHatsFrom] at h
      split at h
      · obtain ⟨slug, -, h⟩ := bind_ok h
        split at h
        · cases h
        · obtain ⟨unlock, -, h⟩ := bind_ok h
          obtain ⟨rest, hr, h⟩ := bind_ok h
          split at h
          · cases h
            exact .cons (by assumption) (ih hr)
          · cases h
            exact (ih hr).tail
      · exact ih h

theorem parseCatalogGames_nodup {spec : Value} {entries : List CatalogGame}
    (h : parseCatalogGames spec = .ok entries) : (entries.map CatalogGame.slug).Nodup := by
  unfold parseCatalogGames at h
  split at h
  · cases h
    exact List.nodup_nil
  · exact (catalogGamesFrom_fresh h).1

theorem parseCatalogCollectibles_nodup {spec : Value} {entries : List CatalogCollectible}
    (h : parseCatalogCollectibles spec = .ok entries) :
    (entries.map CatalogCollectible.slug).Nodup := by
  unfold parseCatalogCollectibles at h
  split at h
  · cases h
    exact List.nodup_nil
  · exact (catalogCollectiblesFrom_fresh h).1

theorem parseCatalogHats_nodup {spec : Value} {entries : List CatalogHat}
    (h : parseCatalogHats spec = .ok entries) : (entries.map CatalogHat.slug).Nodup := by
  unfold parseCatalogHats at h
  split at h
  · cases h
    exact List.nodup_nil
  · exact (catalogHatsFrom_fresh h).1

end Dd2Server
