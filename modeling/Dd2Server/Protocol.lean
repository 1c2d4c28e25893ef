import Dd2Server.Server2.Requests

/-!
# What the transactions leave to each other

The invariant of the committed rows that the transactions need from each other (the unique index
agrees with the specs, foreign keys point to rows), what never happens between two committed states,
and what an exclusive lock on a spec or on a binding protects besides that row: the catalogs and the
bindings of the spec, the copies and the worn hats of the map.

A `Scope` adds what only some runs keep: that the catalogs agree with the stored specs, or that
nobody touches the specs.
-/

namespace Dd2Server

open ReadCommitted

/-! ## Catalogs of a spec -/

/-- What the parsers read in a stored spec. -/
structure Parsed where
  games : List CatalogGame
  collectibles : List CatalogCollectible
  hats : List CatalogHat

/-- The three parsers on one JSON. -/
def parseCatalogs (spec : Value) : Except CatalogValidationError Parsed := do
  let games ← parseCatalogGames spec
  let collectibles ← parseCatalogCollectibles spec
  let hats ← parseCatalogHats spec
  return { games, collectibles, hats }

def Parsed.gameRows (c : Parsed) (specId : Int) (s : SpecRow) :
    List (Table.minigameCatalog.Key × MinigameCatalogRow) :=
  c.games.map fun g => (Minigames.catalogKey s.userId s.nameId g, Minigames.catalogRow specId g)

def Parsed.collectibleRows (c : Parsed) (specId : Int) (s : SpecRow) :
    List (Table.collectibleCatalog.Key × CollectibleCatalogRow) :=
  c.collectibles.map fun x => ((specId, x.slug), Collectibles.catalogRow s.userId s.nameId x)

def Parsed.hatRows (c : Parsed) (specId : Int) (s : SpecRow) :
    List (Table.hatCatalog.Key × HatCatalogRow) :=
  c.hats.map fun h => ((specId, h.slug), Hats.catalogRow s.userId s.nameId h)

/-- The catalog rows of a spec are the entries of a parsed JSON. -/
structure CatalogsAre (db : Db) (specId : Int) (s : SpecRow) (c : Parsed) : Prop where
  games : ∀ k r, db.get ⟨.minigameCatalog, k⟩ = some r ∧ r.specId = some specId ↔
    (k, r) ∈ c.gameRows specId s
  collectibles : ∀ k r, db.get ⟨.collectibleCatalog, k⟩ = some r ∧ k.1 = specId ↔
    (k, r) ∈ c.collectibleRows specId s
  hats : ∀ k r, db.get ⟨.hatCatalog, k⟩ = some r ∧ k.1 = specId ↔
    (k, r) ∈ c.hatRows specId s

/-- Every spec has the catalogs of its stored JSON. -/
def Coherent (pg : Pg) (db : Db) : Prop :=
  ∀ id s, db.get ⟨.specs, id⟩ = some s →
    ∃ c, parseCatalogs (pg.value s.spec) = .ok c ∧ CatalogsAre db id s c

/-! ## The invariant -/

structure Inv (pg : Pg) (strict : Prop) (db : Db) : Prop where
  /-- The unique index points to specs of that owner and name. -/
  index : ∀ u n id, db.get ⟨.specNames, (u, n)⟩ = some id →
    ∃ s, db.get ⟨.specs, id⟩ = some s ∧ s.userId = u ∧ s.nameId = n
  /-- Every spec is in the unique index. -/
  indexed : ∀ id s, db.get ⟨.specs, id⟩ = some s →
    db.get ⟨.specNames, (s.userId, s.nameId)⟩ = some id
  bindSpec : ∀ m b, db.get ⟨.mapListingBind, m⟩ = some b →
    ∃ s, db.get ⟨.specs, b.specId⟩ = some s
  games : ∀ u n slug r id, db.get ⟨.minigameCatalog, (u, n, slug)⟩ = some r →
    r.specId = some id →
    ∃ s, db.get ⟨.specs, id⟩ = some s ∧ s.userId = u ∧ s.nameId = n
  collectibles : ∀ k r, db.get ⟨.collectibleCatalog, k⟩ = some r →
    ∃ s, db.get ⟨.specs, k.1⟩ = some s ∧ s.userId = r.userId ∧ s.nameId = r.nameId
  hats : ∀ k r, db.get ⟨.hatCatalog, k⟩ = some r →
    ∃ s, db.get ⟨.specs, k.1⟩ = some s ∧ s.userId = r.userId ∧ s.nameId = r.nameId
  equippedUser : ∀ k e, db.get ⟨.hatEquipped, k⟩ = some e →
    ∃ u, db.get ⟨.users, k.1⟩ = some u
  coherent : strict → Coherent pg db

/-- The binding of a map and its owner's verification hold together. -/
def VerifiedAt (db : Db) (m : String) (b : BindRow) : Prop :=
  db.get ⟨.mapListingBind, m⟩ = some b ∧
    ∃ s, db.get ⟨.specs, b.specId⟩ = some s ∧ b.isVerified s = true

/-- The binding of a map is not verified. -/
def LegacyAt (db : Db) (m : String) (b : BindRow) : Prop :=
  db.get ⟨.mapListingBind, m⟩ = some b ∧
    ∀ s, db.get ⟨.specs, b.specId⟩ = some s → b.isVerified s = false

/-- What holds between two committed states: users stay, a verified binding is not lost, and no
binding turns legacy. -/
structure Stays (db db' : Db) : Prop where
  users : ∀ u r, db.get ⟨.users, u⟩ = some r → ∃ r', db'.get ⟨.users, u⟩ = some r'
  verified : ∀ m b, VerifiedAt db m b → ∃ b', VerifiedAt db' m b'
  legacy : ∀ m b, LegacyAt db' m b → LegacyAt db m b

/-- What an exclusive lock on a spec protects: nobody else adds catalog rows or bindings to it. -/
structure KeepsSpec (specId : Int) (db db' : Db) : Prop where
  games : ∀ k r, r.specId = some specId → db'.get ⟨.minigameCatalog, k⟩ = some r →
    db.get ⟨.minigameCatalog, k⟩ = some r
  collectibles : ∀ k r, k.1 = specId → db'.get ⟨.collectibleCatalog, k⟩ = some r →
    db.get ⟨.collectibleCatalog, k⟩ = some r
  hats : ∀ k r, k.1 = specId → db'.get ⟨.hatCatalog, k⟩ = some r →
    db.get ⟨.hatCatalog, k⟩ = some r
  binds : ∀ m b, db'.get ⟨.mapListingBind, m⟩ = some b → b.specId = specId →
    ∃ b₀, db.get ⟨.mapListingBind, m⟩ = some b₀ ∧ b₀.specId = specId

/-- What an exclusive lock on a binding protects: the binding, the owner of its spec, the copies on
the map, and that nobody puts on a hat there. -/
structure KeepsBinding (m : String) (db db' : Db) : Prop where
  bind : db'.get ⟨.mapListingBind, m⟩ = db.get ⟨.mapListingBind, m⟩
  owner : ∀ b s, db.get ⟨.mapListingBind, m⟩ = some b →
    db.get ⟨.specs, b.specId⟩ = some s →
    ∃ s', db'.get ⟨.specs, b.specId⟩ = some s' ∧ s'.userId = s.userId
  games : ∀ slug, db'.get ⟨.minigameOnMap, (m, slug)⟩ = db.get ⟨.minigameOnMap, (m, slug)⟩
  collectibles : ∀ slug,
    db'.get ⟨.collectibleOnMap, (m, slug)⟩ = db.get ⟨.collectibleOnMap, (m, slug)⟩
  hats : ∀ slug, db'.get ⟨.hatOnMap, (m, slug)⟩ = db.get ⟨.hatOnMap, (m, slug)⟩
  equipped : ∀ u e, db'.get ⟨.hatEquipped, (u, m)⟩ = some e →
    db.get ⟨.hatEquipped, (u, m)⟩ = some e

def keeps : DbKey → Db → Db → Prop
  | ⟨.specs, specId⟩ => KeepsSpec specId
  | ⟨.mapListingBind, m⟩ => KeepsBinding m
  | _ => fun _ _ => True

theorem Stays.refl (db : Db) : Stays db db :=
  ⟨fun _ r h => ⟨r, h⟩, fun _ b h => ⟨b, h⟩, fun _ _ h => h⟩

theorem Stays.trans {a b c : Db} (h : Stays a b) (h' : Stays b c) : Stays a c where
  users u r hu := by
    obtain ⟨r', hr'⟩ := h.users u r hu
    exact h'.users u r' hr'
  verified m x hx := by
    obtain ⟨y, hy⟩ := h.verified m x hx
    exact h'.verified m y hy
  legacy m x hx := h.legacy m x (h'.legacy m x hx)

theorem KeepsSpec.refl (specId : Int) (db : Db) : KeepsSpec specId db db :=
  ⟨fun _ _ _ h => h, fun _ _ _ h => h, fun _ _ _ h => h, fun _ b h hs => ⟨b, h, hs⟩⟩

theorem KeepsSpec.trans {specId : Int} {a b c : Db} (h : KeepsSpec specId a b)
    (h' : KeepsSpec specId b c) : KeepsSpec specId a c where
  games k r hr hk := h.games k r hr (h'.games k r hr hk)
  collectibles k r hr hk := h.collectibles k r hr (h'.collectibles k r hr hk)
  hats k r hr hk := h.hats k r hr (h'.hats k r hr hk)
  binds m x hx hs := by
    obtain ⟨y, hy, hys⟩ := h'.binds m x hx hs
    exact h.binds m y hy hys

theorem KeepsBinding.refl (m : String) (db : Db) : KeepsBinding m db db :=
  ⟨rfl, fun _ s _ hs => ⟨s, hs, rfl⟩, fun _ => rfl, fun _ => rfl, fun _ => rfl,
    fun _ _ h => h⟩

theorem KeepsBinding.trans {m : String} {a b c : Db} (h : KeepsBinding m a b)
    (h' : KeepsBinding m b c) : KeepsBinding m a c where
  bind := h'.bind.trans h.bind
  owner x s hx hs := by
    obtain ⟨s', hs', ho⟩ := h.owner x s hx hs
    obtain ⟨s'', hs'', ho'⟩ := h'.owner x s' (h.bind.trans hx) hs'
    exact ⟨s'', hs'', ho'.trans ho⟩
  games slug := (h'.games slug).trans (h.games slug)
  collectibles slug := (h'.collectibles slug).trans (h.collectibles slug)
  hats slug := (h'.hats slug).trans (h.hats slug)
  equipped u e he := h.equipped u e (h'.equipped u e he)

theorem keeps_refl (k : DbKey) (db : Db) : keeps k db db := by
  obtain ⟨t, k⟩ := k
  cases t with
  | specs => exact .refl k db
  | mapListingBind => exact .refl k db
  | _ => trivial

theorem keeps_trans {k : DbKey} {a b c : Db} (h : keeps k a b) (h' : keeps k b c) :
    keeps k a c := by
  obtain ⟨t, k⟩ := k
  cases t with
  | specs => exact KeepsSpec.trans h h'
  | mapListingBind => exact KeepsBinding.trans h h'
  | _ => trivial

/-- What is asked of a run besides. -/
structure Scope where
  /-- The catalogs agree with the stored specs. -/
  strict : Prop
  /-- Nobody touches the specs. -/
  frozen : Prop

/-- The protocol of all transactions. -/
def protocol (pg : Pg) (w : Scope) : Protocol Table.Key Table.Row where
  Inv := Inv pg w.strict
  stay db db' := Stays db db' ∧
    (w.frozen → ∀ id, db'.get ⟨.specs, id⟩ = db.get ⟨.specs, id⟩)
  keep := keeps
  stay_refl db := ⟨.refl db, fun _ _ => rfl⟩
  stay_trans h h' := ⟨h.1.trans h'.1, fun hf id => (h'.2 hf id).trans (h.2 hf id)⟩
  keep_refl := keeps_refl
  keep_trans := keeps_trans

/-- The events a proof about a transaction may forget: all but commits, the locking read of a
binding and the read that finds the spec of a comment. -/
def Plain : LogEvent → Prop
  | .committed _ _ => False
  | .saw (.lockBinding _) _ => False
  | .saw (.resolveComment _ _) _ => False
  | _ => True

/-- What surrounds a request task. -/
abbrev setting (pg : Pg) (w : Scope) (C : Tag → Db → Prop)
    (G : Promise Table.Key Table.Row Tag Ask.Ans Act.Out) :
    Setting Table.Key Table.Row Tag Ask.Ans Act.Out := ⟨protocol pg w, C, G, Plain⟩

end Dd2Server
