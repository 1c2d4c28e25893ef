import Dd2Server.Materialize

/-!
# What each commit does to the committed rows

A transaction runs statement by statement under interference, but what it leaves is one step from
the rows committed before its `COMMIT` to those after it.  `Commit` lists these steps.  Each keeps
the invariant, and what it changes besides is under a lock the transaction holds.
-/

namespace Dd2Server

open ReadCommitted

/-! ## The steps -/

/-- A row of a spec without its counter. -/
def SpecRow.unhit (s : SpecRow) : SpecRow := { s with hitCounter := 0 }

/-- A read of a spec counted a hit, or found none. -/
structure HitCounted (pre post : Db) : Prop where
  specs : ∀ id, (post.get ⟨.specs, id⟩).map SpecRow.unhit =
    (pre.get ⟨.specs, id⟩).map SpecRow.unhit
  others : Frame [.specs] pre post

/-- A spec is stored with its catalogs. -/
structure SpecUpserted (pg : Pg) (u : Uuid) (n : String) (spec : Value) (id : Int) (s : SpecRow)
    (c : Parsed) (pre post : Db) : Prop where
  parsed : parseCatalogs (stripInjectedSpecId spec) = .ok c
  owner : s.userId = u ∧ s.nameId = n
  stored : s.spec = pg.jsonb (stripInjectedSpecId spec)
  row : post.get ⟨.specs, id⟩ = some s
  index : post.get ⟨.specNames, (u, n)⟩ = some id
  before : pre.get ⟨.specNames, (u, n)⟩ = some id ∨
    pre.get ⟨.specNames, (u, n)⟩ = none ∧ pre.get ⟨.specs, id⟩ = none
  otherSpecs : ∀ id', id' ≠ id → post.get ⟨.specs, id'⟩ = pre.get ⟨.specs, id'⟩
  otherNames : ∀ k, k ≠ (u, n) → post.get ⟨.specNames, k⟩ = pre.get ⟨.specNames, k⟩
  catalogs : CatalogsReplaced id s c pre post
  others : Frame (.specs :: .specNames :: catalogTables) pre post

/-- A spec no map is bound to is gone, with its catalogs. -/
structure SpecDeleted (u : Uuid) (n : String) (id : Int) (pre post : Db) : Prop where
  index : pre.get ⟨.specNames, (u, n)⟩ = some id
  unbound : ∀ m b, pre.get ⟨.mapListingBind, m⟩ = some b → b.specId ≠ id
  row : post.get ⟨.specs, id⟩ = none
  name : post.get ⟨.specNames, (u, n)⟩ = none
  otherSpecs : ∀ id', id' ≠ id → post.get ⟨.specs, id'⟩ = pre.get ⟨.specs, id'⟩
  otherNames : ∀ k, k ≠ (u, n) → post.get ⟨.specNames, k⟩ = pre.get ⟨.specNames, k⟩
  games : ∀ k r, post.get ⟨.minigameCatalog, k⟩ = some r ↔
    pre.get ⟨.minigameCatalog, k⟩ = some r ∧ r.specId ≠ some id
  collectibles : ∀ k r, post.get ⟨.collectibleCatalog, k⟩ = some r ↔
    pre.get ⟨.collectibleCatalog, k⟩ = some r ∧ k.1 ≠ id
  hats : ∀ k r, post.get ⟨.hatCatalog, k⟩ = some r ↔
    pre.get ⟨.hatCatalog, k⟩ = some r ∧ k.1 ≠ id
  others : Frame (.specs :: .specNames :: catalogTables) pre post

/-- The spec of a catalog row. -/
def specOf : (t : Table) → t.Key → t.Row → Option Int
  | .minigameCatalog, _, r => r.specId
  | .collectibleCatalog, k, _ => some k.1
  | .hatCatalog, k, _ => some k.1
  | _, _, _ => none

/-- Some rows of one catalog are gone; in the strict runs, none of a spec. -/
structure CatalogDeleted (strict : Prop) (t : Table) (pre post : Db) : Prop where
  catalog : t ∈ catalogTables
  shrink : ∀ k r, post.get ⟨t, k⟩ = some r → pre.get ⟨t, k⟩ = some r
  orphans : strict → ∀ k r, pre.get ⟨t, k⟩ = some r → (specOf t k r).isSome = true →
    post.get ⟨t, k⟩ = some r
  others : Frame [t] pre post

/-- A map is bound to a spec and has its catalogs; `purge` says that all worn hats came off, and
else those came off that do not fit. -/
structure Bound (pg : Pg) (m : String) (specId : Int) (s : SpecRow) (c : Parsed) (t : Time)
    (purge : Bool) (pre post : Db) : Prop where
  spec : pre.get ⟨.specs, specId⟩ = some s
  parsed : parseCatalogs (pg.value s.spec) = .ok c
  bind : post.get ⟨.mapListingBind, m⟩ = some
    { specId, verified := some (s.userId, t), materialized := some (s.updatedAt, s.specHash pg) }
  otherBinds : ∀ m', m' ≠ m → post.get ⟨.mapListingBind, m'⟩ = pre.get
    ⟨.mapListingBind, m'⟩
  catalogs : CatalogsReplaced specId s c pre post
  copies : CopiesReplaced pg m specId s c pre post
  equipped : ∀ k e, post.get ⟨.hatEquipped, k⟩ = some e ↔
    pre.get ⟨.hatEquipped, k⟩ = some e ∧ (k.2 = m → purge = false ∧ c.fits pg m e = true)
  others : Frame (.mapListingBind :: .hatEquipped :: catalogTables ++ copyTables) pre post

/-- A user has a hat of a map. -/
structure Unlocked (u : Uuid) (key : String) (pre post : Db) : Prop where
  unlock : ∃ r, post.get ⟨.hatUnlock, (u, key)⟩ = some r
  rest : ∀ k : DbKey, k ≠ ⟨.hatUnlock, (u, key)⟩ → post.get k = pre.get k

/-- A user puts on a hat that is on the map and that the user has. -/
structure Equipped (u : Uuid) (m : String) (e : HatEquippedRow) (pre post : Db) : Prop where
  user : ∃ r, pre.get ⟨.users, u⟩ = some r
  unlock : ∃ r, pre.get ⟨.hatUnlock, (u, e.hatKey)⟩ = some r
  onMap : ∃ h, pre.get ⟨.hatOnMap, (m, e.slug)⟩ = some h ∧ h.hatKey = e.hatKey
  put : Put ⟨.hatEquipped, (u, m)⟩ e pre post

/-- A user takes off a hat. -/
structure Unequipped (u : Uuid) (m : String) (pre post : Db) : Prop where
  gone : post.get ⟨.hatEquipped, (u, m)⟩ = none
  others : ∀ k : DbKey, k ≠ ⟨.hatEquipped, (u, m)⟩ → post.get k = pre.get k

/-- A login; accounts stay. -/
structure LoggedIn (pre post : Db) : Prop where
  users : ∀ u r, pre.get ⟨.users, u⟩ = some r → ∃ r', post.get ⟨.users, u⟩ = some r'
  others : Frame [.users, .displayNames] pre post

/-- What a commit does. -/
inductive Commit (pg : Pg) (strict : Prop) (pre post : Db) : Prop
  | same (h : post = pre)
  | hit (h : HitCounted pre post)
  | upserted {u : Uuid} {n : String} {spec : Value} {id : Int} {s : SpecRow} {c : Parsed}
      (h : SpecUpserted pg u n spec id s c pre post)
      (round : strict → parseCatalogs (pg.value s.spec) = .ok c)
  | deleted {u : Uuid} {n : String} {id : Int} (h : SpecDeleted u n id pre post)
  | catalog {t : Table} (h : CatalogDeleted strict t pre post)
  | bound {m : String} {specId : Int} {s : SpecRow} {c : Parsed} {t : Time} {purge : Bool}
      (h : Bound pg m specId s c t purge pre post)
  | unlocked {u : Uuid} {key : String} (h : Unlocked u key pre post)
  | equipped {u : Uuid} {m : String} {e : HatEquippedRow} (h : Equipped u m e pre post)
  | unequipped {u : Uuid} {m : String} (h : Unequipped u m pre post)
  | login (h : LoggedIn pre post)

/-- The locks hold a row at least in share mode. -/
def Shares (L : List (Lock Table.Key)) (k : DbKey) : Prop :=
  ∃ x ∈ L, x.row = k ∧ x.mode ≠ .keyShare

theorem Holds.shares {L : List (Lock Table.Key)} {k : DbKey} (h : Holds L k) : Shares L k := by
  obtain ⟨x, hx, hrow, hm⟩ := h
  exact ⟨x, hx, hrow, fun e => by rw [e] at hm; cases hm⟩

section

variable {pg : Pg} {w : Scope} {pre post : Db}

/-! ## A guarantee from its parts -/

/-- Only the specs and the bindings protect more than their rows. -/
theorem guarantee_of_keeps {L : List (Lock Table.Key)} (hinv : Inv pg w.strict post)
    (hstay : Stays pre post)
    (hfrozen : w.frozen → ∀ id, post.get ⟨.specs, id⟩ = pre.get ⟨.specs, id⟩)
    (hspec : ∀ id, Shares L ⟨.specs, id⟩ ∨ KeepsSpec id pre post)
    (hbind : ∀ m, Shares L ⟨.mapListingBind, m⟩ ∨ KeepsBinding m pre post) :
    Guarantee (protocol pg w) L pre post := by
  refine ⟨hinv, ⟨hstay, hfrozen⟩, fun k => ?_⟩
  obtain ⟨t, k⟩ := k
  cases t with
  | specs => exact hspec k
  | mapListingBind => exact hbind k
  | _ => exact .inr trivial

theorem KeepsSpec.of_frame {ts : List Table} {id : Int} (h : Frame ts pre post)
    (hts : ∀ t ∈ Table.mapListingBind :: catalogTables, t ∉ ts) : KeepsSpec id pre post where
  games k r _ hk := by rwa [h.get k (hts _ (by decide))] at hk
  collectibles k r _ hk := by rwa [h.get k (hts _ (by decide))] at hk
  hats k r _ hk := by rwa [h.get k (hts _ (by decide))] at hk
  binds m b hb hs := ⟨b, by rwa [h.get m (hts _ (by decide))] at hb, hs⟩

theorem KeepsBinding.of_frame {ts : List Table} {m : String} (h : Frame ts pre post)
    (hts : ∀ t ∈ Table.mapListingBind :: .hatEquipped :: copyTables, t ∉ ts)
    (howner : ∀ b s, pre.get ⟨.mapListingBind, m⟩ = some b →
      pre.get ⟨.specs, b.specId⟩ = some s →
      ∃ s', post.get ⟨.specs, b.specId⟩ = some s' ∧ s'.userId = s.userId) :
    KeepsBinding m pre post where
  bind := h ⟨.mapListingBind, m⟩ (hts .mapListingBind (by decide))
  owner := howner
  games slug := h ⟨.minigameOnMap, (m, slug)⟩ (hts .minigameOnMap (by decide))
  collectibles slug := h ⟨.collectibleOnMap, (m, slug)⟩ (hts .collectibleOnMap (by decide))
  hats slug := h ⟨.hatOnMap, (m, slug)⟩ (hts .hatOnMap (by decide))
  equipped u e he := by rwa [h ⟨.hatEquipped, (u, m)⟩ (hts .hatEquipped (by decide))] at he

/-- Bindings and owners stay, so do the verifications. -/
theorem Stays.of_frame {ts : List Table} (h : Frame ts pre post) (hb : Table.mapListingBind ∉ ts)
    (husers : ∀ u r, pre.get ⟨.users, u⟩ = some r →
      ∃ r', post.get ⟨.users, u⟩ = some r')
    (howner : ∀ m b, pre.get ⟨.mapListingBind, m⟩ = some b → ∀ s,
      pre.get ⟨.specs, b.specId⟩ = some s →
      ∃ s', post.get ⟨.specs, b.specId⟩ = some s' ∧
      s'.userId = s.userId) : Stays pre post where
  users := husers
  verified m b hv := by
    obtain ⟨hb', s, hs, hver⟩ := hv
    obtain ⟨s', hs', ho⟩ := howner m b hb' s hs
    refine ⟨b, (h.get m hb).trans hb', s', hs', ?_⟩
    rw [← hver]
    simp only [BindRow.isVerified, ho]
  legacy m b hl := by
    obtain ⟨hb', hver⟩ := hl
    rw [h.get m hb] at hb'
    refine ⟨hb', fun s hs => ?_⟩
    obtain ⟨s', hs', ho⟩ := howner m b hb' s hs
    rw [← hver s' hs']
    simp only [BindRow.isVerified, ho]

/-! ## Catalogs of other specs -/

/-- The catalog rows of a spec are the same. -/
structure SameCatalogs (id : Int) (pre post : Db) : Prop where
  games : ∀ k r, r.specId = some id →
    (post.get ⟨.minigameCatalog, k⟩ = some r ↔ pre.get ⟨.minigameCatalog, k⟩ = some r)
  collectibles : ∀ k r, k.1 = id →
    (post.get ⟨.collectibleCatalog, k⟩ = some r ↔
      pre.get ⟨.collectibleCatalog, k⟩ = some r)
  hats : ∀ k r, k.1 = id →
    (post.get ⟨.hatCatalog, k⟩ = some r ↔ pre.get ⟨.hatCatalog, k⟩ = some r)

theorem SameCatalogs.of_frame {ts : List Table} {id : Int} (h : Frame ts pre post)
    (hts : ∀ t ∈ catalogTables, t ∉ ts) : SameCatalogs id pre post where
  games k r _ := by rw [h ⟨.minigameCatalog, k⟩ (hts .minigameCatalog (by decide))]
  collectibles k r _ := by rw [h ⟨.collectibleCatalog, k⟩ (hts .collectibleCatalog (by decide))]
  hats k r _ := by rw [h ⟨.hatCatalog, k⟩ (hts .hatCatalog (by decide))]

/-- Another spec keeps its catalog rows, since no new row belongs to it. -/
theorem CatalogsReplaced.same {id id' : Int} {s : SpecRow} {c : Parsed}
    (h : CatalogsReplaced id s c pre post) (hne : id' ≠ id) : SameCatalogs id' pre post where
  games k r hr := by
    rw [h.games]
    constructor
    · rintro (hm | ⟨hk, -⟩)
      · obtain ⟨-, hs⟩ := (h.are.games k r).2 hm
        exact absurd (Option.some.inj (hr.symm.trans hs)) hne
      · exact hk
    · exact fun hk => .inr ⟨hk, fun hs => hne (Option.some.inj (hr.symm.trans hs))⟩
  collectibles k r hr := by
    rw [h.collectibles]
    constructor
    · rintro (hm | ⟨hk, -⟩)
      · exact absurd (hr.symm.trans ((h.are.collectibles k r).2 hm).2) hne
      · exact hk
    · exact fun hk => .inr ⟨hk, fun hs => hne (hr.symm.trans hs)⟩
  hats k r hr := by
    rw [h.hats]
    constructor
    · rintro (hm | ⟨hk, -⟩)
      · exact absurd (hr.symm.trans ((h.are.hats k r).2 hm).2) hne
      · exact hk
    · exact fun hk => .inr ⟨hk, fun hs => hne (hr.symm.trans hs)⟩

theorem SpecDeleted.same {u : Uuid} {n : String} {id id' : Int}
    (h : SpecDeleted u n id pre post) (hne : id' ≠ id) : SameCatalogs id' pre post where
  games k r hr := by
    rw [h.games]
    exact ⟨fun hk => hk.1, fun hk =>
      ⟨hk, fun hs => hne (Option.some.inj (hr.symm.trans hs))⟩⟩
  collectibles k r hr := by
    rw [h.collectibles]
    exact ⟨fun hk => hk.1, fun hk => ⟨hk, fun hs => hne (hr.symm.trans hs)⟩⟩
  hats k r hr := by
    rw [h.hats]
    exact ⟨fun hk => hk.1, fun hk => ⟨hk, fun hs => hne (hr.symm.trans hs)⟩⟩

theorem CatalogsAre.same {id : Int} {s s' : SpecRow} {c : Parsed} (h : CatalogsAre pre id s c)
    (hsame : SameCatalogs id pre post) (hu : s'.userId = s.userId) (hn : s'.nameId = s.nameId) :
    CatalogsAre post id s' c := by
  have hg : c.gameRows id s' = c.gameRows id s := by simp only [Parsed.gameRows, hu, hn]
  have hc : c.collectibleRows id s' = c.collectibleRows id s := by
    simp only [Parsed.collectibleRows, hu, hn]
  have hh : c.hatRows id s' = c.hatRows id s := by simp only [Parsed.hatRows, hu, hn]
  refine ⟨fun k r => ?_, fun k r => ?_, fun k r => ?_⟩
  · rw [hg, ← h.games]
    exact and_congr_left fun hr => hsame.games k r hr
  · rw [hc, ← h.collectibles]
    exact and_congr_left fun hr => hsame.collectibles k r hr
  · rw [hh, ← h.hats]
    exact and_congr_left fun hr => hsame.hats k r hr

/-- Nobody adds to the catalogs of a spec that keeps them. -/
theorem SameCatalogs.keepsSpec {id : Int} (h : SameCatalogs id pre post)
    (hb : ∀ m b, post.get ⟨.mapListingBind, m⟩ = some b → b.specId = id →
      ∃ b₀, pre.get ⟨.mapListingBind, m⟩ = some b₀ ∧
      b₀.specId = id) : KeepsSpec id pre post where
  games k r hr hk := (h.games k r hr).1 hk
  collectibles k r hr hk := (h.collectibles k r hr).1 hk
  hats k r hr hk := (h.hats k r hr).1 hk
  binds := hb

/-! ## Specs -/

namespace HitCounted

theorem fwd (h : HitCounted pre post) {id : Int} {s : SpecRow}
    (hs : pre.get ⟨.specs, id⟩ = some s) :
    ∃ s', post.get ⟨.specs, id⟩ = some s' ∧ s'.unhit = s.unhit := by
  have he := h.specs id
  rw [hs, Option.map_some, Option.map_eq_some_iff] at he
  exact he

theorem bwd (h : HitCounted pre post) {id : Int} {s' : SpecRow}
    (hs : post.get ⟨.specs, id⟩ = some s') :
    ∃ s, pre.get ⟨.specs, id⟩ = some s ∧ s'.unhit = s.unhit := by
  have he := (h.specs id).symm
  rw [hs, Option.map_some, Option.map_eq_some_iff] at he
  obtain ⟨s, hs', hu⟩ := he
  exact ⟨s, hs', hu.symm⟩

theorem userId {s s' : SpecRow} (h : s'.unhit = s.unhit) : s'.userId = s.userId :=
  show s'.unhit.userId = s.unhit.userId by rw [h]

theorem nameId {s s' : SpecRow} (h : s'.unhit = s.unhit) : s'.nameId = s.nameId :=
  show s'.unhit.nameId = s.unhit.nameId by rw [h]

theorem spec {s s' : SpecRow} (h : s'.unhit = s.unhit) : s'.spec = s.spec :=
  show s'.unhit.spec = s.unhit.spec by rw [h]

theorem inv (h : HitCounted pre post) (hinv : Inv pg w.strict pre) : Inv pg w.strict post where
  index u n id hi := by
    rw [h.others.get _ (by decide)] at hi
    obtain ⟨s, hs, hu, hn⟩ := hinv.index u n id hi
    obtain ⟨s', hs', he⟩ := h.fwd hs
    exact ⟨s', hs', (userId he).trans hu, (nameId he).trans hn⟩
  indexed id s' hs' := by
    obtain ⟨s, hs, he⟩ := h.bwd hs'
    rw [userId he, nameId he, h.others.get _ (by decide)]
    exact hinv.indexed id s hs
  bindSpec m b hb := by
    rw [h.others.get _ (by decide)] at hb
    obtain ⟨s, hs⟩ := hinv.bindSpec m b hb
    obtain ⟨s', hs', -⟩ := h.fwd hs
    exact ⟨s', hs'⟩
  games u n slug r id hk hr := by
    rw [h.others.get _ (by decide)] at hk
    obtain ⟨s, hs, hu, hn⟩ := hinv.games u n slug r id hk hr
    obtain ⟨s', hs', he⟩ := h.fwd hs
    exact ⟨s', hs', (userId he).trans hu, (nameId he).trans hn⟩
  collectibles k r hk := by
    rw [h.others.get _ (by decide)] at hk
    obtain ⟨s, hs, hu, hn⟩ := hinv.collectibles k r hk
    obtain ⟨s', hs', he⟩ := h.fwd hs
    exact ⟨s', hs', (userId he).trans hu, (nameId he).trans hn⟩
  hats k r hk := by
    rw [h.others.get _ (by decide)] at hk
    obtain ⟨s, hs, hu, hn⟩ := hinv.hats k r hk
    obtain ⟨s', hs', he⟩ := h.fwd hs
    exact ⟨s', hs', (userId he).trans hu, (nameId he).trans hn⟩
  equippedUser k e he := by
    rw [h.others.get _ (by decide)] at he
    obtain ⟨u, hu⟩ := hinv.equippedUser k e he
    exact ⟨u, (h.others.get _ (by decide)).trans hu⟩
  coherent hst id s' hs' := by
    obtain ⟨s, hs, he⟩ := h.bwd hs'
    obtain ⟨c, hc, hare⟩ := hinv.coherent hst id s hs
    exact ⟨c, by rw [spec he]; exact hc,
      hare.same (.of_frame h.others (by decide)) (userId he) (nameId he)⟩

theorem owner (h : HitCounted pre post) (m : String) (b : BindRow)
    (_ : pre.get ⟨.mapListingBind, m⟩ = some b) (s : SpecRow)
    (hs : pre.get ⟨.specs, b.specId⟩ = some s) :
    ∃ s', post.get ⟨.specs, b.specId⟩ = some s' ∧ s'.userId = s.userId := by
  obtain ⟨s', hs', he⟩ := h.fwd hs
  exact ⟨s', hs', userId he⟩

theorem guarantee (h : HitCounted pre post) (hinv : Inv pg w.strict pre) (hw : ¬w.frozen)
    (L : List (Lock Table.Key)) : Guarantee (protocol pg w) L pre post :=
  guarantee_of_keeps (h.inv hinv)
    (.of_frame h.others (by decide)
      (fun u r hu => ⟨r, (h.others.get _ (by decide)).trans hu⟩) h.owner)
    (fun hf => absurd hf hw)
    (fun _ => .inr (.of_frame h.others (by decide)))
    (fun m => .inr (.of_frame h.others (by decide) fun b s hb => h.owner m b hb s))

end HitCounted

namespace SpecUpserted

variable {u : Uuid} {n : String} {spec : Value} {id : Int} {s : SpecRow} {c : Parsed}

/-- The row of the spec, if there was one, had the same owner and name. -/
theorem was (h : SpecUpserted pg u n spec id s c pre post) (hinv : Inv pg w.strict pre)
    {s₀ : SpecRow} (hs : pre.get ⟨.specs, id⟩ = some s₀) :
    s₀.userId = u ∧ s₀.nameId = n := by
  rcases h.before with hi | ⟨-, hnone⟩
  · obtain ⟨s', hs', hu, hn⟩ := hinv.index u n id hi
    rw [hs] at hs'
    cases hs'
    exact ⟨hu, hn⟩
  · rw [hs] at hnone
    cases hnone

/-- No spec is lost, and each keeps its owner and name. -/
theorem fwd (h : SpecUpserted pg u n spec id s c pre post) (hinv : Inv pg w.strict pre) {id' : Int}
    {s₀ : SpecRow} (hs : pre.get ⟨.specs, id'⟩ = some s₀) :
    ∃ s', post.get ⟨.specs, id'⟩ = some s' ∧ s'.userId = s₀.userId ∧
    s'.nameId = s₀.nameId := by
  rcases eq_or_ne id' id with rfl | hne
  · obtain ⟨hu, hn⟩ := h.was hinv hs
    exact ⟨s, h.row, h.owner.1.trans hu.symm, h.owner.2.trans hn.symm⟩
  · exact ⟨s₀, (h.otherSpecs id' hne).trans hs, rfl, rfl⟩

theorem inv (h : SpecUpserted pg u n spec id s c pre post) (hinv : Inv pg w.strict pre)
    (hround : w.strict → parseCatalogs (pg.value s.spec) = .ok c) : Inv pg w.strict post where
  index u' n' id' hi := by
    rcases eq_or_ne (u', n') (u, n) with he | hne
    · cases he
      rw [h.index] at hi
      cases hi
      exact ⟨s, h.row, h.owner⟩
    · rw [h.otherNames _ hne] at hi
      obtain ⟨s', hs', hu, hn⟩ := hinv.index u' n' id' hi
      rcases eq_or_ne id' id with rfl | hid
      · obtain ⟨hu', hn'⟩ := h.was hinv hs'
        exact absurd (Prod.ext (hu.symm.trans hu') (hn.symm.trans hn')) hne
      · exact ⟨s', (h.otherSpecs id' hid).trans hs', hu, hn⟩
  indexed id' s' hs' := by
    rcases eq_or_ne id' id with rfl | hid
    · rw [h.row] at hs'
      cases hs'
      rw [h.owner.1, h.owner.2]
      exact h.index
    · rw [h.otherSpecs id' hid] at hs'
      have hi := hinv.indexed id' s' hs'
      rcases eq_or_ne (s'.userId, s'.nameId) (u, n) with he | hne
      · rw [he] at hi
        rcases h.before with hb | ⟨hb, -⟩
        · rw [hb] at hi
          exact absurd (Option.some.inj hi).symm hid
        · rw [hb] at hi
          cases hi
      · rw [h.otherNames _ hne]
        exact hi
  bindSpec m b hb := by
    rw [h.others.get _ (by decide)] at hb
    obtain ⟨s₀, hs₀⟩ := hinv.bindSpec m b hb
    obtain ⟨s', hs', -⟩ := h.fwd hinv hs₀
    exact ⟨s', hs'⟩
  games u' n' slug r id' hk hr := by
    rcases (h.catalogs.games _ r).1 hk with hm | ⟨hk, -⟩
    · obtain ⟨g, -, he⟩ := List.mem_map.1 hm
      cases he
      cases hr
      exact ⟨s, h.row, rfl, rfl⟩
    · obtain ⟨s₀, hs₀, hu, hn⟩ := hinv.games u' n' slug r id' hk hr
      obtain ⟨s', hs', hu', hn'⟩ := h.fwd hinv hs₀
      exact ⟨s', hs', hu'.trans hu, hn'.trans hn⟩
  collectibles k r hk := by
    rcases (h.catalogs.collectibles _ r).1 hk with hm | ⟨hk, -⟩
    · obtain ⟨x, -, he⟩ := List.mem_map.1 hm
      cases he
      exact ⟨s, h.row, rfl, rfl⟩
    · obtain ⟨s₀, hs₀, hu, hn⟩ := hinv.collectibles k r hk
      obtain ⟨s', hs', hu', hn'⟩ := h.fwd hinv hs₀
      exact ⟨s', hs', hu'.trans hu, hn'.trans hn⟩
  hats k r hk := by
    rcases (h.catalogs.hats _ r).1 hk with hm | ⟨hk, -⟩
    · obtain ⟨x, -, he⟩ := List.mem_map.1 hm
      cases he
      exact ⟨s, h.row, rfl, rfl⟩
    · obtain ⟨s₀, hs₀, hu, hn⟩ := hinv.hats k r hk
      obtain ⟨s', hs', hu', hn'⟩ := h.fwd hinv hs₀
      exact ⟨s', hs', hu'.trans hu, hn'.trans hn⟩
  equippedUser k e he := by
    rw [h.others.get _ (by decide)] at he ⊢
    exact hinv.equippedUser k e he
  coherent hst id' s' hs' := by
    rcases eq_or_ne id' id with rfl | hid
    · rw [h.row] at hs'
      cases hs'
      exact ⟨c, hround hst, h.catalogs.are⟩
    · rw [h.otherSpecs id' hid] at hs'
      obtain ⟨c', hc', hare⟩ := hinv.coherent hst id' s' hs'
      exact ⟨c', hc', hare.same (h.catalogs.same hid) rfl rfl⟩

theorem guarantee (h : SpecUpserted pg u n spec id s c pre post) (hinv : Inv pg w.strict pre)
    (hw : ¬w.frozen) (hround : w.strict → parseCatalogs (pg.value s.spec) = .ok c)
    {L : List (Lock Table.Key)} (hL : Holds L ⟨.specs, id⟩) :
    Guarantee (protocol pg w) L pre post := by
  refine guarantee_of_keeps (h.inv hinv hround) (.of_frame h.others (by decide) ?_ ?_)
    (fun hf => absurd hf hw) ?_ ?_
  · exact fun v r hv => ⟨r, (h.others.get _ (by decide)).trans hv⟩
  · intro m b _ s₀ hs₀
    obtain ⟨s', hs', hu, -⟩ := h.fwd hinv hs₀
    exact ⟨s', hs', hu⟩
  · intro id'
    rcases eq_or_ne id' id with rfl | hid
    · exact .inl hL.shares
    · refine .inr ((h.catalogs.same hid).keepsSpec fun m b hb hs => ⟨b, ?_, hs⟩)
      rwa [h.others.get _ (by decide)] at hb
  · refine fun m => .inr (.of_frame h.others (by decide) fun b s₀ _ hs₀ => ?_)
    obtain ⟨s', hs', hu, -⟩ := h.fwd hinv hs₀
    exact ⟨s', hs', hu⟩

end SpecUpserted

namespace SpecDeleted

variable {u : Uuid} {n : String} {id : Int}

theorem inv (h : SpecDeleted u n id pre post) (hinv : Inv pg w.strict pre) :
    Inv pg w.strict post where
  index u' n' id' hi := by
    rcases eq_or_ne (u', n') (u, n) with he | hne
    · cases he
      rw [h.name] at hi
      cases hi
    · rw [h.otherNames _ hne] at hi
      obtain ⟨s, hs, hu, hn⟩ := hinv.index u' n' id' hi
      refine ⟨s, (h.otherSpecs id' fun e => hne ?_).trans hs, hu, hn⟩
      obtain ⟨s', hs', hu', hn'⟩ := hinv.index u n id h.index
      rw [e, hs'] at hs
      cases hs
      exact Prod.ext (hu.symm.trans hu') (hn.symm.trans hn')
  indexed id' s hs := by
    rcases eq_or_ne id' id with rfl | hid
    · rw [h.row] at hs
      cases hs
    · rw [h.otherSpecs id' hid] at hs
      have hi := hinv.indexed id' s hs
      refine (h.otherNames _ fun e => hid ?_).trans hi
      rw [e, h.index] at hi
      exact (Option.some.inj hi).symm
  bindSpec m b hb := by
    rw [h.others.get _ (by decide)] at hb
    rw [h.otherSpecs _ (h.unbound m b hb)]
    exact hinv.bindSpec m b hb
  games u' n' slug r id' hk hr := by
    obtain ⟨hk, hne⟩ := (h.games _ r).1 hk
    rw [h.otherSpecs id' fun e => hne (by rw [hr, e])]
    exact hinv.games u' n' slug r id' hk hr
  collectibles k r hk := by
    obtain ⟨hk, hne⟩ := (h.collectibles k r).1 hk
    rw [h.otherSpecs _ hne]
    exact hinv.collectibles k r hk
  hats k r hk := by
    obtain ⟨hk, hne⟩ := (h.hats k r).1 hk
    rw [h.otherSpecs _ hne]
    exact hinv.hats k r hk
  equippedUser k e he := by
    rw [h.others.get _ (by decide)] at he ⊢
    exact hinv.equippedUser k e he
  coherent hst id' s hs := by
    rcases eq_or_ne id' id with rfl | hid
    · rw [h.row] at hs
      cases hs
    · rw [h.otherSpecs id' hid] at hs
      obtain ⟨c, hc, hare⟩ := hinv.coherent hst id' s hs
      exact ⟨c, hc, hare.same (h.same hid) rfl rfl⟩

theorem guarantee (h : SpecDeleted u n id pre post) (hinv : Inv pg w.strict pre)
    (hw : ¬w.frozen) {L : List (Lock Table.Key)} (hL : Holds L ⟨.specs, id⟩) :
    Guarantee (protocol pg w) L pre post := by
  have howner : ∀ m b, pre.get ⟨.mapListingBind, m⟩ = some b → ∀ s,
      pre.get ⟨.specs, b.specId⟩ = some s →
      ∃ s', post.get ⟨.specs, b.specId⟩ = some s' ∧ s'.userId = s.userId :=
    fun m b hb s hs => ⟨s, (h.otherSpecs _ (h.unbound m b hb)).trans hs, rfl⟩
  refine guarantee_of_keeps (h.inv hinv) (.of_frame h.others (by decide) ?_ howner)
    (fun hf => absurd hf hw) ?_ ?_
  · exact fun v r hv => ⟨r, (h.others.get _ (by decide)).trans hv⟩
  · intro id'
    rcases eq_or_ne id' id with rfl | hid
    · exact .inl hL.shares
    · refine .inr ((h.same hid).keepsSpec fun m b hb hs => ⟨b, ?_, hs⟩)
      rwa [h.others.get _ (by decide)] at hb
  · exact fun m => .inr (.of_frame h.others (by decide) fun b s hb => howner m b hb s)

end SpecDeleted

namespace CatalogDeleted

variable {t : Table}

/-- Every row of every table but users and the bindings it is about only disappears. -/
theorem shrinks (h : CatalogDeleted w.strict t pre post) {t' : Table} {k : t'.Key} {r : t'.Row}
    (hk : post.get ⟨t', k⟩ = some r) : pre.get ⟨t', k⟩ = some r := by
  rcases eq_or_ne t' t with rfl | hne
  · exact h.shrink k r hk
  · rwa [h.others ⟨t', k⟩ (by simpa using hne)] at hk

theorem same {id : Int} (h : CatalogDeleted w.strict t pre post) (hst : w.strict) :
    SameCatalogs id pre post := by
  have hback : ∀ {t' : Table} {k : t'.Key} {r : t'.Row}, pre.get ⟨t', k⟩ = some r →
      (specOf t' k r).isSome = true → post.get ⟨t', k⟩ = some r := by
    intro t' k r hk hs
    rcases eq_or_ne t' t with rfl | hne
    · exact h.orphans hst k r hk hs
    · rwa [h.others ⟨t', k⟩ (by simpa using hne)]
  refine ⟨fun k r hr => ⟨h.shrinks, fun hk => hback hk ?_⟩,
    fun k r _ => ⟨h.shrinks, fun hk =>
    hback hk rfl⟩, fun k r _ => ⟨h.shrinks, fun hk => hback hk rfl⟩⟩
  show r.specId.isSome = true
  rw [hr]
  rfl

theorem frame (h : CatalogDeleted w.strict t pre post) : Frame catalogTables pre post :=
  h.others.mono fun t' ht' => by
    rw [List.mem_singleton.1 ht']
    exact h.catalog

theorem inv (h : CatalogDeleted w.strict t pre post) (hinv : Inv pg w.strict pre) :
    Inv pg w.strict post where
  index u n id hi := by
    rw [h.frame.get _ (by decide)] at hi ⊢
    exact hinv.index u n id hi
  indexed id s hs := by
    rw [h.frame.get _ (by decide)] at hs ⊢
    exact hinv.indexed id s hs
  bindSpec m b hb := by
    rw [h.frame.get _ (by decide)] at hb ⊢
    exact hinv.bindSpec m b hb
  games u n slug r id hk hr := by
    rw [h.frame.get _ (by decide)]
    exact hinv.games u n slug r id (h.shrinks hk) hr
  collectibles k r hk := by
    rw [h.frame.get _ (by decide)]
    exact hinv.collectibles k r (h.shrinks hk)
  hats k r hk := by
    rw [h.frame.get _ (by decide)]
    exact hinv.hats k r (h.shrinks hk)
  equippedUser k e he := by
    rw [h.frame.get _ (by decide)] at he ⊢
    exact hinv.equippedUser k e he
  coherent hst id s hs := by
    rw [h.frame.get _ (by decide)] at hs
    obtain ⟨c, hc, hare⟩ := hinv.coherent hst id s hs
    exact ⟨c, hc, hare.same (h.same hst) rfl rfl⟩

theorem guarantee (h : CatalogDeleted w.strict t pre post) (hinv : Inv pg w.strict pre)
    (L : List (Lock Table.Key)) : Guarantee (protocol pg w) L pre post := by
  have howner : ∀ m b, pre.get ⟨.mapListingBind, m⟩ = some b → ∀ s,
      pre.get ⟨.specs, b.specId⟩ = some s →
      ∃ s', post.get ⟨.specs, b.specId⟩ = some s' ∧ s'.userId = s.userId :=
    fun m b _ s hs => ⟨s, (h.frame.get _ (by decide)).trans hs, rfl⟩
  refine guarantee_of_keeps (h.inv hinv) (.of_frame h.frame (by decide) ?_ howner)
    (fun _ _ => h.frame.get _ (by decide)) ?_ ?_
  · exact fun v r hv => ⟨r, (h.frame.get _ (by decide)).trans hv⟩
  · refine fun id => .inr ⟨fun _ _ _ => h.shrinks, fun _ _ _ => h.shrinks,
      fun _ _ _ => h.shrinks, fun m b hb hs => ⟨b, h.shrinks hb, hs⟩⟩
  · exact fun m => .inr (.of_frame h.frame (by decide) fun b s hb => howner m b hb s)

end CatalogDeleted

/-! ## Bindings -/

namespace Bound

variable {m : String} {specId : Int} {s : SpecRow} {c : Parsed} {t : Time} {purge : Bool}

theorem verified (h : Bound pg m specId s c t purge pre post) :
    VerifiedAt post m
      { specId, verified := some (s.userId, t),
        materialized := some (s.updatedAt, s.specHash pg) } :=
  ⟨h.bind, s, (h.others.get _ (by decide)).trans h.spec, by
    simp [BindRow.isVerified, BindRow.authorVerifiedAt, BindRow.verifiedAuthorId]⟩

theorem inv (h : Bound pg m specId s c t purge pre post) (hinv : Inv pg w.strict pre) :
    Inv pg w.strict post where
  index u n id hi := by
    rw [h.others.get _ (by decide)] at hi ⊢
    exact hinv.index u n id hi
  indexed id s' hs := by
    rw [h.others.get _ (by decide)] at hs ⊢
    exact hinv.indexed id s' hs
  bindSpec m' b hb := by
    rw [h.others.get _ (by decide)]
    rcases eq_or_ne m' m with rfl | hm
    · rw [h.bind] at hb
      cases hb
      exact ⟨s, h.spec⟩
    · rw [h.otherBinds m' hm] at hb
      exact hinv.bindSpec m' b hb
  games u n slug r id hk hr := by
    rw [h.others.get _ (by decide)]
    rcases (h.catalogs.games _ r).1 hk with hm | ⟨hk, -⟩
    · obtain ⟨g, -, he⟩ := List.mem_map.1 hm
      cases he
      cases hr
      exact ⟨s, h.spec, rfl, rfl⟩
    · exact hinv.games u n slug r id hk hr
  collectibles k r hk := by
    rw [h.others.get _ (by decide)]
    rcases (h.catalogs.collectibles k r).1 hk with hm | ⟨hk, -⟩
    · obtain ⟨x, -, he⟩ := List.mem_map.1 hm
      cases he
      exact ⟨s, h.spec, rfl, rfl⟩
    · exact hinv.collectibles k r hk
  hats k r hk := by
    rw [h.others.get _ (by decide)]
    rcases (h.catalogs.hats k r).1 hk with hm | ⟨hk, -⟩
    · obtain ⟨x, -, he⟩ := List.mem_map.1 hm
      cases he
      exact ⟨s, h.spec, rfl, rfl⟩
    · exact hinv.hats k r hk
  equippedUser k e he := by
    rw [h.others.get _ (by decide)]
    exact hinv.equippedUser k e ((h.equipped k e).1 he).1
  coherent hst id s' hs := by
    rw [h.others.get _ (by decide)] at hs
    rcases eq_or_ne id specId with rfl | hid
    · rw [h.spec] at hs
      cases hs
      exact ⟨c, h.parsed, h.catalogs.are⟩
    · obtain ⟨c', hc', hare⟩ := hinv.coherent hst id s' hs
      exact ⟨c', hc', hare.same (h.catalogs.same hid) rfl rfl⟩

theorem stays (h : Bound pg m specId s c t purge pre post) : Stays pre post where
  users u r hu := ⟨r, (h.others.get _ (by decide)).trans hu⟩
  verified m' b hv := by
    rcases eq_or_ne m' m with rfl | hm
    · exact ⟨_, h.verified⟩
    · obtain ⟨hb, s', hs', hver⟩ := hv
      exact ⟨b, (h.otherBinds m' hm).trans hb, s', (h.others.get _ (by decide)).trans hs', hver⟩
  legacy m' b hl := by
    obtain ⟨hb, hver⟩ := hl
    rcases eq_or_ne m' m with rfl | hm
    · obtain ⟨hb', s', hs', hver'⟩ := h.verified
      rw [hb] at hb'
      cases hb'
      rw [hver s' hs'] at hver'
      cases hver'
    · refine ⟨(h.otherBinds m' hm).symm.trans hb, fun s' hs' => hver s' ?_⟩
      exact (h.others.get _ (by decide)).trans hs'

theorem keepsBinding (h : Bound pg m specId s c t purge pre post) {m' : String} (hm : m' ≠ m) :
    KeepsBinding m' pre post where
  bind := h.otherBinds m' hm
  owner _ s' _ hs' := ⟨s', (h.others.get _ (by decide)).trans hs', rfl⟩
  games slug := by
    refine Option.ext fun r => ?_
    rw [h.copies.games]
    refine ⟨fun hr => hr.elim (fun hm' => ?_) And.left, fun hr => .inr ⟨hr, hm⟩⟩
    obtain ⟨x, -, he⟩ := List.mem_map.1 hm'
    cases he
    exact absurd rfl hm
  collectibles slug := by
    refine Option.ext fun r => ?_
    rw [h.copies.collectibles]
    refine ⟨fun hr => hr.elim (fun hm' => ?_) And.left, fun hr => .inr ⟨hr, hm⟩⟩
    obtain ⟨x, -, he⟩ := List.mem_map.1 hm'
    cases he
    exact absurd rfl hm
  hats slug := by
    refine Option.ext fun r => ?_
    rw [h.copies.hats]
    refine ⟨fun hr => hr.elim (fun hm' => ?_) And.left, fun hr => .inr ⟨hr, hm⟩⟩
    obtain ⟨x, -, he⟩ := List.mem_map.1 hm'
    cases he
    exact absurd rfl hm
  equipped u e he := ((h.equipped _ e).1 he).1

theorem guarantee (h : Bound pg m specId s c t purge pre post) (hinv : Inv pg w.strict pre)
    {L : List (Lock Table.Key)} (hs : Holds L ⟨.specs, specId⟩)
    (hm : Holds L ⟨.mapListingBind, m⟩) : Guarantee (protocol pg w) L pre post := by
  refine guarantee_of_keeps (h.inv hinv) h.stays (fun _ _ => h.others.get _ (by decide))
    (fun id => ?_) (fun m' => ?_)
  · rcases eq_or_ne id specId with rfl | hid
    · exact .inl hs.shares
    · refine .inr ((h.catalogs.same hid).keepsSpec fun m' b hb hb' => ?_)
      rcases eq_or_ne m' m with rfl | hm'
      · rw [h.bind] at hb
        cases hb
        exact absurd hb'.symm hid
      · exact ⟨b, (h.otherBinds m' hm').symm.trans hb, hb'⟩
  · rcases eq_or_ne m' m with rfl | hm'
    · exact .inl hm.shares
    · exact .inr (h.keepsBinding hm')

end Bound

/-! ## Accounts, unlocks and worn hats -/

/-- Neither specs nor catalogs are touched, and bindings stay with their specs. -/
theorem Inv.around (hinv : Inv pg w.strict pre)
    (h : Frame [.users, .displayNames, .hatUnlock, .hatEquipped, .mapListingBind] pre post)
    (hb : ∀ m b, post.get ⟨.mapListingBind, m⟩ = some b →
      ∃ b₀, pre.get ⟨.mapListingBind, m⟩ = some b₀ ∧ b₀.specId = b.specId)
    (he : ∀ k e, post.get ⟨.hatEquipped, k⟩ = some e →
      ∃ u, post.get ⟨.users, k.1⟩ = some u) : Inv pg w.strict post where
  index u n id hi := by
    rw [h.get _ (by decide)] at hi ⊢
    exact hinv.index u n id hi
  indexed id s hs := by
    rw [h.get _ (by decide)] at hs ⊢
    exact hinv.indexed id s hs
  bindSpec m b hm := by
    obtain ⟨b₀, hb₀, hspec⟩ := hb m b hm
    rw [h.get _ (by decide), ← hspec]
    exact hinv.bindSpec m b₀ hb₀
  games u n slug r id hk hr := by
    rw [h.get _ (by decide)] at hk ⊢
    exact hinv.games u n slug r id hk hr
  collectibles k r hk := by
    rw [h.get _ (by decide)] at hk ⊢
    exact hinv.collectibles k r hk
  hats k r hk := by
    rw [h.get _ (by decide)] at hk ⊢
    exact hinv.hats k r hk
  equippedUser := he
  coherent hst id s hs := by
    rw [h.get _ (by decide)] at hs
    obtain ⟨c, hc, hare⟩ := hinv.coherent hst id s hs
    exact ⟨c, hc, hare.same (.of_frame h (by decide)) rfl rfl⟩

/-- Neither specs nor bindings nor catalogs are touched. -/
theorem Inv.aside (hinv : Inv pg w.strict pre)
    (h : Frame [.users, .displayNames, .hatUnlock, .hatEquipped] pre post)
    (he : ∀ k e, post.get ⟨.hatEquipped, k⟩ = some e →
      ∃ u, post.get ⟨.users, k.1⟩ = some u) : Inv pg w.strict post := by
  refine hinv.around (fun k hk => h k fun hmem => hk ?_) (fun m b hb => ⟨b, ?_, rfl⟩) he
  · simp only [List.mem_cons] at hmem ⊢
    tauto
  · rwa [h.get _ (by decide)] at hb

theorem guarantee_aside {L : List (Lock Table.Key)} (hinv : Inv pg w.strict pre)
    (h : Frame [.users, .displayNames, .hatUnlock, .hatEquipped] pre post)
    (husers : ∀ u r, pre.get ⟨.users, u⟩ = some r →
      ∃ r', post.get ⟨.users, u⟩ = some r')
    (he : ∀ m, Shares L ⟨.mapListingBind, m⟩ ∨
      ∀ u e, post.get ⟨.hatEquipped, (u, m)⟩ = some e →
      pre.get ⟨.hatEquipped, (u, m)⟩ = some e)
    (hu : ∀ k e, post.get ⟨.hatEquipped, k⟩ = some e →
      ∃ u, post.get ⟨.users, k.1⟩ = some u) : Guarantee (protocol pg w) L pre post := by
  have howner : ∀ b : BindRow, ∀ s, pre.get ⟨.specs, b.specId⟩ = some s →
      ∃ s', post.get ⟨.specs, b.specId⟩ = some s' ∧ s'.userId = s.userId :=
    fun b s hs => ⟨s, (h.get _ (by decide)).trans hs, rfl⟩
  refine guarantee_of_keeps (hinv.aside h hu)
    (.of_frame h (by decide) husers fun m b _ => howner b) (fun _ _ => h.get _ (by decide))
    (fun id => ?_) (fun m => ?_)
  · exact .inr (.of_frame h (by decide))
  · refine (he m).imp id fun he => ?_
    exact ⟨h.get _ (by decide), fun b s _ => howner b s, fun _ => h.get _ (by decide),
      fun _ => h.get _ (by decide), fun _ => h.get _ (by decide), he⟩

theorem Put.frame {k : DbKey} {r : k.table.Row} (h : Put k r pre post) : Frame [k.table] pre post :=
  fun k' hk' => h.others k' fun e => hk' (by rw [e]; exact List.mem_singleton_self _)

theorem Unlocked.frame {u : Uuid} {key : String} (h : Unlocked u key pre post) :
    Frame [.hatUnlock] pre post :=
  fun k hk => h.rest k fun e => hk (by rw [e]; exact List.mem_singleton_self _)

theorem Unlocked.guarantee {u : Uuid} {key : String} (h : Unlocked u key pre post)
    (hinv : Inv pg w.strict pre) (L : List (Lock Table.Key)) :
    Guarantee (protocol pg w) L pre post := by
  refine guarantee_aside hinv (h.frame.mono (by simp)) (fun v r hv => ⟨r, ?_⟩)
    (fun m => .inr fun v e he => ?_) (fun k e he => ?_)
  · exact (h.frame.get _ (by decide)).trans hv
  · exact (h.frame.get _ (by decide)).symm.trans he
  · rw [h.frame.get _ (by decide)] at he ⊢
    exact hinv.equippedUser k e he

theorem Equipped.guarantee {u : Uuid} {m : String} {e : HatEquippedRow}
    (h : Equipped u m e pre post) (hinv : Inv pg w.strict pre) {L : List (Lock Table.Key)}
    (hL : Shares L ⟨.mapListingBind, m⟩) : Guarantee (protocol pg w) L pre post := by
  have hf : Frame [.hatEquipped] pre post := h.put.frame
  refine guarantee_aside hinv (hf.mono (by simp)) (fun v r hv => ⟨r, ?_⟩) (fun m' => ?_)
    (fun k e' he => ?_)
  · exact (hf.get _ (by decide)).trans hv
  · rcases eq_or_ne m' m with rfl | hm
    · exact .inl hL
    · refine .inr fun v e' he => ?_
      rwa [h.put.others _ (by simp [hm])] at he
  · rw [hf.get _ (by decide)]
    rcases eq_or_ne k (u, m) with rfl | hk
    · exact h.user
    · rw [h.put.others _ (by simpa using hk)] at he
      exact hinv.equippedUser k e' he

theorem Unequipped.shrinks {u : Uuid} {m : String} (h : Unequipped u m pre post)
    {k : Table.hatEquipped.Key} {e : HatEquippedRow}
    (he : post.get ⟨.hatEquipped, k⟩ = some e) : pre.get ⟨.hatEquipped, k⟩ = some e := by
  rcases eq_or_ne k (u, m) with rfl | hk
  · rw [h.gone] at he
    cases he
  · rwa [h.others _ (by simpa using hk)] at he

theorem Unequipped.frame {u : Uuid} {m : String} (h : Unequipped u m pre post) :
    Frame [.hatEquipped] pre post :=
  fun k hk => h.others k fun e => hk (by rw [e]; exact List.mem_singleton_self _)

theorem Unequipped.guarantee {u : Uuid} {m : String} (h : Unequipped u m pre post)
    (hinv : Inv pg w.strict pre) (L : List (Lock Table.Key)) :
    Guarantee (protocol pg w) L pre post := by
  refine guarantee_aside hinv (h.frame.mono (by simp)) (fun v r hv => ⟨r, ?_⟩)
    (fun _ => .inr fun _ _ => h.shrinks) (fun k e he => ?_)
  · exact (h.frame.get _ (by decide)).trans hv
  · rw [h.frame.get _ (by decide)]
    exact hinv.equippedUser k e (h.shrinks he)

theorem LoggedIn.guarantee (h : LoggedIn pre post) (hinv : Inv pg w.strict pre)
    (L : List (Lock Table.Key)) : Guarantee (protocol pg w) L pre post := by
  refine guarantee_aside hinv (h.others.mono (by simp)) h.users
    (fun m => .inr fun v e he => ?_) (fun k e he => ?_)
  · exact (h.others.get _ (by decide)).symm.trans he
  · rw [h.others.get _ (by decide)] at he
    obtain ⟨r, hr⟩ := hinv.equippedUser k e he
    exact h.users k.1 r hr

end

end Dd2Server
