import Dd2Server.Statements

/-!
# Materializing a spec on a map

The statements both binds run once the spec and the binding row are locked.  Each replaces the rows
of one table, so the view after them is the view before them with seven tables replaced and the
revision recorded: `Materialized`.
-/

namespace Dd2Server

open ReadCommitted

/-! ## The rows of a materialized map -/

def Parsed.gamesOnMap (pg : Pg) (c : Parsed) (m : String) (specId : Int) (s : SpecRow) :
    List (Table.minigameOnMap.Key × MinigameOnMapRow) :=
  (c.gameRows specId s).map fun e => ((m, e.1.2.2), Minigames.onMapRow pg m e.1 e.2)

def Parsed.collectiblesOnMap (pg : Pg) (c : Parsed) (m : String) (specId : Int) (s : SpecRow) :
    List (Table.collectibleOnMap.Key × CollectibleOnMapRow) :=
  (c.collectibleRows specId s).map fun e => ((m, e.1.2), Collectibles.onMapRow pg m e.1 e.2)

def Parsed.hatsOnMap (pg : Pg) (c : Parsed) (m : String) (specId : Int) (s : SpecRow) :
    List (Table.hatOnMap.Key × HatOnMapRow) :=
  (c.hatRows specId s).map fun e => ((m, e.1.2), Hats.onMapRow pg m e.1 e.2)

/-- A worn hat has the slug and the key of a hat of the catalog on the map. -/
def Parsed.fits (pg : Pg) (c : Parsed) (m : String) (e : HatEquippedRow) : Bool :=
  c.hats.any fun h => h.slug = e.slug && Hats.hatKey pg m h.slug = e.hatKey

/-- The entries are about players who wear nothing on the map. -/
def Bareheaded (m : String) (v : Db) (entries : List HatOnMapPlayer) : Prop :=
  ∀ x ∈ entries, x.slug = "" ∧ ∃ u : Uuid, x.wsid = u.text ∧
    v.get ⟨.hatEquipped, (u, m)⟩ = none

theorem Bareheaded.nil {m : String} {v : Db} : Bareheaded m v [] := by
  intro x hx
  cases hx

/-- The worn hats of a map that `q` picks are off, and each has an entry in `removed`. -/
structure TakenOff (m : String) (q : HatEquippedRow → Bool) (removed : List HatOnMapPlayer)
    (v₀ v : Db) : Prop where
  replaced : Replaced .hatEquipped (fun k e => k.2 = m && q e) [] v₀ v
  entries : ∀ u e, v₀.get ⟨.hatEquipped, (u, m)⟩ = some e → q e = true →
    ∃ x ∈ removed, x.wsid = u.text ∧ x.slug = ""
  bare : Bareheaded m v removed

/-- One row is set. -/
structure Put (k : DbKey) (r : k.table.Row) (v₀ v : Db) : Prop where
  row : v.get k = some r
  others : ∀ k' : DbKey, k' ≠ k → v.get k' = v₀.get k'

/-- The catalogs of a spec are replaced. -/
structure CatalogsReplaced (specId : Int) (s : SpecRow) (c : Parsed) (v₀ v : Db) : Prop where
  games : ∀ k r, v.get ⟨.minigameCatalog, k⟩ = some r ↔
    (k, r) ∈ c.gameRows specId s ∨ v₀.get ⟨.minigameCatalog, k⟩ = some r ∧
      r.specId ≠ some specId
  collectibles : ∀ k r, v.get ⟨.collectibleCatalog, k⟩ = some r ↔
    (k, r) ∈ c.collectibleRows specId s ∨
      v₀.get ⟨.collectibleCatalog, k⟩ = some r ∧ k.1 ≠ specId
  hats : ∀ k r, v.get ⟨.hatCatalog, k⟩ = some r ↔
    (k, r) ∈ c.hatRows specId s ∨ v₀.get ⟨.hatCatalog, k⟩ = some r ∧ k.1 ≠ specId

/-- The copies on a map are replaced. -/
structure CopiesReplaced (pg : Pg) (m : String) (specId : Int) (s : SpecRow) (c : Parsed)
    (v₀ v : Db) : Prop where
  games : ∀ k r, v.get ⟨.minigameOnMap, k⟩ = some r ↔
    (k, r) ∈ c.gamesOnMap pg m specId s ∨ v₀.get ⟨.minigameOnMap, k⟩ = some r ∧
      k.1 ≠ m
  collectibles : ∀ k r, v.get ⟨.collectibleOnMap, k⟩ = some r ↔
    (k, r) ∈ c.collectiblesOnMap pg m specId s ∨
      v₀.get ⟨.collectibleOnMap, k⟩ = some r ∧ k.1 ≠ m
  hats : ∀ k r, v.get ⟨.hatOnMap, k⟩ = some r ↔
    (k, r) ∈ c.hatsOnMap pg m specId s ∨ v₀.get ⟨.hatOnMap, k⟩ = some r ∧ k.1 ≠ m

def catalogTables : List Table := [.minigameCatalog, .collectibleCatalog, .hatCatalog]

def copyTables : List Table := [.minigameOnMap, .collectibleOnMap, .hatOnMap]

/-- The view after the statements of `materializeInTx`. -/
structure Materialized (pg : Pg) (m : String) (specId : Int) (s : SpecRow) (c : Parsed)
    (removed : List HatOnMapPlayer) (v₀ v : Db) : Prop where
  bind : ∃ b, v₀.get ⟨.mapListingBind, m⟩ = some b ∧ b.specId = specId ∧
    v.get ⟨.mapListingBind, m⟩ =
      some { b with materialized := some (s.updatedAt, s.specHash pg) }
  otherBinds : ∀ m', m' ≠ m → v.get ⟨.mapListingBind, m'⟩ = v₀.get
    ⟨.mapListingBind, m'⟩
  catalogs : CatalogsReplaced specId s c v₀ v
  copies : CopiesReplaced pg m specId s c v₀ v
  equipped : ∀ k e, v.get ⟨.hatEquipped, k⟩ = some e ↔
    v₀.get ⟨.hatEquipped, k⟩ = some e ∧ (k.2 = m → c.fits pg m e = true)
  entries : ∀ u e, v₀.get ⟨.hatEquipped, (u, m)⟩ = some e → c.fits pg m e = false →
    ∃ x ∈ removed, x.wsid = u.text ∧ x.slug = ""
  bare : Bareheaded m v removed
  others : Frame (.mapListingBind :: .hatEquipped :: catalogTables ++ copyTables) v₀ v

/-! ## The rules -/

section

variable {σ : Setting Table.Key Table.Row Tag Ask.Ans Act.Out} {since : Log}
  {E : DbError → Known Table.Key Table.Row Tag Ask.Ans Act.Out} {L : List (Lock Table.Key)}
  {A : Assertion Table.Key Table.Row}

theorem takeOff_triple {fn m : String}
    {p : Db → Table.hatEquipped.Key → HatEquippedRow → Bool} {q : HatEquippedRow → Bool}
    (hplain : ∀ v, σ.plain (.saw (.named fn) v)) (hE : OnTrouble σ since E .database)
    (hp : ∀ db v, A db v → ∀ u e, p v (u, m) e = q e)
    (huser : ∀ db v, σ.P.Inv db → A db v →
      ∀ u e, v.get ⟨.hatEquipped, (u, m)⟩ = some e → ∃ r, v.get ⟨.users, u⟩ = some r)
    (hshrink : ∀ db db', σ.P.Inv db → Rely σ.P L db db' → ∀ u e,
      db'.get ⟨.hatEquipped, (u, m)⟩ = some e → db.get ⟨.hatEquipped, (u, m)⟩ = some e) :
    Triple σ since E L A (sql (Hats.takeOffStmt fn m p)) (fun _ => L)
      (fun removed db v => ∃ v₀, A db v₀ ∧ TakenOff m q removed v₀ v) := by
  refine sql_triple hplain hE fun ws db e removed hinv hA _ hrun => ?_
  have hfun : (fun (k : Table.hatEquipped.Key) (r : HatEquippedRow) =>
      decide (k.2 = m) && p (Store.view ws db) k r) = fun k r => decide (k.2 = m) && q r := by
    funext k r
    obtain ⟨u, m'⟩ := k
    rcases eq_or_ne m' m with rfl | hne
    · rw [hp db _ hA]
    · simp [hne]
  simp only [Hats.takeOffStmt, hfun] at hrun
  cases hrun
  refine ⟨fun x hx => List.mem_append_right _ hx, fun db' hr hA' => ⟨_, hA', ?_, ?_, ?_⟩⟩
  · refine deleteWhere_replaced hr fun k r hk => ?_
    obtain ⟨u, m'⟩ := k
    simp only [Bool.and_eq_true, decide_eq_true_eq] at hk
    obtain ⟨rfl, -⟩ := hk
    exact hshrink db db' hinv (hr.mono fun x hx => List.mem_append_right _ hx) u r
  · intro u e' he hq
    have he₁ := Store.view_get_shrink
      (hshrink db db' hinv (hr.mono fun x hx => List.mem_append_right _ hx) u e') he
    obtain ⟨r, hu⟩ := huser db _ hinv hA u e' he₁
    refine ⟨{ wsid := u.text, name := r.displayName, slug := "" }, ?_, rfl, rfl⟩
    refine List.mem_filterMap.2 ⟨((u, m), e'), mem_selectWhere.2 ⟨he₁, by simp [hq]⟩, ?_⟩
    simp [hu]
  · intro x hx
    obtain ⟨⟨⟨u, m'⟩, e'⟩, hsel, hentry⟩ := List.mem_filterMap.1 hx
    obtain ⟨hget, hq⟩ := mem_selectWhere.1 hsel
    simp only [Bool.and_eq_true, decide_eq_true_eq] at hq
    obtain ⟨rfl, hq⟩ := hq
    obtain ⟨r, -, rfl⟩ := Option.map_eq_some_iff.1 hentry
    refine ⟨rfl, u, rfl, ?_⟩
    rw [deleteWhere, Store.get_view_removals, if_pos]
    exact List.mem_map.2 ⟨_, mem_selectWhere.2 ⟨hget, by simp [hq]⟩, rfl⟩

/-- The locks hold a row exclusively. -/
def Holds (L : List (Lock Table.Key)) (k : DbKey) : Prop :=
  ∃ x ∈ L, x.row = k ∧ x.mode.exclusive = true

theorem Holds.keeps {pg : Pg} {w : Scope} {k : DbKey} {db db' : Db} (h : Holds L k)
    (hr : Rely (protocol pg w) L db db') : keeps k db db' := by
  obtain ⟨x, hx, rfl, hm⟩ := h
  exact hr.keep x hx hm

theorem Holds.row {P : Protocol Table.Key Table.Row} {k : DbKey} {db db' : Db} (h : Holds L k)
    (hr : Rely P L db db') : db'.get k = db.get k := by
  obtain ⟨x, hx, rfl, hm⟩ := h
  exact hr.row x hx fun e => by rw [e] at hm; cases hm

theorem setMaterialized_triple {m : String} {specId : Int} {t : Time} {hash : String}
    (hplain : ∀ v, σ.plain (.saw (.named "set materialized") v))
    (hE : OnTrouble σ since E .database) (hm : Holds L ⟨.mapListingBind, m⟩)
    (hb : ∀ db v, A db v → ∃ b, v.get ⟨.mapListingBind, m⟩ = some b ∧
      b.specId = specId) :
    Triple σ since E L A (sql (ListedMaps.setMaterializedStmt m specId t hash)) (fun _ => L)
      (fun _ db v => ∃ v₀, A db v₀ ∧ ∃ b, v₀.get ⟨.mapListingBind, m⟩ = some b ∧
        b.specId = specId ∧
        Put ⟨.mapListingBind, m⟩ { b with materialized := some (t, hash) } v₀ v) := by
  refine sql_triple hplain hE fun ws db e a hinv hA _ hrun => ?_
  obtain ⟨b, hget, hs⟩ := hb db _ hA
  simp only [ListedMaps.setMaterializedStmt, hget, hs, if_true] at hrun
  cases hrun
  refine ⟨fun x hx => List.mem_append_right _ hx,
    fun db' hr hA' => ⟨_, hA', b, ?_, hs, ?_, ?_⟩⟩
  · rw [← hget]
    exact Store.view_get_congr (hm.row (hr.mono fun x hx => List.mem_append_right _ hx))
  · rw [← hs]
    exact Store.get_put_self _ (⟨.mapListingBind, m⟩ : DbKey) _
  · exact fun k' hk' => Store.get_put_of_ne (Ne.symm hk')

variable {pg : Pg} {w : Scope} {C : Tag → Db → Prop}
  {G : Promise Table.Key Table.Row Tag Ask.Ans Act.Out} {m : String} {specId : Int} {s : SpecRow}
  {c : Parsed}

theorem replaceGames_triple (hE : OnTrouble (setting pg w C G) since E .database)
    (hs : Holds L ⟨.specs, specId⟩) :
    Triple (setting pg w C G) since E L A
      (Minigames.replaceCatalogInTx specId s.userId s.nameId c.games) (fun _ => L)
      (fun _ db v => ∃ v₀, A db v₀ ∧ Replaced .minigameCatalog
        (fun _ r => decide (r.specId = some specId)) (c.gameRows specId s) v₀ v) :=
  deleteInsertAll_triple (fun _ => trivial) (fun _ => trivial) hE fun _ _ _ hr k r hp =>
    (hs.keeps hr : KeepsSpec specId _ _).games k r (by simpa using hp)

theorem replaceCollectibles_triple (hE : OnTrouble (setting pg w C G) since E .database)
    (hs : Holds L ⟨.specs, specId⟩) :
    Triple (setting pg w C G) since E L A
      (Collectibles.replaceCatalogInTx specId s.userId s.nameId c.collectibles) (fun _ => L)
      (fun _ db v => ∃ v₀, A db v₀ ∧ Replaced .collectibleCatalog
        (fun k _ => decide (k.1 = specId)) (c.collectibleRows specId s) v₀ v) :=
  deleteInsertAll_triple (fun _ => trivial) (fun _ => trivial) hE fun _ _ _ hr k r hp =>
    (hs.keeps hr : KeepsSpec specId _ _).collectibles k r (by simpa using hp)

theorem replaceHats_triple (hE : OnTrouble (setting pg w C G) since E .database)
    (hs : Holds L ⟨.specs, specId⟩) :
    Triple (setting pg w C G) since E L A
      (Hats.replaceCatalogInTx specId s.userId s.nameId c.hats) (fun _ => L)
      (fun _ db v => ∃ v₀, A db v₀ ∧ Replaced .hatCatalog
        (fun k _ => decide (k.1 = specId)) (c.hatRows specId s) v₀ v) :=
  deleteInsertAll_triple (fun _ => trivial) (fun _ => trivial) hE fun _ _ _ hr k r hp =>
    (hs.keeps hr : KeepsSpec specId _ _).hats k r (by simpa using hp)

theorem mem_map_congr {α β : Type} {f : α → β} {xs ys : List α}
    (h : ∀ x, x ∈ xs ↔ x ∈ ys) (y : β) : y ∈ xs.map f ↔ y ∈ ys.map f := by
  simp only [List.mem_map, h]

theorem bindGames_triple (hE : OnTrouble (setting pg w C G) since E .database)
    (hm : Holds L ⟨.mapListingBind, m⟩)
    (hcat : ∀ db v, A db v → ∀ k r, v.get ⟨.minigameCatalog, k⟩ = some r ∧
      r.specId = some specId ↔ (k, r) ∈ c.gameRows specId s) :
    Triple (setting pg w C G) since E L A (Minigames.bindMapFromCatalogInTx pg m specId)
      (fun _ => L) (fun _ db v => ∃ v₀, A db v₀ ∧ Replaced .minigameOnMap
        (fun k _ => decide (k.1 = m)) (c.gamesOnMap pg m specId s) v₀ v) := by
  refine deleteInsertSelect_triple (fun _ => trivial) (fun _ => trivial) hE
    (fun db db' _ hr k r hp hk => ?_) ?_
  · obtain ⟨m', slug⟩ := k
    obtain rfl : m' = m := by simpa using hp
    rw [← (hm.keeps hr : KeepsBinding m' _ _).games slug]
    exact hk
  · intro db v₀ v hA hrep
    refine mem_map_congr fun e => ?_
    rw [mem_selectWhere, hrep.others ⟨.minigameCatalog, e.1⟩ (by simp), decide_eq_true_eq]
    exact hcat db v₀ hA e.1 e.2

theorem bindCollectibles_triple (hE : OnTrouble (setting pg w C G) since E .database)
    (hm : Holds L ⟨.mapListingBind, m⟩)
    (hcat : ∀ db v, A db v → ∀ k r, v.get ⟨.collectibleCatalog, k⟩ = some r ∧
      k.1 = specId ↔ (k, r) ∈ c.collectibleRows specId s) :
    Triple (setting pg w C G) since E L A
      (Collectibles.bindMapFromCatalogInTx pg m specId)
      (fun _ => L) (fun _ db v => ∃ v₀, A db v₀ ∧ Replaced .collectibleOnMap
        (fun k _ => decide (k.1 = m)) (c.collectiblesOnMap pg m specId s) v₀ v) := by
  refine deleteInsertSelect_triple (fun _ => trivial) (fun _ => trivial) hE
    (fun db db' _ hr k r hp hk => ?_) ?_
  · obtain ⟨m', slug⟩ := k
    obtain rfl : m' = m := by simpa using hp
    rw [← (hm.keeps hr : KeepsBinding m' _ _).collectibles slug]
    exact hk
  · intro db v₀ v hA hrep
    refine mem_map_congr fun e => ?_
    rw [mem_selectWhere, hrep.others ⟨.collectibleCatalog, e.1⟩ (by simp), decide_eq_true_eq]
    exact hcat db v₀ hA e.1 e.2

/-- With the hats of a catalog on the map, a worn hat is on the map if and only if it fits. -/
theorem onMap_eq_fits {v : Db} {e : HatEquippedRow}
    (h : ∀ slug r, v.get ⟨.hatOnMap, (m, slug)⟩ = some r ↔
      ((m, slug), r) ∈ c.hatsOnMap pg m specId s) : Hats.onMap v m e = c.fits pg m e := by
  have hmem : ∀ slug r, ((m, slug), r) ∈ c.hatsOnMap pg m specId s ↔
      ∃ x ∈ c.hats, x.slug = slug ∧
        r = Hats.onMapRow pg m (specId, x.slug) (Hats.catalogRow s.userId s.nameId x) := by
    intro slug r
    simp only [Parsed.hatsOnMap, Parsed.hatRows, List.map_map, List.mem_map, Function.comp_apply,
      Prod.mk.injEq, true_and]
    constructor
    · rintro ⟨x, hx, rfl, rfl⟩
      exact ⟨x, hx, rfl, rfl⟩
    · rintro ⟨x, hx, rfl, rfl⟩
      exact ⟨x, hx, rfl, rfl⟩
  rw [Bool.eq_iff_iff]
  simp only [Hats.onMap, Parsed.fits, List.any_eq_true, Bool.and_eq_true, decide_eq_true_eq]
  constructor
  · intro hon
    cases hg : v.get ⟨.hatOnMap, (m, e.slug)⟩ with
    | none => simp [hg] at hon
    | some r =>
        obtain ⟨x, hx, hslug, rfl⟩ := (hmem e.slug r).1 ((h e.slug r).1 hg)
        simp only [hg, decide_eq_true_eq] at hon
        exact ⟨x, hx, hslug, hon⟩
  · rintro ⟨x, hx, hslug, hkey⟩
    have hg := (h e.slug _).2 ((hmem e.slug _).2 ⟨x, hx, hslug, rfl⟩)
    simp only [hg, decide_eq_true_eq]
    exact hkey

theorem bindHats_triple (hE : OnTrouble (setting pg w C G) since E .database)
    (hm : Holds L ⟨.mapListingBind, m⟩)
    (hcat : ∀ db v, A db v → ∀ k r, v.get ⟨.hatCatalog, k⟩ = some r ∧
      k.1 = specId ↔ (k, r) ∈ c.hatRows specId s)
    (huser : ∀ db v, Inv pg w.strict db → A db v → ∀ u e,
      v.get ⟨.hatEquipped, (u, m)⟩ = some e → ∃ r, v.get ⟨.users, u⟩ = some r) :
    Triple (setting pg w C G) since E L A (Hats.bindMapFromCatalogInTx pg m specId)
      (fun _ => L) (fun r db v => ∃ v₁, (∃ v₀, A db v₀ ∧ Replaced .hatOnMap
        (fun k _ => decide (k.1 = m)) (c.hatsOnMap pg m specId s) v₀ v₁) ∧
          TakenOff m (fun e => !c.fits pg m e) r.removedWearers v₁ v) := by
  have hbind : Triple (setting pg w C G) since E L A
      (do sql (deleteStmt (.named "hats::bind_map_from_catalog_in_tx") .hatOnMap
            fun k _ => k.1 = m)
          sql (insertSelectStmt (.named "hats::bind_map_from_catalog_in_tx") .hatOnMap fun v =>
            (selectWhere .hatCatalog (fun k _ => k.1 = specId) v).map fun e =>
              ((m, e.1.2), Hats.onMapRow pg m e.1 e.2)))
      (fun _ => L) (fun _ db v => ∃ v₀, A db v₀ ∧ Replaced .hatOnMap
        (fun k _ => decide (k.1 = m)) (c.hatsOnMap pg m specId s) v₀ v) := by
    refine deleteInsertSelect_triple (fun _ => trivial) (fun _ => trivial) hE
      (fun db db' _ hr k r hp hk => ?_) ?_
    · obtain ⟨m', slug⟩ := k
      obtain rfl : m' = m := by simpa using hp
      rw [← (hm.keeps hr : KeepsBinding m' _ _).hats slug]
      exact hk
    · intro db v₀ v hA hrep
      refine mem_map_congr fun e => ?_
      rw [mem_selectWhere, hrep.others ⟨.hatCatalog, e.1⟩ (by simp), decide_eq_true_eq]
      exact hcat db v₀ hA e.1 e.2
  have htake : Triple (setting pg w C G) since E L
      (fun db v => ∃ v₀, A db v₀ ∧ Replaced .hatOnMap (fun k _ => decide (k.1 = m))
        (c.hatsOnMap pg m specId s) v₀ v)
      (sql (Hats.takeOffStmt "hats::bind_map_from_catalog_in_tx" m fun v k r =>
        !Hats.onMap v k.2 r)) (fun _ => L)
      (fun removed db v => ∃ v₁, (∃ v₀, A db v₀ ∧ Replaced .hatOnMap
        (fun k _ => decide (k.1 = m)) (c.hatsOnMap pg m specId s) v₀ v₁) ∧
          TakenOff m (fun e => !c.fits pg m e) removed v₁ v) := by
    refine takeOff_triple (fun _ => trivial) hE ?_ ?_ ?_
    · rintro db v ⟨v₀, hA, hrep⟩ u e
      have honly : ∀ slug r, v.get ⟨.hatOnMap, (m, slug)⟩ = some r ↔
          ((m, slug), r) ∈ c.hatsOnMap pg m specId s := by
        intro slug r
        rw [hrep.rows]
        simp
      rw [onMap_eq_fits honly]
    · rintro db v hinv ⟨v₀, hA, hrep⟩ u e he
      rw [hrep.others ⟨.hatEquipped, (u, m)⟩ (by simp)] at he
      rw [hrep.others ⟨.users, u⟩ (by simp)]
      exact huser db v₀ hinv hA u e he
    · exact fun db db' _ hr => (hm.keeps hr : KeepsBinding m _ _).equipped
  rw [Hats.bindMapFromCatalogInTx, ← bind_assoc]
  refine Triple.bind hbind fun bound => Triple.bind htake fun removed => .pure ?_ fun x hx => hx
  exact fun db v _ hA => hA

theorem CatalogsReplaced.of_steps {v₀ v₁ v₂ v : Db}
    (hg : Replaced .minigameCatalog (fun _ r => decide (r.specId = some specId))
      (c.gameRows specId s) v₀ v₁)
    (hc : Replaced .collectibleCatalog (fun k _ => decide (k.1 = specId))
      (c.collectibleRows specId s) v₁ v₂)
    (hh : Replaced .hatCatalog (fun k _ => decide (k.1 = specId)) (c.hatRows specId s) v₂ v) :
    CatalogsReplaced specId s c v₀ v ∧ Frame catalogTables v₀ v := by
  refine ⟨⟨fun k r => ?_, fun k r => ?_, fun k r => ?_⟩, fun k hk => ?_⟩
  · rw [hh.others _ (by simp), hc.others _ (by simp), hg.rows, decide_eq_false_iff_not]
  · rw [hh.others _ (by simp), hc.rows, hg.others _ (by simp), decide_eq_false_iff_not]
  · rw [hh.rows, hc.others _ (by simp), hg.others _ (by simp), decide_eq_false_iff_not]
  · simp only [catalogTables, List.mem_cons, List.not_mem_nil, or_false, not_or] at hk
    rw [hh.others k hk.2.2, hc.others k hk.2.1, hg.others k hk.1]

/-- With the catalogs replaced, the rows of the spec are those of the parsed JSON. -/
theorem CatalogsReplaced.are {v₀ v : Db} (h : CatalogsReplaced specId s c v₀ v) :
    CatalogsAre v specId s c := by
  refine ⟨fun k r => ?_, fun k r => ?_, fun k r => ?_⟩
  · rw [h.games]
    refine ⟨fun ⟨hr, hs⟩ => hr.resolve_right fun hr => hr.2 hs, fun hm => ⟨.inl hm, ?_⟩⟩
    obtain ⟨g, -, he⟩ := List.mem_map.1 hm
    cases he
    rfl
  · rw [h.collectibles]
    refine ⟨fun ⟨hr, hs⟩ => hr.resolve_right fun hr => hr.2 hs, fun hm => ⟨.inl hm, ?_⟩⟩
    obtain ⟨x, -, he⟩ := List.mem_map.1 hm
    cases he
    rfl
  · rw [h.hats]
    refine ⟨fun ⟨hr, hs⟩ => hr.resolve_right fun hr => hr.2 hs, fun hm => ⟨.inl hm, ?_⟩⟩
    obtain ⟨x, -, he⟩ := List.mem_map.1 hm
    cases he
    rfl

theorem replaceCatalogs_triple {α : Type} {L' : α → List (Lock Table.Key)}
    {A' : α → Assertion Table.Key Table.Row} {k : Query DbError α}
    (hE : OnTrouble (setting pg w C G) since E .database) (hs : Holds L ⟨.specs, specId⟩)
    (hk : Triple (setting pg w C G) since E L
      (fun db v => ∃ v₀, A db v₀ ∧ CatalogsReplaced specId s c v₀ v ∧
        Frame catalogTables v₀ v)
      k L' A') :
    Triple (setting pg w C G) since E L A
      (do Minigames.replaceCatalogInTx specId s.userId s.nameId c.games
          Collectibles.replaceCatalogInTx specId s.userId s.nameId c.collectibles
          Hats.replaceCatalogInTx specId s.userId s.nameId c.hats
          k) L' A' := by
  refine Triple.bind (replaceGames_triple hE hs) fun _ =>
    Triple.bind (replaceCollectibles_triple hE hs) fun _ =>
    Triple.bind (replaceHats_triple hE hs) fun _ => hk.pre ?_
  rintro db v - ⟨v₂, ⟨v₁, ⟨v₀, hA, hg⟩, hc⟩, hh⟩
  exact ⟨v₀, hA, CatalogsReplaced.of_steps hg hc hh⟩

theorem Materialized.of_steps {b : BindRow} {removed : List HatOnMapPlayer}
    {v₀ v₁ v₂ v₃ v₄ v₅ v : Db} (hcat : CatalogsReplaced specId s c v₀ v₁)
    (hfr : Frame catalogTables v₀ v₁)
    (hg : Replaced .minigameOnMap (fun k _ => decide (k.1 = m)) (c.gamesOnMap pg m specId s) v₁
      v₂)
    (hc : Replaced .collectibleOnMap (fun k _ => decide (k.1 = m))
      (c.collectiblesOnMap pg m specId s) v₂ v₃)
    (hh : Replaced .hatOnMap (fun k _ => decide (k.1 = m)) (c.hatsOnMap pg m specId s) v₃ v₄)
    (ho : TakenOff m (fun e => !c.fits pg m e) removed v₄ v₅)
    (hb : v₅.get ⟨.mapListingBind, m⟩ = some b) (hspec : b.specId = specId)
    (hp : Put ⟨.mapListingBind, m⟩ { b with materialized := some (s.updatedAt, s.specHash pg) }
      v₅ v) : Materialized pg m specId s c removed v₀ v := by
  have hset : ∀ k : DbKey, k.table ≠ .mapListingBind → v.get k = v₅.get k :=
    fun k hk => hp.others k fun e => hk (by rw [e])
  refine ⟨⟨b, ?_, hspec, hp.row⟩, fun m' hm' =>
    ?_, ⟨fun k r => ?_, fun k r => ?_, fun k r => ?_⟩,
    ⟨fun k r => ?_, fun k r => ?_, fun k r => ?_⟩, fun k e => ?_, fun u e he hf => ?_,
    fun x hx => ?_, fun k hk => ?_⟩
  · rw [← hb, ho.replaced.others _ (by simp), hh.others _ (by simp), hc.others _ (by simp),
      hg.others _ (by simp), hfr.get _ (by decide)]
  · rw [hp.others _ (by simpa using hm'), ho.replaced.others _ (by simp), hh.others _ (by simp),
      hc.others _ (by simp), hg.others _ (by simp), hfr.get _ (by decide)]
  · rw [hset _ (by simp), ho.replaced.others _ (by simp), hh.others _ (by simp),
      hc.others _ (by simp), hg.others _ (by simp), hcat.games]
  · rw [hset _ (by simp), ho.replaced.others _ (by simp), hh.others _ (by simp),
      hc.others _ (by simp), hg.others _ (by simp), hcat.collectibles]
  · rw [hset _ (by simp), ho.replaced.others _ (by simp), hh.others _ (by simp),
      hc.others _ (by simp), hg.others _ (by simp), hcat.hats]
  · rw [hset _ (by simp), ho.replaced.others _ (by simp), hh.others _ (by simp),
      hc.others _ (by simp), hg.rows, hfr.get _ (by decide), decide_eq_false_iff_not]
  · rw [hset _ (by simp), ho.replaced.others _ (by simp), hh.others _ (by simp), hc.rows,
      hg.others _ (by simp), hfr.get _ (by decide), decide_eq_false_iff_not]
  · rw [hset _ (by simp), ho.replaced.others _ (by simp), hh.rows, hc.others _ (by simp),
      hg.others _ (by simp), hfr.get _ (by decide), decide_eq_false_iff_not]
  · rw [hset _ (by simp), ho.replaced.rows, hh.others _ (by simp), hc.others _ (by simp),
      hg.others _ (by simp), hfr.get _ (by decide)]
    simp
  · refine ho.entries u e ?_ (by simp [hf])
    rw [hh.others _ (by simp), hc.others _ (by simp), hg.others _ (by simp), hfr.get _ (by decide)]
    exact he
  · obtain ⟨hslug, u, hu, hnone⟩ := ho.bare x hx
    exact ⟨hslug, u, hu, (hset _ (by simp)).trans hnone⟩
  · simp only [catalogTables, copyTables, List.cons_append, List.nil_append, List.mem_cons,
      List.not_mem_nil, or_false, not_or] at hk
    obtain ⟨hb, heq, h₁, h₂, h₃, h₄, h₅, h₆⟩ := hk
    rw [hset k hb, ho.replaced.others k heq, hh.others k h₆, hc.others k h₅, hg.others k h₄]
    exact hfr k (by simp [catalogTables, h₁, h₂, h₃])

/-- The statements of `materializeInTx`, with the spec and the binding locked. -/
theorem materialize_triple (hE : OnTrouble (setting pg w C G) since E .database)
    (hs : Holds L ⟨.specs, specId⟩) (hm : Holds L ⟨.mapListingBind, m⟩)
    (hb : ∀ db v, A db v → ∃ b, v.get ⟨.mapListingBind, m⟩ = some b ∧ b.specId = specId)
    (huser : ∀ db v, Inv pg w.strict db → A db v → ∀ u e,
      v.get ⟨.hatEquipped, (u, m)⟩ = some e → ∃ r, v.get ⟨.users, u⟩ = some r) :
    Triple (setting pg w C G) since E L A
      (ListedMaps.materializeInTx pg m specId s c.games c.collectibles c.hats) (fun _ => L)
      (fun removed db v => ∃ v₀, A db v₀ ∧
        Materialized pg m specId s c removed v₀ v) := by
  refine replaceCatalogs_triple hE hs ?_
  refine Triple.bind (bindGames_triple (c := c) (s := s) hE hm ?_) fun _ =>
    Triple.bind (bindCollectibles_triple (c := c) (s := s) hE hm ?_) fun _ =>
    Triple.bind (bindHats_triple (c := c) (s := s) hE hm ?_ ?_) fun r =>
    Triple.bind (setMaterialized_triple (fun _ => trivial) hE hm ?_)
      fun _ => .pure ?_ fun x hx => hx
  · rintro db v ⟨v₀, hA, hcat, hfr⟩
    exact hcat.are.games
  · rintro db v ⟨v₁, ⟨v₀, hA, hcat, hfr⟩, hg⟩ k r
    rw [hg.others _ (by simp)]
    exact hcat.are.collectibles k r
  · rintro db v ⟨v₂, ⟨v₁, ⟨v₀, hA, hcat, hfr⟩, hg⟩, hc⟩ k r
    rw [hc.others _ (by simp), hg.others _ (by simp)]
    exact hcat.are.hats k r
  · rintro db v hinv ⟨v₂, ⟨v₁, ⟨v₀, hA, hcat, hfr⟩, hg⟩, hc⟩ u e he
    rw [hc.others _ (by simp), hg.others _ (by simp), hfr.get _ (by decide)] at he ⊢
    exact huser db v₀ hinv hA u e he
  · rintro db v ⟨v₄, ⟨v₃, ⟨v₂, ⟨v₁, ⟨v₀, hA, hcat, hfr⟩, hg⟩, hc⟩, hh⟩,
      ho⟩
    rw [ho.replaced.others _ (by simp), hh.others _ (by simp), hc.others _ (by simp),
      hg.others _ (by simp), hfr.get _ (by decide)]
    exact hb db v₀ hA
  · rintro db v - ⟨v₅,
      ⟨v₄, ⟨v₃, ⟨v₂, ⟨v₁, ⟨v₀, hA, hcat, hfr⟩, hg⟩, hc⟩, hh⟩, ho⟩,
      b, hb, hs, hp⟩
    exact ⟨v₀, hA, .of_steps hcat hfr hg hc hh ho hb hs hp⟩

end

end Dd2Server
