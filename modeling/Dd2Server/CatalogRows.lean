import Dd2Server.DefaultSlugs
import Dd2Server.Materialize
import Mathlib.Data.List.DropRight

/-!
# Accepted catalogs and the tables

The entries of an accepted catalog are read off a sublist of the items, in order (`ReadsGame`,
`ReadsCollectible`, `ReadsHat`).  What the tables ask of a row follows from how its entry was read,
so the rows of a catalog and their copies on a map can be inserted wherever their keys are free.
-/

namespace Dd2Server

open ReadCommitted

/-! ## Trimmed text -/

namespace Text

theorem trimChars_idem (cs : List Char) : trimChars (trimChars cs) = trimChars cs := by
  have hfirst : trimStart (trimChars cs) = trimChars cs := by
    refine List.dropWhile_eq_self_iff.2 fun hpos => ?_
    obtain ⟨tail, htail⟩ : trimChars cs <+: trimStart cs :=
      List.rdropWhile_prefix isWhiteSpace _
    have hpos' : 0 < (trimStart cs).length := by
      rw [← htail, List.length_append]
      omega
    have hhead := List.dropWhile_get_zero_not isWhiteSpace cs hpos'
    have hsame : (trimChars cs)[0] = (trimStart cs)[0] := by
      simp only [← htail, List.getElem_append_left hpos]
    rw [hsame]
    exact hhead
  calc trimChars (trimChars cs) = trimEnd (trimChars cs) := congrArg trimEnd hfirst
    _ = trimChars cs := List.rdropWhile_idempotent isWhiteSpace _

theorem trim_idem (s : String) : trim (trim s) = trim s := by
  simp only [trim, String.toList_ofList, trimChars_idem]

theorem dark_of_all {s : String} (h : s.toList.all (fun c => !isWhiteSpace c) = true) :
    ∀ c ∈ s.toList, isWhiteSpace c = false := by
  simpa using h

theorem trim_of_dark {s : String} (h : ∀ c ∈ s.toList, isWhiteSpace c = false) :
    trim s = s := by
  have hstart : trimStart s.toList = s.toList :=
    List.dropWhile_eq_self_iff.2 fun hpos => by simp [h _ (List.getElem_mem hpos)]
  have hend : trimEnd s.toList = s.toList :=
    List.rdropWhile_eq_self_iff.2 fun hne => by simp [h _ (List.getLast_mem hne)]
  simp only [trim, trimChars, hstart, hend, String.ofList_toList]

theorem isWhiteSpace_of_isDigit {c : Char} (h : c.isDigit = true) : isWhiteSpace c = false := by
  simp only [Char.isDigit, Bool.and_eq_true, decide_eq_true_eq] at h
  have hlo : 48 ≤ c.toNat := h.1
  have hhi : c.toNat ≤ 57 := h.2
  simp only [isWhiteSpace, Bool.or_eq_false_iff, Bool.and_eq_false_iff, decide_eq_false_iff_not]
  omega

end Text

theorem trim_numbered {stem : String} (h : ∀ c ∈ stem.toList, isWhiteSpace c = false)
    (n : Nat) : Text.trim (numbered stem n) = numbered stem n := by
  refine Text.trim_of_dark fun c hc => ?_
  rw [numbered_toList, List.mem_append] at hc
  rcases hc with hc | hc
  · exact h c hc
  · exact Text.isWhiteSpace_of_isDigit (Text.isDigit_of_mem_natChars hc)

theorem numbered_ne_empty {stem : String} {n : Nat} : numbered stem n ≠ "" := by
  intro h
  have hlist := congrArg String.toList h
  rw [numbered_toList] at hlist
  simp [Text.natChars] at hlist

/-- A slug that is trimmed and not blank. -/
structure Canonical (slug : String) : Prop where
  trimmed : Text.trim slug = slug
  nonblank : slug ≠ ""

theorem Bears.canonical {stem slug : String} {n : Nat} {item : Value}
    (hstem : ∀ c ∈ stem.toList, isWhiteSpace c = false)
    (h : Bears (numbered stem n) item slug) : Canonical slug := by
  rcases h with ⟨-, rfl⟩ | ⟨hexp, hne⟩
  · exact ⟨trim_numbered hstem n, numbered_ne_empty⟩
  · obtain ⟨raw, -, rfl⟩ := Option.map_eq_some_iff.1 hexp
    exact ⟨Text.trim_idem raw, hne⟩

/-! ## How entries are read -/

/-- The entries are read off items, in the order of the items. -/
def ReadInOrder {α : Type} (reads : Value → α → Prop) (items : List Value)
    (entries : List α) : Prop :=
  ∃ read, read.Sublist items ∧ List.Forall₂ reads read entries

section

variable {α : Type} {reads : Value → α → Prop} {items : List Value} {item : Value}
    {entries : List α} {e : α}

theorem ReadInOrder.nil : ReadInOrder reads [] [] := ⟨[], List.Sublist.slnil, .nil⟩

theorem ReadInOrder.skip (h : ReadInOrder reads items entries) :
    ReadInOrder reads (item :: items) entries := by
  obtain ⟨read, hsub, hreads⟩ := h
  exact ⟨read, hsub.cons item, hreads⟩

theorem ReadInOrder.take (he : reads item e) (h : ReadInOrder reads items entries) :
    ReadInOrder reads (item :: items) (e :: entries) := by
  obtain ⟨read, hsub, hreads⟩ := h
  exact ⟨item :: read, hsub.cons_cons item, hreads.cons he⟩

theorem ReadInOrder.forall {P : α → Prop} (h : ReadInOrder reads items entries)
    (hP : ∀ item e, reads item e → P e) : ∀ e ∈ entries, P e := by
  obtain ⟨read, -, hreads⟩ := h
  induction hreads with
  | nil => exact fun e he => nomatch he
  | cons hread _ ih =>
      intro e he
      rcases List.mem_cons.1 he with rfl | he
      · exact hP _ _ hread
      · exact ih e he

end

structure ReadsGame (item : Value) (g : CatalogGame) : Prop where
  kind : mapKindFromGame item = some (g.kind, g.lowerIsBetter)
  slug : ∃ n, Bears (numbered (g.kind ++ "-") n) item g.slug
  name : g.name = ((item.get "name").bind Value.asStr).getD ""

structure ReadsCollectible (item : Value) (c : CatalogCollectible) : Prop where
  paths : parseCollectPaths item = some (c.collectOnUnlock, c.hasZone, c.pickup)
  slug : ∃ n, Bears (numbered "Collectible-" n) item c.slug
  name : c.name = nameOr item c.slug
  gatedBy : c.gatedBy = parseGatedBy item
  unlockScore : c.unlockScore = parseUnlockScore item

structure ReadsHat (item : Value) (h : CatalogHat) : Prop where
  unlock : parseUnlock item = .ok (h.finishThisMap, h.recordUids)
  provable : h.finishThisMap = true ∨ h.recordUids ≠ []
  slug : ∃ n, Bears (numbered "Hat-" n) item h.slug
  name : h.name = nameOr item h.slug

theorem catalogGamesFrom_reads {games : List Value} {seen : List String}
    {kindCounts : String → Nat} {entries : List CatalogGame}
    (h : catalogGamesFrom seen kindCounts games = .ok entries) :
    ReadInOrder ReadsGame games entries := by
  induction games generalizing seen kindCounts entries with
  | nil =>
      cases h
      exact .nil
  | cons g games ih =>
      simp only [catalogGamesFrom] at h
      split at h
      · split at h
        · exact (ih h).skip
        · rename_i kind lowerIsBetter hkind
          obtain ⟨slug, hslug, h⟩ := bind_ok h
          split at h
          · cases h
          · obtain ⟨rest, hr, h⟩ := bind_ok h
            cases h
            exact (ih hr).take ⟨hkind, ⟨_, slugOr_ok hslug⟩, rfl⟩
      · exact (ih h).skip

theorem catalogCollectiblesFrom_reads {items : List Value} {seen : List String} {n : Nat}
    {entries : List CatalogCollectible} (h : catalogCollectiblesFrom seen n items = .ok entries) :
    ReadInOrder ReadsCollectible items entries := by
  induction items generalizing seen n entries with
  | nil =>
      cases h
      exact .nil
  | cons item items ih =>
      simp only [catalogCollectiblesFrom] at h
      split at h
      · split at h
        · exact (ih h).skip
        · rename_i collectOnUnlock hasZone pickup hpaths
          obtain ⟨slug, hslug, h⟩ := bind_ok h
          split at h
          · cases h
          · obtain ⟨rest, hr, h⟩ := bind_ok h
            cases h
            exact (ih hr).take ⟨hpaths, ⟨_, slugOr_ok hslug⟩, rfl, rfl, rfl⟩
      · exact (ih h).skip

theorem catalogHatsFrom_reads {items : List Value} {seen : List String} {n : Nat}
    {entries : List CatalogHat} (h : catalogHatsFrom seen n items = .ok entries) :
    ReadInOrder ReadsHat items entries := by
  induction items generalizing seen n entries with
  | nil =>
      cases h
      exact .nil
  | cons item items ih =>
      simp only [catalogHatsFrom] at h
      split at h
      · obtain ⟨slug, hslug, h⟩ := bind_ok h
        split at h
        · cases h
        · obtain ⟨⟨finish, uids⟩, hunlock, h⟩ := bind_ok h
          obtain ⟨rest, hr, h⟩ := bind_ok h
          split at h
          · rename_i hprovable
            cases h
            refine (ih hr).take ⟨hunlock, ?_, ⟨_, slugOr_ok hslug⟩, rfl⟩
            simpa using hprovable
          · cases h
            exact (ih hr).skip
      · exact (ih h).skip

/-! ## What the entries are like -/

structure GameFits (g : CatalogGame) : Prop where
  slug : Canonical g.slug
  kind : g.kind ∈ minigameKinds
  direction : g.lowerIsBetter = true ↔ g.kind = "Sprint"

structure CollectibleFits (c : CatalogCollectible) : Prop where
  slug : Canonical c.slug
  path : c.collectOnUnlock = true ∨ c.hasZone = true
  pickup : c.pickup = "zone" ∨ c.pickup = "grant"
  grant : c.pickup = "grant" ↔ c.collectOnUnlock = true

structure HatFits (h : CatalogHat) : Prop where
  slug : Canonical h.slug
  provable : h.finishThisMap = true ∨ h.recordUids ≠ []
  uids : h.recordUids.Nodup

theorem ReadsGame.fits {item : Value} {g : CatalogGame} (h : ReadsGame item g) : GameFits g := by
  obtain ⟨hkind, hdirection⟩ := mapKindFromGame_canonical h.kind
  obtain ⟨n, hslug⟩ := h.slug
  refine ⟨hslug.canonical ?_, hkind, by rw [hdirection, decide_eq_true_eq]⟩
  have hdark : ∀ kind ∈ minigameKinds, (kind ++ "-").toList.all (fun c => !isWhiteSpace c) =
      true := by
    decide +kernel
  exact Text.dark_of_all (hdark _ hkind)

theorem parseCollectPaths_fits {item : Value} {collectOnUnlock hasZone : Bool} {pickup : String}
    (h : parseCollectPaths item = some (collectOnUnlock, hasZone, pickup)) :
    (collectOnUnlock = true ∨ hasZone = true) ∧
    pickup = if collectOnUnlock then "grant" else "zone" := by
  obtain ⟨⟨legacyCollect, legacyZone⟩, -, h⟩ := Option.bind_eq_some_iff.1 h
  dsimp only at h
  split at h
  case isTrue hpath =>
    cases h
    exact ⟨by simpa using hpath, rfl⟩
  case isFalse => cases h

theorem ReadsCollectible.fits {item : Value} {c : CatalogCollectible}
    (h : ReadsCollectible item c) : CollectibleFits c := by
  obtain ⟨hpath, hpickup⟩ := parseCollectPaths_fits h.paths
  obtain ⟨n, hslug⟩ := h.slug
  refine ⟨hslug.canonical (Text.dark_of_all (by decide +kernel)), hpath, ?_, ?_⟩
    <;> rw [hpickup] <;> split <;> simp_all

/-- The record uids are distinct, and differ from those seen before. -/
theorem recordUidsFrom_nodup {seen : List String} {vs : List Value} {uids : List String}
    (h : recordUidsFrom seen vs = .ok uids) : Fresh id seen uids := by
  induction vs generalizing seen uids with
  | nil =>
      cases h
      exact .nil
  | cons v vs ih =>
      rw [recordUidsFrom] at h
      split at h
      · exact ih h
      · dsimp only at h
        split at h
        · exact ih h
        · split at h
          · cases h
          · obtain ⟨rest, hrest, h⟩ := bind_ok h
            cases h
            exact .cons (by assumption) (ih hrest)

theorem parseUnlock_nodup {item : Value} {finish : Bool} {uids : List String}
    (h : parseUnlock item = .ok (finish, uids)) : uids.Nodup := by
  unfold parseUnlock at h
  split at h
  · cases h
    exact List.nodup_nil
  · obtain ⟨uids', huids, h⟩ := bind_ok h
    cases h
    simpa using (recordUidsFrom_nodup huids).1

theorem ReadsHat.fits {item : Value} {h : CatalogHat} (hread : ReadsHat item h) : HatFits h := by
  obtain ⟨n, hslug⟩ := hread.slug
  exact ⟨hslug.canonical (Text.dark_of_all (by decide +kernel)), hread.provable,
    parseUnlock_nodup hread.unlock⟩

/-! ## The rows -/

/-- One `INSERT` after the other. -/
def insertEach (t : Table) : List (t.Key × t.Row) → Db → Option Db
  | [], v => some v
  | e :: rows, v =>
      (insertRow t e.1 e.2 v).bind fun effect => insertEach t rows (Store.view effect.writes v)

/-- The rows pass the checks of the table, and their keys differ. -/
structure Accepts (t : Table) (rows : List (t.Key × t.Row)) : Prop where
  keys : (rows.map Prod.fst).Nodup
  checks : ∀ e ∈ rows, t.check e.1 e.2 = true

/-- The keys are free, and the rows referred to are there. -/
def RoomFor (t : Table) (rows : List (t.Key × t.Row)) (v : Db) : Prop :=
  ∀ e ∈ rows, v.get ⟨t, e.1⟩ = none ∧ ∀ p ∈ t.parents e.1 e.2, (v.get p).isSome

theorem Accepts.insertable {t : Table} {rows : List (t.Key × t.Row)} {v : Db} (h : Accepts t rows)
    (hroom : RoomFor t rows v) {e : t.Key × t.Row} (he : e ∈ rows) :
    insertable t e.1 e.2 v = true := by
  obtain ⟨hfree, hparents⟩ := hroom e he
  simp only [Dd2Server.insertable, h.checks e he, hfree, Option.isNone_none, Bool.true_and,
    List.all_eq_true]
  exact hparents

theorem Accepts.insertRows {t : Table} {rows : List (t.Key × t.Row)} {v : Db} (h : Accepts t rows)
    (hroom : RoomFor t rows v) : (insertRows t rows v).isSome := by
  rw [Dd2Server.insertRows, if_pos]
  · rfl
  · exact ⟨h.keys, List.all_eq_true.2 fun e he => h.insertable hroom he⟩

theorem RoomFor.after {t : Table} {e : t.Key × t.Row} {rows : List (t.Key × t.Row)} {v : Db}
    (h : RoomFor t (e :: rows) v) (hkeys : e.1 ∉ rows.map Prod.fst) :
    RoomFor t rows (v.put ⟨⟨t, e.1⟩, some e.2⟩) := by
  intro e' he'
  obtain ⟨hfree, hparents⟩ := h e' (List.mem_cons_of_mem e he')
  have hne : e.1 ≠ e'.1 := fun heq => hkeys (heq ▸ List.mem_map_of_mem he')
  refine ⟨?_, fun p hp => ?_⟩
  · rw [Store.get_put_of_ne (by simpa using hne)]
    exact hfree
  · by_cases hsame : (⟨t, e.1⟩ : DbKey) = p
    · subst hsame
      simp
    · rw [Store.get_put_of_ne hsame]
      exact hparents p hp

theorem Accepts.insertEach {t : Table} {rows : List (t.Key × t.Row)} {v : Db} (h : Accepts t rows)
    (hroom : RoomFor t rows v) : (insertEach t rows v).isSome := by
  induction rows generalizing v with
  | nil => rfl
  | cons e rows ih =>
      have hfirst := h.insertable hroom List.mem_cons_self
      obtain ⟨hkeys, hrest⟩ := List.nodup_cons.1 h.keys
      rw [Dd2Server.insertEach, insertRow, if_pos hfirst]
      exact ih ⟨hrest, fun e' he' => h.checks e' (List.mem_cons_of_mem e he')⟩
        (hroom.after hkeys)

theorem keys_nodup {κ : Type} {slugs : List String} {keys : List κ} (key : String → κ)
    (hkey : Function.Injective key) (hkeys : keys = slugs.map key) (h : slugs.Nodup) : keys.Nodup :=
  hkeys ▸ h.map hkey

section

variable {c : Parsed} {specId : Int} {s : SpecRow} {m : String} {pg : Pg}

theorem gameRows_accepted (hs : s.nameId.length ≤ 32) (hfits : ∀ g ∈ c.games, GameFits g)
    (hslugs : (c.games.map CatalogGame.slug).Nodup) :
    Accepts .minigameCatalog (c.gameRows specId s) where
  keys := by
    refine keys_nodup (fun slug => (s.userId, s.nameId, slug))
      (fun a b h => by cases h; rfl) ?_ hslugs
    simp [Parsed.gameRows, Minigames.catalogKey]
  checks := by
    intro e he
    obtain ⟨g, hg, rfl⟩ := List.mem_map.1 he
    have hfit := hfits g hg
    have hdirection : g.lowerIsBetter = decide (g.kind = "Sprint") := by
      rw [Bool.eq_iff_iff, decide_eq_true_eq]
      exact hfit.direction
    simp [Table.check, Minigames.catalogKey, Minigames.catalogRow, hs, hfit.kind, hdirection]

theorem collectibleRows_accepted (hs : s.nameId.length ≤ 32)
    (hfits : ∀ x ∈ c.collectibles, CollectibleFits x)
    (hslugs : (c.collectibles.map CatalogCollectible.slug).Nodup) :
    Accepts .collectibleCatalog (c.collectibleRows specId s) where
  keys := by
    refine keys_nodup (fun slug => (specId, slug)) (fun a b h => by cases h; rfl) ?_ hslugs
    simp [Parsed.collectibleRows]
  checks := by
    intro e he
    obtain ⟨x, hx, rfl⟩ := List.mem_map.1 he
    have hfit := hfits x hx
    simpa [Table.check, Collectibles.catalogRow, hs] using And.intro hfit.pickup hfit.path

theorem hatRows_accepted (hs : s.nameId.length ≤ 32)
    (hslugs : (c.hats.map CatalogHat.slug).Nodup) : Accepts .hatCatalog (c.hatRows specId s) where
  keys := by
    refine keys_nodup (fun slug => (specId, slug)) (fun a b h => by cases h; rfl) ?_ hslugs
    simp [Parsed.hatRows]
  checks := by
    intro e he
    obtain ⟨x, -, rfl⟩ := List.mem_map.1 he
    simp [Table.check, Hats.catalogRow, hs]

theorem gamesOnMap_accepted (hm : m.length ≤ 27) (hs : s.nameId.length ≤ 32)
    (hfits : ∀ g ∈ c.games, GameFits g) (hslugs : (c.games.map CatalogGame.slug).Nodup) :
    Accepts .minigameOnMap (c.gamesOnMap pg m specId s) where
  keys := by
    refine keys_nodup (fun slug => (m, slug)) (fun a b h => by cases h; rfl) ?_ hslugs
    simp [Parsed.gamesOnMap, Parsed.gameRows, Minigames.catalogKey]
  checks := by
    intro e he
    obtain ⟨e', he', rfl⟩ := List.mem_map.1 he
    obtain ⟨g, hg, rfl⟩ := List.mem_map.1 he'
    simp [Table.check, Minigames.catalogKey, Minigames.catalogRow, Minigames.onMapRow, hm, hs,
      (hfits g hg).kind]

theorem collectiblesOnMap_accepted (hm : m.length ≤ 27) (hs : s.nameId.length ≤ 32)
    (hfits : ∀ x ∈ c.collectibles, CollectibleFits x)
    (hslugs : (c.collectibles.map CatalogCollectible.slug).Nodup) :
    Accepts .collectibleOnMap (c.collectiblesOnMap pg m specId s) where
  keys := by
    refine keys_nodup (fun slug => (m, slug)) (fun a b h => by cases h; rfl) ?_ hslugs
    simp [Parsed.collectiblesOnMap, Parsed.collectibleRows]
  checks := by
    intro e he
    obtain ⟨e', he', rfl⟩ := List.mem_map.1 he
    obtain ⟨x, hx, rfl⟩ := List.mem_map.1 he'
    simpa [Table.check, Collectibles.catalogRow, Collectibles.onMapRow, hm, hs]
      using (hfits x hx).path

theorem hatsOnMap_accepted (hm : m.length ≤ 27) (hs : s.nameId.length ≤ 32)
    (hslugs : (c.hats.map CatalogHat.slug).Nodup) :
    Accepts .hatOnMap (c.hatsOnMap pg m specId s) where
  keys := by
    refine keys_nodup (fun slug => (m, slug)) (fun a b h => by cases h; rfl) ?_ hslugs
    simp [Parsed.hatsOnMap, Parsed.hatRows]
  checks := by
    intro e he
    obtain ⟨e', he', rfl⟩ := List.mem_map.1 he
    obtain ⟨x, -, rfl⟩ := List.mem_map.1 he'
    simp [Table.check, Hats.catalogRow, Hats.onMapRow, hm, hs]

/-- The inserts of a catalog go through, one by one into the catalogs and at once into the copies,
wherever their keys are free. -/
structure Insertable (pg : Pg) (c : Parsed) (specId : Int) (s : SpecRow) (m : String) : Prop where
  games : ∀ v, RoomFor .minigameCatalog (c.gameRows specId s) v →
    (insertEach .minigameCatalog (c.gameRows specId s) v).isSome
  collectibles : ∀ v, RoomFor .collectibleCatalog (c.collectibleRows specId s) v →
    (insertEach .collectibleCatalog (c.collectibleRows specId s) v).isSome
  hats : ∀ v, RoomFor .hatCatalog (c.hatRows specId s) v →
    (insertEach .hatCatalog (c.hatRows specId s) v).isSome
  gamesOnMap : ∀ v, RoomFor .minigameOnMap (c.gamesOnMap pg m specId s) v →
    (insertRows .minigameOnMap (c.gamesOnMap pg m specId s) v).isSome
  collectiblesOnMap : ∀ v, RoomFor .collectibleOnMap (c.collectiblesOnMap pg m specId s) v →
    (insertRows .collectibleOnMap (c.collectiblesOnMap pg m specId s) v).isSome
  hatsOnMap : ∀ v, RoomFor .hatOnMap (c.hatsOnMap pg m specId s) v →
    (insertRows .hatOnMap (c.hatsOnMap pg m specId s) v).isSome

end

/-- What the parsers accept satisfies what the tables ask: the entries are the items read in order,
their slugs are canonical and distinct, each fits its table, and the rows can be inserted. -/
theorem accepted_catalogs_insertable {spec : Value} {c : Parsed}
    (hgames : parseCatalogGames spec = .ok c.games)
    (hcollectibles : parseCatalogCollectibles spec = .ok c.collectibles)
    (hhats : parseCatalogHats spec = .ok c.hats) :
    (ReadInOrder ReadsGame (gamesOf spec) c.games ∧
      (c.games.map CatalogGame.slug).Nodup ∧ ∀ g ∈ c.games, GameFits g) ∧
    (ReadInOrder ReadsCollectible ((collectibleArray spec).getD []) c.collectibles ∧
      (c.collectibles.map CatalogCollectible.slug).Nodup ∧
      ∀ x ∈ c.collectibles, CollectibleFits x) ∧
    (ReadInOrder ReadsHat ((hatsArray spec).getD []) c.hats ∧
      (c.hats.map CatalogHat.slug).Nodup ∧ ∀ h ∈ c.hats, HatFits h) ∧
    ∀ (pg : Pg) (specId : Int) (s : SpecRow) (m : String),
      s.nameId.length ≤ 32 → m.length ≤ 27 → Insertable pg c specId s m := by
  have hgameSlugs := parseCatalogGames_nodup hgames
  have hcollectibleSlugs := parseCatalogCollectibles_nodup hcollectibles
  have hhatSlugs := parseCatalogHats_nodup hhats
  rw [parseCatalogGames_eq] at hgames
  rw [parseCatalogCollectibles_eq] at hcollectibles
  rw [parseCatalogHats_eq] at hhats
  have hg := catalogGamesFrom_reads hgames
  have hc := catalogCollectiblesFrom_reads hcollectibles
  have hh := catalogHatsFrom_reads hhats
  have hgfits := hg.forall fun _ _ => ReadsGame.fits
  have hcfits := hc.forall fun _ _ => ReadsCollectible.fits
  have hhfits := hh.forall fun _ _ => ReadsHat.fits
  refine ⟨⟨hg, hgameSlugs, hgfits⟩, ⟨hc, hcollectibleSlugs, hcfits⟩,
    ⟨hh, hhatSlugs, hhfits⟩, fun pg specId s m hs hm => ?_⟩
  exact {
    games := fun v => (gameRows_accepted hs hgfits hgameSlugs).insertEach
    collectibles := fun v => (collectibleRows_accepted hs hcfits hcollectibleSlugs).insertEach
    hats := fun v => (hatRows_accepted hs hhatSlugs).insertEach
    gamesOnMap := fun v => (gamesOnMap_accepted hm hs hgfits hgameSlugs).insertRows
    collectiblesOnMap :=
      fun v => (collectiblesOnMap_accepted hm hs hcfits hcollectibleSlugs).insertRows
    hatsOnMap := fun v => (hatsOnMap_accepted hm hs hhatSlugs).insertRows }

/-- Games, collectibles and hats with and without slugs; the last hat is not kept, since nothing
proves it. -/
def towerSpec : Value :=
  .object [
    ("minigames", .object [("games", .array [
      .object [("kind", .string "TimeTrial")],
      .object [("kind", .string "Sprint"), ("slug", .string "final")]])]),
    ("collectibles", .array [
      .object [("zone", .object [])],
      .object [("collectOnUnlock", .bool true), ("slug", .string " gem ")]]),
    ("hats", .array [
      .object [("slug", .string " crown "), ("unlock", .object [("finishThisMap", .bool true)])],
      .object [("unlock", .object [("recordUids", .array [.string " A ", .string "B"])])],
      .object [("slug", .string "plain")]])]

def towerCatalogs : Parsed where
  games := [
    { slug := "Sprint-1", kind := "Sprint", name := "", lowerIsBetter := true },
    { slug := "final", kind := "Sprint", name := "", lowerIsBetter := true }]
  collectibles := [
    { slug := "Collectible-1", name := "Collectible-1", pickup := "zone", collectOnUnlock := false
      hasZone := true, gatedBy := none, unlockScore := none },
    { slug := "gem", name := "gem", pickup := "grant", collectOnUnlock := true
      hasZone := false, gatedBy := none, unlockScore := none }]
  hats := [
    { slug := "crown", name := "crown", finishThisMap := true, recordUids := [] },
    { slug := "Hat-1", name := "Hat-1", finishThisMap := false, recordUids := ["A", "B"] }]

/-- PostgreSQL on few texts. -/
def towerPg : Pg where
  jsonb _ := "tower"
  value _ := towerSpec
  md5 text := text

/-- The spec of the user 1. -/
def towerRow : SpecRow :=
  { userId := 1, nameId := "tower", spec := "tower", hitCounter := 0, createdAt := 0, updatedAt := 0
    listingThreshold := 25 }

/-- The user and the spec are there, and nothing of its catalogs is. -/
def towerStore : Db :=
  (Store.empty.put ⟨⟨.users, 1⟩, some { displayName := "Author", lastLoginTs := 0 }⟩).put
    ⟨⟨.specs, (5 : Int)⟩, some towerRow⟩

/-- The entries fit, and they are inserted into the catalogs and on a map. -/
theorem accepted_catalogs_insertable_tower :
    ((∀ g ∈ towerCatalogs.games, GameFits g) ∧
      (∀ x ∈ towerCatalogs.collectibles, CollectibleFits x) ∧
      ∀ h ∈ towerCatalogs.hats, HatFits h) ∧
    (insertEach .minigameCatalog (towerCatalogs.gameRows 5 towerRow) towerStore).isSome ∧
    (insertEach .collectibleCatalog (towerCatalogs.collectibleRows 5 towerRow)
      towerStore).isSome ∧
    (insertEach .hatCatalog (towerCatalogs.hatRows 5 towerRow) towerStore).isSome ∧
    (insertRows .hatOnMap (towerCatalogs.hatsOnMap towerPg "Tower" 5 towerRow)
      towerStore).isSome := by
  have hgames : parseCatalogGames towerSpec = .ok towerCatalogs.games := by decide
  have hcollectibles : parseCatalogCollectibles towerSpec = .ok towerCatalogs.collectibles := by
    decide
  have hhats : parseCatalogHats towerSpec = .ok towerCatalogs.hats := by decide
  have h := accepted_catalogs_insertable hgames hcollectibles hhats
  have hrows : Insertable towerPg towerCatalogs 5 towerRow "Tower" :=
    h.2.2.2 _ _ _ _ (by decide) (by decide)
  refine ⟨⟨h.1.2.2, h.2.1.2.2, h.2.2.1.2.2⟩, hrows.games _ ?_, hrows.collectibles _ ?_,
    hrows.hats _ ?_, hrows.hatsOnMap _ ?_⟩
  all_goals
    unfold RoomFor
    decide +kernel

end Dd2Server
