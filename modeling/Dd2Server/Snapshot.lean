import Dd2Server.Runs

/-!
# The copy on a map is the spec's

A binding records the hash of the revision it was materialized from.  The invariant says that the
copies on the map are those of a JSON with that hash; the gate compares the hash with the one of the
stored JSON.
-/

namespace Dd2Server

open ReadCommitted

/-- The copies on a map are the rows a parsed JSON gives. -/
structure CopiesAre (pg : Pg) (db : Db) (m : String) (specId : Int) (s : SpecRow)
    (c : Parsed) : Prop where
  games : ∀ slug r, db.get ⟨.minigameOnMap, (m, slug)⟩ = some r ↔
    ((m, slug), r) ∈ c.gamesOnMap pg m specId s
  collectibles : ∀ slug r, db.get ⟨.collectibleOnMap, (m, slug)⟩ = some r ↔
    ((m, slug), r) ∈ c.collectiblesOnMap pg m specId s
  hats : ∀ slug r, db.get ⟨.hatOnMap, (m, slug)⟩ = some r ↔
    ((m, slug), r) ∈ c.hatsOnMap pg m specId s

/-- The stored texts are canonical, and each materialized binding has the copies of a text with the
hash it records. -/
structure Snapshot (pg : Pg) (db : Db) : Prop where
  texts : ∀ id s, db.get ⟨.specs, id⟩ = some s → ∃ v, s.spec = pg.jsonb v
  copies : ∀ m b t hash, db.get ⟨.mapListingBind, m⟩ = some b →
    b.materialized = some (t, hash) →
    ∃ s v c, db.get ⟨.specs, b.specId⟩ = some s ∧ pg.md5 (pg.jsonb v) = hash ∧
      parseCatalogs (pg.value (pg.jsonb v)) = .ok c ∧ CopiesAre pg db m b.specId s c

section

variable {pg : Pg} {m : String} {specId : Int} {s s' : SpecRow} {c : Parsed} {pre post : Db}

/-! ## One step -/

/-- The rows depend on the owner and the name of the spec only. -/
theorem CopiesAre.owner (h : CopiesAre pg pre m specId s c) (hu : s'.userId = s.userId)
    (hn : s'.nameId = s.nameId) : CopiesAre pg pre m specId s' c := by
  have hg : c.gamesOnMap pg m specId s' = c.gamesOnMap pg m specId s := by
    simp only [Parsed.gamesOnMap, Parsed.gameRows, hu, hn]
  have hc : c.collectiblesOnMap pg m specId s' = c.collectiblesOnMap pg m specId s := by
    simp only [Parsed.collectiblesOnMap, Parsed.collectibleRows, hu, hn]
  have hh : c.hatsOnMap pg m specId s' = c.hatsOnMap pg m specId s := by
    simp only [Parsed.hatsOnMap, Parsed.hatRows, hu, hn]
  refine ⟨fun slug r => ?_, fun slug r => ?_, fun slug r => ?_⟩
  · rw [hg]
    exact h.games slug r
  · rw [hc]
    exact h.collectibles slug r
  · rw [hh]
    exact h.hats slug r

theorem CopiesAre.frame {ts : List Table} (h : CopiesAre pg pre m specId s c)
    (hf : Frame ts pre post) (hts : ∀ t ∈ copyTables, t ∉ ts) :
    CopiesAre pg post m specId s c := by
  refine ⟨fun slug r => ?_, fun slug r => ?_, fun slug r => ?_⟩
  · rw [hf ⟨.minigameOnMap, (m, slug)⟩ (hts .minigameOnMap (by decide))]
    exact h.games slug r
  · rw [hf ⟨.collectibleOnMap, (m, slug)⟩ (hts .collectibleOnMap (by decide))]
    exact h.collectibles slug r
  · rw [hf ⟨.hatOnMap, (m, slug)⟩ (hts .hatOnMap (by decide))]
    exact h.hats slug r

/-- A map that was just materialized has the copies. -/
theorem CopiesReplaced.are (h : CopiesReplaced pg m specId s c pre post) :
    CopiesAre pg post m specId s c := by
  refine ⟨fun slug r => ?_, fun slug r => ?_, fun slug r => ?_⟩
  · rw [h.games]
    simp
  · rw [h.collectibles]
    simp
  · rw [h.hats]
    simp

/-- The other maps keep theirs. -/
theorem CopiesReplaced.other {m' : String} {specId' : Int} {c' : Parsed}
    (h : CopiesReplaced pg m specId s c pre post) (hm : m' ≠ m)
    (hare : CopiesAre pg pre m' specId' s' c') : CopiesAre pg post m' specId' s' c' := by
  have hg : ∀ slug r, ((m', slug), r) ∉ c.gamesOnMap pg m specId s := by
    intro slug r hm'
    obtain ⟨x, -, he⟩ := List.mem_map.1 hm'
    cases he
    exact hm rfl
  have hc : ∀ slug r, ((m', slug), r) ∉ c.collectiblesOnMap pg m specId s := by
    intro slug r hm'
    obtain ⟨x, -, he⟩ := List.mem_map.1 hm'
    cases he
    exact hm rfl
  have hh : ∀ slug r, ((m', slug), r) ∉ c.hatsOnMap pg m specId s := by
    intro slug r hm'
    obtain ⟨x, -, he⟩ := List.mem_map.1 hm'
    cases he
    exact hm rfl
  refine ⟨fun slug r => ?_, fun slug r => ?_, fun slug r => ?_⟩
  · rw [h.games, ← hare.games]
    simp [hg slug r, hm]
  · rw [h.collectibles, ← hare.collectibles]
    simp [hc slug r, hm]
  · rw [h.hats, ← hare.hats]
    simp [hh slug r, hm]

/-- A step that touches no binding and no copy, and keeps the owners of the specs and their texts
canonical. -/
theorem Snapshot.of_frame {ts : List Table} (h : Snapshot pg pre) (hf : Frame ts pre post)
    (hts : ∀ t ∈ Table.mapListingBind :: copyTables, t ∉ ts)
    (htexts : ∀ id s, post.get ⟨.specs, id⟩ = some s → ∃ v, s.spec = pg.jsonb v)
    (howner : ∀ m b, pre.get ⟨.mapListingBind, m⟩ = some b → ∀ s,
      pre.get ⟨.specs, b.specId⟩ = some s →
        ∃ s', post.get ⟨.specs, b.specId⟩ = some s' ∧ s'.userId = s.userId ∧
        s'.nameId = s.nameId) : Snapshot pg post where
  texts := htexts
  copies m b t hash hb hmat := by
    rw [hf ⟨.mapListingBind, m⟩ (hts .mapListingBind (by decide))] at hb
    obtain ⟨s, v, c, hs, hhash, hc, hare⟩ := h.copies m b t hash hb hmat
    obtain ⟨s', hs', hu, hn⟩ := howner m b hb s hs
    exact ⟨s', v, c, hs', hhash, hc,
      (hare.frame hf fun t ht => hts t (List.mem_cons_of_mem _ ht)).owner hu hn⟩

theorem Snapshot.aside {ts : List Table} (h : Snapshot pg pre) (hf : Frame ts pre post)
    (hts : ∀ t ∈ Table.specs :: .mapListingBind :: copyTables, t ∉ ts) :
    Snapshot pg post := by
  have hspecs : ∀ id, post.get ⟨.specs, id⟩ = pre.get ⟨.specs, id⟩ :=
    fun id => hf ⟨.specs, id⟩ (hts .specs (by decide))
  refine h.of_frame hf (fun t ht => hts t (List.mem_cons_of_mem _ ht)) (fun id s hs => ?_)
    fun m b _ s hs => ⟨s, (hspecs _).trans hs, rfl, rfl⟩
  rw [hspecs] at hs
  exact h.texts id s hs

theorem Snapshot.bound {t : Time} {purge : Bool} (h : Snapshot pg pre)
    (hb : Bound pg m specId s c t purge pre post) : Snapshot pg post where
  texts id s' hs := by
    rw [hb.others.get _ (by decide)] at hs
    exact h.texts id s' hs
  copies m' b t' hash hb' hmat := by
    rcases eq_or_ne m' m with rfl | hm
    · rw [hb.bind] at hb'
      cases hb'
      cases hmat
      obtain ⟨v, hv⟩ := h.texts specId s hb.spec
      refine ⟨s, v, c, (hb.others.get _ (by decide)).trans hb.spec, ?_, ?_, hb.copies.are⟩
      · rw [← hv]
        rfl
      · rw [← hv]
        exact hb.parsed
    · rw [hb.otherBinds m' hm] at hb'
      obtain ⟨s', v, c', hs', hhash, hc', hare⟩ := h.copies m' b t' hash hb' hmat
      exact ⟨s', v, c', (hb.others.get _ (by decide)).trans hs', hhash, hc',
        hb.copies.other hm hare⟩

/-- Every commit keeps the invariant. -/
theorem Snapshot.step (h : Snapshot pg pre) (hinv : Inv pg False pre)
    (hstep : Commit pg False pre post) : Snapshot pg post := by
  cases hstep with
  | same he => rwa [he]
  | hit hit =>
      refine h.of_frame hit.others (by decide) (fun id s' hs' => ?_) fun m b _ s hs => ?_
      · obtain ⟨s, hs, he⟩ := hit.bwd hs'
        rw [HitCounted.spec he]
        exact h.texts id s hs
      · obtain ⟨s', hs', he⟩ := hit.fwd hs
        exact ⟨s', hs', HitCounted.userId he, HitCounted.nameId he⟩
  | @upserted u n spec id s c hup _ =>
      refine h.of_frame hup.others (by decide) (fun id' s' hs' => ?_) fun m b _ s hs =>
        hup.fwd (w := .any) hinv hs
      rcases eq_or_ne id' id with rfl | hne
      · rw [hup.row] at hs'
        cases hs'
        exact ⟨_, hup.stored⟩
      · rw [hup.otherSpecs id' hne] at hs'
        exact h.texts id' s' hs'
  | @deleted u n id hdel =>
      refine h.of_frame hdel.others (by decide) (fun id' s' hs' => ?_) fun m b hb s hs =>
        ⟨s, (hdel.otherSpecs _ (hdel.unbound m b hb)).trans hs, rfl, rfl⟩
      rcases eq_or_ne id' id with rfl | hne
      · rw [hdel.row] at hs'
        cases hs'
      · rw [hdel.otherSpecs id' hne] at hs'
        exact h.texts id' s' hs'
  | catalog hcat => exact h.aside (CatalogDeleted.frame (w := .any) hcat) (by decide)
  | bound hb => exact h.bound hb
  | unlocked hun => exact h.aside hun.frame (by decide)
  | equipped heq => exact h.aside heq.put.frame (by simp [copyTables])
  | unequipped hun => exact h.aside hun.frame (by decide)
  | login hlog => exact h.aside hlog.others (by decide)

/-! ## All runs -/

theorem snapshot_empty (pg : Pg) : Snapshot pg Store.empty :=
  ⟨fun id s hs => by simp at hs, fun m b t hash hb => by simp at hb⟩

theorem Run.snapshot {s : System} (h : Run pg s) : Snapshot pg s.db :=
  h.invariant (inv_empty pg False) (snapshot_empty pg) fun _ _ hinv hstep hJ => hJ.step hinv hstep

/-- Where the gate is open, the copies on the map are exactly the rows of the stored JSON. -/
theorem resolveBoundSpec_snapshot {s : System}
    (hmd5 : ∀ v v', pg.md5 (pg.jsonb v) = pg.md5 (pg.jsonb v') → pg.jsonb v = pg.jsonb v')
    (hrun : Run pg s) (hgate : ListedMaps.resolvedSpec pg s.db m specId = some specId) :
    ∃ spec c, s.db.get ⟨.specs, specId⟩ = some spec ∧
      parseCatalogs (pg.value spec.spec) = .ok c ∧ CopiesAre pg s.db m specId spec c := by
  obtain ⟨b, spec, hb, hs, rfl, -, hcur⟩ := resolvedSpec_eq_some.1 hgate
  simp only [BindRow.isCurrent, Bool.and_eq_true, beq_iff_eq] at hcur
  obtain ⟨hat, hhash⟩ := hcur
  obtain ⟨⟨t, hash⟩, hmat, -⟩ := Option.map_eq_some_iff.1 hat
  have hspec : hash = spec.specHash pg := by
    rw [BindRow.materializedSpecHash, hmat] at hhash
    exact Option.some.inj hhash
  obtain ⟨s', v, c, hs', hv, hc, hare⟩ := hrun.snapshot.copies m b t hash hb hmat
  rw [hs] at hs'
  cases hs'
  obtain ⟨v', hv'⟩ := hrun.snapshot.texts _ _ hs
  have htext : pg.jsonb v = spec.spec := by
    rw [hv']
    refine hmd5 v v' ?_
    rw [hv, hspec, ← hv']
    rfl
  rw [htext] at hc
  exact ⟨spec, c, hs, hc, hare⟩

end

/-- The map of the sample has the hat of the sample's spec. -/
theorem resolveBoundSpec_snapshot_sample : ∃ s : System, Run Sample.pg s ∧
    ∃ spec c, s.db.get ⟨.specs, 7⟩ = some spec ∧
      parseCatalogs (Sample.pg.value spec.spec) = .ok c ∧
      CopiesAre Sample.pg s.db Sample.mapUid 7 spec c := by
  obtain ⟨s, hrun, hgate⟩ : ∃ s, RunFrom Sample.pg Store.empty s ∧
      ListedMaps.resolvedSpec Sample.pg s.db Sample.mapUid 7 = some 7 :=
    RunFrom.scripted Sample.bound (by decide +kernel)
  exact ⟨s, hrun, resolveBoundSpec_snapshot Sample.md5_inj hrun hgate⟩

end Dd2Server
