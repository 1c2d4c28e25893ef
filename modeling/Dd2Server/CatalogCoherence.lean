import Dd2Server.ReadBack
import Dd2Server.ReadCommitted.Conduct
import Dd2Server.Runs

/-!
# Specs and their catalogs

An upload replaces a spec with its catalogs in one transaction.  A delete request takes four: the
spec goes first, and then, by owner and name, what is left in each catalog.  An upload of that name
in between has its rows deleted.  In the runs without that, and without a number JSONB changes where
a catalog reads it, every spec has the catalogs of its stored JSON.
-/

namespace Dd2Server

open ReadCommitted

/-- JSONB keeps the values it takes; a number `n` comes back as `num n`. -/
def Pg.KeepsJson (pg : Pg) (stores : Value → Prop) (num : Number → Number) : Prop :=
  ∀ v, stores v → pg.value (pg.jsonb v) = v.mapNumbers num

/-- An upload stores a value of a JSONB column whose catalogs do not read a number that changes
there, and no delete of a catalog finds a row of a stored spec. -/
def Undisturbed (stores : Value → Prop) (num : Number → Number) : Tag → Db → Prop
  | .upsertSpec _ _ spec, _ => stores spec ∧ KeepsReadings num spec
  | .deleteCatalog t u n, v => ∀ s, CustomMapAuxSpecs.find v u n = some s →
      ∀ k r, v.get ⟨t, k⟩ = some r → specOf t k r ≠ some s.1
  | _, _ => True

/-- The runs that ask for coherent catalogs. -/
def Scope.coherent : Scope where
  strict := True
  frozen := False

/-- Every catalog row is of a stored spec. -/
def NoOrphans (db : Db) : Prop :=
  ∀ t ∈ catalogTables, ∀ k r, db.get ⟨t, k⟩ = some r →
    ∃ id s, specOf t k r = some id ∧ db.get ⟨.specs, id⟩ = some s

/-- Every minigame names a spec. -/
def GamesNamed (db : Db) : Prop :=
  ∀ k r, db.get ⟨.minigameCatalog, k⟩ = some r → ∃ id, r.specId = some id

section

variable {pg : Pg} {pre post : Db} {strict : Prop}

theorem GamesNamed.of_shrink (h : GamesNamed pre)
    (hsub : ∀ k r, post.get ⟨.minigameCatalog, k⟩ = some r →
      pre.get ⟨.minigameCatalog, k⟩ = some r) : GamesNamed post :=
  fun k r hr => h k r (hsub k r hr)

theorem GamesNamed.of_frame {ts : List Table} (h : GamesNamed pre) (hf : Frame ts pre post)
    (hts : .minigameCatalog ∉ ts) : GamesNamed post :=
  h.of_shrink fun k _ hr => (hf.get k hts).symm.trans hr

theorem GamesNamed.replaced {id : Int} {s : SpecRow} {c : Parsed} (h : GamesNamed pre)
    (hc : CatalogsReplaced id s c pre post) : GamesNamed post := by
  intro k r hr
  rcases (hc.games k r).1 hr with hm | ⟨hk, -⟩
  · exact ⟨id, ((hc.are.games k r).2 hm).2⟩
  · exact h k r hk

theorem Commit.gamesNamed (hc : Commit pg strict pre post) (h : GamesNamed pre) :
    GamesNamed post := by
  cases hc with
  | same he =>
      rw [he]
      exact h
  | hit hh => exact h.of_frame hh.others (by decide)
  | upserted hu _ => exact h.replaced hu.catalogs
  | deleted hd => exact h.of_shrink fun k r hr => ((hd.games k r).1 hr).1
  | catalog hd =>
      exact h.of_shrink fun k r hr => CatalogDeleted.shrinks (w := ⟨strict, False⟩) hd hr
  | bound hb => exact h.replaced hb.catalogs
  | unlocked hu => exact h.of_frame hu.frame (by decide)
  | equipped he => exact h.of_frame he.put.frame (by simp)
  | unequipped he => exact h.of_frame he.frame (by decide)
  | login hl => exact h.of_frame hl.others (by decide)

theorem Inv.noOrphans (hinv : Inv pg strict pre) (hnamed : GamesNamed pre) : NoOrphans pre := by
  intro t ht k r hr
  simp only [catalogTables, List.mem_cons, List.not_mem_nil, or_false] at ht
  obtain rfl | rfl | rfl := ht
  · obtain ⟨id, hid⟩ := hnamed k r hr
    obtain ⟨s, hs, -⟩ := hinv.games _ _ _ r id hr hid
    exact ⟨id, s, hid, hs⟩
  · obtain ⟨s, hs, -⟩ := hinv.collectibles k r hr
    exact ⟨k.1, s, rfl, hs⟩
  · obtain ⟨s, hs, -⟩ := hinv.hats k r hr
    exact ⟨k.1, s, rfl, hs⟩

end

section

variable {pg : Pg} {stores : Value → Prop} {num : Number → Number} {s : System}

theorem admitted_undisturbed (hjson : pg.KeepsJson stores num) :
    Admitted pg Scope.coherent.strict (Undisturbed stores num) where
  upload _ u n spec v h := by
    rw [hjson spec h.1]
    exact h.2.catalogs
  delete _ t u n v h := h

theorem Job.safe_coherent (hjson : pg.KeepsJson stores num) (j : Job) (db : Db)
    (hinv : (protocol pg .coherent).Inv db) :
    Safe (protocol pg .coherent) (Undisturbed stores num) { commit := Job.Promised pg .coherent j }
      (fun r l db => Job.Ended pg .coherent j r l.log db) (j.body pg) {} db :=
  j.safe (admitted_undisturbed hjson) (.inl id) hinv

/-- In every run whose uploads keep their readings and whose deletes of catalogs spare the stored
specs, every spec has the catalogs of its stored JSON, every catalog row is of a spec, and an upload
that failed changed nothing but counters. -/
theorem catalogs_coherent (hjson : pg.KeepsJson stores num)
    (h : Reach shared (Job.body pg) (Undisturbed stores num) (System.on Store.empty) s) :
    Coherent pg s.db ∧ NoOrphans s.db ∧
      ∀ t ∈ s.tasks, ∀ u n spec e, t.job = .upload u n spec →
        t.prog = .ret (.spec (.error e)) → Commits HitCounted t.loc.log := by
  have hsafe := Job.safe_coherent hjson
  have hinv₀ : (protocol pg .coherent).Inv (System.on Store.empty).db := inv_empty pg True
  have hsound := h.sound hsafe hinv₀ rfl
  have hinv : Inv pg True s.db := hsound.inv
  have hnamed : GamesNamed s.db := by
    refine h.holds hsafe hinv₀ rfl (fun k r hr => ?_) fun j log pre post _ hG hn => ?_
    · simp [System.on] at hr
    · exact (Job.Promised.commit hG).gamesNamed hn
  refine ⟨hinv.coherent trivial, hinv.noOrphans hnamed, fun t ht u n spec e hj hr => ?_⟩
  have hended := hsound.ended ht hr
  rw [hj] at hended
  exact hended

end

namespace Sample

/-- The JSON of this run and no other. -/
def isSpec : Value → Bool
  | .object [(hats, .array [.object [(slug, .string hat),
    (unlock, .object [(finish, .bool true)])]])] =>
      hats = "hats" && slug = "slug" && hat = "Hat-1" && unlock = "unlock" &&
        finish = "finishThisMap"
  | _ => false

theorem eq_spec_of_isSpec {v : Value} (h : isSpec v = true) : v = spec := by
  unfold isSpec at h
  split at h
  case h_1 hats slug hat unlock finish =>
    simp only [Bool.and_eq_true, decide_eq_true_eq] at h
    obtain ⟨⟨⟨⟨rfl, rfl⟩, rfl⟩, rfl⟩, rfl⟩ := h
    rfl
  case h_2 => cases h

theorem keepsJson : pg.KeepsJson (fun v => isSpec v = true) id := by
  intro v hv
  obtain rfl := eq_spec_of_isSpec hv
  rfl

/-- Uploads of this JSON, and deletes of the catalogs of a name without a spec. -/
def careful : Tag → Db → Bool
  | .upsertSpec _ _ v, _ => isSpec v
  | .deleteCatalog _ u n, v => (CustomMapAuxSpecs.find v u n).isNone
  | _, _ => true

theorem careful_undisturbed {tag : Tag} {v : Db} (h : careful tag v = true) :
    Undisturbed (fun v => isSpec v = true) id tag v := by
  cases tag with
  | upsertSpec u n w =>
      obtain rfl := eq_spec_of_isSpec h
      exact ⟨h, fun _ hg => (by cases hg), fun _ hi => (by cases hi)⟩
  | deleteCatalog t u n =>
      intro s hs
      rw [careful, hs] at h
      cases h
  | _ => trivial

/-- The author deletes the spec and uploads it again. -/
def replaced : List Cue :=
  uploaded ++ [.start (.deleteSpec 1 "climb"), .go 2 60 (answers 7 none),
    .start (.upload 1 "climb" spec), .go 3 60 (answers 8 none)]

/-- The spec is uploaded again before the delete request gets to the catalogs. -/
def overtaken : List Cue :=
  uploaded ++ [.start (.deleteSpec 1 "climb"), .go 2 9 (answers 7 none),
    .start (.upload 1 "climb" spec), .go 3 60 (answers 8 none), .go 2 60 (answers 7 none)]

theorem parseCatalogs_spec :
    parseCatalogs spec = .ok ⟨[], [], [⟨"Hat-1", "Hat-1", true, []⟩]⟩ := by rfl

end Sample

/-- A spec is deleted, and uploaded again after that. -/
theorem catalogs_coherent_replaced : ∃ s : System, (s.db.get ⟨.specs, 8⟩).isSome = true ∧
    Coherent Sample.pg s.db ∧ NoOrphans s.db := by
  obtain ⟨s, hs, hspec⟩ : ∃ s, ReachBy shared (Job.body Sample.pg)
      (fun s m => s.Admits (fun tag v => Sample.careful tag v = true) m)
        (System.on Store.empty) s ∧
        (s.db.get ⟨.specs, 8⟩).isSome = true :=
    ReachBy.scriptedBy Sample.replaced (by decide +kernel)
  have hrun := hs.reach fun s m h => h.mono fun _ _ => Sample.careful_undisturbed
  have hcoherent := catalogs_coherent Sample.keepsJson hrun
  exact ⟨s, hspec, hcoherent.1, hcoherent.2.1⟩

/-- An upload between the delete of a spec and the deletes of its catalogs loses its hats. -/
theorem catalogs_lost : ¬∀ s, Run Sample.pg s → Coherent Sample.pg s.db := by
  intro hall
  obtain ⟨s, hrun, hspec, hnone⟩ : ∃ s, RunFrom Sample.pg Store.empty s ∧
      ((s.db.get ⟨.specs, 8⟩).any fun r => r.spec = Sample.text) = true ∧
        s.db.get ⟨.hatCatalog, (8, "Hat-1")⟩ = none :=
    RunFrom.scripted Sample.overtaken (by decide +kernel)
  obtain ⟨r, hr, htext⟩ := (Option.any_eq_true _ _).1 hspec
  obtain ⟨c, hc, hare⟩ := hall s hrun 8 r hr
  have hparsed : parseCatalogs (Sample.pg.value r.spec) =
      .ok ⟨[], [], [⟨"Hat-1", "Hat-1", true, []⟩]⟩ := by
    rw [of_decide_eq_true htext]
    exact Sample.parseCatalogs_spec
  rw [hparsed] at hc
  cases hc
  have hhat := ((hare.hats _ _).2 List.mem_cons_self).1
  rw [hnone] at hhat
  cases hhat

end Dd2Server
