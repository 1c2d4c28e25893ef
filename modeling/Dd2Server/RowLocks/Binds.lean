import Dd2Server.RowLocks.Catalogs

/-!
# The binds and the upload

A bind locks the spec, then the binding, then rewrites what these two guard.  An upload locks the
spec that stands, or makes a new one under a name that it locks.
-/

namespace Dd2Server

open ReadCommitted

section

variable {pg : Pg} {since : Log} {L : List RowLock} {A : Assertion Table.Key Table.Row}
  {m mapUid : String} {specId : Int} {now : Time}

/-! ## Statements on the binding -/

theorem lockBinding_onBinding : OnBinding (ListedMaps.lockBindingStmt mapUid) mapUid specId := by
  intro v e b he
  simp only [ListedMaps.lockBindingStmt] at he
  split at he <;> cases he
  · exact ⟨by simp [Effect.allLocks], by simp⟩
  · exact ⟨by simp [Effect.allLocks, Mode.exclusive], by simp⟩

theorem lockWinner_onBinding : OnBinding (ListedMaps.lockWinnerStmt mapUid) mapUid specId := by
  intro v e b he
  simp only [ListedMaps.lockWinnerStmt] at he
  split at he <;> cases he
  · exact ⟨by simp [Effect.allLocks], by simp⟩
  · exact ⟨by simp [Effect.allLocks, Mode.exclusive], by simp⟩

theorem insertBinding_onBinding {reporterId : Uuid} :
    OnBinding (ListedMaps.insertBindingStmt mapUid specId reporterId now) mapUid specId := by
  intro v e b he
  simp only [ListedMaps.insertBindingStmt] at he
  split at he
  · cases he
    exact ⟨by simp [Effect.allLocks], by simp⟩
  · split at he
    · obtain ⟨e', he', hpair⟩ := Option.map_eq_some_iff.1 he
      cases hpair
      obtain ⟨-, rfl⟩ := insertRow_eq_some.1 he'
      refine ⟨fun x hx => ?_, by simp⟩
      rcases List.mem_append.1 hx with hx | hx
      · rw [List.map_cons, List.map_nil, List.mem_singleton] at hx
        rw [hx]
        exact .inl ⟨rfl, Write.lock_exclusive v _⟩
      · exact .inr (List.mem_singleton.1 hx)
    · cases he
      exact ⟨by simp [Effect.allLocks], by simp⟩

/-- A new content for the binding that names the spec. -/
theorem updateBinding_locks {r : BindRow} {v : Db} {e : DbEffect} (hr : r.specId = specId)
    (h : ListedMaps.updateRow .mapListingBind mapUid r v = some e) :
    (∀ x ∈ e.allLocks v, x.row = ⟨.mapListingBind, mapUid⟩ ∧ x.mode.exclusive = true ∨
      x = ⟨⟨.specs, specId⟩, .keyShare⟩) ∧
        (∀ w ∈ e.writes, w.row = ⟨.mapListingBind, mapUid⟩) ∧
      ⟨⟨.mapListingBind, mapUid⟩, .noKeyUpdate⟩ ∈ e.allLocks v := by
  simp only [ListedMaps.updateRow, Option.ite_none_right_eq_some, Option.some.injEq] at h
  obtain ⟨-, rfl⟩ := h
  refine ⟨fun x hx => ?_, by simp, List.mem_append_right _ List.mem_cons_self⟩
  rcases List.mem_append.1 hx with hx | hx
  · rw [List.map_cons, List.map_nil, List.mem_singleton] at hx
    rw [hx]
    exact .inl ⟨rfl, Write.lock_exclusive v _⟩
  · rcases List.mem_cons.1 hx with rfl | hx
    · exact .inl ⟨rfl, rfl⟩
    · rw [← hr]
      exact .inr (List.mem_singleton.1 hx)

theorem takeOverBinding_onBinding {reporterId : Uuid} :
    OnBinding (ListedMaps.takeOverBindingStmt mapUid specId reporterId now) mapUid specId := by
  intro v e b he
  simp only [ListedMaps.takeOverBindingStmt] at he
  split at he
  · cases he
    exact ⟨by simp [Effect.allLocks], by simp⟩
  · split at he
    · obtain ⟨e', he', hpair⟩ := Option.map_eq_some_iff.1 he
      cases hpair
      obtain ⟨hlocks, hwrites, -⟩ := updateBinding_locks rfl he'
      exact ⟨hlocks, hwrites⟩
    · cases he
      exact ⟨by simp [Effect.allLocks], by simp⟩

theorem upsertBinding_onBinding {owner : Uuid} :
    OnBinding (ListedMaps.upsertBindingStmt mapUid specId owner now) mapUid specId := by
  intro v e b he
  obtain ⟨e', he', hpair⟩ := Option.map_eq_some_iff.1 he
  cases hpair
  obtain ⟨hlocks, hwrites, -⟩ := updateBinding_locks rfl he'
  exact ⟨hlocks, hwrites⟩

/-- The binding that won is locked. -/
theorem lockWinner_course (hspec : Holds L ⟨.specs, specId⟩) (hA : Carries A) :
    Course rowLocks since L (UpTo ⟨.mapListingBind, mapUid⟩) A
      (sql (ListedMaps.lockWinnerStmt mapUid)) (fun o => o.elim L fun _ =>
        ⟨⟨.mapListingBind, mapUid⟩, .update⟩ :: L) (UpTo ⟨.mapListingBind, mapUid⟩)
      (fun _ => A) := by
  refine binding_course lockWinner_onBinding hspec hA fun v e o he x hx => ?_
  simp only [ListedMaps.lockWinnerStmt] at he
  split at he <;> cases he
  · exact List.mem_append_right _ hx
  · rcases List.mem_cons.1 hx with rfl | hx
    · exact List.mem_append_left _ (List.mem_append_right _ List.mem_cons_self)
    · exact List.mem_append_right _ hx

/-- The binding that was written is locked. -/
theorem upsertBinding_course {owner : Uuid} (hspec : Holds L ⟨.specs, specId⟩)
    (hA : Carries A) :
    Course rowLocks since L (UpTo ⟨.mapListingBind, mapUid⟩) A
      (sql (ListedMaps.upsertBindingStmt mapUid specId owner now))
      (fun _ => ⟨⟨.mapListingBind, mapUid⟩, .noKeyUpdate⟩ :: L) (UpTo ⟨.mapListingBind,
        mapUid⟩) (fun _ => A) := by
  refine binding_course upsertBinding_onBinding hspec hA fun v e o he x hx => ?_
  obtain ⟨e', he', hpair⟩ := Option.map_eq_some_iff.1 he
  cases hpair
  rcases List.mem_cons.1 hx with rfl | hx
  · exact List.mem_append_left _ (updateBinding_locks rfl he').2.2
  · exact List.mem_append_right _ hx

theorem setMaterialized_course {t : Time} {hash : String} (hm : Holds L ⟨.mapListingBind, m⟩)
    (hA : Carries A) :
    Course rowLocks since L (UpToSweep m) A (sql (ListedMaps.setMaterializedStmt m specId t hash))
      (fun _ => L) (UpToSweep m) (fun _ => A) := by
  have hcases : ∀ {v e b}, (ListedMaps.setMaterializedStmt m specId t hash).run v =
      some (e, b) →
      e.locks = [] ∧ ∀ w ∈ e.writes, w.row = ⟨.mapListingBind, m⟩ := by
    intro v e b he
    simp only [ListedMaps.setMaterializedStmt] at he
    split at he
    · cases he
      exact ⟨rfl, by simp⟩
    · split at he <;> cases he <;> exact ⟨rfl, by simp⟩
  refine stmt_course (fun _ hx => hx) hA ?_ ?_ fun _ _ _ _ x hx => List.mem_append_right _ hx
  · intro v db held log e b _ hheld _ he x hx
    obtain ⟨hlocks, hwrites⟩ := hcases he
    simp only [Effect.allLocks, hlocks, List.append_nil, List.mem_map] at hx
    obtain ⟨w, hw, rfl⟩ := hx
    have hrow : (w.lock v).row = ⟨.mapListingBind, m⟩ := hwrites w hw
    have hex := Write.lock_exclusive v w
    obtain ⟨y, hy, hyrow, hyex⟩ := hm.mono hheld
    refine ⟨.inl (.inr ⟨hrow, hex⟩), ?_,
      .settled ⟨y, hy, hyrow.trans hrow.symm, .inr hyex⟩⟩
    rw [hrow]
    exact fun hk => by rw [hk] at hex; cases hex
  · intro v e b he w hw hin
    have hbind : Table.mapListingBind ∈ indexTables := by
      rw [(hcases he).2 w hw] at hin
      exact hin
    exact absurd hbind (by decide)

/-! ## The binds -/

/-- The statements that both binds end with. -/
theorem materialize_course {s : SpecRow} {games : List CatalogGame}
    {collectibles : List CatalogCollectible} {hats : List CatalogHat}
    (hspec : Holds L ⟨.specs, specId⟩) (hm : Holds L ⟨.mapListingBind, m⟩) :
    Course rowLocks since L (UpToSweep m) (Sure L specId s.userId s.nameId)
      (ListedMaps.materializeInTx pg m specId s games collectibles hats) (fun _ => L) (UpToSweep m)
      (fun _ => Sure L specId s.userId s.nameId) := by
  refine Course.bind (replaceGames_course UpToSweep.low hspec games) fun _ =>
    Course.bind (replaceCollectibles_course UpToSweep.low hspec collectibles) fun _ =>
    Course.bind (replaceHats_course UpToSweep.low hspec hats) fun _ =>
    Course.bind (bindGames_course UpToSweep.low hm Sure.carries) fun _ =>
    Course.bind (bindCollectibles_course UpToSweep.low hm Sure.carries) fun _ =>
    Course.bind (bindHats_course hm Sure.carries) fun hatBind =>
    Course.bind (setMaterialized_course hm Sure.carries) fun _ => ?_
  exact .pure (fun _ hx => hx) (fun _ hx => hx) fun _ _ _ hA => hA

/-- The spec is locked first, and a bind goes on only with one that is there. -/
theorem lockedSpec_rest {ε α : Type} {f : Option SpecRow → Query ε α}
    {e : DbError → ε} {e' : ε} (hnone : f none = throw e')
    (hsome : ∀ s, Rest rowLocks since [⟨⟨.specs, specId⟩, .update⟩] (Below 2)
      (Sure [⟨⟨.specs, specId⟩, .update⟩] specId s.userId s.nameId) (f (some s))) :
    Rest rowLocks since [] (fun _ => False) (fun db v => v = db)
      (ExceptT.adapt e (sql (ListedMaps.lockSpecStmt .update specId)) >>= f) := by
  refine Rest.bind (Course.adapt (lockSpec_course (by decide) specId)) fun o => ?_
  cases o with
  | none =>
      rw [hnone]
      exact .throw
  | some s =>
      exact (hsome s).pre (fun _ hx => hx) (fun _ hx => hx)
        fun db v _ hA => (hA.2 s rfl).mono (by simp)

/-- The first statement after that locks the binding, if it is there. -/
theorem lockBinding_course (hspec : Holds L ⟨.specs, specId⟩) (hA : Carries A) :
    Course rowLocks since L (Below 2) A (sql (ListedMaps.lockBindingStmt mapUid)) (fun _ => L)
      (UpTo ⟨.mapListingBind, mapUid⟩) (fun _ => A) :=
  (binding_course lockBinding_onBinding hspec hA fun _ _ _ _ _ hx => List.mem_append_right _ hx).pre
    (Below.upTo (by decide)) fun _ _ _ hA => hA

theorem purge_course {purge : Bool} (hm : Holds L ⟨.mapListingBind, m⟩) (hA : Carries A) :
    Course rowLocks since L (UpTo ⟨.mapListingBind, m⟩) A
      (if purge then Hats.purgeMapEquipmentInTx m else return []) (fun _ => L) (UpToSweep m)
        (fun _ => A) := by
  split
  · exact (takeOff_course hm hA).pre (fun _ hx => .inl hx) fun _ _ _ hA => hA
  · exact .pure (fun _ hx => hx) (fun _ hx => .inl hx) fun _ _ _ hA => hA

theorem commitAuthoritativeBind_rest {prepared : ListedMaps.PreparedBind} {reporterId : Uuid} :
    Rest rowLocks since [] (fun _ => False) (fun db v => v = db)
      (ListedMaps.commitAuthoritativeBind pg prepared reporterId mapUid specId) := by
  refine .transaction (.ask fun now => lockedSpec_rest rfl fun s => ?_)
  have hspec : Holds [(⟨⟨.specs, specId⟩, .update⟩ : RowLock)] ⟨.specs, specId⟩ :=
    ⟨_, List.mem_singleton.2 rfl, rfl, rfl⟩
  have hkeep : ∀ {β : Type} {b : β} {v e} {s : Sql β}, s.run v = some (e, b) →
      ∀ x ∈ [(⟨⟨.specs, specId⟩, .update⟩ : RowLock)], x ∈
        e.allLocks v ++ [⟨⟨.specs, specId⟩, .update⟩] :=
    fun _ x hx => List.mem_append_right _ hx
  refine Rest.bind (Course.adapt (lockBinding_course hspec Sure.carries)) fun binding => ?_
  rw [adapt_commitQ]
  dsimp only
  split
  · exact .throw
  split
  · exact .throw
  split
  · exact .throw
  split
  · exact .commitPure fun _ _ _ h => h.toTidy.guarantee
  refine Rest.ofExcept fun games => Rest.ofExcept fun collectibles => Rest.ofExcept fun hats => ?_
  refine Rest.bind (Course.adapt (binding_course insertBinding_onBinding hspec Sure.carries
    fun _ _ _ he => hkeep he)) fun _ => ?_
  refine Rest.bind (Course.adapt (binding_course takeOverBinding_onBinding hspec Sure.carries
    fun _ _ _ he => hkeep he)) fun _ => ?_
  refine Rest.bind (Course.adapt (lockWinner_course hspec Sure.carries)) fun winner => ?_
  cases winner with
  | none => exact .throw
  | some winner =>
      dsimp only
      split
      · exact .throw
      split
      · exact .throw
      have hm : Holds (⟨⟨.mapListingBind, mapUid⟩,
          .update⟩ :: [(⟨⟨.specs, specId⟩, .update⟩ : RowLock)])
          ⟨.mapListingBind, mapUid⟩ := ⟨_, List.mem_cons_self, rfl, rfl⟩
      have hcons : ∀ x ∈ [(⟨⟨.specs, specId⟩, .update⟩ : RowLock)],
          x ∈ [(⟨⟨.mapListingBind, mapUid⟩, .update⟩ : RowLock),
            ⟨⟨.specs, specId⟩, .update⟩] :=
        fun x hx => List.mem_cons_of_mem _ hx
      refine Rest.bind (Course.adapt (purge_course hm Sure.carries)) fun purged => ?_
      refine Rest.pre (Rest.bind (Course.adapt (materialize_course (hspec.mono hcons) hm))
        fun removed => ?_)
        (fun _ hx => hx) (fun _ hx => hx) fun db v _ hA => hA.mono hcons
      exact .commitPure fun _ _ _ h => h.toTidy.guarantee

theorem commitCommentBind_rest :
    Rest rowLocks since [] (fun _ => False) (fun db v => v = db)
      (ListedMaps.commitCommentBind pg mapUid specId) := by
  refine .transaction (.ask fun now => lockedSpec_rest rfl fun s => ?_)
  have hspec : Holds [(⟨⟨.specs, specId⟩, .update⟩ : RowLock)] ⟨.specs, specId⟩ :=
    ⟨_, List.mem_singleton.2 rfl, rfl, rfl⟩
  refine Rest.bind (Course.adapt (lockBinding_course hspec Sure.carries)) fun binding => ?_
  rw [adapt_commitQ]
  dsimp only
  split
  · exact .commitPure fun _ _ _ h => h.toTidy.guarantee
  refine Rest.ofExcept fun games => Rest.ofExcept fun collectibles => Rest.ofExcept fun hats => ?_
  refine Rest.bind (Course.adapt (upsertBinding_course hspec Sure.carries)) fun _ => ?_
  have hm : Holds (⟨⟨.mapListingBind, mapUid⟩,
      .noKeyUpdate⟩ :: [(⟨⟨.specs, specId⟩, .update⟩ : RowLock)])
      ⟨.mapListingBind, mapUid⟩ := ⟨_, List.mem_cons_self, rfl, rfl⟩
  have hcons : ∀ x ∈ [(⟨⟨.specs, specId⟩, .update⟩ : RowLock)],
      x ∈ [(⟨⟨.mapListingBind, mapUid⟩, .noKeyUpdate⟩ : RowLock),
        ⟨⟨.specs, specId⟩, .update⟩] :=
    fun x hx => List.mem_cons_of_mem _ hx
  refine Rest.bind (Course.adapt (purge_course hm Sure.carries)) fun purged => ?_
  refine Rest.pre (Rest.bind (Course.adapt (materialize_course (hspec.mono hcons) hm))
    fun removed => ?_)
    (fun _ hx => hx) (fun _ hx => hx) fun db v _ hA => hA.mono hcons
  exact .commitPure fun _ _ _ h => h.toTidy.guarantee

end

end Dd2Server
