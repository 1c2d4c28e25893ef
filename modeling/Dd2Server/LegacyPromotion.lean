import Dd2Server.Runs

/-!
# Legacy bindings become verified

The rows of a legacy binding were never authoritative, so a bind that verifies it has to take off
all hats of the map.  The author-present bind purges them whenever it takes a legacy binding over.
The bind by comment purges them only when the comment names another spec than the legacy binding
did.
-/

namespace Dd2Server

open ReadCommitted

/-- The job follows the published comment of a map. -/
def Job.followsComment : Job → Bool
  | .commentBind _ | .recheckBind _ => true
  | _ => false

/-- The job runs `commit_authoritative_bind` or `commit_comment_bind`. -/
def Job.binds : Job → Bool
  | .reportMap _ _ _ | .deferredBind _ _ _ | .authoritativeBind _ _ _ => true
  | .commentBind _ | .recheckBind _ => true
  | _ => false

/-- The comment names the spec that the legacy binding names already, and a hat that is worn on the
map is one of that spec. -/
structure Spared (pg : Pg) (j : Job) (older : Log) (pre : Db) (m : String)
    (b : BindRow) : Prop where
  comment : j.followsComment = true
  same : resolved older = some b.specId
  worn : ∃ u e s c, pre.get ⟨.hatEquipped, (u, m)⟩ = some e ∧
    pre.get ⟨.specs, b.specId⟩ = some s ∧ parseCatalogs (pg.value s.spec) = .ok c ∧
      c.fits pg m e = true

/-- No hat that was worn on the map before is worn after. -/
def TakesAllOff (m : String) (pre post : Db) : Prop :=
  ∀ u e, pre.get ⟨.hatEquipped, (u, m)⟩ = some e →
    post.get ⟨.hatEquipped, (u, m)⟩ = none

section

variable {pg : Pg} {m m' : String} {specId : Int} {s : SpecRow} {c : Parsed}
  {t : Time} {purge : Bool} {pre post : Db} {b b' : BindRow} {u : Uuid} {older : Log}

theorem LegacyAt.not_verified (h : LegacyAt pre m b) : ¬VerifiedAt pre m b' := by
  rintro ⟨hb', s, hs, hver⟩
  rw [h.1] at hb'
  cases hb'
  rw [h.2 s hs] at hver
  cases hver

/-- A bind verifies its own map only. -/
theorem Bound.promotes (h : Bound pg m' specId s c t purge pre post) (hb : LegacyAt pre m b)
    (hb' : VerifiedAt post m b') : m' = m := by
  by_contra hne
  obtain ⟨hrow, s', hs', hver⟩ := hb'
  rw [h.otherBinds m (Ne.symm hne)] at hrow
  rw [h.others.get _ (by decide)] at hs'
  exact hb.not_verified ⟨hrow, s', hs', hver⟩

/-- What a bind leaves on the heads are the hats that fit, unless it purges. -/
theorem Bound.takesAllOff_iff (h : Bound pg m specId s c t purge pre post) :
    TakesAllOff m pre post ↔ purge = true ∨
      ∀ u e, pre.get ⟨.hatEquipped, (u, m)⟩ = some e → c.fits pg m e = false := by
  constructor
  · intro hoff
    cases hp : purge with
    | true => exact .inl rfl
    | false =>
        right
        intro u e he
        by_contra hfits
        have hstays := (h.equipped (u, m) e).2 ⟨he, fun _ => ⟨hp, by simpa using hfits⟩⟩
        rw [hoff u e he] at hstays
        cases hstays
  · intro hcase u e he
    cases hpost : post.get ⟨.hatEquipped, (u, m)⟩ with
    | none => rfl
    | some e' =>
        obtain ⟨he', hkept⟩ := (h.equipped (u, m) e').1 hpost
        obtain ⟨hno, hfits⟩ := hkept rfl
        rcases hcase with hyes | hnone
        · rw [hno] at hyes
          cases hyes
        · rw [hnone u e' he'] at hfits
          cases hfits

/-- The author-present bind purges what it takes over. -/
theorem AuthoritativeBind.promotes (h : AuthoritativeBind pg u m' specId older pre post)
    (hb : LegacyAt pre m b) (hb' : VerifiedAt post m b') : TakesAllOff m pre post := by
  rcases h with ⟨rfl, -⟩ | ⟨s, c, t, purge, hbound, hreplaces⟩
  · exact absurd hb' hb.not_verified
  · obtain rfl := hbound.promotes hb hb'
    rw [hbound.takesAllOff_iff]
    left
    rcases hreplaces with ⟨-, b₀, hver, -⟩ | ⟨-, -, -, hpurge⟩
    · exact absurd hver hb.not_verified
    · exact hpurge.2 ⟨b, hb.1⟩

/-- The bind by comment purges what it takes over from another spec. -/
theorem CommentBind.promotes_iff (h : CommentBind pg m' older pre post) (hb : LegacyAt pre m b)
    (hb' : VerifiedAt post m b') :
    TakesAllOff m pre post ↔ ¬(resolved older = some b.specId ∧ ∃ u e s c,
      pre.get ⟨.hatEquipped, (u, m)⟩ = some e ∧ pre.get ⟨.specs, b.specId⟩ = some s ∧
        parseCatalogs (pg.value s.spec) = .ok c ∧ c.fits pg m e = true) := by
  obtain ⟨specId, v, hres, hlast, ⟨rfl, -⟩ | ⟨s, c, t, hbound, hpurge, -⟩⟩ := h
  · exact absurd hb' hb.not_verified
  obtain rfl := hbound.promotes hb hb'
  rw [hbound.takesAllOff_iff, hpurge b hb, hres]
  by_cases hsame : b.specId = specId
  · subst hsame
    constructor
    · rintro (hyes | hnone) ⟨-, u, e, s', c', he, hs', hc', hfits⟩
      · simp at hyes
      · rw [hbound.spec] at hs'
        cases hs'
        rw [hbound.parsed] at hc'
        cases hc'
        rw [hnone u e he] at hfits
        cases hfits
    · intro hnot
      right
      intro u e he
      by_contra hfits
      exact hnot ⟨rfl, u, e, s, c, he, hbound.spec, hbound.parsed, by simpa using hfits⟩
  · constructor
    · rintro - ⟨heq, -⟩
      exact hsame (Option.some.inj heq).symm
    · exact fun _ => .inl (decide_eq_true hsame)

end

/-- A commit that verifies a legacy binding takes all hats off the map, exactly when it is not a
bind by comment to the same spec while a hat of that spec is worn. -/
theorem promotion_purges_iff {pg : Pg} {db₀ : Db} {s : System} (hrun : RunFrom pg db₀ s)
    (hinv : Inv pg False db₀) {t : ServerTask} (ht : t ∈ s.tasks) (hj : t.job.binds = true)
    {newer older : Log} {pre post : Db} (hlog : t.loc.log = newer ++ .committed pre post :: older)
    {m : String} {b b' : BindRow} (hb : LegacyAt pre m b) (hb' : VerifiedAt post m b') :
    TakesAllOff m pre post ↔ ¬Spared pg t.job older pre m b := by
  have hkept := hrun.promised hinv ht hlog
  cases hjob : t.job with
  | reportMap u m' specId | deferredBind u m' specId | authoritativeBind u m' specId =>
      rw [hjob] at hkept
      have hoff := AuthoritativeBind.promotes hkept hb hb'
      exact ⟨fun _ hspared => (nomatch hspared.comment), fun _ => hoff⟩
  | commentBind m' | recheckBind m' =>
      rw [hjob] at hkept
      rw [CommentBind.promotes_iff hkept hb hb']
      exact not_congr ⟨fun ⟨hsame, hworn⟩ => ⟨rfl, hsame, hworn⟩,
        fun h => ⟨h.same, h.worn⟩⟩
  | _ =>
      rw [hjob] at hj
      cases hj

/-! ## A legacy binding of the sample map -/

instance (db : Db) (m : String) (b : BindRow) : Decidable (LegacyAt db m b) :=
  decidable_of_iff (db.get ⟨.mapListingBind, m⟩ = some b ∧
      (db.get ⟨.specs, b.specId⟩).all (fun s => !b.isVerified s) = true) <| by
    cases h : db.get ⟨.specs, b.specId⟩ <;> simp [LegacyAt, h]

instance (db : Db) (m : String) (b : BindRow) : Decidable (VerifiedAt db m b) :=
  decidable_of_iff (db.get ⟨.mapListingBind, m⟩ = some b ∧
      (db.get ⟨.specs, b.specId⟩).any b.isVerified = true) <| by
    cases h : db.get ⟨.specs, b.specId⟩ <;> simp [VerifiedAt, h]

/-- Only the binding of a map changes, and it stays with its spec. -/
theorem Inv.rebound {pg : Pg} {w : Scope} {db : Db} {m : String} {b b₀ : BindRow}
    (hinv : Inv pg w.strict db) (hb₀ : db.get ⟨.mapListingBind, m⟩ = some b₀)
    (hspec : b₀.specId = b.specId) :
    Inv pg w.strict (db.put ⟨⟨.mapListingBind, m⟩, some b⟩) := by
  have hother : ∀ k : DbKey, k ≠ ⟨.mapListingBind, m⟩ →
      (db.put ⟨⟨.mapListingBind, m⟩, some b⟩).get k = db.get k :=
    fun k hk => Store.get_put_of_ne (Ne.symm hk)
  refine hinv.around (fun k hk => hother k fun he => hk ?_) (fun m' b' hb' => ?_) fun k e he => ?_
  · rw [he]
    simp
  · by_cases hm : m' = m
    · subst hm
      rw [Store.get_put_self] at hb'
      cases hb'
      exact ⟨b₀, hb₀, hspec⟩
    · rw [hother _ (by simpa using hm)] at hb'
      exact ⟨b', hb', rfl⟩
  · rw [hother _ (by simp)] at he ⊢
    exact hinv.equippedUser k e he

namespace Sample

/-- A binding from before the verification of authors. -/
def legacyBind : BindRow where
  specId := 7
  verified := none
  materialized := none

/-- The rows with the binding of the map as it was then. -/
def legacy (db : Db) : Db := db.put ⟨⟨.mapListingBind, mapUid⟩, some legacyBind⟩

/-- The newest commit of the first task, if it verified the legacy binding. -/
def promotion (s : System) : Option (ServerTask × BindRow × Log × Db × Db × Log) :=
  s.tasks.head?.bind fun t => (lastCommit t.loc.log).bind fun x =>
    (x.2.2.1.get ⟨.mapListingBind, mapUid⟩).bind fun b' =>
      if LegacyAt x.2.1 mapUid legacyBind ∧ VerifiedAt x.2.2.1 mapUid b' then some (t, b', x)
        else none

/-- A commit that verified the legacy binding, in a run of one job on the legacy rows. -/
structure Promotion (db₀ : Db) (s : System) (t : ServerTask) (newer older : Log) (pre post : Db)
    (b' : BindRow) : Prop where
  inv : Inv pg False db₀
  run : RunFrom pg db₀ s
  task : t ∈ s.tasks
  log_eq : t.loc.log = newer ++ .committed pre post :: older
  legacy : LegacyAt pre mapUid legacyBind
  verified : VerifiedAt post mapUid b'

theorem promoted (cues : List Cue) (is : Job → Bool) (after : Db → Db → Bool)
    (h : ((script pg (System.on Store.empty) worn).any fun s =>
      (s.db.get ⟨.mapListingBind, mapUid⟩).any (fun b => decide (b.specId = 7)) &&
      ((script pg (System.on (Sample.legacy s.db)) cues).bind promotion).any fun x =>
        is x.1.job && after x.2.2.2.1 x.2.2.2.2.1) = true) :
    ∃ db₀ s t newer older pre post b',
      Promotion db₀ s t newer older pre post b' ∧ is t.job = true ∧
      after pre post = true := by
  obtain ⟨s₀, hs₀, h⟩ := (Option.any_eq_true _ _).1 h
  simp only [Bool.and_eq_true] at h
  obtain ⟨hbind, hrun⟩ := h
  obtain ⟨b₀, hb₀, hspec⟩ := (Option.any_eq_true _ _).1 hbind
  obtain ⟨x, hx, hok⟩ := (Option.any_eq_true _ _).1 hrun
  obtain ⟨s, hs, hprom⟩ := Option.bind_eq_some_iff.1 hx
  obtain ⟨t, ht, hrest⟩ := Option.bind_eq_some_iff.1 hprom
  obtain ⟨⟨newer, pre, post, older⟩, hlast, hrest⟩ := Option.bind_eq_some_iff.1 hrest
  obtain ⟨b', -, hif⟩ := Option.bind_eq_some_iff.1 hrest
  split at hif
  case isFalse => cases hif
  case isTrue hkinds =>
    cases hif
    simp only [Bool.and_eq_true, decide_eq_true_eq] at hok hspec
    have hinv₀ : Inv pg False s₀.db :=
      ((RunFrom.played Reach.init hs₀).sound (inv_empty pg False)).inv
    have hinv : Inv pg False (Sample.legacy s₀.db) := hinv₀.rebound (w := .any) hb₀ hspec
    have hrun : RunFrom pg (Sample.legacy s₀.db) s := RunFrom.played Reach.init hs
    exact ⟨_, s, t, newer, older, pre, post, b', ⟨hinv, hrun, List.mem_of_mem_head? ht,
      lastCommit_eq hlast, hkinds.1, hkinds.2⟩, hok⟩

end Sample

/-- The author's bind takes the hat of the legacy binding off. -/
theorem promotion_purges_iff_owner : ∃ pre post,
    (pre.get ⟨.hatEquipped, (1, Sample.mapUid)⟩).isSome = true ∧
      LegacyAt pre Sample.mapUid Sample.legacyBind ∧ TakesAllOff Sample.mapUid pre post := by
  obtain ⟨db₀, s, t, newer, older, pre, post, b', h, his, hworn⟩ :=
    Sample.promoted [.start (.authoritativeBind 1 Sample.mapUid 7),
      .go 0 60 (Sample.answers 7 none)]
      (fun j => j.binds && !j.followsComment)
      (fun pre _ => (pre.get ⟨.hatEquipped, (1, Sample.mapUid)⟩).isSome)
      (by decide +kernel)
  refine ⟨pre, post, hworn, h.legacy, ?_⟩
  simp only [Bool.and_eq_true] at his
  rw [promotion_purges_iff h.run h.inv h.task his.1 h.log_eq h.legacy h.verified]
  intro hspared
  rw [hspared.comment] at his
  cases his.2

/-- The comment names the spec of the legacy binding, and the hat stays on. -/
theorem promotion_spares : ∃ db₀ s t newer older pre post b b', Inv Sample.pg False db₀ ∧
    RunFrom Sample.pg db₀ s ∧ t ∈ s.tasks ∧ t.job.binds = true ∧
      t.loc.log = newer ++ .committed pre post :: older ∧ LegacyAt pre Sample.mapUid b ∧
        VerifiedAt post Sample.mapUid b' ∧ ¬TakesAllOff Sample.mapUid pre post := by
  obtain ⟨db₀, s, t, newer, older, pre, post, b', h, hbinds, hkept⟩ :=
    Sample.promoted
      [.start (.commentBind Sample.mapUid),
        .go 0 60 (Sample.answers 7 (some (Sample.comment "climb")))] Job.binds
      (fun pre post => (pre.get ⟨.hatEquipped, (1, Sample.mapUid)⟩).isSome &&
        (post.get ⟨.hatEquipped, (1, Sample.mapUid)⟩).isSome)
      (by decide +kernel)
  refine ⟨db₀, s, t, newer, older, pre, post, _, b', h.inv, h.run, h.task, hbinds, h.log_eq,
    h.legacy, h.verified, fun hoff => ?_⟩
  simp only [Bool.and_eq_true] at hkept
  obtain ⟨e, he⟩ := Option.isSome_iff_exists.1 hkept.1
  rw [hoff 1 e he] at hkept
  cases hkept.2

end Dd2Server
