import Dd2Server.Runs

/-!
# Who is told that a hat came off

A bind takes worn hats off in two places: the purge, and the re-materialisation, for the hats that
do not fit the new catalog.  The author-present bind tells the others of both.  The bind by comment
keeps the wearers of the purge only, and the recheck over HTTP tells nobody.
-/

namespace Dd2Server

open ReadCommitted

/-- The map that a request or an adoption binds. -/
def Job.boundMap : Job → Option String
  | .reportMap _ m _ | .deferredBind _ m _ => some m
  | .commentBind m | .recheckBind m => some m
  | _ => none

/-- A bind by comment to a spec, after a locking read of the binding on `v`, takes a hat off that
nobody is told of. -/
structure Dropped (pg : Pg) (j : Job) (m : String) (specId : Int) (v pre : Db) : Prop where
  comment : j = .commentBind m ∨ j = .recheckBind m
  untold : rebinds v m specId = true → j = .recheckBind m
  stale : ¬Current pg m specId pre
  worn : ∃ u e s c, pre.get ⟨.hatEquipped, (u, m)⟩ = some e ∧
    pre.get ⟨.specs, specId⟩ = some s ∧
    parseCatalogs (pg.value s.spec) = .ok c ∧
      (rebinds v m specId = true ∨ c.fits pg m e = false)

section

variable {pg : Pg} {m : String} {specId : Int} {s : SpecRow} {c : Parsed} {t : Time}
  {purge told : Bool} {pre post pre' post' v : Db} {newer older newer' older' log : Log} {u : Uuid}
  {e : HatEquippedRow}

/-- A log with one commit splits at one place. -/
theorem OneCommit.unique (h : OneCommit newer pre post older log)
    (hlog : log = newer' ++ .committed pre' post' :: older') :
    newer' = newer ∧ pre' = pre ∧ post' = post ∧ older' = older := by
  rw [h.log_eq] at hlog
  rcases List.append_eq_append_iff.1 hlog with ⟨l, hl, hr⟩ | ⟨l, hl, hr⟩
  · cases l with
    | nil =>
        cases hr
        exact ⟨hl.trans (List.append_nil _), rfl, rfl, rfl⟩
    | cons ev l =>
        cases hr
        exact absurd (List.mem_append_right l List.mem_cons_self) (h.before pre' post')
  · cases l with
    | nil =>
        cases hr
        exact ⟨(hl.trans (List.append_nil _)).symm, rfl, rfl, rfl⟩
    | cons ev l =>
        cases hr
        rw [hl] at h
        exact absurd (List.mem_append_right newer' List.mem_cons_self) (h.after pre' post')

theorem Silent.not_announced (h : Silent newer) (he : pre.get ⟨.hatEquipped, (u, m)⟩ = some e)
    (hoff : post.get ⟨.hatEquipped, (u, m)⟩ = none) : ¬Announced m newer pre post := by
  intro hann
  obtain ⟨hats, hm, -⟩ := hann u e he hoff
  exact h m hats hm

/-- A hat comes off in a bind, exactly when it is purged or does not fit. -/
theorem Bound.off_iff (h : Bound pg m specId s c t purge pre post)
    (he : pre.get ⟨.hatEquipped, (u, m)⟩ = some e) :
    post.get ⟨.hatEquipped, (u, m)⟩ = none ↔ purge = true ∨ c.fits pg m e = false := by
  constructor
  · intro hoff
    by_contra hnot
    simp only [not_or, Bool.not_eq_true, Bool.not_eq_false] at hnot
    rw [(h.equipped (u, m) e).2 ⟨he, fun _ => hnot⟩] at hoff
    cases hoff
  · intro hcase
    cases hpost : post.get ⟨.hatEquipped, (u, m)⟩ with
    | none => rfl
    | some e' =>
        obtain ⟨he', hkept⟩ := (h.equipped (u, m) e').1 hpost
        obtain rfl : e' = e := Option.some.inj (he'.symm.trans he)
        obtain ⟨hno, hfits⟩ := hkept rfl
        rw [hno, hfits] at hcase
        simp at hcase

/-- Where a bind by comment commits, the others know of what came off, unless it is dropped. -/
theorem CommentBind.announced_iff {j : Job} (hcommit : CommentBind pg m older pre post)
    (hj : j = .commentBind m ∧ told = true ∨ j = .recheckBind m ∧ told = false)
    (htold : ∀ specId v, resolved older = some specId → lastLocked m older = some v →
      (rebinds v m specId = true → told = true → Announced m newer pre post) ∧
      (rebinds v m specId = false ∨ told = false → Silent newer)) :
    Announced m newer pre post ↔ ¬∃ specId v, resolved older = some specId ∧
      lastLocked m older = some v ∧ Dropped pg j m specId v pre := by
  obtain ⟨specId, v, hres, hlast, hcase⟩ := hcommit
  obtain ⟨hyes, hno⟩ := htold specId v hres hlast
  have hcomment : j = .commentBind m ∨ j = .recheckBind m := hj.imp And.left And.left
  constructor
  · rintro hann ⟨specId', v', hres', hlast', hd⟩
    obtain rfl : specId' = specId := Option.some.inj (hres'.symm.trans hres)
    obtain rfl : v' = v := Option.some.inj (hlast'.symm.trans hlast)
    rcases hcase with ⟨-, -, hcur⟩ | ⟨s, c, t, hb, -, -⟩
    · exact hd.stale hcur
    · obtain ⟨u, e, s', c', he, hs', hc', hoff⟩ := hd.worn
      obtain rfl : s' = s := Option.some.inj (hs'.symm.trans hb.spec)
      obtain rfl : c' = c := Except.ok.inj (hc'.symm.trans hb.parsed)
      refine Silent.not_announced (hno ?_) he ((hb.off_iff he).2 hoff) hann
      cases hre : rebinds v' m specId' with
      | false => exact .inl rfl
      | true =>
          rcases hj with ⟨hj, -⟩ | ⟨-, hf⟩
          · rw [hd.untold hre] at hj
            cases hj
          · exact .inr hf
  · intro hnot u e he hoff
    rcases hcase with ⟨rfl, -⟩ | ⟨s, c, t, hb, -, hstale⟩
    · rw [he] at hoff
      cases hoff
    · have hre : rebinds v m specId = true ∧ told = true := by
        by_contra hsilent
        refine hnot ⟨specId, v, hres, hlast, hcomment, fun hre => ?_, hstale, u, e,
          s, c, he, hb.spec, hb.parsed, (hb.off_iff he).1 hoff⟩
        rcases hj with ⟨-, ht⟩ | ⟨hj, -⟩
        · exact absurd ⟨hre, ht⟩ hsilent
        · exact hj
      exact hyes hre.1 hre.2 u e he hoff

/-- A bind by comment that ended has told the others, or nobody. -/
theorem CommentReply.announces {o : CommentBindOutcome} {db : Db} (h : CommentReply m told o log db)
    (hlog : log = newer ++ .committed pre post :: older) :
    ∀ specId v, resolved older = some specId → lastLocked m older = some v →
      (rebinds v m specId = true → told = true → Announced m newer pre post) ∧
      (rebinds v m specId = false ∨ told = false → Silent newer) := by
  cases o with
  | bound specId' mat replaced =>
      obtain ⟨newer', pre', post', older', specId', v', hone, hres', hlast', hyes, hno⟩ := h
      obtain ⟨rfl, rfl, rfl, rfl⟩ := hone.unique hlog
      intro specId v hres hlast
      obtain rfl : specId' = specId := Option.some.inj (hres'.symm.trans hres)
      obtain rfl : v' = v := Option.some.inj (hlast'.symm.trans hlast)
      exact ⟨hyes, hno⟩
  | _ =>
      rw [hlog] at h
      exact absurd (List.mem_append_right newer List.mem_cons_self) (h pre post)

end

/-- When a request, an adoption or a recheck that committed a bind of a map has ended, the others
were told of each hat that came off in its commit, exactly when it is not a bind by comment that
drops a hat. -/
theorem removals_announced_iff {pg : Pg} {db₀ : Db} {s : System} (hrun : RunFrom pg db₀ s)
    (hinv : Inv pg False db₀) {t : ServerTask} (ht : t ∈ s.tasks) {r : Reply}
    (hr : t.prog = .ret r) {m : String} (hj : t.job.boundMap = some m)
    {newer older : Log} {pre post : Db} (hlog : t.loc.log = newer ++ .committed pre post :: older) :
    Announced m newer pre post ↔ ¬∃ specId v, resolved older = some specId ∧
      lastLocked m older = some v ∧ Dropped pg t.job m specId v pre := by
  have hended := hrun.ended hinv ht hr
  have hkept := hrun.promised hinv ht hlog
  have hmem : (.committed pre post : LogEvent) ∈ t.loc.log :=
    hlog ▸ List.mem_append_right newer List.mem_cons_self
  cases hjob : t.job with
  | reportMap u m' specId | deferredBind u m' specId =>
      rw [hjob] at hended hj
      cases hj
      refine iff_of_true ?_ fun ⟨_, _, _, _, hd⟩ => hd.comment.elim nofun nofun
      cases r with
      | bind r =>
          cases r with
          | error e =>
              cases e with
              | db => exact absurd hmem (hended pre post)
              | str e => exact absurd hmem (hended.1 pre post)
          | ok _ =>
              rcases hended with hU | ⟨newer', pre', post', older', hone, hann⟩
              · exact absurd hmem (hU pre post)
              · obtain ⟨rfl, rfl, rfl, -⟩ := hone.unique hlog
                exact hann
      | _ => exact hended.elim
  | commentBind m' =>
      rw [hjob] at hended hkept hj
      cases hj
      cases r with
      | comment r =>
          cases r with
          | error e => exact hended.elim
          | ok o =>
              exact CommentBind.announced_iff hkept (.inl ⟨rfl, rfl⟩)
                (CommentReply.announces hended hlog)
      | _ => exact hended.elim
  | recheckBind m' =>
      rw [hjob] at hended hkept hj
      cases hj
      cases r with
      | recheck r =>
          cases r with
          | error e => exact hended.elim
          | ok o =>
              cases o with
              | none => exact absurd hmem (hended pre post)
              | some o =>
                  exact CommentBind.announced_iff hkept (.inr ⟨rfl, rfl⟩)
                    (CommentReply.announces hended hlog)
      | _ => exact hended.elim
  | _ =>
      rw [hjob] at hj
      cases hj

/-! ## A second spec of the author -/

namespace Sample

/-- The author uploads the spec under another name, and the map is bound to it. -/
def moved (job : Job) : List Cue :=
  worn ++ [.start (.upload 1 "climb2" spec), .go 5 40 (answers 8 none),
    .start job, .go 6 60 (answers 8 (some (comment "climb2")))]

/-- The newest commit of the last task, with its reply. -/
def closing (s : System) : Option (ServerTask × Reply × Log × Db × Db × Log) :=
  s.tasks[6]?.bind fun t =>
    match t.prog with
    | .ret r => (lastCommit t.loc.log).map fun x => (t, r, x)
    | _ => none

theorem closed {s : System} {t : ServerTask} {r : Reply} {newer older : Log} {pre post : Db}
    (h : closing s = some (t, r, newer, pre, post, older)) :
    t ∈ s.tasks ∧ t.prog = .ret r ∧ t.loc.log = newer ++ .committed pre post :: older := by
  obtain ⟨t', ht, h⟩ := Option.bind_eq_some_iff.1 h
  cases hp : t'.prog with
  | ret r' =>
      rw [hp] at h
      obtain ⟨x, hx, he⟩ := Option.map_eq_some_iff.1 h
      cases he
      exact ⟨List.mem_of_getElem? ht, hp, lastCommit_eq hx⟩
  | _ =>
      rw [hp] at h
      cases h

/-- The hat of the author came off in the closing commit. -/
def cameOff (x : ServerTask × Reply × Log × Db × Db × Log) : Bool :=
  (x.2.2.2.1.get ⟨.hatEquipped, (1, mapUid)⟩).isSome &&
    (x.2.2.2.2.1.get ⟨.hatEquipped, (1, mapUid)⟩).isNone

end Sample

/-- A player adopts the map after its comment has changed, and is told that the author's hat is
off. -/
theorem removals_announced_iff_adopted :
    ∃ (s : System) (newer : Log) (pre post : Db), Run Sample.pg s ∧
      (pre.get ⟨.hatEquipped, (1, Sample.mapUid)⟩).isSome = true ∧
      (post.get ⟨.hatEquipped, (1, Sample.mapUid)⟩).isNone = true ∧
      Announced Sample.mapUid newer pre post := by
  obtain ⟨s, hrun, hs⟩ : ∃ s, RunFrom Sample.pg Store.empty s ∧
      ((Sample.closing s).any fun x => Sample.cameOff x &&
        decide (x.1.job.boundMap = some Sample.mapUid) &&
        (match x.1.job with | .recheckBind _ => false | _ => true) &&
        (resolved x.2.2.2.2.2).any fun specId =>
          (lastLocked Sample.mapUid x.2.2.2.2.2).any fun v =>
            rebinds v Sample.mapUid specId) = true :=
    RunFrom.scripted (Sample.moved (.commentBind Sample.mapUid)) (by decide +kernel)
  obtain ⟨⟨t, r, newer, pre, post, older⟩, hx, hok⟩ := (Option.any_eq_true _ _).1 hs
  obtain ⟨ht, hr, hlog⟩ := Sample.closed hx
  simp only [Sample.cameOff, Bool.and_eq_true, decide_eq_true_eq] at hok
  obtain ⟨⟨⟨⟨hpre, hpost⟩, hmap⟩, hjob⟩, hre⟩ := hok
  refine ⟨s, newer, pre, post, hrun, hpre, hpost, ?_⟩
  rw [removals_announced_iff hrun (inv_empty Sample.pg False) ht hr hmap hlog]
  rintro ⟨specId, v, hres, hlast, hd⟩
  rw [hres, Option.any_some, hlast, Option.any_some] at hre
  rw [hd.untold hre] at hjob
  cases hjob

/-- The recheck takes the hat off, and nobody is told. -/
theorem removals_dropped :
    ∃ (s : System) (t : ServerTask) (r : Reply) (m : String) (newer older : Log) (pre post : Db),
      Run Sample.pg s ∧ t ∈ s.tasks ∧ t.prog = .ret r ∧ t.job.boundMap = some m ∧
      t.loc.log = newer ++ .committed pre post :: older ∧ ¬Announced m newer pre post := by
  obtain ⟨s, hrun, hs⟩ : ∃ s, RunFrom Sample.pg Store.empty s ∧
      ((Sample.closing s).any fun x => Sample.cameOff x &&
        decide (x.1.job.boundMap = some Sample.mapUid) && x.2.2.1.isEmpty) = true :=
    RunFrom.scripted (Sample.moved (.recheckBind Sample.mapUid)) (by decide +kernel)
  obtain ⟨⟨t, r, newer, pre, post, older⟩, hx, hok⟩ := (Option.any_eq_true _ _).1 hs
  obtain ⟨ht, hr, hlog⟩ := Sample.closed hx
  simp only [Sample.cameOff, Bool.and_eq_true, decide_eq_true_eq, List.isEmpty_iff] at hok
  obtain ⟨⟨⟨hpre, hpost⟩, hmap⟩, rfl⟩ := hok
  obtain ⟨e, he⟩ := Option.isSome_iff_exists.1 hpre
  refine ⟨s, t, r, _, [], older, pre, post, hrun, ht, hr, hmap, hlog, ?_⟩
  exact Silent.not_announced (fun _ _ hm => nomatch hm) he (Option.isNone_iff_eq_none.1 hpost)

end Dd2Server
