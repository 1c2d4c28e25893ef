import Dd2Server.ReadCommitted.Conduct
import Dd2Server.Equipment

/-!
# The authority of a binding

The author-present bind checks the owner and the author before it takes a lock, and decides again
under the locks of the spec and of the binding.  A verified binding stays with its spec on this
path, so among binds that ask for different specs the first commit wins and the others are refused.
-/

namespace Dd2Server

open ReadCommitted

/-- The author-present bind of a job: its reporter, its map and the spec it asks for. -/
def Job.reports : Job → Option (Uuid × String × Int)
  | .reportMap u m specId | .deferredBind u m specId | .authoritativeBind u m specId =>
      some (u, m, specId)
  | _ => none

/-- The map is bound to the spec, and the binding is verified. -/
def BoundTo (m : String) (specId : Int) (db : Db) : Prop :=
  ∃ b, VerifiedAt db m b ∧ b.specId = specId

/-- What a commit of an author-present bind may do to the verified bindings. -/
structure Authorized (u : Uuid) (m : String) (specId : Int) (log : Log) (pre post : Db) : Prop where
  /-- What becomes verified is the map of the bind, with a spec of the reporter, whom Nadeo named as
  the author of the map. -/
  verifies : ∀ m' b, VerifiedAt post m' b → (∀ b₀, ¬VerifiedAt pre m' b₀) → m' = m ∧
    b.specId = specId ∧ (∃ s, post.get ⟨.specs, specId⟩ = some s ∧ s.userId = u) ∧
      Named u m u log
  /-- What is verified stays with its spec. -/
  stays : ∀ m' id, BoundTo m' id pre → BoundTo m' id post

section

variable {pg : Pg} {u : Uuid} {m m' : String} {specId id : Int} {s : SpecRow}
  {c : Parsed} {t : Time} {purge : Bool} {pre post db : Db} {log : Log} {b : BindRow}

theorem BoundTo.unique (h : BoundTo m specId db) (h' : BoundTo m id db) : specId = id := by
  obtain ⟨b, hb, rfl⟩ := h
  obtain ⟨b', hb', rfl⟩ := h'
  rw [Option.some.inj (hb.1.symm.trans hb'.1)]

theorem Bound.boundTo (h : Bound pg m specId s c t purge pre post) : BoundTo m specId post := by
  refine ⟨_, ⟨h.bind, s, (h.others.get _ (by decide)).trans h.spec, ?_⟩, rfl⟩
  simp [BindRow.isVerified, BindRow.authorVerifiedAt, BindRow.verifiedAuthorId]

/-- A bind leaves the bindings of other maps alone. -/
theorem Bound.verifiedAt_iff (h : Bound pg m specId s c t purge pre post) (hm : m' ≠ m) :
    VerifiedAt post m' b ↔ VerifiedAt pre m' b := by
  have hspecs : ∀ id, post.get ⟨.specs, id⟩ = pre.get ⟨.specs, id⟩ :=
    fun id => h.others.get _ (by decide)
  simp only [VerifiedAt, h.otherBinds m' hm, hspecs]

/-- The map is bound to the spec after the commit. -/
theorem AuthoritativeBind.boundTo (h : AuthoritativeBind pg u m specId log pre post) :
    BoundTo m specId post := by
  rcases h with ⟨rfl, hb⟩ | ⟨s, c, t, purge, hbound, -⟩
  · exact hb
  · exact hbound.boundTo

/-- What was verified before was bound to the spec already. -/
theorem AuthoritativeBind.was (h : AuthoritativeBind pg u m specId log pre post)
    (hb : BoundTo m id pre) : id = specId := by
  rcases h with ⟨rfl, hb'⟩ | ⟨s, c, t, purge, -, ⟨-, b, hver, hspec, -⟩ |
    ⟨-, -, hleg, -⟩⟩
  · exact hb.unique hb'
  · exact hb.unique ⟨b, hver, hspec⟩
  · obtain ⟨b, ⟨hrow, s', hs', hver⟩, -⟩ := hb
    rw [(hleg b hrow).2 s' hs'] at hver
    cases hver

theorem AuthoritativeBind.authorized (h : AuthoritativeBind pg u m specId log pre post) :
    Authorized u m specId log pre post where
  verifies m' b hb hnone := by
    rcases h with ⟨rfl, -⟩ | ⟨s, c, t, purge, hbound, hreplaces⟩
    · exact absurd hb (hnone b)
    · have hm : m' = m := by
        by_contra hm
        exact hnone b ((hbound.verifiedAt_iff hm).1 hb)
      subst hm
      have hspec : b.specId = specId := BoundTo.unique ⟨b, hb, rfl⟩ hbound.boundTo
      rcases hreplaces with ⟨-, b₀, hver, -⟩ | ⟨hnamed, howner, -⟩
      · exact absurd hver (hnone b₀)
      · exact ⟨rfl, hspec, ⟨s, (hbound.others.get _ (by decide)).trans hbound.spec, howner⟩,
          hnamed⟩
  stays m' id hb := by
    rcases eq_or_ne m' m with rfl | hm
    · rw [h.was hb]
      exact h.boundTo
    · rcases h with ⟨rfl, -⟩ | ⟨s, c, t, purge, hbound, -⟩
      · exact hb
      · obtain ⟨b, hver, hid⟩ := hb
        exact ⟨b, (hbound.verifiedAt_iff hm).2 hver, hid⟩

end

/-! ## Several binds at once -/

/-- The author-present binds with both phases, and nothing else. -/
def OnlyBinds (_ : System) : Move Ask.Ans Job → Prop
  | .start (.authoritativeBind _ _ _) => True
  | .start _ => False
  | .run _ _ => True
  | .drop _ => False

/-- The task binds the map to the spec for the reporter. -/
def Contends (t : ServerTask) (u : Uuid) (m : String) (specId : Int) : Prop :=
  t.job = .authoritativeBind u m specId

/-- Any number of binds of a map without a verified binding, run to their ends in any interleaving:
each for a spec of its own with a valid catalog, whose owner is the reporter and, as Nadeo answered,
the author of the map, and none with a failure of the database. -/
structure Contest (pg : Pg) (db₀ : Db) (m : String) (s : System) : Prop where
  run : ReachBy shared (Job.body pg) OnlyBinds (System.on db₀) s
  unverified : ∀ b, ¬VerifiedAt db₀ m b
  entered : ∃ t ∈ s.tasks, ∃ u specId, Contends t u m specId
  distinct : ∀ (i j : Nat) (t t' : ServerTask) u u' specId, s.tasks[i]? = some t →
    s.tasks[j]? = some t' → Contends t u m specId → Contends t' u' m specId → i = j
  ended : ∀ t ∈ s.tasks, ∀ u specId, Contends t u m specId → ∃ r, t.prog = .ret r
  owned : ∀ t ∈ s.tasks, ∀ u specId, Contends t u m specId → ∃ row c,
    db₀.get ⟨.specs, specId⟩ = some row ∧ row.userId = u ∧
      parseCatalogs (pg.value row.spec) = .ok c
  author : ∀ t ∈ s.tasks, ∀ u specId, Contends t u m specId →
    ∀ a, .answered (.authorIdForUid u m) a ∈ t.loc.log → a = .ok u
  healthy : ∀ t ∈ s.tasks, ∀ u specId, Contends t u m specId → ¬Troubled t.loc.log

/-- One bind of the map has won, and every other was refused for its binding. -/
def OneWinner (m : String) (s : System) : Prop :=
  ∃ (i : Nat) (t : ServerTask) (u : Uuid) (specId : Int), s.tasks[i]? = some t ∧
    Contends t u m specId ∧ BoundTo m specId s.db ∧
      (∃ res, t.prog = .ret (.bound (.ok res))) ∧
      ∀ (j : Nat) (t' : ServerTask) (u' : Uuid) (specId' : Int), j ≠ i →
        s.tasks[j]? = some t' →
        Contends t' u' m specId' → t'.prog = .ret (.bound (.error .conflictingBinding))

/-- Nobody touches the specs. -/
def Scope.still : Scope where
  strict := False
  frozen := True

section

variable {pg : Pg} {db₀ : Db} {m : String} {s s' : System}

/-- The system keeps the protocol of runs that leave the specs alone. -/
abbrev StillSound (pg : Pg) (s : System) : Prop :=
  Sound (protocol pg .still) (fun _ _ => True) (fun j => { commit := Job.Promised pg .still j })
    (fun j r l db => Job.Ended pg .still j r l.log db) s

theorem OnlyBinds.binds {mv : Move Ask.Ans Job} (h : OnlyBinds s mv) :
    (∃ u m specId, mv = .start (.authoritativeBind u m specId)) ∨ ∃ i c, mv = .run i c := by
  cases mv with
  | start j =>
      cases j with
      | authoritativeBind u m specId => exact .inl ⟨u, m, specId, rfl⟩
      | _ => exact h.elim
  | run i c => exact .inr ⟨i, c, rfl⟩
  | drop i => exact h.elim

theorem OnlyBinds.sound (h : ReachBy shared (Job.body pg) OnlyBinds (System.on db₀) s)
    (hinv : Inv pg False db₀) :
    StillSound pg s ∧ ∀ id, s.db.get ⟨.specs, id⟩ = db₀.get ⟨.specs, id⟩ := by
  have hinv' : (protocol pg .still).Inv (System.on db₀).db := hinv
  have hbody : ∀ (s : System) j, OnlyBinds s (.start j) →
      ∀ db, (protocol pg .still).Inv db →
      Safe (protocol pg .still) (fun _ _ => True) { commit := Job.Promised pg .still j }
        (fun r l db => Job.Ended pg .still j r l.log db) (Job.body pg j) {} db := by
    intro s j hj db hdb
    refine j.safe (w := .still) admitted_any (.inr ?_) hdb
    cases j with
    | authoritativeBind u m specId => trivial
    | _ => exact hj.elim
  have hadm : ∀ (s : System) mv, OnlyBinds s mv → s.Admits (fun _ _ => True) mv := by
    intro s mv _
    cases mv with
    | run i c => exact fun _ _ _ _ _ _ _ => trivial
    | _ => trivial
  obtain ⟨hsound, -, hspecs⟩ := ReachBy.stays hbody hadm
    (Sound.fresh hinv' (by simp [System.on])) h
  exact ⟨hsound, hspecs trivial⟩

/-- Whoever committed bound the map to its spec, and only a commit verified the binding. -/
structure Decided (m : String) (s : System) : Prop where
  binds : ∀ t ∈ s.tasks, ∃ u m' specId, Contends t u m' specId
  won : ∀ t ∈ s.tasks, ∀ u specId, Contends t u m specId → ¬Uncommitted t.loc.log →
    BoundTo m specId s.db
  winner : ∀ b, VerifiedAt s.db m b →
    ∃ t ∈ s.tasks, ∃ u specId, Contends t u m specId ∧ ¬Uncommitted t.loc.log

theorem Decided.init (hnone : ∀ b, ¬VerifiedAt db₀ m b) : Decided m (System.on db₀) where
  binds _ ht := nomatch ht
  won _ ht := nomatch ht
  winner b hb := absurd hb (hnone b)

/-- A task that starts has committed nothing. -/
theorem Decided.start (h : Decided m s) {u : Uuid} {m' : String} {specId : Int} (hdb : s'.db = s.db)
    (htasks : s'.tasks = s.tasks ++
      [{ job := .authoritativeBind u m' specId
         prog := Job.body pg (.authoritativeBind u m' specId) }]) :
    Decided m s' where
  binds t ht := by
    rw [htasks] at ht
    rcases List.mem_append.1 ht with ht | ht
    · exact h.binds t ht
    · rw [List.mem_singleton.1 ht]
      exact ⟨u, m', specId, rfl⟩
  won t ht u' id hc hlog := by
    rw [htasks] at ht
    rw [hdb]
    rcases List.mem_append.1 ht with ht | ht
    · exact h.won t ht u' id hc hlog
    · rw [List.mem_singleton.1 ht] at hlog
      exact absurd Commits.nil hlog
  winner b hb := by
    rw [hdb] at hb
    obtain ⟨t, ht, hrest⟩ := h.winner b hb
    rw [htasks]
    exact ⟨t, List.mem_append_left _ ht, hrest⟩

/-- The task commits its bind, or it leaves the committed rows and its own commits alone. -/
def BindMove (pg : Pg) (s s' : System) (t t' : ServerTask) : Prop :=
  (∃ u m specId, t.job = .authoritativeBind u m specId ∧
    t'.loc.log = .committed s.db s'.db :: t.loc.log ∧
    AuthoritativeBind pg u m specId t.loc.log s.db s'.db) ∨
  s'.db = s.db ∧ ∀ pre post, .committed pre post ∈ t'.loc.log ↔
    .committed pre post ∈ t.loc.log

/-- One move of a bind keeps what is decided. -/
theorem Decided.ran (h : Decided m s) {i : Nat} {t t' : ServerTask} (ht : s.tasks[i]? = some t)
    (hjob : t'.job = t.job) (htasks : s'.tasks = s.tasks.set i t')
    (hcase : BindMove pg s s' t t') : Decided m s' := by
  have hmem : ∀ x ∈ s'.tasks, x ∈ s.tasks ∨ x = t' := fun x hx => by
    rw [htasks] at hx
    exact List.mem_or_eq_of_mem_set hx
  have hnew : t' ∈ s'.tasks := by
    rw [htasks]
    exact List.mem_set (List.getElem?_eq_some_iff.1 ht).1 _
  have hold := List.mem_of_getElem? ht
  have hlasts : ¬Uncommitted t.loc.log → ¬Uncommitted t'.loc.log := by
    rcases hcase with ⟨-, -, -, -, hlog, -⟩ | ⟨-, hiff⟩
    · rw [hlog]
      exact fun hnot hU => hnot fun pre post hm => hU pre post (List.mem_cons_of_mem _ hm)
    · exact fun hnot hU => hnot fun pre post hm => hU pre post ((hiff pre post).2 hm)
  have hgoes : ∀ x ∈ s.tasks, x = t ∨ x ∈ s'.tasks := fun x hx => by
    obtain ⟨k, hk⟩ := List.getElem?_of_mem hx
    rcases eq_or_ne i k with rfl | hne
    · exact .inl (Option.some.inj (hk.symm.trans ht))
    · rw [htasks]
      exact .inr (List.mem_of_getElem? ((List.getElem?_set_ne hne).trans hk))
  have hwinner : ∀ b, VerifiedAt s.db m b →
      ∃ x ∈ s'.tasks, ∃ u specId, Contends x u m specId ∧ ¬Uncommitted x.loc.log := by
    intro b hb
    obtain ⟨x, hx, u, specId, hc, hlog⟩ := h.winner b hb
    rcases hgoes x hx with rfl | hx'
    · exact ⟨t', hnew, u, specId, hjob.trans hc, hlasts hlog⟩
    · exact ⟨x, hx', u, specId, hc, hlog⟩
  have hbinds : ∀ x ∈ s'.tasks, ∃ u m' specId, Contends x u m' specId := by
    intro x hx
    rcases hmem x hx with hx | rfl
    · exact h.binds x hx
    · obtain ⟨u, m', specId, hc⟩ := h.binds t hold
      exact ⟨u, m', specId, hjob.trans hc⟩
  rcases hcase with ⟨u, m', specId, hj, hlog, hbind⟩ | ⟨hdb, hiff⟩
  · -- the task commits
    refine ⟨hbinds, fun x hx u' id hc hx' => ?_, fun b hb => ?_⟩
    · rcases hmem x hx with hx | rfl
      · exact hbind.authorized.stays m id (h.won x hx u' id hc hx')
      · cases hc.symm.trans (hjob.trans hj)
        exact hbind.boundTo
    · by_cases hwas : ∃ b₀, VerifiedAt s.db m b₀
      · obtain ⟨b₀, hb₀⟩ := hwas
        exact hwinner b₀ hb₀
      · obtain ⟨rfl, -⟩ := hbind.authorized.verifies m b hb (not_exists.1 hwas)
        refine ⟨t', hnew, u, specId, hjob.trans hj, fun hU => ?_⟩
        exact hU s.db s'.db (by rw [hlog]; exact List.mem_cons_self)
  · -- the committed rows stay
    refine ⟨hbinds, fun x hx u' id hc hx' => ?_, fun b hb => ?_⟩
    · rw [hdb]
      rcases hmem x hx with hx | rfl
      · exact h.won x hx u' id hc hx'
      · refine h.won t hold u' id (hjob.symm.trans hc) fun hU => hx' fun pre post hm => ?_
        exact hU pre post ((hiff pre post).1 hm)
    · rw [hdb] at hb
      exact hwinner b hb

/-- In every run of binds it is decided by the commits who has the map. -/
theorem OnlyBinds.decided (h : ReachBy shared (Job.body pg) OnlyBinds (System.on db₀) s)
    (hinv : Inv pg False db₀) (hnone : ∀ b, ¬VerifiedAt db₀ m b) : Decided m s := by
  induction h with
  | init => exact .init hnone
  | @step s s' mv hs hok hm ih =>
      have hs' := (OnlyBinds.sound (.step hs hok hm) hinv).1
      cases Sys.move_cases hm with
      | started j hdb hmem htasks =>
          obtain ⟨u, m', specId, he⟩ | ⟨i, c, he⟩ := hok.binds
          · cases he
            exact ih.start hdb htasks
          · cases he
      | dropped i t ht hdb hmem htasks => exact hok.elim
      | ran i c t t' ht hjob htasks hadv =>
          suffices hcase : BindMove pg s s' t t' from ih.ran ht hjob htasks hcase
          rcases advance_commits hadv with hlog | hsame
          · obtain ⟨u, m', specId, hc⟩ := ih.binds t (List.mem_of_getElem? ht)
            have ht' : t' ∈ s'.tasks := by
              rw [htasks]
              exact List.mem_set (List.getElem?_eq_some_iff.1 ht).1 _
            have hkept := (hs'.kept t' ht').commit [] s.db s'.db t.loc.log hlog
            rw [hjob.trans hc] at hkept
            exact .inl ⟨u, m', specId, hc, hlog, hkept⟩
          · exact .inr hsame

/-- A bind of the contest commits or is refused for the binding of another. -/
theorem Contest.reply (h : Contest pg db₀ m s) (hinv : Inv pg False db₀) {t : ServerTask}
    (ht : t ∈ s.tasks) {u : Uuid} {specId : Int} (hc : Contends t u m specId) :
    (¬Uncommitted t.loc.log ∧ ∃ res, t.prog = .ret (.bound (.ok res))) ∨
      (∃ b, VerifiedAt s.db m b) ∧ t.prog = .ret (.bound (.error .conflictingBinding)) := by
  obtain ⟨hsound, hspecs⟩ := OnlyBinds.sound h.run hinv
  obtain ⟨r, hr⟩ := h.ended t ht u specId hc
  obtain ⟨row, c, hrow, howner, hparse⟩ := h.owned t ht u specId hc
  have hnow : s.db.get ⟨.specs, specId⟩ = some row := (hspecs specId).trans hrow
  have hended := hsound.ended ht hr
  rw [hc] at hended
  cases r with
  | bound r =>
      cases r with
      | ok res =>
          obtain ⟨pre, post, older, hlog, -⟩ := hended
          exact .inl ⟨fun hU => hU pre post (by rw [hlog]; exact List.mem_cons_self), res, hr⟩
      | error e =>
          obtain ⟨-, hwhy⟩ := hended
          cases e with
          | conflictingBinding => exact .inr ⟨hwhy, hr⟩
          | specNotFound =>
              rw [hwhy trivial] at hnow
              cases hnow
          | specNotOwned =>
              obtain ⟨s', hs', hne⟩ := hwhy trivial
              rw [hnow] at hs'
              cases hs'
              exact absurd howner hne
          | authorMismatch =>
              obtain ⟨a, hnamed, hne⟩ := hwhy
              obtain ⟨s', hs', hne⟩ := hne trivial
              rw [hnow] at hs'
              cases hs'
              cases h.author t ht u specId hc _ hnamed
              exact absurd howner hne
          | authorVerification msg =>
              obtain ⟨e, he⟩ := hwhy
              cases h.author t ht u specId hc _ he
          | catalog e =>
              obtain ⟨s', hs', hfail⟩ := hwhy trivial
              rw [hnow] at hs'
              cases hs'
              rw [hparse] at hfail
              cases hfail
          | database => exact absurd hwhy (h.healthy t ht u specId hc)
  | _ => exact hended.elim

/-- One bind of the contest wins, and the others are refused. -/
theorem Contest.one_winner (h : Contest pg db₀ m s) (hinv : Inv pg False db₀) :
    OneWinner m s := by
  have hdec := OnlyBinds.decided h.run hinv h.unverified
  have hsome : ∃ t ∈ s.tasks, ∃ u specId, Contends t u m specId ∧
      ¬Uncommitted t.loc.log := by
    obtain ⟨t, ht, u, specId, hc⟩ := h.entered
    rcases h.reply hinv ht hc with ⟨hlog, -⟩ | ⟨⟨b, hb⟩, -⟩
    · exact ⟨t, ht, u, specId, hc, hlog⟩
    · exact hdec.winner b hb
  obtain ⟨t, ht, u, specId, hc, hlog⟩ := hsome
  obtain ⟨i, hi⟩ := List.getElem?_of_mem ht
  have hbound := hdec.won t ht u specId hc hlog
  refine ⟨i, t, u, specId, hi, hc, hbound, ?_, fun j t' u' specId' hne hj hc' => ?_⟩
  · rcases h.reply hinv ht hc with ⟨-, hok⟩ | ⟨-, hr⟩
    · exact hok
    · have hended := (OnlyBinds.sound h.run hinv).1.ended ht hr
      rw [hc] at hended
      exact absurd hended.1 hlog
  · have ht' := List.mem_of_getElem? hj
    rcases h.reply hinv ht' hc' with ⟨hlog', -⟩ | ⟨-, hr⟩
    · obtain rfl : specId' = specId := (hdec.won t' ht' u' specId' hc' hlog').unique hbound
      exact absurd (h.distinct j i t' t u' u specId' hj hi hc' hc) hne
    · exact hr

end

/-- On the author-present path: a commit verifies only a binding to a spec of the reporter, whom
Nadeo named as the author of the map, and moves no verified binding; a bind that failed has
committed nothing; and of several binds of a map for different specs one wins and the others find it
bound. -/
theorem binding_authority {pg : Pg} {db₀ : Db} (hinv : Inv pg False db₀) :
    (∀ s, RunFrom pg db₀ s →
      ∀ t ∈ s.tasks, ∀ u m specId, t.job.reports = some (u, m, specId) →
        (∀ newer pre post older, t.loc.log = newer ++ .committed pre post :: older →
          Authorized u m specId older pre post) ∧
      ∀ r, t.prog = .ret r → r.failed = true → Uncommitted t.loc.log) ∧
    ∀ m s, Contest pg db₀ m s → OneWinner m s := by
  refine ⟨fun s hrun t ht u m specId hj =>
    ⟨fun newer pre post older hlog => ?_, fun r hr hfail => ?_⟩,
    fun m s hcontest => hcontest.one_winner hinv⟩
  · have hkept := hrun.promised hinv ht hlog
    cases hjob : t.job with
    | reportMap u' m' id | deferredBind u' m' id | authoritativeBind u' m' id =>
        rw [hjob] at hj hkept
        cases hj
        exact AuthoritativeBind.authorized hkept
    | _ =>
        rw [hjob] at hj
        cases hj
  · have hended := hrun.ended hinv ht hr
    cases hjob : t.job with
    | reportMap u' m' id | deferredBind u' m' id =>
        rw [hjob] at hended
        cases r with
        | bind r =>
            cases r with
            | error e =>
                cases e with
                | db => exact hended
                | str e => exact hended.1
            | ok _ => cases hfail
        | _ => exact hended.elim
    | authoritativeBind u' m' id =>
        rw [hjob] at hended
        cases r with
        | bound r =>
            cases r with
            | error e => exact hended.1
            | ok _ => cases hfail
        | _ => exact hended.elim
    | _ =>
        rw [hjob] at hj
        cases hj

/-! ## Two binds of the sample map -/

instance (s : System) : (mv : Move Ask.Ans Job) → Decidable (OnlyBinds s mv)
  | .start (.authoritativeBind _ _ _) => .isTrue trivial
  | .run _ _ => .isTrue trivial
  | .drop _ => .isFalse id
  | .start (.login _ _) | .start (.upload _ _ _) | .start (.deleteSpec _ _) => .isFalse id
  | .start (.reportMap _ _ _) | .start (.deferredBind _ _ _) => .isFalse id
  | .start (.commentBind _) | .start (.recheckBind _) => .isFalse id
  | .start (.hatUnlock _ _ _ _) | .start (.hatEquip _ _ _) | .start (.equip _ _ _) => .isFalse id

namespace Sample

/-- The author has two specs. -/
def twoSpecs : List Cue :=
  uploaded ++ [.start (.upload 1 "climb2" spec), .go 2 40 (answers 8 none)]

/-- The author binds the map to both, and both binds are prepared before one commits. -/
def race : List Cue :=
  [.start (.authoritativeBind 1 mapUid 7), .start (.authoritativeBind 1 mapUid 8),
    .go 0 4 (answers 7 none), .go 1 4 (answers 8 none), .go 1 60 (answers 8 none),
    .go 0 60 (answers 7 none)]

/-- Nadeo named the reporter where it was asked, and nothing failed. -/
def smooth : LogEvent → Bool
  | .answered (.authorIdForUid u _) (.ok a) => decide (a = u)
  | .answered (.authorIdForUid _ _) (.error _) => false
  | .failed => false
  | .rejected _ _ => false
  | _ => true

/-- The spec the task asks for. -/
def asksFor (t : ServerTask) : Option Int := t.job.reports.map fun r => r.2.2

/-- The task of the contest ran to its end without a failure, for a spec of its reporter. -/
def fair (db₀ : Db) (t : ServerTask) : Bool :=
  t.job.reports.any (fun r => r.2.1 = mapUid && (db₀.get ⟨.specs, r.2.2⟩).any fun row =>
    row.userId = r.1 && (parseCatalogs (pg.value row.spec)).isOk) &&
  (match t.prog with | .ret _ => true | _ => false) && t.loc.log.all smooth

theorem smooth_named {log : Log} (h : log.all smooth = true) {u : Uuid} {m : String}
    {a : Ask.Ans (.authorIdForUid u m)} (ha : .answered (.authorIdForUid u m) a ∈ log) :
    a = .ok u := by
  have hev := List.all_eq_true.1 h _ ha
  cases a with
  | ok a => rw [of_decide_eq_true hev]
  | error e => cases hev

theorem smooth_healthy {log : Log} (h : log.all smooth = true) : ¬Troubled log := by
  rintro ⟨ev, hm, htrouble⟩
  have hev := List.all_eq_true.1 h ev hm
  cases ev with
  | failed => cases hev
  | rejected tag v => cases hev
  | _ => exact htrouble.elim

theorem contest {db₀ : Db} {s : System}
    (hrun : ReachBy shared (Job.body pg) OnlyBinds (System.on db₀) s)
    (hnone : db₀.get ⟨.mapListingBind, mapUid⟩ = none)
    (hfair : s.tasks.all (fair db₀) = true) (hspecs : (s.tasks.map asksFor).Nodup)
    (hjob : ∃ t ∈ s.tasks, ∃ u specId, Contends t u mapUid specId) :
    Contest pg db₀ mapUid s := by
  have hask : ∀ {t : ServerTask} {u specId}, Contends t u mapUid specId →
      asksFor t = some specId :=
    fun hc => by rw [asksFor, hc]; rfl
  have hof : ∀ t ∈ s.tasks, fair db₀ t = true := fun t ht => List.all_eq_true.1 hfair t ht
  refine ⟨hrun, fun b hb => ?_, hjob, fun i j t t' u u' specId hi hj hc hc' =>
    ?_, fun t ht u specId _ => ?_,
    fun t ht u specId hc => ?_, fun t ht u specId _ a ha => ?_, fun t ht u specId _ => ?_⟩
  · exact absurd (hnone.symm.trans hb.1) (by simp)
  · have hsame : (s.tasks.map asksFor)[i]? = (s.tasks.map asksFor)[j]? := by
      rw [List.getElem?_map, List.getElem?_map, hi, hj, Option.map_some, Option.map_some,
        hask hc, hask hc']
    have hlen : i < (s.tasks.map asksFor).length := by
      rw [List.length_map]
      exact (List.getElem?_eq_some_iff.1 hi).1
    exact (List.getElem?_inj hlen hspecs).1 hsame
  · have hok := hof t ht
    simp only [fair, Bool.and_eq_true] at hok
    cases hp : t.prog with
    | ret r => exact ⟨r, rfl⟩
    | _ =>
        rw [hp] at hok
        cases hok.1.2
  · have hok := hof t ht
    simp only [fair, Bool.and_eq_true] at hok
    obtain ⟨⟨howned, -⟩, -⟩ := hok
    rw [hc] at howned
    simp only [Job.reports, Option.any_some, Bool.and_eq_true] at howned
    obtain ⟨row, hrow, hok⟩ := (Option.any_eq_true _ _).1 howned.2
    simp only [Bool.and_eq_true, decide_eq_true_eq] at hok
    cases hparse : parseCatalogs (pg.value row.spec) with
    | ok c => exact ⟨row, c, hrow, hok.1, hparse⟩
    | error e =>
        rw [hparse] at hok
        cases hok.2
  · have hok := hof t ht
    simp only [fair, Bool.and_eq_true] at hok
    exact smooth_named hok.2 ha
  · have hok := hof t ht
    simp only [fair, Bool.and_eq_true] at hok
    exact smooth_healthy hok.2

end Sample

/-- The author binds the map to two specs at once, and has it bound to one. -/
theorem binding_authority_race :
    ∃ db₀ s, ReachBy shared (Job.body Sample.pg) OnlyBinds (System.on db₀) s ∧
      s.tasks.length = 2 ∧ OneWinner Sample.mapUid s := by
  have hrun : ((script Sample.pg (System.on Store.empty) Sample.twoSpecs).any fun s₀ =>
      (s₀.db.get ⟨.mapListingBind, Sample.mapUid⟩).isNone &&
      ((System.on s₀.db).scriptBy shared (Job.body Sample.pg) OnlyBinds Sample.race).any fun s =>
        decide (s.tasks.length = 2) && s.tasks.all (Sample.fair s₀.db) &&
        decide (s.tasks.map Sample.asksFor).Nodup &&
        s.tasks.any fun t => match t.job with
          | .authoritativeBind _ m _ => decide (m = Sample.mapUid)
          | _ => false) = true := by decide +kernel
  obtain ⟨s₀, hs₀, h⟩ := (Option.any_eq_true _ _).1 hrun
  simp only [Bool.and_eq_true] at h
  obtain ⟨hnone, h⟩ := h
  obtain ⟨s, hs, hok⟩ := (Option.any_eq_true _ _).1 h
  simp only [Bool.and_eq_true, decide_eq_true_eq] at hok
  obtain ⟨⟨⟨hlen, hfair⟩, hspecs⟩, hjob⟩ := hok
  have hinv : Inv Sample.pg False s₀.db :=
    ((RunFrom.played Reach.init hs₀).sound (inv_empty _ False)).inv
  have hby : ReachBy shared (Job.body Sample.pg) OnlyBinds (System.on s₀.db) s :=
    ReachBy.scriptBy .init hs
  refine ⟨s₀.db, s, hby, hlen, (binding_authority hinv).2 _ _ (Sample.contest hby
    (Option.isNone_iff_eq_none.1 hnone) hfair hspecs ?_)⟩
  obtain ⟨t, ht, hj⟩ := List.any_eq_true.1 hjob
  cases htj : t.job with
  | authoritativeBind u m specId =>
      rw [htj] at hj
      obtain rfl := of_decide_eq_true hj
      exact ⟨t, ht, u, specId, htj⟩
  | _ =>
      rw [htj] at hj
      cases hj

end Dd2Server
