import Dd2Server.ReadCommitted.Logic

/-!
# What a move does to the tasks

`Sys.move_cases` says once what a move can do.  A task keeps its job, its log only grows, and
without drops no task is lost: `Lasts` is what a property of one task needs to stay true of it.
-/

namespace ReadCommitted

variable {T : Type} {K R : T → Type} [DecidableEq T] [∀ t, DecidableEq (K t)]
  {Tag Ask Act Mem Job ρ : Type} {Ans : Ask → Type} {Out : Act → Type}
  {sh : Shared K R Tag Ans Out Mem} {body : Job → Prog K R Tag Ans Out ρ}
  {s₀ s s' s'' : Sys K R Tag Ans Out Mem Job ρ}

/-- What a move does. -/
inductive Sys.Moved (sh : Shared K R Tag Ans Out Mem) (body : Job → Prog K R Tag Ans Out ρ)
    (s s' : Sys K R Tag Ans Out Mem Job ρ) : Move Ans Job → Prop
  | started (j : Job) (hdb : s'.db = s.db) (hmem : s'.mem = s.mem)
      (htasks : s'.tasks = s.tasks ++ [{ job := j, prog := body j }]) : Moved sh body s s'
        (.start j)
  | ran (i : Nat) (c : Choice Ans) (t t' : Task K R Tag Ans Out Job ρ) (ht : s.tasks[i]? = some t)
      (hjob : t'.job = t.job) (htasks : s'.tasks = s.tasks.set i t')
      (hadv : advance sh (s.heldByOthers i) s.db s.mem t.prog t.loc c =
        some (s'.db, s'.mem, t'.prog, t'.loc)) : Moved sh body s s' (.run i c)
  | dropped (i : Nat) (t : Task K R Tag Ans Out Job ρ) (ht : s.tasks[i]? = some t)
    (hdb : s'.db = s.db)
      (hmem : s'.mem = sh.abandon t.loc.log s.mem) (htasks : s'.tasks = s.tasks.eraseIdx i) :
      Moved sh body s s' (.drop i)

theorem Sys.move_cases {m : Move Ans Job} (h : s.move sh body m = some s') :
    s.Moved sh body s' m := by
  cases m with
  | start j =>
      cases h
      exact .started j rfl rfl rfl
  | run i c =>
      simp only [Sys.move, Option.bind_eq_bind, Option.bind_eq_some_iff, Option.pure_def,
        Option.some.injEq] at h
      obtain ⟨t, ht, ⟨db, mem, p, l⟩, hadv, rfl⟩ := h
      exact .ran i c t { t with prog := p, loc := l } ht rfl rfl hadv
  | drop i =>
      simp only [Sys.move, Option.bind_eq_bind, Option.bind_eq_some_iff, Option.pure_def,
        Option.some.injEq] at h
      obtain ⟨t, ht, rfl⟩ := h
      exact .dropped i t ht rfl rfl rfl

/-- The event tells nothing of the committed rows as a whole and nothing of the shared memory. -/
def Event.Passive : Event K R Tag Ans Out → Prop
  | .acted _ _ => False
  | .read _ _ => False
  | .committed _ _ => False
  | _ => True

/-- What one move of a task does: an operation on the shared memory, a look at the committed rows, a
commit, or something that only its log may tell. -/
inductive Advance (sh : Shared K R Tag Ans Out Mem) (db : Store K R) (mem : Mem)
    (p : Prog K R Tag Ans Out ρ) (l : Local K R Tag Ans Out) (db' : Store K R) (mem' : Mem)
    (p' : Prog K R Tag Ans Out ρ) (l' : Local K R Tag Ans Out) : Prop
  | acted (a : Act) (o : Out a) (next : Out a → Prog K R Tag Ans Out ρ) (hp : p = .act a next)
      (hperf : sh.perform a mem = some (mem', o)) (hdb : db' = db) (hp' : p' = next o)
      (hlog : l'.log = .acted a o :: l.log)
  | looked (tag : Tag) (hdb : db' = db) (hmem : mem' = mem) (hlog : l'.log = .read tag db :: l.log)
  | committed (hmem : mem' = mem) (hlog : l'.log = .committed db db' :: l.log)
  | passed (new : List (Event K R Tag Ans Out)) (hdb : db' = db) (hmem : mem' = mem)
      (hlog : l'.log = new ++ l.log) (hnew : ∀ ev ∈ new, ev.Passive)

theorem advance_cases {held : List (Lock K)} {db db' : Store K R} {mem mem' : Mem}
    {p p' : Prog K R Tag Ans Out ρ} {l l' : Local K R Tag Ans Out} {c : Choice Ans}
    (h : advance sh held db mem p l c = some (db', mem', p', l')) :
    Advance sh db mem p l db' mem' p' l' := by
  cases p with
  | ret a => cases c <;> simp [advance] at h
  | stmt tag run next fail =>
      cases c with
      | answer f => simp [advance] at h
      | fail =>
          simp only [advance, Option.some.injEq, Prod.mk.injEq] at h
          obtain ⟨rfl, rfl, -, rfl⟩ := h
          exact .passed [.failed] rfl rfl rfl (by simp [Event.Passive])
      | proceed =>
          cases he : run (Store.view l.writes db) with
          | none =>
              simp only [advance, he, Option.some.injEq, Prod.mk.injEq] at h
              obtain ⟨rfl, rfl, -, rfl⟩ := h
              exact .passed [.rejected tag _] rfl rfl rfl (by simp [Event.Passive])
          | some e =>
              simp only [advance, he] at h
              split at h
              case isFalse => cases h
              case isTrue =>
                simp only [Option.some.injEq, Prod.mk.injEq] at h
                obtain ⟨rfl, rfl, -, rfl⟩ := h
                exact .passed [.saw tag _] rfl rfl rfl (by simp [Event.Passive])
  | read tag next fail =>
      cases c <;> simp only [advance, Option.some.injEq, Prod.mk.injEq, reduceCtorEq] at h
      · obtain ⟨rfl, rfl, -, rfl⟩ := h
        exact .looked tag rfl rfl rfl
      · obtain ⟨rfl, rfl, -, rfl⟩ := h
        exact .passed [.failed] rfl rfl rfl (by simp [Event.Passive])
  | commit next fail =>
      cases c <;> simp only [advance, Option.some.injEq, Prod.mk.injEq, reduceCtorEq] at h
      · obtain ⟨rfl, rfl, -, rfl⟩ := h
        exact .committed rfl rfl
      · obtain ⟨rfl, rfl, -, rfl⟩ := h
        exact .passed [.failed] rfl rfl rfl (by simp [Event.Passive])
  | rollback next =>
      cases c <;> simp only [advance, Option.some.injEq, Prod.mk.injEq, reduceCtorEq] at h
      obtain ⟨rfl, rfl, -, rfl⟩ := h
      exact .passed [] rfl rfl rfl (by simp)
  | ask q next =>
      cases c <;> simp only [advance, Option.some.injEq, Prod.mk.injEq, reduceCtorEq] at h
      obtain ⟨rfl, rfl, -, rfl⟩ := h
      exact .passed [_] rfl rfl rfl (by simp [Event.Passive])
  | act a next =>
      cases c <;> simp only [advance, Option.map_eq_some_iff, Prod.mk.injEq, reduceCtorEq] at h
      obtain ⟨⟨m, o⟩, hperf, rfl, rfl, rfl, rfl⟩ := h
      exact .acted a o next rfl hperf rfl rfl rfl

/-- Committed rows move where a program commits, and it goes on from there. -/
theorem advance_commit {held : List (Lock K)} {db db' : Store K R} {mem mem' : Mem}
    {p p' : Prog K R Tag Ans Out ρ} {l l' : Local K R Tag Ans Out} {c : Choice Ans}
    (h : advance sh held db mem p l c = some (db', mem', p', l')) :
    db' = db ∨ ∃ next fail, p = .commit next fail ∧ db' = Store.view l.writes db := by
  cases p with
  | commit next fail =>
      cases c with
      | answer f => simp [advance] at h
      | fail =>
          simp only [advance, Option.some.injEq, Prod.mk.injEq] at h
          exact .inl h.1.symm
      | proceed =>
          simp only [advance, Option.some.injEq, Prod.mk.injEq] at h
          exact .inr ⟨next, fail, rfl, h.1.symm⟩
  | stmt tag run next fail =>
      cases c with
      | answer f => simp [advance] at h
      | fail =>
          simp only [advance, Option.some.injEq, Prod.mk.injEq] at h
          exact .inl h.1.symm
      | proceed =>
          simp only [advance] at h
          split at h
          · split at h
            case isFalse => cases h
            case isTrue =>
              simp only [Option.some.injEq, Prod.mk.injEq] at h
              exact .inl h.1.symm
          · simp only [Option.some.injEq, Prod.mk.injEq] at h
            exact .inl h.1.symm
  | act a next =>
      cases c with
      | proceed =>
          simp only [advance, Option.map_eq_some_iff, Prod.mk.injEq] at h
          obtain ⟨r, -, hdb, -⟩ := h
          exact .inl hdb.symm
      | fail => simp [advance] at h
      | answer f => simp [advance] at h
  | ret a => cases c <;> simp [advance] at h
  | rollback next =>
      cases c <;> simp [advance] at h
      exact .inl h.1.symm
  | read tag next fail => cases c <;> simp [advance] at h <;> exact .inl h.1.symm
  | ask q next =>
      cases c <;> simp [advance] at h
      exact .inl h.1.symm

theorem advance_log {held : List (Lock K)} {db db' : Store K R} {mem mem' : Mem}
    {p p' : Prog K R Tag Ans Out ρ} {l l' : Local K R Tag Ans Out} {c : Choice Ans}
    (h : advance sh held db mem p l c = some (db', mem', p', l')) :
    ∃ new, l'.log = new ++ l.log ∧ ∀ pre post, .committed pre post ∈ new → pre = db ∧
    post = db' := by
  cases advance_cases h with
  | acted a o next hp hperf hdb hp' hlog => exact ⟨[_], hlog, by simp⟩
  | looked tag hdb hmem hlog => exact ⟨[_], hlog, by simp⟩
  | committed hmem hlog => exact ⟨[_], hlog, by simp +contextual⟩
  | passed new hdb hmem hlog hnew => exact ⟨new, hlog, fun pre post hm => (hnew _ hm).elim⟩

/-- What the log has of answers is old, or the program asked just now. -/
theorem advance_answered {held : List (Lock K)} {db db' : Store K R} {mem mem' : Mem}
    {p p' : Prog K R Tag Ans Out ρ} {l l' : Local K R Tag Ans Out} {c : Choice Ans}
    (h : advance sh held db mem p l c = some (db', mem', p', l')) {q : Ask} {a : Ans q}
    (ha : .answered q a ∈ l'.log) :
    .answered q a ∈ l.log ∨ ∃ next f, p = .ask q next ∧ c = .answer f ∧ a = f q := by
  cases p with
  | ask q' next =>
      cases c <;> simp only [advance, Option.some.injEq, Prod.mk.injEq, reduceCtorEq] at h
      obtain ⟨-, -, -, rfl⟩ := h
      rcases List.mem_cons.1 ha with he | ha
      · cases he
        exact .inr ⟨next, _, rfl, rfl, rfl⟩
      · exact .inl ha
  | ret r => cases c <;> simp [advance] at h
  | stmt tag run next fail =>
      left
      cases c with
      | answer f => simp [advance] at h
      | fail =>
          simp only [advance, Option.some.injEq, Prod.mk.injEq] at h
          obtain ⟨-, -, -, rfl⟩ := h
          simpa [Local.ended] using ha
      | proceed =>
          simp only [advance] at h
          split at h
          · split at h
            case isFalse => cases h
            case isTrue =>
              simp only [Option.some.injEq, Prod.mk.injEq] at h
              obtain ⟨-, -, -, rfl⟩ := h
              simpa [Local.ran] using ha
          · simp only [Option.some.injEq, Prod.mk.injEq] at h
            obtain ⟨-, -, -, rfl⟩ := h
            simpa [Local.ended] using ha
  | read tag next fail =>
      left
      cases c <;> simp only [advance, Option.some.injEq, Prod.mk.injEq, reduceCtorEq] at h
      all_goals
        obtain ⟨-, -, -, rfl⟩ := h
        simpa [Local.noted] using ha
  | commit next fail =>
      left
      cases c <;> simp only [advance, Option.some.injEq, Prod.mk.injEq, reduceCtorEq] at h
      all_goals
        obtain ⟨-, -, -, rfl⟩ := h
        simpa [Local.ended] using ha
  | rollback next =>
      left
      cases c <;> simp only [advance, Option.some.injEq, Prod.mk.injEq, reduceCtorEq] at h
      obtain ⟨-, -, -, rfl⟩ := h
      exact ha
  | act x next =>
      left
      cases c <;> simp only [advance, Option.map_eq_some_iff, Prod.mk.injEq, reduceCtorEq] at h
      obtain ⟨r, -, -, -, -, rfl⟩ := h
      simpa [Local.noted] using ha

/-- A move of a task commits, or it leaves the committed rows and the commits of the log alone. -/
theorem advance_commits {held : List (Lock K)} {db db' : Store K R} {mem mem' : Mem}
    {p p' : Prog K R Tag Ans Out ρ} {l l' : Local K R Tag Ans Out} {c : Choice Ans}
    (h : advance sh held db mem p l c = some (db', mem', p', l')) :
    l'.log = .committed db db' :: l.log ∨
      db' = db ∧ ∀ pre post, .committed pre post ∈ l'.log ↔
      .committed pre post ∈ l.log := by
  cases advance_cases h with
  | acted a o next hp hperf hdb hp' hlog => exact .inr ⟨hdb, by simp [hlog]⟩
  | looked tag hdb hmem hlog => exact .inr ⟨hdb, by simp [hlog]⟩
  | committed hmem hlog => exact .inl hlog
  | passed new hdb hmem hlog hnew =>
      refine .inr ⟨hdb, fun pre post => ?_⟩
      rw [hlog, List.mem_append]
      exact or_iff_right fun hm => (hnew _ hm).elim

/-- No task is dropped. -/
def Move.Keeps : Move Ans Job → Prop
  | .drop _ => False
  | _ => True

instance : (m : Move Ans Job) → Decidable m.Keeps
  | .start _ => .isTrue trivial
  | .run _ _ => .isTrue trivial
  | .drop _ => .isFalse id

instance {C : Tag → Store K R → Prop} [∀ tag v, Decidable (C tag v)]
    (s : Sys K R Tag Ans Out Mem Job ρ) : (m : Move Ans Job) → Decidable (s.Admits C m)
  | .start _ => .isTrue trivial
  | .drop _ => .isTrue trivial
  | .run i _ =>
      match ht : s.tasks[i]? with
      | none => .isTrue fun t _ _ _ _ h => by rw [ht] at h; cases h
      | some ⟨j, .stmt tag run next fail, l⟩ =>
          decidable_of_iff (C tag (Store.view l.writes s.db))
            ⟨fun h t tag' _ _ _ ht' hp => by rw [ht] at ht'; cases ht'; cases hp; exact h,
              fun h => h _ tag run next fail ht rfl⟩
      | some ⟨_, .ret _, _⟩ => .isTrue fun t _ _ _ _ h hp => by rw [ht] at h; cases h; cases hp
      | some ⟨_, .read _ _ _, _⟩ =>
          .isTrue fun t _ _ _ _ h hp => by rw [ht] at h; cases h; cases hp
      | some ⟨_, .commit _ _, _⟩ =>
          .isTrue fun t _ _ _ _ h hp => by rw [ht] at h; cases h; cases hp
      | some ⟨_, .rollback _, _⟩ =>
          .isTrue fun t _ _ _ _ h hp => by rw [ht] at h; cases h; cases hp
      | some ⟨_, .ask _ _, _⟩ =>
          .isTrue fun t _ _ _ _ h hp => by rw [ht] at h; cases h; cases hp
      | some ⟨_, .act _ _, _⟩ =>
          .isTrue fun t _ _ _ _ h hp => by rw [ht] at h; cases h; cases hp

/-- A task of `s` that goes on in `s'` with the same job and a longer log. -/
def Task.Lasts (t : Task K R Tag Ans Out Job ρ) (s' : Sys K R Tag Ans Out Mem Job ρ) : Prop :=
  ∃ t' ∈ s'.tasks, t'.job = t.job ∧ ∃ new, t'.loc.log = new ++ t.loc.log

/-- Where nobody is dropped, every task goes on. -/
theorem Sys.Moved.lasts {m : Move Ans Job} (h : s.Moved sh body s' m) (hm : m.Keeps)
    {t : Task K R Tag Ans Out Job ρ} (ht : t ∈ s.tasks) : t.Lasts s' := by
  cases h with
  | started j hdb hmem htasks =>
      refine ⟨t, ?_, rfl, [], rfl⟩
      rw [htasks]
      exact List.mem_append_left _ ht
  | dropped i u hu hdb hmem htasks => exact hm.elim
  | ran i c u u' hu hjob htasks hadv =>
      obtain ⟨k, hk⟩ := List.getElem?_of_mem ht
      have hlen : i < s.tasks.length := (List.getElem?_eq_some_iff.1 hu).1
      rcases eq_or_ne i k with rfl | hne
      · obtain rfl : u = t := Option.some.inj (hu.symm.trans hk)
        obtain ⟨new, hlog, -⟩ := advance_log hadv
        refine ⟨u', ?_, hjob, new, hlog⟩
        rw [htasks]
        exact List.mem_set hlen _
      · refine ⟨t, ?_, rfl, [], rfl⟩
        rw [htasks]
        exact List.mem_of_getElem? ((List.getElem?_set_ne hne).trans hk)

theorem Reach.trans {C : Tag → Store K R → Prop} (h : Reach sh body C s₀ s)
    (h' : Reach sh body C s s') : Reach sh body C s₀ s' := by
  induction h' with
  | init => exact h
  | step _ hadm hm ih => exact .step ih hadm hm

section

variable {P : Protocol K R} {C : Tag → Store K R → Prop} {G : Job → Promise K R Tag Ans Out}
  {Q : Job → ρ → Local K R Tag Ans Out → Store K R → Prop}

/-- What holds between two committed states holds along a run in which only some jobs may start. -/
theorem ReachBy.stays {ok : Sys K R Tag Ans Out Mem Job ρ → Move Ans Job → Prop}
    (hbody : ∀ s j, ok s (.start j) → ∀ db, P.Inv db → Safe P C (G j) (Q j) (body j) {} db)
    (hadm : ∀ s m, ok s m → s.Admits C m) (hs : Sound P C G Q s₀)
    (h : ReachBy sh body ok s₀ s) : Sound P C G Q s ∧ P.stay s₀.db s.db := by
  induction h with
  | init => exact ⟨hs, P.stay_refl _⟩
  | @step s s' m _ hok hm ih =>
      obtain ⟨hs', hch⟩ := ih.1.move (fun j hj => hbody s j (hj ▸ hok)) (hadm s m hok) hm
      refine ⟨hs', ?_⟩
      rcases hch with he | ⟨hstay, -⟩
      · rw [he]
        exact ih.2
      · exact P.stay_trans ih.2 hstay

/-- The same of a run in which every job may start. -/
theorem Reach.stays (hbody : ∀ j db, P.Inv db → Safe P C (G j) (Q j) (body j) {} db)
    (hs : Sound P C G Q s) (h : Reach sh body C s s') : Sound P C G Q s' ∧ P.stay s.db s'.db :=
  ReachBy.stays (fun _ j _ => hbody j) (fun _ _ hm => hm) hs h.reachBy

end

end ReadCommitted
