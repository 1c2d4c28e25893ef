import Dd2Server.ReadCommitted.Owners
import Mathlib.Algebra.BigOperators.Group.List.Lemmas
import Mathlib.Algebra.Ring.Nat

/-!
# The commits of a run

A task that is dropped takes its log with it.  A chronicle keeps what the tasks of a run committed:
one entry for each commit, newest first, with what its task had done until then.  Every entry
fulfilled the promise of its job (`Chronicle.promised`), the entries lead from the first committed
rows to the last (`Chronicle.origin`, `Chronicle.stock`), and a read saw rows on the way
(`Chronicle.read`).

What the tasks may still spend is a number computed from the log of each.  When a commit spends no
more than its task had, and its task has after a commit no more than before and what the commit
gained, then all that was spent was gained before (`Chronicle.spent_le`), wherever tasks are
dropped.
-/

namespace ReadCommitted

variable {T : Type} {K R : T → Type} [DecidableEq T] [∀ t, DecidableEq (K t)]
  {Tag Ask Act Mem Job ρ : Type} {Ans : Ask → Type} {Out : Act → Type}

/-- One commit: the job, what its task had done, and the committed rows before and after. -/
structure Entry (K R : T → Type) (Tag : Type) (Ans : Ask → Type) (Out : Act → Type)
    (Job : Type) where
  job : Job
  log : List (Event K R Tag Ans Out)
  pre : Store K R
  post : Store K R

/-- What a move commits. -/
def Sys.entries (s : Sys K R Tag Ans Out Mem Job ρ) :
    Move Ans Job → List (Entry K R Tag Ans Out Job)
  | .run i .proceed =>
      match s.tasks[i]? with
      | some ⟨j, .commit _ _, l⟩ => [⟨j, l.log, s.db, Store.view l.writes s.db⟩]
      | _ => []
  | _ => []

variable (sh : Shared K R Tag Ans Out Mem) (body : Job → Prog K R Tag Ans Out ρ)
  (ok : Sys K R Tag Ans Out Mem Job ρ → Move Ans Job → Prop)

/-- The states reached from `s₀` by moves that `ok` allows, with the commits on the way. -/
inductive Chronicle (s₀ : Sys K R Tag Ans Out Mem Job ρ) :
    List (Entry K R Tag Ans Out Job) → Sys K R Tag Ans Out Mem Job ρ → Prop
  | init : Chronicle s₀ [] s₀
  | step {es : List (Entry K R Tag Ans Out Job)} {s s' : Sys K R Tag Ans Out Mem Job ρ}
    {m : Move Ans Job} :
      Chronicle s₀ es s → ok s m → s.move sh body m = some s' →
        Chronicle s₀ (s.entries m ++ es) s'

/-- At some point before the entry the committed rows were so. -/
def Before (s₀ : Sys K R Tag Ans Out Mem Job ρ) (es : List (Entry K R Tag Ans Out Job))
    (e : Entry K R Tag Ans Out Job) (p : Store K R → Prop) : Prop :=
  ∃ newer older es' s', es = newer ++ e :: older ∧ es' <:+ older ∧
    Chronicle sh body ok s₀ es' s' ∧ p s'.db

variable {sh body ok} {s₀ s s' : Sys K R Tag Ans Out Mem Job ρ}
    {es : List (Entry K R Tag Ans Out Job)}

theorem Chronicle.reachBy (h : Chronicle sh body ok s₀ es s) : ReachBy sh body ok s₀ s := by
  induction h with
  | init => exact .init
  | step _ hok hm ih => exact .step ih hok hm

theorem ReachBy.chronicle (h : ReachBy sh body ok s₀ s) :
    ∃ es, Chronicle sh body ok s₀ es s := by
  induction h with
  | init => exact ⟨[], .init⟩
  | step _ hok hm ih =>
      obtain ⟨es, hes⟩ := ih
      exact ⟨_, .step hes hok hm⟩

/-! ## One move -/

/-- What a move does to the committed rows and to the logs: a task commits, with an entry, or
nothing is committed and no log tells of a commit. -/
inductive Sys.Entered (s s' : Sys K R Tag Ans Out Mem Job ρ)
    (new : List (Entry K R Tag Ans Out Job)) : Prop
  | committed (i : Nat) (t t' : Task K R Tag Ans Out Job ρ) (ht : s.tasks[i]? = some t)
      (hjob : t'.job = t.job) (htasks : s'.tasks = s.tasks.set i t')
      (hlog : t'.loc.log = .committed s.db s'.db :: t.loc.log)
      (hnew : new = [⟨t.job, t.loc.log, s.db, s'.db⟩])
  | quiet (hdb : s'.db = s.db) (hnew : new = [])
      (hlogs : (∃ j p, s'.tasks = s.tasks ++ [{ job := j, prog := p }]) ∨
        (∃ i t, s.tasks[i]? = some t ∧ s'.tasks = s.tasks.eraseIdx i) ∨
          ∃ i t t' evs, s.tasks[i]? = some t ∧
          t'.job = t.job ∧ s'.tasks = s.tasks.set i t' ∧ t'.loc.log = evs ++ t.loc.log ∧
          (∀ pre post, .committed pre post ∉ evs) ∧ ∀ tag v, .read tag v ∈ evs →
            v = s.db)

/-- A move of a task that is not about to commit. -/
theorem advance_quiet {held : List (Lock K)} {db db' : Store K R} {mem mem' : Mem}
    {p p' : Prog K R Tag Ans Out ρ} {l l' : Local K R Tag Ans Out} {c : Choice Ans}
    (h : advance sh held db mem p l c = some (db', mem', p', l'))
    (hp : ∀ next fail, p = .commit next fail → c ≠ .proceed) :
    db' = db ∧ ∃ evs, l'.log = evs ++ l.log ∧ (∀ pre post, .committed pre post ∉ evs) ∧
      ∀ tag v, .read tag v ∈ evs → v = db := by
  cases p with
  | commit next fail =>
      cases c <;> simp only [advance, Option.some.injEq, Prod.mk.injEq, reduceCtorEq] at h
      · exact absurd rfl (hp next fail rfl)
      · obtain ⟨rfl, rfl, -, rfl⟩ := h
        exact ⟨rfl, [.failed], rfl, by simp, by simp⟩
  | ret a => cases c <;> simp [advance] at h
  | stmt tag run next fail =>
      cases c with
      | answer f => simp [advance] at h
      | fail =>
          simp only [advance, Option.some.injEq, Prod.mk.injEq] at h
          obtain ⟨rfl, rfl, -, rfl⟩ := h
          exact ⟨rfl, [.failed], rfl, by simp, by simp⟩
      | proceed =>
          simp only [advance] at h
          split at h
          · split at h
            case isFalse => cases h
            case isTrue =>
              simp only [Option.some.injEq, Prod.mk.injEq] at h
              obtain ⟨rfl, rfl, -, rfl⟩ := h
              exact ⟨rfl, [.saw tag _], rfl, by simp, by simp⟩
          · simp only [Option.some.injEq, Prod.mk.injEq] at h
            obtain ⟨rfl, rfl, -, rfl⟩ := h
            exact ⟨rfl, [.rejected tag _], rfl, by simp, by simp⟩
  | read tag next fail =>
      cases c <;> simp only [advance, Option.some.injEq, Prod.mk.injEq, reduceCtorEq] at h
      · obtain ⟨rfl, rfl, -, rfl⟩ := h
        exact ⟨rfl, [.read tag db], rfl, by simp, by simp⟩
      · obtain ⟨rfl, rfl, -, rfl⟩ := h
        exact ⟨rfl, [.failed], rfl, by simp, by simp⟩
  | rollback next =>
      cases c <;> simp only [advance, Option.some.injEq, Prod.mk.injEq, reduceCtorEq] at h
      obtain ⟨rfl, rfl, -, rfl⟩ := h
      exact ⟨rfl, [], rfl, by simp, by simp⟩
  | ask q next =>
      cases c <;> simp only [advance, Option.some.injEq, Prod.mk.injEq, reduceCtorEq] at h
      obtain ⟨rfl, rfl, -, rfl⟩ := h
      exact ⟨rfl, [_], rfl, by simp, by simp⟩
  | act a next =>
      cases c <;> simp only [advance, Option.map_eq_some_iff, Prod.mk.injEq, reduceCtorEq] at h
      obtain ⟨r, -, rfl, -, -, rfl⟩ := h
      exact ⟨rfl, [_], rfl, by simp, by simp⟩

theorem Sys.entered {m : Move Ans Job} (hm : s.move sh body m = some s') :
    s.Entered s' (s.entries m) := by
  cases Sys.move_cases hm with
  | started j hdb hmem htasks => exact .quiet hdb rfl (.inl ⟨j, body j, htasks⟩)
  | dropped i t ht hdb hmem htasks => exact .quiet hdb rfl (.inr (.inl ⟨i, t, ht, htasks⟩))
  | ran i c t t' ht hjob htasks hadv =>
      by_cases hp : (∃ next fail, t.prog = .commit next fail) ∧ c = .proceed
      · obtain ⟨⟨next, fail, hp⟩, rfl⟩ := hp
        rw [hp] at hadv
        simp only [advance, Option.some.injEq, Prod.mk.injEq] at hadv
        obtain ⟨hdb, -, -, hloc⟩ := hadv
        refine .committed i t t' ht hjob htasks ?_ ?_
        · rw [← hloc, ← hdb]
          rfl
        · obtain ⟨j, p, l⟩ := t
          cases hp
          simp only [entries, ht, ← hdb]
      · obtain ⟨hdb, evs, hlog, hno, hread⟩ :=
          advance_quiet hadv fun next fail he hc => hp ⟨⟨next, fail, he⟩, hc⟩
        refine .quiet hdb ?_ (.inr (.inr ⟨i, t, t', evs, ht, hjob, htasks, hlog, hno, hread⟩))
        obtain ⟨j, p, l⟩ := t
        cases c with
        | proceed =>
            simp only [entries, ht]
            split
            · next he =>
              cases he
              exact absurd ⟨⟨_, _, rfl⟩, rfl⟩ hp
            · rfl
        | fail => rfl
        | answer f => rfl

theorem Before.mono {e : Entry K R Tag Ans Out Job} {p q : Store K R → Prop}
    (h : Before sh body ok s₀ es e p) (hpq : ∀ db, p db → q db) :
    Before sh body ok s₀ es e q := by
  obtain ⟨newer, older, es', s', hes, hsuf, hc, hp⟩ := h
  exact ⟨newer, older, es', s', hes, hsuf, hc, hpq _ hp⟩

namespace Chronicle

/-! ## What the entries say -/

/-- Every entry fulfilled the promise of its job, and so did the commits before it in its log. -/
theorem promised {P : Protocol K R} {C : Tag → Store K R → Prop}
    {G : Job → Promise K R Tag Ans Out} {Q : Job → ρ → Local K R Tag Ans Out →
      Store K R → Prop}
    (hbody : ∀ j db, P.Inv db → Safe P C (G j) (Q j) (body j) {} db)
    (hok : ∀ s m, ok s m → s.Admits C m) (hinv : P.Inv s₀.db) (htasks : s₀.tasks = [])
    (h : Chronicle sh body ok s₀ es s) :
    ∀ e ∈ es, Kept (G e.job) e.log ∧ G e.job e.log e.pre e.post := by
  induction h with
  | init => simp
  | @step es s s' m h hallow hm ih =>
      intro e he
      rcases List.mem_append.1 he with he | he
      · have hsound := (h.reachBy.reach hok).sound hbody hinv htasks (Q := Q)
        cases Sys.entered hm with
        | quiet hdb hnew hlogs => simp [hnew] at he
        | committed i t t' ht hjob htasks' hlog hnew =>
            rw [hnew, List.mem_singleton] at he
            subst he
            have hlen : i < s.tasks.length := (List.getElem?_eq_some_iff.1 ht).1
            have hmem : t' ∈ s'.tasks := by
              rw [htasks']
              exact List.mem_set hlen t'
            have hkept := (hsound.move (fun j _ => hbody j) (hok s m hallow) hm).1.kept t' hmem
            rw [hlog, hjob] at hkept
            exact ⟨hkept.tail, hkept.commit [] _ _ _ rfl⟩
      · exact ih e he

/-- A fact about the committed rows was there at first, or an entry brought it about. -/
theorem origin (p : Store K R → Prop) (h : Chronicle sh body ok s₀ es s) (hp : p s.db) :
    p s₀.db ∨ ∃ e ∈ es, ¬p e.pre ∧ p e.post := by
  induction h with
  | init => exact .inl hp
  | @step es s s' m h hallow hm ih =>
      have hold : p s.db → p s₀.db ∨ ∃ e ∈ s.entries m ++ es, ¬p e.pre ∧ p e.post := by
        intro hs
        refine (ih hs).imp_right ?_
        rintro ⟨e, he, hpe⟩
        exact ⟨e, List.mem_append_right _ he, hpe⟩
      cases Sys.entered hm with
      | quiet hdb hnew hlogs => exact hold (hdb ▸ hp)
      | committed i t t' ht hjob htasks hlog hnew =>
          by_cases hs : p s.db
          · exact hold hs
          · refine .inr ⟨⟨t.job, t.loc.log, s.db, s'.db⟩, ?_, hs, hp⟩
            rw [hnew]
            exact List.mem_append_left _ (List.mem_singleton.2 rfl)

/-- What a task read are the rows that were committed after some of the entries. -/
theorem read (htasks : s₀.tasks = []) (h : Chronicle sh body ok s₀ es s)
    {t : Task K R Tag Ans Out Job ρ} (ht : t ∈ s.tasks) {tag : Tag} {v : Store K R}
    (hv : .read tag v ∈ t.loc.log) :
    ∃ es' s', es' <:+ es ∧ Chronicle sh body ok s₀ es' s' ∧ s'.db = v := by
  induction h generalizing t with
  | init =>
      rw [htasks] at ht
      cases ht
  | @step es s s' m h hallow hm ih =>
      have hold : ∀ u ∈ s.tasks, .read tag v ∈ u.loc.log →
          ∃ es' s', es' <:+ s.entries m ++ es ∧ Chronicle sh body ok s₀ es' s' ∧
            s'.db = v := by
        intro u hu hread
        obtain ⟨es', s'', hsuf, hc, hdb⟩ := ih hu hread
        exact ⟨es', s'', hsuf.trans (List.suffix_append _ _), hc, hdb⟩
      cases Sys.entered hm with
      | committed i u u' hu hjob htasks' hlog hnew =>
          rw [htasks'] at ht
          rcases List.mem_or_eq_of_mem_set ht with ht | rfl
          · exact hold t ht hv
          · rw [hlog] at hv
            rcases List.mem_cons.1 hv with hv | hv
            · cases hv
            · exact hold u (List.mem_of_getElem? hu) hv
      | quiet hdb hnew hlogs =>
          rcases hlogs with ⟨j, p, htasks'⟩ | ⟨i, u, -, htasks'⟩ |
            ⟨i, u, u', evs, hu, hjob, htasks', hlog, hno, hread⟩
          · rw [htasks'] at ht
            rcases List.mem_append.1 ht with ht | ht
            · exact hold t ht hv
            · rw [List.mem_singleton.1 ht] at hv
              cases hv
          · rw [htasks'] at ht
            exact hold t (List.mem_of_mem_eraseIdx ht) hv
          · rw [htasks'] at ht
            rcases List.mem_or_eq_of_mem_set ht with ht | rfl
            · exact hold t ht hv
            · rw [hlog] at hv
              rcases List.mem_append.1 hv with hv | hv
              · exact ⟨es, s, List.suffix_append _ _, h, (hread tag v hv).symm⟩
              · exact hold u (List.mem_of_getElem? hu) hv

/-- What a task committed is an entry, at that point of its log. -/
theorem committed (htasks : s₀.tasks = []) (h : Chronicle sh body ok s₀ es s)
    {t : Task K R Tag Ans Out Job ρ} (ht : t ∈ s.tasks) {pre post : Store K R}
    (hc : .committed pre post ∈ t.loc.log) :
    ∃ e ∈ es, e.job = t.job ∧ e.pre = pre ∧ e.post = post ∧
    .committed pre post :: e.log <:+ t.loc.log := by
  induction h generalizing t with
  | init =>
      rw [htasks] at ht
      cases ht
  | @step es s s' m h hallow hm ih =>
      have hold : ∀ u ∈ s.tasks, .committed pre post ∈ u.loc.log →
          ∃ e ∈ s.entries m ++ es, e.job = u.job ∧ e.pre = pre ∧ e.post = post ∧
            .committed pre post :: e.log <:+ u.loc.log := by
        intro u hu hcommitted
        obtain ⟨e, he, hrest⟩ := ih hu hcommitted
        exact ⟨e, List.mem_append_right _ he, hrest⟩
      cases Sys.entered hm with
      | committed i u u' hu hjob htasks' hlog hnew =>
          rw [htasks'] at ht
          rcases List.mem_or_eq_of_mem_set ht with ht | rfl
          · exact hold t ht hc
          · rw [hlog] at hc
            rw [hjob, hlog]
            rcases List.mem_cons.1 hc with hc | hc
            · cases hc
              exact ⟨⟨u.job, u.loc.log, s.db, s'.db⟩, by simp [hnew], rfl, rfl, rfl,
                List.suffix_refl _⟩
            · obtain ⟨e, he, hejob, hpre, hpost, hsuf⟩ := hold u (List.mem_of_getElem? hu) hc
              exact ⟨e, he, hejob, hpre, hpost, hsuf.trans (List.suffix_cons _ _)⟩
      | quiet hdb hnew hlogs =>
          rcases hlogs with ⟨j, p, htasks'⟩ | ⟨i, u, -, htasks'⟩ |
            ⟨i, u, u', evs, hu, hjob, htasks', hlog, hno, -⟩
          · rw [htasks'] at ht
            rcases List.mem_append.1 ht with ht | ht
            · exact hold t ht hc
            · rw [List.mem_singleton.1 ht] at hc
              cases hc
          · rw [htasks'] at ht
            exact hold t (List.mem_of_mem_eraseIdx ht) hc
          · rw [htasks'] at ht
            rcases List.mem_or_eq_of_mem_set ht with ht | rfl
            · exact hold t ht hc
            · rw [hlog] at hc
              rw [hjob, hlog]
              obtain ⟨e, he, hejob, hpre, hpost, hsuf⟩ :=
                hold u (List.mem_of_getElem? hu)
                  ((List.mem_append.1 hc).resolve_left (hno pre post))
              exact ⟨e, he, hejob, hpre, hpost, hsuf.trans (List.suffix_append _ _)⟩

/-- The task of an entry where it was about to commit. -/
theorem moment (h : Chronicle sh body ok s₀ es s) {e : Entry K R Tag Ans Out Job}
    (he : e ∈ es) :
    ∃ newer older s', es = newer ++ e :: older ∧ Chronicle sh body ok s₀ older s' ∧
      s'.db = e.pre ∧ ∃ t ∈ s'.tasks, t.job = e.job ∧ t.loc.log = e.log := by
  induction h with
  | init => cases he
  | @step es s s' m h hallow hm ih =>
      rcases List.mem_append.1 he with he | he
      · cases Sys.entered hm with
        | quiet hdb hnew hlogs =>
            rw [hnew] at he
            cases he
        | committed i t t' ht hjob htasks' hlog hnew =>
            rw [hnew, List.mem_singleton] at he
            subst he
            exact ⟨[], es, s, by rw [hnew]; rfl, h, rfl, t, List.mem_of_getElem? ht, rfl, rfl⟩
      · obtain ⟨newer, older, s'', rfl, hrest⟩ := ih he
        exact ⟨s.entries m ++ newer, older, s'', (List.append_assoc ..).symm, hrest⟩

/-- What the task of an entry had read are the rows that were committed after some of the earlier
entries. -/
theorem read_before (htasks : s₀.tasks = []) (h : Chronicle sh body ok s₀ es s)
    {e : Entry K R Tag Ans Out Job} (he : e ∈ es) {tag : Tag} {v : Store K R}
    (hv : .read tag v ∈ e.log) : Before sh body ok s₀ es e (· = v) := by
  obtain ⟨newer, older, s', hes, hc, -, t, ht, -, hlog⟩ := h.moment he
  rw [← hlog] at hv
  obtain ⟨es', s'', hsuf, hc', hdb⟩ := hc.read htasks ht hv
  exact ⟨newer, older, es', s'', hes, hsuf, hc', hdb⟩

/-- What the task of an entry had committed is an earlier entry, of the same task: its log goes on
to that of the later one. -/
theorem committed_before (htasks : s₀.tasks = []) (h : Chronicle sh body ok s₀ es s)
    {e : Entry K R Tag Ans Out Job} (he : e ∈ es) {pre post : Store K R}
    (hc : .committed pre post ∈ e.log) :
    ∃ newer older, es = newer ++ e :: older ∧ ∃ e' ∈ older, e'.job = e.job ∧
      e'.pre = pre ∧ e'.post = post ∧ .committed pre post :: e'.log <:+ e.log := by
  obtain ⟨newer, older, s', hes, hrun, -, t, ht, hjob, hlog⟩ := h.moment he
  rw [← hlog] at hc
  obtain ⟨e', he', hjob', hpre, hpost, hsuf⟩ := hrun.committed htasks ht hc
  exact ⟨newer, older, hes, e', he', hjob'.trans hjob, hpre, hpost, hlog ▸ hsuf⟩

/-! ## What lasts -/

/-- The committed rows after the newest entry, and before it. -/
theorem newest {e : Entry K R Tag Ans Out Job} (h : Chronicle sh body ok s₀ (e :: es) s) :
    s.db = e.post ∧ ∃ s', Chronicle sh body ok s₀ es s' ∧ s'.db = e.pre := by
  generalize hall : e :: es = all at h
  induction h with
  | init => cases hall
  | @step es₁ s s' m h hallow hm ih =>
      cases Sys.entered hm with
      | quiet hdb hnew hlogs =>
          rw [hnew, List.nil_append] at hall
          rw [hdb]
          exact ih hall
      | committed i t t' ht hjob htasks' hlog hnew =>
          rw [hnew, List.singleton_append] at hall
          cases hall
          exact ⟨rfl, s, h, rfl⟩

/-- Without an entry the committed rows are the first. -/
theorem oldest (h : Chronicle sh body ok s₀ [] s) : s.db = s₀.db := by
  generalize hall : [] = all at h
  induction h with
  | init => rfl
  | @step es₁ s s' m h hallow hm ih =>
      obtain ⟨hnew, rfl⟩ := List.append_eq_nil_iff.1 hall.symm
      cases Sys.entered hm with
      | quiet hdb hnew' hlogs => exact hdb.trans (ih rfl)
      | committed i t t' ht hjob htasks' hlog hnew' =>
          rw [hnew'] at hnew
          cases hnew

theorem same (h : Chronicle sh body ok s₀ es s) (h' : Chronicle sh body ok s₀ es s') :
    s.db = s'.db := by
  cases es with
  | nil => rw [h.oldest, h'.oldest]
  | cons e es => rw [h.newest.1, h'.newest.1]

/-- A fact that no commit undoes lasts. -/
theorem lasts (p : Store K R → Prop) {es' : List (Entry K R Tag Ans Out Job)} (hsuf : es' <:+ es)
    (hes : ∀ e ∈ es, p e.pre → p e.post) (h : Chronicle sh body ok s₀ es s)
    (h' : Chronicle sh body ok s₀ es' s') (hp : p s'.db) : p s.db := by
  obtain ⟨newer, rfl⟩ := hsuf
  induction newer generalizing s with
  | nil => exact h.same h' ▸ hp
  | cons e newer ih =>
      obtain ⟨hpost, s'', hc, hpre⟩ := Chronicle.newest h
      rw [hpost]
      refine hes e List.mem_cons_self ?_
      rw [← hpre]
      exact ih (fun e' he => hes e' (List.mem_cons_of_mem _ he)) hc

theorem lasts_read (p : Store K R → Prop) (hes : ∀ e ∈ es, p e.pre → p e.post)
    (htasks : s₀.tasks = []) (h : Chronicle sh body ok s₀ es s)
    {t : Task K R Tag Ans Out Job ρ} (ht : t ∈ s.tasks) {tag : Tag} {v : Store K R}
    (hv : .read tag v ∈ t.loc.log) (hp : p v) : p s.db := by
  obtain ⟨es', s', hsuf, hc, hdb⟩ := h.read htasks ht hv
  exact h.lasts p hsuf hes hc (hdb ▸ hp)

theorem lasts_entry (p : Store K R → Prop) (hes : ∀ e ∈ es, p e.pre → p e.post)
    (h : Chronicle sh body ok s₀ es s) {e : Entry K R Tag Ans Out Job} (he : e ∈ es)
    (hp : p e.post) : p s.db := by
  induction es generalizing s with
  | nil => cases he
  | cons e' es ih =>
      obtain ⟨hpost, s', hc, hpre⟩ := h.newest
      rw [hpost]
      rcases List.mem_cons.1 he with rfl | he
      · exact hp
      · exact hes e' List.mem_cons_self
          (hpre ▸ ih (fun e'' h'' => hes e'' (List.mem_cons_of_mem _ h'')) hc he)

/-- A row that some of the entries alter, each by a change of its own, and the others leave alone:
it is what the changes made of the first one, the latest last. -/
theorem replayed {t : T} {k : K t} {χ : Type} (f : χ → Option (R t) → Option (R t))
    (mine : Entry K R Tag Ans Out Job → Bool) (rel : Entry K R Tag Ans Out Job → χ → Prop)
    (hmine : ∀ e ∈ es, mine e = true → ∃ c, rel e c ∧
      e.post.get ⟨t, k⟩ = f c (e.pre.get ⟨t, k⟩))
    (hother : ∀ e ∈ es, mine e = false → e.post.get ⟨t, k⟩ = e.pre.get ⟨t, k⟩)
    (h : Chronicle sh body ok s₀ es s) :
    ∃ cs, List.Forall₂ rel (es.filter mine) cs ∧
    s.db.get ⟨t, k⟩ = cs.foldr f (s₀.db.get ⟨t, k⟩) := by
  induction es generalizing s with
  | nil => exact ⟨[], .nil, by rw [h.oldest]; rfl⟩
  | cons e es ih =>
      obtain ⟨hpost, s', hc, hpre⟩ := h.newest
      obtain ⟨cs, hcs, hdb⟩ := ih (fun e' he => hmine e' (List.mem_cons_of_mem _ he))
        (fun e' he => hother e' (List.mem_cons_of_mem _ he)) hc
      rw [hpre] at hdb
      cases he : mine e with
      | true =>
          obtain ⟨c, hrel, hrow⟩ := hmine e List.mem_cons_self he
          refine ⟨c :: cs, ?_, by rw [hpost, hrow, hdb, List.foldr_cons]⟩
          rw [List.filter_cons_of_pos he]
          exact .cons hrel hcs
      | false =>
          refine ⟨cs, ?_, by rw [hpost, hother e List.mem_cons_self he, hdb]⟩
          rw [List.filter_cons_of_neg (by simp [he])]
          exact hcs

/-! ## Sums over the entries -/

/-- What there is of something and what went, against what there was and what came. -/
theorem stock (stock : Store K R → Nat) (gain loss : Entry K R Tag Ans Out Job → Nat)
    (h : Chronicle sh body ok s₀ es s)
    (hes : ∀ e ∈ es, stock e.post + loss e = stock e.pre + gain e) :
    stock s.db + (es.map loss).sum = stock s₀.db + (es.map gain).sum := by
  induction h with
  | init => rfl
  | @step es s s' m h hallow hm ih =>
      have hold := ih fun e he => hes e (List.mem_append_right _ he)
      cases Sys.entered hm with
      | quiet hdb hnew hlogs =>
          rw [hnew, List.nil_append, hdb]
          exact hold
      | committed i t t' ht hjob htasks hlog hnew =>
          have he := hes ⟨t.job, t.loc.log, s.db, s'.db⟩
            (by rw [hnew]; exact List.mem_cons_self)
          dsimp only at he
          simp only [hnew, List.singleton_append, List.map_cons, List.sum_cons]
          omega

/-- All that was spent was gained before. -/
theorem spent_le (credit : Job → List (Event K R Tag Ans Out) → Nat)
    (gain spend : Entry K R Tag Ans Out Job → Nat) (hnil : ∀ j, credit j [] = 0)
    (hskip : ∀ j ev log, (∀ pre post, ev ≠ .committed pre post) →
      credit j (ev :: log) = credit j log)
    (htasks : s₀.tasks = []) (h : Chronicle sh body ok s₀ es s)
    (hes : ∀ e ∈ es,
      credit e.job (.committed e.pre e.post :: e.log) + spend e ≤ credit e.job e.log + gain e) :
    (s.tasks.map fun t => credit t.job t.loc.log).sum + (es.map spend).sum ≤
      (es.map gain).sum := by
  have hpassed : ∀ j evs log, (∀ pre post, .committed pre post ∉ evs) →
      credit j (evs ++ log) = credit j log := by
    intro j evs log hno
    induction evs with
    | nil => rfl
    | cons ev evs ih =>
        rw [List.cons_append, hskip, ih fun pre post hm => hno pre post (List.mem_cons_of_mem _ hm)]
        rintro pre post rfl
        exact hno pre post List.mem_cons_self
  induction h with
  | init =>
      rw [htasks]
      exact Nat.le_refl 0
  | @step es s s' m h hallow hm ih =>
      have hold := ih fun e he => hes e (List.mem_append_right _ he)
      cases Sys.entered hm with
      | committed i t t' ht hjob htasks' hlog hnew =>
          have he := hes ⟨t.job, t.loc.log, s.db, s'.db⟩
            (by rw [hnew]; exact List.mem_cons_self)
          obtain ⟨l₁, l₂, hl, hset, -⟩ := Owners.split_at ht
          rw [hl] at hold
          simp only [htasks', hset, hnew, List.singleton_append, List.map_append, List.map_cons,
            List.sum_append, List.sum_cons, hjob, hlog] at hold he ⊢
          omega
      | quiet hdb hnew hlogs =>
          rw [hnew, List.nil_append]
          rcases hlogs with ⟨j, p, htasks'⟩ | ⟨i, t, ht, htasks'⟩ |
            ⟨i, t, t', evs, ht, hjob, htasks', hlog, hno, -⟩
          · rw [htasks', List.map_append, List.sum_append, List.map_singleton,
              List.sum_singleton, hnil]
            exact hold
          · obtain ⟨l₁, l₂, hl, -, herase⟩ := Owners.split_at ht
            rw [hl] at hold
            simp only [htasks', herase, List.map_append, List.map_cons, List.sum_append,
              List.sum_cons] at hold ⊢
            omega
          · obtain ⟨l₁, l₂, hl, hset, -⟩ := Owners.split_at ht
            rw [hl] at hold
            simp only [htasks', hset, List.map_append, List.map_cons, List.sum_append,
              List.sum_cons, hjob, hlog, hpassed t.job evs t.loc.log hno] at hold ⊢
            omega

end Chronicle

end ReadCommitted
