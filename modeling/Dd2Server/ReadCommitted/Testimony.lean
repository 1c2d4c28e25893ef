import Dd2Server.ReadCommitted.Owners

/-!
# What the world outside said

The memory that the tasks share may keep an answer for tasks that never asked, after the task that
asked is gone.  A `Testimony` says what the events of a log and the memory may tell.  Where the
answers are as it says, and every operation turns true memory into true memory, it holds of every
state of a run (`Testimony.reached`).
-/

namespace ReadCommitted

variable {T : Type} {K R : T → Type}
  {Tag Ask Act Mem Job ρ : Type} {Ans : Ask → Type} {Out : Act → Type}

structure Testimony (K R : T → Type) (Tag : Type) (Ans : Ask → Type) (Out : Act → Type)
    (Mem : Type) where
  event : Event K R Tag Ans Out → Prop
  memory : Mem → Prop

namespace Testimony

variable (W : Testimony K R Tag Ans Out Mem)

/-- The memory and every log are true. -/
structure Holds (s : Sys K R Tag Ans Out Mem Job ρ) : Prop where
  memory : W.memory s.mem
  logs : ∀ t ∈ s.tasks, ∀ ev ∈ t.loc.log, W.event ev

/-- The answer that the program gets, if it asks, is true. -/
def AnswersTo (f : (q : Ask) → Ans q) : Prog K R Tag Ans Out ρ → Prop
  | .ask q _ => W.event (.answered q (f q))
  | _ => True

/-- The answer that the move gives, if it gives one, is true. -/
def Answers (s : Sys K R Tag Ans Out Mem Job ρ) : Move Ans Job → Prop
  | .run i (.answer f) => ∀ t ∈ s.tasks[i]?, W.AnswersTo f t.prog
  | _ => True

instance [DecidablePred W.event] (f : (q : Ask) → Ans q) :
    (p : Prog K R Tag Ans Out ρ) → Decidable (W.AnswersTo f p)
  | .ask q _ => inferInstanceAs (Decidable (W.event (.answered q (f q))))
  | .ret _ | .stmt .. | .read .. | .commit .. | .rollback _ | .act .. => isTrue trivial

instance [DecidablePred W.event] (s : Sys K R Tag Ans Out Mem Job ρ) :
    (m : Move Ans Job) → Decidable (W.Answers s m)
  | .run i (.answer f) => inferInstanceAs (Decidable (∀ t ∈ s.tasks[i]?, W.AnswersTo f t.prog))
  | .run _ .proceed | .run _ .fail | .start _ | .drop _ => isTrue trivial

/-- Only answers and operations can be false, and the operations that the tasks promise keep to the
truth. -/
structure Lawful (sh : Shared K R Tag Ans Out Mem)
    (act : Job → List (Event K R Tag Ans Out) → Act → Prop) : Prop where
  other : ∀ ev, (∀ q a, ev ≠ .answered q a) → (∀ a o, ev ≠ .acted a o) → W.event ev
  act : ∀ j log a mem mem' o, W.memory mem → (∀ ev ∈ log, W.event ev) → act j log a →
    sh.perform a mem = some (mem', o) → W.memory mem' ∧ W.event (.acted a o)
  abandon : ∀ log mem, W.memory mem → W.memory (sh.abandon log mem)

variable {W} {sh : Shared K R Tag Ans Out Mem} {body : Job → Prog K R Tag Ans Out ρ}
  {act : Job → List (Event K R Tag Ans Out) → Act → Prop}
  {s₀ s s' : Sys K R Tag Ans Out Mem Job ρ}

theorem Holds.cons (h : W.Holds s) {i : Nat} {t t' : Task K R Tag Ans Out Job ρ}
    {e : List (Event K R Tag Ans Out)} (ht : s.tasks[i]? = some t)
    (htasks : s'.tasks = s.tasks.set i t') (hlog : t'.loc.log = e ++ t.loc.log)
    (hmem : W.memory s'.mem) (hevs : ∀ ev ∈ e, W.event ev) : W.Holds s' := by
  refine ⟨hmem, fun u hu ev hev => ?_⟩
  rw [htasks] at hu
  rcases List.mem_or_eq_of_mem_set hu with hu | rfl
  · exact h.logs u hu ev hev
  · rw [hlog] at hev
    rcases List.mem_append.1 hev with hev | hev
    · exact hevs ev hev
    · exact h.logs t (List.mem_of_getElem? ht) ev hev

variable [DecidableEq T] [∀ t, DecidableEq (K t)]

/-- One move. -/
theorem Holds.move {m : Move Ans Job} (hW : W.Lawful sh act) (h : W.Holds s)
    (hact : ∀ t ∈ s.tasks, ∀ a next, t.prog = .act a next → act t.job t.loc.log a)
    (hok : W.Answers s m) (hm : s.move sh body m = some s') : W.Holds s' := by
  cases Sys.move_cases hm with
  | started j hdb hmem htasks =>
      refine ⟨hmem ▸ h.memory, fun t ht ev hev => ?_⟩
      rw [htasks] at ht
      rcases List.mem_append.1 ht with ht | ht
      · exact h.logs t ht ev hev
      · rw [List.mem_singleton.1 ht] at hev
        cases hev
  | dropped i t ht hdb hmem htasks =>
      refine ⟨hmem ▸ hW.abandon _ _ h.memory, fun u hu => ?_⟩
      rw [htasks] at hu
      exact h.logs u (List.mem_of_mem_eraseIdx hu)
  | ran i c t t' ht hjob htasks hadv =>
      have hold := h.logs t (List.mem_of_getElem? ht)
      cases advance_cases hadv with
      | acted a o next hp hperf hdb hp' hlog =>
          have hnext := hW.act t.job t.loc.log a s.mem s'.mem o h.memory hold
            (hact t (List.mem_of_getElem? ht) a next hp) hperf
          exact h.cons (e := [_]) ht htasks hlog hnext.1 fun ev hev =>
            List.mem_singleton.1 hev ▸ hnext.2
      | looked tag hdb hmem hlog =>
          refine h.cons (e := [_]) ht htasks hlog (hmem ▸ h.memory) fun ev hev => ?_
          rw [List.mem_singleton.1 hev]
          exact hW.other _ (by simp) (by simp)
      | committed hmem hlog =>
          refine h.cons (e := [_]) ht htasks hlog (hmem ▸ h.memory) fun ev hev => ?_
          rw [List.mem_singleton.1 hev]
          exact hW.other _ (by simp) (by simp)
      | passed new hdb hmem hlog hnew =>
          refine h.cons ht htasks hlog (hmem ▸ h.memory) fun ev hev => ?_
          cases ev with
          | answered q a =>
              rcases advance_answered hadv (hlog ▸ List.mem_append_left _ hev) with hin |
                ⟨next, f, hp, rfl, rfl⟩
              · exact hold _ hin
              · have htrue := hok t ht
                rw [hp] at htrue
                exact htrue
          | acted a o => exact (hnew _ hev).elim
          | _ => exact hW.other _ (by simp) (by simp)

/-- In every run whose answers are true, all that the logs and the memory tell is true. -/
theorem reached {P : Protocol K R} {C : Tag → Store K R → Prop}
    {G : Job → Promise K R Tag Ans Out} {Q : Job → ρ → Local K R Tag Ans Out →
      Store K R → Prop}
    {ok : Sys K R Tag Ans Out Mem Job ρ → Move Ans Job → Prop}
    (hbody : ∀ j db, P.Inv db → Safe P C (G j) (Q j) (body j) {} db)
    (hok : ∀ s m, ok s m → s.Admits C m ∧ W.Answers s m) (hW : W.Lawful sh fun j => (G j).act)
    (hinv : P.Inv s₀.db) (hmem : W.memory s₀.mem) (htasks : s₀.tasks = [])
    (h : ReachBy sh body ok s₀ s) : W.Holds s := by
  induction h with
  | init => exact ⟨hmem, fun t ht => by rw [htasks] at ht; cases ht⟩
  | @step s s' m h hallow hm ih =>
      have hsound := (h.reach fun s m hs => (hok s m hs).1).sound hbody hinv htasks
      exact ih.move hW (fun t ht a next hp => hsound.act ht hp) (hok _ _ hallow).2 hm

end Testimony

end ReadCommitted
