import Dd2Server.Moderation.Requests

/-!
# Runs of the requests

Committed rows move by changes, the clock does not go back, and a window that is open was opened by
a read of the committed rows of its time.
-/

namespace Dd2Server.Moderation

open ReadCommitted

variable {env : Env} {s₀ s s' : System} {log : Log} {move : Move Ask.Ans Job}

/-! ## Runs -/

/-- The states the requests lead to. -/
abbrev Run (env : Env) (s₀ s : System) : Prop :=
  Reach shared (Job.body env) (fun _ _ => True) s₀ s

/-- One move of the requests. -/
abbrev Step (env : Env) (s : System) (move : Move Ask.Ans Job) (s' : System) : Prop :=
  s.move shared (Job.body env) move = some s'

/-- Every task will commit what it may. -/
abbrev Orderly (s : System) : Prop :=
  Sound .free (fun _ _ => True) (fun j => { commit := Change j }) (fun _ _ _ _ => True) s

theorem Run.orderly (htasks : s₀.tasks = []) (h : Run env s₀ s) : Orderly s :=
  Reach.sound (fun j db _ => j.safe env db) trivial htasks h

/-- Committed rows move by a change of the task that moves. -/
theorem Orderly.step (h : Orderly s) (hstep : Step env s move s') :
    s'.db = s.db ∨ ∃ i t t', s.CommittedBy s' i t t' ∧ Change t.job t.loc.log s.db s'.db :=
  (h.move (fun j _ db _ => j.safe env db) s.admits_true hstep).2.imp id fun h => h.2

/-! ## The clock -/

theorem perform_clock {a : Act} {now now' : Time} {o : a.Out}
    (h : shared.perform a now = some (now', o)) : now ≤ now' := by
  cases a with
  | clock =>
      cases h
      exact le_refl _
  | pass d =>
      cases h
      exact Int.le_add_of_nonneg_right (Int.natCast_nonneg d)

/-- Time does not go back. -/
theorem Step.mem_le (h : Step env s move s') : s.mem ≤ s'.mem := by
  cases Sys.move_cases h with
  | started j hdb hmem htasks => exact le_of_eq hmem.symm
  | dropped i t ht hdb hmem htasks => exact le_of_eq hmem.symm
  | ran i c t t' ht hjob htasks hadv =>
      cases advance_cases hadv with
      | acted a o next hp hperf hdb hp' hlog => exact perform_clock hperf
      | looked tag hdb hmem hlog => exact le_of_eq hmem.symm
      | committed hmem hlog => exact le_of_eq hmem.symm
      | passed new hdb hmem hlog hnew => exact le_of_eq hmem.symm

theorem mem_of_lastClock {now : Time} (h : lastClock log = some now) :
    .acted .clock now ∈ log := by
  induction log with
  | nil => cases h
  | cons ev log ih =>
      cases ev with
      | acted a o =>
          cases a with
          | clock =>
              cases h
              exact List.mem_cons_self
          | pass d => exact List.mem_cons_of_mem _ (ih h)
      | _ => exact List.mem_cons_of_mem _ (ih h)

/-- What the tasks read off the clock is past. -/
def ClocksPast (s : System) : Prop :=
  ∀ t ∈ s.tasks, ∀ now, .acted .clock now ∈ t.loc.log → now ≤ s.mem

theorem ClocksPast.step (h : ClocksPast s) (hstep : Step env s move s') : ClocksPast s' := by
  have hle := Step.mem_le hstep
  intro t ht now hnow
  cases Sys.move_cases hstep with
  | started j hdb hmem htasks =>
      rw [htasks] at ht
      rcases List.mem_append.1 ht with ht | ht
      · exact (h t ht now hnow).trans hle
      · rw [List.mem_singleton.1 ht] at hnow
        cases hnow
  | dropped i u hu hdb hmem htasks =>
      rw [htasks] at ht
      exact (h t (List.mem_of_mem_eraseIdx ht) now hnow).trans hle
  | ran i c u u' hu hjob htasks hadv =>
      rw [htasks] at ht
      rcases List.mem_or_eq_of_mem_set ht with ht | rfl
      · exact (h t ht now hnow).trans hle
      have hold : .acted .clock now ∈ u.loc.log → now ≤ s'.mem := fun hm =>
        (h u (List.mem_of_getElem? hu) now hm).trans hle
      cases advance_cases hadv with
      | acted a o next hp hperf hdb hp' hlog =>
          rw [hlog] at hnow
          rcases List.mem_cons.1 hnow with he | hnow
          · cases he
            obtain ⟨hmem, hnow⟩ := Prod.mk.inj (Option.some.inj hperf)
            exact le_of_eq (hnow.symm.trans hmem)
          · exact hold hnow
      | looked tag hdb hmem hlog =>
          rw [hlog] at hnow
          exact hold (by simpa using hnow)
      | committed hmem hlog =>
          rw [hlog] at hnow
          exact hold (by simpa using hnow)
      | passed new hdb hmem hlog hnew =>
          rw [hlog] at hnow
          rcases List.mem_append.1 hnow with hm | hm
          · exact (hnew _ hm).elim
          · exact hold hm

theorem Run.clocksPast (htasks : s₀.tasks = []) (h : Run env s₀ s) : ClocksPast s := by
  induction h with
  | init =>
      intro t ht
      rw [htasks] at ht
      cases ht
  | step _ _ hstep ih => exact ih.step hstep

/-! ## Windows -/

theorem opened_append {p : Tag → Db → Log → Bool} {new : Log}
    (hnew : ∀ ev ∈ new, ev.Passive) : opened p (new ++ log) = opened p log := by
  induction new with
  | nil => rfl
  | cons ev new ih =>
      have hold := ih fun e he => hnew e (List.mem_cons_of_mem _ he)
      have hev := hnew ev List.mem_cons_self
      cases ev with
      | read tag v => exact hev.elim
      | committed pre post => exact hev.elim
      | _ => exact hold

/-- A window that is open after a move of a task was open before, unless the move is the read that
opens it. -/
theorem opened_advance {p : Tag → Db → Log → Bool} {held : List (Lock Table.Key)}
    {db db' : Db} {mem mem' : Time} {q q' : Server (Option Reply)} {c : Choice Ask.Ans}
    {l l' : Local Table.Key Table.Row Tag Ask.Ans Act.Out}
    (hadv : advance shared held db mem q l c = some (db', mem', q', l'))
    (h : opened p l'.log = true) :
    opened p l.log = true ∨ db' = db ∧ mem' = mem ∧ ∃ tag, p tag db l.log = true := by
  cases advance_cases hadv with
  | acted a o next hp hperf hdb hp' hlog =>
      rw [hlog] at h
      exact .inl h
  | looked tag hdb hmem hlog =>
      rw [hlog, opened, Bool.or_eq_true] at h
      rcases h with h | h
      · exact .inr ⟨hdb, hmem, tag, h⟩
      · exact .inl h
  | committed hmem hlog =>
      rw [hlog, opened, Bool.and_eq_true] at h
      exact .inl h.2
  | passed new hdb hmem hlog hnew =>
      rw [hlog, opened_append hnew] at h
      exact .inl h

/-- The task has not ended, and a window of it is open. -/
def Within (p : Tag → Db → Log → Bool) (t : Task) : Prop :=
  t.prog.result = none ∧ opened p t.loc.log = true

/-- A window that is open after a move was open before, or what was read holds. -/
theorem Within.advance {p : Tag → Db → Log → Bool} {held : List (Lock Table.Key)}
    {t t' : Task} {c : Choice Ask.Ans} {db' : Db} {mem' : Time}
    (hadv : ReadCommitted.advance shared held s.db s.mem t.prog t.loc c =
      some (db', mem', t'.prog, t'.loc)) (h : Within p t') :
    Within p t ∨ ∃ tag, p tag s.db t.loc.log = true := by
  rcases opened_advance hadv h.2 with hold | ⟨-, -, hread⟩
  · refine .inl ⟨?_, hold⟩
    -- a program that moves has not ended
    cases hp : t.prog with
    | ret a =>
        rw [hp] at hadv
        cases c <;> simp [ReadCommitted.advance] at hadv
    | _ => rfl
  · exact .inr hread

end Dd2Server.Moderation
