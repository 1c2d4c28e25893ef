import Dd2Server.ReadCommitted.Owners
import Mathlib.Algebra.BigOperators.Group.List.Lemmas
import Mathlib.Tactic.Abel

/-!
# Amounts that are never lost

Some amount is partly with the tasks, by their logs, and partly with the shared memory: permits that
were taken and permits that are free.  Where every operation only passes it on, and a task that is
dropped gives back what it has, the sum of all parts is the same in every state of a run.
-/

namespace ReadCommitted

variable {T : Type} {K R : T → Type}
  {Tag Ask Act Mem Job ρ A : Type} {Ans : Ask → Type} {Out : Act → Type} [AddCommMonoid A]

/-- What a task has by its log, and what the shared memory has. -/
structure Ledger (K R : T → Type) (Tag : Type) (Ans : Ask → Type) (Out : Act → Type)
    (Mem A : Type) where
  own : List (Event K R Tag Ans Out) → A
  bank : Mem → A

namespace Ledger

variable (L : Ledger K R Tag Ans Out Mem A)

/-- All there is. -/
def total (s : Sys K R Tag Ans Out Mem Job ρ) : A :=
  (s.tasks.map fun t => L.own t.loc.log).sum + L.bank s.mem

/-- A task that did nothing has nothing, and only operations on the shared memory count. -/
structure Lawful : Prop where
  nil : L.own [] = 0
  skip : ∀ ev log, (∀ a o, ev ≠ .acted a o) → L.own (ev :: log) = L.own log

variable {L} {sh : Shared K R Tag Ans Out Mem} {body : Job → Prog K R Tag Ans Out ρ}
  {s s' : Sys K R Tag Ans Out Mem Job ρ}

theorem Lawful.own_passive (hL : L.Lawful) {new : List (Event K R Tag Ans Out)}
    (hnew : ∀ ev ∈ new, ev.Passive) (log : List (Event K R Tag Ans Out)) :
    L.own (new ++ log) = L.own log := by
  induction new with
  | nil => rfl
  | cons ev new ih =>
      rw [List.cons_append, hL.skip, ih fun ev' hm => hnew ev' (List.mem_cons_of_mem _ hm)]
      rintro a o rfl
      exact hnew _ List.mem_cons_self

variable [DecidableEq T] [∀ t, DecidableEq (K t)]

/-- One move leaves the sum, where the operation that it carries out passes things on and a task
that is dropped gives back what it has. -/
theorem Lawful.move {m : Move Ans Job} (hL : L.Lawful)
    (hpass : ∀ t ∈ s.tasks, ∀ a next mem' o, t.prog = .act a next →
      sh.perform a s.mem = some (mem', o) → L.own
      (.acted a o :: t.loc.log) + L.bank mem' = L.own t.loc.log + L.bank s.mem)
    (hdrop : ∀ t ∈ s.tasks, L.bank (sh.abandon t.loc.log s.mem) =
      L.own t.loc.log + L.bank s.mem)
    (hm : s.move sh body m = some s') : L.total s' = L.total s := by
  cases Sys.move_cases hm with
  | started j hdb hmem htasks =>
      rw [total, htasks, hmem, List.map_append, List.sum_append, List.map_singleton,
        List.sum_singleton]
      show _ + L.own [] + _ = _
      rw [hL.nil, add_zero]
      rfl
  | dropped i t ht hdb hmem htasks =>
      obtain ⟨l₁, l₂, hl, -, herase⟩ := Owners.split_at ht
      rw [total, total, htasks, herase, hmem, hdrop t (List.mem_of_getElem? ht), hl]
      simp only [List.map_append, List.map_cons, List.sum_append, List.sum_cons]
      abel
  | ran i c t t' ht hjob htasks hadv =>
      obtain ⟨l₁, l₂, hl, hset, -⟩ := Owners.split_at ht
      have hpart : L.own t'.loc.log + L.bank s'.mem = L.own t.loc.log + L.bank s.mem := by
        cases advance_cases hadv with
        | acted a o next hp hperf hdb hp' hlog =>
            rw [hlog]
            exact hpass t (List.mem_of_getElem? ht) a next _ o hp hperf
        | looked tag hdb hmem hlog => rw [hlog, hmem, hL.skip _ _ (by simp)]
        | committed hmem hlog => rw [hlog, hmem, hL.skip _ _ (by simp)]
        | passed new hdb hmem hlog hnew => rw [hlog, hmem, hL.own_passive hnew]
      rw [total, total, htasks, hset t', hl]
      simp only [List.map_append, List.map_cons, List.sum_append, List.sum_cons]
      calc (l₁.map fun t => L.own t.loc.log).sum +
            (L.own t'.loc.log + (l₂.map fun t => L.own t.loc.log).sum) + L.bank s'.mem
        _ = (l₁.map fun t => L.own t.loc.log).sum + (l₂.map fun t => L.own t.loc.log).sum +
            (L.own t'.loc.log + L.bank s'.mem) := by abel
        _ = (l₁.map fun t => L.own t.loc.log).sum +
            (L.own t.loc.log + (l₂.map fun t => L.own t.loc.log).sum) + L.bank s.mem := by
          rw [hpart]
          abel

end Ledger

end ReadCommitted
