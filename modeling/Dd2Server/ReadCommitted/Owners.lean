import Dd2Server.ReadCommitted.Moves
import Mathlib.Data.List.Nodup
import Mathlib.Data.List.Perm.Basic

/-!
# Owners of keys in the shared memory

The shared memory marks keys: a mutex that is taken, an entry that is pending, an id that was given
out.  Each marked key has one owner, a task whose log says that it has the key, or the memory itself
while the key is on its way from one task to another.  What an operation does to the keys is said
once for each operation (`Owners.Lawful`), and every run keeps it.
-/

namespace ReadCommitted

open scoped List

variable {T : Type} {K R : T → Type}
  {Tag Ask Act Mem Job ρ κ : Type} {Ans : Ask → Type} {Out : Act → Type}

/-- The keys a task has by its log, those the memory hands on, and those the memory has marked. -/
structure Owners (K R : T → Type) (Tag : Type) (Ans : Ask → Type) (Out : Act → Type)
    (Mem κ : Type) where
  own : List (Event K R Tag Ans Out) → List κ
  spare : Mem → List κ
  marked : Mem → κ → Prop

namespace Owners

variable (O : Owners K R Tag Ans Out Mem κ)

/-- Every key with an owner. -/
def all (s : Sys K R Tag Ans Out Mem Job ρ) : List κ :=
  s.tasks.flatMap (fun t => O.own t.loc.log) ++ O.spare s.mem

/-- Each key has one owner, and is marked. -/
structure Single (s : Sys K R Tag Ans Out Mem Job ρ) : Prop where
  nodup : (O.all s).Nodup
  marked : ∀ k ∈ O.all s, O.marked s.mem k

/-- Keys pass between a task and the memory; new ones were not marked, and the marks of those that
are gone may go. -/
def Passes (log : List (Event K R Tag Ans Out)) (mem : Mem) (log' : List (Event K R Tag Ans Out))
    (mem' : Mem) : Prop :=
  ∃ new gone, (O.own log' ++ O.spare mem' ++ gone).Perm (O.own log ++ O.spare mem ++ new) ∧
    new.Nodup ∧ (∀ k ∈ new, ¬O.marked mem k) ∧
    ∀ k, O.marked mem k ∨ k ∈ new → k ∉ gone → O.marked mem' k

/-- What the operations a task may perform do to the keys. -/
structure Lawful (sh : Shared K R Tag Ans Out Mem)
    (act : List (Event K R Tag Ans Out) → Act → Prop) : Prop where
  nil : O.own [] = []
  skip : ∀ ev log, (∀ a o, ev ≠ .acted a o) → O.own (ev :: log) = O.own log
  pass : ∀ a o log mem mem', act log a → sh.perform a mem = some (mem', o) →
    O.Passes log mem (.acted a o :: log) mem'
  drop : ∀ log mem, O.spare (sh.abandon log mem) = O.spare mem ∧
    ∀ k, O.marked mem k → k ∉ O.own log → O.marked (sh.abandon log mem) k

variable {O} {sh : Shared K R Tag Ans Out Mem} {body : Job → Prog K R Tag Ans Out ρ}
  {act : List (Event K R Tag Ans Out) → Act → Prop} {s₀ s s' : Sys K R Tag Ans Out Mem Job ρ}

/-- The keys that had an owner have one. -/
theorem Passes.moved {log log' : List (Event K R Tag Ans Out)} {mem mem' : Mem}
    (hperm : O.own log' ++ O.spare mem' ~ O.own log ++ O.spare mem)
    (hmarked : ∀ k, O.marked mem k → O.marked mem' k) : O.Passes log mem log' mem' := by
  refine ⟨[], [], ?_, List.nodup_nil, by simp, fun k hk _ => hmarked k (by simpa using hk)⟩
  rw [List.append_nil, List.append_nil]
  exact hperm

/-- Nothing happened to the keys. -/
theorem Passes.same {log log' : List (Event K R Tag Ans Out)} {mem mem' : Mem}
    (hown : O.own log' = O.own log) (hspare : O.spare mem' = O.spare mem)
    (hmarked : ∀ k, O.marked mem k → O.marked mem' k) : O.Passes log mem log' mem' :=
  .moved (by rw [hown, hspare]) hmarked

/-- The task takes a key that was free. -/
theorem Passes.taken {log log' : List (Event K R Tag Ans Out)} {mem mem' : Mem} {k : κ}
    (hown : O.own log' = k :: O.own log) (hspare : O.spare mem' = O.spare mem)
    (hfree : ¬O.marked mem k) (hmarked : ∀ k', O.marked mem k' ∨ k' = k → O.marked mem' k') :
    O.Passes log mem log' mem' := by
  refine ⟨[k], [], ?_, List.nodup_singleton k, by simpa using hfree,
    fun k' hk _ => hmarked k' (by simpa using hk)⟩
  rw [hown, hspare, List.append_nil, List.cons_append]
  exact (List.perm_append_singleton k (O.own log ++ O.spare mem)).symm

/-- The task frees a key of its own. -/
theorem Passes.freed [BEq κ] [LawfulBEq κ] {log log' : List (Event K R Tag Ans Out)}
    {mem mem' : Mem} {k : κ} (hmem : k ∈ O.own log) (hown : O.own log' = (O.own log).erase k)
    (hspare : O.spare mem' = O.spare mem)
    (hmarked : ∀ k', O.marked mem k' → k' ≠ k → O.marked mem' k') :
    O.Passes log mem log' mem' := by
  refine ⟨[], [k], ?_, List.nodup_nil, by simp,
    fun k' hk hne => hmarked k' (by simpa using hk) (by simpa using hne)⟩
  rw [hown, hspare, List.append_nil]
  have hperm := (List.perm_cons_erase hmem).symm
  calc (O.own log).erase k ++ O.spare mem ++ [k]
      _ ~ k :: ((O.own log).erase k ++ O.spare mem) := List.perm_append_singleton _ _
      _ ~ O.own log ++ O.spare mem := hperm.append_right (O.spare mem)

/-- Where nothing is done, the keys stay with the task. -/
theorem Lawful.own_passive (hO : O.Lawful sh act) {new : List (Event K R Tag Ans Out)}
    (hnew : ∀ ev ∈ new, ev.Passive) (log : List (Event K R Tag Ans Out)) :
    O.own (new ++ log) = O.own log := by
  induction new with
  | nil => rfl
  | cons ev new ih =>
      rw [List.cons_append, hO.skip, ih fun ev' hm => hnew ev' (List.mem_cons_of_mem _ hm)]
      rintro a o rfl
      exact hnew _ List.mem_cons_self

theorem split_at {α : Type} {l : List α} {i : Nat} {x : α} (h : l[i]? = some x) :
    ∃ l₁ l₂, l = l₁ ++ x :: l₂ ∧ (∀ y, l.set i y = l₁ ++ y :: l₂) ∧
    l.eraseIdx i = l₁ ++ l₂ := by
  induction l generalizing i with
  | nil => simp at h
  | cons z l ih =>
      cases i with
      | zero =>
          obtain rfl : z = x := by simpa using h
          exact ⟨[], l, rfl, fun y => rfl, rfl⟩
      | succ i =>
          obtain ⟨l₁, l₂, rfl, hset, herase⟩ := ih (by simpa using h)
          exact ⟨z :: l₁, l₂, rfl, fun y => congrArg (z :: ·) (hset y),
            congrArg (z :: ·) herase⟩

/-- The keys of one task apart from those of the others. -/
theorem all_perm {l₁ l₂ : List (Task K R Tag Ans Out Job ρ)} {t : Task K R Tag Ans Out Job ρ}
    (h : s.tasks = l₁ ++ t :: l₂) :
    O.all s ~ (l₁ ++ l₂).flatMap (fun t => O.own t.loc.log) ++
      (O.own t.loc.log ++ O.spare s.mem) := by
  simp only [all, h, List.flatMap_append, List.flatMap_cons, List.append_assoc]
  exact (List.perm_append_comm_assoc _ _ _).append_left _

/-- Two tasks have no key in common. -/
theorem Single.apart (h : O.Single s) {i j : Nat} {t u : Task K R Tag Ans Out Job ρ}
    (hi : s.tasks[i]? = some t) (hj : s.tasks[j]? = some u) {k : κ} (hk : k ∈ O.own t.loc.log)
    (hk' : k ∈ O.own u.loc.log) : i = j := by
  by_contra hne
  obtain ⟨l₁, l₂, hl, -, herase⟩ := split_at hi
  have hu : u ∈ l₁ ++ l₂ := by
    rw [← herase]
    exact List.mem_eraseIdx_iff_getElem?.2 ⟨j, Ne.symm hne, hj⟩
  have hnd := (all_perm (O := O) hl).nodup_iff.1 h.nodup
  exact List.disjoint_of_nodup_append hnd (List.mem_flatMap.2 ⟨u, hu, hk'⟩)
    (List.mem_append_left _ hk)

variable [DecidableEq T] [∀ t, DecidableEq (K t)]

namespace Single

/-- One move keeps that each key has one owner. -/
theorem move {m : Move Ans Job} (hO : O.Lawful sh act) (h : O.Single s)
    (hact : ∀ t ∈ s.tasks, ∀ a next, t.prog = .act a next → act t.loc.log a)
    (hm : s.move sh body m = some s') : O.Single s' := by
  cases Sys.move_cases hm with
  | started j hdb hmem htasks =>
      have hall : O.all s' = O.all s := by simp [all, hmem, htasks, hO.nil]
      exact ⟨hall ▸ h.nodup, by rw [hall, hmem]; exact h.marked⟩
  | dropped i t ht hdb hmem htasks =>
      obtain ⟨l₁, l₂, hl, -, herase⟩ := split_at ht
      obtain ⟨hspare, hmarked⟩ := hO.drop t.loc.log s.mem
      have hall : O.all s' = (l₁ ++ l₂).flatMap (fun t => O.own t.loc.log) ++
          O.spare s.mem := by
        rw [all, htasks, herase, hmem, hspare]
      have hperm : O.all s ~ O.own t.loc.log ++ O.all s' := by
        rw [hall]
        exact (all_perm hl).trans (List.perm_append_comm_assoc _ _ _)
      have hnd := hperm.nodup_iff.1 h.nodup
      refine ⟨hnd.of_append_right, fun k hk => ?_⟩
      rw [hmem]
      exact hmarked k (h.marked k (hperm.mem_iff.2 (List.mem_append_right _ hk)))
        fun hown => List.disjoint_of_nodup_append hnd hown hk
  | ran i c t t' ht hjob htasks hadv =>
      obtain ⟨l₁, l₂, hl, hset, -⟩ := split_at ht
      have hpass : O.Passes t.loc.log s.mem t'.loc.log s'.mem := by
        cases advance_cases hadv with
        | acted a o next hp hperf hdb hp' hlog =>
            rw [hlog]
            exact hO.pass a o _ _ _ (hact t (List.mem_of_getElem? ht) a next hp) hperf
        | looked tag hdb hmem hlog =>
            rw [hlog, hmem]
            exact .same (hO.skip _ _ (by simp)) rfl fun _ hk => hk
        | committed hmem hlog =>
            rw [hlog, hmem]
            exact .same (hO.skip _ _ (by simp)) rfl fun _ hk => hk
        | passed new hdb hmem hlog hnew =>
            rw [hlog, hmem]
            exact .same (hO.own_passive hnew _) rfl fun _ hk => hk
      obtain ⟨new, gone, hperm, hnew, hfree, hmarked⟩ := hpass
      have hall : O.all s' ++ gone ~ O.all s ++ new := by
        calc O.all s' ++ gone
            _ ~ (l₁ ++ l₂).flatMap (fun t => O.own t.loc.log) ++
                (O.own t'.loc.log ++ O.spare s'.mem) ++ gone :=
              (all_perm (htasks.trans (hset t'))).append_right gone
            _ ~ (l₁ ++ l₂).flatMap (fun t => O.own t.loc.log) ++
                (O.own t.loc.log ++ O.spare s.mem) ++ new := by
              rw [List.append_assoc, List.append_assoc _ _ new]
              exact hperm.append_left _
            _ ~ O.all s ++ new := (all_perm hl).symm.append_right new
      have hnd : (O.all s' ++ gone).Nodup := by
        refine hall.nodup_iff.2 (List.nodup_append.2 ⟨h.nodup, hnew, ?_⟩)
        rintro k hk _ hk' rfl
        exact hfree k hk' (h.marked k hk)
      refine ⟨hnd.of_append_left, fun k hk =>
        hmarked k ?_ (List.disjoint_of_nodup_append hnd hk)⟩
      rcases List.mem_append.1 (hall.mem_iff.1 (List.mem_append_left _ hk)) with hk | hk
      · exact .inl (h.marked k hk)
      · exact .inr hk

end Single

/-! ## Marks without an owner -/

/-- Only keys with an owner are marked. -/
def Owned (O : Owners K R Tag Ans Out Mem κ) (s : Sys K R Tag Ans Out Mem Job ρ) : Prop :=
  ∀ k, O.marked s.mem k → k ∈ O.all s

/-- A key that is marked after an operation is with the task or the memory then, or was marked
before and was with neither. -/
structure Tidy (O : Owners K R Tag Ans Out Mem κ) (sh : Shared K R Tag Ans Out Mem)
    (act : List (Event K R Tag Ans Out) → Act → Prop) : Prop where
  pass : ∀ a o log mem mem', act log a → sh.perform a mem = some (mem', o) →
    ∀ k, O.marked mem' k →
    k ∈ O.own (.acted a o :: log) ++ O.spare mem' ∨ O.marked mem k ∧
      k ∉ O.own log ++ O.spare mem
  drop : ∀ log mem k, O.marked (sh.abandon log mem) k → O.marked mem k ∧ k ∉ O.own log

section

omit [DecidableEq T] [∀ t, DecidableEq (K t)]

/-- A marked key that stays with the task or the memory. -/
theorem Tidy.kept {log log' : List (Event K R Tag Ans Out)} {mem mem' : Mem} {k : κ}
    (hkeep : k ∈ O.own log ++ O.spare mem → k ∈ O.own log' ++ O.spare mem')
    (hk : O.marked mem k) :
    k ∈ O.own log' ++ O.spare mem' ∨ O.marked mem k ∧ k ∉ O.own log ++ O.spare mem := by
  by_cases hin : k ∈ O.own log ++ O.spare mem
  · exact .inl (hkeep hin)
  · exact .inr ⟨hk, hin⟩

end

/-- One move keeps that only keys with an owner are marked. -/
theorem Owned.move {m : Move Ans Job} (hO : O.Lawful sh act) (htidy : O.Tidy sh act) (h : O.Owned s)
    (hact : ∀ t ∈ s.tasks, ∀ a next, t.prog = .act a next → act t.loc.log a)
    (hm : s.move sh body m = some s') : O.Owned s' := by
  intro k hk
  cases Sys.move_cases hm with
  | started j hdb hmem htasks =>
      have hall : O.all s' = O.all s := by simp [all, hmem, htasks, hO.nil]
      rw [hmem] at hk
      rw [hall]
      exact h k hk
  | dropped i t ht hdb hmem htasks =>
      obtain ⟨l₁, l₂, hl, -, herase⟩ := split_at ht
      rw [hmem] at hk
      obtain ⟨hmarked, hno⟩ := htidy.drop _ _ k hk
      have hall : O.all s' = (l₁ ++ l₂).flatMap (fun t => O.own t.loc.log) ++
          O.spare s.mem := by
        rw [all, htasks, herase, hmem, (hO.drop t.loc.log s.mem).1]
      have hmem' := (all_perm hl).mem_iff.1 (h k hmarked)
      rw [hall]
      simp only [List.mem_append, hno, false_or] at hmem' ⊢
      exact hmem'
  | ran i c t t' ht hjob htasks hadv =>
      obtain ⟨l₁, l₂, hl, hset, -⟩ := split_at ht
      have hsame : O.own t'.loc.log = O.own t.loc.log → s'.mem = s.mem →
          k ∈ O.own t'.loc.log ++ O.spare s'.mem ∨ O.marked s.mem k ∧
            k ∉ O.own t.loc.log ++ O.spare s.mem := by
        intro hown hmem
        rw [hmem] at hk ⊢
        exact Tidy.kept (by rw [hown]; exact id) hk
      have hpass : k ∈ O.own t'.loc.log ++ O.spare s'.mem ∨
          O.marked s.mem k ∧ k ∉ O.own t.loc.log ++ O.spare s.mem := by
        cases advance_cases hadv with
        | acted a o next hp hperf hdb hp' hlog =>
            rw [hlog]
            exact htidy.pass a o _ _ _ (hact t (List.mem_of_getElem? ht) a next hp) hperf k hk
        | looked tag hdb hmem hlog => exact hsame (by rw [hlog, hO.skip _ _ (by simp)]) hmem
        | committed hmem hlog => exact hsame (by rw [hlog, hO.skip _ _ (by simp)]) hmem
        | passed new hdb hmem hlog hnew => exact hsame (by rw [hlog, hO.own_passive hnew]) hmem
      refine (all_perm (htasks.trans (hset t'))).mem_iff.2 ?_
      rcases hpass with hin | ⟨hmarked, hno⟩
      · exact List.mem_append_right _ hin
      · have hmem' := (all_perm hl).mem_iff.1 (h k hmarked)
        rcases List.mem_append.1 hmem' with hother | hown
        · exact List.mem_append_left _ hother
        · exact absurd hown hno

end Owners

/-- What a sound task does next to the shared memory is promised. -/
theorem Sound.act [DecidableEq T] [∀ t, DecidableEq (K t)] {P : Protocol K R}
    {C : Tag → Store K R → Prop} {G : Job → Promise K R Tag Ans Out}
    {Q : Job → ρ → Local K R Tag Ans Out → Store K R → Prop}
    {s : Sys K R Tag Ans Out Mem Job ρ} (h : Sound P C G Q s) {t : Task K R Tag Ans Out Job ρ}
    (ht : t ∈ s.tasks) {a : Act} {next : Out a → Prog K R Tag Ans Out ρ}
    (hp : t.prog = .act a next) : (G t.job).act t.loc.log a := by
  have hs := h.safe t ht
  rw [hp] at hs
  exact (hs s.db (.refl h.inv)).1

end ReadCommitted
