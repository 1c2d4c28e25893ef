import Dd2Server.ReadCommitted.Moves
import Dd2Server.ReadCommitted.Transaction
import Mathlib.Order.Bounds.Basic

/-!
# Best scores

A table of best scores gives each key at most one score.  Tasks report scores; a commit leaves the
table alone or puts the reported score where nothing higher was.  When every task that is done left
the table at its score or above, the table holds the maxima (`Scoring.isGreatest`).
-/

namespace ReadCommitted

abbrev Scores (κ α : Type) := κ → Option α

namespace Scores

variable {κ α : Type} [Preorder α] {f g h : Scores κ α} {k : κ} {x y : α}

/-- Scores stay, the same or higher. -/
def Raised (f g : Scores κ α) : Prop := ∀ k x, f k = some x → ∃ y, g k = some y ∧ x ≤ y

/-- There is a score at that height or higher. -/
def AtLeast (k : κ) (x : α) (f : Scores κ α) : Prop := ∃ y, f k = some y ∧ x ≤ y

/-- One score was put where nothing higher was. -/
structure Put (k : κ) (x : α) (f g : Scores κ α) : Prop where
  below : ∀ y, f k = some y → y ≤ x
  new : g k = some x
  others : ∀ k', k' ≠ k → g k' = f k'

theorem Raised.refl (f : Scores κ α) : Raised f f := fun _ x hx => ⟨x, hx, le_refl x⟩

theorem Raised.of_eq (he : g = f) : Raised f g := by
  subst he
  exact .refl g

theorem Raised.trans (hfg : Raised f g) (hgh : Raised g h) : Raised f h := by
  intro k x hx
  obtain ⟨y, hy, hxy⟩ := hfg k x hx
  obtain ⟨z, hz, hyz⟩ := hgh k y hy
  exact ⟨z, hz, le_trans hxy hyz⟩

theorem AtLeast.raised (hl : AtLeast k x f) (hr : Raised f g) : AtLeast k x g := by
  obtain ⟨y, hy, hxy⟩ := hl
  obtain ⟨z, hz, hyz⟩ := hr k y hy
  exact ⟨z, hz, le_trans hxy hyz⟩

theorem AtLeast.mono (hl : AtLeast k y f) (hxy : x ≤ y) : AtLeast k x f := by
  obtain ⟨z, hz, hyz⟩ := hl
  exact ⟨z, hz, le_trans hxy hyz⟩

theorem Put.raised (hp : Put k x f g) : Raised f g := by
  intro k' y hy
  by_cases hk : k' = k
  · subst hk
    exact ⟨x, hp.new, hp.below y hy⟩
  · exact ⟨y, (hp.others k' hk).trans hy, le_refl y⟩

theorem Put.atLeast (hp : Put k x f g) : AtLeast k x g := ⟨x, hp.new, le_refl x⟩

end Scores

/-! ## Tasks that report scores -/

/-- Where the scores are stored, and what a job reports. -/
structure Scoring {T : Type} (K R : T → Type) (Job κ α : Type) where
  read : Store K R → Scores κ α
  key : Job → κ
  score : Job → α
  accepts : Job → Prop

namespace Scoring

variable {T : Type} {K R : T → Type} [DecidableEq T] [∀ t, DecidableEq (K t)]
  {Tag Ask Act Mem Job ρ κ α : Type} {Ans : Ask → Type} {Out : Act → Type} [PartialOrder α]
  {sh : Shared K R Tag Ans Out Mem} {body : Job → Prog K R Tag Ans Out ρ}
  {P : Protocol K R} {C : Tag → Store K R → Prop}
  {Q : Job → ρ → Local K R Tag Ans Out → Store K R → Prop}
  {s₀ s s' : Sys K R Tag Ans Out Mem Job ρ} (sc : Scoring K R Job κ α)

/-- The commit left the scores alone. -/
def Same (pre post : Store K R) : Prop := sc.read post = sc.read pre

/-- What a job promises at its commits. -/
def Promised (j : Job) (pre post : Store K R) : Prop :=
  sc.Same pre post ∨
    sc.accepts j ∧ Scores.Put (sc.key j) (sc.score j) (sc.read pre) (sc.read post)

/-- The score that was there before, and those of the tasks that are done. -/
def reported (db₀ : Store K R) (s : Sys K R Tag Ans Out Mem Job ρ)
    (Done : Task K R Tag Ans Out Job ρ → Prop) (k : κ) : Set α :=
  {x | sc.read db₀ k = some x ∨
    ∃ t ∈ s.tasks, sc.key t.job = k ∧ sc.accepts t.job ∧ Done t ∧ sc.score t.job = x}

/-- The score was there before, or a task that is not dropped has put it. -/
def Explained (db₀ : Store K R) (s : Sys K R Tag Ans Out Mem Job ρ) (k : κ) (x : α) : Prop :=
  sc.read db₀ k = some x ∨ ∃ t ∈ s.tasks, sc.key t.job = k ∧ sc.accepts t.job ∧
    sc.score t.job = x ∧
    ¬Commits sc.Same t.loc.log

variable {sc} {db₀ : Store K R} {k : κ} {x : α}

section

omit [DecidableEq T] [∀ t, DecidableEq (K t)]

theorem Promised.raised {j : Job} {pre post : Store K R} (h : sc.Promised j pre post) :
    Scores.Raised (sc.read pre) (sc.read post) := by
  rcases h with he | ⟨-, hput⟩
  · exact .of_eq he
  · exact hput.raised

end

section

omit [PartialOrder α]

theorem Explained.moved {m : Move Ans Job} (h : sc.Explained db₀ s k x)
    (hmv : s.Moved sh body s' m) (hm : m.Keeps) : sc.Explained db₀ s' k x := by
  rcases h with h | ⟨t, ht, hk, hacc, hx, hc⟩
  · exact .inl h
  · obtain ⟨t', ht', hjob, new, hlog⟩ := hmv.lasts hm ht
    refine .inr ⟨t', ht', by rw [hjob, hk], by rwa [hjob], by rw [hjob, hx], fun hc' => hc ?_⟩
    intro pre post hmem
    exact hc' pre post (hlog ▸ List.mem_append_right new hmem)

end

section

variable {ok : Sys K R Tag Ans Out Mem Job ρ → Move Ans Job → Prop}
  (hok : ∀ s m, ok s m → m.Keeps ∧ s.Admits C m)
  (hbody : ∀ j db, P.Inv db →
    Safe P C { commit := fun _ => sc.Promised j } (Q j) (body j) {} db)

include hok hbody

/-- A move puts at most the score of the task that commits. -/
theorem explained_moved {m : Move Ans Job}
    (hs : Sound P C (fun j => { commit := fun _ => sc.Promised j }) Q s) (hm : ok s m)
    (hmove : s.move sh body m = some s') (ih : ∀ k x, sc.read s.db k = some x →
      sc.Explained db₀ s k x) :
    ∀ k x, sc.read s'.db k = some x → sc.Explained db₀ s' k x := by
  obtain ⟨hkeeps, hadm⟩ := hok s m hm
  have hmv := Sys.move_cases hmove
  by_cases hsame : sc.Same s.db s'.db
  · intro k x hx
    have hx' : sc.read s.db k = some x := by rwa [← show sc.read s'.db = sc.read s.db from hsame]
    exact (ih k x hx').moved hmv hkeeps
  · rcases (hs.move (fun j _ => hbody j) hadm hmove).2 with he |
      ⟨-, i, t, t', ⟨-, ht', hjob, hlog⟩, hG⟩
    · exact absurd (show sc.read s'.db = sc.read s.db by rw [he]) hsame
    · rcases hG with hG | ⟨hacc, hput⟩
      · exact absurd hG hsame
      · intro k x hx
        by_cases hk : k = sc.key t.job
        · subst hk
          obtain rfl : sc.score t.job = x := Option.some.inj (hput.new.symm.trans hx)
          refine .inr ⟨t', List.mem_of_getElem? ht', by rw [hjob], by rwa [hjob], by rw [hjob],
            ?_⟩
          intro hc
          refine hsame (hc s.db s'.db ?_)
          rw [hlog]
          exact List.mem_cons_self ..
        · exact (ih k x ((hput.others k hk).symm.trans hx)).moved hmv hkeeps

theorem explained (hinv : P.Inv s₀.db) (htasks : s₀.tasks = [])
    (h : ReachBy sh body ok s₀ s) :
    ∀ k x, sc.read s.db k = some x → sc.Explained s₀.db s k x := by
  induction h with
  | init => exact fun k x hx => .inl hx
  | step hs hm hmove ih =>
      have hsound := (hs.reach fun s m h => (hok s m h).2).sound hbody hinv htasks
      exact explained_moved hok hbody hsound hm hmove ih

/-- Where done tasks have left their score or a higher one, and only done tasks have put any, the
stored scores are the maxima. -/
theorem isGreatest {Done : Task K R Tag Ans Out Job ρ → Prop} (hinv : P.Inv s₀.db)
    (htasks : s₀.tasks = [])
    (hstay : ∀ a b, P.stay a b → Scores.Raised (sc.read a) (sc.read b))
    (h : ReachBy sh body ok s₀ s) (hdone : ∀ t ∈ s.tasks, Done t → sc.accepts t.job →
      Scores.AtLeast (sc.key t.job) (sc.score t.job) (sc.read s.db))
    (hput : ∀ t ∈ s.tasks, ¬Commits sc.Same t.loc.log → Done t) :
    sc.read s.db k = some x ↔ IsGreatest (sc.reported s₀.db s Done k) x := by
  have hreach : Reach sh body C s₀ s := h.reach fun s m hm => (hok s m hm).2
  have hraised : Scores.Raised (sc.read s₀.db) (sc.read s.db) := by
    have hsound : Sound P C (fun j => { commit := fun _ => sc.Promised j }) Q s₀ :=
      .fresh hinv (by simp [htasks])
    exact hstay _ _ (hreach.stays hbody hsound).2
  have hbound : ∀ y ∈ sc.reported s₀.db s Done k, Scores.AtLeast k y (sc.read s.db) := by
    rintro y (hy | ⟨t, ht, rfl, hacc, hd, rfl⟩)
    · exact hraised k y hy
    · exact hdone t ht hd hacc
  have hmem : ∀ y, sc.read s.db k = some y → y ∈ sc.reported s₀.db s Done k := by
    intro y hy
    rcases explained hok hbody hinv htasks h k y hy with h₀ | ⟨t, ht, hk, hacc, hx, hc⟩
    · exact .inl h₀
    · exact .inr ⟨t, ht, hk, hacc, hput t ht hc, hx⟩
  constructor
  · intro hx
    refine ⟨hmem x hx, fun y hy => ?_⟩
    obtain ⟨z, hz, hyz⟩ := hbound y hy
    obtain rfl : x = z := Option.some.inj (hx.symm.trans hz)
    exact hyz
  · rintro ⟨hx, hub⟩
    obtain ⟨y, hy, hxy⟩ := hbound x hx
    obtain rfl : y = x := le_antisymm (hub (hmem y hy)) hxy
    exact hy

end

end Scoring

end ReadCommitted
