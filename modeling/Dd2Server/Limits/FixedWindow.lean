import Mathlib.Data.List.Perm.Subperm
import Mathlib.Order.Basic

/-!
# Events counted in fixed windows

A counter admits up to `limit` events in a window, and the first event that comes at least `width`
after the start of a window starts the next one.  `Windowed` says how the events so far lie in the
windows; from it no interval of length `width`, wherever it starts, holds more than `2 * limit`.
-/

namespace Limits

/-- Every interval of this width has at most so many of the times. -/
def Sparse (width bound : Nat) (times : List Nat) : Prop :=
  ∀ t, times.countP (fun x => t ≤ x ∧ x < t + width) ≤ bound

/-- The times of the events, the latest first: those of the present window, those of the window
before it, and those of the windows before that. -/
structure Parts (width limit started count now : Nat) (cur prev older : List Nat) : Prop where
  present : cur.length = count
  last : prev.length ≤ limit
  before : ∀ x ∈ prev, x ≤ started
  gone : ∀ x ∈ older, x + width ≤ started ∧ started ≤ now

/-- The events so far of a counter whose window started at `started` and has `count` of them. -/
structure Windowed (width limit started count now : Nat) (times : List Nat) : Prop where
  parts : ∃ cur prev older, times = cur ++ prev ++ older ∧
    Parts width limit started count now cur prev older
  count_le : count ≤ limit
  past : ∀ x ∈ times, x ≤ now
  sparse : Sparse width (2 * limit) times

variable {width limit started count now now' bound : Nat} {times : List Nat}

theorem Sparse.nil : Sparse width bound [] := fun _ => Nat.zero_le bound

/-- No time is in an empty interval. -/
theorem Sparse.zero : Sparse 0 bound times := by
  intro t
  have hnone : times.countP (fun x => t ≤ x ∧ x < t + 0) = 0 := by
    apply List.countP_eq_zero.2
    intro x _ hx
    simp only [decide_eq_true_eq] at hx
    omega
  omega

/-- Two intervals next to each other. -/
theorem Sparse.double (h : Sparse width bound times) (t : Nat) :
    times.countP (fun x => t ≤ x ∧ x < t + 2 * width) ≤ 2 * bound := by
  have hsplit : times.countP (fun x => t ≤ x ∧ x < t + 2 * width) ≤
      times.countP (fun x => t ≤ x ∧ x < t + width) +
        times.countP (fun x => t + width ≤ x ∧ x < t + width + width) := by
    clear h
    induction times with
    | nil => exact Nat.zero_le _
    | cons x times ih =>
        simp only [List.countP_cons, decide_eq_true_eq]
        split <;> split <;> split <;> omega
  have h₁ := h t
  have h₂ := h (t + width)
  omega

/-- Fewer events are sparser. -/
theorem Sparse.sublist {times' : List Nat} (h : Sparse width bound times)
    (hs : times'.Sublist times) : Sparse width bound times' :=
  fun t => Nat.le_trans hs.countP_le (h t)

/-- The times of the events of a key. -/
def timesOf {κ : Type} [DecidableEq κ] (k : κ) (events : List (κ × Nat)) : List Nat :=
  (events.filter fun e => e.1 = k).map Prod.snd

section

variable {κ : Type} [DecidableEq κ] {k k' : κ} {x : Nat} {events : List (κ × Nat)}

@[simp] theorem timesOf_nil (k : κ) : timesOf k [] = [] := rfl

@[simp] theorem timesOf_self (k : κ) (x : Nat) (events : List (κ × Nat)) :
    timesOf k ((k, x) :: events) = x :: timesOf k events := by
  simp [timesOf]

theorem timesOf_of_ne (h : k' ≠ k) (x : Nat) (events : List (κ × Nat)) :
    timesOf k' ((k, x) :: events) = timesOf k' events := by
  simp [timesOf, Ne.symm h]

theorem mem_timesOf : x ∈ timesOf k events ↔ (k, x) ∈ events := by
  simp [timesOf]

omit [DecidableEq κ] in
/-- Each of the keys has an event, so there are as many events. -/
theorem length_le_countP {keys : List κ} {p : Nat → Bool} (hnd : keys.Nodup)
    (h : ∀ k ∈ keys, ∃ x, (k, x) ∈ events ∧ p x = true) :
    keys.length ≤ (events.map Prod.snd).countP p := by
  have hsub : keys ⊆ (events.filter fun e => p e.2).map Prod.fst := by
    intro k hk
    obtain ⟨x, hx, hp⟩ := h k hk
    exact List.mem_map.2 ⟨(k, x), List.mem_filter.2 ⟨hx, hp⟩, rfl⟩
  have hle := (List.subperm_of_subset hnd hsub).length_le
  rw [List.length_map, ← List.countP_eq_length_filter] at hle
  rw [List.countP_map]
  exact hle

end

/-! ## A counter over time -/

/-- A counter that starts, or starts again after all events are over. -/
theorem Windowed.fresh (hpast : ∀ x ∈ times, x + width ≤ now)
    (h : Sparse width (2 * limit) times) : Windowed width limit now 0 now times where
  parts := ⟨[], [], times, rfl, rfl, Nat.zero_le limit, by simp,
    fun x hx => ⟨hpast x hx, Nat.le_refl now⟩⟩
  count_le := Nat.zero_le limit
  past x hx := by
    have hx' := hpast x hx
    omega
  sparse := h

/-- A counter before its first event. -/
theorem Windowed.start (width limit started now : Nat) : Windowed width limit started 0 now [] where
  parts := ⟨[], [], [], rfl, rfl, Nat.zero_le limit, by simp, by simp⟩
  count_le := Nat.zero_le limit
  past := by simp
  sparse := .nil

/-- Time passes. -/
theorem Windowed.wait (h : Windowed width limit started count now times) (hle : now ≤ now') :
    Windowed width limit started count now' times where
  parts := by
    obtain ⟨cur, prev, older, htimes, hp⟩ := h.parts
    refine ⟨cur, prev, older, htimes, hp.present, hp.last, hp.before, fun x hx => ?_⟩
    obtain ⟨hgone, hstart⟩ := hp.gone x hx
    omega
  count_le := h.count_le
  past x hx := Nat.le_trans (h.past x hx) hle
  sparse := h.sparse

/-- The window is over. -/
theorem Windowed.restart (h : Windowed width limit started count now times)
    (hover : width ≤ now - started) : Windowed width limit now 0 now times where
  parts := by
    obtain ⟨cur, prev, older, rfl, hp⟩ := h.parts
    refine ⟨[], cur, prev ++ older, by simp, rfl, ?_, ?_, fun x hx => ⟨?_, Nat.le_refl now⟩⟩
    · have hcur := hp.present
      have hcount := h.count_le
      omega
    · exact fun x hx => h.past x (by simp [hx])
    · have hpast : x ≤ now := by
        apply h.past
        simp only [List.append_assoc]
        exact List.mem_append_right cur hx
      rcases List.mem_append.1 hx with hx | hx
      · have hbefore := hp.before x hx
        omega
      · have hgone := (hp.gone x hx).1
        omega
  count_le := Nat.zero_le limit
  past := h.past
  sparse := h.sparse

/-- An event is admitted into the window. -/
theorem Windowed.counted (h : Windowed width limit started count now times) (hlt : count < limit) :
    Windowed width limit started (count + 1) now (now :: times) where
  parts := by
    obtain ⟨cur, prev, older, rfl, hp⟩ := h.parts
    refine ⟨now :: cur, prev, older, rfl, ?_, hp.last, hp.before, hp.gone⟩
    rw [List.length_cons, hp.present]
  count_le := hlt
  past x hx := by
    rcases List.mem_cons.1 hx with rfl | hx
    · exact Nat.le_refl x
    · exact h.past x hx
  sparse t := by
    rw [List.countP_cons]
    split
    case isFalse => exact h.sparse t
    case isTrue hin =>
      -- the interval has the new event, so it has none of the windows before the last two
      simp only [decide_eq_true_eq] at hin
      obtain ⟨cur, prev, older, rfl, hp⟩ := h.parts
      have hold : older.countP (fun x => t ≤ x ∧ x < t + width) = 0 := by
        apply List.countP_eq_zero.2
        intro x hx hx'
        simp only [decide_eq_true_eq] at hx'
        have hgone := hp.gone x hx
        omega
      rw [List.countP_append, List.countP_append, hold]
      have hcur : cur.countP (fun x => t ≤ x ∧ x < t + width) ≤ cur.length :=
        List.countP_le_length
      have hprev : prev.countP (fun x => t ≤ x ∧ x < t + width) ≤ prev.length :=
        List.countP_le_length
      have hlen := hp.present
      have hlen' := hp.last
      omega

end Limits
