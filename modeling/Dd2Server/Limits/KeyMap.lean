import Mathlib.Data.List.Nodup

/-!
# Finite maps

A `KeyMap` is what a hash map holds: entries whose keys differ from each other.  Their order is of
no account: the lemmas speak of `get` and `size` only.
-/

namespace Limits

/-- Finitely many keys with a value each. -/
structure KeyMap (κ υ : Type) where
  entries : List (κ × υ)
  nodup : (entries.map Prod.fst).Nodup

namespace KeyMap

variable {κ υ : Type}

/-- The map without keys. -/
def empty : KeyMap κ υ := ⟨[], List.nodup_nil⟩

/-- How many keys there are. -/
def size (t : KeyMap κ υ) : Nat := t.entries.length

/-- The entries that `p` picks. -/
def retain (t : KeyMap κ υ) (p : κ → υ → Bool) : KeyMap κ υ where
  entries := t.entries.filter fun e => p e.1 e.2
  nodup := t.nodup.sublist (List.filter_sublist.map Prod.fst)

variable [DecidableEq κ]

/-- The value of a key. -/
def get (t : KeyMap κ υ) (k : κ) : Option υ := (t.entries.find? fun e => e.1 = k).map Prod.snd

/-- The key has this value from now on. -/
def insert (t : KeyMap κ υ) (k : κ) (v : υ) : KeyMap κ υ where
  entries := (k, v) :: t.entries.filter fun e => e.1 ≠ k
  nodup := by
    rw [List.map_cons, List.nodup_cons]
    refine ⟨fun hm => ?_, t.nodup.sublist (List.filter_sublist.map Prod.fst)⟩
    obtain ⟨e, he, hk⟩ := List.mem_map.1 hm
    simp [hk] at he

theorem get_eq_some_iff {t : KeyMap κ υ} {k : κ} {v : υ} :
    t.get k = some v ↔ (k, v) ∈ t.entries := by
  obtain ⟨entries, hnodup⟩ := t
  show (entries.find? fun e => e.1 = k).map Prod.snd = some v ↔ (k, v) ∈ entries
  induction entries with
  | nil => simp
  | cons e entries ih =>
      obtain ⟨k', v'⟩ := e
      obtain ⟨hnew, hrest⟩ := List.nodup_cons.1 hnodup
      rw [List.find?_cons]
      rcases eq_or_ne k' k with rfl | hne
      · have hnot : (k', v) ∉ entries := fun hm => hnew (List.mem_map.2 ⟨(k', v), hm, rfl⟩)
        simp [hnot, eq_comm]
      · simp [hne, hne.symm, ih hrest]

theorem get_eq_none_iff {t : KeyMap κ υ} {k : κ} :
    t.get k = none ↔ k ∉ t.entries.map Prod.fst := by
  rw [← not_iff_not, not_not, ← ne_eq, Option.ne_none_iff_exists']
  simp only [get_eq_some_iff, List.mem_map, Prod.exists, exists_and_right, exists_eq_right]

@[simp] theorem get_empty (k : κ) : (empty : KeyMap κ υ).get k = none := rfl

@[simp] theorem get_insert_self (t : KeyMap κ υ) (k : κ) (v : υ) :
    (t.insert k v).get k = some v :=
  get_eq_some_iff.2 List.mem_cons_self

theorem get_insert_of_ne (t : KeyMap κ υ) {k k' : κ} (v : υ) (h : k' ≠ k) :
    (t.insert k v).get k' = t.get k' := by
  refine Option.ext fun v' => ?_
  rw [get_eq_some_iff, get_eq_some_iff]
  simp [insert, h]

theorem get_retain {t : KeyMap κ υ} {p : κ → υ → Bool} {k : κ} {v : υ} :
    (t.retain p).get k = some v ↔ t.get k = some v ∧ p k v = true := by
  rw [get_eq_some_iff, get_eq_some_iff]
  simp [retain]

theorem retain_eq_empty {t : KeyMap κ υ} {p : κ → υ → Bool}
    (h : ∀ k v, t.get k = some v → p k v = false) : t.retain p = empty := by
  have hnil : t.entries.filter (fun e => p e.1 e.2) = [] := by
    rw [List.filter_eq_nil_iff]
    intro e he hp
    rw [h e.1 e.2 (get_eq_some_iff.2 he)] at hp
    cases hp
  simp only [retain, empty, hnil]

/-- A key that was not there takes one more entry. -/
theorem size_insert_new {t : KeyMap κ υ} {k : κ} (v : υ) (h : t.get k = none) :
    (t.insert k v).size = t.size + 1 := by
  have hall : t.entries.filter (fun e => e.1 ≠ k) = t.entries := by
    rw [List.filter_eq_self]
    intro e he
    have hne : e.1 ≠ k := fun hk => get_eq_none_iff.1 h (hk ▸ List.mem_map_of_mem he)
    simpa using hne
  show ((k, v) :: t.entries.filter fun e => e.1 ≠ k).length = _
  rw [hall]
  rfl

/-- A key that was there keeps the size. -/
theorem size_insert_old {t : KeyMap κ υ} {k : κ} {v₀ : υ} (v : υ) (h : t.get k = some v₀) :
    (t.insert k v).size = t.size := by
  have hone : (t.entries.filter fun e => e.1 = k).length = 1 := by
    obtain ⟨entries, hnodup⟩ := t
    have hmem := get_eq_some_iff.1 h
    clear h
    show (entries.filter fun e => e.1 = k).length = 1
    induction entries with
    | nil => cases hmem
    | cons e entries ih =>
        obtain ⟨hnew, hrest⟩ := List.nodup_cons.1 hnodup
        rcases eq_or_ne e.1 k with rfl | hne
        · have hnone : entries.filter (fun e' => e'.1 = e.1) = [] := by
            rw [List.filter_eq_nil_iff]
            intro e' he'
            have hne : e'.1 ≠ e.1 := fun hk => hnew (hk ▸ List.mem_map_of_mem he')
            simpa using hne
          simp [hnone]
        · have htail : (k, v₀) ∈ entries := by
            rcases List.mem_cons.1 hmem with rfl | htail
            · exact absurd rfl hne
            · exact htail
          rw [List.filter_cons_of_neg (by simpa using hne)]
          exact ih hrest htail
  have hsplit := t.entries.length_eq_length_filter_add fun e => decide (e.1 = k)
  show ((k, v) :: t.entries.filter fun e => e.1 ≠ k).length = t.entries.length
  rw [List.length_cons]
  simp only [ne_eq, decide_not]
  omega

theorem size_insert_le (t : KeyMap κ υ) (k : κ) (v : υ) : (t.insert k v).size ≤ t.size + 1 :=
  Nat.succ_le_succ (List.length_filter_le _ _)

theorem size_pos {t : KeyMap κ υ} {k : κ} {v : υ} (h : t.get k = some v) : 0 < t.size :=
  List.length_pos_of_mem (get_eq_some_iff.1 h)

end KeyMap

end Limits
