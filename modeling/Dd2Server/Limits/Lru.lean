import Mathlib.Data.List.Nodup
import Mathlib.Order.Basic

/-!
# Caches that forget the entry unused for longest

An `LruCache` has room for `cap` keys.  Its entries stand in the order of their last use, the latest
first.  A new key in a full cache takes the place of the last entry.
-/

namespace Limits

/-- A cache with room for `cap` keys, the entry used last first. -/
structure LruCache (κ υ : Type) where
  cap : Nat
  entries : List (κ × υ)
  cap_pos : 0 < cap
  nodup : (entries.map Prod.fst).Nodup
  length_le : entries.length ≤ cap

namespace LruCache

variable {κ υ : Type} [DecidableEq κ]

/-- A cache of the size that was asked for has room for a key. -/
theorem room (capacity : Nat) : 0 < max capacity 1 := by omega

/-- The cache before anything is put into it. -/
def empty (cap : Nat) (h : 0 < cap) : LruCache κ υ :=
  ⟨cap, [], h, List.nodup_nil, Nat.zero_le cap⟩

/-- The entries of the other keys. -/
def others (c : LruCache κ υ) (k : κ) : List (κ × υ) := c.entries.filter fun e => e.1 ≠ k

/-- The value of a key, whose place stays. -/
def peek (c : LruCache κ υ) (k : κ) : Option υ :=
  (c.entries.find? fun e => e.1 = k).map Prod.snd

theorem mem_others {c : LruCache κ υ} {k : κ} {e : κ × υ} :
    e ∈ c.others k ↔ e ∈ c.entries ∧ e.1 ≠ k := by
  simp [others]

theorem others_nodup (c : LruCache κ υ) (k : κ) : ((c.others k).map Prod.fst).Nodup :=
  c.nodup.sublist (List.filter_sublist.map Prod.fst)

theorem others_length_le (c : LruCache κ υ) (k : κ) : (c.others k).length ≤ c.entries.length :=
  List.length_filter_le _ _

/-- The key has this value from now on, and was used last. -/
def put (c : LruCache κ υ) (k : κ) (v : υ) : LruCache κ υ where
  cap := c.cap
  entries := ((k, v) :: c.others k).take c.cap
  cap_pos := c.cap_pos
  nodup := by
    apply List.Nodup.sublist ((List.take_sublist _ _).map Prod.fst)
    rw [List.map_cons, List.nodup_cons]
    refine ⟨fun hm => ?_, c.others_nodup k⟩
    obtain ⟨e, he, hk⟩ := List.mem_map.1 hm
    exact (mem_others.1 he).2 hk
  length_le := by
    rw [List.length_take]
    omega

/-- The value of a key, which was used last if it is there. -/
def get (c : LruCache κ υ) (k : κ) : LruCache κ υ × Option υ :=
  match c.peek k with
  | none => (c, none)
  | some v => (c.put k v, some v)

/-- The key is gone. -/
def pop (c : LruCache κ υ) (k : κ) : LruCache κ υ where
  cap := c.cap
  entries := c.others k
  cap_pos := c.cap_pos
  nodup := c.others_nodup k
  length_le := Nat.le_trans (c.others_length_le k) c.length_le

@[simp] theorem get_value (c : LruCache κ υ) (k : κ) : (c.get k).2 = c.peek k := by
  rw [get]
  split
  case h_1 h => exact h.symm
  case h_2 v h => exact h.symm

variable {c : LruCache κ υ} {k k' : κ} {v v' : υ}

/-- The cache has what its entries say. -/
theorem peek_eq_some : c.peek k = some v ↔ (k, v) ∈ c.entries := by
  rw [peek, Option.map_eq_some_iff]
  constructor
  · rintro ⟨e, he, rfl⟩
    have hk : e.1 = k := by simpa using List.find?_some he
    rw [← hk]
    exact List.mem_of_find?_eq_some he
  · intro hm
    cases he : c.entries.find? fun e => e.1 = k with
    | none =>
        have hne := List.find?_eq_none.1 he (k, v) hm
        simp at hne
    | some e =>
        have hk : e.1 = k := by simpa using List.find?_some he
        have heq : e = (k, v) :=
          List.inj_on_of_nodup_map c.nodup (List.mem_of_find?_eq_some he) hm hk
        exact ⟨e, rfl, by rw [heq]⟩

theorem peek_eq_none : c.peek k = none ↔ ∀ v, (k, v) ∉ c.entries := by
  constructor
  · intro h v hm
    rw [peek_eq_some.2 hm] at h
    cases h
  · intro h
    cases hp : c.peek k with
    | none => rfl
    | some v => exact absurd (peek_eq_some.1 hp) (h v)

theorem put_entries (c : LruCache κ υ) (k : κ) (v : υ) :
    (c.put k v).entries = (k, v) :: (c.others k).take (c.cap - 1) := by
  show ((k, v) :: c.others k).take c.cap = _
  obtain ⟨n, hn⟩ := Nat.exists_eq_add_one.2 c.cap_pos
  rw [hn]
  rfl

@[simp] theorem peek_put_self (c : LruCache κ υ) (k : κ) (v : υ) :
    (c.put k v).peek k = some v := by
  rw [peek_eq_some, put_entries]
  exact List.mem_cons_self

/-- What is there after a `put` besides its key was there before. -/
theorem peek_of_put (hk : k' ≠ k) (h : (c.put k v).peek k' = some v') : c.peek k' = some v' := by
  rw [peek_eq_some, put_entries] at h
  rcases List.mem_cons.1 h with he | hm
  · exact absurd (congrArg Prod.fst he) hk
  · exact peek_eq_some.2 (mem_others.1 (List.mem_of_mem_take hm)).1

/-- A key that is there keeps the others. -/
theorem others_length_of_peek (h : c.peek k = some v) : (c.others k).length < c.entries.length := by
  apply List.length_filter_lt_length_iff_exists.2
  exact ⟨(k, v), peek_eq_some.1 h, by simp⟩

/-- Nothing is forgotten while there is room, or when the key was there. -/
theorem put_entries_of_room (h : c.entries.length < c.cap ∨ (c.peek k).isSome) :
    (c.put k v).entries = (k, v) :: c.others k := by
  rw [put_entries, List.take_of_length_le]
  have hle := c.others_length_le k
  have hcap := c.length_le
  rcases h with h | h
  · omega
  · obtain ⟨w, hw⟩ := Option.isSome_iff_exists.1 h
    have hlt := others_length_of_peek hw
    omega

/-- What a `put` forgets was the last entry of a full cache. -/
theorem forgotten_last (hk : k' ≠ k) (h : c.peek k' = some v') (h' : (c.put k v).peek k' = none) :
    c.entries.length = c.cap ∧ c.peek k = none ∧
    ∃ older, c.entries = older ++ [(k', v')] := by
  have hroom : ¬(c.entries.length < c.cap ∨ (c.peek k).isSome) := by
    intro hroom
    refine peek_eq_none.1 h' v' ?_
    rw [put_entries_of_room hroom]
    exact List.mem_cons_of_mem _ (mem_others.2 ⟨peek_eq_some.1 h, hk⟩)
  obtain ⟨hfull, hnone⟩ := not_or.1 hroom
  have hnone' : c.peek k = none := by simpa using hnone
  have hlen : c.entries.length = c.cap := Nat.le_antisymm c.length_le (Nat.not_lt.1 hfull)
  refine ⟨hlen, hnone', ?_⟩
  have hothers : c.others k = c.entries := by
    apply List.filter_eq_self.2
    rintro ⟨k₀, v₀⟩ hm
    have hne : k₀ ≠ k := by
      rintro rfl
      exact peek_eq_none.1 hnone' v₀ hm
    simpa using hne
  have hpos := c.cap_pos
  have hnil : c.entries ≠ [] := by
    rintro he
    rw [he, List.length_nil] at hlen
    omega
  have hsplit := (List.dropLast_append_getLast hnil).symm
  have hmem := peek_eq_some.1 h
  rw [hsplit] at hmem
  rcases List.mem_append.1 hmem with hm | hm
  · have hput : (k', v') ∈ (c.put k v).entries := by
      rw [put_entries, hothers, ← hlen, ← List.dropLast_eq_take]
      exact List.mem_cons_of_mem _ hm
    exact absurd hput (peek_eq_none.1 h' v')
  · rw [List.mem_singleton.1 hm]
    exact ⟨_, hsplit⟩

@[simp] theorem peek_pop_self (c : LruCache κ υ) (k : κ) : (c.pop k).peek k = none := by
  rw [peek_eq_none]
  exact fun v hm => (mem_others.1 hm).2 rfl

theorem peek_pop_of_ne (hk : k' ≠ k) : (c.pop k).peek k' = c.peek k' := by
  cases h : c.peek k' with
  | none =>
      rw [peek_eq_none]
      exact fun v hm => peek_eq_none.1 h v (mem_others.1 hm).1
  | some v => exact peek_eq_some.2 (mem_others.2 ⟨peek_eq_some.1 h, hk⟩)

/-- A use forgets nothing. -/
theorem peek_get (c : LruCache κ υ) (k k' : κ) : (c.get k).1.peek k' = c.peek k' := by
  rw [get]
  split
  case h_1 => rfl
  case h_2 v hv =>
    rcases eq_or_ne k' k with rfl | hk
    · rw [peek_put_self, hv]
    · cases h : c.peek k' with
      | none =>
          rw [peek_eq_none]
          intro v' hm
          rw [peek_of_put hk (peek_eq_some.2 hm)] at h
          cases h
      | some v' =>
          rw [peek_eq_some, put_entries_of_room (.inr (by simp [hv]))]
          exact List.mem_cons_of_mem _ (mem_others.2 ⟨peek_eq_some.1 h, hk⟩)

end LruCache

end Limits
