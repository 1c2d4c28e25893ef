import Mathlib.Data.List.Chain
import Mathlib.Data.List.Nodup

/-!
# Doubly linked rows

Rows that name the row before and the row after them by key.  `chain` lists the rows of a sequence
of keys with all their links, and `Intact` says of any rows that the links are inverse to each other
and that the rows form one chain; the newest row may not have been linked from the one before it
yet.
-/

namespace Linked

variable {κ : Type}

/-- A row with its links. -/
structure Node (κ : Type) where
  id : κ
  predecessor : Option κ
  successor : Option κ

/-- The rows of these keys, linked both ways, after a row `p`. -/
def chain : Option κ → List κ → List (Node κ)
  | _, [] => []
  | p, a :: rest => ⟨a, p, rest.head?⟩ :: chain (some a) rest

/-- The links are inverse to each other, and the rows form one chain; `new` may lack the link to
it. -/
structure Intact (new : Option κ) (l : List (Node κ)) : Prop where
  back : ∀ x ∈ l, ∀ a, x.predecessor = some a → some x.id ≠ new →
    ∃ y ∈ l, y.id = a ∧ y.successor = some x.id
  forth : ∀ x ∈ l, ∀ b, x.successor = some b → ∃ y ∈ l, y.id = b ∧
    y.predecessor = some x.id
  unbranched : ∀ x ∈ l, ∀ y ∈ l, x.predecessor = y.predecessor →
    x.predecessor ≠ none → x = y
  oneChain : ∃ m : List (Node κ), m.Perm l ∧
    m.IsChain (fun x y => y.predecessor = some x.id) ∧
    ∀ x ∈ m.head?, x.predecessor = none

/-! ## Linked rows -/

theorem map_id_chain (p : Option κ) (ids : List κ) : (chain p ids).map Node.id = ids := by
  induction ids generalizing p with
  | nil => rfl
  | cons a rest ih => rw [chain, List.map_cons, ih]

theorem map_predecessor_chain (p : Option κ) (ids : List κ) :
    (chain p ids).map Node.predecessor = (p :: ids.map some).take ids.length := by
  induction ids generalizing p with
  | nil => rfl
  | cons a rest ih =>
      rw [chain, List.map_cons, ih, List.map_cons, List.length_cons, List.take_succ_cons]

theorem successor_mem_of_mem_chain {p : Option κ} {ids : List κ} {x : Node κ} {b : κ}
    (hx : x ∈ chain p ids) (hb : x.successor = some b) : b ∈ ids := by
  induction ids generalizing p with
  | nil => cases hx
  | cons a rest ih =>
      rcases List.mem_cons.1 hx with rfl | hx
      · exact List.mem_cons_of_mem a (List.mem_of_mem_head? hb)
      · exact List.mem_cons_of_mem a (ih hx)

theorem back_of_mem_chain {p : Option κ} {ids : List κ} {x : Node κ} {a : κ}
    (hx : x ∈ chain p ids) (ha : x.predecessor = some a) :
    (p = some a ∧ ids.head? = some x.id) ∨ ∃ y ∈ chain p ids, y.id = a ∧
    y.successor = some x.id := by
  induction ids generalizing p with
  | nil => cases hx
  | cons c rest ih =>
      rcases List.mem_cons.1 hx with rfl | hx
      · exact .inl ⟨ha, rfl⟩
      · rcases ih hx with ⟨hc, hhead⟩ | ⟨y, hy, hid, hsucc⟩
        · exact .inr ⟨_, List.mem_cons_self, Option.some.inj hc, hhead⟩
        · exact .inr ⟨y, List.mem_cons_of_mem _ hy, hid, hsucc⟩

theorem forth_of_mem_chain {p : Option κ} {ids : List κ} {x : Node κ} {b : κ}
    (hx : x ∈ chain p ids) (hb : x.successor = some b) :
    ∃ y ∈ chain p ids, y.id = b ∧ y.predecessor = some x.id := by
  induction ids generalizing p with
  | nil => cases hx
  | cons c rest ih =>
      rcases List.mem_cons.1 hx with rfl | hx
      · cases rest with
        | nil => cases hb
        | cons d rest =>
            obtain rfl : d = b := Option.some.inj hb
            exact ⟨_, List.mem_cons_of_mem _ List.mem_cons_self, rfl, rfl⟩
      · obtain ⟨y, hy, hid, hpred⟩ := ih hx
        exact ⟨y, List.mem_cons_of_mem _ hy, hid, hpred⟩

theorem isChain_chain (p : Option κ) (ids : List κ) :
    (chain p ids).IsChain (fun x y => y.predecessor = some x.id) := by
  induction ids generalizing p with
  | nil => exact .nil
  | cons a rest ih =>
      cases rest with
      | nil => exact .singleton _
      | cons c rest => exact .cons_cons rfl (ih (some a))

theorem getLast?_chain {p : Option κ} {ids : List κ} :
    (chain p ids).getLast?.map Node.id = ids.getLast? := by
  rw [← List.getLast?_map, map_id_chain]

/-- Rows with different predecessors are told apart by them. -/
theorem unbranched_of_nodup {l : List (Node κ)} (h : (l.map Node.predecessor).Nodup) :
    ∀ x ∈ l, ∀ y ∈ l, x.predecessor = y.predecessor → x.predecessor ≠ none → x = y :=
  fun _ hx _ hy he _ => List.inj_on_of_nodup_map h hx hy he

theorem nodup_predecessors {ids : List κ} (h : ids.Nodup) : (none :: ids.map some).Nodup := by
  rw [List.nodup_cons]
  exact ⟨by simp, h.map fun a b hab => Option.some.inj hab⟩

/-- Linked rows are intact. -/
theorem intact_chain {ids : List κ} (h : ids.Nodup) (new : Option κ) :
    Intact new (chain none ids) where
  back x hx a ha _ := (back_of_mem_chain hx ha).resolve_left fun hno => nomatch hno.1
  forth _ hx _ hb := forth_of_mem_chain hx hb
  unbranched := by
    refine unbranched_of_nodup ?_
    rw [map_predecessor_chain]
    exact (nodup_predecessors h).sublist (List.take_sublist _ _)
  oneChain := ⟨_, List.Perm.refl _, isChain_chain none ids, by
    cases ids with
    | nil => exact nofun
    | cons a rest =>
        intro x hx
        obtain rfl := Option.some.inj hx
        rfl⟩

/-- So are linked rows with a new one that only links back. -/
theorem intact_append {ids : List κ} {b : κ} (h : (ids ++ [b]).Nodup) :
    Intact (some b) (chain none ids ++ [⟨b, ids.getLast?, none⟩]) where
  back x hx a ha hne := by
    rcases List.mem_append.1 hx with hx | hx
    · obtain ⟨y, hy, hid, hsucc⟩ :=
        (back_of_mem_chain hx ha).resolve_left fun hno => nomatch hno.1
      exact ⟨y, List.mem_append_left _ hy, hid, hsucc⟩
    · obtain rfl := List.mem_singleton.1 hx
      exact absurd rfl hne
  forth x hx c hc := by
    rcases List.mem_append.1 hx with hx | hx
    · obtain ⟨y, hy, hid, hpred⟩ := forth_of_mem_chain hx hc
      exact ⟨y, List.mem_append_left _ hy, hid, hpred⟩
    · obtain rfl := List.mem_singleton.1 hx
      cases hc
  unbranched := by
    refine unbranched_of_nodup ?_
    have hnd := nodup_predecessors (List.nodup_append.1 h).1
    have hall : (chain none ids ++ [Node.mk b ids.getLast? none]).map Node.predecessor =
        none :: ids.map some := by
      rw [List.map_append, map_predecessor_chain, List.map_singleton]
      rcases ids.eq_nil_or_concat with rfl | ⟨init, a, rfl⟩
      · rfl
      · rw [List.concat_eq_append, List.getLast?_concat, List.map_append, List.map_singleton,
          ← List.cons_append, List.length_append, List.length_singleton,
            List.take_left' (by simp)]
    rw [hall]
    exact hnd
  oneChain := by
    refine ⟨_, List.Perm.refl _, ?_, ?_⟩
    · refine List.IsChain.append (isChain_chain none ids) (.singleton _) fun x hx y hy => ?_
      obtain rfl := Option.some.inj hy
      have hlast : (chain none ids).getLast?.map Node.id = ids.getLast? := getLast?_chain
      rw [Option.mem_def.1 hx, Option.map_some] at hlast
      exact hlast.symm
    · cases ids with
      | nil =>
          intro x hx
          obtain rfl := Option.some.inj hx
          rfl
      | cons a rest =>
          intro x hx
          obtain rfl := Option.some.inj hx
          rfl

/-- An intact chain has one first row. -/
theorem Intact.root_unique {new : Option κ} {l : List (Node κ)} (h : Intact new l)
    {x y : Node κ} (hx : x ∈ l) (hy : y ∈ l) (hxp : x.predecessor = none)
    (hyp : y.predecessor = none) : x = y := by
  obtain ⟨m, hperm, hchain, -⟩ := h.oneChain
  have hhead : ∀ z ∈ m, z.predecessor = none → m.head? = some z := by
    intro z hz hzp
    obtain ⟨i, hi, rfl⟩ := List.mem_iff_getElem.1 hz
    cases i with
    | zero => rw [List.head?_eq_getElem?, List.getElem?_eq_getElem hi]
    | succ i =>
        have hlink := List.isChain_iff_getElem.1 hchain i hi
        rw [hzp] at hlink
        cases hlink
  exact Option.some.inj ((hhead x (hperm.mem_iff.2 hx) hxp).symm.trans
    (hhead y (hperm.mem_iff.2 hy) hyp))

/-! ## A new link -/

variable [DecidableEq κ]

/-- The row `a` links to `b`. -/
def relink (a b : κ) (l : List (Node κ)) : List (Node κ) :=
  l.map fun x => if x.id = a then { x with successor := some b } else x


/-- A link from the last row to a new one makes a longer chain. -/
theorem chain_concat {p : Option κ} {ids : List κ} {a b : κ} (h : ids.Nodup)
    (ha : ids.getLast? = some a) :
    chain p (ids ++ [b]) = relink a b (chain p ids) ++ [⟨b, some a, none⟩] := by
  induction ids generalizing p with
  | nil => cases ha
  | cons c rest ih =>
      cases rest with
      | nil =>
          obtain rfl : c = a := Option.some.inj ha
          simp [chain, relink]
      | cons d rest =>
          rw [List.getLast?_cons_cons] at ha
          have hne : c ≠ a := by
            rintro rfl
            exact (List.nodup_cons.1 h).1 (List.mem_of_getLast? ha)
          have hrest := ih (p := some c) (List.nodup_cons.1 h).2 ha
          rw [List.cons_append, chain, hrest]
          simp [chain, relink, hne]

/-- What a new link leaves of a row. -/
theorem mem_relink {a b : κ} {l : List (Node κ)} {x : Node κ} (h : x ∈ relink a b l) :
    ∃ y ∈ l, x.id = y.id ∧ x.predecessor = y.predecessor ∧
    (x.successor = some b ∨ x.successor = y.successor) := by
  obtain ⟨y, hy, rfl⟩ := List.mem_map.1 h
  refine ⟨y, hy, ?_⟩
  split
  · exact ⟨rfl, rfl, .inl rfl⟩
  · exact ⟨rfl, rfl, .inr rfl⟩

theorem exists_mem_relink {a b : κ} {l : List (Node κ)} {x : Node κ} (h : x ∈ l) :
    ∃ y ∈ relink a b l, y.id = x.id ∧ y.predecessor = x.predecessor := by
  refine ⟨_, List.mem_map.2 ⟨x, h, rfl⟩, ?_⟩
  split
  · exact ⟨rfl, rfl⟩
  · exact ⟨rfl, rfl⟩

end Linked
