import Dd2Server.Paging.Arranged
import Mathlib.Data.List.Perm.Subperm

/-!
# Pages read one after the other

Somebody reads page after page while rows come in between and none goes.  Where no two rows have one
key, a row stands at the place that the rows before it make (`Arranged.getElem?_iff`), and rows that
come only move it on.  So the row is on a page that was read, or behind all of them
(`met_or_behind`), and no more rows are missed than stand behind the last page (`missed_le`).
-/

namespace Paging

variable {ρ κ : Type} [LinearOrder κ] {key : ρ → κ} {rows rows' : List ρ} {r : ρ} {n : Nat}

/-- How many rows come before. -/
def place (key : ρ → κ) (rows : List ρ) (r : ρ) : Nat := rows.countP fun x => key x < key r

theorem place_le (h : rows.Subperm rows') : place key rows r ≤ place key rows' r := h.countP_le _

theorem place_lt (h : r ∈ rows) : place key rows r < rows.length := by
  refine Nat.lt_of_le_of_ne List.countP_le_length fun he => ?_
  exact lt_irrefl (key r) (of_decide_eq_true (List.countP_eq_length.1 he r h))

/-- Without equal keys the rows ascend. -/
theorem Arranged.strict (a : Arranged key rows) (h : (rows.map key).Nodup) :
    a.list.Pairwise fun x y => key x < key y := by
  have hne : a.list.Pairwise fun x y => key x ≠ key y :=
    List.pairwise_map.1 ((a.perm.map key).nodup_iff.2 h)
  exact (a.sorted.and hne).imp fun h => lt_of_le_of_ne h.1 h.2

theorem Arranged.getElem?_place (a : Arranged key rows) (h : (rows.map key).Nodup)
    (hr : r ∈ rows) : a.list[place key rows r]? = some r := by
  obtain ⟨before, after, hlist⟩ := List.append_of_mem (a.mem_iff.2 hr)
  have hstrict := a.strict h
  rw [hlist, List.pairwise_append] at hstrict
  obtain ⟨-, hafter, hbefore⟩ := hstrict
  have hplace : place key rows r = before.length := by
    have hfirst : before.countP (fun x => key x < key r) = before.length :=
      List.countP_eq_length.2 fun x hx => decide_eq_true (hbefore x hx r List.mem_cons_self)
    have hlast : (r :: after).countP (fun x => key x < key r) = 0 := by
      refine List.countP_eq_zero.2 fun x hx => ?_
      rw [decide_eq_true_eq, not_lt]
      rcases List.mem_cons.1 hx with rfl | hx
      · exact le_rfl
      · exact ((List.pairwise_cons.1 hafter).1 x hx).le
    rw [place, ← a.perm.countP_eq, hlist, List.countP_append, hfirst, hlast, Nat.add_zero]
  rw [hplace, hlist, List.getElem?_append_right le_rfl, Nat.sub_self]
  rfl

/-- Without equal keys there is one order. -/
theorem Arranged.list_eq (a b : Arranged key rows) (h : (rows.map key).Nodup) :
    a.list = b.list := by
  refine (a.perm.trans b.perm.symm).eq_of_pairwise (fun x y hx hy hxy hyx => ?_)
    (a.strict h) (b.strict h)
  exact absurd hyx (lt_asymm hxy)

/-- A row is on the page where its place is. -/
theorem Arranged.mem_window_of_place (a : Arranged key rows) (h : (rows.map key).Nodup)
    (hr : r ∈ rows) {offset : Nat} (hle : offset ≤ place key rows r)
    (hlt : place key rows r < offset + n) : r ∈ window n offset a.list :=
  mem_window (a.getElem?_place h hr) hle hlt

/-! ## While rows come in -/

variable {rows : Nat → List ρ}

theorem subperm_of_le (hsub : ∀ p, (rows p).Subperm (rows (p + 1))) {p q : Nat} (h : p ≤ q) :
    (rows p).Subperm (rows q) := by
  induction h with
  | refl => exact .refl _
  | step _ ih => exact ih.trans (hsub _)

variable (arr : ∀ p, Arranged key (rows p)) (hkeys : ∀ p, ((rows p).map key).Nodup)
  (hsub : ∀ p, (rows p).Subperm (rows (p + 1)))

include hkeys hsub

/-- A row that was there at first is on one of the pages, or behind the last. -/
theorem met_or_behind (hr : r ∈ rows 0) (last : Nat) :
    (∃ p ≤ last, r ∈ window n (n * p) (arr p).list) ∨
    n * (last + 1) ≤ place key (rows last) r := by
  have hmem : ∀ p, r ∈ rows p := by
    intro p
    induction p with
    | zero => exact hr
    | succ p ih => exact (hsub p).subset ih
  induction last with
  | zero =>
      rcases Nat.lt_or_ge (place key (rows 0) r) n with hlt | hge
      · exact .inl ⟨0, le_rfl, (arr 0).mem_window_of_place (hkeys 0) hr
          (Nat.zero_le _) (by omega)⟩
      · exact .inr (by omega)
  | succ last ih =>
      rcases ih with ⟨p, hp, hmet⟩ | hbehind
      · exact .inl ⟨p, Nat.le_succ_of_le hp, hmet⟩
      · have hmoved : place key (rows last) r ≤ place key (rows (last + 1)) r :=
          place_le (hsub last)
        rcases Nat.lt_or_ge (place key (rows (last + 1)) r) (n * (last + 1) + n) with hlt | hge
        · exact .inl ⟨last + 1, le_rfl, (arr (last + 1)).mem_window_of_place (hkeys _) (hmem _)
            (by omega) hlt⟩
        · exact .inr (by rw [Nat.mul_succ]; exact hge)

/-- All rows that were there at first are met before a page that is not full. -/
theorem met_of_short (hr : r ∈ rows 0) {last : Nat}
    (hshort : (window n (n * last) (arr last).list).length < n) :
    ∃ p ≤ last, r ∈ window n (n * p) (arr p).list := by
  refine (met_or_behind arr hkeys hsub hr last).resolve_right fun hbehind => ?_
  have hlt : place key (rows last) r < (rows last).length :=
    place_lt ((subperm_of_le hsub (Nat.zero_le last)).subset hr)
  rw [window, List.length_take, List.length_drop, (arr last).length_eq] at hshort
  rw [Nat.mul_succ] at hbehind
  omega

/-- No more rows are missed than stand behind the last page. -/
theorem missed_le {missed : List ρ} (hnodup : missed.Nodup) {last : Nat}
    (hmissed : ∀ r ∈ missed, r ∈ rows 0 ∧
      ∀ p ≤ last, r ∉ window n (n * p) (arr p).list) :
    missed.length ≤ (rows last).length - n * (last + 1) := by
  have hbehind : missed ⊆ (arr last).list.drop (n * (last + 1)) := by
    intro r hr
    obtain ⟨hfirst, hno⟩ := hmissed r hr
    rcases met_or_behind arr hkeys hsub hfirst last with ⟨p, hp, hmet⟩ | hle
    · exact absurd hmet (hno p hp)
    · have hlast := (arr last).getElem?_place (hkeys last)
        ((subperm_of_le hsub (Nat.zero_le last)).subset hfirst)
      refine List.mem_of_getElem? (i := place key (rows last) r - n * (last + 1)) ?_
      rw [List.getElem?_drop, Nat.add_sub_cancel' hle, hlast]
  have hlen := (hnodup.subperm hbehind).length_le
  rwa [List.length_drop, (arr last).length_eq] at hlen

end Paging
