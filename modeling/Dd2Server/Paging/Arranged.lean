import Mathlib.Data.List.Nodup
import Mathlib.Data.List.Sort

/-!
# Sorted rows, windows and pages

A query with `ORDER BY` returns its rows in one of the orders that the key allows: rows with equal
keys may come either way, and another query may choose otherwise.  `Arranged` is such an order.  A
window is what `LIMIT` and `OFFSET` leave of it, and the pages of a list are windows of one size
side by side.

Pages that are queries of their own are right in any case as far as keys go (`map_key_pages`).  They
hold every row once, whatever each query chooses, exactly when no two rows with equal keys stand on
two sides of a page boundary (`nodup_pages_iff`, `pages_arranged`).
-/

namespace Paging

variable {ρ κ : Type} [LinearOrder κ] {key : ρ → κ} {rows : List ρ}

/-- The rows in an order that `ORDER BY key` allows. -/
structure Arranged (key : ρ → κ) (rows : List ρ) where
  /-- The rows in order. -/
  list : List ρ
  perm : list.Perm rows
  sorted : list.Pairwise fun a b => key a ≤ key b

/-- What `LIMIT limit OFFSET offset` leaves. -/
def window (limit offset : Nat) (l : List ρ) : List ρ := (l.drop offset).take limit

/-- `rank() OVER (ORDER BY key)`: one more than the rows that come before. -/
def rank (key : ρ → κ) (rows : List ρ) (r : ρ) : Nat :=
  rows.countP (fun x => key x < key r) + 1

/-- The keys in order. -/
def keys (key : ρ → κ) (rows : List ρ) : List κ := (rows.map key).mergeSort

/-- The first `count` pages of size `n`, each of a query of its own. -/
def pages (n count : Nat) (arr : Nat → Arranged key rows) : List ρ :=
  (List.range count).flatMap fun p => window n (n * p) (arr p).list

/-- No two rows with equal keys stand on two sides of position `m`. -/
def PartedAt (key : ρ → κ) (rows : List ρ) (m : Nat) : Prop :=
  0 < m → ∀ k k', (keys key rows)[m - 1]? = some k → (keys key rows)[m]? = some k' →
    k ≠ k'

/-- No two rows with equal keys stand on two sides of a boundary of pages of size `n`. -/
def Parted (key : ρ → κ) (rows : List ρ) (n : Nat) : Prop := ∀ p, PartedAt key rows (n * p)

/-! ## Orders -/

/-- `mergeSort` by a key sorts. -/
theorem pairwise_sort {σ : Type} (key : σ → κ) (l : List σ) :
    (l.mergeSort fun a b => key a ≤ key b).Pairwise fun a b => key a ≤ key b := by
  have htrans : ∀ a b c : σ, decide (key a ≤ key b) = true →
      decide (key b ≤ key c) = true →
      decide (key a ≤ key c) = true := by
    intro a b c hab hbc
    exact decide_eq_true (le_trans (of_decide_eq_true hab) (of_decide_eq_true hbc))
  have htotal : ∀ a b : σ, (decide (key a ≤ key b) || decide (key b ≤ key a)) = true := by
    intro a b
    rw [Bool.or_eq_true, decide_eq_true_eq, decide_eq_true_eq]
    exact le_total _ _
  exact (List.pairwise_mergeSort htrans htotal l).imp of_decide_eq_true

theorem pairwise_keys (key : ρ → κ) (rows : List ρ) : (keys key rows).Pairwise (· ≤ ·) :=
  pairwise_sort id (rows.map key)

/-- Rows sorted by the key. -/
def Arranged.sort (key : ρ → κ) (rows : List ρ) : Arranged key rows where
  list := rows.mergeSort fun a b => key a ≤ key b
  perm := List.mergeSort_perm _ _
  sorted := pairwise_sort key rows

namespace Arranged

theorem mem_iff (a : Arranged key rows) {r : ρ} : r ∈ a.list ↔ r ∈ rows := a.perm.mem_iff

theorem length_eq (a : Arranged key rows) : a.list.length = rows.length := a.perm.length_eq

/-- The keys come in the same order, whatever the rows do. -/
theorem map_key (a : Arranged key rows) : a.list.map key = keys key rows := by
  have hperm : (a.list.map key).Perm (keys key rows) :=
    (a.perm.map key).trans (List.mergeSort_perm _ _).symm
  exact hperm.eq_of_pairwise' (List.pairwise_map.2 a.sorted) (pairwise_keys key rows)

theorem keys_getElem? (a : Arranged key rows) (i : Nat) :
    (keys key rows)[i]? = a.list[i]?.map key := by
  rw [← a.map_key, List.getElem?_map]

/-- The rows before a place that parts the keys are those with keys less than the one there. -/
theorem take_eq_filter (a : Arranged key rows) {m : Nat} (h : PartedAt key rows m) {y : ρ}
    (hm : 0 < m) (hy : a.list[m]? = some y) :
    a.list.take m = a.list.filter fun r => key r < key y := by
  have hlt : m < a.list.length := (List.getElem?_eq_some_iff.1 hy).1
  obtain ⟨x, hx⟩ : ∃ x, a.list[m - 1]? = some x :=
    ⟨_, List.getElem?_eq_getElem (by omega)⟩
  have hle : ∀ {i j : Nat} {r r' : ρ}, i < j → a.list[i]? = some r → a.list[j]? = some r' →
      key r ≤ key r' := by
    intro i j r r' hij hr hr'
    obtain ⟨hi, rfl⟩ := List.getElem?_eq_some_iff.1 hr
    obtain ⟨hj, rfl⟩ := List.getElem?_eq_some_iff.1 hr'
    exact List.pairwise_iff_getElem.1 a.sorted i j hi hj hij
  have hxy : key x < key y := by
    refine lt_of_le_of_ne (hle (by omega) hx hy) (h hm _ _ ?_ ?_)
    · rw [a.keys_getElem?, hx, Option.map_some]
    · rw [a.keys_getElem?, hy, Option.map_some]
  have hbefore : ∀ r ∈ a.list.take m, key r < key y := by
    intro r hr
    obtain ⟨i, hi⟩ := List.getElem?_of_mem hr
    rw [List.getElem?_take] at hi
    split at hi
    case isFalse => cases hi
    case isTrue him =>
      rcases Nat.lt_or_ge i (m - 1) with hlt' | hge
      · exact lt_of_le_of_lt (hle hlt' hi hx) hxy
      · obtain rfl : i = m - 1 := by omega
        obtain rfl : x = r := Option.some.inj (hx.symm.trans hi)
        exact hxy
  have hafter : ∀ r ∈ a.list.drop m, ¬key r < key y := by
    intro r hr
    obtain ⟨i, hi⟩ := List.getElem?_of_mem hr
    rw [List.getElem?_drop] at hi
    rcases Nat.eq_zero_or_pos i with rfl | hpos
    · obtain rfl : y = r := Option.some.inj (hy.symm.trans hi)
      exact lt_irrefl _
    · exact not_lt.2 (hle (by omega) hy hi)
  have hsplit : a.list.filter (fun r => key r < key y) =
      (a.list.take m).filter (fun r => key r < key y) ++ (a.list.drop m).filter
        (fun r => key r < key y) := by
    rw [← List.filter_append, List.take_append_drop]
  rw [hsplit, List.filter_eq_self.2 (by simpa using hbefore), List.filter_eq_nil_iff.2
    (by simpa using hafter), List.append_nil]

/-- Up to a place that parts the keys stand the same rows in every order. -/
theorem take_perm (a b : Arranged key rows) {m : Nat} (h : PartedAt key rows m) :
    (a.list.take m).Perm (b.list.take m) := by
  have hab : a.list.Perm b.list := a.perm.trans b.perm.symm
  rcases Nat.eq_zero_or_pos m with rfl | hm
  · simp
  · rcases Nat.lt_or_ge m rows.length with hlt | hge
    · obtain ⟨x, hx⟩ : ∃ x, a.list[m]? = some x :=
        ⟨_, List.getElem?_eq_getElem (by rwa [a.length_eq])⟩
      obtain ⟨y, hy⟩ : ∃ y, b.list[m]? = some y :=
        ⟨_, List.getElem?_eq_getElem (by rwa [b.length_eq])⟩
      have hxy : key x = key y := by
        have hkeys := (a.keys_getElem? m).symm.trans (b.keys_getElem? m)
        rw [hx, hy, Option.map_some, Option.map_some] at hkeys
        exact Option.some.inj hkeys
      rw [a.take_eq_filter h hm hx, b.take_eq_filter h hm hy, hxy]
      exact hab.filter _
    · rw [List.take_of_length_le (by rwa [a.length_eq]), List.take_of_length_le
        (by rwa [b.length_eq])]
      exact hab

/-- Two neighbours with equal keys change places. -/
def swap {pre post : List ρ} {x y : ρ} (a : Arranged key rows)
    (h : a.list = pre ++ x :: y :: post) (hk : key x = key y) : Arranged key rows where
  list := pre ++ y :: x :: post
  perm := ((List.Perm.swap x y post).append_left pre).trans (h ▸ a.perm)
  sorted := by
    have hs := a.sorted
    rw [h] at hs
    simp only [List.pairwise_append, List.pairwise_cons, List.mem_cons, forall_eq_or_imp] at hs ⊢
    obtain ⟨hpre, ⟨⟨-, hx⟩, hy, hpost⟩, hcross⟩ := hs
    refine ⟨hpre, ⟨⟨hk.ge, hy⟩, hx, hpost⟩, fun r hr => ?_⟩
    obtain ⟨hrx, hry, hrp⟩ := hcross r hr
    exact ⟨hry, hrx, hrp⟩

end Arranged

/-! ## Windows -/

theorem take_append_window (l : List ρ) (n offset : Nat) :
    l.take offset ++ window n offset l = l.take (offset + n) := by
  rw [window, List.take_add]

theorem window_of_length_le {l : List ρ} {n offset : Nat} (h : l.length ≤ offset) :
    window n offset l = [] := by
  rw [window, List.drop_eq_nil_of_le h, List.take_nil]

theorem window_eq_nil_iff {l : List ρ} {n offset : Nat} :
    window (n + 1) offset l = [] ↔ l.length ≤ offset := by
  rw [window, List.take_eq_nil_iff, or_iff_right (Nat.succ_ne_zero n), List.drop_eq_nil_iff]

theorem map_window {σ : Type} (f : ρ → σ) (l : List ρ) (n offset : Nat) :
    (window n offset l).map f = window n offset (l.map f) := by
  rw [window, window, List.map_take, List.map_drop]

theorem mem_window {l : List ρ} {n offset i : Nat} {r : ρ} (h : l[i]? = some r)
    (hle : offset ≤ i) (hlt : i < offset + n) : r ∈ window n offset l := by
  refine List.mem_of_getElem? (i := i - offset) ?_
  rw [window, List.getElem?_take_of_lt (by omega), List.getElem?_drop, ← h]
  congr 1
  omega

/-! ## Pages -/

/-- The pages of one list, up to its length. -/
theorem flatMap_window (n count : Nat) (l : List ρ) :
    ((List.range count).flatMap fun p => window n (n * p) l) = l.take (n * count) := by
  induction count with
  | zero => simp
  | succ count ih =>
      rw [List.range_succ, List.flatMap_append, ih, List.flatMap_singleton,
        take_append_window, Nat.mul_succ]

theorem pages_succ (n count : Nat) (arr : Nat → Arranged key rows) :
    pages n (count + 1) arr = pages n count arr ++ window n (n * count) (arr count).list := by
  rw [pages, List.range_succ, List.flatMap_append, List.flatMap_singleton, pages]

/-- The keys on the pages. -/
theorem map_key_pages (n count : Nat) (arr : Nat → Arranged key rows) :
    (pages n count arr).map key = (keys key rows).take (n * count) := by
  rw [← flatMap_window, pages, List.map_flatMap]
  refine List.flatMap_congr fun p _ => ?_
  rw [map_window, (arr p).map_key]

theorem length_pages_le (n count : Nat) (arr : Nat → Arranged key rows) :
    (pages n count arr).length ≤ n * count := by
  rw [← List.length_map key, map_key_pages]
  exact List.length_take_le _ _

/-- Where no boundary comes between equal keys, the pages hold what one order has. -/
theorem pages_perm {n : Nat} (h : Parted key rows n) (count : Nat) (arr : Nat → Arranged key rows)
    (a : Arranged key rows) : (pages n count arr).Perm (a.list.take (n * count)) := by
  induction count with
  | zero => simp [pages]
  | succ count ih =>
      have hsame : (a.list.take (n * count)).Perm ((arr count).list.take (n * count)) :=
        a.take_perm (arr count) (h count)
      have hnext : ((arr count).list.take (n * (count + 1))).Perm (a.list.take (n * (count + 1))) :=
        (arr count).take_perm a (h (count + 1))
      rw [pages_succ]
      refine ((ih.trans hsame).append_right _).trans ?_
      rwa [take_append_window, ← Nat.mul_succ]

/-- Two rows with equal keys on two sides of a boundary: the two pages may both show the first of
them. -/
theorem exists_repeat {n p count : Nat} {x y : ρ} (a : Arranged key rows) (hn : 0 < n)
    (hp : p + 1 < count) (hx : a.list[n * (p + 1) - 1]? = some x)
    (hy : a.list[n * (p + 1)]? = some y) (hk : key x = key y) :
    ∃ arr : Nat → Arranged key rows, ¬(pages n count arr).Nodup := by
  have hpos : 0 < n * (p + 1) := Nat.mul_pos hn (Nat.succ_pos p)
  have hm : n * (p + 1) = n * p + n := Nat.mul_succ n p
  have hlist : a.list = a.list.take (n * (p + 1) - 1) ++ x :: y :: a.list.drop
      (n * (p + 1) + 1) := by
    obtain ⟨hx', hxe⟩ := List.getElem?_eq_some_iff.1 hx
    obtain ⟨hy', hye⟩ := List.getElem?_eq_some_iff.1 hy
    have hdrop : a.list.drop (n * (p + 1)) = y :: a.list.drop (n * (p + 1) + 1) := by
      rw [List.drop_eq_getElem_cons hy', hye]
    have hdrop' : a.list.drop (n * (p + 1) - 1) = x :: a.list.drop (n * (p + 1)) := by
      rw [List.drop_eq_getElem_cons hx', hxe, Nat.sub_add_cancel hpos]
    rw [← hdrop, ← hdrop', List.take_append_drop]
  have hswap : (a.swap hlist hk).list[n * (p + 1)]? = some x := by
    have hlen : (a.list.take (n * (p + 1) - 1)).length = n * (p + 1) - 1 :=
      List.length_take_of_le (Nat.le_of_lt (List.getElem?_eq_some_iff.1 hx).1)
    show (a.list.take (n * (p + 1) - 1) ++ y :: x :: _)[n * (p + 1)]? = some x
    rw [List.getElem?_append_right (by omega), hlen,
      show n * (p + 1) - (n * (p + 1) - 1) = 1 by omega]
    rfl
  refine ⟨fun q => if q ≤ p then a else a.swap hlist hk, fun hnd => ?_⟩
  have hdisjoint := List.pairwise_iff_getElem.1 (List.nodup_flatMap.1 hnd).2 p (p + 1)
    (by simp; omega)
    (by simpa using hp) (Nat.lt_succ_self p)
  simp only [List.getElem_range, Function.onFun] at hdisjoint
  refine hdisjoint (a := x) ?_ ?_
  · rw [if_pos le_rfl]
    exact mem_window hx (by omega) (by omega)
  · rw [if_neg (by omega)]
    exact mem_window hswap le_rfl (by omega)

/-- Pages that are queries of their own repeat no row, whatever each query chooses, exactly where no
boundary comes between equal keys. -/
theorem nodup_pages_iff {n count : Nat} (hn : 0 < n) (hrows : rows.Nodup)
    (hcount : rows.length ≤ n * count) :
    (∀ arr : Nat → Arranged key rows, (pages n count arr).Nodup) ↔ Parted key rows n := by
  constructor
  · intro h p hpos k k' hk hk' he
    subst he
    cases p with
    | zero => exact absurd hpos (Nat.lt_irrefl 0)
    | succ p =>
        let a := Arranged.sort key rows
        rw [a.keys_getElem?, Option.map_eq_some_iff] at hk hk'
        obtain ⟨x, hx, rfl⟩ := hk
        obtain ⟨y, hy, hxy⟩ := hk'
        have hlt : n * (p + 1) < n * count := by
          have hlen := (List.getElem?_eq_some_iff.1 hy).1
          rw [a.length_eq] at hlen
          omega
        obtain ⟨arr, harr⟩ := exists_repeat a hn (Nat.lt_of_mul_lt_mul_left hlt) hx hy hxy.symm
        exact harr (h arr)
  · intro h arr
    have hperm := pages_perm h count arr (Arranged.sort key rows)
    exact hperm.nodup_iff.2 (((Arranged.sort key rows).perm.nodup_iff.2 hrows).sublist
      (List.take_sublist _ _))

/-- Rows with one key are not parted anywhere. -/
theorem not_parted_of_tied {n : Nat} {k : κ} (hn : 0 < n) (h : ∀ r ∈ rows, key r = k)
    (hlt : n < rows.length) : ¬Parted key rows n := by
  intro hparted
  let a := Arranged.sort key rows
  have hkey : ∀ i < rows.length, (keys key rows)[i]? = some k := by
    intro i hi
    have hi' : i < a.list.length := by rwa [a.length_eq]
    rw [a.keys_getElem?, List.getElem?_eq_getElem hi', Option.map_some,
      h _ (a.mem_iff.1 (List.getElem_mem hi'))]
  have hne := hparted 1 (by omega) k k
  rw [Nat.mul_one] at hne
  exact hne (hkey _ (by omega)) (hkey n hlt) rfl

/-- Where no boundary comes between equal keys, the pages show the rows in an order that the key
allows. -/
theorem pages_arranged {n count : Nat} (h : Parted key rows n) (hcount : rows.length ≤ n * count)
    (arr : Nat → Arranged key rows) : ∃ a : Arranged key rows, a.list = pages n count arr := by
  let a := Arranged.sort key rows
  have hperm : (pages n count arr).Perm (a.list.take (n * count)) := pages_perm h count arr a
  rw [List.take_of_length_le (by rwa [a.length_eq])] at hperm
  have hsorted : ((pages n count arr).map key).Pairwise (· ≤ ·) := by
    rw [map_key_pages]
    exact (pairwise_keys key rows).take
  exact ⟨⟨pages n count arr, hperm.trans a.perm, List.pairwise_map.1 hsorted⟩, rfl⟩

theorem mem_rows_of_mem_pages {n count : Nat} {arr : Nat → Arranged key rows} {r : ρ}
    (h : r ∈ pages n count arr) : r ∈ rows := by
  obtain ⟨p, -, hp⟩ := List.mem_flatMap.1 h
  exact (arr p).mem_iff.1 (List.mem_of_mem_drop (List.mem_of_mem_take hp))

end Paging
