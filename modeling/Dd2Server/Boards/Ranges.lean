import Dd2Server.Boards.Schema
import Dd2Server.Machine.Checked
import Dd2Server.Paging.Arranged

/-!
# `LIMIT` and `OFFSET`

A board request computes a limit and an offset in machine integers, and its query returns the rows
there.  PostgreSQL refuses a negative one.
-/

namespace Dd2Server.Boards

open Machine Paging

/-- The parameters of `LIMIT $1 OFFSET $2`. -/
structure Range where
  limit : BitVec 64
  offset : BitVec 64
  deriving DecidableEq

/-- A handler over HTTP fails with a rejection. -/
inductive Rejection
  | notFound
  | api (e : SqlxError)
  deriving DecidableEq

variable {ρ σ : Type}

/-- The rows of a query with these parameters. -/
def Range.select (r : Range) (l : List ρ) : Except SqlxError (List ρ) :=
  if r.limit.toInt < 0 ∨ r.offset.toInt < 0 then .error .database
  else .ok (window r.limit.toInt.toNat r.offset.toInt.toNat l)

/-- The row numbers are these, as exact integers. -/
def Range.Exact (r : Range) (limit offset : Int) : Prop :=
  r.limit.toInt = limit ∧ r.offset.toInt = offset

theorem Range.Exact.select {r : Range} {limit offset : Nat}
    (h : r.Exact limit offset) (l : List ρ) : r.select l = .ok (window limit offset l) := by
  obtain ⟨hl, ho⟩ := h
  rw [Range.select, if_neg (by omega), hl, ho, Int.toNat_natCast, Int.toNat_natCast]

/-- Where there is room, the end of a range and then its length come out exactly. -/
theorem range_eq {x n : BitVec 64} (hx : 0 ≤ x.toInt) (hn : 0 ≤ n.toInt)
    (h : x.toInt + n.toInt < 2 ^ 63) :
    addS x n = pure (x + n) ∧ subS (x + n) x = pure (x + n - x) ∧
    (x + n - x).toInt = n.toInt := by
  obtain ⟨hend, hendInt⟩ := addS_eq (x := x) (y := n) ⟨by omega, h⟩
  have hdiff : (x + n).toInt - x.toInt = n.toInt := by rw [hendInt, add_sub_cancel_left]
  have hsub : FitsS 64 ((x + n).toInt - x.toInt) := by
    rw [hdiff]
    exact ⟨by omega, n.toInt_lt⟩
  obtain ⟨hlimit, hlimitInt⟩ := subS_eq hsub
  exact ⟨hend, hlimit, hlimitInt.trans hdiff⟩

/-! ## Rows that may not decode -/

/-- The rows as the driver decodes them, `none` where a column has no value of its type. -/
def decoded (f : ρ → Option σ) (l : List ρ) : Except SqlxError (List σ) :=
  match l.mapM f with
  | some es => .ok es
  | none => .error .database

/-- A column that decodes has the value that is read off it. -/
theorem eq_getD_of_eq_some [Inhabited σ] {f : ρ → Option σ} :
    ∀ r s, f r = some s → s = (f r).getD default := by
  intro r s hr
  rw [hr, Option.getD_some]

theorem mapM_eq_some_iff {f : ρ → Option σ} {g : ρ → σ}
    (hfg : ∀ r s, f r = some s → s = g r) {l : List ρ} {es : List σ} :
    l.mapM f = some es ↔ (∀ r ∈ l, (f r).isSome) ∧ es = l.map g := by
  induction l generalizing es with
  | nil =>
      simp only [List.mapM_nil, Option.pure_def, Option.some.injEq, List.not_mem_nil,
        false_imp_iff, implies_true, true_and, List.map_nil]
      exact eq_comm
  | cons r l ih =>
      cases hr : f r with
      | none => simp [hr]
      | some s =>
          obtain rfl := hfg r s hr
          simp only [List.mapM_cons, hr, Option.bind_eq_bind, Option.bind_some, Option.pure_def,
            Option.bind_eq_some_iff, Option.some.injEq, List.mem_cons, forall_eq_or_imp,
              Option.isSome_some,
            true_and, List.map_cons]
          constructor
          · rintro ⟨es', h, rfl⟩
            obtain ⟨hall, rfl⟩ := ih.1 h
            exact ⟨hall, rfl⟩
          · rintro ⟨hall, rfl⟩
            exact ⟨_, ih.2 ⟨hall, rfl⟩, rfl⟩

/-- All rows decode, or the request fails. -/
theorem decoded_eq_ok_iff {f : ρ → Option σ} {g : ρ → σ}
    (hfg : ∀ r s, f r = some s → s = g r) {l : List ρ} {es : List σ} :
    decoded f l = .ok es ↔ (∀ r ∈ l, (f r).isSome) ∧ es = l.map g := by
  rw [← mapM_eq_some_iff hfg, decoded]
  split
  case h_1 es' h => rw [h, Except.ok.injEq, Option.some.injEq]
  case h_2 h => simp [h]

theorem exists_decoded_iff [Inhabited σ] {f : ρ → Option σ} {l : List ρ} :
    (∃ es, decoded f l = .ok es) ↔ ∀ r ∈ l, (f r).isSome := by
  constructor
  · rintro ⟨es, hes⟩
    exact ((decoded_eq_ok_iff eq_getD_of_eq_some).1 hes).1
  · intro hall
    exact ⟨_, (decoded_eq_ok_iff eq_getD_of_eq_some).2 ⟨hall, rfl⟩⟩

/-- Only no rows decode to no entries. -/
theorem decoded_mapError_eq_nil [Inhabited σ] {f : ρ → Option σ} {l : List ρ}
    (h : (decoded f l).mapError Rejection.api = .ok []) : l = [] := by
  cases hes : decoded f l with
  | error e =>
      rw [hes] at h
      cases h
  | ok es =>
      rw [hes] at h
      cases h
      have hmap := (decoded_eq_ok_iff eq_getD_of_eq_some).1 hes
      exact List.map_eq_nil_iff.1 hmap.2.symm

/-! ## Pages of a board -/

/-- What a client gets that reads one page after the other, `none` where one of them fails. -/
def readPages : List (Option (Except Rejection (List σ))) → Option (List σ)
  | [] => some []
  | some (.ok es) :: rest => (readPages rest).map (es ++ ·)
  | _ => none

theorem readPages_append (xs ys : List (Option (Except Rejection (List σ)))) :
    readPages (xs ++ ys) = (readPages xs).bind fun es => (readPages ys).map (es ++ ·) := by
  induction xs with
  | nil => simp [readPages]
  | cons x xs ih =>
      rcases x with - | ⟨e⟩ | es
      · rfl
      · rfl
      · rw [List.cons_append, readPages, readPages, ih]
        cases readPages xs <;> simp [Function.comp_def]

/-- Each page is a query of its own, and shows a window of an order that this query chose. -/
theorem readPages_eq_some_iff {κ : Type} [LinearOrder κ] {key : ρ → κ}
    {rows : List ρ} {n count : Nat} {answer : Nat → Option (Except Rejection (List σ))}
    {arr : Nat → Arranged key rows} {f : ρ → Option σ} {g : ρ → σ}
    (hfg : ∀ r s, f r = some s → s = g r)
    (h : ∀ p < count, answer p = some ((decoded f (window n (n * p) (arr p).list)).mapError .api))
    {es : List σ} :
    readPages ((List.range count).map answer) = some es ↔
      (∀ r ∈ pages n count arr, (f r).isSome) ∧ es = (pages n count arr).map g := by
  induction count generalizing es with
  | zero =>
      simp only [List.range_zero, List.map_nil, readPages, Option.some.injEq, pages,
        List.flatMap_nil, List.not_mem_nil, false_imp_iff, implies_true, true_and]
      exact eq_comm
  | succ count ih =>
      have hlast : ∀ es', readPages [answer count] = some es' ↔
          (∀ r ∈ window n (n * count) (arr count).list, (f r).isSome) ∧
            es' = (window n (n * count) (arr count).list).map g := by
        intro es'
        rw [h count (Nat.lt_succ_self count), ← decoded_eq_ok_iff hfg]
        cases decoded f (window n (n * count) (arr count).list)
          <;> simp [readPages, Except.mapError]
      have hold := @ih fun p hp => h p (Nat.lt_succ_of_lt hp)
      rw [List.range_succ, List.map_append, List.map_singleton, readPages_append, pages_succ]
      simp only [Option.bind_eq_some_iff, Option.map_eq_some_iff, hold, hlast, List.mem_append,
        List.map_append]
      constructor
      · rintro ⟨_, ⟨hall, rfl⟩, _, ⟨hall', rfl⟩, rfl⟩
        exact ⟨fun r hr => hr.elim (hall r) (hall' r), rfl⟩
      · rintro ⟨hall, rfl⟩
        exact ⟨_, ⟨fun r hr => hall r (.inl hr), rfl⟩, _,
          ⟨fun r hr => hall r (.inr hr), rfl⟩, rfl⟩

/-- The pages show the whole board: they read as one query for all of it would, in an order of its
own. -/
def PagesRight {κ : Type} [LinearOrder κ] (key : ρ → κ) (rows : List ρ)
    (f : ρ → Option σ) (count : Nat)
    (answer : Nat → Arranged key rows → Option (Except Rejection (List σ))) : Prop :=
  ∀ arr : Nat → Arranged key rows, ∃ (a : Arranged key rows) (es : List σ),
    decoded f a.list = .ok es ∧
    readPages ((List.range count).map fun p => answer p (arr p)) = some es

theorem pagesRight_nil {κ : Type} [LinearOrder κ] {key : ρ → κ} {rows : List ρ}
    {f : ρ → Option σ}
    {answer : Nat → Arranged key rows → Option (Except Rejection (List σ))} (h : rows = []) :
    PagesRight key rows f 0 answer := by
  intro arr
  have hlist : (arr 0).list = [] :=
    List.length_eq_zero_iff.1 ((arr 0).length_eq.trans (List.length_eq_zero_iff.2 h))
  refine ⟨arr 0, [], ?_, rfl⟩
  rw [hlist]
  rfl

/-- Where a request for the first page is refused, there is nothing to read. -/
theorem not_pagesRight_of_error {κ : Type} [LinearOrder κ] {key : ρ → κ} {rows : List ρ}
    {f : ρ → Option σ} {count : Nat}
    {answer : Nat → Arranged key rows → Option (Except Rejection (List σ))} {e : Rejection}
    (hcount : 0 < count) (h : ∀ a, answer 0 a = some (.error e)) :
    ¬PagesRight key rows f count answer := by
  intro hright
  obtain ⟨-, es, -, hread⟩ := hright fun _ => Arranged.sort key rows
  obtain ⟨n, rfl⟩ := Nat.exists_eq_succ_of_ne_zero hcount.ne'
  rw [List.range_succ_eq_map, List.map_cons, h] at hread
  cases hread

/-- The pages do not show more than they hold. -/
theorem PagesRight.length_le [Inhabited σ] {κ : Type} [LinearOrder κ] {key : ρ → κ}
    {rows : List ρ} {n count : Nat} {f : ρ → Option σ}
    {answer : Nat → Arranged key rows → Option (Except Rejection (List σ))}
    (hright : PagesRight key rows f count answer)
    (h : ∀ p < count, ∀ a,
      answer p a = some ((decoded f (window n (n * p) a.list)).mapError .api)) :
    rows.length ≤ n * count := by
  have hfg : ∀ r s, f r = some s → s = (f r).getD default := eq_getD_of_eq_some
  obtain ⟨a, es, hes, hread⟩ := hright fun _ => Arranged.sort key rows
  obtain ⟨-, hpages⟩ := (readPages_eq_some_iff hfg fun p hp => h p hp _).1 hread
  have hlen : es.length = rows.length := by
    rw [((decoded_eq_ok_iff hfg).1 hes).2, List.length_map, a.length_eq]
  rw [← hlen, hpages, List.length_map]
  exact length_pages_le n count _

/-- Where each page is the window it should be, the pages show the whole board exactly if every row
decodes and no boundary comes between rows with equal keys. -/
theorem pagesRight_iff [Inhabited σ] {κ : Type} [LinearOrder κ] {key : ρ → κ}
    {rows : List ρ} {n count : Nat} {f : ρ → Option σ}
    {answer : Nat → Arranged key rows → Option (Except Rejection (List σ))} (hn : 0 < n)
    (hrows : rows.Nodup) (hcount : rows.length ≤ n * count)
    (hdistinct : ∀ r ∈ rows, ∀ r' ∈ rows, (f r).isSome → f r = f r' → r = r')
    (h : ∀ p < count, ∀ a,
      answer p a = some ((decoded f (window n (n * p) a.list)).mapError .api)) :
    PagesRight key rows f count answer ↔ (∀ r ∈ rows, (f r).isSome) ∧
    Parted key rows n := by
  let g : ρ → σ := fun r => (f r).getD default
  have hfg : ∀ r s, f r = some s → s = g r := eq_getD_of_eq_some
  have hread : ∀ (arr : Nat → Arranged key rows) es,
      readPages ((List.range count).map fun p => answer p (arr p)) = some es ↔
        (∀ r ∈ pages n count arr, (f r).isSome) ∧ es = (pages n count arr).map g :=
    fun arr es => readPages_eq_some_iff hfg fun p hp => h p hp (arr p)
  constructor
  · intro hright
    have hall : ∀ r ∈ rows, (f r).isSome := by
      obtain ⟨a, es, hes, -⟩ := hright fun _ => Arranged.sort key rows
      exact fun r hr => ((decoded_eq_ok_iff hfg).1 hes).1 r (a.mem_iff.2 hr)
    have hinj : ∀ r ∈ rows, ∀ r' ∈ rows, g r = g r' → r = r' := by
      intro r hr r' hr' he
      obtain ⟨s, hs⟩ := Option.isSome_iff_exists.1 (hall r hr)
      obtain ⟨s', hs'⟩ := Option.isSome_iff_exists.1 (hall r' hr')
      refine hdistinct r hr r' hr' (hall r hr) ?_
      rw [hs, hs', hfg r s hs, hfg r' s' hs', he]
    refine ⟨hall, (nodup_pages_iff hn hrows hcount).1 fun arr => ?_⟩
    obtain ⟨a, es, hes, hpages⟩ := hright arr
    obtain ⟨-, rfl⟩ := (decoded_eq_ok_iff hfg).1 hes
    obtain ⟨-, hmap⟩ := (hread arr _).1 hpages
    have hnd : (a.list.map g).Nodup :=
      (a.perm.nodup_iff.2 hrows).map_on fun r hr r' hr' => hinj r (a.mem_iff.1 hr) r'
        (a.mem_iff.1 hr')
    rw [hmap] at hnd
    exact hnd.of_map
  · rintro ⟨hall, hparted⟩ arr
    obtain ⟨a, ha⟩ := pages_arranged hparted hcount arr
    refine ⟨a, a.list.map g, (decoded_eq_ok_iff hfg).2
      ⟨fun r hr => hall r (a.mem_iff.1 hr), rfl⟩, ?_⟩
    exact (hread arr _).2 ⟨fun r hr => hall r (mem_rows_of_mem_pages hr), by rw [ha]⟩

end Dd2Server.Boards
