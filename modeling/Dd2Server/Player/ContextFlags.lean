import Mathlib.Data.List.FinRange
import Mathlib.Data.Nat.GCD.BigOperators
import Mathlib.Data.Fintype.Basic
import Mathlib.Logic.Function.Basic
import Mathlib.Tactic.Ring

/-!
# Context flags

A client packs fifteen flags into one number, a product of coefficients with the powers of two
trimmed off.  The decoder divides the coefficients out one after the other.  What makes it agree
with the encoder is that the odd parts of the coefficients are pairwise coprime, and that the
largest product on the way stays below `2 ^ 64`.
-/

namespace Dd2Server

namespace Player

/-! ## Tables -/

/-- `CONTEXT_COEFFICIENTS`. -/
def contextCoefficients : Vector Nat 15 :=
  #v[69, 59, 136, 1, 26, 77, 41, 1, 95, 53, 1, 1, 86, 62, 89]

/-- `CONTEXT_MAP_CYPHER_TO_PLAIN`, from shuffled to plain order. -/
def contextMapCypherToPlainTable : Vector Int 15 :=
  #v[6, 1, 14, -1, 12, 0, 8, -1, 13, 5, -1, -1, 2, 4, 9]

/-- `CONTEXT_MAP_PLAIN_TO_CYPHER`. -/
def contextMapPlainToCypherTable : Vector Int 15 :=
  #v[5, 1, 12, -1, 13, 9, 0, -1, 6, 14, -1, -1, 4, 8, 2]

/-- An index of an array of fifteen, `none` where the access panics. -/
def index (n : Int) : Option (Fin 15) :=
  if h : 0 ≤ n ∧ n.toNat < 15 then some ⟨n.toNat, h.2⟩ else none

def contextMapCypherToPlain (cypher : Fin 15) : Option (Fin 15) :=
  let ret := contextMapCypherToPlainTable.get cypher
  if ret = -1 then some cypher else index ret

def contextMapPlainToCypher (plain : Fin 15) : Option (Fin 15) :=
  let ret := contextMapPlainToCypherTable.get plain
  if ret = -1 then some plain else index ret

/-! ## Encoding and decoding -/

/-- `while ret & 1 == 0 { ret = ret >> 1 }`, `none` where `fuel` rounds do not end it. -/
def trimTwos : (fuel : Nat) → Nat → Option Nat
  | 0, ret => if ret % 2 = 0 then none else some ret
  | fuel + 1, ret => if ret % 2 = 0 then trimTwos fuel (ret / 2) else some ret

/-- `while c & 1 == 0 && c > 0 { c = c >> 1 }`. -/
def trimPositive : (fuel : Nat) → Nat → Option Nat
  | 0, c => if c % 2 = 0 ∧ 0 < c then none else some c
  | fuel + 1, c => if c % 2 = 0 ∧ 0 < c then trimPositive fuel (c / 2) else some c

/-- The product of two `u64`, `none` where it overflows. -/
def mulU64 (a b : Nat) : Option Nat := if a * b < 2 ^ 64 then some (a * b) else none

/-- One round of the loop of `encode_context_flags`. -/
def encodeStep (arr : Fin 15 → Bool) (ret : Nat) (i : Fin 15) : Option Nat := do
  let ret ← if arr i then do
      let cypher ← contextMapPlainToCypher i
      mulU64 ret (contextCoefficients.get cypher)
    else some ret
  trimTwos 64 ret

def encodeContextFlags (arr : Fin 15 → Bool) : Option Nat :=
  (List.finRange 15).foldlM (encodeStep arr) 1

/-- The flags that are left, and what is decoded. -/
structure Decoding where
  flags : Nat
  plain : Fin 15 → Bool

/-- One round of the loop of `decode_context_flags`, `none` where it divides by zero. -/
def decodeStep (d : Decoding) (i : Fin 15) : Option Decoding :=
  if contextCoefficients.get i < 2 then some d
  else do
    let c ← trimPositive 64 (contextCoefficients.get i)
    if c = 0 then none
    else if d.flags % c = 0 then do
      let plain ← contextMapCypherToPlain i
      return { flags := d.flags / c, plain := Function.update d.plain plain true }
    else return d

def decodeContextFlags (flags : Nat) : Option (Fin 15 → Bool) :=
  if flags = 0 then some fun _ => false
  else ((List.finRange 15).foldlM decodeStep { flags, plain := fun _ => false }).map Decoding.plain

/-- `check_flags_sf_mi`. -/
def checkFlagsSfMi (sf _mi : Nat) : Option Bool :=
  (decodeContextFlags sf).map fun sfs =>
    if sfs 5 || sfs 7 || sfs 9 || sfs 11 then false else sfs 2 || sfs 3 || sfs 4

/-! ## Odd parts -/

/-- `c` is `n` without its factors two. -/
def OddPart (c n : Nat) : Prop := c % 2 = 1 ∧ ∃ k, n = 2 ^ k * c

theorem trimTwos_pow {m : Nat} (hm : m % 2 = 1) {k fuel : Nat} (hk : k ≤ fuel) :
    trimTwos fuel (2 ^ k * m) = some m := by
  induction k generalizing fuel with
  | zero => cases fuel <;> simp [trimTwos, hm]
  | succ k ih =>
      cases fuel with
      | zero => cases hk
      | succ fuel =>
          have hdouble : 2 ^ (k + 1) * m = 2 * (2 ^ k * m) := by rw [Nat.pow_succ]; ring
          have heven : 2 ^ (k + 1) * m % 2 = 0 := by omega
          have hhalf : 2 ^ (k + 1) * m / 2 = 2 ^ k * m := by omega
          rw [trimTwos, if_pos heven, hhalf]
          exact ih (Nat.le_of_succ_le_succ hk)

theorem OddPart.unique {c c' n : Nat} (h : OddPart c n) (h' : OddPart c' n) : c = c' := by
  obtain ⟨hc, k, hk⟩ := h
  obtain ⟨hc', k', hk'⟩ := h'
  have htrim : trimTwos (max k k') n = some c := by
    rw [hk]
    exact trimTwos_pow hc (Nat.le_max_left k k')
  rw [hk', trimTwos_pow hc' (Nat.le_max_right k k')] at htrim
  exact (Option.some.inj htrim).symm

/-! ## Facts of the tables -/

/-- The odd parts of the coefficients. -/
def oddCoefficients : Fin 15 → Nat :=
  #v[69, 59, 17, 1, 13, 77, 41, 1, 95, 53, 1, 1, 43, 31, 89].get

/-- How many factors two the coefficients have. -/
def twos : Fin 15 → Nat := #v[0, 0, 3, 0, 1, 0, 0, 0, 0, 0, 0, 0, 1, 1, 0].get

/-- The two maps where they have an entry, and the identity elsewhere. -/
def plainOf : Fin 15 → Fin 15 := #v[6, 1, 14, 3, 12, 0, 8, 7, 13, 5, 10, 11, 2, 4, 9].get

def cypherOf : Fin 15 → Fin 15 := #v[5, 1, 12, 3, 13, 9, 0, 7, 6, 14, 10, 11, 4, 8, 2].get

theorem coefficient_eq : ∀ i : Fin 15,
    contextCoefficients.get i = 2 ^ twos i * oddCoefficients i ∧ twos i ≤ 64 := by decide

theorem oddCoefficient_odd : ∀ i : Fin 15, oddCoefficients i % 2 = 1 := by decide

theorem oddCoefficient_one_lt : ∀ i : Fin 15, ¬contextCoefficients.get i < 2 ↔
    1 < oddCoefficients i := by
  decide

theorem oddCoefficient_coprime : ∀ i j : Fin 15, i ≠ j →
    Nat.Coprime (oddCoefficients i) (oddCoefficients j) := by decide

theorem oddPart_coefficient (i : Fin 15) :
    OddPart (oddCoefficients i) (contextCoefficients.get i) :=
  ⟨oddCoefficient_odd i, twos i, (coefficient_eq i).1⟩

theorem trimPositive_coefficient : ∀ i : Fin 15, ¬contextCoefficients.get i < 2 →
    trimPositive 64 (contextCoefficients.get i) = some (oddCoefficients i) := by decide

theorem contextMapCypherToPlain_eq : ∀ i, contextMapCypherToPlain i = some (plainOf i) := by
  decide

theorem contextMapPlainToCypher_eq : ∀ i, contextMapPlainToCypher i = some (cypherOf i) := by
  decide

theorem plainOf_cypherOf : ∀ i : Fin 15, plainOf (cypherOf i) = i := by decide

theorem cypherOf_plainOf : ∀ i : Fin 15, cypherOf (plainOf i) = i := by decide

/-! ## Decoding -/

/-- The plain indices whose odd part divides the flags. -/
def divisors (is : List (Fin 15)) (flags : Nat) (plain : Fin 15) : Prop :=
  ∃ i ∈ is, 1 < oddCoefficients i ∧ plainOf i = plain ∧ oddCoefficients i ∣ flags

theorem divisors_nil {flags : Nat} {plain : Fin 15} : ¬divisors [] flags plain := by
  rintro ⟨i, hi, -⟩
  cases hi

theorem divisors_cons {i : Fin 15} {is : List (Fin 15)} {flags : Nat} {plain : Fin 15} :
    divisors (i :: is) flags plain ↔
      (1 < oddCoefficients i ∧ plainOf i = plain ∧ oddCoefficients i ∣ flags) ∨
        divisors is flags plain := by
  simp only [divisors, List.mem_cons, exists_eq_or_imp]

/-- What was divided out does not change what else divides. -/
theorem dvd_div_iff {c c' flags : Nat} (hcop : Nat.Coprime c' c) (hdvd : c ∣ flags) (hc : 0 < c) :
    c' ∣ flags / c ↔ c' ∣ flags := by
  obtain ⟨q, rfl⟩ := hdvd
  rw [Nat.mul_div_cancel_left q hc]
  exact ⟨fun h => h.mul_left c, hcop.dvd_of_dvd_mul_left⟩

theorem divisors_div {i : Fin 15} {is : List (Fin 15)} (hi : i ∉ is) {flags : Nat}
    {plain : Fin 15} (hdvd : oddCoefficients i ∣ flags) (hpos : 0 < oddCoefficients i) :
    divisors is (flags / oddCoefficients i) plain ↔ divisors is flags plain := by
  refine exists_congr fun j => and_congr_right fun hj => and_congr_right
    fun _ => and_congr_right fun _ => ?_
  have hne : j ≠ i := fun he => hi (he ▸ hj)
  exact dvd_div_iff (oddCoefficient_coprime j i hne) hdvd hpos

theorem decodeSteps_eq {is : List (Fin 15)} (his : is.Nodup) (d : Decoding) :
    ∃ d', is.foldlM decodeStep d = some d' ∧
      ∀ plain, d'.plain plain = true ↔ d.plain plain = true ∨ divisors is d.flags plain := by
  induction is generalizing d with
  | nil => exact ⟨d, rfl, fun plain => by simp [divisors_nil]⟩
  | cons i is ih =>
      obtain ⟨hi, his⟩ := List.nodup_cons.1 his
      rw [List.foldlM_cons, decodeStep]
      by_cases hone : contextCoefficients.get i < 2
      · obtain ⟨d', hd', hplain⟩ := ih his d
        have hodd : ¬1 < oddCoefficients i := fun h => (oddCoefficient_one_lt i).2 h hone
        refine ⟨d', by rw [if_pos hone]; exact hd', fun plain => ?_⟩
        rw [hplain, divisors_cons]
        simp only [hodd, false_and, false_or]
      · have hodd := (oddCoefficient_one_lt i).1 hone
        have hpos : 0 < oddCoefficients i := Nat.lt_of_succ_lt hodd
        rw [if_neg hone, trimPositive_coefficient i hone]
        simp only [Option.bind_eq_bind, Option.bind_some, if_neg hpos.ne']
        by_cases hdvd : d.flags % oddCoefficients i = 0
        · have hdvd' := Nat.dvd_of_mod_eq_zero hdvd
          rw [if_pos hdvd, contextMapCypherToPlain_eq, Option.bind_some]
          obtain ⟨d', hd', hplain⟩ := ih his
            { flags := d.flags / oddCoefficients i,
              plain := Function.update d.plain (plainOf i) true }
          refine ⟨d', hd', fun plain => ?_⟩
          rw [hplain, divisors_cons, divisors_div hi hdvd' hpos]
          by_cases hp : plain = plainOf i
          · subst hp
            exact iff_of_true (.inl (Function.update_self ..)) (.inr (.inl ⟨hodd, rfl, hdvd'⟩))
          · have hp' : plainOf i ≠ plain := Ne.symm hp
            simp only [Function.update_of_ne hp, hp', false_and, and_false, false_or]
        · have hdvd' : ¬oddCoefficients i ∣ d.flags := fun h => hdvd (Nat.mod_eq_zero_of_dvd h)
          obtain ⟨d', hd', hplain⟩ := ih his d
          refine ⟨d', by rw [if_neg hdvd]; exact hd', fun plain => ?_⟩
          rw [hplain, divisors_cons]
          simp only [hdvd', and_false, false_or]

/-- The decoder ends, and an index is set exactly when the odd part of its coefficient divides. -/
theorem decodeContextFlags_spec {flags : Nat} (hflags : flags ≠ 0) :
    ∃ plain, decodeContextFlags flags = some plain ∧
      ∀ k, plain k = true ↔ divisors (List.finRange 15) flags k := by
  obtain ⟨d, hd, hplain⟩ :=
    decodeSteps_eq (List.nodup_finRange 15) { flags, plain := fun _ => false }
  refine ⟨d.plain, by rw [decodeContextFlags, if_neg hflags, hd]; rfl, fun k => ?_⟩
  rw [hplain]
  simp

theorem divisors_plainOf {i : Fin 15} {flags : Nat} (hi : 1 < oddCoefficients i) :
    divisors (List.finRange 15) flags (plainOf i) ↔ oddCoefficients i ∣ flags := by
  constructor
  · rintro ⟨j, -, -, hj, hdvd⟩
    have hji : j = i := by
      rw [← cypherOf_plainOf j, ← cypherOf_plainOf i, hj]
    rwa [hji] at hdvd
  · exact fun hdvd => ⟨i, List.mem_finRange i, hi, rfl, hdvd⟩

/-! ## Encoding -/

/-- The product of the odd parts of the flags that are set. -/
def product (arr : Fin 15 → Bool) : List (Fin 15) → Nat
  | [] => 1
  | i :: is => (if arr i then oddCoefficients (cypherOf i) else 1) * product arr is

/-- From a number up to `b` on, no round of the encoder overflows. -/
def roomFrom : List (Fin 15) → Nat → Bool
  | [], _ => true
  | i :: is, b => decide (b * contextCoefficients.get (cypherOf i) < 2 ^ 64) &&
      roomFrom is (b * oddCoefficients (cypherOf i))

theorem roomFrom_all : roomFrom (List.finRange 15) 1 = true := by decide

theorem encodeSteps_eq (arr : Fin 15 → Bool) {is : List (Fin 15)} {ret b : Nat}
    (hodd : ret % 2 = 1) (hle : ret ≤ b) (hroom : roomFrom is b = true) :
    is.foldlM (encodeStep arr) ret = some (ret * product arr is) := by
  induction is generalizing ret b with
  | nil => simp [product]
  | cons i is ih =>
      simp only [roomFrom, Bool.and_eq_true, decide_eq_true_eq] at hroom
      obtain ⟨hfits, hroom⟩ := hroom
      rw [List.foldlM_cons, encodeStep]
      have hcoeff := coefficient_eq (cypherOf i)
      cases harr : arr i with
      | false =>
          have htrim : trimTwos 64 ret = some ret := by
            have h := trimTwos_pow hodd (Nat.zero_le 64)
            rwa [Nat.pow_zero, Nat.one_mul] at h
          have hle' : ret ≤ b * oddCoefficients (cypherOf i) :=
            hle.trans (Nat.le_mul_of_pos_right b
              (by have := oddCoefficient_odd (cypherOf i); omega))
          simp only [Bool.false_eq_true, if_false, Option.bind_eq_bind, Option.bind_some, htrim,
            ih hodd hle' hroom, product, harr, Nat.one_mul]
      | true =>
          have hmul : ret * contextCoefficients.get (cypherOf i) < 2 ^ 64 :=
            Nat.lt_of_le_of_lt (Nat.mul_le_mul_right _ hle) hfits
          have hodd' : ret * oddCoefficients (cypherOf i) % 2 = 1 := by
            rw [Nat.mul_mod, hodd, oddCoefficient_odd]
          have htrim : trimTwos 64 (ret * contextCoefficients.get (cypherOf i)) =
              some (ret * oddCoefficients (cypherOf i)) := by
            have h := trimTwos_pow hodd' hcoeff.2
            rw [hcoeff.1]
            rwa [Nat.mul_left_comm] at h
          simp only [if_true, contextMapPlainToCypher_eq, Option.bind_eq_bind,
            Option.bind_some, mulU64, if_pos hmul, htrim,
              ih hodd' (Nat.mul_le_mul_right _ hle) hroom, product, harr, Nat.mul_assoc]

theorem cypherOf_inj {i k : Fin 15} (h : cypherOf i = cypherOf k) : i = k := by
  rw [← plainOf_cypherOf i, ← plainOf_cypherOf k, h]

theorem dvd_product {arr : Fin 15 → Bool} {k : Fin 15} (hk : 1 < oddCoefficients (cypherOf k))
    (is : List (Fin 15)) :
    oddCoefficients (cypherOf k) ∣ product arr is ↔ k ∈ is ∧ arr k = true := by
  induction is with
  | nil =>
      simp only [product, Nat.dvd_one, List.not_mem_nil, false_and, iff_false]
      exact hk.ne'
  | cons i is ih =>
      rw [product]
      by_cases hi : i = k
      · subst hi
        cases harr : arr i with
        | false =>
            simp only [harr, Bool.false_eq_true, and_false, iff_false] at ih
            simp only [Bool.false_eq_true, if_false, Nat.one_mul, and_false, iff_false]
            exact ih
        | true =>
            simp only [if_true, and_true, List.mem_cons_self, iff_true]
            exact Nat.dvd_mul_right _ _
      · have hcop : Nat.Coprime (oddCoefficients (cypherOf k))
            (if arr i then oddCoefficients (cypherOf i) else 1) := by
          split
          · exact oddCoefficient_coprime _ _ fun h => hi (cypherOf_inj h).symm
          · exact Nat.coprime_one_right _
        have hmem : k ∈ i :: is ↔ k ∈ is := by
          rw [List.mem_cons]
          exact or_iff_right (Ne.symm hi)
        rw [hmem, ← ih]
        exact ⟨hcop.dvd_of_dvd_mul_left, fun h => h.mul_left _⟩

theorem product_le (arr : Fin 15 → Bool) (is : List (Fin 15)) :
    product arr is ≤ product (fun _ => true) is := by
  induction is with
  | nil => exact Nat.le_refl 1
  | cons i is ih =>
      have hodd := oddCoefficient_odd (cypherOf i)
      refine Nat.mul_le_mul ?_ ih
      split <;> simp only [if_true] <;> omega

/-- The encoder never overflows, and its result is the product. -/
theorem encodeContextFlags_eq (arr : Fin 15 → Bool) :
    encodeContextFlags arr = some (product arr (List.finRange 15)) := by
  rw [encodeContextFlags, encodeSteps_eq arr (by decide) (Nat.le_refl 1) roomFrom_all, Nat.one_mul]

theorem product_lt (arr : Fin 15 → Bool) : product arr (List.finRange 15) < 2 ^ 64 :=
  Nat.lt_of_le_of_lt (product_le arr _) (by decide)

theorem product_ne_zero (arr : Fin 15 → Bool) (is : List (Fin 15)) : product arr is ≠ 0 := by
  induction is with
  | nil => exact Nat.one_ne_zero
  | cons i is ih =>
      have hodd := oddCoefficient_odd (cypherOf i)
      refine Nat.mul_ne_zero ?_ ih
      split <;> omega

theorem spare_indices : ∀ i : Fin 15, i ∉ [3, 7, 10, 11] →
    1 < oddCoefficients (cypherOf i) := by decide

theorem decode_encode (arr : Fin 15 → Bool) : ∃ plain,
    decodeContextFlags (product arr (List.finRange 15)) = some plain ∧
      ∀ i, i ∉ [3, 7, 10, 11] → plain i = arr i := by
  obtain ⟨plain, hdec, hplain⟩ :=
    decodeContextFlags_spec (product_ne_zero arr (List.finRange 15))
  refine ⟨plain, hdec, fun i hi => ?_⟩
  have hodd := spare_indices i hi
  rw [Bool.eq_iff_iff, hplain]
  have hdvd : oddCoefficients (cypherOf i) ∣ product arr (List.finRange 15) ↔
      i ∈ List.finRange 15 ∧ arr i = true := dvd_product hodd (List.finRange 15)
  rw [← divisors_plainOf hodd, plainOf_cypherOf] at hdvd
  rw [hdvd]
  exact and_iff_right (List.mem_finRange i)

/-! ## The check -/

theorem decoded_set {flags : Nat} {plain : Fin 15 → Bool}
    (h : ∀ k, plain k = true ↔ divisors (List.finRange 15) flags k) (i : Fin 15)
    (hi : 1 < oddCoefficients i) : plain (plainOf i) = decide (oddCoefficients i ∣ flags) := by
  rw [Bool.eq_iff_iff, h, divisors_plainOf hi, decide_eq_true_eq]

theorem decoded_spare {flags : Nat} {plain : Fin 15 → Bool}
    (h : ∀ k, plain k = true ↔ divisors (List.finRange 15) flags k) (k : Fin 15)
    (hk : oddCoefficients (cypherOf k) = 1) : plain k = false := by
  rw [Bool.eq_false_iff, ne_eq, h]
  rintro ⟨i, -, hi, rfl, -⟩
  rw [cypherOf_plainOf] at hk
  omega

theorem checkFlagsSfMi_spec (sf mi : Nat) : ∃ b, checkFlagsSfMi sf mi = some b ∧
    (b = true ↔ sf ≠ 0 ∧ (43 ∣ sf ∨ 31 ∣ sf) ∧ ¬53 ∣ sf ∧ ¬89 ∣ sf) := by
  by_cases hsf : sf = 0
  · exact ⟨false, by rw [checkFlagsSfMi, decodeContextFlags, if_pos hsf]; rfl, by simp [hsf]⟩
  · obtain ⟨plain, hdec, hplain⟩ := decodeContextFlags_spec hsf
    refine ⟨_, by rw [checkFlagsSfMi, hdec]; rfl, ?_⟩
    have h5 : plain 5 = decide (53 ∣ sf) := decoded_set hplain 9 (by decide)
    have h9 : plain 9 = decide (89 ∣ sf) := decoded_set hplain 14 (by decide)
    have h2 : plain 2 = decide (43 ∣ sf) := decoded_set hplain 12 (by decide)
    have h4 : plain 4 = decide (31 ∣ sf) := decoded_set hplain 13 (by decide)
    dsimp only
    rw [h5, h9, h2, h4, decoded_spare hplain 3 (by decide), decoded_spare hplain 7 (by decide),
      decoded_spare hplain 11 (by decide)]
    by_cases h53 : 53 ∣ sf <;> by_cases h89 : 89 ∣ sf <;> simp [h53, h89, hsf]

/-- The decoder ends on every value, with nothing set on zero and else the indices whose
coefficients' odd parts divide; the encoder never overflows and is inverted by the decoder; and the
check is a condition on four divisors. -/
theorem context_flags :
    (∀ flags, ∃ plain, decodeContextFlags flags = some plain ∧
      (flags = 0 → ∀ k, plain k = false) ∧
      (flags ≠ 0 → ∀ i k c, 1 < contextCoefficients.get i →
        contextMapCypherToPlain i = some k → OddPart c (contextCoefficients.get i) →
        (plain k = true ↔ c ∣ flags))) ∧
    (∀ arr, ∃ code, encodeContextFlags arr = some code ∧ code < 2 ^ 64 ∧
      ∃ plain, decodeContextFlags code = some plain ∧
        ∀ i, i ∉ [3, 7, 10, 11] → plain i = arr i) ∧
    ∀ sf mi, ∃ b, checkFlagsSfMi sf mi = some b ∧
      (b = true ↔ sf ≠ 0 ∧ (43 ∣ sf ∨ 31 ∣ sf) ∧ ¬53 ∣ sf ∧ ¬89 ∣ sf) := by
  refine ⟨fun flags => ?_, fun arr => ?_, checkFlagsSfMi_spec⟩
  · by_cases hflags : flags = 0
    · exact ⟨fun _ => false, by rw [decodeContextFlags, if_pos hflags], fun _ _ => rfl,
        fun hne => absurd hflags hne⟩
    · obtain ⟨plain, hdec, hplain⟩ := decodeContextFlags_spec hflags
      refine ⟨plain, hdec, fun h => absurd h hflags, fun _ i k c hi hk hc => ?_⟩
      have hodd := (oddCoefficient_one_lt i).1 (by omega)
      rw [contextMapCypherToPlain_eq] at hk
      cases hk
      rw [hc.unique (oddPart_coefficient i), hplain, divisors_plainOf hodd]
  · exact ⟨_, encodeContextFlags_eq arr, product_lt arr, decode_encode arr⟩

end Player

end Dd2Server
