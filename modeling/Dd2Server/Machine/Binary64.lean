import Mathlib.Data.Rat.Floor
import Mathlib.Data.Int.Log
import Mathlib.Tactic.Linarith
import Mathlib.Tactic.Ring

/-!
# Rounding to binary64

The binary64 number next to a positive rational in the normal range, of two equally near ones the
even one.  A cast of an integer and a quotient round once.
-/

namespace Machine.Binary64

/-- The integer next to `x`, of two equally near ones the even one. -/
def nearest (x : ℚ) : ℤ :=
  if x - ⌊x⌋ < 1 / 2 then ⌊x⌋
  else if 1 / 2 < x - ⌊x⌋ then ⌊x⌋ + 1
  else if ⌊x⌋ % 2 = 0 then ⌊x⌋
  else ⌊x⌋ + 1

/-- The distance of the binary64 numbers around `q`. -/
def ulp (q : ℚ) : ℚ := 2 ^ (Int.log 2 q - 52)

/-- The binary64 number next to a positive `q`; zero is itself. -/
def round (q : ℚ) : ℚ := nearest (q / ulp q) * ulp q

theorem nearest_intCast (z : ℤ) : nearest z = z := by
  rw [nearest, if_pos] <;> simp

theorem nearest_le {x : ℚ} {z : ℤ} (h : x ≤ z) : nearest x ≤ z := by
  have hfloor : ⌊x⌋ ≤ z := by exact_mod_cast (Int.floor_le x).trans h
  rcases hfloor.eq_or_lt with he | hlt
  · have hx : x = z := le_antisymm h (he ▸ Int.floor_le x)
    rw [hx, nearest_intCast]
  · unfold nearest
    split <;> [skip; split <;> [skip; split]] <;> omega

theorem abs_nearest_sub (x : ℚ) : |(nearest x : ℚ) - x| ≤ 1 / 2 := by
  have hlo : (⌊x⌋ : ℚ) ≤ x := Int.floor_le x
  have hhi : x < ⌊x⌋ + 1 := Int.lt_floor_add_one x
  unfold nearest
  rw [abs_le]
  split <;> [skip; split <;> [skip; split]] <;> push_cast <;> constructor <;> linarith

theorem ulp_pos (q : ℚ) : 0 < ulp q := zpow_pos (by norm_num) _

theorem two_pow_mul_ulp (q : ℚ) : 2 ^ (52 : ℤ) * ulp q = 2 ^ Int.log 2 q := by
  rw [ulp, ← zpow_add₀ (by norm_num : (2 : ℚ) ≠ 0)]
  congr 1
  omega

theorem two_pow_log_le {q : ℚ} (hq : 0 < q) : 2 ^ Int.log 2 q ≤ q := by
  simpa using Int.zpow_log_le_self (b := 2) (by norm_num) hq

theorem lt_two_pow_log (q : ℚ) : q < 2 ^ (Int.log 2 q + 1) := by
  simpa using Int.lt_zpow_succ_log_self (b := 2) (by norm_num) q

@[simp] theorem round_zero : round 0 = 0 := by
  have h : nearest 0 = 0 := by simpa using nearest_intCast 0
  rw [round, zero_div, h, Int.cast_zero, zero_mul]

/-- The error of one rounding. -/
theorem abs_round_sub {q : ℚ} (hq : 0 < q) : |round q - q| ≤ q / 2 ^ 53 := by
  have hu := ulp_pos q
  have hdiff : round q - q = ((nearest (q / ulp q) : ℚ) - q / ulp q) * ulp q := by
    rw [sub_mul, div_mul_cancel₀ q hu.ne', round]
  have hulp : 2 ^ 52 * ulp q ≤ q := by
    have h := two_pow_mul_ulp q
    rw [zpow_ofNat] at h
    rw [h]
    exact two_pow_log_le hq
  calc |round q - q| = |(nearest (q / ulp q) : ℚ) - q / ulp q| * ulp q := by
        rw [hdiff, abs_mul, abs_of_pos hu]
    _ ≤ 1 / 2 * ulp q := mul_le_mul_of_nonneg_right (abs_nearest_sub _) hu.le
    _ ≤ q / 2 ^ 53 := by
        rw [le_div_iff₀ (by norm_num)]
        linarith

theorem round_pos {q : ℚ} (hq : 0 < q) : 0 < round q := by
  have h := (abs_le.1 (abs_round_sub hq)).1
  have hsmall : q / 2 ^ 53 < q := div_lt_self hq (by norm_num)
  linarith

/-- What fits in 53 bits is not rounded. -/
theorem round_natCast {n : ℕ} (hn : n < 2 ^ 53) : round n = n := by
  rcases Nat.eq_zero_or_pos n with rfl | hpos
  · simp
  · have hq : (0 : ℚ) < n := by exact_mod_cast hpos
    have hlog : Int.log 2 (n : ℚ) = Nat.log 2 n := by
      rw [Int.log_natCast]
    have hle : Nat.log 2 n ≤ 52 := by
      have hlt : Nat.log 2 n < 53 := Nat.log_lt_of_lt_pow hpos.ne' hn
      omega
    have hscaled : (n : ℚ) / ulp n = ((n * 2 ^ (52 - Nat.log 2 n) : ℕ) : ℤ) := by
      rw [ulp, hlog, div_eq_iff (zpow_pos (by norm_num) _).ne']
      push_cast
      rw [mul_assoc, ← zpow_natCast, ← zpow_add₀ (by norm_num : (2 : ℚ) ≠ 0),
        Nat.cast_sub hle]
      simp
    rw [round, hscaled, nearest_intCast, ← hscaled, div_mul_cancel₀ _ (ulp_pos _).ne']

theorem round_le_one {q : ℚ} (hq : 0 < q) (h : q ≤ 1) : round q ≤ 1 := by
  rcases h.eq_or_lt with rfl | hlt
  · have hone : round ((1 : ℕ) : ℚ) = ((1 : ℕ) : ℚ) := round_natCast (by norm_num)
    rw [Nat.cast_one] at hone
    exact hone.le
  · have hlog : Int.log 2 q < 0 := by
      rw [← Int.lt_zpow_iff_log_lt (by norm_num) hq]
      simpa using hlt
    have hu := ulp_pos q
    have hmul : 2 ^ (53 : ℕ) * ulp q = 2 ^ (Int.log 2 q + 1) := by
      rw [zpow_add_one₀ (by norm_num), ← two_pow_mul_ulp q, zpow_ofNat]
      ring
    have hscaled : q / ulp q ≤ ((2 ^ 53 : ℤ) : ℚ) := by
      rw [div_le_iff₀ hu, Int.cast_pow, Int.cast_ofNat, hmul]
      exact (lt_two_pow_log q).le
    have hn : (nearest (q / ulp q) : ℚ) ≤ 2 ^ 53 := by exact_mod_cast nearest_le hscaled
    calc round q ≤ 2 ^ (53 : ℕ) * ulp q := mul_le_mul_of_nonneg_right hn hu.le
      _ = 2 ^ (Int.log 2 q + 1) := hmul
      _ ≤ 1 := zpow_le_one_of_nonpos₀ (by norm_num) (by omega)

end Machine.Binary64
