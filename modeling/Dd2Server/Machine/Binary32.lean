import Mathlib.Algebra.Order.Field.Rat
import Mathlib.Order.Monotone.Basic
import Mathlib.Tactic.NormNum

/-!
# The order of the binary32 numbers

A finite binary32 number without its sign bit is a natural number below `255 * 2 ^ 23`: an exponent
and 23 bits of the fraction.  These numbers are in the order of the values they stand for.
-/

namespace Machine.Binary32

/-- The value of the bits without the sign, in units of the least positive number. -/
def magnitude (n : Nat) : Nat :=
  if n < 2 ^ 23 then n else (2 ^ 23 + n % 2 ^ 23) * 2 ^ (n / 2 ^ 23 - 1)

/-- The value of the bits without the sign. -/
def absValue (n : Nat) : ℚ := magnitude n / 2 ^ 149

theorem magnitude_normal {n : Nat} (h : 2 ^ 23 ≤ n) :
    magnitude n = (2 ^ 23 + n % 2 ^ 23) * 2 ^ (n / 2 ^ 23 - 1) := if_neg (Nat.not_lt.2 h)

theorem magnitude_subnormal {n : Nat} (h : n < 2 ^ 23) : magnitude n = n := if_pos h

theorem magnitude_lt_succ (n : Nat) : magnitude n < magnitude (n + 1) := by
  rcases Nat.lt_or_ge n (2 ^ 23) with hn | hn
  · rw [magnitude_subnormal hn]
    rcases Nat.lt_or_ge (n + 1) (2 ^ 23) with hn' | hn'
    · rw [magnitude_subnormal hn']
      exact Nat.lt_succ_self n
    · rw [magnitude_normal hn']
      have he : n + 1 = 2 ^ 23 := by omega
      rw [he]
      omega
  · rw [magnitude_normal hn, magnitude_normal (by omega)]
    by_cases hlast : n % 2 ^ 23 + 1 < 2 ^ 23
    · -- the next fraction under the same exponent
      have hdiv : (n + 1) / 2 ^ 23 = n / 2 ^ 23 := by omega
      have hmod : (n + 1) % 2 ^ 23 = n % 2 ^ 23 + 1 := by omega
      rw [hdiv, hmod]
      exact Nat.mul_lt_mul_of_pos_right (by omega) (Nat.two_pow_pos _)
    · -- the first number of the next exponent
      have hdiv : (n + 1) / 2 ^ 23 - 1 = n / 2 ^ 23 - 1 + 1 := by omega
      have hmod : (n + 1) % 2 ^ 23 = 0 := by omega
      have hpos : 0 < 2 ^ (n / 2 ^ 23 - 1) := Nat.two_pow_pos _
      rw [hdiv, hmod, Nat.pow_succ]
      calc (2 ^ 23 + n % 2 ^ 23) * 2 ^ (n / 2 ^ 23 - 1)
          < (2 ^ 23 * 2) * 2 ^ (n / 2 ^ 23 - 1) := Nat.mul_lt_mul_of_pos_right (by omega) hpos
        _ = (2 ^ 23 + 0) * (2 ^ (n / 2 ^ 23 - 1) * 2) := by
          rw [Nat.add_zero, Nat.mul_assoc, Nat.mul_comm 2]

theorem magnitude_strictMono : StrictMono magnitude := strictMono_nat_of_lt_succ magnitude_lt_succ

theorem absValue_le_iff {m n : Nat} : absValue m ≤ absValue n ↔ m ≤ n := by
  unfold absValue
  rw [div_le_div_iff_of_pos_right (by positivity), Nat.cast_le, magnitude_strictMono.le_iff_le]

end Machine.Binary32
