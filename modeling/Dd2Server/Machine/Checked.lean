import Mathlib.Algebra.Group.Int.Defs
import Mathlib.Algebra.Group.Nat.Defs
import Mathlib.Order.Lattice

/-!
# Machine integers in two builds

A debug build panics where an operation on machine integers overflows, a release build wraps.
`Checked` is a computation for either build.  Casts between integer types never panic: they keep the
low bits.
-/

namespace Machine

inductive Build
  | debug
  | release
  deriving DecidableEq

/-- A computation in a build; `none` is a panic. -/
abbrev Checked := ReaderT Build Option

/-- What an operation that overflows gives: in a release build the low bits. -/
def overflowed {α : Type} (wrapped : α) : Checked α
  | .debug => none
  | .release => some wrapped

variable {w : Nat}

/-- `x * y` of unsigned numbers. -/
def mulU (x y : BitVec w) : Checked (BitVec w) :=
  if x.umulOverflow y then overflowed (x * y) else pure (x * y)

/-- `x * y` of signed numbers. -/
def mulS (x y : BitVec w) : Checked (BitVec w) :=
  if x.smulOverflow y then overflowed (x * y) else pure (x * y)

/-- `x + y` of signed numbers. -/
def addS (x y : BitVec w) : Checked (BitVec w) :=
  if x.saddOverflow y then overflowed (x + y) else pure (x + y)

/-- `x - y` of signed numbers. -/
def subS (x y : BitVec w) : Checked (BitVec w) :=
  if x.ssubOverflow y then overflowed (x - y) else pure (x - y)

/-- `x.max(y)` of signed numbers. -/
def maxS (x y : BitVec w) : BitVec w := if x.slt y then y else x

section

variable {α β : Type} {b : Build}

@[simp] theorem pure_run (a : α) : (pure a : Checked α) b = some a := rfl

@[simp] theorem bind_run (x : Checked α) (f : α → Checked β) :
    (x >>= f) b = (x b).bind fun a => f a b := rfl

theorem mulU_eq {x y : BitVec w} (h : x.toNat * y.toNat < 2 ^ w) : mulU x y = pure (x * y) := by
  have hno : x.umulOverflow y = false := by simpa [BitVec.umulOverflow] using h
  rw [mulU, hno]
  rfl

theorem mulU_overflow {x y : BitVec w} (h : 2 ^ w ≤ x.toNat * y.toNat) :
    mulU x y = overflowed (x * y) := by
  have hyes : x.umulOverflow y = true := by simpa [BitVec.umulOverflow] using h
  rw [mulU, hyes]
  rfl

/-- The integer is one of the signed numbers of `w` bits. -/
def FitsS (w : Nat) (z : Int) : Prop := -2 ^ (w - 1) ≤ z ∧ z < 2 ^ (w - 1)

theorem mulS_eq {x y : BitVec w} (h : FitsS w (x.toInt * y.toInt)) :
    mulS x y = pure (x * y) ∧ (x * y).toInt = x.toInt * y.toInt := by
  obtain ⟨hlo, hhi⟩ := h
  have hno : ¬x.smulOverflow y := by
    simp only [BitVec.smulOverflow, Bool.or_eq_true, decide_eq_true_eq]
    omega
  exact ⟨if_neg hno, BitVec.toInt_mul_of_not_smulOverflow hno⟩

theorem addS_eq {x y : BitVec w} (h : FitsS w (x.toInt + y.toInt)) :
    addS x y = pure (x + y) ∧ (x + y).toInt = x.toInt + y.toInt := by
  obtain ⟨hlo, hhi⟩ := h
  have hno : ¬x.saddOverflow y := by
    simp only [BitVec.saddOverflow, Bool.or_eq_true, decide_eq_true_eq]
    omega
  exact ⟨if_neg hno, BitVec.toInt_add_of_not_saddOverflow hno⟩

theorem addS_overflow {x y : BitVec w} (h : 2 ^ (w - 1) ≤ x.toInt + y.toInt) :
    addS x y = overflowed (x + y) := by
  have hyes : x.saddOverflow y := by
    simp only [BitVec.saddOverflow, Bool.or_eq_true, decide_eq_true_eq]
    exact .inl h
  exact if_pos hyes

theorem subS_eq {x y : BitVec w} (h : FitsS w (x.toInt - y.toInt)) :
    subS x y = pure (x - y) ∧ (x - y).toInt = x.toInt - y.toInt := by
  obtain ⟨hlo, hhi⟩ := h
  have hno : ¬x.ssubOverflow y := by
    simp only [BitVec.ssubOverflow, Bool.or_eq_true, decide_eq_true_eq]
    omega
  exact ⟨if_neg hno, BitVec.toInt_sub_of_not_ssubOverflow hno⟩

/-- If it gives anything, a subtraction gives the low bits. -/
theorem eq_of_subS {x y z : BitVec w} (h : subS x y b = some z) : z = x - y := by
  unfold subS at h
  split at h
  · cases b
    · cases h
    · exact (Option.some.inj h).symm
  · exact (Option.some.inj h).symm

theorem toInt_maxS (x y : BitVec w) : (maxS x y).toInt = max x.toInt y.toInt := by
  rw [maxS, BitVec.slt]
  split
  case isTrue h => exact (max_eq_right (le_of_lt (of_decide_eq_true h))).symm
  case isFalse h => exact (max_eq_left (not_lt.1 fun hlt => h (decide_eq_true hlt))).symm

/-- A cast of an unsigned number to a wider signed one keeps it. -/
theorem toInt_setWidth_of_lt {v : Nat} (x : BitVec w) (h : w < v) :
    (x.setWidth v).toInt = x.toNat := by
  have hx : x.toNat < 2 ^ w := x.isLt
  have hv : 2 ^ (w + 1) ≤ 2 ^ v := Nat.pow_le_pow_right (by decide) h
  have hw : 2 ^ (w + 1) = 2 * 2 ^ w := by rw [Nat.pow_succ, Nat.mul_comm]
  have hkeep : (x.setWidth v).toNat = x.toNat := by
    rw [BitVec.toNat_setWidth, Nat.mod_eq_of_lt (by omega)]
  rw [BitVec.toInt_eq_toNat_of_lt (by omega), hkeep]

end

end Machine
