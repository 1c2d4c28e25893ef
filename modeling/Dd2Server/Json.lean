import Mathlib.Algebra.Group.Int.Defs
import Mathlib.Algebra.GroupWithZero.Nat
import Mathlib.Data.Rat.Defs

/-!
# JSON values and text as the server reads them

`Value` follows `serde_json::Value` without arbitrary precision: a number is an integer that fits
`i64` or `u64`, or else an `f64`, which is kept as the rational it stands for.  An object is the
list of the entries of the ordered map that holds it.

Text helpers follow the Rust standard library: `trim` uses the Unicode property `White_Space`, and
lengths count UTF-8 bytes.
-/

namespace Dd2Server

/-! ## Text -/

/-- The Unicode property `White_Space`. -/
def isWhiteSpace (c : Char) : Bool :=
  let n := c.toNat
  (0x9 ≤ n && n ≤ 0xD) || n = 0x20 || n = 0x85 || n = 0xA0 || n = 0x1680 ||
    (0x2000 ≤ n && n ≤ 0x200A) || n = 0x2028 || n = 0x2029 || n = 0x202F ||
      n = 0x205F || n = 0x3000

namespace Text

def trimStart (cs : List Char) : List Char := cs.dropWhile isWhiteSpace

def trimEnd (cs : List Char) : List Char := (cs.reverse.dropWhile isWhiteSpace).reverse

def trimChars (cs : List Char) : List Char := trimEnd (trimStart cs)

/-- `str::trim`. -/
def trim (s : String) : String := String.ofList (trimChars s.toList)

/-- `str::len`: the number of bytes. -/
def byteLen (s : String) : Nat := (s.toList.map Char.utf8Size).sum

/-- What is left of `cs` after the prefix `p`. -/
def stripPrefix : (p cs : List Char) → Option (List Char)
  | [], cs => some cs
  | _ :: _, [] => none
  | a :: p, c :: cs => if a = c then stripPrefix p cs else none

theorem stripPrefix_append (p cs : List Char) : stripPrefix p (p ++ cs) = some cs := by
  induction p with
  | nil => rfl
  | cons a p ih => rw [List.cons_append, stripPrefix, if_pos rfl, ih]

/-- The value of a digit of base `b`. -/
def digitOf (b : Nat) (c : Char) : Option Nat :=
  let n := c.toNat
  let d :=
    if 0x30 ≤ n ∧ n ≤ 0x39 then n - 0x30
    else if 0x61 ≤ n ∧ n ≤ 0x7A then n - 0x61 + 10
    else if 0x41 ≤ n ∧ n ≤ 0x5A then n - 0x41 + 10
    else b
  if d < b then some d else none

/-- Digits of base `b` after `acc`, below `bound`. -/
def readDigits (b bound : Nat) : (acc : Nat) → List Char → Option Nat
  | acc, [] => some acc
  | acc, c :: cs =>
      match digitOf b c with
      | none => none
      | some d => if acc * b + d < bound then readDigits b bound (acc * b + d) cs else none

/-- `from_str_radix` of an unsigned type with `bound` values: a sign `+` may come first, and there
is at least one digit. -/
def fromStrRadix (b bound : Nat) (cs : List Char) : Option Nat :=
  match cs with
  | [] => none
  | ['+'] => none
  | '+' :: cs => readDigits b bound 0 cs
  | cs => readDigits b bound 0 cs

/-- `str::parse::<u32>`. -/
def parseU32 (cs : List Char) : Option Nat := fromStrRadix 10 (2 ^ 32) cs

/-- `str::parse::<u64>`. -/
def parseU64 (cs : List Char) : Option Nat := fromStrRadix 10 (2 ^ 64) cs

/-- A natural number in decimal. -/
def natChars (n : Nat) : List Char := Nat.toDigits 10 n

end Text

/-! ## Values -/

/-- A JSON number. -/
inductive Number
  | int (i : Int)
  | float (q : Rat)
  deriving DecidableEq

/-- A JSON value. -/
inductive Value
  | null
  | bool (b : Bool)
  | number (n : Number)
  | string (s : String)
  | array (items : List Value)
  | object (fields : List (String × Value))

namespace Value

/-- `Value::get` with a key. -/
def get : Value → String → Option Value
  | .object fields, key => fields.lookup key
  | _, _ => none

def asBool : Value → Option Bool
  | .bool b => some b
  | _ => none

def asStr : Value → Option String
  | .string s => some s
  | _ => none

def asArray : Value → Option (List Value)
  | .array items => some items
  | _ => none

def isObject : Value → Bool
  | .object _ => true
  | _ => false

def asI64 : Value → Option Int
  | .number (.int i) => if -2 ^ 63 ≤ i ∧ i < 2 ^ 63 then some i else none
  | _ => none

def asU64 : Value → Option Int
  | .number (.int i) => if 0 ≤ i ∧ i < 2 ^ 64 then some i else none
  | _ => none

/-- `as_f64` of a number that `as_i64` and `as_u64` leave. -/
def asF64 : Value → Option Rat
  | .number (.float q) => some q
  | _ => none

/-- `u as i64` of a `u64`. -/
def wrapI64 (u : Int) : Int := if u < 2 ^ 63 then u else u - 2 ^ 64

/-- `f as i64` of a finite `f64`: towards zero, saturating. -/
def truncI64 (q : Rat) : Int := max (-2 ^ 63) (min (2 ^ 63 - 1) (q.num.tdiv q.den))

/-- An integer the way the parsers read one: `as_i64`, else `as_u64` cast, else `as_f64` cast. -/
def toI64 (v : Value) : Option Int :=
  v.asI64.or ((v.asU64.map wrapI64).or (v.asF64.map truncI64))

end Value

end Dd2Server
