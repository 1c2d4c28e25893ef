import Mathlib.Data.List.TakeWhile

/-!
# Query strings

How a server reads the query of a URL: fields between `&`, a name and a value on the two sides of
the first `=`, and in each of them `+` for a space and `%` before two digits for a byte.
`fields_render` says that a query made of encoded names and values reads back as what each of them
decodes to.
-/

namespace Http

abbrev Bytes := List UInt8

/-- The text as UTF-8. -/
def utf8 (cs : List Char) : Bytes := cs.flatMap String.utf8EncodeChar

/-- A digit of an escape. -/
def hexDigit (c : Char) : Option Nat :=
  if '0' ≤ c ∧ c ≤ '9' then some (c.toNat - 0x30)
  else if 'A' ≤ c ∧ c ≤ 'F' then some (c.toNat - 0x41 + 10)
  else if 'a' ≤ c ∧ c ≤ 'f' then some (c.toNat - 0x61 + 10)
  else none

/-- The byte of an escape. -/
def escaped (a b : Char) : Option UInt8 := do
  let high ← hexDigit a
  let low ← hexDigit b
  return UInt8.ofNat (16 * high + low)

/-- The bytes that a name or a value stands for. -/
def decode : List Char → Bytes
  | [] => []
  | c :: cs =>
      if c = '%' then
        match cs with
        | [] => [0x25]
        | [a] => 0x25 :: decode [a]
        | a :: b :: rest =>
            (escaped a b).elim (0x25 :: decode (a :: b :: rest)) fun byte => byte :: decode rest
      else if c = '+' then 0x20 :: decode cs
      else String.utf8EncodeChar c ++ decode cs

/-- Any other character stands for itself. -/
theorem decode_cons {c : Char} (hpercent : c ≠ '%') (hplus : c ≠ '+') (cs : List Char) :
    decode (c :: cs) = String.utf8EncodeChar c ++ decode cs := by
  cases cs with
  | nil => simp [decode, hpercent, hplus]
  | cons a cs =>
      cases cs with
      | nil => simp [decode, hpercent, hplus]
      | cons b rest => simp [decode, hpercent, hplus]

/-- A text without escapes stands for itself. -/
theorem decode_eq_utf8 {cs : List Char} (hpercent : '%' ∉ cs) (hplus : '+' ∉ cs) :
    decode cs = utf8 cs := by
  induction cs with
  | nil => rfl
  | cons c cs ih =>
      rw [List.mem_cons, not_or] at hpercent hplus
      rw [decode_cons (Ne.symm hpercent.1) (Ne.symm hplus.1), ih hpercent.2 hplus.2, utf8, utf8,
        List.flatMap_cons]

theorem decode_escape {a b : Char} {x y : Nat} (ha : hexDigit a = some x) (hb : hexDigit b = some y)
    (rest : List Char) : decode ('%' :: a :: b :: rest) =
      UInt8.ofNat (16 * x + y) :: decode rest := by
  rw [decode, if_pos rfl, escaped, ha, hb]
  rfl

/-- What stands between `?` and `#`. -/
def query (url : List Char) : List Char :=
  ((url.dropWhile (· ≠ '?')).drop 1).takeWhile (· ≠ '#')

/-- A part of a query as a name and a value. -/
def field (part : List Char) : Bytes × Bytes :=
  (decode (part.takeWhile (· ≠ '=')), decode ((part.dropWhile (· ≠ '=')).drop 1))

def fields (query : List Char) : List (Bytes × Bytes) := (query.splitOn '&').map field

/-! ## Writing a query -/

/-- A name and a value, encoded. -/
def part (f : List Char × List Char) : List Char := f.1 ++ '=' :: f.2

def render (fs : List (List Char × List Char)) : List Char := ['&'].intercalate (fs.map part)

/-- May stand in a name or a value of a query. -/
def Safe (cs : List Char) : Prop := '=' ∉ cs ∧ '&' ∉ cs ∧ '#' ∉ cs

theorem Safe.append {cs ds : List Char} (hc : Safe cs) (hd : Safe ds) : Safe (cs ++ ds) := by
  simp only [Safe, List.mem_append, not_or]
  exact ⟨⟨hc.1, hd.1⟩, ⟨hc.2.1, hd.2.1⟩, hc.2.2, hd.2.2⟩

instance : DecidablePred Safe :=
  fun cs => inferInstanceAs (Decidable ('=' ∉ cs ∧ '&' ∉ cs ∧ '#' ∉ cs))

theorem field_part {f : List Char × List Char} (h : '=' ∉ f.1) :
    field (part f) = (decode f.1, decode f.2) := by
  have hname : ∀ c ∈ f.1, decide (c ≠ '=') = true := by
    intro c hc
    exact decide_eq_true fun he => h (he ▸ hc)
  rw [field, part, List.takeWhile_append_of_pos hname, List.dropWhile_append_of_pos hname]
  simp

theorem not_mem_part {f : List Char × List Char} {c : Char} (hc : c ≠ '=') (hn : c ∉ f.1)
    (hv : c ∉ f.2) : c ∉ part f := by
  simp [part, hc, hn, hv]

/-- A query reads back as its fields. -/
theorem fields_render {fs : List (List Char × List Char)} (hne : fs ≠ [])
    (h : ∀ f ∈ fs, Safe f.1 ∧ Safe f.2) :
    fields (render fs) = fs.map fun f => (decode f.1, decode f.2) := by
  have hparts : ∀ p ∈ fs.map part, '&' ∉ p := by
    intro p hp
    obtain ⟨f, hf, rfl⟩ := List.mem_map.1 hp
    exact not_mem_part (by decide) (h f hf).1.2.1 (h f hf).2.2.1
  rw [fields, render, List.splitOn_intercalate _ hparts (by simpa using hne), List.map_map]
  exact List.map_congr_left fun f hf => field_part (h f hf).1.1

/-- The query of a URL that ends with it. -/
theorem query_append {base q : List Char} (hbase : '?' ∉ base) (hq : '#' ∉ q) :
    query (base ++ '?' :: q) = q := by
  have hb : ∀ c ∈ base, decide (c ≠ '?') = true := by
    intro c hc
    exact decide_eq_true fun he => hbase (he ▸ hc)
  have hfragment : ∀ c ∈ q, decide (c ≠ '#') = true := by
    intro c hc
    exact decide_eq_true fun he => hq (he ▸ hc)
  rw [query, List.dropWhile_append_of_pos hb]
  simpa using List.takeWhile_eq_self_iff.2 hfragment

theorem not_mem_render {fs : List (List Char × List Char)}
    (h : ∀ f ∈ fs, Safe f.1 ∧ Safe f.2) : '#' ∉ render fs := by
  induction fs with
  | nil => simp [render]
  | cons f fs ih =>
      have hf := h f List.mem_cons_self
      have hpart : '#' ∉ part f := not_mem_part (by decide) hf.1.2.2 hf.2.2.2
      cases fs with
      | nil => simpa [render] using hpart
      | cons f' fs =>
          have hrest := ih fun g hg => h g (List.mem_cons_of_mem _ hg)
          simpa [render, hpart] using hrest

end Http
