import Dd2Server.Router
import Mathlib.Tactic.IntervalCases

/-!
# The header of a map file

A map file begins with 17 bytes, the table of the header chunks and the chunks.  The parser of the
table looks for the first offset at which a table can begin.  The parser of a comment looks for the
marker of the comment and tries the two layouts of a length after it.
-/

namespace Dd2Server

namespace Nadeo

open Router

/-! ## The parsers -/

/-- `u32::from_le_bytes` of the four bytes from `i` on. -/
def u32At (bs : Bytes) (i : Nat) : UInt32 := UInt32.ofNat (ofLe ((bs.drop i).take 4))

/-- The bytes of an ASCII text. -/
def ascii (s : String) : Bytes := s.toList.map fun c => UInt8.ofNat c.toNat

/-- The entries of the table, unless one cannot be a chunk of a map. -/
def entriesAt (head : Bytes) : (p count : Nat) → Option (List (UInt32 × UInt32))
  | _, 0 => some []
  | p, count + 1 =>
      let id := u32At head p
      let rawSize := u32At head (p + 4)
      if id.toNat / 2 ^ 16 ≠ 0x0304 then none
      else if 2 ^ 28 < rawSize.toNat % 2 ^ 31 then none
      else (entriesAt head (p + 8) count).map ((id, rawSize) :: ·)

/-- The table that begins at `start`, with the offset of the first chunk. -/
def tableAt (head : Bytes) (start : Nat) : Option (Nat × List (UInt32 × UInt32)) :=
  let count := (u32At head start).toNat
  if ¬ (1 ≤ count ∧ count ≤ 64) then none
  else
    let table := start + 4
    if head.length < table + count * 8 then none
    else (entriesAt head table count).map fun entries => (table + count * 8, entries)

/-- The offsets from 8 to 12 before the end, which is left out, are tried in turn. -/
def parseHeaderChunkTable (head : Bytes) : Option (Nat × List (UInt32 × UInt32)) :=
  (List.range' 8 (head.length - 12 - 8)).findSome? (tableAt head)

/-- `windows(..).position(..)`. -/
def position (needle : Bytes) : Bytes → Option Nat
  | [] => none
  | b :: bs => if needle.isPrefixOf (b :: bs) then some 0 else (position needle bs).map (· + 1)

def findSubslice (haystack needle : Bytes) : Option Nat :=
  if needle.isEmpty ∨ haystack.length < needle.length then none else position needle haystack

inductive Extracted
  | found (comment : String)
  /-- A marker with a length that runs past the buffer. -/
  | truncated
  | missing
  deriving DecidableEq

def commentMaxLen : Nat := 32 * 1024

def commentsMarker : Bytes := ascii "<Comments>"

def commentsTrailer : Bytes := ascii "</Comments>"

/-- `str::from_utf8`. -/
def fromUtf8 (bs : Bytes) : Option String := String.fromUTF8? ⟨bs.toArray⟩

/-- The text after `consumed` bytes that end in its length. -/
def textAfter (buf : Bytes) (after consumed : Nat) : Extracted :=
  let lenAt := after + consumed - 4
  if buf.length < lenAt + 4 then .truncated
  else
    let len := (u32At buf lenAt).toNat % 2 ^ 31
    if len = 0 ∨ commentMaxLen < len then .missing
    else
      let start := after + consumed
      let stop := start + len
      if buf.length < stop then .truncated
      else if ¬ commentsTrailer.isPrefixOf (buf.drop stop) then .missing
      else match fromUtf8 ((buf.drop start).take len) with
        | some s => .found s
        | none => .missing

/-- The layouts are tried in turn. -/
def tryLayouts (buf : Bytes) (after : Nat) (truncated : Bool) : List Nat → Extracted
  | [] => if truncated then .truncated else .missing
  | consumed :: layouts =>
      match textAfter buf after consumed with
      | .found s => .found s
      | .truncated => tryLayouts buf after true layouts
      | .missing => tryLayouts buf after truncated layouts

def extractComments (buf : Bytes) : Extracted :=
  match findSubslice buf commentsMarker with
  | none => .missing
  | some marker => tryLayouts buf (marker + commentsMarker.length) false [4, 8]

/-! ## Numbers in bytes -/

theorem ofLe_lt (bs : Bytes) : ofLe bs < 256 ^ bs.length := by
  induction bs with
  | nil => exact Nat.one_pos
  | cons b bs ih =>
      have hb : b.toNat < 256 := b.toNat_lt
      rw [ofLe, List.length_cons, Nat.pow_succ]
      omega

theorem toNat_u32At (bs : Bytes) (i : Nat) : (u32At bs i).toNat = ofLe ((bs.drop i).take 4) := by
  have hlt := ofLe_lt ((bs.drop i).take 4)
  have hle : ((bs.drop i).take 4).length ≤ 4 := List.length_take_le 4 _
  have hpow : 256 ^ ((bs.drop i).take 4).length ≤ 256 ^ 4 := Nat.pow_le_pow_right (by decide) hle
  rw [u32At, UInt32.toNat_ofNat']
  exact Nat.mod_eq_of_lt (Nat.lt_of_lt_of_le hlt hpow)

theorem length_u32Le (n : UInt32) : (u32Le n).length = 4 := by simp [u32Le]

theorem u32At_append (a : Bytes) (n : UInt32) (rest : Bytes) :
    u32At (a ++ (u32Le n ++ rest)) a.length = n := by
  rw [u32At, List.drop_left, List.take_left' (length_u32Le n), ofLe_u32Le]

/-- Four bytes that are read as a number. -/
theorem u32Le_u32At {bs : Bytes} {i : Nat} (h : i + 4 ≤ bs.length) :
    u32Le (u32At bs i) = (bs.drop i).take 4 := by
  have hlen : ((bs.drop i).take 4).length = 4 := by
    rw [List.length_take, List.length_drop]
    omega
  obtain ⟨a, b, c, d, hbs⟩ : ∃ a b c d, (bs.drop i).take 4 = [a, b, c, d] :=
    List.length_eq_four.1 hlen
  have ha := a.toNat_lt
  have hb := b.toNat_lt
  have hc := c.toNat_lt
  have hd := d.toNat_lt
  have hbyte : ∀ (x : UInt8) (n : Nat), n % 256 = x.toNat → UInt8.ofNat n = x := by
    intro x n hn
    rw [← UInt8.toNat_inj, UInt8.toNat_ofNat']
    exact hn
  rw [u32Le, toNat_u32At, hbs]
  simp only [List.range, List.range.loop, List.map_cons, List.map_nil, ofLe]
  rw [hbyte a _ (by omega), hbyte b _ (by omega), hbyte c _ (by omega), hbyte d _ (by omega)]

/-! ## The table -/

/-- The 17 bytes before the table. -/
structure Preamble where
  version : UInt16
  letters : Fin 4 → UInt8
  userDataSize : UInt32

def Preamble.bytes (p : Preamble) : Bytes :=
  ascii "GBX" ++ [p.version.toUInt8, (p.version >>> 8).toUInt8] ++ List.ofFn p.letters ++
    u32Le 0x03043000 ++ u32Le p.userDataSize

theorem Preamble.length_bytes (p : Preamble) : p.bytes.length = 17 := by
  simp [bytes, ascii, length_u32Le]

/-- An entry that the parser takes for one. -/
def Plausible (e : UInt32 × UInt32) : Prop :=
  e.1.toNat / 2 ^ 16 = 0x0304 ∧ e.2.toNat % 2 ^ 31 ≤ 2 ^ 28

def entryBytes (e : UInt32 × UInt32) : Bytes := u32Le e.1 ++ u32Le e.2

def entriesBytes (entries : List (UInt32 × UInt32)) : Bytes := entries.flatMap entryBytes

/-- The count and the entries. -/
def tableBytes (entries : List (UInt32 × UInt32)) : Bytes :=
  u32Le (UInt32.ofNat entries.length) ++ entriesBytes entries

theorem length_entriesBytes (entries : List (UInt32 × UInt32)) :
    (entriesBytes entries).length = entries.length * 8 := by
  induction entries with
  | nil => rfl
  | cons e entries ih =>
      rw [entriesBytes, List.flatMap_cons, List.length_append, ← entriesBytes, ih, entryBytes,
        List.length_append, length_u32Le, length_u32Le, List.length_cons]
      omega

theorem entriesAt_entriesBytes (before : Bytes) {entries : List (UInt32 × UInt32)}
    (h : ∀ e ∈ entries, Plausible e) (rest : Bytes) :
    entriesAt (before ++ (entriesBytes entries ++ rest)) before.length entries.length =
      some entries := by
  induction entries generalizing before with
  | nil => rfl
  | cons e entries ih =>
      obtain ⟨hid, hsize⟩ := h e List.mem_cons_self
      have hfirst : before ++ (entriesBytes (e :: entries) ++ rest) =
          before ++ (u32Le e.1 ++ (u32Le e.2 ++ (entriesBytes entries ++ rest))) := by
        simp [entriesBytes, entryBytes]
      have hsecond : before ++ (entriesBytes (e :: entries) ++ rest) =
          (before ++ u32Le e.1) ++ (u32Le e.2 ++ (entriesBytes entries ++ rest)) := by
        simp [entriesBytes, entryBytes]
      have hrest : before ++ (entriesBytes (e :: entries) ++ rest) =
          (before ++ entryBytes e) ++ (entriesBytes entries ++ rest) := by
        simp [entriesBytes]
      have hidAt : u32At (before ++ (entriesBytes (e :: entries) ++ rest)) before.length = e.1 := by
        rw [hfirst, u32At_append]
      have hsizeAt : u32At (before ++ (entriesBytes (e :: entries) ++ rest)) (before.length + 4) =
          e.2 := by
        rw [hsecond, ← length_u32Le e.1, ← List.length_append, u32At_append]
      have hentries : entriesAt (before ++ (entriesBytes (e :: entries) ++ rest))
          (before.length + 8)
          entries.length = some entries := by
        have hlen : before.length + 8 = (before ++ entryBytes e).length := by
          rw [List.length_append, entryBytes, List.length_append, length_u32Le, length_u32Le]
        rw [hrest, hlen]
        exact ih _ fun e' he' => h e' (List.mem_cons_of_mem _ he')
      rw [List.length_cons, entriesAt]
      simp only [hidAt, hsizeAt, hentries, hid, Nat.not_lt.2 hsize]
      rfl

theorem tableAt_none {head : Bytes} {start : Nat}
    (h : (u32At head start).toNat = 0 ∨ 64 < (u32At head start).toNat) :
    tableAt head start = none := by
  rw [tableAt, if_pos (by omega)]

/-- A table whose first entry is of another class. -/
theorem tableAt_other {head : Bytes} {start : Nat} (h : (u32At head (start + 4)).toNat < 2 ^ 16) :
    tableAt head start = none := by
  unfold tableAt
  dsimp only
  split
  · rfl
  · rename_i hcount
    obtain ⟨n, hn⟩ : ∃ n, (u32At head start).toNat = n + 1 :=
      ⟨_, (Nat.sub_add_cancel (not_not.1 hcount).1).symm⟩
    have hother : (u32At head (start + 4)).toNat / 2 ^ 16 ≠ 0x0304 := by omega
    rw [hn, entriesAt, if_pos hother]
    exact ite_self none

/-- The table behind the preamble. -/
theorem tableAt_tableBytes (p : Preamble) {entries : List (UInt32 × UInt32)}
    (hcount : 1 ≤ entries.length ∧ entries.length ≤ 64) (h : ∀ e ∈ entries, Plausible e)
    (rest : Bytes) :
    tableAt (p.bytes ++ (tableBytes entries ++ rest)) 17 =
      some (21 + entries.length * 8, entries) := by
  have hsplit : p.bytes ++ (tableBytes entries ++ rest) =
      p.bytes ++ (u32Le (UInt32.ofNat entries.length) ++ (entriesBytes entries ++ rest)) := by
    rw [tableBytes, List.append_assoc]
  have hcountAt : (u32At (p.bytes ++ (tableBytes entries ++ rest)) 17).toNat = entries.length := by
    rw [hsplit, ← p.length_bytes, u32At_append]
    exact UInt32.toNat_ofNat_of_lt (Nat.lt_of_le_of_lt hcount.2 (by decide))
  have hlength : (p.bytes ++ (tableBytes entries ++ rest)).length =
      17 + (4 + entries.length * 8 + rest.length) := by
    rw [List.length_append, p.length_bytes, List.length_append, tableBytes,
      List.length_append, length_u32Le, length_entriesBytes]
  have hentries : entriesAt (p.bytes ++ (tableBytes entries ++ rest)) 21 entries.length =
      some entries := by
    have hbefore : (p.bytes ++ u32Le (UInt32.ofNat entries.length)).length = 21 := by
      rw [List.length_append, p.length_bytes, length_u32Le]
    rw [hsplit, ← List.append_assoc, ← hbefore]
    exact entriesAt_entriesBytes _ h rest
  rw [tableAt]
  simp only [hcountAt, not_not.2 hcount, if_false]
  rw [hlength, if_neg (by omega), hentries]
  rfl

theorem u32Le_small {n : Nat} (hn : n < 256) :
    u32Le (UInt32.ofNat n) = [UInt8.ofNat n, 0, 0, 0] := by
  have hlt : n < UInt32.size := Nat.lt_trans hn (by decide)
  have hdiv : ∀ i, n / 256 ^ (i + 1) = 0 := by
    intro i
    refine Nat.div_eq_of_lt (Nat.lt_of_lt_of_le hn ?_)
    exact Nat.le_self_pow (Nat.succ_ne_zero i) 256
  rw [u32Le, UInt32.toNat_ofNat_of_lt' hlt]
  simp only [List.range, List.range.loop, List.map_cons, List.map_nil, pow_zero, Nat.div_one]
  rw [hdiv 0, hdiv 1, hdiv 2]
  rfl

/-- No table begins in the preamble: what could be a count there is none, or the first entry after
it would be of another class. -/
theorem tableAt_early (p : Preamble) {n : Nat} (hn : 1 ≤ n ∧ n ≤ 64)
    (more : Bytes) {start : Nat} (hlo : 8 ≤ start) (hhi : start < 17) :
    tableAt (p.bytes ++ (u32Le (UInt32.ofNat n) ++ more)) start = none := by
  obtain ⟨version, letters, userDataSize⟩ := p
  have hc : (UInt8.ofNat n).toNat = n :=
    UInt8.toNat_ofNat_of_lt (Nat.lt_of_le_of_lt hn.2 (by decide))
  obtain ⟨s₀, s₁, s₂, s₃, hsize⟩ : ∃ s₀ s₁ s₂ s₃ : UInt8, u32Le userDataSize =
      [s₀, s₁, s₂, s₃] :=
    ⟨_, _, _, _, rfl⟩
  rw [u32Le_small (Nat.lt_of_le_of_lt hn.2 (by decide)), Preamble.bytes, hsize]
  dsimp only
  have hbytes : ∀ i,
      (u32At (ascii "GBX" ++ [version.toUInt8, (version >>> 8).toUInt8] ++ List.ofFn letters ++
      u32Le 0x03043000 ++ [s₀, s₁, s₂, s₃] ++ ([UInt8.ofNat n, 0, 0, 0] ++ more)) i).toNat =
        ofLe ((([0x47, 0x42, 0x58, version.toUInt8, (version >>> 8).toUInt8, letters 0,
          letters 1, letters 2,
          letters 3, 0x00, 0x30, 0x04, 0x03, s₀, s₁, s₂, s₃, UInt8.ofNat n, 0, 0,
            0] ++ more).drop i).take 4) := by
    intro i
    rw [toNat_u32At]
    rfl
  generalize ascii "GBX" ++ [version.toUInt8, (version >>> 8).toUInt8] ++ List.ofFn letters ++
    u32Le 0x03043000 ++ [s₀, s₁, s₂, s₃] ++ ([UInt8.ofNat n, 0, 0, 0] ++ more) =
      head at hbytes ⊢
  have hs₀ := s₀.toNat_lt
  have hs₁ := s₁.toNat_lt
  have hs₂ := s₂.toNat_lt
  have hs₃ := s₃.toNat_lt
  interval_cases start
  -- the class id in the number
  · exact tableAt_none (.inr (by rw [hbytes]; simp [ofLe]))
  · exact tableAt_none (.inr (by rw [hbytes]; simp [ofLe]))
  · exact tableAt_none (.inr (by rw [hbytes]; simp [ofLe]; omega))
  · exact tableAt_none (.inr (by rw [hbytes]; simp [ofLe]; omega))
  -- the count of the table in the id of the first entry
  · exact tableAt_other (by rw [hbytes]; simp [ofLe, hc]; omega)
  · exact tableAt_other (by rw [hbytes]; simp [ofLe, hc]; omega)
  -- the count of the table in a higher byte of the number
  · exact tableAt_none (.inr (by rw [hbytes]; simp [ofLe, hc]; omega))
  · exact tableAt_none (.inr (by rw [hbytes]; simp [ofLe, hc]; omega))
  · exact tableAt_none (.inr (by rw [hbytes]; simp [ofLe, hc]; omega))

/-- The parser finds the table where 30 bytes or more are there: it does not try the last offset at
which a table of one entry fits. -/
theorem parseHeaderChunkTable_tableBytes (p : Preamble) {entries : List (UInt32 × UInt32)}
    (hcount : 1 ≤ entries.length ∧ entries.length ≤ 64) (h : ∀ e ∈ entries, Plausible e)
    (rest : Bytes) :
    parseHeaderChunkTable (p.bytes ++ (tableBytes entries ++ rest)) =
      if 29 < (p.bytes ++ (tableBytes entries ++ rest)).length
      then some (21 + entries.length * 8, entries) else none := by
  have hlength : (p.bytes ++ (tableBytes entries ++ rest)).length =
      17 + (4 + entries.length * 8 + rest.length) := by
    rw [List.length_append, p.length_bytes, List.length_append, tableBytes,
      List.length_append, length_u32Le, length_entriesBytes]
  have hearly : (List.range' 8 9).findSome? (tableAt (p.bytes ++ (tableBytes entries ++ rest))) =
      none := by
    rw [List.findSome?_eq_none_iff]
    intro start hm
    obtain ⟨hlo, hhi⟩ := List.mem_range'_1.1 hm
    rw [tableBytes, List.append_assoc]
    exact tableAt_early p hcount _ hlo hhi
  rw [parseHeaderChunkTable, hlength]
  split
  · obtain ⟨k, hk⟩ : ∃ k, 17 + (4 + entries.length * 8 + rest.length) - 12 - 8 =
        9 + (k + 1) :=
      ⟨entries.length * 8 + rest.length - 9, by omega⟩
    rw [hk, ← List.range'_append_1, List.findSome?_append, hearly, Option.none_or,
      List.range'_succ, List.findSome?_cons, tableAt_tableBytes p hcount h rest]
  · have hk : 17 + (4 + entries.length * 8 + rest.length) - 12 - 8 = 9 := by omega
    rw [hk, hearly]

/-- A table of one to 64 entries is read as it was written, unless it has one entry and ends the
buffer. -/
theorem parseHeaderChunkTable_iff (p : Preamble) {entries : List (UInt32 × UInt32)}
    (hcount : 1 ≤ entries.length ∧ entries.length ≤ 64) (h : ∀ e ∈ entries, Plausible e)
    (rest : Bytes) :
    parseHeaderChunkTable (p.bytes ++ (tableBytes entries ++ rest)) =
      some ((p.bytes ++ tableBytes entries).length, entries) ↔
      ¬ (entries.length = 1 ∧ rest = []) := by
  have htable : (p.bytes ++ tableBytes entries).length = 21 + entries.length * 8 := by
    rw [List.length_append, p.length_bytes, tableBytes, List.length_append, length_u32Le,
      length_entriesBytes]
    omega
  have hlong : 29 < (p.bytes ++ (tableBytes entries ++ rest)).length ↔
      ¬ (entries.length = 1 ∧ rest = []) := by
    rw [← List.append_assoc, List.length_append, htable, ← List.length_eq_zero_iff]
    omega
  rw [parseHeaderChunkTable_tableBytes p hcount h, htable, ← hlong]
  split
  case isTrue hlt => exact iff_of_true rfl hlt
  case isFalse hle => exact iff_of_false (fun he => nomatch he) hle

def plainPreamble : Preamble := { version := 6, letters := fun _ => 0x42, userDataSize := 12 }

theorem parseHeaderChunkTable_iff_heavy :
    parseHeaderChunkTable (plainPreamble.bytes ++ (tableBytes [(0x03043007, 0x80000004)] ++ [0])) =
      some ((plainPreamble.bytes ++ tableBytes [(0x03043007, 0x80000004)]).length,
        [(0x03043007, 0x80000004)]) ↔
          ¬ ([((0x03043007 : UInt32), (0x80000004 : UInt32))].length = 1 ∧ ([0] : Bytes) = []) :=
  parseHeaderChunkTable_iff plainPreamble (by decide) (by simp [Plausible]) [0]

/-- A table of one entry at the end of the buffer. -/
theorem last_table_lost : ¬ ∀ (p : Preamble) (entries : List (UInt32 × UInt32)) (rest : Bytes),
    1 ≤ entries.length ∧ entries.length ≤ 64 → (∀ e ∈ entries, Plausible e) →
    parseHeaderChunkTable (p.bytes ++ (tableBytes entries ++ rest)) =
      some ((p.bytes ++ tableBytes entries).length, entries) := by
  intro hall
  have hfound := hall plainPreamble [(0x03043003, 223)] [] (by decide) (by simp [Plausible])
  have hlost : parseHeaderChunkTable
      (plainPreamble.bytes ++ (tableBytes [(0x03043003, 223)] ++ [])) = none := by
    decide
  rw [hlost] at hfound
  cases hfound

/-! ## The comment -/

/-- The UTF-8 of a text. -/
def utf8 (s : String) : Bytes := s.toByteArray.data.toList

theorem fromUtf8_utf8 (s : String) : fromUtf8 (utf8 s) = some s := by
  have hbytes : (⟨(utf8 s).toArray⟩ : ByteArray) = s.toByteArray := by simp [utf8]
  rw [fromUtf8, hbytes, String.fromUTF8?, dif_pos s.isValidUTF8]
  rfl

theorem utf8_fromUtf8 {bs : Bytes} {s : String} (h : fromUtf8 bs = some s) : utf8 s = bs := by
  rw [fromUtf8, String.fromUTF8?] at h
  split at h
  · cases h
    rfl
  · cases h

theorem position_append {needle before : Bytes} (hne : needle ≠ [])
    (hborder : ∀ k < needle.length, 0 < k → (needle.drop k).head? ≠ needle.head?)
    (hfree : ¬ needle <:+: before) (rest : Bytes) :
    position needle (before ++ (needle ++ rest)) = some before.length := by
  induction before with
  | nil =>
      obtain ⟨a, as, rfl⟩ := List.exists_cons_of_ne_nil hne
      have hprefix : (a :: as).isPrefixOf (a :: (as ++ rest)) = true :=
        List.isPrefixOf_iff_prefix.2 (List.prefix_append (a :: as) rest)
      show position (a :: as) (a :: (as ++ rest)) = some 0
      rw [position, if_pos hprefix]
  | cons b bs ih =>
      have hnot : ¬ needle.isPrefixOf (b :: (bs ++ (needle ++ rest))) = true := by
        intro hp
        have hneedle : needle <+: (b :: bs) ++ (needle ++ rest) := List.isPrefixOf_iff_prefix.1 hp
        have hbefore : (b :: bs) <+: (b :: bs) ++ (needle ++ rest) := List.prefix_append _ _
        rcases Nat.le_total needle.length (b :: bs).length with hle | hle
        · exact hfree (List.prefix_of_prefix_length_le hneedle hbefore hle).isInfix
        · -- what of the needle lies behind `before` begins like the needle
          obtain ⟨x, hx⟩ := List.prefix_of_prefix_length_le hbefore hneedle hle
          have hxp : x <+: needle ++ rest := by
            rw [← hx, List.prefix_append_right_inj] at hneedle
            rw [← hx]
            exact hneedle
          have hdrop : needle.drop (b :: bs).length = x := by rw [← hx, List.drop_left]
          cases x with
          | nil =>
              rw [List.append_nil] at hx
              exact hfree (hx ▸ List.infix_refl _)
          | cons c x =>
              have hlt : (b :: bs).length < needle.length := by
                rw [← hx, List.length_append, List.length_cons]
                exact Nat.lt_add_of_pos_right (Nat.succ_pos x.length)
              have hhead := hborder (b :: bs).length hlt (Nat.succ_pos bs.length)
              rw [hdrop] at hhead
              obtain ⟨a, as, rfl⟩ := List.exists_cons_of_ne_nil hne
              obtain ⟨y, hy⟩ := hxp
              injection hy with hca _
              exact hhead (congrArg some hca)
      rw [List.cons_append, position, if_neg hnot, ih fun h =>
        hfree (h.trans (List.suffix_cons b bs).isInfix)]
      rfl

theorem findSubslice_append {needle before : Bytes} (hne : needle ≠ [])
    (hborder : ∀ k < needle.length, 0 < k → (needle.drop k).head? ≠ needle.head?)
    (hfree : ¬ needle <:+: before) (rest : Bytes) :
    findSubslice (before ++ (needle ++ rest)) needle = some before.length := by
  have hlong : ¬ (before ++ (needle ++ rest)).length < needle.length := by
    rw [List.length_append, List.length_append]
    omega
  have hscan : ¬ (needle.isEmpty = true ∨ (before ++ (needle ++ rest)).length < needle.length) :=
    not_or.2 ⟨fun h => hne (List.isEmpty_iff.1 h), hlong⟩
  rw [findSubslice, if_neg hscan]
  exact position_append hne hborder hfree rest

/-- A position is the first one. -/
theorem position_sound {needle bs : Bytes} {i : Nat} (h : position needle bs = some i) :
    needle <+: bs.drop i ∧ i ≤ bs.length ∧ ∀ j < i, ¬ needle <+: bs.drop j := by
  induction bs generalizing i with
  | nil => cases h
  | cons b bs ih =>
      rw [position] at h
      split at h
      case isTrue hp =>
        cases h
        exact ⟨List.isPrefixOf_iff_prefix.1 hp, Nat.zero_le _, fun j hj =>
          absurd hj (Nat.not_lt_zero j)⟩
      case isFalse hp =>
        obtain ⟨k, hk, rfl⟩ := Option.map_eq_some_iff.1 h
        obtain ⟨hpre, hle, hfirst⟩ := ih hk
        refine ⟨hpre, Nat.succ_le_succ hle, fun j hj => ?_⟩
        cases j with
        | zero => exact fun he => hp (List.isPrefixOf_iff_prefix.2 he)
        | succ j => exact hfirst j (Nat.lt_of_succ_lt_succ hj)

/-- The first marker is the one behind `before`. -/
theorem find_marker {before : Bytes} (hfree : ¬ commentsMarker <:+: before) (rest : Bytes) :
    findSubslice (before ++ (commentsMarker ++ rest)) commentsMarker = some before.length :=
  findSubslice_append (by decide) (by decide) hfree rest

/-- A length in one `u32` or in two, a text and the trailer. -/
def commentBlock (doubled : Bool) (text : String) : Bytes :=
  commentsMarker ++ (u32Le (UInt32.ofNat (utf8 text).length) ++
    ((if doubled then u32Le (UInt32.ofNat (utf8 text).length) else []) ++
      (utf8 text ++ commentsTrailer)))

/-- A layout finds a text after its length. -/
theorem textAfter_text {text : String}
    (hlen : 0 < (utf8 text).length ∧ (utf8 text).length ≤ commentMaxLen) (before suffix : Bytes)
    (after consumed : Nat) (hat : after + consumed = before.length + 4) :
    textAfter (before ++ (u32Le (UInt32.ofNat (utf8 text).length) ++
      (utf8 text ++ (commentsTrailer ++ suffix)))) after consumed = .found text := by
  have hmax : commentMaxLen = 32768 := rfl
  have hu32 : (u32At (before ++ (u32Le (UInt32.ofNat (utf8 text).length) ++
      (utf8 text ++ (commentsTrailer ++ suffix)))) before.length).toNat % 2 ^ 31 =
        (utf8 text).length := by
    rw [u32At_append, UInt32.toNat_ofNat_of_lt' (Nat.lt_of_le_of_lt hlen.2 (by decide))]
    exact Nat.mod_eq_of_lt (Nat.lt_of_le_of_lt hlen.2 (by decide))
  have hlength : (before ++ (u32Le (UInt32.ofNat (utf8 text).length) ++
      (utf8 text ++ (commentsTrailer ++ suffix)))).length =
        before.length + (4 + ((utf8 text).length + (commentsTrailer ++ suffix).length)) := by
    rw [List.length_append, List.length_append, List.length_append, length_u32Le]
  have hstart : (before ++ (u32Le (UInt32.ofNat (utf8 text).length) ++
      (utf8 text ++ (commentsTrailer ++ suffix)))).drop (before.length + 4) =
        utf8 text ++ (commentsTrailer ++ suffix) := by
    rw [← List.append_assoc, List.drop_left' (by rw [List.length_append, length_u32Le])]
  have hstop : (before ++ (u32Le (UInt32.ofNat (utf8 text).length) ++
      (utf8 text ++ (commentsTrailer ++ suffix)))).drop (before.length + 4 + (utf8 text).length) =
        commentsTrailer ++ suffix := by
    rw [← List.drop_drop, hstart, List.drop_left]
  have htrailer : commentsTrailer.isPrefixOf (commentsTrailer ++ suffix) = true :=
    List.isPrefixOf_iff_prefix.2 (List.prefix_append _ _)
  unfold textAfter
  simp only [hat, Nat.add_sub_cancel, hu32, hstart, hstop, htrailer]
  rw [hlength, if_neg (by omega), if_neg (by omega), if_neg (by omega),
    List.take_left, fromUtf8_utf8]
  rfl

/-- What stands for a length is none. -/
theorem textAfter_no_length {buf : Bytes} {after consumed : Nat}
    (hfits : after + consumed ≤ buf.length) (hconsumed : 4 ≤ consumed)
    (hlen : (u32At buf (after + consumed - 4)).toNat % 2 ^ 31 = 0 ∨
      commentMaxLen < (u32At buf (after + consumed - 4)).toNat % 2 ^ 31) :
    textAfter buf after consumed = .missing := by
  unfold textAfter
  dsimp only
  rw [if_neg (by omega), if_pos hlen]

/-- The trailer does not stand where the length puts it. -/
theorem textAfter_no_trailer {buf : Bytes} {after consumed : Nat} {len : Nat}
    (hconsumed : 4 ≤ consumed) (hlen : (u32At buf (after + consumed - 4)).toNat % 2 ^ 31 = len)
    (hfits : after + consumed + len ≤ buf.length)
    (htrailer : ¬ commentsTrailer <+: buf.drop (after + consumed + len)) :
    textAfter buf after consumed = .missing := by
  unfold textAfter
  dsimp only
  rw [hlen, if_neg (by omega)]
  split
  · rfl
  · rw [if_neg (by omega), if_pos fun h => htrailer (List.isPrefixOf_iff_prefix.1 h)]

theorem no_trailer_of_get {bs : Bytes} {b : UInt8} (i : Nat) (hget : bs[i]? = some b)
    (hne : commentsTrailer[i]? ≠ some b) (hi : i < commentsTrailer.length) :
    ¬ commentsTrailer <+: bs := by
  rintro ⟨rest, rfl⟩
  rw [List.getElem?_append_left hi] at hget
  exact hne hget

/-- With the second length taken for text, the trailer is looked for four bytes too early. -/
theorem no_trailer_early {text : Bytes} (hlen : 0 < text.length) (suffix : Bytes) :
    ¬ commentsTrailer <+:
      (u32Le (UInt32.ofNat text.length) ++ (text ++ (commentsTrailer ++ suffix))).drop
        text.length := by
  rcases Nat.lt_or_ge text.length 4 with hlt | hge
  · -- in the second length, whose bytes behind the first are zero
    have hzero : ((u32Le (UInt32.ofNat text.length) ++ (text ++ (commentsTrailer ++ suffix))).drop
        text.length)[0]? = some 0 := by
      rw [u32Le_small (Nat.lt_trans hlt (by decide)), List.getElem?_drop]
      obtain hone | htwo | hthree : text.length = 1 ∨ text.length = 2 ∨ text.length = 3 := by
        omega
      · rw [hone]
        rfl
      · rw [htwo]
        rfl
      · rw [hthree]
        rfl
    exact no_trailer_of_get 0 hzero (by decide) (by decide)
  · -- in the text, so that the trailer that is there begins inside
    have hbegins : ((u32Le (UInt32.ofNat text.length) ++ (text ++ (commentsTrailer ++ suffix))).drop
        text.length)[4]? = some 0x3C := by
      rw [List.getElem?_drop, List.getElem?_append_right (by rw [length_u32Le]; omega),
        length_u32Le, Nat.add_sub_cancel, List.getElem?_append_right (Nat.le_refl _), Nat.sub_self]
      rfl
    exact no_trailer_of_get 4 hbegins (by decide) (by decide)

theorem textAfter_early {text : String}
    (hlen : 0 < (utf8 text).length ∧ (utf8 text).length ≤ commentMaxLen)
    (before suffix : Bytes) :
    textAfter (before ++ (u32Le (UInt32.ofNat (utf8 text).length) ++
      (u32Le (UInt32.ofNat (utf8 text).length) ++ (utf8 text ++ (commentsTrailer ++ suffix)))))
        before.length 4 = .missing := by
  have hu32 : (u32At (before ++ (u32Le (UInt32.ofNat (utf8 text).length) ++
      (u32Le (UInt32.ofNat (utf8 text).length) ++ (utf8 text ++ (commentsTrailer ++ suffix)))))
        (before.length + 4 - 4)).toNat % 2 ^ 31 = (utf8 text).length := by
    rw [Nat.add_sub_cancel, u32At_append, UInt32.toNat_ofNat_of_lt'
      (Nat.lt_of_le_of_lt hlen.2 (by decide))]
    exact Nat.mod_eq_of_lt (Nat.lt_of_le_of_lt hlen.2 (by decide))
  refine textAfter_no_trailer (Nat.le_refl 4) hu32 ?_ ?_
  · simp only [List.length_append, length_u32Le]
    omega
  · rw [← List.append_assoc before, ← List.drop_drop,
      List.drop_left' (by rw [List.length_append, length_u32Le])]
    exact no_trailer_early hlen.1 suffix

/-- Either layout gives its text. -/
theorem extractComments_block {before : Bytes} (hfree : ¬ commentsMarker <:+: before)
    {text : String} (hlen : 0 < (utf8 text).length ∧ (utf8 text).length ≤ commentMaxLen)
    (doubled : Bool) (suffix : Bytes) :
    extractComments (before ++ (commentBlock doubled text ++ suffix)) = .found text := by
  have hafter : (before ++ commentsMarker).length = before.length + commentsMarker.length :=
    List.length_append
  have hfound : findSubslice (before ++ (commentBlock doubled text ++ suffix)) commentsMarker =
      some before.length := by
    rw [commentBlock, List.append_assoc]
    exact find_marker hfree _
  rw [extractComments, hfound]
  dsimp only
  cases doubled with
  | false =>
      have hbuf : before ++ (commentBlock false text ++ suffix) = (before ++ commentsMarker) ++
          (u32Le (UInt32.ofNat (utf8 text).length) ++
            (utf8 text ++ (commentsTrailer ++ suffix))) := by
        simp [commentBlock]
      rw [hbuf, ← hafter, tryLayouts, textAfter_text hlen
        (before ++ commentsMarker) suffix _ 4 rfl]
  | true =>
      have hbuf : before ++ (commentBlock true text ++ suffix) = (before ++ commentsMarker) ++
          (u32Le (UInt32.ofNat (utf8 text).length) ++ (u32Le (UInt32.ofNat (utf8 text).length) ++
            (utf8 text ++ (commentsTrailer ++ suffix)))) := by
        simp [commentBlock]
      have htext : textAfter ((before ++ commentsMarker) ++
          (u32Le (UInt32.ofNat (utf8 text).length) ++ (u32Le (UInt32.ofNat (utf8 text).length) ++
            (utf8 text ++ (commentsTrailer ++ suffix)))))
              (before ++ commentsMarker).length 8 = .found text := by
        rw [← List.append_assoc]
        refine textAfter_text hlen _ suffix _ 8 ?_
        simp only [List.length_append, length_u32Le]
      rw [hbuf, ← hafter, tryLayouts, textAfter_early hlen (before ++ commentsMarker) suffix]
      dsimp only
      rw [tryLayouts, htext]

/-- Where a text is found, its length stands before it and the trailer behind it. -/
theorem textAfter_sound {buf : Bytes} {after consumed : Nat} {t : String}
    (hconsumed : 4 ≤ consumed) (h : textAfter buf after consumed = .found t) :
    ∃ (len : UInt32) (suffix : Bytes), len.toNat % 2 ^ 31 = (utf8 t).length ∧
      buf.drop (after + consumed - 4) = u32Le len ++ (utf8 t ++ (commentsTrailer ++ suffix)) := by
  unfold textAfter at h
  dsimp only at h
  split at h
  · cases h
  rename_i hfits
  split at h
  · cases h
  split at h
  · cases h
  rename_i hstop
  split at h
  · cases h
  rename_i htrailer
  split at h
  case h_2 => cases h
  case h_1 s hs =>
    cases h
    obtain ⟨suffix, hsuffix⟩ := List.isPrefixOf_iff_prefix.1 (not_not.1 htrailer)
    have htext := utf8_fromUtf8 hs
    refine ⟨u32At buf (after + consumed - 4), suffix, ?_, ?_⟩
    · rw [htext, List.length_take, List.length_drop]
      omega
    · have hstart : after + consumed = after + consumed - 4 + 4 := by omega
      have hbehind : utf8 t ++ (commentsTrailer ++ suffix) =
          (buf.drop (after + consumed - 4)).drop 4 := by
        rw [htext, hsuffix, ← List.drop_drop (i := _ % _), List.take_append_drop,
          List.drop_drop, ← hstart]
      rw [u32Le_u32At (by omega), hbehind, List.take_append_drop]

/-- What is found stands behind the first marker, after one or two lengths. -/
theorem extractComments_sound {buf : Bytes} {t : String} (h : extractComments buf = .found t) :
    ∃ (before : Bytes) (other : Option UInt32) (len : UInt32) (suffix : Bytes),
      buf = before ++ (commentsMarker ++ ((other.map u32Le).getD [] ++
        (u32Le len ++ (utf8 t ++ (commentsTrailer ++ suffix))))) ∧
      len.toNat % 2 ^ 31 = (utf8 t).length ∧
      ∀ j < before.length, ¬ commentsMarker <+: buf.drop j := by
  rw [extractComments] at h
  split at h
  case h_1 => cases h
  case h_2 marker hmarker =>
    rw [findSubslice] at hmarker
    split at hmarker
    case isTrue => cases hmarker
    case isFalse =>
    obtain ⟨⟨rest, hrest⟩, hle, hfirst⟩ := position_sound hmarker
    have hbuf : buf = buf.take marker ++ (commentsMarker ++ rest) := by
      rw [hrest, List.take_append_drop]
    have hbefore : (buf.take marker).length = marker := List.length_take_of_le hle
    have hafter : buf.drop (marker + commentsMarker.length) = rest := by
      rw [← List.drop_drop, ← hrest, List.drop_left]
    have hfirst' : ∀ j < (buf.take marker).length, ¬ commentsMarker <+: buf.drop j := by
      rw [hbefore]
      exact hfirst
    -- the text follows one length, or two
    have hfound : textAfter buf (marker + commentsMarker.length) 4 = .found t ∨
        textAfter buf (marker + commentsMarker.length) 8 = .found t := by
      rw [tryLayouts] at h
      split at h
      case h_1 s hs => exact .inl (hs.trans h)
      all_goals
        right
        rw [tryLayouts] at h
        split at h
        case h_1 s hs => exact hs.trans h
        all_goals
          rw [tryLayouts] at h
          split at h <;> cases h
    rcases hfound with hone | htwo
    · obtain ⟨len, suffix, hlen, hdrop⟩ := textAfter_sound (by decide) hone
      rw [Nat.add_sub_cancel, hafter] at hdrop
      exact ⟨buf.take marker, none, len, suffix, hdrop ▸ hbuf, hlen, hfirst'⟩
    · obtain ⟨len, suffix, hlen, hdrop⟩ := textAfter_sound (by decide) htwo
      have hat : marker + commentsMarker.length + 8 - 4 = marker + commentsMarker.length + 4 := by
        omega
      rw [hat, ← List.drop_drop, hafter] at hdrop
      have hlong : 0 + 4 ≤ rest.length := by
        have hpos := congrArg List.length hdrop
        rw [List.length_drop, List.length_append, length_u32Le] at hpos
        omega
      have hrest' : rest = u32Le (u32At rest 0) ++
          (u32Le len ++ (utf8 t ++ (commentsTrailer ++ suffix))) := by
        rw [u32Le_u32At hlong, ← hdrop, List.drop_zero, List.take_append_drop]
      exact ⟨buf.take marker, some (u32At rest 0), len, suffix, hrest' ▸ hbuf, hlen, hfirst'⟩

/-- A text of 1 to 32768 bytes is read back from either layout, and a text that is read stands
behind the first marker after one or two lengths. -/
theorem comment_extraction :
    (∀ (before : Bytes) (doubled : Bool) (text : String) (suffix : Bytes),
      ¬ commentsMarker <:+: before →
      0 < (utf8 text).length ∧ (utf8 text).length ≤ commentMaxLen →
        extractComments (before ++ (commentBlock doubled text ++ suffix)) = .found text) ∧
    ∀ (buf : Bytes) (t : String), extractComments buf = .found t →
      ∃ (before : Bytes) (other : Option UInt32) (len : UInt32) (suffix : Bytes),
        buf = before ++ (commentsMarker ++ ((other.map u32Le).getD [] ++
          (u32Le len ++ (utf8 t ++ (commentsTrailer ++ suffix))))) ∧
        len.toNat % 2 ^ 31 = (utf8 t).length ∧
        ∀ j < before.length, ¬ commentsMarker <+: buf.drop j :=
  ⟨fun _ doubled _ suffix hfree hlen => extractComments_block hfree hlen doubled suffix,
    fun _ _ => extractComments_sound⟩

theorem comment_extraction_doubled :
    extractComments ([0xFF, 0xD9] ++ (commentBlock true "url=x" ++ [0xFA])) = .found "url=x" :=
  comment_extraction.1 _ true "url=x" _ (by decide) (by decide)

/-- A block without text gives none: the length is zero, and so is the second one, or the trailer is
taken for it. -/
theorem extractComments_empty {before : Bytes} (hfree : ¬ commentsMarker <:+: before)
    {text : String} (hlen : (utf8 text).length = 0) (doubled : Bool) (suffix : Bytes) :
    extractComments (before ++ (commentBlock doubled text ++ suffix)) = .missing := by
  have hafter : (before ++ commentsMarker).length = before.length + commentsMarker.length :=
    List.length_append
  have hfound : findSubslice (before ++ (commentBlock doubled text ++ suffix)) commentsMarker =
      some before.length := by
    rw [commentBlock, List.append_assoc]
    exact find_marker hfree _
  have hnil : utf8 text = [] := List.eq_nil_of_length_eq_zero hlen
  have hfirst : ∀ rest : Bytes,
      textAfter ((before ++ commentsMarker) ++ (u32Le 0 ++ rest))
        (before ++ commentsMarker).length 4 =
        .missing := by
    intro rest
    refine textAfter_no_length ?_ (Nat.le_refl 4) (.inl ?_)
    · simp only [List.length_append, length_u32Le]
      omega
    · rw [Nat.add_sub_cancel, u32At_append]
      rfl
  rw [extractComments, hfound]
  dsimp only
  cases doubled with
  | false =>
      have hbuf : before ++ (commentBlock false text ++ suffix) =
          (before ++ commentsMarker) ++ (u32Le 0 ++ (commentsTrailer ++ suffix)) := by
        simp [commentBlock, hnil]
      have hsecond : textAfter
          ((before ++ commentsMarker) ++ (u32Le 0 ++ (commentsTrailer ++ suffix)))
          (before ++ commentsMarker).length 8 = .missing := by
        refine textAfter_no_length ?_ (by decide) (.inr ?_)
        · simp only [List.length_append, length_u32Le]
          have htrailer : commentsTrailer.length = 11 := rfl
          omega
        · have hat : (before ++ commentsMarker).length + 8 - 4 =
              ((before ++ commentsMarker) ++ u32Le 0).length := by
            simp only [List.length_append, length_u32Le]
            omega
          rw [hat, ← List.append_assoc, toNat_u32At, List.drop_left]
          show commentMaxLen < ofLe (commentsTrailer.take 4) % 2 ^ 31
          decide
      rw [hbuf, ← hafter, tryLayouts, hfirst]
      dsimp only
      rw [tryLayouts, hsecond]
      rfl
  | true =>
      have hbuf : before ++ (commentBlock true text ++ suffix) =
          (before ++ commentsMarker) ++ (u32Le 0 ++ (u32Le 0 ++ (commentsTrailer ++ suffix))) := by
        simp [commentBlock, hnil]
      have hsecond : textAfter
          ((before ++ commentsMarker) ++ (u32Le 0 ++ (u32Le 0 ++ (commentsTrailer ++ suffix))))
          (before ++ commentsMarker).length 8 = .missing := by
        refine textAfter_no_length ?_ (by decide) (.inl ?_)
        · simp only [List.length_append, length_u32Le]
          omega
        · have hat : (before ++ commentsMarker).length + 8 - 4 =
              ((before ++ commentsMarker) ++ u32Le 0).length := by
            simp only [List.length_append, length_u32Le]
            omega
          rw [hat, ← List.append_assoc, u32At_append]
          rfl
      rw [hbuf, ← hafter, tryLayouts, hfirst]
      dsimp only
      rw [tryLayouts, hsecond]
      rfl

end Nadeo

end Dd2Server
