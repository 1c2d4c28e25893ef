import Dd2Server.Comment
import Mathlib.Data.List.Infix

/-!
# The shape of a spec pointer

The comment parser splits all that follows `://` at the slashes, looks at the last three segments
that are not empty, and cuts every `.json` off the last one.  `Pointer` says of the text itself
which ones have an owner and a name at the end.
-/

namespace Dd2Server

/-! ## Segments -/

namespace Text

theorem splitSlashFrom_cons (seg cs : List Char) (c : Char) : splitSlashFrom seg (c :: cs) =
    if c = '/' then seg.reverse :: splitSlashFrom [] cs else splitSlashFrom (c :: seg) cs := by
  split
  case isTrue h => rw [h, splitSlashFrom]
  case isFalse h =>
    rw [splitSlashFrom]
    exact h

theorem splitSlash_append (xs ys : List Char) :
    splitSlash (xs ++ '/' :: ys) = splitSlash xs ++ splitSlash ys := by
  have hfrom : ∀ seg, splitSlashFrom seg (xs ++ '/' :: ys) =
      splitSlashFrom seg xs ++ splitSlash ys := by
    induction xs with
    | nil => exact fun seg => rfl
    | cons c xs ih =>
        intro seg
        rw [List.cons_append, splitSlashFrom_cons, splitSlashFrom_cons]
        split
        · rw [ih, List.cons_append]
        · exact ih _
  exact hfrom []

theorem splitSlash_of_notMem {xs : List Char} (h : '/' ∉ xs) : splitSlash xs = [xs] := by
  have hfrom : ∀ seg, splitSlashFrom seg xs = [seg.reverse ++ xs] := by
    induction xs with
    | nil => simp [splitSlashFrom]
    | cons c xs ih =>
        intro seg
        simp only [List.mem_cons, not_or] at h
        rw [splitSlashFrom_cons, if_neg (fun hc => h.1 hc.symm), ih h.2]
        simp
  exact hfrom []

end Text

/-- The segments that are not empty, from the last one on. -/
def segmentsBack (text : List Char) : List (List Char) :=
  ((Text.splitSlash text).filter fun s => s ≠ []).reverse

theorem segmentsBack_append (xs ys : List Char) :
    segmentsBack (xs ++ '/' :: ys) = segmentsBack ys ++ segmentsBack xs := by
  rw [segmentsBack, Text.splitSlash_append, List.filter_append, List.reverse_append]
  rfl

theorem segmentsBack_segment {s : List Char} (hne : s ≠ []) (hs : '/' ∉ s) :
    segmentsBack s = [s] := by
  rw [segmentsBack, Text.splitSlash_of_notMem hs, List.filter_cons_of_pos (by simpa using hne)]
  rfl

/-- Slashes in a row. -/
def slashes (k : Nat) : List Char := List.replicate k '/'

theorem segmentsBack_slashes (xs : List Char) (k : Nat) :
    segmentsBack (xs ++ slashes k) = segmentsBack xs := by
  have hnone : ∀ k, segmentsBack (slashes k) = [] := by
    intro k
    induction k with
    | zero => rfl
    | succ k ih =>
        have h := segmentsBack_append [] (slashes k)
        rw [ih] at h
        exact h
  cases k with
  | zero => rw [slashes, List.replicate_zero, List.append_nil]
  | succ k =>
      rw [slashes, List.replicate_succ, segmentsBack_append, ← slashes, hnone, List.nil_append]

/-- Where a segment may begin: at the start, or after a slash. -/
def Opens (before : List Char) : Prop := before = [] ∨ before.getLast? = some '/'

theorem opens_slashes (xs : List Char) (k : Nat) : Opens (xs ++ slashes (k + 1)) := by
  refine .inr ?_
  rw [slashes, List.replicate_succ', ← List.append_assoc, List.getLast?_concat]

/-- After a segment the next one begins behind a slash. -/
theorem Opens.pos {xs s : List Char} {k : Nat} (h : Opens (xs ++ s ++ slashes k)) (hne : s ≠ [])
    (hs : '/' ∉ s) : 0 < k := by
  refine Nat.pos_of_ne_zero ?_
  rintro rfl
  rw [slashes, List.replicate_zero, List.append_nil] at h
  rcases h with h | h
  · exact hne (List.append_eq_nil_iff.1 h).2
  · rw [List.getLast?_append_of_ne_nil _ hne] at h
    exact hs (List.mem_of_getLast? h)

theorem segmentsBack_last {before s : List Char} (hbefore : Opens before) (hne : s ≠ [])
    (hs : '/' ∉ s) (k : Nat) :
    segmentsBack (before ++ s ++ slashes k) = s :: segmentsBack before := by
  rw [segmentsBack_slashes]
  rcases hbefore with rfl | hlast
  · exact segmentsBack_segment hne hs
  · obtain ⟨xs, rfl⟩ := List.getLast?_eq_some_iff.1 hlast
    have hslash : segmentsBack (xs ++ ['/']) = segmentsBack xs := segmentsBack_slashes xs 1
    rw [hslash, List.append_assoc, List.singleton_append, segmentsBack_append,
      segmentsBack_segment hne hs]
    rfl

/-- A text has a last segment, or it has slashes only. -/
theorem last_segment (text : List Char) : (∃ k, text = slashes k) ∨
    ∃ before s k, Opens before ∧ s ≠ [] ∧ '/' ∉ s ∧
    text = before ++ s ++ slashes k := by
  induction text using List.reverseRecOn with
  | nil => exact .inl ⟨0, rfl⟩
  | append_singleton xs c ih =>
      have hsucc : ∀ k, slashes (k + 1) = slashes k ++ ['/'] := fun k => List.replicate_succ'
      by_cases hc : c = '/'
      · subst hc
        rcases ih with ⟨k, rfl⟩ | ⟨before, s, k, hbefore, hne, hs, rfl⟩
        · exact .inl ⟨k + 1, (hsucc k).symm⟩
        · refine .inr ⟨before, s, k + 1, hbefore, hne, hs, ?_⟩
          rw [hsucc, ← List.append_assoc]
      · have hone : '/' ∉ [c] := fun hm => hc (List.mem_singleton.1 hm).symm
        rcases ih with ⟨k, rfl⟩ | ⟨before, s, k, hbefore, hne, hs, rfl⟩
        · refine .inr ⟨slashes k, [c], 0, ?_, List.cons_ne_nil _ _, hone, by simp [slashes]⟩
          cases k with
          | zero => exact .inl rfl
          | succ k => exact opens_slashes [] k
        · cases k with
          | zero =>
              refine .inr ⟨before, s ++ [c], 0, hbefore, by simp, ?_, by simp [slashes]⟩
              rw [List.mem_append]
              exact not_or.2 ⟨hs, hone⟩
          | succ k =>
              exact .inr ⟨before ++ s ++ slashes (k + 1), [c], 0, opens_slashes _ k,
                List.cons_ne_nil _ _, hone, by simp [slashes]⟩

/-- The last segment of a text, and what comes before it. -/
theorem segmentsBack_cons {text s : List Char} {rest : List (List Char)}
    (h : segmentsBack text = s :: rest) : ∃ before k, Opens before ∧ s ≠ [] ∧ '/' ∉ s ∧
      text = before ++ s ++ slashes k ∧ segmentsBack before = rest := by
  rcases last_segment text with ⟨k, rfl⟩ | ⟨before, s', k, hbefore, hne, hs, rfl⟩
  · have hnone : segmentsBack (slashes k) = [] := segmentsBack_slashes [] k
    rw [hnone] at h
    cases h
  · rw [segmentsBack_last hbefore hne hs] at h
    obtain ⟨rfl, hrest⟩ := List.cons.inj h
    exact ⟨before, k, hbefore, hne, hs, rfl, hrest⟩

/-! ## Names -/

namespace Text

theorem stripPrefix_eq_some {p cs rest : List Char} :
    stripPrefix p cs = some rest ↔ cs = p ++ rest := by
  constructor
  · intro h
    induction p generalizing cs with
    | nil =>
        rw [stripPrefix, Option.some_inj] at h
        exact h
    | cons a p ih =>
        cases cs with
        | nil => cases h
        | cons c cs =>
            rw [stripPrefix, Option.ite_none_right_eq_some] at h
            rw [ih h.2, h.1, List.cons_append]
  · rintro rfl
    exact stripPrefix_append p rest

theorem stripPrefix_eq_none {p cs : List Char} : stripPrefix p cs = none ↔ ¬p <+: cs := by
  rw [Option.eq_none_iff_forall_ne_some]
  constructor
  · rintro h ⟨rest, rfl⟩
    exact h rest (stripPrefix_append p rest)
  · exact fun h rest hrest => h ⟨rest, (stripPrefix_eq_some.1 hrest).symm⟩

/-- Every prefix `p` is cut, and none is left. -/
theorem trimStartMatches_shape {p : List Char} (hp : p ≠ []) (fuel : Nat) (cs : List Char)
    (hfuel : cs.length ≤ fuel) :
      ∃ n, cs = (List.replicate n p).flatten ++ trimStartMatches p fuel cs ∧
      ¬p <+: trimStartMatches p fuel cs := by
  induction fuel generalizing cs with
  | zero =>
      rw [List.length_eq_zero_iff.1 (Nat.le_zero.1 hfuel)]
      exact ⟨0, rfl, fun h => hp (List.prefix_nil.1 h)⟩
  | succ fuel ih =>
      rw [trimStartMatches]
      split
      case h_1 rest hstrip =>
        obtain rfl := stripPrefix_eq_some.1 hstrip
        have hlen : rest.length ≤ fuel := by
          have := List.length_pos_iff.2 hp
          rw [List.length_append] at hfuel
          omega
        obtain ⟨n, hrest, hno⟩ := ih rest hlen
        refine ⟨n + 1, ?_, hno⟩
        rw [List.replicate_succ, List.flatten_cons, List.append_assoc, ← hrest]
      case h_2 hstrip => exact ⟨0, rfl, stripPrefix_eq_none.1 hstrip⟩

theorem trimStartMatches_replicate {p rest : List Char} (h : ¬p <+: rest) (n fuel : Nat)
    (hn : n ≤ fuel) : trimStartMatches p fuel ((List.replicate n p).flatten ++ rest) = rest := by
  induction n generalizing fuel with
  | zero =>
      cases fuel with
      | zero => rfl
      | succ fuel =>
          have hstrip := stripPrefix_eq_none.2 h
          rw [List.replicate_zero, List.flatten_nil, List.nil_append, trimStartMatches, hstrip]
  | succ n ih =>
      cases fuel with
      | zero => exact absurd hn (Nat.not_succ_le_zero n)
      | succ fuel =>
          rw [List.replicate_succ, List.flatten_cons, List.append_assoc, trimStartMatches,
            stripPrefix_append]
          exact ih fuel (Nat.le_of_succ_le_succ hn)

end Text

/-- `ends_with(".json")`. -/
def endsWithJson (cs : List Char) : Bool :=
  (Text.stripPrefix ".json".toList.reverse cs.reverse).isSome

/-- `trim_end_matches(".json")`. -/
def stem (cs : List Char) : String := String.ofList (Text.trimEndMatches ".json".toList cs)

theorem endsWithJson_iff {cs : List Char} : endsWithJson cs = true ↔ ".json".toList <:+ cs := by
  rw [endsWithJson, Option.isSome_iff_ne_none, Ne, Text.stripPrefix_eq_none, not_not,
    List.reverse_prefix]

/-- The name with that many suffixes. -/
def suffixed (nameId : String) (n : Nat) : List Char :=
  nameId.toList ++ (List.replicate n ".json".toList).flatten

theorem suffixed_succ (nameId : String) (n : Nat) :
    suffixed nameId (n + 1) = suffixed nameId n ++ ".json".toList := by
  rw [suffixed, suffixed, List.replicate_succ', List.flatten_append, List.flatten_singleton,
    List.append_assoc]

theorem reverse_suffixed (nameId : String) (n : Nat) : (suffixed nameId n).reverse =
    (List.replicate n ".json".toList.reverse).flatten ++ nameId.toList.reverse := by
  rw [suffixed, List.reverse_append, List.reverse_flatten, List.map_replicate,
    List.reverse_replicate]

theorem stem_suffixed {nameId : String} (h : ¬".json".toList <:+ nameId.toList) (n : Nat) :
    stem (suffixed nameId n) = nameId := by
  have hn : n ≤ (suffixed nameId n).length := by
    have hlen : ".json".toList.length = 5 := by decide
    rw [suffixed, List.length_append, List.length_flatten, List.map_replicate,
      List.sum_replicate_nat, hlen]
    omega
  rw [stem, Text.trimEndMatches, reverse_suffixed,
    Text.trimStartMatches_replicate (by rwa [List.reverse_prefix]) n _ hn, List.reverse_reverse,
    String.ofList_toList]

theorem suffixed_stem (cs : List Char) :
    ¬".json".toList <:+ (stem cs).toList ∧ ∃ n, cs = suffixed (stem cs) n := by
  have hjson : ".json".toList.reverse ≠ [] := by decide
  obtain ⟨n, hcs, hno⟩ := Text.trimStartMatches_shape hjson cs.length cs.reverse (by simp)
  have hstem : (stem cs).toList =
      (Text.trimStartMatches ".json".toList.reverse cs.length cs.reverse).reverse := by
    rw [stem, Text.trimEndMatches, String.toList_ofList]
  refine ⟨?_, n, ?_⟩
  · rwa [hstem, ← List.reverse_prefix, List.reverse_reverse]
  · rw [← List.reverse_inj, reverse_suffixed, hstem, List.reverse_reverse]
    exact hcs

theorem mem_suffixed {nameId : String} {n : Nat} {c : Char} (h : c ∈ suffixed nameId n) :
    c ∈ nameId.toList ∨ c ∈ ".json".toList := by
  rcases List.mem_append.1 h with h | h
  · exact .inl h
  · obtain ⟨l, hl, hc⟩ := List.mem_flatten.1 h
    rw [List.eq_of_mem_replicate hl] at hc
    exact .inr hc

/-! ## Ids -/

theorem Text.digits_of_readDigits {b bound acc n : Nat} {cs : List Char}
    (h : readDigits b bound acc cs = some n) : ∀ c ∈ cs, (digitOf b c).isSome = true := by
  induction cs generalizing acc with
  | nil => exact fun c hc => absurd hc List.not_mem_nil
  | cons d cs ih =>
      rw [readDigits] at h
      split at h
      case h_1 => cases h
      case h_2 v hv =>
        rw [Option.ite_none_right_eq_some] at h
        rintro c (_ | ⟨_, hc⟩)
        · rw [hv]
          rfl
        · exact ih h.2 c hc

theorem getElem_mem_slice {cs : List Char} {i a k : Nat} (hi : i < cs.length) (ha : a ≤ i)
    (hk : i < a + k) : cs[i] ∈ (cs.drop a).take k := by
  refine List.mem_iff_getElem.2 ⟨i - a, ?_, ?_⟩
  · rw [List.length_take, List.length_drop]
    omega
  · simp [Nat.add_sub_cancel' ha]

theorem mem_unhyphenated {cs ds : List Char} (h : unhyphenated cs = some ds) {c : Char}
    (hc : c ∈ cs) : c = '-' ∨ c ∈ ds := by
  rw [unhyphenated, Option.ite_none_right_eq_some, Option.some_inj] at h
  obtain ⟨⟨hlen, hhyphens⟩, rfl⟩ := h
  obtain ⟨i, hi, rfl⟩ := List.getElem_of_mem hc
  have hslice := fun a k => getElem_mem_slice (a := a) (k := k) hi
  simp only [List.mem_append]
  by_cases hhyphen : i = 8 ∨ i = 13 ∨ i = 18 ∨ i = 23
  · left
    have hmem : i ∈ [8, 13, 18, 23] := by simpa using hhyphen
    have h := List.all_eq_true.1 hhyphens i hmem
    rw [decide_eq_true_eq, List.getElem?_eq_getElem hi, Option.some_inj] at h
    exact h
  · right
    rcases Nat.lt_or_ge i 8 with h8 | h8
    · exact .inl (.inl (.inl (.inl (hslice 0 8 (Nat.zero_le i) h8))))
    rcases Nat.lt_or_ge i 13 with h13 | h13
    · exact .inl (.inl (.inl (.inr (hslice 9 4 (by omega) h13))))
    rcases Nat.lt_or_ge i 18 with h18 | h18
    · exact .inl (.inl (.inr (hslice 14 4 (by omega) h18)))
    rcases Nat.lt_or_ge i 23 with h23 | h23
    · exact .inl (.inr (hslice 19 4 (by omega) h23))
    · right
      have h := hslice 24 12 (by omega) (by omega)
      exact List.mem_of_mem_take h

theorem mem_uuidDigits {cs ds : List Char} (h : uuidDigits cs = some ds) {c : Char}
    (hc : c ∈ cs) : c ∈ "urn:id-\x7b\x7d".toList ∨ c ∈ ds := by
  have hhyphen : ∀ {cs : List Char}, unhyphenated cs = some ds → c ∈ cs →
      c ∈ "urn:id-\x7b\x7d".toList ∨ c ∈ ds := by
    intro cs h hc
    refine (mem_unhyphenated h hc).imp_left ?_
    rintro rfl
    decide
  rw [uuidDigits] at h
  split at h
  case isTrue =>
    rw [← Option.some_inj.1 h]
    exact .inr hc
  split at h
  case isTrue => exact hhyphen h hc
  split at h
  case isTrue hbraces =>
    obtain ⟨-, hhead, hlast⟩ := hbraces
    obtain ⟨rest, rfl⟩ := List.head?_eq_some_iff.1 hhead
    rw [List.tail_cons] at h
    rcases List.mem_cons.1 hc with rfl | hc
    · exact .inl (by decide)
    · rw [List.getLast?_cons_of_ne_nil (List.ne_nil_of_mem hc)] at hlast
      obtain ⟨digits, rfl⟩ := List.getLast?_eq_some_iff.1 hlast
      rw [List.dropLast_concat] at h
      rcases List.mem_append.1 hc with hc | hc
      · exact hhyphen h hc
      · rw [List.mem_singleton.1 hc]
        exact .inl (by decide)
  split at h
  case isTrue =>
    obtain ⟨rest, hrest, h⟩ := Option.bind_eq_some_iff.1 h
    obtain rfl := Text.stripPrefix_eq_some.1 hrest
    rcases List.mem_append.1 hc with hc | hc
    · have hall : "urn:uuid:".toList.all (· ∈ "urn:id-\x7b\x7d".toList) = true := by decide
      exact .inl (of_decide_eq_true (List.all_eq_true.1 hall c hc))
    · exact hhyphen h hc
  case isFalse => cases h

/-- The characters of an id. -/
theorem Uuid.mem_of_parse {cs : List Char} {id : Uuid} (h : Uuid.parse cs = some id) {c : Char}
    (hc : c ∈ cs) : c ∈ "urn:id-\x7b\x7d".toList ∨ (Text.digitOf 16 c).isSome = true := by
  obtain ⟨ds, hds, h⟩ := Option.bind_eq_some_iff.1 h
  obtain ⟨n, hn, -⟩ := Option.map_eq_some_iff.1 h
  exact (mem_uuidDigits hds hc).imp_right (Text.digits_of_readDigits hn c)

theorem Uuid.ne_nil_of_parse {cs : List Char} {id : Uuid} (h : Uuid.parse cs = some id) :
    cs ≠ [] := by
  rintro rfl
  cases h

theorem mark_cases {c : Char} (hc : c ∈ ['/', '?', '#']) : c = '/' ∨ c = '?' ∨ c = '#' := by
  simpa only [List.mem_cons, List.not_mem_nil, or_false] using hc

theorem Uuid.notMem_of_parse {cs : List Char} {id : Uuid} (h : Uuid.parse cs = some id) {c : Char}
    (hc : c ∈ ['/', '?', '#']) : c ∉ cs := by
  intro hm
  have hchar := Uuid.mem_of_parse h hm
  rcases mark_cases hc with rfl | rfl | rfl <;> exact absurd hchar (by decide)

/-! ## Pointers -/

/-- The text ends in a pointer: the segment `aux_spec`, a form of the id, and the name with its
suffixes, any number of slashes between and after them. -/
structure Pointer (text : List Char) (userId : Uuid) (nameId : String) : Prop where
  ends : ∃ before wsid i j k n, Opens before ∧ Uuid.parse wsid = some userId ∧
    text = before ++ "aux_spec".toList ++ slashes (i + 1) ++ wsid ++ slashes (j + 1) ++
      suffixed nameId n ++ slashes k
  segment : '/' ∉ nameId.toList
  bare : ¬".json".toList <:+ nameId.toList
  nonblank : nameId ≠ ""
  short : Text.byteLen nameId ≤ 32

theorem notMem_suffixed {nameId : String} {c : Char} (h : c ∉ nameId.toList)
    (hc : c ∈ ['/', '?', '#']) (n : Nat) : c ∉ suffixed nameId n := by
  have hno : c ∉ ".json".toList := by
    rcases mark_cases hc with rfl | rfl | rfl <;> decide
  exact fun hm => (mem_suffixed hm).elim h hno

theorem suffixed_ne_nil {nameId : String} (h : nameId ≠ "") (n : Nat) :
    suffixed nameId n ≠ [] := by
  rw [suffixed, Ne, List.append_eq_nil_iff, not_and_or]
  exact .inl fun he => h (String.toList_eq_nil_iff.1 he)

/-- The last three segments of a text with a pointer. -/
theorem pointer_iff {text : List Char} {userId : Uuid} {nameId : String} :
    Pointer text userId nameId ↔
      ∃ wsid name before, segmentsBack text = name :: wsid :: "aux_spec".toList :: before ∧
      Uuid.parse wsid = some userId ∧ nameId = stem name ∧ nameId ≠ "" ∧
      Text.byteLen nameId ≤ 32 := by
  have haux : '/' ∉ "aux_spec".toList := by decide
  constructor
  · rintro ⟨⟨before, wsid, i, j, k, n, hbefore, hid, rfl⟩, hsegment, hbare, hne, hlen⟩
    refine ⟨wsid, suffixed nameId n, segmentsBack before, ?_, hid,
      (stem_suffixed hbare n).symm, hne, hlen⟩
    rw [segmentsBack_last (opens_slashes _ j) (suffixed_ne_nil hne n)
        (notMem_suffixed hsegment (by decide) n) k,
      segmentsBack_last (opens_slashes _ i) (Uuid.ne_nil_of_parse hid)
        (Uuid.notMem_of_parse hid (by decide)) (j + 1),
      segmentsBack_last hbefore (by decide) haux (i + 1)]
  · rintro ⟨wsid, name, rest, hsegs, hid, rfl, hne, hlen⟩
    obtain ⟨hbare, n, hname⟩ := suffixed_stem name
    obtain ⟨before₁, k, hopens₁, -, hslash, rfl, hsegs₁⟩ := segmentsBack_cons hsegs
    obtain ⟨before₂, j, hopens₂, hwsid, hslash', rfl, hsegs₂⟩ :=
      segmentsBack_cons hsegs₁
    obtain ⟨before, i, hopens, hne', -, rfl, -⟩ := segmentsBack_cons hsegs₂
    obtain ⟨j, rfl⟩ := Nat.exists_eq_succ_of_ne_zero (hopens₁.pos hwsid hslash').ne'
    obtain ⟨i, rfl⟩ := Nat.exists_eq_succ_of_ne_zero (hopens₂.pos hne' haux).ne'
    refine ⟨⟨before, wsid, i, j, k, n, hopens, hid, by rw [← hname]⟩, fun hm => hslash ?_,
      hbare, hne, hlen⟩
    rw [hname]
    exact List.mem_append_left _ hm

theorem Pointer.unique {text : List Char} {userId userId' : Uuid} {nameId nameId' : String}
    (h : Pointer text userId nameId) (h' : Pointer text userId' nameId') :
    userId' = userId ∧ nameId' = nameId := by
  obtain ⟨wsid, name, before, hsegs, hid, rfl, -⟩ := pointer_iff.1 h
  obtain ⟨wsid', name', before', hsegs', hid', rfl, -⟩ := pointer_iff.1 h'
  rw [hsegs] at hsegs'
  cases hsegs'
  rw [hid] at hid'
  cases hid'
  exact ⟨rfl, rfl⟩

/-- The text after the first `p`, where what comes before has not its first character. -/
theorem Text.splitOnceAfter_append {a : Char} {p before : List Char} (h : a ∉ before)
    (rest : List Char) : splitOnceAfter (a :: p) (before ++ (a :: p) ++ rest) = some rest := by
  have hfind : findFrom (a :: p) (before ++ (a :: p) ++ rest) = some (a :: p ++ rest) := by
    induction before with
    | nil =>
        rw [List.nil_append, List.cons_append, findFrom, if_pos]
        rw [← List.cons_append, stripPrefix_append]
        rfl
    | cons c before ih =>
        simp only [List.mem_cons, not_or] at h
        rw [List.cons_append, List.cons_append, findFrom, if_neg, ih h.2]
        simp [stripPrefix, h.1]
  rw [splitOnceAfter, hfind]
  exact stripPrefix_append (a :: p) rest

/-- The parser finds the pointer at the end of what follows `://`. -/
theorem auxSpecPath_iff {scheme text : List Char} (hscheme : ':' ∉ scheme) (userId : Uuid)
    (nameId : String) :
    auxSpecPath (scheme ++ "://".toList ++ text) = some (userId, nameId) ↔
    Pointer text userId nameId := by
  have hsplit : Text.splitOnceAfter "://".toList (scheme ++ "://".toList ++ text) = some text :=
    Text.splitOnceAfter_append hscheme text
  rw [auxSpecPath, hsplit, pointer_iff]
  dsimp only [Option.getD_some]
  split
  case h_1 name wsid parent before hsegs =>
    rw [segmentsBack, hsegs]
    constructor
    · intro h
      split at h
      case isFalse => cases h
      case isTrue hparent =>
        obtain ⟨userId', hid, h⟩ := Option.bind_eq_some_iff.1 h
        split at h
        case isTrue => cases h
        case isFalse hname =>
          cases h
          obtain ⟨hne, hlen⟩ := not_or.1 hname
          exact ⟨wsid, name, before, by rw [hparent], hid, rfl, hne, Nat.le_of_not_lt hlen⟩
    · rintro ⟨wsid', name', before', he, hid, rfl, hne, hlen⟩
      cases he
      rw [if_pos rfl, hid, Option.bind_some]
      exact if_neg (not_or.2 ⟨hne, Nat.not_lt_of_le hlen⟩)
  case h_2 hshort =>
    refine iff_of_false (fun h => by cases h) ?_
    rintro ⟨wsid, name, before, he, -⟩
    exact hshort name wsid _ before he

end Dd2Server
