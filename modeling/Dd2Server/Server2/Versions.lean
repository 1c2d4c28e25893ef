import Dd2Server.Comment
import Mathlib.Order.PiLex
import Mathlib.Data.Set.Basic

/-!
# The version gate

`version_less` compares two versions part by part and stops where the shorter one ends.  Where it
finds a difference it decides as the lexicographic order does; where it finds none it says no,
whatever the longer version still has.
-/

namespace Dd2Server

namespace Server2

/-- `MIN_PLUGIN_VERSION`. -/
def minPluginVersion : List Nat := [0, 4, 15]

def versionLess : List Nat → List Nat → Bool
  | a :: v1, b :: v2 => if a < b then true else if a > b then false else versionLess v1 v2
  | _, _ => false

def versionToString (v : List Nat) : String :=
  ".".intercalate (v.map fun i => String.ofList (Text.natChars i))

/-- `version_str_to_parts`, `none` where a part is not a `u32`. -/
def versionStrToParts (version : List Char) : Option (List Nat) :=
  (version.splitOn '.').mapM Text.parseU32

def pluginInfoExtractVersion (pluginInfo : List Char) : List Char :=
  (((Text.lines pluginInfo).find? fun l => (Text.stripPrefix "Version:".toList l).isSome).bind
    fun vl => (vl.splitOn ':').getLast?).getD "0.0.0".toList

/-- `check_min_plugin_version`. -/
def checkMinPluginVersion (pluginInfo : List Char) : Except String Unit :=
  let parts := (versionStrToParts (pluginInfoExtractVersion pluginInfo)).getD [0, 0, 0]
  if versionLess parts minPluginVersion then
    .error ("Update Plugin! Version too low: " ++ versionToString parts)
  else .ok ()

/-! ## The order -/

/-- A part of a version, `0` where it is missing. -/
def partAt (v : List Nat) (i : Nat) : Nat := v.getD i 0

/-- The lexicographic order, with missing parts read as `0`. -/
def Below (v1 v2 : List Nat) : Prop :=
  ∃ i, (∀ j < i, partAt v1 j = partAt v2 j) ∧ partAt v1 i < partAt v2 i

/-- The first version ends where the second goes on with more than zeros. -/
def CutShort (v1 v2 : List Nat) : Prop := ∃ rest, v2 = v1 ++ rest ∧ ∃ n ∈ rest, n ≠ 0

theorem below_iff_lex {v1 v2 : List Nat} : Below v1 v2 ↔ toLex (partAt v1) < toLex (partAt v2) :=
  Iff.rfl

instance below_strictWeakOrder : IsStrictWeakOrder (List Nat) Below where
  irrefl v h := lt_irrefl _ (below_iff_lex.1 h)
  trans a b c h h' := below_iff_lex.2 ((below_iff_lex.1 h).trans (below_iff_lex.1 h'))
  incomp_trans a b c h h' := by
    have hle : ∀ {x y : List Nat}, ¬Below x y → toLex (partAt y) ≤ toLex (partAt x) :=
      fun h => not_lt.1 h
    exact ⟨not_lt.2 ((hle h'.1).trans (hle h.1)), not_lt.2 ((hle h.2).trans (hle h'.2))⟩

@[simp] theorem partAt_cons_zero (a : Nat) (v : List Nat) : partAt (a :: v) 0 = a := rfl

@[simp] theorem partAt_cons_succ (a : Nat) (v : List Nat) (i : Nat) :
    partAt (a :: v) (i + 1) = partAt v i := rfl

@[simp] theorem partAt_nil (i : Nat) : partAt [] i = 0 := by simp [partAt]

theorem below_cons {a b : Nat} {v1 v2 : List Nat} :
    Below (a :: v1) (b :: v2) ↔ a < b ∨ a = b ∧ Below v1 v2 := by
  constructor
  · rintro ⟨i, heq, hlt⟩
    cases i with
    | zero => exact .inl hlt
    | succ i =>
        exact .inr ⟨heq 0 (Nat.succ_pos i), i, fun j hj =>
          heq (j + 1) (Nat.succ_lt_succ hj), hlt⟩
  · rintro (hlt | ⟨rfl, i, heq, hlt⟩)
    · exact ⟨0, fun j hj => absurd hj (Nat.not_lt_zero j), hlt⟩
    · refine ⟨i + 1, fun j hj => ?_, hlt⟩
      cases j with
      | zero => rfl
      | succ j => exact heq j (Nat.lt_of_succ_lt_succ hj)

theorem not_below_nil {v : List Nat} : ¬Below v [] := by
  rintro ⟨i, -, hlt⟩
  simp at hlt

/-- Nothing is below a version as much as one that ends before a part that is not zero. -/
theorem nil_below_iff {v : List Nat} : Below [] v ↔ ∃ n ∈ v, n ≠ 0 := by
  induction v with
  | nil => simp [not_below_nil]
  | cons b v ih =>
      have hzero : Below [] (b :: v) ↔ 0 < b ∨ 0 = b ∧ Below [] v := by
        rw [← below_cons]
        simp only [Below]
        refine exists_congr fun i => ?_
        have hpart : ∀ j, partAt [0] j = partAt [] j := fun j => by cases j <;> simp
        simp only [hpart]
      rw [hzero, ih]
      simp only [List.mem_cons, exists_eq_or_imp]
      constructor
      · rintro (hpos | ⟨-, h⟩)
        · exact .inl hpos.ne'
        · exact .inr h
      · rintro (hne | h)
        · exact .inl (Nat.pos_of_ne_zero hne)
        · exact (Nat.eq_zero_or_pos b).symm.imp id fun hb => ⟨hb.symm, h⟩

theorem cutShort_cons {a b : Nat} {v1 v2 : List Nat} :
    CutShort (a :: v1) (b :: v2) ↔ a = b ∧ CutShort v1 v2 := by
  constructor
  · rintro ⟨rest, he, hrest⟩
    cases he
    exact ⟨rfl, rest, rfl, hrest⟩
  · rintro ⟨rfl, rest, rfl, hrest⟩
    exact ⟨rest, rfl, hrest⟩

theorem cutShort_nil {v : List Nat} : CutShort [] v ↔ ∃ n ∈ v, n ≠ 0 := by
  constructor
  · rintro ⟨rest, rfl, h⟩
    exact h
  · exact fun h => ⟨v, rfl, h⟩

theorem not_cutShort_nil {a : Nat} {v : List Nat} : ¬CutShort (a :: v) [] := by
  rintro ⟨rest, he, -⟩
  cases he

/-- The comparison is the lexicographic one, unless the first version is cut short. -/
theorem versionLess_iff (v1 v2 : List Nat) :
    versionLess v1 v2 = true ↔ Below v1 v2 ∧ ¬CutShort v1 v2 := by
  induction v1 generalizing v2 with
  | nil => simp [versionLess, nil_below_iff, cutShort_nil]
  | cons a v1 ih =>
      cases v2 with
      | nil => simp [versionLess, not_below_nil]
      | cons b v2 =>
          rw [below_cons, cutShort_cons, versionLess]
          rcases Nat.lt_trichotomy a b with hlt | rfl | hgt
          · simp [hlt, hlt.ne]
          · simp [ih]
          · simp [hgt, hgt.ne', Nat.not_lt_of_gt hgt]

theorem CutShort.below {v1 v2 : List Nat} (h : CutShort v1 v2) : Below v1 v2 := by
  induction v1 generalizing v2 with
  | nil => exact nil_below_iff.2 (cutShort_nil.1 h)
  | cons a v1 ih =>
      cases v2 with
      | nil => exact absurd h not_cutShort_nil
      | cons b v2 =>
          obtain ⟨rfl, hrest⟩ := cutShort_cons.1 h
          exact below_cons.2 (.inr ⟨rfl, ih hrest⟩)

/-- The comparison agrees with the order exactly where the first version is not cut short. -/
theorem versionLess_agrees (v1 v2 : List Nat) :
    (versionLess v1 v2 = true ↔ Below v1 v2) ↔ ¬CutShort v1 v2 := by
  rw [versionLess_iff]
  constructor
  · exact fun h hcut => (h.2 hcut.below).2 hcut
  · exact fun hcut => and_iff_left hcut

/-! ## The gate -/

/-- The gate rejects the client, if its version is malformed or below the minimum. -/
def Gated (pluginInfo : List Char) : Prop :=
  (∀ parts, versionStrToParts (pluginInfoExtractVersion pluginInfo) = some parts →
    Below parts minPluginVersion → ∃ e, checkMinPluginVersion pluginInfo = .error e) ∧
  (versionStrToParts (pluginInfoExtractVersion pluginInfo) = none →
    ∃ e, checkMinPluginVersion pluginInfo = .error e)

theorem cutShort_min {v : List Nat} (hv : v ≠ []) :
    CutShort v minPluginVersion ↔ v = [0] ∨ v = [0, 4] := by
  constructor
  · rintro ⟨rest, he, n, hn, -⟩
    match v, hv, he with
    | [a], _, he =>
        cases he
        exact .inl rfl
    | [a, b], _, he =>
        cases he
        exact .inr rfl
    | [a, b, c], _, he =>
        cases he
        cases hn
    | a :: b :: c :: d :: v, _, he => cases he
  · rintro (rfl | rfl)
    · exact ⟨[4, 15], rfl, 4, by simp⟩
    · exact ⟨[15], rfl, 15, by simp⟩

theorem versionStrToParts_ne_nil {version : List Char} {parts : List Nat}
    (h : versionStrToParts version = some parts) : parts ≠ [] := by
  rintro rfl
  cases hsplit : version.splitOn '.' with
  | nil => exact List.splitOn_ne_nil _ _ hsplit
  | cons c cs => simp [versionStrToParts, hsplit, List.mapM_cons, Option.bind_eq_some_iff] at h

theorem checkMinPluginVersion_error {pluginInfo : List Char} :
    (∃ e, checkMinPluginVersion pluginInfo = .error e) ↔
      versionLess ((versionStrToParts (pluginInfoExtractVersion pluginInfo)).getD [0, 0, 0])
        minPluginVersion = true := by
  rw [checkMinPluginVersion]
  split
  case isTrue h => exact iff_of_true ⟨_, rfl⟩ h
  case isFalse h => exact iff_of_false (fun ⟨e, he⟩ => nomatch he) h

theorem gated_iff (pluginInfo : List Char) : Gated pluginInfo ↔
    ∀ parts, versionStrToParts (pluginInfoExtractVersion pluginInfo) = some parts →
      parts ≠ [0] ∧ parts ≠ [0, 4] := by
  simp only [Gated, checkMinPluginVersion_error]
  cases hparts : versionStrToParts (pluginInfoExtractVersion pluginInfo) with
  | none => exact iff_of_true ⟨nofun, fun _ => by decide⟩ nofun
  | some v =>
      have hv := versionStrToParts_ne_nil hparts
      simp only [Option.some.injEq, Option.getD_some, reduceCtorEq, false_implies,
        and_true, forall_eq']
      rw [← not_or, ← cutShort_min hv, ← versionLess_agrees]
      refine ⟨fun h => ⟨fun hless => ((versionLess_iff v minPluginVersion).1 hless).1, h⟩,
        fun h => h.2⟩

/-- The comparison agrees with the lexicographic order exactly on the pairs of which the first is
not cut short, and is a strict weak order where no pair is; and the gate keeps out what it should
exactly where the version is neither `0` nor `0.4`. -/
theorem version_gate (v1 v2 : List Nat) (S : Set (List Nat)) (pluginInfo : List Char) :
    ((versionLess v1 v2 = true ↔ Below v1 v2) ↔ ¬CutShort v1 v2) ∧
    ((∀ v1 ∈ S, ∀ v2 ∈ S, ¬CutShort v1 v2) →
      IsStrictWeakOrder S fun v1 v2 => versionLess v1.1 v2.1 = true) ∧
    (Gated pluginInfo ↔
      ∀ parts, versionStrToParts (pluginInfoExtractVersion pluginInfo) = some parts →
        parts ≠ [0] ∧ parts ≠ [0, 4]) := by
  refine ⟨versionLess_agrees v1 v2, fun hS => ?_, gated_iff pluginInfo⟩
  have hiff : ∀ a b : S, versionLess a.1 b.1 = true ↔ Below a.1 b.1 :=
    fun a b => (versionLess_agrees a.1 b.1).2 (hS a.1 a.2 b.1 b.2)
  exact {
    irrefl := fun a h => below_strictWeakOrder.irrefl a.1 ((hiff a a).1 h)
    trans := fun a b c h h' => (hiff a c).2 (below_strictWeakOrder.trans _ _ _ ((hiff a b).1 h)
      ((hiff b c).1 h'))
    incomp_trans := fun a b c h h' => by
      simp only [hiff] at h h' ⊢
      exact below_strictWeakOrder.incomp_trans a.1 b.1 c.1 h h' }

/-- A client of version `0.4` is below the minimum, and passes. -/
theorem version_gate_passes_below : Below [0, 4] minPluginVersion ∧
    versionLess [0, 4] minPluginVersion = false ∧
    versionStrToParts (pluginInfoExtractVersion "Version:0.4".toList) = some [0, 4] ∧
    checkMinPluginVersion "Version:0.4".toList = .ok () := by
  refine ⟨⟨2, by decide, by decide⟩, by decide, by decide, ?_⟩
  rfl

end Server2

end Dd2Server
