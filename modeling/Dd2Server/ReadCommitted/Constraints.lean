import Dd2Server.ReadCommitted.Program

/-!
# Rows under constraints

A table declares checks of its rows, and the rows that a row refers to.  A statement that writes a
row which breaks one of them fails as a whole.  While it is open the transaction keeps the rows
referred to.
-/

namespace ReadCommitted

variable {T : Type} {K R : T → Type} [∀ t, DecidableEq (K t)]

/-- The constraints of the tables of a database. -/
structure Constraints (K R : T → Type) where
  check : (t : T) → K t → R t → Bool
  /-- The rows a row refers to. -/
  parents : (t : T) → K t → R t → List (RowKey K)

namespace Constraints

variable (C : Constraints K R) (t : T) (k : K t) (r : R t) (v : Store K R)

/-- `INSERT … ON CONFLICT DO UPDATE` with the same columns either way, and an `UPDATE`: the checks
pass and the parents are there. -/
def upsertRow : Option (Effect K R) :=
  if C.check t k r && (C.parents t k r).all fun p => (v.get p).isSome then
    some
      { writes := [⟨⟨t, k⟩, some r⟩],
        locks := (C.parents t k r).map fun p => ⟨p, .keyShare⟩ }
  else none

/-- `INSERT`. -/
def insertRow : Option (Effect K R) :=
  if (v.get ⟨t, k⟩).isNone then C.upsertRow t k r v else none

variable {C t k r v} {e : Effect K R}

theorem upsertRow_writes (h : C.upsertRow t k r v = some e) :
    e.writes = [⟨⟨t, k⟩, some r⟩] := by
  rw [upsertRow] at h
  split at h
  case isFalse => cases h
  case isTrue =>
    cases h
    rfl

theorem insertRow_spec (h : C.insertRow t k r v = some e) :
    v.get ⟨t, k⟩ = none ∧ e.writes = [⟨⟨t, k⟩, some r⟩] := by
  rw [insertRow] at h
  split at h
  case isFalse => cases h
  case isTrue hnone => exact ⟨Option.isNone_iff_eq_none.1 hnone, upsertRow_writes h⟩

end Constraints

end ReadCommitted
