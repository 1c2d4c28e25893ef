import Dd2Server.Catalog
import Mathlib.Data.Finset.Card
import Mathlib.Data.List.Perm.Subperm

/-!
# Pending hat unlocks

The bookkeeping of one connection: the hats whose validation is not over.  The plugin reports every
newly satisfied hat of a map in one pass, and what is refused for capacity is lost.
-/

namespace Dd2Server

/-- `PendingHatUnlocks`: the `(map_uid, slug)` pairs whose answer is owed. -/
structure PendingHatUnlocks where
  owed : Finset (String × String) := ∅
  deriving DecidableEq

def maxPendingHatUnlocks : Nat := 16

namespace PendingHatUnlocks

/-- The connection is over the spam bound. -/
def isFull (p : PendingHatUnlocks) : Bool := maxPendingHatUnlocks ≤ p.owed.card

/-- A validation is to start; `none` when it is owed already or refused. -/
def «begin» (p : PendingHatUnlocks) (mapUid slug : String) : Option PendingHatUnlocks :=
  if p.isFull || (mapUid, slug) ∈ p.owed then none
  else some { owed := insert (mapUid, slug) p.owed }

def anyForMap (p : PendingHatUnlocks) (mapUid : String) : Bool := ∃ k ∈ p.owed, k.1 = mapUid

/-- A validation is over, with whether its map has drained. -/
def remove (p : PendingHatUnlocks) (key : String × String) : PendingHatUnlocks × Bool :=
  let p' : PendingHatUnlocks := { owed := p.owed.erase key }
  (p', !p'.anyForMap key.1)

end PendingHatUnlocks

/-! ## A batch of reports -/

/-- One connection, one map: a hat is reported, or a validation is over. -/
inductive UnlockStep
  | report (slug : String)
  | settled (slug : String)
  deriving DecidableEq

namespace UnlockStep

def reported : UnlockStep → Option String
  | report slug => some slug
  | settled _ => none

end UnlockStep

open UnlockStep PendingHatUnlocks

/-- The reports that are refused for capacity. -/
def refusedFor (mapUid : String) (p : PendingHatUnlocks) : List UnlockStep → List String
  | [] => []
  | .report slug :: steps =>
      match p.begin mapUid slug with
      | some p' => refusedFor mapUid p' steps
      | none =>
          if p.isFull then slug :: refusedFor mapUid p steps else refusedFor mapUid p steps
  | .settled slug :: steps => refusedFor mapUid (p.remove (mapUid, slug)).1 steps

/-- A schedule of reports of distinct hats of a catalog. -/
def ReportsOnce (hats : List CatalogHat) (steps : List UnlockStep) : Prop :=
  (steps.filterMap reported).Nodup ∧
    ∀ slug ∈ steps.filterMap reported, slug ∈ hats.map CatalogHat.slug

variable {p p' : PendingHatUnlocks} {m slug : String} {steps : List UnlockStep}

theorem begin_card (h : p.begin m slug = some p') :
    p.owed.card < maxPendingHatUnlocks ∧ p'.owed = insert (m, slug) p.owed ∧
      p'.owed.card = p.owed.card + 1 := by
  unfold PendingHatUnlocks.begin at h
  split at h
  · cases h
  · rename_i hc
    simp only [Bool.or_eq_true, isFull, decide_eq_true_eq, not_or, not_le] at hc
    cases h
    exact ⟨hc.1, rfl, Finset.card_insert_of_notMem hc.2⟩

theorem remove_card_le (p : PendingHatUnlocks) (key : String × String) :
    (p.remove key).1.owed.card ≤ p.owed.card := Finset.card_erase_le

/-- Nothing is refused while there is room for all that is still to come. -/
theorem refusedFor_eq_nil
    (h : p.owed.card + (steps.filterMap reported).length ≤ maxPendingHatUnlocks) :
    refusedFor m p steps = [] := by
  induction steps generalizing p with
  | nil => rfl
  | cons step steps ih =>
      cases step with
      | settled slug =>
          have hle := remove_card_le p (m, slug)
          simp only [List.filterMap_cons, reported] at h
          exact ih (by omega)
      | report slug =>
          simp only [List.filterMap_cons, reported, List.length_cons] at h
          rw [refusedFor]
          split
          case h_1 p' hp =>
            obtain ⟨-, -, hcard⟩ := begin_card hp
            exact ih (by omega)
          case h_2 =>
            have hfree : p.isFull = false := by
              simp only [isFull, decide_eq_false_iff_not, not_le]
              omega
            rw [if_neg (by simp [hfree])]
            exact ih (by omega)

/-- A batch of distinct hats that is not refused has room. -/
theorem card_le_of_refusedFor {slugs : List String} (hp : p.owed.card ≤ maxPendingHatUnlocks)
    (hnd : slugs.Nodup) (hnew : ∀ slug ∈ slugs, (m, slug) ∉ p.owed)
    (h : refusedFor m p (slugs.map report) = []) :
    p.owed.card + slugs.length ≤ maxPendingHatUnlocks := by
  induction slugs generalizing p with
  | nil => exact hp
  | cons slug slugs ih =>
      rw [List.nodup_cons] at hnd
      rw [List.map_cons, refusedFor] at h
      split at h
      case h_1 p' hb =>
        obtain ⟨hlt, howed, hcard⟩ := begin_card hb
        have hnew' : ∀ s ∈ slugs, (m, s) ∉ p'.owed := by
          intro s hs
          have hne : s ≠ slug := fun e => hnd.1 (e ▸ hs)
          simp [howed, hne, hnew s (List.mem_cons_of_mem slug hs)]
        have hle := ih (by omega) hnd.2 hnew' h
        rw [List.length_cons]
        omega
      case h_2 hb =>
        -- a new hat is refused only when the connection is full
        have hfull : p.isFull = true := by
          by_contra hfree
          simp [PendingHatUnlocks.begin, hfree, hnew slug (List.mem_cons_self ..)] at hb
        rw [if_pos hfull] at h
        cases h

theorem filterMap_reported (slugs : List String) :
    (slugs.map report).filterMap reported = slugs := by
  induction slugs with
  | nil => rfl
  | cons slug slugs ih => simp only [List.map_cons, List.filterMap_cons, reported, ih]

/-- No report of a hat of the catalog is refused for capacity, in whatever order, exactly when the
catalog has no more hats than a connection may have pending. -/
theorem none_refused_iff {spec : Value} {hats : List CatalogHat}
    (hparse : parseCatalogHats spec = .ok hats) (mapUid : String) :
    (∀ steps, ReportsOnce hats steps → refusedFor mapUid {} steps = []) ↔
      hats.length ≤ maxPendingHatUnlocks := by
  have hslugs : (hats.map CatalogHat.slug).Nodup := parseCatalogHats_nodup hparse
  constructor
  · intro h
    have honce : ReportsOnce hats ((hats.map CatalogHat.slug).map report) := by
      rw [ReportsOnce, filterMap_reported]
      exact ⟨hslugs, fun _ hs => hs⟩
    have hle := card_le_of_refusedFor (by simp [maxPendingHatUnlocks]) hslugs (by simp) (h _ honce)
    simpa using hle
  · rintro hle steps ⟨hnd, hsub⟩
    have hlen : (steps.filterMap reported).length ≤ (hats.map CatalogHat.slug).length :=
      (List.subperm_of_subset hnd hsub).length_le
    rw [List.length_map] at hlen
    refine refusedFor_eq_nil ?_
    rw [Finset.card_empty]
    omega

/-- A hat for a finish of its map. -/
def finishHat : Value := .object [("unlock", .object [("finishThisMap", .bool true)])]

theorem none_refused_two :
    (∀ steps, ReportsOnce [⟨"Hat-1", "Hat-1", true, []⟩,
      ⟨"Hat-2", "Hat-2", true, []⟩] steps →
        refusedFor "Map________________________" {} steps = []) ↔ 2 ≤ maxPendingHatUnlocks := by
  have hparse : parseCatalogHats (.object [("hats", .array [finishHat, finishHat])]) =
      .ok [⟨"Hat-1", "Hat-1", true, []⟩, ⟨"Hat-2", "Hat-2", true, []⟩] := by rfl
  exact none_refused_iff hparse "Map________________________"

/-- A catalog with seventeen hats, all reported in one pass. -/
theorem seventeenth_refused : ¬∀ spec hats, parseCatalogHats spec = .ok hats →
    ∀ mapUid steps, ReportsOnce hats steps → refusedFor mapUid {} steps = [] := by
  intro hall
  let spec : Value := .object [("hats", .array (List.replicate 17 finishHat))]
  let pass (hats : List CatalogHat) : List UnlockStep := (hats.map CatalogHat.slug).map report
  have hrefused : ((parseCatalogHats spec).toOption.any fun hats =>
      decide (refusedFor "Map________________________" {} (pass hats) ≠ [])) = true := by
    decide +kernel
  cases hparse : parseCatalogHats spec with
  | error e => simp [hparse, Except.toOption] at hrefused
  | ok hats =>
      have honce : ReportsOnce hats (pass hats) := by
        rw [ReportsOnce, filterMap_reported]
        exact ⟨parseCatalogHats_nodup hparse, fun _ hs => hs⟩
      rw [hparse] at hrefused
      simp only [Except.toOption, Option.any_some, decide_eq_true_eq] at hrefused
      exact hrefused (hall spec hats hparse _ _ honce)

end Dd2Server
