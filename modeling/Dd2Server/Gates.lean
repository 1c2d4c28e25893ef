import Dd2Server.ReadCommitted.Alone
import Dd2Server.HatTransactions

/-!
# The gates agree

Each gate is a query of its own.  On one database they all answer alike.
-/

namespace Dd2Server

open ReadCommitted

section

variable {pg : Pg} {db : Db} {f : (q : Ask) → q.Ans} {m : String} {specId : Int} {α β ε : Type}

/-! ## Single statements -/

theorem sql_alone {s : Sql β} {ws : List DbWrite} {e : DbEffect} {b : β}
    (h : s.run (Store.view ws db) = some (e, b)) (k : β → Query DbError α) :
    (sql s >>= k).run.alone f ws db = (k b).run.alone f (e.writes ++ ws) db :=
  Prog.alone_seq (Prog.alone_query h) k

theorem answer_sql {s : Sql β} {e : DbEffect} {b : β} (h : s.run db = some (e, b))
    (k : β → Query DbError α) :
    answer f (sql s >>= k) db = ((k b).run.alone f (e.writes ++ []) db).map Prod.fst := by
  rw [answer, sql_alone h]

/-! ## The locking gate -/

/-- What the locking gate compares is what the reads join. -/
theorem resolvedSpec_iff_locked {p : Pg} {b : BindRow} {s : SpecRow}
    (hb : db.get ⟨.mapListingBind, m⟩ = some b) (hs : db.get ⟨.specs, specId⟩ = some s) :
    ListedMaps.resolvedSpec p db m specId = some specId ↔
      (decide (b.specId = specId) && b.authorVerifiedAt.isSome) = true ∧
        (b.verifiedAuthorId == some s.userId && b.materializedSpecUpdatedAt == some s.updatedAt &&
          b.materializedSpecHash == some (s.specHash p)) = true := by
  refine ⟨fun h => ?_, fun h => resolvedSpec_of_locked hb hs h.1 h.2⟩
  obtain ⟨b', s', hb', hs', hspec, hver, hcur⟩ := resolvedSpec_eq_some.1 h
  obtain rfl : b = b' := Option.some.inj (hb.symm.trans hb')
  obtain rfl : s = s' := Option.some.inj (hs.symm.trans hs')
  simp only [BindRow.isVerified, BindRow.isCurrent, Bool.and_eq_true] at hver hcur
  simp only [Bool.and_eq_true, decide_eq_true_eq]
  exact ⟨⟨hspec, hver.1⟩, ⟨hver.2, hcur.1⟩, hcur.2⟩

theorem lockMaterializedSpec_answer :
    answer f (ListedMaps.lockMaterializedSpec pg m specId) db =
      some (.ok (decide (ListedMaps.resolvedSpec pg db m specId = some specId))) := by
  rw [ListedMaps.lockMaterializedSpec]
  cases hs : db.get ⟨.specs, specId⟩ with
  | none =>
      have hrun : (ListedMaps.lockSpecStmt .share specId).run db = some ({}, none) := by
        simp only [ListedMaps.lockSpecStmt, hs]
      have hno : ListedMaps.resolvedSpec pg db m specId ≠ some specId := by
        intro h
        obtain ⟨b, s, -, hs', -⟩ := resolvedSpec_eq_some.1 h
        rw [hs] at hs'
        cases hs'
      rw [answer_sql hrun, decide_eq_false hno]
      rfl
  | some s =>
      have hrun : (ListedMaps.lockSpecStmt .share specId).run db =
          some ({ locks := [⟨⟨.specs, specId⟩, .share⟩] }, some s) := by
        simp only [ListedMaps.lockSpecStmt, hs]
      rw [answer_sql hrun]
      cases hb : db.get ⟨.mapListingBind, m⟩ with
      | none =>
          have hrun' : (ListedMaps.shareBindingStmt m specId).run db = some ({}, none) := by
            simp only [ListedMaps.shareBindingStmt, hb]
          have hno : ListedMaps.resolvedSpec pg db m specId ≠ some specId := by
            intro h
            obtain ⟨b, s, hb', -⟩ := resolvedSpec_eq_some.1 h
            rw [hb] at hb'
            cases hb'
          dsimp only [List.append_nil]
          rw [sql_alone hrun', decide_eq_false hno]
          rfl
      | some b =>
          dsimp only [List.append_nil]
          have hgate := resolvedSpec_iff_locked (p := pg) hb hs
          by_cases hrow : (decide (b.specId = specId) && b.authorVerifiedAt.isSome) = true
          · have hrun' : (ListedMaps.shareBindingStmt m specId).run db =
                some ({ locks := [⟨⟨.mapListingBind, m⟩, .share⟩] }, some b) := by
              simp only [ListedMaps.shareBindingStmt, hb, hrow, if_true]
            rw [hrow] at hgate
            have hsame : (b.verifiedAuthorId == some s.userId &&
                b.materializedSpecUpdatedAt == some s.updatedAt &&
                  b.materializedSpecHash == some (s.specHash pg)) =
                decide (ListedMaps.resolvedSpec pg db m specId = some specId) := by
              rw [Bool.eq_iff_iff, decide_eq_true_eq]
              exact (hgate.trans (and_iff_right rfl)).symm
            rw [sql_alone hrun', ← hsame]
            rfl
          · have hrun' : (ListedMaps.shareBindingStmt m specId).run db = some ({}, none) := by
              simp only [ListedMaps.shareBindingStmt, hb, hrow, Bool.false_eq_true, if_false]
            rw [sql_alone hrun', decide_eq_false fun h => hrow (hgate.1 h).1]
            rfl

/-! ## All gates -/

theorem verifiedBinding_eq_none :
    ListedMaps.verifiedBinding pg db m = none ↔
      (joinBinding db m).any (fun (b, s) => b.isVerified s && b.isCurrent pg s) = false := by
  rw [ListedMaps.verifiedBinding]
  cases joinBinding db m with
  | none => simp
  | some x =>
      obtain ⟨b, s⟩ := x
      rw [Option.bind_some, Option.any_some]
      cases b.isVerified s && b.isCurrent pg s <;> simp

theorem resolvedSpec_eq_none (h : ListedMaps.verifiedBinding pg db m = none) :
    ListedMaps.resolvedSpec pg db m specId = none := by
  rw [verifiedBinding_eq_none] at h
  rw [ListedMaps.resolvedSpec]
  cases hj : joinBinding db m with
  | none => rfl
  | some x =>
      obtain ⟨b, s⟩ := x
      rw [hj, Option.any_some] at h
      simp only [Option.bind_some, h, Bool.and_false, Bool.false_eq_true, if_false]

theorem wornOnMap_eq_nil {now : Time} (h : Hats.bindingUsable pg db m = false) :
    Hats.wornOnMap pg db m now = [] := by
  have hrows : selectWhere .hatEquipped (fun k e => k.2 = m && Hats.shown pg db k.1 m e &&
      (db.get ⟨.mapCurrHeights, (k.1, m)⟩).any fun r => now - Hats.presenceMicros <
        r.updatedAt) db =
        [] := by
    rw [selectWhere, List.filter_eq_nil_iff]
    intro e _
    simp [Hats.shown, h]
  rw [Hats.wornOnMap, hrows]
  simp [Hats.orderByText]

/-- On every database the gate of the reads and the locking gate agree, and without a verified and
materialized binding all of them are closed. -/
theorem gates_agree (pg : Pg) (db : Db) (f : (q : Ask) → q.Ans) (m : String) :
    (∀ s, answer f (ListedMaps.resolveBoundSpec pg m s) db = some (.ok (some s)) ↔
      answer f (ListedMaps.lockMaterializedSpec pg m s) db = some (.ok true)) ∧
    (answer f (ListedMaps.verifiedBindingSpecId pg m) db = some (.ok none) →
      (∀ s, answer f (ListedMaps.resolveBoundSpec pg m s) db = some (.ok none) ∧
        answer f (ListedMaps.lockMaterializedSpec pg m s) db = some (.ok false)) ∧
      (∀ u, answer f (Hats.getHatsMine pg m u) db = some (.ok none)) ∧
      answer f (Hats.getHatsOnMap pg m) db = some (.ok []) ∧
      ∀ u, answer f (Hats.equippedPushEntry pg u m) db = some (.ok none)) := by
  have hresolve : ∀ s, answer f (ListedMaps.resolveBoundSpec pg m s) db =
      some (.ok (ListedMaps.resolvedSpec pg db m s)) := fun s => rfl
  refine ⟨fun s => ?_, fun hnone => ?_⟩
  · rw [hresolve, lockMaterializedSpec_answer]
    simp
  · have hverified : ListedMaps.verifiedBinding pg db m = none := by
      have hanswer : answer f (ListedMaps.verifiedBindingSpecId pg m) db =
          some (.ok (ListedMaps.verifiedBinding pg db m)) := rfl
      rw [hanswer] at hnone
      simpa using hnone
    have husable : Hats.bindingUsable pg db m = false := verifiedBinding_eq_none.1 hverified
    refine ⟨fun s => ⟨?_, ?_⟩, fun u => ?_, ?_, fun u => ?_⟩
    · rw [hresolve, resolvedSpec_eq_none hverified]
    · rw [lockMaterializedSpec_answer, resolvedSpec_eq_none hverified]
      simp
    · have hrun : (select "verified_binding_spec_id" fun v =>
          ListedMaps.verifiedBinding pg v m).run db =
          some ({}, none) := by
        rw [← hverified]
        rfl
      rw [Hats.getHatsMine, ListedMaps.verifiedBindingSpecId, answer_sql hrun]
      rfl
    · have hanswer : answer f (Hats.getHatsOnMap pg m) db =
          some (.ok (Hats.wornOnMap pg db m (f .now))) := rfl
      rw [hanswer, wornOnMap_eq_nil husable]
    · have hanswer : answer f (Hats.equippedPushEntry pg u m) db =
          some (.ok (Hats.pushEntry pg db u m)) := rfl
      have hshown : ∀ e, Hats.shown pg db u m e = false := fun e => by simp [Hats.shown, husable]
      rw [hanswer, Hats.pushEntry]
      cases db.get ⟨.hatEquipped, (u, m)⟩ with
      | none => rfl
      | some e => simp [hshown e]

end

end Dd2Server
