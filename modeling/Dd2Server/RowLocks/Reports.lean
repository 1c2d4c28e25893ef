import Dd2Server.RowLocks.Statements

/-!
# Reports and equips

What the transactions of the players lock: the spec and the binding in share mode, the row on the
map, then their own rows.
-/

namespace Dd2Server

open ReadCommitted

section

variable {pg : Pg} {since : Log} {userId : Uuid} {mapUid slug : String} {specId : Int}

theorem shares_binding {m : String} : Shares (sharedBinding m true) ⟨.mapListingBind, m⟩ :=
  ⟨_, List.mem_singleton.2 rfl, rfl, Mode.noConfusion⟩

/-- A report goes on only with a current copy. -/
theorem current_rest {α : Type} {f : Bool → Query DbError α} (a : α)
    (hfalse : f false = pure a)
    (htrue : Rest rowLocks since (sharedBinding mapUid true) (Below 4) Tidy (f true)) :
    Rest rowLocks since [] (fun _ => False) (fun db v => v = db)
      (ListedMaps.lockMaterializedSpec pg mapUid specId >>= f) := by
  refine Rest.bind lockMaterializedSpec_course fun current => ?_
  cases current with
  | false =>
      rw [hfalse]
      exact .pure
  | true => exact htrue

/-! ## Minigames -/

theorem shareGame_course {L : List RowLock} (hL : Shares L ⟨.mapListingBind, mapUid⟩) :
    Course rowLocks since L (Below 4) Tidy (sql (Minigames.shareGameStmt mapUid slug))
      (fun _ => L) (Below 4) (fun _ => Tidy) := by
  refine shareOnMap_course (k := ⟨.minigameOnMap, (mapUid, slug)⟩) hL rfl
    (fun _ _ _ hm => .inr ⟨rfl, hm⟩) ?_
    (fun x hx => by rw [Below, hx]; decide) Tidy.carries
  intro v e b he
  simp only [Minigames.shareGameStmt] at he
  split at he <;> cases he
  · exact .inl rfl
  · exact .inr rfl

theorem reportAttempt_rest {elapsedMs : Int} {status : String} :
    Rest rowLocks since [] (fun _ => False) (fun db v => v = db)
      (Minigames.reportAttempt pg userId mapUid slug specId elapsedMs status) := by
  unfold Minigames.reportAttempt
  split
  · exact .pure
  refine .transaction (.ask fun now => current_rest () rfl ?_)
  refine Rest.bind (shareGame_course shares_binding) fun game => ?_
  cases game with
  | none => exact .pure
  | some game =>
      refine Rest.ask fun id => ?_
      refine Rest.bind (singleRow_course (SingleRow.insert (by simp [Table.parents])) (by decide)
        (Below.upTo (by decide)) Tidy.carries) fun _ => ?_
      refine Rest.bind ((singleRow_course countAttempt_single (by decide)
        (Below.upTo (Nat.le_refl 5))
        Tidy.carries).pre (UpTo.below (by decide)) fun _ _ _ hA => hA) fun _ => ?_
      have hcommit : ∀ since B, Rest rowLocks since (sharedBinding mapUid true) B Tidy commitQ :=
        fun _ _ => .commit fun _ _ _ h => h.guarantee
      split
      case isFalse => exact hcommit _ _
      case isTrue =>
        refine Rest.bind (singleRow_course improveScore_single (by decide)
          (fun _ hx => hx) Tidy.carries)
          fun improved => ?_
        split
        case isFalse => exact hcommit _ _
        case isTrue =>
          exact Rest.bind (singleRow_course countFinish_single (by decide)
            (fun _ hx => hx) Tidy.carries)
            fun _ => hcommit _ _

/-! ## Collectibles -/

theorem shareCollectible_course {L : List RowLock} (hL : Shares L ⟨.mapListingBind, mapUid⟩) :
    Course rowLocks since L (Below 4) Tidy (sql (Collectibles.shareCollectibleStmt mapUid slug))
      (fun _ => L) (Below 4) (fun _ => Tidy) := by
  refine shareOnMap_course (k := ⟨.collectibleOnMap, (mapUid, slug)⟩) hL rfl
    (fun _ _ _ hm => .inr ⟨rfl, hm⟩) ?_
    (fun x hx => by rw [Below, hx]; decide) Tidy.carries
  intro v e b he
  simp only [Collectibles.shareCollectibleStmt] at he
  split at he <;> cases he
  · exact .inl rfl
  · exact .inr rfl

/-- A report goes on only with a row on the map. -/
theorem lockCollectible_rest {α : Type} {f : Option Collectibles.OnMapRow → Query DbError α}
    (a : α) (hnone : f none = pure a)
    (hsome : ∀ row, Rest rowLocks since (sharedBinding mapUid true) (Below 4) Tidy
      (f (some row))) :
    Rest rowLocks since [] (fun _ => False) (fun db v => v = db)
      (Collectibles.lockMaterializedRow pg mapUid specId slug >>= f) := by
  have hrow : ∀ row, Rest rowLocks since (sharedBinding mapUid true) (Below 4) Tidy (f row) := by
    intro row
    cases row with
    | none =>
        rw [hnone]
        exact .pure
    | some row => exact hsome row
  rw [Collectibles.lockMaterializedRow, bind_assoc]
  refine current_rest a (by rw [← hnone]; rfl) ?_
  exact Rest.bind (shareCollectible_course shares_binding) hrow

theorem collectibleUnlock_rest :
    Rest rowLocks since [] (fun _ => False) (fun db v => v = db)
      (Collectibles.reportUnlock pg userId mapUid slug specId) := by
  refine .transaction (.ask fun now => lockCollectible_rest () rfl fun row => ?_)
  refine Rest.bind (singleRow_course unlock_single (by decide)
    (Below.upTo (by decide)) Tidy.carries) fun _ => ?_
  exact .commit fun _ _ _ h => h.guarantee

theorem recordCollect_course {L : List RowLock} {key : String} {x y z : F32}
    {source : String} {now : Time} :
    Course rowLocks since L (Below 4) Tidy
      (Collectibles.recordCollectTransition userId key mapUid slug x y z source now)
        (fun _ => L) (Below 7)
      (fun _ => Tidy) := by
  have hprogress : ∀ x, UpTo ⟨.collectibleProgress, (userId, key)⟩ x → Below 6 x :=
    UpTo.below (by decide)
  refine Course.bind (singleRow_course lockProgress_single (by decide)
    (Below.upTo (by decide)) Tidy.carries)
    fun previous => ?_
  refine Course.bind (singleRow_course collect_single (by decide) (fun _ hx => hx) Tidy.carries)
    fun _ => ?_
  split
  case isFalse =>
    exact .pure (fun _ hx => hx) (fun x hx => Below.mono (by decide) x (hprogress x hx))
      fun _ _ _ hA => hA
  case isTrue =>
    exact (singleRow_course log_single (by decide)
      (fun x hx => Below.upTo (by decide) x (hprogress x hx)) Tidy.carries).weaken (fun _ hx => hx)
      (fun _ hx => hx) (fun _ _ _ hA => hA) (fun _ _ hx => hx) (UpTo.below (by decide))
        fun _ _ _ _ hA => hA

theorem reportCollect_rest {x y z : F32} {source : String} :
    Rest rowLocks since [] (fun _ => False) (fun db v => v = db)
      (Collectibles.reportCollect pg userId mapUid slug specId x y z source) := by
  unfold Collectibles.reportCollect
  split
  · exact .pure
  split
  · exact .pure
  refine .transaction (.ask fun now => lockCollectible_rest () rfl fun row => ?_)
  show Rest rowLocks _ _ _ _ (if _ then _ else _)
  split
  · exact .pure
  exact Rest.bind recordCollect_course fun _ => .commit fun _ _ _ h => h.guarantee

/-! ## Hats -/

theorem shareHat_course {L : List RowLock} (hL : Shares L ⟨.mapListingBind, mapUid⟩) :
    Course rowLocks since L (Below 4) Tidy (sql (Hats.shareHatStmt mapUid slug))
      (fun _ => L) (Below 4) (fun _ => Tidy) := by
  refine shareOnMap_course (k := ⟨.hatOnMap, (mapUid, slug)⟩) hL rfl
    (fun _ _ _ hm => .inr ⟨rfl, hm⟩) ?_
    (fun x hx => by rw [Below, hx]; decide) Tidy.carries
  intro v e b he
  simp only [Hats.shareHatStmt] at he
  split at he <;> cases he
  · exact .inl rfl
  · exact .inr rfl

theorem commitUnlock_rest {row : Hats.OnMapRow} :
    Rest rowLocks since [] (fun _ => False) (fun db v => v = db)
      (Hats.commitUnlock pg userId mapUid slug specId row) := by
  refine .transaction (.ask fun now => ?_)
  rw [Hats.lockMaterializedRow, bind_assoc]
  refine current_rest false rfl (Rest.bind (shareHat_course shares_binding) fun locked => ?_)
  cases locked with
  | none => exact .pure
  | some locked =>
      show Rest rowLocks _ _ _ _ (if _ then _ else _)
      split
      · exact .pure
      refine Rest.bind (singleRow_course insertUnlock_single (by decide)
        (Below.upTo (by decide)) Tidy.carries)
        fun _ => ?_
      exact .commitPure fun _ _ _ h => h.guarantee

/-- A read without locks. -/
theorem select_course {L : List RowLock} {B : RowLock → Prop} {A : Assertion Table.Key Table.Row}
    {β : Type} {tag : Tag} {f : Db → β} :
    Course rowLocks since L B A (sql (selectAs tag f)) (fun _ => L) B (fun _ => A) := by
  refine Course.stmt (fun _ hx => hx) fun ws db held log e a _ _ _ _ he => ?_
  cases he
  exact ⟨by simp [Effect.allLocks], fun x hx => hx, fun _ _ hA => hA⟩

/-- A question that the locks do not depend on. -/
theorem ask_course {L : List RowLock} {B : RowLock → Prop} {A : Assertion Table.Key Table.Row}
    {q : Ask} :
    Course rowLocks since L B A (askQ q : Query DbError q.Ans) (fun _ => L) B (fun _ => A) :=
  .ask (fun _ _ hx => hx) (fun _ hx => hx) fun _ _ _ _ hA => hA

theorem materializedRow_course {L : List RowLock} {B : RowLock → Prop}
    {A : Assertion Table.Key Table.Row} :
    Course rowLocks since L B A (Hats.materializedRow pg mapUid specId slug) (fun _ => L) B
      (fun _ => A) := by
  refine Course.bind select_course fun bound => ?_
  cases bound with
  | none => exact .pure (fun _ hx => hx) (fun _ hx => hx) fun _ _ _ hA => hA
  | some bound => exact select_course

theorem validateRecords_course {L : List RowLock} {B : RowLock → Prop}
    {A : Assertion Table.Key Table.Row} (uids : List String) :
    Course rowLocks since L B A (Hats.validateRecords userId uids) (fun _ => L) B (fun _ => A) := by
  have hpure : ∀ b : Bool, Course rowLocks since L B A (pure b : Query DbError Bool)
      (fun _ => L) B (fun _ => A) :=
    fun b => .pure (fun _ hx => hx) (fun _ hx => hx) fun _ _ _ hA => hA
  induction uids with
  | nil => exact hpure true
  | cons uid uids ih =>
      refine Course.bind (Course.bind ask_course fun answer => hpure _) fun valid => ?_
      cases valid with
      | false => exact hpure false
      | true => exact ih

theorem validateHatUnlock_course {L : List RowLock} {B : RowLock → Prop}
    {A : Assertion Table.Key Table.Row} {row : Hats.OnMapRow} :
    Course rowLocks since L B A (Hats.validateHatUnlock userId mapUid row) (fun _ => L) B
      (fun _ => A) := by
  have hpure : ∀ b : Bool, Course rowLocks since L B A (pure b : Query DbError Bool)
      (fun _ => L) B (fun _ => A) :=
    fun b => .pure (fun _ hx => hx) (fun _ hx => hx) fun _ _ _ hA => hA
  unfold Hats.validateHatUnlock
  split
  · exact hpure false
  have hfinished : Course rowLocks since L B A
      (if row.finishThisMap then Hats.validateFinishThisMap userId mapUid else pure true)
        (fun _ => L) B
      (fun _ => A) := by
    split
    · exact Course.bind ask_course fun answer => hpure _
    · exact hpure true
  refine Course.bind hfinished fun finished => ?_
  split
  · exact validateRecords_course row.recordUids
  · exact hpure false

theorem hatUnlock_rest :
    Rest rowLocks since [] (fun _ => False) (fun db v => v = db)
      (Hats.reportUnlock pg userId mapUid slug specId) := by
  refine Rest.bind materializedRow_course fun row => ?_
  cases row with
  | none => exact .pure
  | some row =>
      refine Rest.bind select_course fun unlocked => ?_
      cases unlocked with
      | true => exact .pure
      | false =>
          refine Rest.bind ask_course fun allowed => ?_
          show Rest rowLocks _ _ _ _ (if _ then _ else _)
          split
          · exact .pure
          refine Rest.bind validateHatUnlock_course fun valid => ?_
          cases valid with
          | true => exact commitUnlock_rest
          | false => exact .pure

/-- The hat on the map and the player's unlock of it, both in share mode. -/
theorem shareUnlock_course {L : List RowLock} (hL : Shares L ⟨.mapListingBind, mapUid⟩) :
    Course rowLocks since L (Below 4) Tidy (sql (Hats.shareUnlockStmt pg userId mapUid slug))
      (fun _ => L) (Below 6) (fun _ => Tidy) := by
  have hstmt : Course rowLocks since L (Below 4) Tidy
      (sql (Hats.shareUnlockStmt pg userId mapUid slug))
      (fun _ => L) (SharedUpTo ⟨.hatUnlock, (userId, Hats.hatKey pg mapUid slug)⟩)
        (fun _ => Tidy) := by
    have hcases : ∀ {v e b}, (Hats.shareUnlockStmt pg userId mapUid slug).run v = some (e, b) →
        e = {} ∨ e = { locks := [⟨⟨.hatOnMap, (mapUid, slug)⟩, .share⟩,
          ⟨⟨.hatUnlock, (userId, Hats.hatKey pg mapUid slug)⟩, .share⟩] } := by
      intro v e b he
      simp only [Hats.shareUnlockStmt] at he
      split at he
      · split at he <;> cases he
        · exact .inr rfl
        · exact .inl rfl
      · cases he
        exact .inl rfl
    refine stmt_course (Below.sharedUpTo (by decide)) Tidy.carries ?_ ?_
      fun _ _ _ _ x hx => List.mem_append_right _ hx
    · intro v db held log e b _ hlocks hheld he x hx
      rcases hcases he with rfl | rfl
      · cases hx
      · simp only [Effect.allLocks, List.map_nil, List.nil_append, List.mem_cons,
          List.not_mem_nil, or_false] at hx
        rcases hx with rfl | rfl
        · exact ⟨.inl (Nat.zero_lt_succ 4), .inr ⟨rfl, hL.mono hlocks⟩, .guarded rfl⟩
        · exact ⟨.inr ⟨rfl, rfl⟩, Mode.noConfusion, .sharedUpTo hheld rfl rfl⟩
    · intro v e b he w hw
      rcases hcases he with rfl | rfl <;> cases hw
  exact hstmt.weaken (fun _ hx => hx) (fun _ hx => hx) (fun _ _ _ hA => hA) (fun _ _ hx => hx)
    (SharedUpTo.below (by decide)) fun _ _ _ _ hA => hA

theorem displayName_course {L : List RowLock} {B : RowLock → Prop}
    {A : Assertion Table.Key Table.Row} :
    Course rowLocks since L B A (Hats.displayName userId) (fun _ => L) B (fun _ => A) := by
  refine Course.bind select_course fun name => ?_
  cases name with
  | none => exact .throw
  | some name => exact .pure (fun _ hx => hx) (fun _ hx => hx) fun _ _ _ hA => hA

/-- An unequip locks the worn hat alone. -/
theorem writeEquip_course {now : Time} :
    Course rowLocks since [] (fun _ => False) (fun db v => v = db)
      (Hats.writeEquip pg userId mapUid slug now) (fun _ => []) (Below 7) (fun _ => Tidy) := by
  have hnone : ∀ {L : List RowLock} {B : RowLock → Prop} (o : Option String),
      (∀ x, B x → Below 7 x) →
      Course rowLocks since L B Tidy (pure o : Query DbError (Option String))
        (fun _ => []) (Below 7)
        (fun _ => Tidy) :=
    fun o hB => .pure (fun _ hx => nomatch hx) hB fun _ _ _ hA => hA
  have hstart : ∀ db v : Db, WellNamed db → v = db → Tidy db v := by
    rintro db v hnamed rfl
    exact .refl hnamed
  unfold Hats.writeEquip
  split
  · refine Course.bind
      ((singleRow_course unequip_single (by decide) (fun _ hx => hx.elim) Tidy.carries).pre
      (fun _ hx => hx) hstart) fun removed => hnone _ (UpTo.below (by decide))
  refine Course.bind select_course fun binding => ?_
  cases binding with
  | none => exact .pure (fun _ hx => hx) (fun _ hx => hx.elim) hstart
  | some specId =>
      refine Course.bind lockMaterializedSpec_course fun current => ?_
      cases current with
      | false => exact hnone _ (Below.mono (by decide))
      | true =>
          refine Course.bind (shareUnlock_course shares_binding) fun unlocked => ?_
          cases unlocked with
          | none => exact hnone _ (Below.mono (by decide))
          | some key =>
              refine Course.bind (singleRow_course upsertEquipped_single (by decide)
                (Below.upTo (by decide)) Tidy.carries) fun changed =>
                  hnone _ (UpTo.below (by decide))

theorem reportEquip_rest :
    Rest rowLocks since [] (fun _ => False) (fun db v => v = db)
      (Hats.reportEquipWithBeforePayload pg userId mapUid slug) := by
  refine .transaction (.ask fun now => Rest.bind writeEquip_course fun event => ?_)
  cases event with
  | none => exact .pure
  | some event =>
      refine Rest.ask fun hook => Rest.ofExcept fun _ => Rest.bind displayName_course fun name => ?_
      exact .commitPure fun _ _ _ h => h.guarantee

end

end Dd2Server
