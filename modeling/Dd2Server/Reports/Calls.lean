import Dd2Server.ReadCommitted.Confined
import Dd2Server.ReadCommitted.LastCommit
import Dd2Server.RowLocks.Deadlock

/-!
# Reports among the other Wayfinder transactions

A call of a Wayfinder transaction tells whether it returned `Ok`.  Each writes to few tables,
whatever it sees: what a player did is written by the reports about it and by nothing else, however
often the map is bound anew.  A report commits last, so one that fails or is dropped has committed
nothing.
-/

namespace Dd2Server

open ReadCommitted

/-- A query as a task that tells whether it returned `Ok`. -/
def Query.toCall {ε α : Type} (x : Query ε α) : Server Bool := x.run.bind fun r => .ret r.isOk

def WayfinderJob.call (pg : Pg) : WayfinderJob → Server Bool
  | .upsertSpecAndCatalogs u n spec =>
      Query.toCall (CustomMapAuxSpecs.upsertSpecAndCatalogs pg u n spec)
  | .commitAuthoritativeBind p u m id =>
      Query.toCall (ListedMaps.commitAuthoritativeBind pg p u m id)
  | .commitCommentBind m id => Query.toCall (ListedMaps.commitCommentBind pg m id)
  | .minigameAttempt u m slug id ms status =>
      Query.toCall (Minigames.reportAttempt pg u m slug id ms status)
  | .collectibleUnlock u m slug id => Query.toCall (Collectibles.reportUnlock pg u m slug id)
  | .collectibleCollect u m slug id x y z source =>
      Query.toCall (Collectibles.reportCollect pg u m slug id x y z source)
  | .hatUnlock u m slug id => Query.toCall (Hats.reportUnlock pg u m slug id)
  | .hatEquip u m slug => Query.toCall (Hats.reportEquipWithBeforePayload pg u m slug)

abbrev CallSystem := Sys Table.Key Table.Row Tag Ask.Ans Act.Out Mem WayfinderJob Bool

/-- A database, and no call. -/
def CallSystem.on (db : Db) : CallSystem where
  db := db
  mem := {}

abbrev uploadTables : List Table :=
  [.specs, .specNames, .minigameCatalog, .collectibleCatalog, .hatCatalog]

abbrev bindTables : List Table :=
  [.mapListingBind, .minigameCatalog, .collectibleCatalog, .hatCatalog, .minigameOnMap,
    .collectibleOnMap, .hatOnMap, .hatEquipped]

/-- The tables a Wayfinder transaction writes to. -/
def WayfinderJob.tables : WayfinderJob → List Table
  | .upsertSpecAndCatalogs _ _ _ => uploadTables
  | .commitAuthoritativeBind _ _ _ _ => bindTables
  | .commitCommentBind _ _ => bindTables
  | .minigameAttempt _ _ _ _ _ _ => [.minigameAttempt, .minigamePb]
  | .collectibleUnlock _ _ _ _ => [.collectibleProgress]
  | .collectibleCollect _ _ _ _ _ _ _ _ => [.collectibleProgress, .collectibleCollectLog]
  | .hatUnlock _ _ _ _ => [.hatUnlock]
  | .hatEquip _ _ _ => [.hatEquipped]

/-! ## Statements -/

section

variable {W : Table → Prop} {pg : Pg} {userId : Uuid} {mapUid slug : String} {specId : Int}

/-- The statement looks at rows and locks them, and writes none. -/
def Looks {β : Type} (s : Sql β) : Prop := ∀ v e b, s.run v = some (e, b) → e.writes = []

theorem Looks.writesTo {β : Type} {s : Sql β} (h : Looks s) :
    WritesTo W (sql s : Query DbError β) := by
  refine .query fun v e b he => ?_
  rw [h v e b he]
  exact .nil

theorem looks_select {β : Type} {tag : Tag} {f : Db → β} : Looks (selectAs tag f) := by
  intro v e b he
  cases he
  rfl

theorem looks_lockSpec {mode : Mode} : Looks (ListedMaps.lockSpecStmt mode specId) := by
  intro v e b he
  simp only [ListedMaps.lockSpecStmt] at he
  split at he <;> cases he <;> rfl

theorem looks_shareBinding : Looks (ListedMaps.shareBindingStmt mapUid specId) := by
  intro v e b he
  simp only [ListedMaps.shareBindingStmt] at he
  split at he
  · cases he
    rfl
  · split at he <;> cases he <;> rfl

theorem looks_shareGame : Looks (Minigames.shareGameStmt mapUid slug) := by
  intro v e b he
  simp only [Minigames.shareGameStmt] at he
  split at he <;> cases he <;> rfl

theorem looks_shareCollectible : Looks (Collectibles.shareCollectibleStmt mapUid slug) := by
  intro v e b he
  simp only [Collectibles.shareCollectibleStmt] at he
  split at he <;> cases he <;> rfl

theorem looks_shareHat : Looks (Hats.shareHatStmt mapUid slug) := by
  intro v e b he
  simp only [Hats.shareHatStmt] at he
  split at he <;> cases he <;> rfl

theorem looks_shareUnlock : Looks (Hats.shareUnlockStmt pg userId mapUid slug) := by
  intro v e b he
  simp only [Hats.shareUnlockStmt] at he
  split at he
  · split at he <;> cases he <;> rfl
  · cases he
    rfl

theorem SingleRow.writesTo {β : Type} {s : Sql β} {k : DbKey} (h : SingleRow s k)
    (hk : W k.table) : WritesTo W (sql s : Query DbError β) := by
  refine .query fun v e b he w hw => ?_
  rw [(h v e b he).writes w hw]
  exact hk

theorem OnBinding.writesTo {β : Type} {s : Sql β} (h : OnBinding s mapUid specId)
    (hW : W .mapListingBind) : WritesTo W (sql s : Query DbError β) := by
  refine .query fun v e b he w hw => ?_
  rw [(h v e b he).2 w hw]
  exact hW

theorem among_deleteWhere {t : Table} {p : t.Key → t.Row → Bool} (v : Db) (ht : W t) :
    Among W (deleteWhere t p v) := by
  intro w hw
  rw [deleteWhere_table hw]
  exact ht

theorem among_insertRow {t : Table} {k : t.Key} {r : t.Row} {v : Db} {e : DbEffect} (ht : W t)
    (h : insertRow t k r v = some e) : Among W e.writes := by
  obtain ⟨-, rfl⟩ := insertRow_eq_some.1 h
  intro w hw
  rw [List.mem_singleton.1 hw]
  exact ht

theorem delete_writesTo {tag : Tag} {t : Table} {p : t.Key → t.Row → Bool} (ht : W t) :
    WritesTo W (sql (deleteStmt tag t p) : Query DbError Unit) := by
  refine .query fun v e b he => ?_
  cases he
  exact among_deleteWhere v ht

theorem insert_writesTo {tag : Tag} {t : Table} {k : t.Key} {r : t.Row} (ht : W t) :
    WritesTo W (sql (insertStmt tag t k r) : Query DbError _) := by
  refine .query fun v e b he => ?_
  exact among_insertRow ht (insertStmt_run.1 he)

theorem insertSelect_writesTo {tag : Tag} {t : Table} {rows : Db → List (t.Key × t.Row)}
    (ht : W t) : WritesTo W (sql (insertSelectStmt tag t rows) : Query DbError _) := by
  refine .query fun v e b he w hw => ?_
  obtain ⟨-, rfl⟩ := insertRows_eq_some.1 (insertSelectStmt_run.1 he).1
  obtain ⟨r, -, hrow⟩ := Store.insertions_row hw
  rw [hrow]
  exact ht

theorem takeOff_writesTo {fn : String}
    {p : Db → Table.hatEquipped.Key → HatEquippedRow → Bool} (hW : W .hatEquipped) :
    WritesTo W (sql (Hats.takeOffStmt fn mapUid p) : Query DbError _) := by
  refine .query fun v e b he => ?_
  cases he
  exact among_deleteWhere v hW

theorem setMaterialized_writesTo {updatedAt : Time} {hash : String} (hW : W .mapListingBind) :
    WritesTo W (sql (ListedMaps.setMaterializedStmt mapUid specId updatedAt hash) :
      Query DbError _) := by
  refine .query fun v e b he w hw => ?_
  simp only [ListedMaps.setMaterializedStmt] at he
  split at he
  · cases he
    cases hw
  · split at he <;> cases he
    · rw [List.mem_singleton.1 hw]
      exact hW
    · cases hw

theorem upsertSpec_writesTo {id : Int} {now : Time} {nameId : String} {spec : Value}
    {threshold : Int} (hspecs : W .specs) (hnames : W .specNames) :
    WritesTo W (sql (CustomMapAuxSpecs.upsertSpecStmt pg id now userId nameId spec threshold) :
      Query DbError _) := by
  refine .query fun v e b he w hw => ?_
  simp only [CustomMapAuxSpecs.upsertSpecStmt] at he
  split at he
  · split at he
    · cases he
      rw [List.mem_singleton.1 hw]
      exact hspecs
    · cases he
  · split at he
    · obtain ⟨e', he', hpair⟩ := Option.map_eq_some_iff.1 he
      cases hpair
      rcases List.mem_cons.1 hw with rfl | hw
      · exact hnames
      · exact among_insertRow hspecs he' w hw
    · cases he

/-! ## Uploads and binds -/

theorem liftE_writesTo {ε ε' α : Type} {f : ε' → ε} {r : Except ε' α} :
    WritesTo W (liftE f r : Query ε α) := .result

theorem replaceGames_writesTo {nameId : String} {games : List CatalogGame}
    (hW : W .minigameCatalog) :
    WritesTo W (Minigames.replaceCatalogInTx specId userId nameId games) :=
  .bind (delete_writesTo hW) fun _ => .forM (fun _ => insert_writesTo hW) games

theorem replaceCollectibles_writesTo {nameId : String} {items : List CatalogCollectible}
    (hW : W .collectibleCatalog) :
    WritesTo W (Collectibles.replaceCatalogInTx specId userId nameId items) :=
  .bind (delete_writesTo hW) fun _ => .forM (fun _ => insert_writesTo hW) items

theorem replaceHats_writesTo {nameId : String} {items : List CatalogHat} (hW : W .hatCatalog) :
    WritesTo W (Hats.replaceCatalogInTx specId userId nameId items) :=
  .bind (delete_writesTo hW) fun _ => .forM (fun _ => insert_writesTo hW) items

theorem upsertSpecAndCatalogs_writesTo {nameId : String} {spec : Value}
    (hW : ∀ t ∈ uploadTables, W t) :
    WritesTo W (CustomMapAuxSpecs.upsertSpecAndCatalogs pg userId nameId spec) := by
  refine .bind liftE_writesTo fun games => .bind liftE_writesTo fun collectibles =>
    .bind liftE_writesTo fun hats => .adapt (.transaction ?_)
  refine .bind .ask fun now => .bind .ask fun nextId => ?_
  refine .bind (upsertSpec_writesTo (hW .specs (by decide)) (hW .specNames (by decide)))
    fun id => ?_
  refine .bind (replaceGames_writesTo (hW .minigameCatalog (by decide))) fun _ => ?_
  refine .bind (replaceCollectibles_writesTo (hW .collectibleCatalog (by decide))) fun _ => ?_
  refine .bind (replaceHats_writesTo (hW .hatCatalog (by decide))) fun _ => ?_
  exact .bind .commit fun _ => .pure

theorem materialize_writesTo {spec : SpecRow} {games : List CatalogGame}
    {collectibles : List CatalogCollectible} {hats : List CatalogHat}
    (hW : ∀ t ∈ bindTables, W t) :
    WritesTo W (ListedMaps.materializeInTx pg mapUid specId spec games collectibles hats) := by
  refine .bind (replaceGames_writesTo (hW .minigameCatalog (by decide))) fun _ => ?_
  refine .bind (replaceCollectibles_writesTo (hW .collectibleCatalog (by decide))) fun _ => ?_
  refine .bind (replaceHats_writesTo (hW .hatCatalog (by decide))) fun _ => ?_
  refine .bind (.bind (delete_writesTo (hW .minigameOnMap (by decide))) fun _ =>
    insertSelect_writesTo (hW .minigameOnMap (by decide))) fun _ => ?_
  refine .bind (.bind (delete_writesTo (hW .collectibleOnMap (by decide))) fun _ =>
    insertSelect_writesTo (hW .collectibleOnMap (by decide))) fun _ => ?_
  have hhats : WritesTo W (Hats.bindMapFromCatalogInTx pg mapUid specId) :=
    .bind (delete_writesTo (hW .hatOnMap (by decide))) fun _ =>
      .bind (insertSelect_writesTo (hW .hatOnMap (by decide))) fun _ =>
        .bind (takeOff_writesTo (hW .hatEquipped (by decide))) fun _ => .pure
  exact .bind hhats fun _ => .bind (setMaterialized_writesTo (hW .mapListingBind (by decide)))
    fun _ => .pure

theorem purge_writesTo {purge : Bool} (hW : W .hatEquipped) :
    WritesTo W (if purge then Hats.purgeMapEquipmentInTx mapUid else return []) := by
  split
  · exact takeOff_writesTo hW
  · exact .pure

theorem commitAuthoritativeBind_writesTo {prepared : ListedMaps.PreparedBind} {reporterId : Uuid}
    (hW : ∀ t ∈ bindTables, W t) :
    WritesTo W (ListedMaps.commitAuthoritativeBind pg prepared reporterId mapUid specId) := by
  have hbind : W .mapListingBind := hW .mapListingBind (by decide)
  refine .transaction (.bind .ask fun now =>
    .bind (.adapt looks_lockSpec.writesTo) fun lockedSpec => ?_)
  cases lockedSpec with
  | none => exact .throw
  | some lockedSpec =>
      have hlock : OnBinding (ListedMaps.lockBindingStmt mapUid) mapUid specId :=
        lockBinding_onBinding
      refine .bind (.adapt (hlock.writesTo hbind)) fun lockedBinding => ?_
      dsimp only
      split
      · exact .throw
      split
      · exact .throw
      split
      · exact .throw
      split
      · exact .bind (.adapt .commit) fun _ => .pure
      refine .bind liftE_writesTo fun games => .bind liftE_writesTo fun collectibles =>
        .bind liftE_writesTo fun hats => ?_
      refine .bind (.adapt (insertBinding_onBinding.writesTo hbind)) fun _ => ?_
      refine .bind (.adapt (takeOverBinding_onBinding.writesTo hbind)) fun _ => ?_
      have hwinner : OnBinding (ListedMaps.lockWinnerStmt mapUid) mapUid specId :=
        lockWinner_onBinding
      refine .bind (.adapt (hwinner.writesTo hbind)) fun winner => ?_
      cases winner with
      | none => exact .throw
      | some winner =>
          dsimp only
          split
          · exact .throw
          split
          · exact .throw
          refine .bind (.adapt (purge_writesTo (hW .hatEquipped (by decide)))) fun purged => ?_
          refine .bind (.adapt (materialize_writesTo hW)) fun removed => ?_
          exact .bind (.adapt .commit) fun _ => .pure

theorem commitCommentBind_writesTo (hW : ∀ t ∈ bindTables, W t) :
    WritesTo W (ListedMaps.commitCommentBind pg mapUid specId) := by
  have hbind : W .mapListingBind := hW .mapListingBind (by decide)
  refine .transaction (.bind .ask fun now =>
    .bind (.adapt looks_lockSpec.writesTo) fun lockedSpec => ?_)
  cases lockedSpec with
  | none => exact .throw
  | some lockedSpec =>
      have hlock : OnBinding (ListedMaps.lockBindingStmt mapUid) mapUid specId :=
        lockBinding_onBinding
      refine .bind (.adapt (hlock.writesTo hbind)) fun lockedBinding => ?_
      dsimp only
      split
      · exact .bind (.adapt .commit) fun _ => .pure
      refine .bind liftE_writesTo fun games => .bind liftE_writesTo fun collectibles =>
        .bind liftE_writesTo fun hats => ?_
      refine .bind (.adapt (upsertBinding_onBinding.writesTo hbind)) fun _ => ?_
      refine .bind (.adapt (purge_writesTo (hW .hatEquipped (by decide)))) fun purged => ?_
      refine .bind (.adapt (materialize_writesTo hW)) fun removed => ?_
      exact .bind (.adapt .commit) fun _ => .pure

/-! ## What the players do -/

theorem lockMaterializedSpec_writesTo :
    WritesTo W (ListedMaps.lockMaterializedSpec pg mapUid specId) := by
  refine .bind looks_lockSpec.writesTo fun source => ?_
  cases source with
  | none => exact .pure
  | some source => exact .bind looks_shareBinding.writesTo fun binding => .pure

theorem reportAttempt_writesTo {elapsedMs : Int} {status : String} (hlog : W .minigameAttempt)
    (hpb : W .minigamePb) :
    WritesTo W (Minigames.reportAttempt pg userId mapUid slug specId elapsedMs status) := by
  unfold Minigames.reportAttempt
  split
  · exact .pure
  refine .transaction (.bind .ask fun now => .bind lockMaterializedSpec_writesTo fun current => ?_)
  split
  · exact .pure
  refine .bind looks_shareGame.writesTo fun game => ?_
  cases game with
  | none => exact .pure
  | some game =>
      refine .bind .ask fun id => .bind (insert_writesTo hlog) fun _ => ?_
      refine .bind (countAttempt_single.writesTo hpb) fun _ => ?_
      dsimp only
      split
      · refine .bind (improveScore_single.writesTo hpb) fun improved => ?_
        split
        · exact .bind (countFinish_single.writesTo hpb) fun _ => .commit
        · exact .commit
      · exact .commit

theorem lockCollectible_writesTo :
    WritesTo W (Collectibles.lockMaterializedRow pg mapUid specId slug) := by
  refine .bind lockMaterializedSpec_writesTo fun current => ?_
  split
  · exact .pure
  · exact looks_shareCollectible.writesTo

theorem collectibleUnlock_writesTo (hW : W .collectibleProgress) :
    WritesTo W (Collectibles.reportUnlock pg userId mapUid slug specId) := by
  refine .transaction (.bind .ask fun now => .bind lockCollectible_writesTo fun row => ?_)
  cases row with
  | none => exact .pure
  | some row => exact .bind (unlock_single.writesTo hW) fun _ => .commit

theorem recordCollect_writesTo {key : String} {x y z : F32} {source : String} {now : Time}
    (hW : W .collectibleProgress) (hlog : W .collectibleCollectLog) :
    WritesTo W (Collectibles.recordCollectTransition userId key mapUid slug x y z source now) := by
  refine .bind (lockProgress_single.writesTo hW) fun previous =>
    .bind (collect_single.writesTo hW) fun _ => ?_
  split
  · exact log_single.writesTo hlog
  · exact .pure

theorem reportCollect_writesTo {x y z : F32} {source : String} (hW : W .collectibleProgress)
    (hlog : W .collectibleCollectLog) :
    WritesTo W (Collectibles.reportCollect pg userId mapUid slug specId x y z source) := by
  unfold Collectibles.reportCollect
  split
  · exact .pure
  split
  · exact .pure
  refine .transaction (.bind .ask fun now => .bind lockCollectible_writesTo fun row => ?_)
  cases row with
  | none => exact .pure
  | some row =>
      dsimp only
      split
      · exact .pure
      · exact .bind (recordCollect_writesTo hW hlog) fun _ => .commit

theorem validateRecords_writesTo (uids : List String) :
    WritesTo W (Hats.validateRecords userId uids) := by
  induction uids with
  | nil => exact .pure
  | cons uid uids ih =>
      refine .bind (.bind .ask fun answer => .pure) fun valid => ?_
      split
      · exact ih
      · exact .pure

theorem validateHatUnlock_writesTo {row : Hats.OnMapRow} :
    WritesTo W (Hats.validateHatUnlock userId mapUid row) := by
  unfold Hats.validateHatUnlock
  split
  · exact .pure
  have hfinished : WritesTo W
      (if row.finishThisMap then Hats.validateFinishThisMap userId mapUid else pure true) := by
    split
    · exact .bind .ask fun answer => .pure
    · exact .pure
  refine .bind hfinished fun finished => ?_
  split
  · exact validateRecords_writesTo row.recordUids
  · exact .pure

theorem commitUnlock_writesTo {row : Hats.OnMapRow} (hW : W .hatUnlock) :
    WritesTo W (Hats.commitUnlock pg userId mapUid slug specId row) := by
  have hlocked : WritesTo W (Hats.lockMaterializedRow pg mapUid specId slug) := by
    refine .bind lockMaterializedSpec_writesTo fun current => ?_
    split
    · exact looks_shareHat.writesTo
    · exact .pure
  refine .transaction (.bind .ask fun now => .bind hlocked fun locked => ?_)
  cases locked with
  | none => exact .pure
  | some locked =>
      dsimp only
      split
      · exact .pure
      · exact .bind (insertUnlock_single.writesTo hW) fun _ => .bind .commit fun _ => .pure

theorem hatUnlock_writesTo (hW : W .hatUnlock) :
    WritesTo W (Hats.reportUnlock pg userId mapUid slug specId) := by
  have hrow : WritesTo W (Hats.materializedRow pg mapUid specId slug) := by
    refine .bind looks_select.writesTo fun bound => ?_
    cases bound with
    | none => exact .pure
    | some bound => exact looks_select.writesTo
  refine .bind hrow fun row => ?_
  cases row with
  | none => exact .pure
  | some row =>
      refine .bind looks_select.writesTo fun unlocked => ?_
      split
      · exact .pure
      refine .bind .ask fun allowed => ?_
      split
      · exact .pure
      refine .bind validateHatUnlock_writesTo fun valid => ?_
      split
      · exact commitUnlock_writesTo hW
      · exact .pure

theorem writeEquip_writesTo {now : Time} (hW : W .hatEquipped) :
    WritesTo W (Hats.writeEquip pg userId mapUid slug now) := by
  unfold Hats.writeEquip
  split
  · exact .bind (unequip_single.writesTo hW) fun removed => .pure
  refine .bind looks_select.writesTo fun binding => ?_
  cases binding with
  | none => exact .pure
  | some specId =>
      refine .bind lockMaterializedSpec_writesTo fun current => ?_
      split
      · exact .pure
      refine .bind looks_shareUnlock.writesTo fun unlocked => ?_
      cases unlocked with
      | none => exact .pure
      | some key => exact .bind (upsertEquipped_single.writesTo hW) fun changed => .pure

theorem reportEquip_writesTo (hW : W .hatEquipped) :
    WritesTo W (Hats.reportEquipWithBeforePayload pg userId mapUid slug) := by
  refine .transaction (.bind .ask fun now => .bind (writeEquip_writesTo hW) fun event => ?_)
  cases event with
  | none => exact .pure
  | some event =>
      have hname : WritesTo W (Hats.displayName userId) := by
        refine .bind looks_select.writesTo fun name => ?_
        cases name with
        | none => exact .throw
        | some name => exact .pure
      exact .bind .ask fun hook => .bind liftE_writesTo fun _ => .bind hname fun name =>
        .bind .commit fun _ => .pure

theorem toCall_confined {ε α : Type} {x : Query ε α} (h : WritesTo W x) :
    (Query.toCall x).Confined W :=
  Prog.Confined.bind h fun _ => trivial

/-- A call writes to the tables of its transaction, whatever it sees. -/
theorem WayfinderJob.call_confined (j : WayfinderJob) (hW : ∀ t ∈ j.tables, W t) :
    (j.call pg).Confined W := by
  cases j with
  | upsertSpecAndCatalogs u n spec => exact toCall_confined (upsertSpecAndCatalogs_writesTo hW)
  | commitAuthoritativeBind p u m id => exact toCall_confined (commitAuthoritativeBind_writesTo hW)
  | commitCommentBind m id => exact toCall_confined (commitCommentBind_writesTo hW)
  | minigameAttempt u m slug id ms status =>
      exact toCall_confined (reportAttempt_writesTo (hW _ List.mem_cons_self)
        (hW _ (List.mem_cons_of_mem _ List.mem_cons_self)))
  | collectibleUnlock u m slug id =>
      exact toCall_confined (collectibleUnlock_writesTo (hW _ List.mem_cons_self))
  | collectibleCollect u m slug id x y z source =>
      exact toCall_confined (reportCollect_writesTo (hW _ List.mem_cons_self)
        (hW _ (List.mem_cons_of_mem _ List.mem_cons_self)))
  | hatUnlock u m slug id => exact toCall_confined (hatUnlock_writesTo (hW _ List.mem_cons_self))
  | hatEquip u m slug => exact toCall_confined (reportEquip_writesTo (hW _ List.mem_cons_self))

/-! ## Reports commit last -/

/-- The job reports a minigame attempt, a collectible unlocked, or one collected. -/
def WayfinderJob.Reports : WayfinderJob → Prop
  | .minigameAttempt _ _ _ _ _ _ => True
  | .collectibleUnlock _ _ _ _ => True
  | .collectibleCollect _ _ _ _ _ _ _ _ => True
  | _ => False

theorem lockMaterializedSpec_commitsNever :
    CommitsNever (ListedMaps.lockMaterializedSpec pg mapUid specId) := by
  refine .bind .query fun source => ?_
  cases source with
  | none => exact .pure
  | some source => exact .bind .query fun binding => .pure

theorem lockCollectible_commitsNever :
    CommitsNever (Collectibles.lockMaterializedRow pg mapUid specId slug) := by
  refine .bind lockMaterializedSpec_commitsNever fun current => ?_
  split
  · exact .pure
  · exact .query

theorem reportAttempt_allOrNothing {elapsedMs : Int} {status : String} :
    AllOrNothing (Minigames.reportAttempt pg userId mapUid slug specId elapsedMs status) := by
  unfold Minigames.reportAttempt
  split
  · exact .pure
  refine .transaction (.bind .ask fun now =>
    .bind lockMaterializedSpec_commitsNever fun current => ?_)
  split
  · exact .pure
  refine .bind .query fun game => ?_
  cases game with
  | none => exact .pure
  | some game =>
      refine .bind .ask fun id => .bind .query fun _ => .bind .query fun _ => ?_
      dsimp only
      split
      · refine .bind .query fun improved => ?_
        split
        · exact .bind .query fun _ => .commit
        · exact .commit
      · exact .commit

theorem collectibleUnlock_allOrNothing :
    AllOrNothing (Collectibles.reportUnlock pg userId mapUid slug specId) := by
  refine .transaction (.bind .ask fun now => .bind lockCollectible_commitsNever fun row => ?_)
  cases row with
  | none => exact .pure
  | some row => exact .bind .query fun _ => .commit

theorem recordCollect_commitsNever {key : String} {x y z : F32} {source : String} {now : Time} :
    CommitsNever (Collectibles.recordCollectTransition userId key mapUid slug x y z
      source now) := by
  refine .bind .query fun previous => .bind .query fun _ => ?_
  split
  · exact .query
  · exact .pure

theorem reportCollect_allOrNothing {x y z : F32} {source : String} :
    AllOrNothing (Collectibles.reportCollect pg userId mapUid slug specId x y z source) := by
  unfold Collectibles.reportCollect
  split
  · exact .pure
  split
  · exact .pure
  refine .transaction (.bind .ask fun now => .bind lockCollectible_commitsNever fun row => ?_)
  cases row with
  | none => exact .pure
  | some row =>
      dsimp only
      split
      · exact .pure
      · exact .bind recordCollect_commitsNever fun _ => .commit

theorem toCall_commitsLast {ε α : Type} {x : Query ε α} (h : AllOrNothing x) :
    (Query.toCall x).CommitsLast fun ok => ok = true :=
  Prog.CommitsLast.bind h (fun _ => trivial) fun _ hr => hr

/-- Once a report has committed, nothing is left of the call but to return `Ok`. -/
theorem WayfinderJob.Reports.commitsLast {j : WayfinderJob} (h : j.Reports) :
    (j.call pg).CommitsLast fun ok => ok = true := by
  cases j with
  | minigameAttempt u m slug id ms status => exact toCall_commitsLast reportAttempt_allOrNothing
  | collectibleUnlock u m slug id => exact toCall_commitsLast collectibleUnlock_allOrNothing
  | collectibleCollect u m slug id x y z source =>
      exact toCall_commitsLast reportCollect_allOrNothing
  | _ => exact h.elim

end

end Dd2Server
