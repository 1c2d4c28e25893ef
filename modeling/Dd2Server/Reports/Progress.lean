import Dd2Server.Machine.Binary32
import Dd2Server.Reports.Attempts

/-!
# What a player has of a collectible

A player's progress and the log of the collection are two rows under one key.  A report of an unlock
and one of a collection each make one step of this pair.  The row of the progress is locked by who
writes it; what a report may have missed while there was no row yet is that another collected
meanwhile, and then the other has logged it.
-/

namespace Dd2Server

open ReadCommitted

namespace Collectibles

/-- What a player has of a collectible: the row of the progress and the logged collection. -/
structure Standing where
  progress : Option CollectibleProgressRow
  log : Option CollectLogRow

namespace Standing

def unlockedAt (x : Standing) : Option Time := x.progress.bind fun r => r.unlockedAt

def collectedAt (x : Standing) : Option Time := x.progress.bind fun r => r.collectedAt

/-- What is collected is unlocked, and what is logged is collected. -/
structure Valid (x : Standing) : Prop where
  unlocked : x.collectedAt.isSome → x.unlockedAt.isSome
  collected : x.log.isSome → x.collectedAt.isSome

/-- Times once set stay, a log row stays, and what comes to be collected is logged. -/
structure Onward (x y : Standing) : Prop where
  unlocked : ∀ t, x.unlockedAt = some t → y.unlockedAt = some t
  collected : ∀ t, x.collectedAt = some t → y.collectedAt = some t
  log : ∀ r, x.log = some r → y.log = some r
  recorded : x.collectedAt = none → y.collectedAt.isSome → y.log.isSome

/-- The step of a report of an unlock. -/
def unlock (mapUid slug : String) (now : Time) (x : Standing) : Standing :=
  { x with progress := some (x.progress.elim
      { mapUid, slug, unlockedAt := some now, collectedAt := none } fun r =>
      { r with unlockedAt := r.unlockedAt.or (some now) }) }

/-- The step of a report of a collection: what is collected for the first time is logged. -/
def collect (row : CollectLogRow) (x : Standing) : Standing where
  progress := some (x.progress.elim
    { mapUid := row.mapUid, slug := row.slug, unlockedAt := some row.collectedAt,
      collectedAt := some row.collectedAt } fun r => { r with
      unlockedAt := r.unlockedAt.or (some row.collectedAt)
      collectedAt := r.collectedAt.or (some row.collectedAt) })
  log := if x.collectedAt = none then some row else x.log

variable {x y z : Standing} {mapUid slug : String} {now t : Time} {row : CollectLogRow}

theorem Onward.refl (x : Standing) : Onward x x where
  unlocked _ h := h
  collected _ h := h
  log _ h := h
  recorded h h' := by
    rw [h] at h'
    cases h'

theorem Onward.trans (h : Onward x y) (h' : Onward y z) : Onward x z where
  unlocked t ht := h'.unlocked t (h.unlocked t ht)
  collected t ht := h'.collected t (h.collected t ht)
  log r hr := h'.log r (h.log r hr)
  recorded hx hz := by
    cases hy : y.collectedAt with
    | none => exact h'.recorded hy hz
    | some t =>
        obtain ⟨r, hr⟩ := Option.isSome_iff_exists.1 (h.recorded hx (by rw [hy]; rfl))
        rw [h'.log r hr]
        rfl

theorem unlockedAt_unlock : (x.unlock mapUid slug now).unlockedAt = x.unlockedAt.or (some now) := by
  obtain ⟨progress, log⟩ := x
  cases progress <;> rfl

theorem collectedAt_unlock : (x.unlock mapUid slug now).collectedAt = x.collectedAt := by
  obtain ⟨progress, log⟩ := x
  cases progress <;> rfl

theorem unlockedAt_collect :
    (x.collect row).unlockedAt = x.unlockedAt.or (some row.collectedAt) := by
  obtain ⟨progress, log⟩ := x
  cases progress <;> rfl

theorem collectedAt_collect :
    (x.collect row).collectedAt = x.collectedAt.or (some row.collectedAt) := by
  obtain ⟨progress, log⟩ := x
  cases progress <;> rfl

theorem isSome_or_some {o : Option Time} : (o.or (some t)).isSome = true := by
  cases o <;> rfl

theorem or_of_eq_some {o o' : Option Time} (h : o = some t) : o.or o' = some t := by
  rw [h]
  rfl

theorem Valid.unlock (h : Valid x) : Valid (x.unlock mapUid slug now) where
  unlocked _ := by
    rw [unlockedAt_unlock]
    exact isSome_or_some
  collected hlog := by
    rw [collectedAt_unlock]
    exact h.collected hlog

theorem Onward.unlock : Onward x (x.unlock mapUid slug now) where
  unlocked t ht := by
    rw [unlockedAt_unlock]
    exact or_of_eq_some ht
  collected t ht := by
    rw [collectedAt_unlock]
    exact ht
  log _ hr := hr
  recorded hx hy := by
    rw [collectedAt_unlock, hx] at hy
    cases hy

theorem Valid.collect : Valid (x.collect row) where
  unlocked _ := by
    rw [unlockedAt_collect]
    exact isSome_or_some
  collected _ := by
    rw [collectedAt_collect]
    exact isSome_or_some

theorem Onward.collect (h : Valid x) : Onward x (x.collect row) where
  unlocked t ht := by
    rw [unlockedAt_collect]
    exact or_of_eq_some ht
  collected t ht := by
    rw [collectedAt_collect]
    exact or_of_eq_some ht
  log r hr := by
    have hcollected : x.collectedAt ≠ none :=
      Option.isSome_iff_ne_none.1 (h.collected (by rw [hr]; rfl))
    rw [Standing.collect, if_neg hcollected]
    exact hr
  recorded hx _ := by
    rw [Standing.collect, if_pos hx]
    rfl

end Standing

/-! ## Standings in a database -/

def standing (db : Db) (u : Uuid) (key : String) : Standing where
  progress := db.get ⟨.collectibleProgress, (u, key)⟩
  log := db.get ⟨.collectibleCollectLog, (u, key)⟩

/-- A coordinate is finite and at most a million away. -/
def Within (c : F32) : Prop := c.isFinite = true ∧ Machine.Binary32.absValue c.abs ≤ 1000000

theorem absValue_limit : Machine.Binary32.absValue collectPositionLimit.abs = 1000000 := by
  have habs : collectPositionLimit.abs = 0x49742400 := rfl
  norm_num [habs, Machine.Binary32.absValue, Machine.Binary32.magnitude]

theorem within_of_plausible {x y z : F32} (h : collectPositionIsPlausible x y z = true) :
    ∀ c ∈ [x, y, z], Within c := by
  intro c hc
  have hcheck := List.all_eq_true.1 h c hc
  rw [Bool.and_eq_true, decide_eq_true_eq] at hcheck
  refine ⟨hcheck.1, ?_⟩
  rw [← absValue_limit, Machine.Binary32.absValue_le_iff]
  exact hcheck.2

/-- A collection that the row on the map allows: the position is finite and within the limit, and
the row has the collect path of the source. -/
structure Allowed (db : Db) (key : String) (r : CollectLogRow) : Prop where
  position : ∃ x y z, r.pos = some (x, y, z) ∧ ∀ c ∈ [x, y, z], Within c
  source : ∃ o : CollectibleOnMapRow, db.get ⟨.collectibleOnMap, (r.mapUid, r.slug)⟩ =
    some o ∧
    o.collectibleKey = key ∧
    OnMapRow.allows
      { collectibleKey := o.collectibleKey, collectOnUnlock := o.collectOnUnlock,
        hasZone := o.hasZone }
      r.source = true

/-- A log row comes exactly where something comes to be collected, and it is one the map allows. -/
structure Recorded (db : Db) (key : String) (x y : Standing) : Prop where
  once : x.collectedAt = none ∧ y.collectedAt.isSome ↔ x.log = none ∧ y.log.isSome
  allowed : ∀ r, x.log = none → y.log = some r → Allowed db key r

theorem Recorded.refl (db : Db) (key : String) (x : Standing) : Recorded db key x x where
  once := by
    constructor
    · rintro ⟨h, h'⟩
      rw [h] at h'
      cases h'
    · rintro ⟨h, h'⟩
      rw [h] at h'
      cases h'
  allowed r h h' := by
    rw [h] at h'
    cases h'

theorem Recorded.unlock {db : Db} {key mapUid slug : String} {now : Time} {x : Standing} :
    Recorded db key x (x.unlock mapUid slug now) := by
  have h := Recorded.refl db key x
  refine ⟨?_, h.allowed⟩
  rw [Standing.collectedAt_unlock]
  exact h.once

theorem Recorded.collect {db : Db} {key : String} {row : CollectLogRow}
    {x : Standing} (hx : x.Valid) (hrow : Allowed db key row) :
    Recorded db key x (x.collect row) := by
  have hlog : x.collectedAt = none → x.log = none := by
    intro h
    cases hl : x.log with
    | none => rfl
    | some r =>
        have hc := hx.collected (by rw [hl]; rfl)
        rw [h] at hc
        cases hc
  have hnew : x.collectedAt = none → (x.collect row).log = some row := fun h => if_pos h
  have hold : x.collectedAt ≠ none → (x.collect row).log = x.log := fun h => if_neg h
  constructor
  · constructor
    · rintro ⟨h, -⟩
      refine ⟨hlog h, ?_⟩
      rw [hnew h]
      rfl
    · rintro ⟨h, h'⟩
      by_cases hc : x.collectedAt = none
      · refine ⟨hc, ?_⟩
        rw [Standing.collectedAt_collect]
        exact Standing.isSome_or_some
      · rw [hold hc, h] at h'
        cases h'
  · intro r h h'
    by_cases hc : x.collectedAt = none
    · rw [hnew hc] at h'
      cases h'
      exact hrow
    · rw [hold hc, h] at h'
      cases h'

/-! ## The protocol of the reports -/

def progressProtocol : Protocol Table.Key Table.Row where
  Inv db := ∀ u key, (standing db u key).Valid
  stay pre post := ∀ u key, (standing pre u key).Onward (standing post u key)
  keep _ _ _ := True
  stay_refl _ _ _ := .refl _
  stay_trans h h' u key := (h u key).trans (h' u key)
  keep_refl _ _ := trivial
  keep_trans _ _ := trivial

/-- A commit makes at most steps that are recorded. -/
def progressPromise : Promise Table.Key Table.Row Tag Ask.Ans Act.Out where
  commit _ pre post := ∀ u key, Recorded pre key (standing pre u key) (standing post u key)

abbrev progressSetting : Setting Table.Key Table.Row Tag Ask.Ans Act.Out :=
  Reports.setting progressProtocol (fun _ _ => True) progressPromise

/-- The tables of the progress and of the log. -/
def OfProgress (t : Table) : Prop := t = .collectibleProgress ∨ t = .collectibleCollectLog

theorem standing_congr {db db' : Db} (h : ∀ t, ¬¬OfProgress t → db' t = db t) (u : Uuid)
    (key : String) : standing db' u key = standing db u key := by
  unfold standing Store.get
  rw [h .collectibleProgress (not_not_intro (.inl rfl)), h .collectibleCollectLog
    (not_not_intro (.inr rfl))]

theorem progressProtocol_ignores : progressProtocol.Ignores fun t => ¬OfProgress t where
  inv h hinv u key := by
    rw [standing_congr h]
    exact hinv u key
  stay h u key := by
    rw [standing_congr h]
    exact .refl _
  keep _ _ := trivial

/-! ## One report -/

/-- One standing makes a step, and the others stand. -/
structure Steps (u : Uuid) (key : String) (f : Standing → Standing) (db v : Db) : Prop where
  own : standing v u key = f (standing db u key)
  others : ∀ u' key', (u', key') ≠ (u, key) → standing v u' key' = standing db u' key'

section

variable {u : Uuid} {key mapUid slug source : String} {now : Time} {x y z : F32}
  {L : List (Lock Table.Key)} {since : Log} {db v : Db} {row : CollectLogRow}
  {pg : Pg} {specId : Int}

theorem Steps.each {f : Standing → Standing} {φ : String → Standing → Standing → Prop}
    (h : Steps u key f db v)
    (hrefl : ∀ u' key', φ key' (standing db u' key') (standing db u' key'))
    (hf : φ key (standing db u key) (f (standing db u key))) (u' : Uuid) (key' : String) :
    φ key' (standing db u' key') (standing v u' key') := by
  by_cases he : (u', key') = (u, key)
  · cases he
    rw [h.own]
    exact hf
  · rw [h.others u' key' he]
    exact hrefl u' key'

/-- A step that keeps the protocol. -/
theorem Steps.guarantee {f : Standing → Standing} (hinv : progressProtocol.Inv db)
    (h : Steps u key f db v) (hvalid : (f (standing db u key)).Valid)
    (honward : (standing db u key).Onward (f (standing db u key))) :
    Guarantee progressProtocol L db v where
  inv := h.each (φ := fun _ _ y => y.Valid) hinv hvalid
  stay := h.each (φ := fun _ x y => x.Onward y) (fun _ _ => .refl _) honward
  keep _ := .inr trivial

theorem standing_put_progress (r : CollectibleProgressRow) :
    standing (db.put ⟨⟨.collectibleProgress, (u, key)⟩, some r⟩) u key =
      { standing db u key with progress := some r } := by
  unfold standing
  rw [Store.get_put_self, Store.get_put_of_ne (by simp)]

theorem standing_put_log :
    standing (db.put ⟨⟨.collectibleCollectLog, (u, key)⟩, some row⟩) u key =
      { standing db u key with log := some row } := by
  unfold standing
  rw [Store.get_put_self, Store.get_put_of_ne (by simp)]

theorem standing_put_other {t : Table} {k : t.Key} {c : Option t.Row} {u' : Uuid} {key' : String}
    (hp : RowKey.mk t k ≠ ⟨.collectibleProgress, (u', key')⟩)
    (hl : RowKey.mk t k ≠ ⟨.collectibleCollectLog, (u', key')⟩) :
    standing (db.put ⟨⟨t, k⟩, c⟩) u' key' = standing db u' key' := by
  unfold standing
  rw [Store.get_put_of_ne hp, Store.get_put_of_ne hl]

/-- The upsert of the progress: what it saw in the row stays there, and so does what it makes of
it. -/
theorem upsertProgress_triple {A : Db → Prop} {s : Sql Unit} {r : CollectibleProgressRow}
    {f : CollectibleProgressRow → CollectibleProgressRow}
    (hs : ∀ v, s.run v = (upsertRow .collectibleProgress (u, key) r f v).map fun e => (e, ())) :
    Triple progressSetting since Reports.anyError L (fun db v => v = db ∧
      A db) (sql s) (fun _ => L) (fun _ db v =>
      Steps u key (fun x => { x with progress := some (x.progress.elim r f) }) db v ∧ A db) := by
  refine Reports.stmt_triple fun ws db e _ _ hA _ he =>
    ⟨fun x hx => List.mem_append_right _ hx, ?_⟩
  intro db' hr hA'
  rw [hs] at he
  obtain ⟨e', he', hpair⟩ := Option.map_eq_some_iff.1 he
  cases hpair
  have hwrites := upsertRow_row he'
  have hlocked := hr.row (Write.lock (Store.view ws db)
      ⟨⟨.collectibleProgress, (u, key)⟩,
        some (((Store.view ws db).get ⟨.collectibleProgress, (u, key)⟩).elim r f)⟩)
    (List.mem_append_left _ (List.mem_append_left _ (by rw [hwrites]; exact List.mem_cons_self)))
    (Mode.ne_keyShare (Write.lock_exclusive _ _))
  have hsame : db'.get ⟨.collectibleProgress, (u, key)⟩ =
      db.get ⟨.collectibleProgress, (u, key)⟩ := hlocked
  refine ⟨⟨?_, fun u' key' hne => ?_⟩, hA'.2⟩
  · rw [hwrites, Store.view_cons, Store.view_nil, hA'.1, standing_put_progress, hA.1, ← hsame]
    rfl
  · rw [hwrites, Store.view_cons, Store.view_nil, hA'.1]
    refine standing_put_other (fun h => hne ?_) (by simp)
    cases h
    rfl

theorem unlock_triple :
    Triple progressSetting since Reports.anyError L (fun db v => v = db)
      (sql (unlockStmt u key mapUid slug now)) (fun _ => L) (fun _ =>
        Steps u key (Standing.unlock mapUid slug now)) :=
  (upsertProgress_triple (A := fun _ => True) fun _ => rfl).weaken (fun _ hx => hx)
    (fun _ _ _ hA => ⟨hA, trivial⟩) (fun _ _ hx => hx) fun _ _ _ _ hA => hA.1

/-! ## What the row on the map allows -/

/-- The report looked at this row of the map. -/
def OnMapIs (mapUid slug : String) (row : OnMapRow) (db : Db) : Prop :=
  ∃ o : CollectibleOnMapRow, db.get ⟨.collectibleOnMap, (mapUid, slug)⟩ = some o ∧
    row =
      { collectibleKey := o.collectibleKey, collectOnUnlock := o.collectOnUnlock,
        hasZone := o.hasZone }

theorem OnMapIs.allowed {o : OnMapRow} (h : OnMapIs mapUid slug o db)
    (hpos : collectPositionIsPlausible x y z = true) (hsource : o.allows source = true) :
    Allowed db o.collectibleKey
      { mapUid, slug, collectedAt := now, pos := some (x, y, z), source } := by
  obtain ⟨o', ho, rfl⟩ := h
  exact ⟨⟨x, y, z, rfl, within_of_plausible hpos⟩, o', ho, rfl, hsource⟩

/-- The row of the map stays as it was seen. -/
theorem lockRow_triple :
    Triple progressSetting since Reports.anyError L (fun db v => v = db)
      (lockMaterializedRow pg mapUid specId slug) (fun _ => L)
      (fun row db v => v = db ∧ ∀ o, row = some o → OnMapIs mapUid slug o db) := by
  have hnone : Triple progressSetting since Reports.anyError L (fun db v => v = db)
      (pure none : Query DbError (Option OnMapRow)) (fun _ => L)
      (fun row db v => v = db ∧ ∀ o, row = some o → OnMapIs mapUid slug o db) :=
    .pure (fun _ _ _ hA => ⟨hA, fun _ he => nomatch he⟩) fun _ hx => hx
  refine Triple.bind Reports.lockMaterializedSpec_triple fun current => ?_
  split
  · exact hnone
  refine Reports.stmt_triple fun ws db e row _ hA _ he =>
    ⟨fun x hx => List.mem_append_right _ hx, ?_⟩
  intro db' hr hA'
  rw [looks_shareCollectible _ e row he]
  refine ⟨hA', fun o ho => ?_⟩
  subst ho
  simp only [shareCollectibleStmt] at he
  split at he
  · cases he
  case h_2 o hrow =>
    cases he
    refine ⟨o, ?_, rfl⟩
    rw [← hrow, hA]
    exact hr.row ⟨⟨.collectibleOnMap, (mapUid, slug)⟩, .share⟩
      (List.mem_append_left _ (List.mem_append_right _ List.mem_cons_self)) (by simp)

/-! ## The collection -/

/-- What the report saw of the collection, if there was a row: that row it holds.  If there was
none, another may collect meanwhile, and logs it. -/
def Saw (x : Standing) : Option (Option Time) → Prop
  | none => x.collectedAt.isSome → x.log.isSome
  | some collected => x.collectedAt = collected

theorem lockProgress_triple {A : Db → Prop} :
    Triple progressSetting since Reports.anyError L (fun db v => v = db ∧
      A db) (sql (lockProgressStmt u key)) (fun _ => L) (fun previous db v => v = db ∧
      Saw (standing db u key) previous ∧ A db) := by
  refine Reports.stmt_triple fun ws db e previous _ hA _ he =>
    ⟨fun x hx => List.mem_append_right _ hx, ?_⟩
  intro db' hr hA'
  simp only [lockProgressStmt, hA.1] at he
  split at he
  case h_1 hnone =>
    cases he
    have hfirst : (standing db u key).collectedAt = none := by
      unfold Standing.collectedAt standing
      rw [hnone]
      rfl
    exact ⟨hA'.1, (hr.stay u key).recorded hfirst, hA'.2⟩
  case h_2 r hrow =>
    cases he
    have hsame := hr.row ⟨⟨.collectibleProgress, (u, key)⟩, .update⟩
      (List.mem_append_left _ (List.mem_append_right _ List.mem_cons_self)) (by simp)
    refine ⟨hA'.1, ?_, hA'.2⟩
    show (standing db' u key).collectedAt = r.collectedAt
    unfold Standing.collectedAt standing
    rw [hsame, hrow]
    rfl

/-- The progress has made its step, and the log is as it was. -/
def Halfway (u : Uuid) (key : String) (row : CollectLogRow) : Db → Db → Prop :=
  Steps u key fun x => { x with progress := (x.collect row).progress }

/-- Where nothing has to be logged, the step is done. -/
theorem Halfway.done (h : Halfway u key row db v) (hx : (standing db u key).collectedAt ≠ none) :
    Steps u key (Standing.collect row) db v := by
  refine ⟨?_, h.others⟩
  rw [h.own, Standing.collect, if_neg hx]

theorem log_triple (row : CollectLogRow) {A : Db → Prop} {previous : Option (Option Time)}
    (hprev : previous.all Option.isNone = true) :
    Triple progressSetting since Reports.anyError L
      (fun db v => Halfway u key row db v ∧ Saw (standing db u key) previous ∧
        A db) (sql (logStmt u key row))
      (fun _ => L) (fun _ db v => Steps u key (Standing.collect row) db v ∧ A db) := by
  refine Reports.stmt_triple fun ws db e _ _ hA _ he =>
    ⟨fun x hx => List.mem_append_right _ hx, ?_⟩
  rintro db' hr ⟨hA', hsaw, ha⟩
  refine ⟨?_, ha⟩
  have hlog : (Store.view ws db).get ⟨.collectibleCollectLog, (u, key)⟩ =
      (standing db u key).log :=
    congrArg Standing.log hA.1.own
  simp only [logStmt, hlog] at he
  split at he
  case h_1 r hr₀ =>
    -- another task collected while there was no row, and its log row stays
    split at he <;> cases he
    refine hA'.done (Option.isSome_iff_ne_none.1 ((hr.inv u key).collected ?_))
    rw [(hr.stay u key).log r hr₀]
    rfl
  case h_2 hnone =>
    obtain ⟨e', he', hpair⟩ := Option.map_eq_some_iff.1 he
    cases hpair
    obtain ⟨-, rfl⟩ := insertRow_eq_some.1 he'
    have hsame : db'.get ⟨.collectibleCollectLog, (u, key)⟩ =
        db.get ⟨.collectibleCollectLog, (u, key)⟩ :=
      hr.row _ (List.mem_append_left _ List.mem_cons_self)
        (Mode.ne_keyShare (Write.lock_exclusive _ _))
    have hunlogged : (standing db' u key).log = none := hsame.trans hnone
    have hfirst : (standing db' u key).collectedAt = none := by
      cases previous with
      | none =>
          cases hc : (standing db' u key).collectedAt with
          | none => rfl
          | some t =>
              have hl := hsaw (by rw [hc]; rfl)
              rw [hunlogged] at hl
              cases hl
      | some collected =>
          cases collected with
          | none => exact hsaw
          | some t => cases hprev
    refine ⟨?_, fun u' key' hne => ?_⟩
    · rw [Store.view_cons, Store.view_nil, standing_put_log, hA'.own,
        Standing.collect, if_pos hfirst]
    · rw [Store.view_cons, Store.view_nil, ← hA'.others u' key' hne]
      refine standing_put_other (by simp) fun h => hne ?_
      cases h
      rfl

theorem recordCollect_triple {A : Db → Prop} :
    Triple progressSetting since Reports.anyError L (fun db v => v = db ∧ A db)
      (recordCollectTransition u key mapUid slug x y z source now) (fun _ => L)
      (fun _ db v => Steps u key
        (Standing.collect { mapUid, slug, collectedAt := now, pos := some (x, y, z), source }) db
          v ∧ A db) := by
  refine Triple.bind lockProgress_triple fun previous => ?_
  refine Triple.bind (upsertProgress_triple (A := fun db => Saw (standing db u key) previous ∧
    A db) fun _ => rfl) fun _ => ?_
  split
  case isTrue hprev =>
    exact log_triple { mapUid, slug, collectedAt := now, pos := some (x, y, z), source } hprev
  case isFalse hprev =>
    refine .pure (fun db v hinv hA => ⟨Halfway.done hA.1 ?_, hA.2.2⟩) fun _ hx => hx
    match previous, hprev, hA.2.1 with
    | some (some t), _, hsaw =>
        rw [show (standing db u key).collectedAt = some t from hsaw]
        exact Option.some_ne_none t
    | none, hprev, _ => exact absurd rfl hprev
    | some none, hprev, _ => exact absurd rfl hprev

/-! ## The reports -/

theorem reportUnlock_pool :
    Pool progressSetting Reports.anyError (fun _ _ => True) (reportUnlock pg u mapUid slug specId)
      Reports.anyResult := by
  refine Reports.report_pool fun since => Ends.ask fun _ now _ =>
    Ends.bind lockRow_triple fun row => ?_
  cases row with
  | none => exact Reports.giveUp_ends
  | some row =>
      refine Ends.bind (unlock_triple.pre fun _ _ _ hA => hA.1) fun _ => Reports.commitQ_ends ?_ ?_
      · exact fun db v hinv hA => hA.guarantee hinv (hinv _ _).unlock .unlock
      · exact fun _ db v _ hA => hA.each (fun _ _ => .refl _ _ _) .unlock

theorem reportCollect_pool :
    Pool progressSetting Reports.anyError (fun _ _ => True)
      (reportCollect pg u mapUid slug specId x y z source)
      Reports.anyResult := by
  unfold reportCollect
  split
  · exact .pure fun _ _ _ _ => trivial
  split
  · exact .pure fun _ _ _ _ => trivial
  case h_2 source _ hpos =>
  refine Reports.report_pool fun since => Ends.ask fun _ now _ =>
    Ends.bind lockRow_triple fun row => ?_
  cases row with
  | none => exact Reports.giveUp_ends
  | some row =>
      dsimp only
      split
      case isTrue => exact Reports.giveUp_ends
      case isFalse hallows =>
        have hposition : collectPositionIsPlausible x y z = true := by simpa using hpos
        have hsource : row.allows source = true := by simpa using hallows
        let collection : CollectLogRow :=
          { mapUid, slug, collectedAt := now, pos := some (x, y, z), source }
        refine Ends.bind ((recordCollect_triple
          (A := fun db => Allowed db row.collectibleKey collection)).pre
          fun db v _ hA => ⟨hA.1, (hA.2 row rfl).allowed hposition hsource⟩) fun _ =>
            Reports.commitQ_ends ?_ ?_
        · exact fun db v hinv hA => hA.1.guarantee hinv .collect (.collect (hinv _ _))
        · exact fun _ db v hinv hA => hA.1.each (fun _ _ => .refl _ _ _) (.collect (hinv _ _) hA.2)

/-! ## Every interleaving -/

theorem call_safe (j : WayfinderJob) (hdb : progressProtocol.Inv db) :
    Safe progressProtocol (fun _ _ => True) progressPromise (fun _ _ _ => True)
      (j.call pg) {} db := by
  have haside : (∀ t ∈ j.tables, ¬OfProgress t) →
      Safe progressProtocol (fun _ _ => True) progressPromise (fun _ _ _ => True)
        (j.call pg) {} db := by
    intro hj
    refine (j.call_confined hj).safe progressProtocol_ignores (fun _ db db' _ h u key => ?_)
      (fun _ _ => trivial) .nil
    rw [standing_congr h]
    exact .refl _ _ _
  cases j with
  | collectibleUnlock u m slug id => exact Reports.toCall_safe hdb reportUnlock_pool
  | collectibleCollect u m slug id x y z source => exact Reports.toCall_safe hdb reportCollect_pool
  | _ => exact haside (by simp [WayfinderJob.tables, OfProgress])

/-- Whatever the reports and the other transactions do, what is collected is unlocked, times once
set and log rows stay, a log row comes exactly where something comes to be collected and is one the
map allowed, and a report that fails or is dropped changed nothing. -/
theorem collectible_progress (pg : Pg) {db : Db} {s : CallSystem}
    (hdb : ∀ u key, (standing db u key).Valid)
    (h : Reach shared (WayfinderJob.call pg) (fun _ _ => True) (CallSystem.on db) s) :
    (∀ u key, (standing s.db u key).collectedAt.isSome →
      (standing s.db u key).unlockedAt.isSome) ∧
    (∀ s', Reach shared (WayfinderJob.call pg) (fun _ _ => True) s s' →
      ∀ u key, (standing s.db u key).Onward (standing s'.db u key)) ∧
    (∀ m s', s.move shared (WayfinderJob.call pg) m = some s' → ∀ u key,
      Recorded s.db key (standing s.db u key) (standing s'.db u key)) ∧
    Reports.Atomic pg s := by
  have hinv : progressProtocol.Inv (CallSystem.on db).db := hdb
  have hsound : Sound progressProtocol (fun _ _ => True) (fun _ => progressPromise)
      (fun _ _ _ _ => True) s :=
    h.sound (fun j _ => call_safe j) hinv rfl
  refine ⟨fun u key => (hsound.inv u key).unlocked, ?_, ?_, Reports.atomic rfl h⟩
  · exact fun s' hs => (hs.stays (fun j _ => call_safe j) hsound).2
  · intro m s' hm u key
    rcases (hsound.move (fun j _ _ => call_safe j) s.admits_true hm).2 with he |
      ⟨-, i, t, t', -, hG⟩
    · rw [he]
      exact .refl _ _ _
    · exact hG u key

end

end Collectibles

/-! ## Two first collections at once -/

/-- The world at a time. -/
def Sample.collectAnswers (now : Time) : (q : Ask) → q.Ans
  | .now => now
  | q => Sample.answers 8 none q

namespace Collectibles

/-- The second report collects and logs after the first saw no row: the first leaves both as they
are. -/
theorem collectible_progress_race :
    ∃ s, Reach shared (WayfinderJob.call Sample.pg) (fun _ _ => True)
        (CallSystem.on Sample.playable) s ∧
      s.tasks.map (fun t => t.prog.result) = [some true, some true] ∧
      (standing s.db 1 "coin").log.map (fun r => r.collectedAt) = some 2 ∧
      (standing s.db 1 "coin").collectedAt = some 2 ∧
      (standing s.db 1 "coin").unlockedAt.isSome := by
  have hnone : ∀ u key, (standing Sample.playable u key).Valid := by
    intro u key
    have hempty : standing Sample.playable u key = ⟨none, none⟩ := rfl
    rw [hempty]
    exact ⟨Bool.noConfusion, Bool.noConfusion⟩
  let one : F32 := ⟨0x3f800000⟩
  obtain ⟨s, hs, hdone, hlog, hcollected⟩ : ∃ s, Reach shared (WayfinderJob.call Sample.pg)
      (fun _ _ => True)
      (CallSystem.on Sample.playable) s ∧
        s.tasks.map (fun t => t.prog.result) = [some true, some true] ∧
      (standing s.db 1 "coin").log.map (fun r => r.collectedAt) = some 2 ∧
      (standing s.db 1 "coin").collectedAt = some 2 :=
    Reach.scripted [
      .start (.collectibleCollect 1 Sample.mapUid "Coin-1" 7 one one one "zone"),
        .go 0 5 (Sample.collectAnswers 1),
      .start (.collectibleCollect 1 Sample.mapUid "Coin-1" 7 one one one "zone"),
        .go 1 20 (Sample.collectAnswers 2),
      .go 0 20 (Sample.collectAnswers 1)] (by decide +kernel)
  refine ⟨s, hs, hdone, hlog, hcollected,
    (collectible_progress Sample.pg hnone hs).1 1 "coin" ?_⟩
  rw [hcollected]
  rfl

end Collectibles

end Dd2Server
