import Dd2Server.Queries.Collectibles
import Dd2Server.RowLocks.Discipline

/-!
# What each statement locks

The locks of every statement of the Wayfinder transactions are backed and in order, whatever part of
them is taken before it runs.  Most statements lock one row, or rows that are guarded by a lock held
already.
-/

namespace Dd2Server

open ReadCommitted

/-! ## Bounds -/

/-- Only rows of tables before the level `n`. -/
def Below (n : Nat) (x : RowLock) : Prop := x.row.table.level < n

/-- Only rows of tables before that of `k`, and `k` itself exclusively. -/
def UpTo (k : DbKey) (x : RowLock) : Prop :=
  x.row.table.level < k.table.level ∨ x.row = k ∧ x.mode.exclusive = true

/-- The same with `k` in share mode. -/
def SharedUpTo (k : DbKey) (x : RowLock) : Prop :=
  x.row.table.level < k.table.level ∨ x.row = k ∧ x.mode = .share

theorem Below.mono {m n : Nat} (h : m ≤ n) (x : RowLock) (hx : Below m x) : Below n x :=
  Nat.lt_of_lt_of_le hx h

theorem Below.upTo {n : Nat} {t : Table} {key : t.Key} (h : n ≤ t.level) (x : RowLock)
    (hx : Below n x) :
    UpTo ⟨t, key⟩ x := .inl (Nat.lt_of_lt_of_le hx h)

theorem Below.sharedUpTo {n : Nat} {t : Table} {key : t.Key} (h : n ≤ t.level) (x : RowLock)
    (hx : Below n x) : SharedUpTo ⟨t, key⟩ x := .inl (Nat.lt_of_lt_of_le hx h)

theorem UpTo.below {n : Nat} {t : Table} {key : t.Key} (h : t.level < n) (x : RowLock)
    (hx : UpTo ⟨t, key⟩ x) : Below n x := by
  rcases hx with hx | ⟨hx, -⟩
  · exact Nat.lt_trans hx h
  · rw [Below, hx]
    exact h

theorem SharedUpTo.below {n : Nat} {t : Table} {key : t.Key} (h : t.level < n) (x : RowLock)
    (hx : SharedUpTo ⟨t, key⟩ x) : Below n x := by
  rcases hx with hx | ⟨hx, -⟩
  · exact Nat.lt_trans hx h
  · rw [Below, hx]
    exact h

/-! ## Locks in order -/

section

variable {held : List RowLock} {log : Log} {db : Db} {a : RowLock} {k : DbKey}

theorem Ordered.guarded (h : a.row.table.level = 0) : Ordered held log db a :=
  fun hne => absurd h hne

theorem Ordered.settled (h : Settled held a) : Ordered held log db a := fun _ hne => absurd h hne

theorem Ordered.upTo (hheld : ∀ x ∈ held, UpTo k x) (ha : a.row = k) :
    Ordered held log db a := by
  intro _ hnew _ x hx _
  rcases hheld x hx with hlt | ⟨hrow, hex⟩
  · exact .inl (by rwa [ha])
  · exact absurd ⟨x, hx, hrow.trans ha.symm, .inr hex⟩ hnew

theorem Ordered.sharedUpTo (hheld : ∀ x ∈ held, SharedUpTo k x) (ha : a.row = k)
    (hm : a.mode = .share) : Ordered held log db a := by
  intro _ hnew _ x hx _
  rcases hheld x hx with hlt | ⟨hrow, hshare⟩
  · exact .inl (by rwa [ha])
  · exact absurd ⟨x, hx, hrow.trans ha.symm, .inl (hshare.trans hm.symm)⟩ hnew

/-- A key-share lock on a spec that is held exclusively. -/
theorem Ordered.keyShare {id : Int} (h : Holds held ⟨.specs, id⟩) :
    Ordered held log db ⟨⟨.specs, id⟩, .keyShare⟩ := by
  obtain ⟨x, hx, hrow, hex⟩ := h
  exact .settled ⟨x, hx, hrow, .inr hex⟩

end

/-! ## Assertions -/

/-- The tables that `WellNamed` speaks about. -/
def indexTables : List Table := [.specs, .specNames, .minigameCatalog]

/-- The two have the same specs, names and minigame rows. -/
def Agree (v v' : Db) : Prop := ∀ k : DbKey, k.table ∈ indexTables → v'.get k = v.get k

theorem Agree.get {v v' : Db} (h : Agree v v') {t : Table} (k : t.Key) (ht : t ∈ indexTables) :
    v'.get ⟨t, k⟩ = v.get ⟨t, k⟩ := h ⟨t, k⟩ ht

theorem Agree.writes {ws : List DbWrite} (h : ∀ w ∈ ws, w.row.table ∉ indexTables) (v : Db) :
    Agree v (Store.view ws v) := by
  intro k hk
  refine Store.view_get_of_notMem v fun w hw he => h w hw ?_
  rwa [he]

theorem WellNamed.agree {v v' : Db} (h : WellNamed v) (ha : Agree v v') : WellNamed v' where
  indexed id s hs := by
    rw [ha.get _ (by decide)] at hs ⊢
    exact h.indexed id s hs
  games u n slug r id hr hid := by
    rw [ha.get _ (by decide)] at hr ⊢
    exact h.games u n slug r id hr hid

/-- The view can be committed. -/
structure Tidy (db v : Db) : Prop where
  named : WellNamed v
  names : KeepsNames db v

theorem Tidy.refl {db : Db} (h : WellNamed db) : Tidy db db := ⟨h, fun _ _ hk => hk⟩

theorem Tidy.guarantee {L : List RowLock} {db v : Db} (h : Tidy db v) :
    Guarantee rowLocks.P L db v :=
  ⟨h.named, h.names, fun _ => .inr trivial⟩

/-- Besides, the spec has that name, and nobody else can take it from it. -/
structure Sure (L : List RowLock) (id : Int) (u : Uuid) (n : String) (db v : Db) :
    Prop extends Tidy db v where
  name : v.get ⟨.specNames, (u, n)⟩ = some id
  known : ∀ k, v.get ⟨.specNames, k⟩ = some id →
    db.get ⟨.specNames, k⟩ = some id ∨ Holds L ⟨.specNames, k⟩

/-- The assertion speaks about specs, names and minigame rows only. -/
def Carries (A : Assertion Table.Key Table.Row) : Prop :=
  ∀ db v v', Agree v v' → A db v → A db v'

theorem Tidy.carries : Carries Tidy := by
  intro db v v' ha h
  refine ⟨h.named.agree ha, fun k id hk => ?_⟩
  rw [ha.get _ (by decide)]
  exact h.names k id hk

theorem Sure.carries {L : List RowLock} {id : Int} {u : Uuid} {n : String} :
    Carries (Sure L id u n) := by
  intro db v v' ha h
  refine ⟨Tidy.carries db v v' ha h.toTidy, ?_, fun k hk => ?_⟩
  · rw [ha.get _ (by decide)]
    exact h.name
  · rw [ha.get _ (by decide)] at hk
    exact h.known k hk

theorem Sure.mono {L L' : List RowLock} {id : Int} {u : Uuid} {n : String} {db v : Db}
    (h : Sure L id u n db v) (hL : ∀ x ∈ L, x ∈ L') : Sure L' id u n db v :=
  ⟨h.toTidy, h.name, fun k hk => (h.known k hk).imp_right fun hx => hx.mono hL⟩

/-! ## Rules -/

section

variable {since : Log} {L : List RowLock} {B B' : RowLock → Prop}
  {A : Assertion Table.Key Table.Row} {β : Type} {k : DbKey}

/-- What the rule of a statement asks of its locks. -/
def InOrder (B' : RowLock → Prop) (held : List RowLock) (log : Log) (db : Db) (e : DbEffect)
    (v : Db) : Prop :=
  ∀ b ∈ e.allLocks v, B' b ∧ Backed held log db b.mode b.row ∧ Ordered held log db b

/-- A statement that leaves specs, names and minigame rows alone. -/
theorem stmt_course {s : Sql β} {L' : β → List RowLock} (hB : ∀ x, B x → B' x)
    (hA : Carries A) (hlocks : ∀ v db held log e b, A db v → (∀ x ∈ L, x ∈ held) →
      (∀ x ∈ held, B' x) → s.run v = some (e, b) → InOrder B' held log db e v)
    (hwrites : ∀ v e b, s.run v = some (e, b) → ∀ w ∈ e.writes, w.row.table ∉ indexTables)
    (hL : ∀ v e b, s.run v = some (e, b) → ∀ x ∈ L' b, x ∈ e.allLocks v ++ L) :
    Course rowLocks since L B A (sql s) L' B' (fun _ => A) := by
  refine Course.stmt hB fun ws db held log e b _ hAv hheld hbound he => ?_
  refine ⟨hlocks _ db held log e b hAv hheld hbound he, hL _ e b he, fun db' _ hA' => ?_⟩
  exact hA db' _ _ (Agree.writes (hwrites _ e b he) _) hA'

/-- One row is locked exclusively, and users for its foreign keys. -/
structure OneRow (k : DbKey) (v : Db) (e : DbEffect) : Prop where
  locks : ∀ x ∈ e.allLocks v,
    x.row = k ∧ x.mode.exclusive = true ∨ x.row.table = .users ∧ x.mode = .keyShare
  writes : ∀ w ∈ e.writes, w.row = k

def SingleRow (s : Sql β) (k : DbKey) : Prop := ∀ v e b, s.run v = some (e, b) → OneRow k v e

/-- An exclusive lock on what a player did is always backed. -/
theorem Backed.ofPlayer {held : List RowLock} {log : Log} {db : Db} {mode : Mode}
    (hk : 3 < k.table.level) (hm : mode.exclusive = true) : Backed held log db mode k := by
  have hne : mode ≠ .keyShare := fun e => by rw [e] at hm; cases hm
  obtain ⟨t, k⟩ := k
  have hlevel : 3 < t.level := hk
  cases t with
  | minigameAttempt => exact hne
  | minigamePb => exact hne
  | collectibleProgress => exact hne
  | hatUnlock => exact hne
  | collectibleCollectLog => exact hne
  | hatEquipped => exact hne
  | _ => exact absurd hlevel (by decide)

theorem Backed.ofUsers {held : List RowLock} {log : Log} {db : Db} {a : RowLock}
    (ht : a.row.table = .users) (hm : a.mode = .keyShare) : Backed held log db a.mode a.row := by
  obtain ⟨⟨t, k⟩, mode⟩ := a
  cases ht
  exact hm

theorem level_of_users {a : RowLock} (ht : a.row.table = .users) : a.row.table.level = 0 := by
  rw [ht]
  rfl

theorem level_of_index {t : Table} (ht : t ∈ indexTables) : t.level ≤ 3 := by
  simp only [indexTables, List.mem_cons, List.not_mem_nil, or_false] at ht
  rcases ht with rfl | rfl | rfl <;> decide

theorem singleRow_course {s : Sql β} {t : Table} {key : t.Key} (hs : SingleRow s ⟨t, key⟩)
    (hk : 3 < t.level) (hB : ∀ x, B x → UpTo ⟨t, key⟩ x) (hA : Carries A) :
    Course rowLocks since L B A (sql s) (fun _ => L) (UpTo ⟨t, key⟩) (fun _ => A) := by
  refine stmt_course hB hA ?_ ?_ fun _ _ _ _ x hx => List.mem_append_right _ hx
  · intro v db held log e b _ _ hheld he x hx
    rcases (hs v e b he).locks x hx with ⟨hrow, hex⟩ | ⟨ht, hm⟩
    · refine ⟨.inr ⟨hrow, hex⟩, ?_, .upTo hheld hrow⟩
      rw [hrow]
      exact Backed.ofPlayer hk hex
    · have hlevel := level_of_users ht
      refine ⟨.inl ?_, Backed.ofUsers ht hm, .guarded hlevel⟩
      rw [hlevel]
      exact Nat.lt_trans (by decide) hk
  · intro v e b he w hw ht
    rw [(hs v e b he).writes w hw] at ht
    exact absurd hk (Nat.not_lt.2 (level_of_index ht))

/-! ## Statements of one row -/

theorem OneRow.empty {v : Db} : OneRow k v {} := ⟨by simp [Effect.allLocks], by simp⟩

theorem OneRow.write {v : Db} (c : Option (k.table.Row)) :
    OneRow k v { writes := [⟨k, c⟩] } where
  locks x hx := by
    simp only [Effect.allLocks, List.map_cons, List.map_nil, List.append_nil,
      List.mem_singleton] at hx
    rw [hx]
    exact .inl ⟨rfl, Write.lock_exclusive v _⟩
  writes w hw := by
    rw [List.mem_singleton.1 hw]

theorem OneRow.lock {v : Db} {mode : Mode} (hm : mode.exclusive = true) :
    OneRow k v { locks := [⟨k, mode⟩] } where
  locks x hx := by
    simp only [Effect.allLocks, List.map_nil, List.nil_append, List.mem_singleton] at hx
    rw [hx]
    exact .inl ⟨rfl, hm⟩
  writes w hw := nomatch hw

/-- A row whose foreign keys point to users. -/
theorem OneRow.insert {t : Table} {key : t.Key} {r : t.Row} {v : Db} {e : DbEffect}
    (hparents : ∀ p ∈ t.parents key r, p.table = .users) (h : insertRow t key r v = some e) :
    OneRow ⟨t, key⟩ v e := by
  obtain ⟨-, rfl⟩ := insertRow_eq_some.1 h
  refine ⟨fun x hx => ?_, fun w hw => by rw [List.mem_singleton.1 hw]⟩
  rcases List.mem_append.1 hx with hx | hx
  · rw [List.map_cons, List.map_nil, List.mem_singleton] at hx
    rw [hx]
    exact .inl ⟨rfl, Write.lock_exclusive v _⟩
  · obtain ⟨p, hp, rfl⟩ := List.mem_map.1 hx
    exact .inr ⟨hparents p hp, rfl⟩

theorem OneRow.upsert {t : Table} {key : t.Key} {r : t.Row} {f : t.Row → t.Row}
    {v : Db} {e : DbEffect} (hparents : ∀ p ∈ t.parents key r, p.table = .users)
    (h : upsertRow t key r f v = some e) : OneRow ⟨t, key⟩ v e := by
  rcases upsertRow_cases h with ⟨-, hins⟩ | ⟨old, -, rfl⟩
  · exact OneRow.insert hparents hins
  · exact OneRow.write _

theorem SingleRow.insert {tag : Tag} {t : Table} {key : t.Key} {r : t.Row}
    (hparents : ∀ p ∈ t.parents key r, p.table = .users) :
    SingleRow (insertStmt tag t key r) ⟨t, key⟩ := by
  intro v e b he
  exact OneRow.insert hparents (insertStmt_run.1 he)

theorem countAttempt_single {userId : Uuid} {key mapUid slug : String} {now : Time} :
    SingleRow (Minigames.countAttemptStmt userId key mapUid slug now) ⟨.minigamePb,
      (userId, key)⟩ := by
  intro v e b he
  obtain ⟨e', he', hpair⟩ := Option.map_eq_some_iff.1 he
  cases hpair
  exact OneRow.upsert (by simp [Table.parents]) he'

theorem improveScore_single {userId : Uuid} {key : String} {elapsedMs : Int}
    {lower : Bool} {now : Time} :
    SingleRow (Minigames.improveScoreStmt userId key elapsedMs lower now) ⟨.minigamePb,
      (userId, key)⟩ := by
  intro v e b he
  simp only [Minigames.improveScoreStmt] at he
  split at he
  · cases he
    exact .empty
  · split at he
    · split at he
      · cases he
        exact .write _
      · cases he
    · cases he
      exact .empty

theorem countFinish_single {userId : Uuid} {key : String} :
    SingleRow (Minigames.countFinishStmt userId key) ⟨.minigamePb, (userId, key)⟩ := by
  intro v e b he
  simp only [Minigames.countFinishStmt] at he
  split at he
  · cases he
    exact .empty
  · split at he
    · cases he
      exact .write _
    · cases he

theorem unlock_single {userId : Uuid} {key mapUid slug : String} {now : Time} :
    SingleRow (Collectibles.unlockStmt userId key mapUid slug now) ⟨.collectibleProgress,
      (userId, key)⟩ := by
  intro v e b he
  obtain ⟨e', he', hpair⟩ := Option.map_eq_some_iff.1 he
  cases hpair
  exact OneRow.upsert (by simp [Table.parents]) he'

theorem lockProgress_single {userId : Uuid} {key : String} :
    SingleRow (Collectibles.lockProgressStmt userId key) ⟨.collectibleProgress,
      (userId, key)⟩ := by
  intro v e b he
  simp only [Collectibles.lockProgressStmt] at he
  split at he <;> cases he
  · exact .empty
  · exact .lock rfl

theorem collect_single {userId : Uuid} {key mapUid slug : String} {now : Time} :
    SingleRow (Collectibles.collectStmt userId key mapUid slug now) ⟨.collectibleProgress,
      (userId, key)⟩ := by
  intro v e b he
  obtain ⟨e', he', hpair⟩ := Option.map_eq_some_iff.1 he
  cases hpair
  exact OneRow.upsert (by simp [Table.parents]) he'

theorem log_single {userId : Uuid} {key : String} {r : CollectLogRow} :
    SingleRow (Collectibles.logStmt userId key r) ⟨.collectibleCollectLog, (userId, key)⟩ := by
  intro v e b he
  simp only [Collectibles.logStmt] at he
  split at he
  · split at he
    · cases he
      exact .empty
    · cases he
  · obtain ⟨e', he', hpair⟩ := Option.map_eq_some_iff.1 he
    cases hpair
    exact OneRow.insert (by simp [Table.parents]) he'

theorem insertUnlock_single {userId : Uuid} {key mapUid slug : String} {now : Time} :
    SingleRow (Hats.insertUnlockStmt userId key mapUid slug now) ⟨.hatUnlock,
      (userId, key)⟩ := by
  intro v e b he
  simp only [Hats.insertUnlockStmt] at he
  split at he
  · cases he
    exact .empty
  · obtain ⟨e', he', hpair⟩ := Option.map_eq_some_iff.1 he
    cases hpair
    exact OneRow.insert (by simp [Table.parents]) he'

theorem unequip_single {userId : Uuid} {mapUid : String} :
    SingleRow (Hats.unequipStmt userId mapUid) ⟨.hatEquipped, (userId, mapUid)⟩ := by
  intro v e b he
  simp only [Hats.unequipStmt] at he
  split at he <;> cases he
  · exact .empty
  · exact .write none

theorem upsertEquipped_single {userId : Uuid} {mapUid slug key : String} {now : Time} :
    SingleRow (Hats.upsertEquippedStmt userId mapUid slug key now) ⟨.hatEquipped,
      (userId, mapUid)⟩ := by
  intro v e b he
  simp only [Hats.upsertEquippedStmt] at he
  split at he
  · obtain ⟨e', he', hpair⟩ := Option.map_eq_some_iff.1 he
    cases hpair
    exact OneRow.insert (by simp [Table.parents]) he'
  · split at he
    · cases he
      exact .write _
    · cases he
      exact .lock rfl

/-! ## The locks on the spec and on the binding -/

theorem lockSpec_course {mode : Mode} (hm : mode ≠ .keyShare) (specId : Int) :
    Course rowLocks since [] (fun _ => False) (fun db v => v = db)
      (sql (ListedMaps.lockSpecStmt mode specId)) (fun o =>
        o.elim [] fun _ => [⟨⟨.specs, specId⟩, mode⟩]) (Below 2)
      (fun o db v => Tidy db v ∧ ∀ s, o = some s →
        Sure [] specId s.userId s.nameId db v) := by
  have hstmt : Course rowLocks since [] (fun _ => False) (fun db v => v = db)
      (sql (ListedMaps.lockSpecStmt mode specId))
      (fun o => o.elim [] fun _ => [⟨⟨.specs, specId⟩, mode⟩])
      (fun x => x.row = ⟨.specs, specId⟩ ∧ x.mode = mode)
      (fun o db v => v = db ∧ WellNamed db ∧ ∀ s, o = some s →
        db.get ⟨.specs, specId⟩ = some s) := by
    refine Course.stmt (fun _ hx => hx.elim) fun ws db held log e o hinv hv _ hheld he => ?_
    rw [hv] at he ⊢
    simp only [ListedMaps.lockSpecStmt] at he
    split at he
    case h_1 hnone =>
      cases he
      exact ⟨by simp [Effect.allLocks], by simp, fun db' hr hv' => ⟨hv', hr.inv, by simp⟩⟩
    case h_2 s hs =>
      cases he
      refine ⟨fun b hb => ?_, by simp [Effect.allLocks],
        fun db' hr hv' => ⟨hv', hr.inv, ?_⟩⟩
      · have hb' : b = ⟨⟨.specs, specId⟩, mode⟩ := by simpa [Effect.allLocks] using hb
        rw [hb']
        refine ⟨⟨rfl, rfl⟩, ⟨fun h => absurd h hm, fun _ => .inl ⟨s, hs⟩⟩,
          fun _ hnew _ x hx _ => ?_⟩
        exact absurd ⟨x, hx, (hheld x hx).1, .inl (hheld x hx).2⟩ hnew
      · intro s' hs'
        cases hs'
        rw [hr.row ⟨⟨.specs, specId⟩, mode⟩ (by simp [Effect.allLocks]) hm]
        exact hs
  refine hstmt.weaken (fun _ hx => hx) (fun _ hx => hx) (fun _ _ _ hA => hA)
    (fun _ _ hx => hx) ?_ ?_
  · rintro x ⟨hx, -⟩
    rw [Below, hx]
    exact Nat.lt_succ_self 1
  · rintro o db v - ⟨rfl, hnamed, hspec⟩
    refine ⟨.refl hnamed, fun s hs => ⟨.refl hnamed, ?_, fun k hk => .inl hk⟩⟩
    exact hnamed.indexed specId s (hspec s hs)

theorem shareBinding_course {specId : Int} {m : String} (hA : Carries A) :
    Course rowLocks since L (Below 2) A (sql (ListedMaps.shareBindingStmt m specId))
      (fun o => o.elim [] fun _ => [⟨⟨.mapListingBind, m⟩, .share⟩]) (Below 4)
        (fun _ => A) := by
  have hstmt : Course rowLocks since L (Below 2) A (sql (ListedMaps.shareBindingStmt m specId))
      (fun o => o.elim [] fun _ => [⟨⟨.mapListingBind, m⟩, .share⟩])
        (SharedUpTo ⟨.mapListingBind, m⟩)
      (fun _ => A) := by
    refine stmt_course (Below.sharedUpTo (by decide)) hA ?_ ?_ ?_
    · intro v db held log e o _ _ hheld he b hb
      simp only [ListedMaps.shareBindingStmt] at he
      split at he
      · cases he
        cases hb
      · split at he
        · cases he
          have hb' : b = ⟨⟨.mapListingBind, m⟩, .share⟩ := by
            simpa [Effect.allLocks] using hb
          rw [hb']
          exact ⟨.inr ⟨rfl, rfl⟩, fun h => (by cases h), .sharedUpTo hheld rfl rfl⟩
        · cases he
          cases hb
    · intro v e o he w hw
      simp only [ListedMaps.shareBindingStmt] at he
      split at he
      · cases he
        cases hw
      · split at he <;> cases he <;> cases hw
    · intro v e o he x hx
      simp only [ListedMaps.shareBindingStmt] at he
      split at he
      · cases he
        cases hx
      · split at he
        · cases he
          exact List.mem_append_left _ (List.mem_append_right _ hx)
        · cases he
          cases hx
  exact hstmt.weaken (fun _ hx => hx) (fun _ hx => hx) (fun _ _ _ hA => hA) (fun _ _ hx => hx)
    (SharedUpTo.below (by decide)) (fun _ _ _ _ hA => hA)

/-- With a current copy, the binding is locked in share mode. -/
def sharedBinding (m : String) (current : Bool) : List RowLock :=
  if current then [⟨⟨.mapListingBind, m⟩, .share⟩] else []

theorem lockMaterializedSpec_course {pg : Pg} {specId : Int} {m : String} :
    Course rowLocks since [] (fun _ => False) (fun db v => v = db)
      (ListedMaps.lockMaterializedSpec pg m specId) (sharedBinding m) (Below 4)
        (fun _ => Tidy) := by
  refine Course.bind (lockSpec_course (by decide) specId) fun source => ?_
  cases source with
  | none => exact .pure (fun x hx => hx) (Below.mono (by decide)) fun db v _ hA => hA.1
  | some source =>
      refine Course.bind ((shareBinding_course Tidy.carries).pre (fun _ hx => hx)
        fun db v _ hA => hA.1) fun o => ?_
      refine .pure (fun x hx => ?_) (fun _ hx => hx) fun db v _ hA => hA
      cases o with
      | none => cases hx
      | some b =>
          simp only [sharedBinding] at hx
          split at hx
          · exact hx
          · cases hx

/-- A row of a map in share mode, under the binding in share mode. -/
theorem shareOnMap_course {s : Sql β} {m : String} (hL : Shares L ⟨.mapListingBind, m⟩)
    (hlevel : k.table.level = 0)
    (hback : ∀ held log db, Shares held ⟨.mapListingBind, m⟩ → Backed held log db .share k)
    (hs : ∀ v e b, s.run v = some (e, b) → e = {} ∨ e = { locks := [⟨k, .share⟩] })
    (hB : ∀ x : RowLock, x.row.table.level = 0 → B x) (hA : Carries A) :
    Course rowLocks since L B A (sql s) (fun _ => L) B (fun _ => A) := by
  refine stmt_course (fun _ hx => hx) hA ?_ ?_ fun _ _ _ _ x hx => List.mem_append_right _ hx
  · intro v db held log e b _ hheld _ he x hx
    rcases hs v e b he with rfl | rfl
    · cases hx
    · have hx' : x = ⟨k, .share⟩ := by simpa [Effect.allLocks] using hx
      rw [hx']
      exact ⟨hB _ hlevel, hback held log db (hL.mono hheld), .guarded hlevel⟩
  · intro v e b he w hw
    rcases hs v e b he with rfl | rfl <;> cases hw

end

end Dd2Server
