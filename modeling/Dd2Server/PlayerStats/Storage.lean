import Dd2Server.PlayerStats.Downgrade
import Mathlib.Algebra.BigOperators.Group.Finset.Basic
import Mathlib.Algebra.BigOperators.Intervals

/-!
# Statistics through storage

In any run of reports and downgrades the row of a user holds the columns of the last request that
was accepted (`kept_run`).  A counter is read back with all its bits, and the seconds where they
fit.  The overview adds the columns up as signed numbers: it is exact while every counter that it
adds stays below `2 ^ 31`.
-/

namespace Dd2Server.PlayerStats

open Boards Machine

/-! ## Runs -/

inductive RequestKind
  | reportStats (isOfficial : Bool)
  | downgradeStats

structure StatsRequest where
  kind : RequestKind
  userId : Uuid
  now : Time
  stats : Stats

def handle (b : Build) (db : StatsDb) (q : StatsRequest) : Answer × StatsDb :=
  match q.kind with
  | .reportStats isOfficial => onReportStats b db q.now q.userId q.stats isOfficial
  | .downgradeStats =>
      let r := downgradeStats db q.now q.userId q.stats
      (some r.1, r.2)

/-- The request was answered without an error, and not dropped for an unofficial context. -/
def accepted (b : Build) (db : StatsDb) (q : StatsRequest) : Bool :=
  (match q.kind with
    | .reportStats isOfficial => isOfficial
    | .downgradeStats => true) &&
  match (handle b db q).1 with
  | some (.ok ()) => true
  | _ => false

def run (b : Build) (db : StatsDb) (qs : List StatsRequest) : StatsDb :=
  qs.foldl (fun db q => (handle b db q).2) db

def StatsDb.empty : StatsDb := ⟨∅, []⟩

/-- The last accepted request of each user, after one more request. -/
def accept (b : Build) (db : StatsDb) (last : Uuid → Option Stats) (q : StatsRequest) :
    Uuid → Option Stats :=
  if accepted b db q then Function.update last q.userId (some q.stats) else last

/-- The last accepted request of each user. -/
def lastAccepted (b : Build) : StatsDb → (Uuid → Option Stats) → List StatsRequest →
    Uuid → Option Stats
  | _, last, [] => last
  | db, last, q :: qs => lastAccepted b (handle b db q).2 (accept b db last q) qs

/-! ## What one request leaves -/

/-- The rows hold these requests. -/
def Kept (stats : StatsTable) (last : Uuid → Option Stats) : Prop :=
  ∀ u, (stats.lookup u).map (·.columns) = (last u).map Stats.columns

theorem Kept.insert {stats : StatsTable} {last : Uuid → Option Stats} (h : Kept stats last)
    {r : StatsRow} {u : Uuid} {s : Stats} (hr : r.columns = s.columns) :
    Kept (stats.insert u r) (Function.update last u (some s)) := by
  intro v
  rcases eq_or_ne v u with rfl | hne
  · rw [AList.lookup_insert, Function.update_self, Option.map_some, Option.map_some, hr]
  · rw [AList.lookup_insert_ne hne, Function.update_of_ne hne]
    exact h v

/-- What an `UPDATE` that succeeds does. -/
theorem updateRow_ok {db db' : StatsDb} {now : Time} {u : Uuid} {s : Stats}
    {guard : StatsRow → Bool} {r' : StatsRow} (h : updateRow db now u s guard = .ok (r', db')) :
    ∃ r, db.stats.lookup u = some r ∧ r.room ≠ 0 ∧ r'.columns = s.columns ∧
      r'.updateCount = r.updateCount + 1 ∧ db' = ⟨db.stats.insert u r', db.archive⟩ := by
  unfold updateRow at h
  split at h
  case h_1 => cases h
  case h_2 r hr =>
    split at h
    case isTrue => cases h
    case isFalse hroom =>
      obtain ⟨rfl, rfl⟩ := Prod.mk.inj (Except.ok.inj h)
      exact ⟨r, (Option.filter_eq_some_iff.1 hr).1, mt (saddOverflow_one_iff r).2 hroom,
        rfl, rfl, rfl⟩

@[simp] theorem archiveRow_stats (db : StatsDb) (u : Uuid) :
    (archiveRow db u).stats = db.stats := by
  unfold archiveRow
  split <;> rfl

/-- A request either leaves everything as it was and is not accepted, or writes the row of its user.
Then it is accepted, unless the build panics over the count of updates. -/
inductive Handled (b : Build) (db : StatsDb) (q : StatsRequest) : Prop
  | refused (hdb : (handle b db q).2 = db) (hno : accepted b db q = false)
    (hanswer : (handle b db q).1 ≠ none)
  | inserted (r : StatsRow) (hr : r.columns = q.stats.columns) (hcount : r.updateCount = 0)
      (hdb : (handle b db q).2.stats = db.stats.insert q.userId r) (hyes : accepted b db q = true)
  | updated (r r' : StatsRow) (hr : db.stats.lookup q.userId = some r) (hroom : r.room ≠ 0)
      (hr' : r'.columns = q.stats.columns) (hcount : r'.updateCount = r.updateCount + 1)
      (hdb : (handle b db q).2.stats = db.stats.insert q.userId r')
      (hyes : accepted b db q = true ∨ (handle b db q).1 = none ∧
        addS r'.updateCount 2 b = none)

theorem handled (b : Build) (db : StatsDb) (q : StatsRequest) : Handled b db q := by
  obtain ⟨kind, u, now, s⟩ := q
  cases kind with
  | downgradeStats =>
      cases hupdate : updateRow db now u s (heightGuard s) with
      | error e =>
          have hhandle : handle b db ⟨.downgradeStats, u, now, s⟩ = (some (.error e), db) := by
            simp only [handle, downgradeStats, hupdate]
          refine .refused ?_ ?_ ?_
          · rw [hhandle]
          · simp only [accepted, hhandle, Bool.and_false]
          · rw [hhandle]
            exact fun he => by cases he
      | ok res =>
          obtain ⟨r', db'⟩ := res
          obtain ⟨r, hr, hroom, hcolumns, hcount, rfl⟩ := updateRow_ok hupdate
          have hhandle : handle b db ⟨.downgradeStats, u, now, s⟩ =
              (some (.ok ()), ⟨db.stats.insert u r', db.archive⟩) := by
            simp only [handle, downgradeStats, hupdate]
          refine .updated r r' hr hroom hcolumns hcount ?_ (.inl ?_)
          · rw [hhandle]
          · simp only [accepted, hhandle, Bool.and_true]
  | reportStats isOfficial =>
      cases isOfficial with
      | false =>
          have hhandle : handle b db ⟨.reportStats false, u, now, s⟩ = (some (.ok ()), db) :=
            rfl
          refine .refused ?_ rfl ?_
          · rw [hhandle]
          · rw [hhandle]
            exact fun he => by cases he
      | true =>
          have hhandle : handle b db ⟨.reportStats true, u, now, s⟩ =
              updateUsersStats b db now u s := rfl
          unfold updateUsersStats at hhandle
          split at hhandle
          case h_1 r' db' hupdate =>
            obtain ⟨r, hr, hroom, hcolumns, hcount, rfl⟩ := updateRow_ok hupdate
            refine .updated r r' hr hroom hcolumns hcount ?_ ?_
            · rw [hhandle]
              split
              · rfl
              · show (if _ then archiveRow _ u else _).stats = _
                split
                · rw [archiveRow_stats]
                · rfl
            · split at hhandle
              case h_1 hpanic =>
                right
                rw [hhandle]
                exact ⟨rfl, hpanic⟩
              case h_2 =>
                left
                simp only [accepted, hhandle, Bool.and_true]
          case h_2 hupdate =>
            refine .inserted ⟨s.columns, 0, now⟩ rfl rfl ?_ ?_
            · rw [hhandle]
              rfl
            · simp only [accepted, hhandle, Bool.and_true]
          case h_3 e hne hupdate =>
            refine .refused ?_ ?_ ?_
            · rw [hhandle]
            · simp only [accepted, hhandle, Bool.and_false]
            · rw [hhandle]
              exact fun he => by cases he

/-- A request that is answered keeps the rows the last accepted ones. -/
theorem kept_step {b : Build} {db : StatsDb} {last : Uuid → Option Stats} {q : StatsRequest}
    (h : Kept db.stats last) (hanswer : (handle b db q).1 ≠ none) :
    Kept (handle b db q).2.stats (accept b db last q) := by
  cases handled b db q with
  | refused hdb hno hans =>
      rw [hdb, accept, hno, if_neg Bool.false_ne_true]
      exact h
  | inserted r hr hcount hdb hyes =>
      rw [accept, hyes, if_pos rfl, hdb]
      exact h.insert hr
  | updated r r' hr hroom hr' hcount hdb hyes =>
      rw [accept, hyes.resolve_right fun hpanic => hanswer hpanic.1, if_pos rfl, hdb]
      exact h.insert hr'

/-! ## Counts of updates -/

/-- No row has been updated as often as `n`. -/
def Counted (n : Nat) (stats : StatsTable) : Prop :=
  ∀ u r, stats.lookup u = some r → 0 ≤ r.updateCount.toInt ∧ r.updateCount.toInt < n

theorem Counted.insert {n : Nat} {stats : StatsTable} {u : Uuid} {r : StatsRow}
    (h : Counted n stats) (hlo : 0 ≤ r.updateCount.toInt) (hhi : r.updateCount.toInt ≤ n) :
    Counted (n + 1) (stats.insert u r) := by
  intro v r' hr'
  rcases eq_or_ne v u with rfl | hne
  · rw [AList.lookup_insert] at hr'
    obtain rfl := Option.some.inj hr'
    omega
  · rw [AList.lookup_insert_ne hne] at hr'
    have hcount := h v r' hr'
    omega

theorem toInt_add_one {r r' : StatsRow} (hroom : r.room ≠ 0)
    (hcount : r'.updateCount = r.updateCount + 1) :
    r'.updateCount.toInt = r.updateCount.toInt + 1 := by
  have h1 : (1 : BitVec 32).toInt = 1 := by decide
  have hlo := r.updateCount.le_toInt
  have hhi := r.updateCount.toInt_lt
  unfold StatsRow.room at hroom
  obtain ⟨-, hadd⟩ := addS_eq (x := r.updateCount) (y := 1) ⟨by omega, by omega⟩
  rw [hcount, hadd, h1]

theorem counted_step {b : Build} {n : Nat} {db : StatsDb} {q : StatsRequest}
    (h : Counted n db.stats) : Counted (n + 1) (handle b db q).2.stats := by
  cases handled b db q with
  | refused hdb hno hans =>
      rw [hdb]
      intro u r hr
      have hcount := h u r hr
      omega
  | inserted r hr hcount hdb hyes =>
      rw [hdb]
      refine h.insert ?_ ?_
      · rw [hcount]
        decide
      · rw [hcount]
        exact Int.natCast_nonneg n
  | updated r r' hr hroom hr' hcount hdb hyes =>
      have hold := h _ r hr
      have hnew := toInt_add_one hroom hcount
      rw [hdb]
      exact h.insert (by omega) (by omega)

/-- A build panics only over a row with a great many updates, and a release build does not. -/
theorem answered {b : Build} {n : Nat} {db : StatsDb} {q : StatsRequest} (h : Counted n db.stats)
    (hb : b = .release ∨ n + 2 < 2 ^ 31) : (handle b db q).1 ≠ none := by
  cases handled b db q with
  | refused hdb hno hans => exact hans
  | inserted r hr hcount hdb hyes =>
      intro hnone
      simp [accepted, hnone] at hyes
  | updated r r' hr hroom hr' hcount hdb hyes =>
      intro hnone
      rcases hyes with hyes | ⟨-, hpanic⟩
      · simp [accepted, hnone] at hyes
      · rcases hb with rfl | hsmall
        · unfold addS at hpanic
          split at hpanic <;> cases hpanic
        · have h2 : (2 : BitVec 32).toInt = 2 := by decide
          have hold := h _ r hr
          have hnew := toInt_add_one hroom hcount
          obtain ⟨hadd, -⟩ := addS_eq (x := r'.updateCount) (y := 2) ⟨by omega, by omega⟩
          rw [hadd] at hpanic
          cases hpanic

/-- Along a run the rows hold the last accepted requests. -/
theorem kept_run {b : Build} {n : Nat} {qs : List StatsRequest}
    (hb : b = .release ∨ n + qs.length + 1 < 2 ^ 31) {db : StatsDb} {last : Uuid → Option Stats}
    (h : Kept db.stats last) (hn : Counted n db.stats) :
    Kept (run b db qs).stats (lastAccepted b db last qs) := by
  induction qs generalizing n db last with
  | nil => exact h
  | cons q qs ih =>
      rw [List.length_cons] at hb
      have hanswer : (handle b db q).1 ≠ none := answered hn (hb.imp_right fun hlt => by omega)
      exact ih (n := n + 1) (hb.imp_right fun hlt => by omega) (kept_step h hanswer)
        (counted_step hn)

/-- Only users with requests have one that was accepted. -/
theorem mem_of_lastAccepted {b : Build} {qs : List StatsRequest} {db : StatsDb}
    {last : Uuid → Option Stats} {u : Uuid} (h : (lastAccepted b db last qs u).isSome) :
    (last u).isSome ∨ u ∈ qs.map (·.userId) := by
  induction qs generalizing db last with
  | nil => exact .inl h
  | cons q qs ih =>
      rw [List.map_cons, List.mem_cons]
      rcases ih h with hlast | hmem
      · unfold accept at hlast
        split at hlast
        case isTrue =>
          rcases eq_or_ne u q.userId with rfl | hne
          · exact .inr (.inl rfl)
          · rw [Function.update_of_ne hne] at hlast
            exact .inl hlast
        case isFalse => exact .inl hlast
      · exact .inr (.inr hmem)

/-! ## Reading back -/

/-- The integer fields. -/
def Stats.integers (s : Stats) : BitVec 64 × List (BitVec 32) :=
  (s.secondsSpentInMap, [s.nbJumps, s.nbFalls, s.nbFloorsFallen, s.lastPbSetTs,
    s.pbFloor, s.nbResets,
    s.ggsTriggered, s.titleGagsTriggered, s.titleGagsSpecialTriggered, s.byeByesTriggered])

/-- A user reads the integer fields of these statistics. -/
def ReadsBack (db : StatsDb) (board : GlobalTables) (asF32 : Height → F32) (userId : Uuid)
    (s : Stats) : Prop :=
  ∃ answer rank, getUserStats db board asF32 userId = .ok (answer, rank) ∧
    answer.integers = s.integers

theorem integers_columns_iff (s : Stats) : s.columns.stats.integers = s.integers ↔ s.Fits := by
  rw [Stats.Fits, ← toI32OrZero_signExtend]
  simp only [Stats.integers, Stats.columns, StatsColumns.stats, Option.map_some, Option.getD_some,
    timestampU32_secs, Prod.mk.injEq, and_true]

theorem readsBack_iff {db : StatsDb} {last : Uuid → Option Stats} {board : GlobalTables}
    {asF32 : Height → F32} {u : Uuid} {s : Stats} (h : Kept db.stats last)
    (hu : last u = some s) : ReadsBack db board asF32 u s ↔ s.Fits := by
  have hrow := h u
  rw [hu, Option.map_some, Option.map_eq_some_iff] at hrow
  obtain ⟨r, hr, hcolumns⟩ := hrow
  rw [← integers_columns_iff, ← hcolumns, ReadsBack]
  unfold getUserStats
  simp only [hr, Except.ok.injEq, Prod.mk.injEq]
  constructor
  · rintro ⟨answer, rank, ⟨rfl, -⟩, hints⟩
    rw [← hints]
    cases board.getUserInLb u <;> rfl
  · intro hints
    refine ⟨_, _, ⟨rfl, rfl⟩, ?_⟩
    rw [← hints]
    cases board.getUserInLb u <;> rfl

/-! ## Sums -/

/-- The counters that the overview adds up. -/
inductive Counter
  | resets
  | jumps
  | falls
  | floorsFallen
  deriving DecidableEq

namespace Counter

def reported : Counter → Stats → BitVec 32
  | resets => Stats.nbResets
  | jumps => Stats.nbJumps
  | falls => Stats.nbFalls
  | floorsFallen => Stats.nbFloorsFallen

def column : Counter → StatsColumns → BitVec 32
  | resets => StatsColumns.nbResets
  | jumps => StatsColumns.nbJumps
  | falls => StatsColumns.nbFalls
  | floorsFallen => StatsColumns.nbFloorsFallen

def shown : Counter → Overview → Option Int
  | resets => Overview.resets
  | jumps => Overview.jumps
  | falls => Overview.falls
  | floorsFallen => Overview.floorsFallen

theorem shown_eq (c : Counter) (db : StatsDb) (board : GlobalTables) :
    c.shown (updateGlobalOverview db board) = sumOf db board c.column := by
  cases c <;> rfl

theorem column_columns (c : Counter) (s : Stats) : c.column s.columns = c.reported s := by
  cases c <;> rfl

end Counter

/-- The user is not shadow-banned. -/
def Unbanned (board : GlobalTables) (u : Uuid) : Prop := (board.db.get ⟨.shadowBans, u⟩).isNone

instance (board : GlobalTables) (u : Uuid) : Decidable (Unbanned board u) :=
  inferInstanceAs (Decidable ((board.db.get ⟨.shadowBans, u⟩).isNone = true))

/-- The sum of a counter over the users who are not shadow-banned, of what was last accepted of
each. -/
def exactSum (board : GlobalTables) (users : Finset Uuid) (last : Uuid → Option Stats)
    (c : Counter) : Nat :=
  ∑ u ∈ users with Unbanned board u, ((last u).map fun s => (c.reported s).toNat).getD 0

section

variable {α : Type} (f : α → BitVec 32)

theorem sum_toInt_le (l : List α) :
    (l.map fun x => (f x).toInt).sum ≤ ((l.map fun x => (f x).toNat).sum : Nat) := by
  induction l with
  | nil => simp
  | cons x l ih =>
      have hx := BitVec.toInt_eq_toNat_cond (f x)
      simp only [List.map_cons, List.sum_cons, Int.natCast_add]
      split at hx <;> omega

/-- Signed and unsigned numbers add up to the same exactly if they are the same. -/
theorem sum_toInt_iff (l : List α) :
    (l.map fun x => (f x).toInt).sum = ((l.map fun x => (f x).toNat).sum : Nat) ↔
      ∀ x ∈ l, (f x).toNat < 2 ^ 31 := by
  induction l with
  | nil => simp
  | cons x l ih =>
      have hle := sum_toInt_le f l
      have hx := BitVec.toInt_eq_toNat_cond (f x)
      have hlt := (f x).isLt
      rw [List.forall_mem_cons, ← ih]
      simp only [List.map_cons, List.sum_cons, Int.natCast_add]
      split at hx <;> omega

end

section

variable {db : StatsDb} {last : Uuid → Option Stats} {board : GlobalTables}
    {users : Finset Uuid} {c : Counter}

/-- The rows that are added up are those of the users who count. -/
theorem mem_countedRows {e : StatsEntry} :
    e ∈ countedRows db board ↔ db.stats.lookup e.1 = some e.2 ∧ Unbanned board e.1 := by
  rw [countedRows, List.mem_filter]
  exact and_congr_left' AList.mem_lookup_iff.symm

theorem countedRows_nodup (db : StatsDb) (board : GlobalTables) :
    ((countedRows db board).map (·.1)).Nodup := by
  have hkeys : (db.stats.entries.map Sigma.fst).Nodup := db.stats.nodupKeys
  exact hkeys.sublist (List.filter_sublist.map Sigma.fst)

theorem exactSum_eq (h : Kept db.stats last) (husers : ∀ u, (last u).isSome → u ∈ users) :
    exactSum board users last c =
      ((countedRows db board).map fun e => (c.column e.2.columns).toNat).sum := by
  let amount : Uuid → Nat := fun u => ((last u).map fun s => (c.reported s).toNat).getD 0
  have hrow : ∀ e ∈ countedRows db board, (c.column e.2.columns).toNat = amount e.1 := by
    intro e he
    have hu := h e.1
    rw [(mem_countedRows.1 he).1, Option.map_some] at hu
    obtain ⟨s, hs, hcolumns⟩ := Option.map_eq_some_iff.1 hu.symm
    show _ = ((last e.1).map fun s => (c.reported s).toNat).getD 0
    rw [hs, ← hcolumns, c.column_columns]
    rfl
  have hsub : ((countedRows db board).map (·.1)).toFinset ⊆ users.filter (Unbanned board) := by
    intro u hu
    obtain ⟨e, he, rfl⟩ := List.mem_map.1 (List.mem_toFinset.1 hu)
    obtain ⟨hlookup, hunbanned⟩ := mem_countedRows.1 he
    have hlast := h e.1
    rw [hlookup, Option.map_some] at hlast
    obtain ⟨s, hs, -⟩ := Option.map_eq_some_iff.1 hlast.symm
    exact Finset.mem_filter.2 ⟨husers _ (by rw [hs]; rfl), hunbanned⟩
  have hrest : ∀ u ∈ users.filter (Unbanned board),
      u ∉ ((countedRows db board).map (·.1)).toFinset →
      amount u = 0 := by
    intro u hu hno
    have hlookup : db.stats.lookup u = none := by
      by_contra hne
      obtain ⟨r, hr⟩ := Option.ne_none_iff_exists'.1 hne
      refine hno (List.mem_toFinset.2
        (List.mem_map.2 ⟨⟨u, r⟩, mem_countedRows.2 ⟨hr, ?_⟩, rfl⟩))
      exact (Finset.mem_filter.1 hu).2
    have hlast := h u
    rw [hlookup, Option.map_none] at hlast
    show ((last u).map fun s => (c.reported s).toNat).getD 0 = 0
    rw [Option.map_eq_none_iff.1 hlast.symm]
    rfl
  calc exactSum board users last c = ∑ u ∈ users.filter (Unbanned board), amount u := rfl
    _ = ∑ u ∈ ((countedRows db board).map (·.1)).toFinset, amount u :=
      (Finset.sum_subset hsub hrest).symm
    _ = (((countedRows db board).map (·.1)).map amount).sum :=
      List.sum_toFinset _ (countedRows_nodup db board)
    _ = ((countedRows db board).map fun e => (c.column e.2.columns).toNat).sum := by
        rw [List.map_map]
        exact congrArg List.sum (List.map_congr_left fun e he => (hrow e he).symm)

/-- A sum of the overview is exact where there is something to add and every counter added fits an
`INTEGER`. -/
theorem shown_iff (h : Kept db.stats last) (husers : ∀ u, (last u).isSome → u ∈ users) :
    c.shown (updateGlobalOverview db board) = some (exactSum board users last c : Int) ↔
      (∃ u s, last u = some s ∧ Unbanned board u) ∧
        ∀ u s, last u = some s → Unbanned board u → (c.reported s).toNat < 2 ^ 31 := by
  have hmem : ∀ u, Unbanned board u → ∀ s, last u = some s →
      ∃ r : StatsRow, (⟨u, r⟩ : StatsEntry) ∈ countedRows db board ∧
        r.columns = s.columns := by
    intro u hu s hs
    have hrow := h u
    rw [hs, Option.map_some] at hrow
    obtain ⟨r, hr, hcolumns⟩ := Option.map_eq_some_iff.1 hrow
    exact ⟨r, mem_countedRows.2 ⟨hr, hu⟩, hcolumns⟩
  have hlast : ∀ e ∈ countedRows db board, Unbanned board e.1 ∧ ∃ s, last e.1 = some s ∧
      s.columns = e.2.columns := by
    intro e he
    obtain ⟨hlookup, hunbanned⟩ := mem_countedRows.1 he
    have hrow := h e.1
    rw [hlookup, Option.map_some] at hrow
    exact ⟨hunbanned, Option.map_eq_some_iff.1 hrow.symm⟩
  have hsmall : (∀ e ∈ countedRows db board, (c.column e.2.columns).toNat < 2 ^ 31) ↔
      ∀ u s, last u = some s → Unbanned board u → (c.reported s).toNat < 2 ^ 31 := by
    constructor
    · intro hall u s hs hu
      obtain ⟨r, hr, hcolumns⟩ := hmem u hu s hs
      rw [← c.column_columns, ← hcolumns]
      exact hall _ hr
    · intro hall e he
      obtain ⟨hu, s, hs, hcolumns⟩ := hlast e he
      rw [← hcolumns, c.column_columns]
      exact hall e.1 s hs hu
  rw [c.shown_eq, exactSum_eq h husers, ← hsmall,
    ← sum_toInt_iff fun e : StatsEntry => c.column e.2.columns, sumOf]
  split
  case h_1 hnil =>
    refine iff_of_false nofun ?_
    rintro ⟨⟨u, s, hs, hu⟩, -⟩
    obtain ⟨r, hr, -⟩ := hmem u hu s hs
    rw [hnil] at hr
    cases hr
  case h_2 rows hne =>
    have hsome : ∃ u s, last u = some s ∧ Unbanned board u := by
      obtain ⟨e, he⟩ := List.exists_mem_of_ne_nil _ hne
      obtain ⟨hu, s, hs, -⟩ := hlast e he
      exact ⟨e.1, s, hs, hu⟩
    rw [Option.some.injEq, and_iff_right hsome]

end

/-- What survives storage, in any run from empty tables whose updates can be counted: the integers
of the last accepted request are read back exactly if its seconds fit, and a sum of the overview is
exact exactly if there is something to add and no counter added has reached `2 ^ 31`. -/
theorem stats_storage_iff (b : Build) (qs : List StatsRequest) (board : GlobalTables)
    (asF32 : Height → F32) (hb : b = .release ∨ qs.length + 1 < 2 ^ 31) :
    (∀ u s, lastAccepted b .empty (fun _ => none) qs u = some s →
      (ReadsBack (run b .empty qs) board asF32 u s ↔ s.Fits)) ∧
    ∀ c : Counter, c.shown (updateGlobalOverview (run b .empty qs) board) =
        some (exactSum board (qs.map (·.userId)).toFinset
          (lastAccepted b .empty (fun _ => none) qs) c : Int) ↔
      (∃ u s, lastAccepted b .empty (fun _ => none) qs u = some s ∧ Unbanned board u) ∧
        ∀ u s, lastAccepted b .empty (fun _ => none) qs u = some s → Unbanned board u →
          (c.reported s).toNat < 2 ^ 31 := by
  have hkept : Kept (run b .empty qs).stats (lastAccepted b .empty (fun _ => none) qs) :=
    kept_run (n := 0) (by simpa using hb) (fun u => rfl) fun u r hr => by cases hr
  refine ⟨fun u s hs => readsBack_iff hkept hs, fun c => shown_iff hkept fun u hu => ?_⟩
  rw [List.mem_toFinset]
  exact (mem_of_lastAccepted hu).resolve_left Bool.false_ne_true

def noBoard : GlobalTables := ⟨ReadCommitted.Store.empty, fun _ => none, fun _ => none⟩

/-- A report of so many jumps and seconds. -/
def reportOf (userId : Uuid) (jumps : BitVec 32) (seconds : BitVec 64) : StatsRequest :=
  ⟨.reportStats true, userId, 0,
    { statsAt ⟨0⟩ with nbJumps := jumps, secondsSpentInMap := seconds }⟩

/-- Two players report, the first reports again, and the second takes three of its jumps back. -/
def reportsOfTwo : List StatsRequest :=
  [reportOf 1 7 60, reportOf 2 5 30, reportOf 1 9 80,
    { reportOf 2 2 30 with kind := .downgradeStats }]

theorem stats_storage_iff_two :
    ReadsBack (run .debug .empty reportsOfTwo) noBoard (fun _ => ⟨0⟩) 1
      (reportOf 1 9 80).stats ∧
    ReadsBack (run .debug .empty reportsOfTwo) noBoard (fun _ => ⟨0⟩) 2
      (reportOf 2 2 30).stats ∧
    (updateGlobalOverview (run .debug .empty reportsOfTwo) noBoard).jumps = some 11 := by
  obtain ⟨hread, hsum⟩ := stats_storage_iff .debug reportsOfTwo noBoard (fun _ => ⟨0⟩)
    (.inr (by decide))
  have hruns : lastAccepted .debug .empty (fun _ => none) reportsOfTwo =
      Function.update (Function.update (Function.update (Function.update (fun _ => none)
        1 (some (reportOf 1 7 60).stats)) 2 (some (reportOf 2 5 30).stats))
        1 (some (reportOf 1 9 80).stats)) 2 (some (reportOf 2 2 30).stats) := rfl
  have hone : lastAccepted .debug .empty (fun _ => none) reportsOfTwo 1 =
      some (reportOf 1 9 80).stats := by
    rw [hruns, Function.update_of_ne (by decide), Function.update_self]
  have htwo : lastAccepted .debug .empty (fun _ => none) reportsOfTwo 2 =
      some (reportOf 2 2 30).stats := by
    rw [hruns, Function.update_self]
  have hothers : ∀ u, u ≠ 1 → u ≠ 2 →
      lastAccepted .debug .empty (fun _ => none) reportsOfTwo u = none := by
    intro u h1 h2
    rw [hruns, Function.update_of_ne h2, Function.update_of_ne h1, Function.update_of_ne h2,
      Function.update_of_ne h1]
  refine ⟨(hread 1 _ hone).2 (by decide), (hread 2 _ htwo).2 (by decide), ?_⟩
  refine ((hsum .jumps).2 ⟨⟨1, _, hone, rfl⟩, fun u s hu _ => ?_⟩).trans ?_
  · by_cases h1 : u = 1
    · rw [h1, hone] at hu
      obtain rfl := Option.some.inj hu
      decide
    · by_cases h2 : u = 2
      · rw [h2, htwo] at hu
        obtain rfl := Option.some.inj hu
        decide
      · rw [hothers u h1 h2] at hu
        cases hu
  · rfl

/-- The seconds `2 ^ 31` are read as zero, and as many jumps are subtracted from the overview. -/
theorem big_stats_wrong :
    lastAccepted .release .empty (fun _ => none) [reportOf 1 2147483648 2147483648] 1 =
      some (reportOf 1 2147483648 2147483648).stats ∧
    ¬ReadsBack (run .release .empty [reportOf 1 2147483648 2147483648]) noBoard
      (fun _ => ⟨0⟩) 1 (reportOf 1 2147483648 2147483648).stats ∧
    (updateGlobalOverview (run .release .empty [reportOf 1 2147483648 2147483648]) noBoard).jumps =
      some (-2147483648) := by
  have hkept : Kept (run .release .empty [reportOf 1 2147483648 2147483648]).stats
      (lastAccepted .release .empty (fun _ => none) [reportOf 1 2147483648 2147483648]) :=
    kept_run (n := 0) (.inl rfl) (fun u => rfl) fun u r hr => by cases hr
  have hone : lastAccepted .release .empty (fun _ => none) [reportOf 1 2147483648 2147483648] 1 =
      some (reportOf 1 2147483648 2147483648).stats := rfl
  refine ⟨hone, ?_, by decide⟩
  rw [readsBack_iff hkept hone]
  decide

end Dd2Server.PlayerStats
