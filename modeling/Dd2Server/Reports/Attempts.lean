import Dd2Server.Reports.Rules
import Mathlib.Order.Bounds.Basic

/-!
# The aggregates of a minigame and the log of its attempts

The log is a table of its own, and the row of the player's best is counted up beside it.  A report
holds that row from the moment it counts, and a commit logs nothing for a player whose row another
task holds: so what the row counts is what is logged, plus the report's own attempt.
-/

namespace Dd2Server

open ReadCommitted

namespace Minigames

/-! ## Best values -/

/-- The best of some values: the least, or the greatest. -/
def Best {α : Type} [LinearOrder α] (lower : Bool) (values : Set α) (best : α) : Prop :=
  if lower then IsLeast values best else IsGreatest values best

section

variable {α : Type} [LinearOrder α] {lower : Bool} {values : Set α} {x best : α}

theorem Best.single : Best lower {x} x := by
  cases lower with
  | true => exact isLeast_singleton
  | false => exact isGreatest_singleton

/-- A new value that is better takes over. -/
theorem Best.improve (h : Best lower values best) (hx : if lower then x < best else best < x) :
    Best lower (insert x values) x := by
  cases lower with
  | true =>
      have hmin := IsLeast.insert x h
      rwa [min_eq_left (le_of_lt hx)] at hmin
  | false =>
      have hmax := IsGreatest.insert x h
      rwa [max_eq_left (le_of_lt hx)] at hmax

/-- A new value that is no better changes nothing. -/
theorem Best.stand (h : Best lower values best) (hx : ¬if lower then x < best else best < x) :
    Best lower (insert x values) best := by
  cases lower with
  | true =>
      have hmin := IsLeast.insert x h
      rwa [min_eq_right (not_lt.1 hx)] at hmin
  | false =>
      have hmax := IsGreatest.insert x h
      rwa [max_eq_right (not_lt.1 hx)] at hmax

end

/-! ## The log and its aggregates -/

/-- The logged attempts of a player at a minigame. -/
def attempts (db : Db) (u : Uuid) (key : String) : List MinigameAttemptRow :=
  ((db.rows .minigameAttempt).map Prod.snd).filter fun a => a.userId = u ∧ a.minigameKey = key

def finishes (log : List MinigameAttemptRow) : List MinigameAttemptRow :=
  log.filter fun a => a.status = "finish"

/-- The elapsed values of some attempts. -/
def values (as : List MinigameAttemptRow) : Set Int := {ms | ∃ a ∈ as, a.elapsedMs = ms}

/-- The row counts `n` attempts and these finishes, and has the best of them. -/
structure Aggregates (lower : Bool) (n : Nat) (finished : List MinigameAttemptRow)
    (r : MinigamePbRow) : Prop where
  attempts : r.attemptCount = n
  finishes : r.finishCount = finished.length
  score : 0 < r.finishCount → Best lower (values finished) r.score

/-- A player without a row has no attempts, and a row has the aggregates of the log. -/
def Tallies (lower : Bool) (log : List MinigameAttemptRow) : Option MinigamePbRow → Prop
  | none => log = []
  | some r => Aggregates lower log.length (finishes log) r

section

variable {lower : Bool} {n : Nat} {finished : List MinigameAttemptRow} {a : MinigameAttemptRow}
  {r : MinigamePbRow} {now : Time}

theorem values_nil : values [] = ∅ := by simp [values]

theorem values_cons : values (a :: finished) = insert a.elapsedMs (values finished) := by
  ext ms
  simp [values, eq_comm]

theorem Aggregates.new {mapUid slug : String} :
    Aggregates lower 1 []
      { mapUid, slug, score := 0, finishCount := 0, attemptCount := 1, lastPlayed := now,
        updatedAt := now } where
  attempts := rfl
  finishes := rfl
  score h := absurd h (Int.lt_irrefl 0)

theorem Aggregates.count (h : Aggregates lower n finished r) :
    Aggregates lower (n + 1) finished
      { r with attemptCount := r.attemptCount + 1, lastPlayed := now } where
  attempts := by
    show r.attemptCount + 1 = _
    rw [h.attempts]
    rfl
  finishes := h.finishes
  score := h.score

/-- A finish that improves the score is the best there is. -/
theorem Aggregates.improve (h : Aggregates lower n finished r)
    (hi : improves a.elapsedMs lower r = true) :
    Aggregates lower n (a :: finished)
      { r with score := a.elapsedMs, finishCount := r.finishCount + 1, updatedAt := now } where
  attempts := h.attempts
  finishes := by
    show r.finishCount + 1 = _
    rw [h.finishes]
    rfl
  score _ := by
    show Best lower (values (a :: finished)) a.elapsedMs
    rw [values_cons]
    cases finished with
    | nil =>
        rw [values_nil, insert_empty_eq]
        exact .single
    | cons b finished =>
        have hcount := h.finishes
        rw [List.length_cons] at hcount
        have hpos : 0 < r.finishCount := by omega
        refine (h.score hpos).improve ?_
        have hzero : r.finishCount ≠ 0 := by omega
        cases lower <;> simpa [improves, hzero] using hi

/-- A finish that does not is only counted. -/
theorem Aggregates.stand (h : Aggregates lower n finished r)
    (hi : improves a.elapsedMs lower r = false) :
    Aggregates lower n (a :: finished) { r with finishCount := r.finishCount + 1 } where
  attempts := h.attempts
  finishes := by
    show r.finishCount + 1 = _
    rw [h.finishes]
    rfl
  score _ := by
    show Best lower (values (a :: finished)) r.score
    rw [values_cons]
    have hzero : r.finishCount ≠ 0 := by
      intro hz
      simp [improves, hz] at hi
    have hcount := h.finishes
    have hpos : 0 < r.finishCount := by omega
    refine (h.score hpos).stand ?_
    cases lower <;> simpa [improves, hzero] using hi

end

/-! ## The log in a database -/

section

variable {db : Db} {u u' : Uuid} {key key' : String} {id : Int} {a : MinigameAttemptRow}

theorem attempts_put_of_ne {w : DbWrite} (hw : w.row.table ≠ .minigameAttempt) :
    attempts (db.put w) u key = attempts db u key := by
  unfold attempts
  rw [Store.rows_put_of_ne hw]

theorem attempts_put_own (hid : db.get ⟨.minigameAttempt, id⟩ = none) (hu : a.userId = u)
    (hk : a.minigameKey = key) :
    attempts (db.put ⟨⟨.minigameAttempt, id⟩, some a⟩) u key = a :: attempts db u key := by
  unfold attempts
  rw [Store.rows_put_new a hid, List.map_cons, List.filter_cons_of_pos (by simp [hu, hk])]

theorem attempts_put_other (hid : db.get ⟨.minigameAttempt, id⟩ = none)
    (h : ¬(a.userId = u ∧ a.minigameKey = key)) :
    attempts (db.put ⟨⟨.minigameAttempt, id⟩, some a⟩) u key = attempts db u key := by
  unfold attempts
  rw [Store.rows_put_new a hid, List.map_cons, List.filter_cons_of_neg (by simpa using h)]

end

/-! ## The protocol of the reports -/

/-- The minigame has this kind, wherever a report looks at it. -/
def KindStays (key : String) (lower : Bool) : Tag → Db → Prop
  | .named fn, v => fn = "report_attempt: game" →
      ∀ p ∈ v.rows .minigameOnMap, p.2.minigameKey = key →
        (p.2.kind = "Sprint" ↔ lower = true)
  | _, _ => True

/-- The aggregates of the minigame are those of the log, and nobody logs an attempt of a player
whose row another task holds. -/
def attemptProtocol (lower : Bool) (key : String) : Protocol Table.Key Table.Row where
  Inv db := ∀ u, Tallies lower (attempts db u key) (db.get ⟨.minigamePb, (u, key)⟩)
  stay _ _ := True
  keep k pre post := ∀ u, k = ⟨.minigamePb, (u, key)⟩ →
    attempts post u key = attempts pre u key
  stay_refl _ := trivial
  stay_trans _ _ := trivial
  keep_refl _ _ _ _ := rfl
  keep_trans h h' u hk := (h' u hk).trans (h u hk)

instance (key : String) (lower : Bool) : ∀ tag v, Decidable (KindStays key lower tag v)
  | .named _, _ => inferInstanceAs (Decidable (_ → _))
  | .upsertSpec _ _ _, _ => .isTrue trivial
  | .lockBinding _, _ => .isTrue trivial
  | .resolveComment _ _, _ => .isTrue trivial
  | .deleteCatalog _ _ _, _ => .isTrue trivial

/-- The tables of the log and of the aggregates. -/
def OfAttempts (t : Table) : Prop := t = .minigameAttempt ∨ t = .minigamePb

theorem attemptProtocol_ignores (lower : Bool) (key : String) :
    (attemptProtocol lower key).Ignores fun t => ¬OfAttempts t := by
  have hlog : ∀ {db db' : Db}, (∀ t, ¬¬OfAttempts t → db' t = db t) → ∀ u,
      attempts db' u key = attempts db u key := by
    intro db db' h u
    unfold attempts Store.rows
    rw [h .minigameAttempt (not_not_intro (.inl rfl))]
  refine ⟨fun {db db'} h hinv u => ?_, fun _ => trivial, fun k h u _ => hlog h u⟩
  have hpb : db'.get ⟨.minigamePb, (u, key)⟩ = db.get ⟨.minigamePb, (u, key)⟩ := by
    unfold Store.get
    rw [h .minigamePb (not_not_intro (.inr rfl))]
  show Tallies lower (attempts db' u key) (db'.get ⟨.minigamePb, (u, key)⟩)
  rw [hlog h u, hpb]
  exact hinv u

abbrev attemptSetting (lower : Bool) (key : String) :
    Setting Table.Key Table.Row Tag Ask.Ans Act.Out :=
  Reports.setting (attemptProtocol lower key) (KindStays key lower) { commit := fun _ _ _ => True }

/-! ## One report -/

/-- The attempt is logged, ahead of the committed rows. -/
structure Logged (id : Int) (a : MinigameAttemptRow) (db v : Db) : Prop where
  free : db.get ⟨.minigameAttempt, id⟩ = none
  view : v = db.put ⟨⟨.minigameAttempt, id⟩, some a⟩

/-- The attempt is logged and counted, and it is counted as a finish or not yet. -/
structure Working (lower : Bool) (key : String) (id : Int) (a : MinigameAttemptRow) (finish : Bool)
    (r : MinigamePbRow) (db v : Db) : Prop where
  free : db.get ⟨.minigameAttempt, id⟩ = none
  view : v = (db.put ⟨⟨.minigameAttempt, id⟩, some a⟩).put
    ⟨⟨.minigamePb, (a.userId, a.minigameKey)⟩, some r⟩
  right : a.minigameKey = key →
    Aggregates lower ((attempts db a.userId key).length + 1)
      (finishes (if finish then a :: attempts db a.userId key else attempts db a.userId key)) r

section

variable {lower lowerIsBetter : Bool} {key mapUid slug : String} {id : Int} {a : MinigameAttemptRow}
  {r : MinigamePbRow} {now : Time} {L : List (Lock Table.Key)} {since : Log} {db v : Db}
  {e : DbEffect} {b : Unit}

theorem logAttempt_triple :
    Triple (attemptSetting lower key) since Reports.anyError L (fun db v => v = db)
      (sql (insertStmt (.named "report_attempt: attempt") .minigameAttempt id a)) (fun _ => L)
      (fun _ => Logged id a) := by
  refine Reports.stmt_triple fun ws db e b _ hA _ he =>
    ⟨fun x hx => List.mem_append_right _ hx, ?_⟩
  intro db' hr hA'
  obtain ⟨hins, rfl⟩ := insertRow_eq_some.1 (insertStmt_run.1 he)
  have hfree : db.get ⟨.minigameAttempt, id⟩ = none := by
    rw [← hA]
    exact free_of_insertable hins
  have hsame : db'.get ⟨.minigameAttempt, id⟩ = db.get ⟨.minigameAttempt, id⟩ :=
    hr.row _ (List.mem_append_left _ List.mem_cons_self)
      (Mode.ne_keyShare (Write.lock_exclusive _ _))
  refine ⟨hsame.trans hfree, ?_⟩
  rw [hA']
  rfl

/-- What the count writes. -/
theorem countAttempt_writes (lower : Bool) {u : Uuid} {k : String}
    (he : (countAttemptStmt u k mapUid slug now).run v = some (e, b)) :
    ∃ r, e.writes = [⟨⟨.minigamePb, (u, k)⟩, some r⟩] ∧
      ∀ log, Tallies lower log (v.get ⟨.minigamePb, (u, k)⟩) →
        Aggregates lower (log.length + 1) (finishes log) r := by
  obtain ⟨e', he', hpair⟩ := Option.map_eq_some_iff.1 he
  cases hpair
  refine ⟨_, upsertRow_row he', fun log h => ?_⟩
  cases hold : v.get ⟨.minigamePb, (u, k)⟩ with
  | none =>
      rw [hold] at h
      obtain rfl : log = [] := h
      exact .new
  | some old =>
      rw [hold] at h
      exact Aggregates.count h

/-- The row of the player's best is held. -/
def HoldsPb (a : MinigameAttemptRow) (L : List (Lock Table.Key)) : Prop :=
  ∃ x ∈ L, x.row = ⟨.minigamePb, (a.userId, a.minigameKey)⟩ ∧ x.mode.exclusive = true

/-- The count locks the row, and from then on the log of the player stands. -/
theorem countAttempt_ends {f : Unit → Query DbError Unit}
    (h : ∀ since L r, HoldsPb a L →
      Ends (attemptSetting lower key) since Reports.anyError L (Working lower key id a false r)
        (f ()) Reports.anyResult) :
    Ends (attemptSetting lower key) since Reports.anyError L (Logged id a)
      (sql (countAttemptStmt a.userId a.minigameKey mapUid slug now) >>= f) Reports.anyResult := by
  refine Ends.stmt (fun _ _ _ _ _ _ _ _ => trivial) (fun _ _ _ _ _ _ _ _ _ _ => trivial) ?_
  intro log ws db e b _ hinv hA _ he
  obtain ⟨r, hwrites, hright⟩ := countAttempt_writes lower he
  let w : DbWrite := ⟨⟨.minigamePb, (a.userId, a.minigameKey)⟩, some r⟩
  have hlocked : Write.lock (Store.view ws db) w ∈ e.allLocks (Store.view ws db) := by
    refine List.mem_append_left _ ?_
    rw [hwrites]
    exact List.mem_cons_self
  have hholds : HoldsPb a [Write.lock (Store.view ws db) w] :=
    ⟨_, List.mem_cons_self, rfl, Write.lock_exclusive _ _⟩
  refine ⟨_, Working lower key id a false r, ?_, fun db' hr hA' =>
    ⟨hA'.free, ?_, fun hk => ?_⟩, h _ _ r hholds⟩
  · intro x hx
    rw [List.mem_singleton.1 hx]
    exact List.mem_append_left _ hlocked
  · rw [hwrites, hA'.view]
    rfl
  · have hlog : attempts db' a.userId key = attempts db a.userId key :=
      hr.keep _ (List.mem_append_left _ hlocked) (Write.lock_exclusive _ _) a.userId
        (by rw [← hk]; rfl)
    have hpb : (Store.view ws db).get ⟨.minigamePb, (a.userId, a.minigameKey)⟩ =
        db.get ⟨.minigamePb, (a.userId, key)⟩ := by
      rw [hA.view, Store.get_put_of_ne (by simp), hk]
    rw [hlog]
    refine hright _ ?_
    rw [hpb]
    exact hinv a.userId

/-- What the improvement of the score does, on a view that has the row. -/
theorem improveScore_run {ms : Int} {improved : Bool} {u : Uuid} {k : String}
    (he : (improveScoreStmt u k ms lowerIsBetter now).run v = some (e, improved))
    (hv : v.get ⟨.minigamePb, (u, k)⟩ = some r) :
    improves ms lowerIsBetter r = improved ∧
      e.writes = if improved then [⟨⟨.minigamePb, (u, k)⟩, some { r with
        score := ms, finishCount := r.finishCount + 1, updatedAt := now }⟩] else [] := by
  simp only [improveScoreStmt, hv] at he
  split at he
  case isTrue hi =>
    split at he <;> cases he
    exact ⟨hi, rfl⟩
  case isFalse hi =>
    cases he
    exact ⟨Bool.eq_false_iff.2 hi, rfl⟩

theorem Working.get (h : Working lower key id a finish r db v) :
    v.get ⟨.minigamePb, (a.userId, a.minigameKey)⟩ = some r := by
  rw [h.view, Store.get_put_self]

theorem improveScore_triple (hlow : a.minigameKey = key → lowerIsBetter = lower)
    (hfinish : a.status = "finish") :
    Triple (attemptSetting lower key) since Reports.anyError L (Working lower key id a false r)
      (sql (improveScoreStmt a.userId a.minigameKey a.elapsedMs lowerIsBetter now)) (fun _ => L)
      (fun improved db v =>
        if improved then ∃ r', Working lower key id a true r' db v
        else Working lower key id a false r db v ∧
        improves a.elapsedMs lowerIsBetter r = false) := by
  refine Reports.stmt_triple fun ws db e improved _ hA _ he =>
    ⟨fun x hx => List.mem_append_right _ hx, ?_⟩
  intro db' _ hA'
  obtain ⟨hi, hwrites⟩ := improveScore_run he hA.get
  rw [hwrites]
  cases improved with
  | false => exact ⟨hA', hi⟩
  | true =>
      refine ⟨{ r with score := a.elapsedMs, finishCount := r.finishCount + 1, updatedAt := now },
        hA'.free, ?_, fun hk => ?_⟩
      · rw [if_pos rfl, Store.view_cons, Store.view_nil, hA'.view, Store.put_put_self]
      · rw [hlow hk] at hi
        show Aggregates lower _ (finishes (a :: _)) _
        rw [finishes, List.filter_cons_of_pos (by simpa using hfinish)]
        exact (hA'.right hk).improve hi

theorem countFinish_triple (hlow : a.minigameKey = key → lowerIsBetter = lower)
    (hfinish : a.status = "finish") :
    Triple (attemptSetting lower key) since Reports.anyError L
      (fun db v => Working lower key id a false r db v ∧
        improves a.elapsedMs lowerIsBetter r = false)
      (sql (countFinishStmt a.userId a.minigameKey)) (fun _ => L)
      (fun _ db v => ∃ r', Working lower key id a true r' db v) := by
  refine Reports.stmt_triple fun ws db e _ _ hA _ he =>
    ⟨fun x hx => List.mem_append_right _ hx, ?_⟩
  rintro db' - ⟨hA', hi⟩
  simp only [countFinishStmt, hA.1.get] at he
  split at he <;> cases he
  refine ⟨{ r with finishCount := r.finishCount + 1 }, hA'.free, ?_, fun hk => ?_⟩
  · rw [Store.view_cons, Store.view_nil, hA'.view, Store.put_put_self]
  · rw [hlow hk] at hi
    show Aggregates lower _ (finishes (a :: _)) _
    rw [finishes, List.filter_cons_of_pos (by simpa using hfinish)]
    exact (hA'.right hk).stand hi

/-- An attempt that did not finish is counted all the same. -/
theorem Working.unfinished (h : Working lower key id a false r db v) (ha : a.status ≠ "finish") :
    Working lower key id a true r db v := by
  refine ⟨h.free, h.view, fun hk => ?_⟩
  show Aggregates lower _ (finishes (a :: _)) r
  rw [finishes, List.filter_cons_of_neg (by simpa using ha)]
  exact h.right hk

/-- The commit of a report: its own attempt comes to the log and to the row, and no other. -/
theorem Working.guarantee (hinv : (attemptProtocol lower key).Inv db)
    (h : Working lower key id a true r db v) (hL : HoldsPb a L) :
    Guarantee (attemptProtocol lower key) L db v := by
  have hlog : ∀ u, attempts v u key =
      attempts (db.put ⟨⟨.minigameAttempt, id⟩, some a⟩) u key := by
    intro u
    rw [h.view, attempts_put_of_ne (by simp)]
  have hother : ∀ u, ¬(a.userId = u ∧ a.minigameKey = key) →
      attempts v u key = attempts db u key := by
    intro u hne
    rw [hlog, attempts_put_other h.free hne]
  refine ⟨fun u => ?_, trivial, fun k => ?_⟩
  · by_cases hown : a.userId = u ∧ a.minigameKey = key
    · obtain ⟨rfl, hk⟩ := hown
      rw [hlog, attempts_put_own h.free rfl hk, ← hk, h.get]
      have hright := h.right hk
      rw [hk]
      exact hright
    · have hpb : v.get ⟨.minigamePb, (u, key)⟩ = db.get ⟨.minigamePb, (u, key)⟩ := by
        rw [h.view, Store.get_put_of_ne, Store.get_put_of_ne (by simp)]
        intro he
        cases he
        exact hown ⟨rfl, rfl⟩
      rw [hother u hown, hpb]
      exact hinv u
  · by_cases hk : k = ⟨.minigamePb, (a.userId, a.minigameKey)⟩
    · obtain ⟨x, hx, hrow, hex⟩ := hL
      exact .inl ⟨x, hx, hrow.trans hk.symm, Mode.ne_keyShare hex⟩
    · refine .inr fun u hu => hother u ?_
      rintro ⟨rfl, rfl⟩
      exact hk hu

theorem commitAttempt_ends (hL : HoldsPb a L) :
    Ends (attemptSetting lower key) since Reports.anyError L
      (fun db v => ∃ r, Working lower key id a true r db v) commitQ Reports.anyResult := by
  refine Reports.commitQ_ends ?_ fun _ _ _ _ _ => trivial
  rintro db v hinv ⟨r, h⟩
  exact h.guarantee hinv hL

theorem shareGame_triple :
    Triple (attemptSetting lower key) since Reports.anyError L (fun db v => v = db)
      (sql (shareGameStmt mapUid slug)) (fun _ => L)
      (fun game db v => v = db ∧ ∀ g, game = some g → g.minigameKey = key →
        g.lowerIsBetter = lower) := by
  refine Reports.stmt_triple fun ws db e game _ _ hC he =>
    ⟨fun x hx => List.mem_append_right _ hx, ?_⟩
  intro db' _ hA'
  rw [looks_shareGame _ e game he]
  refine ⟨hA', fun g hg hk => ?_⟩
  subst hg
  simp only [shareGameStmt] at he
  split at he
  · cases he
  case h_2 row hrow =>
    cases he
    have hkind := hC rfl (_, row) (Store.mem_rows.2 hrow) hk
    show decide (row.kind = "Sprint") = lower
    cases lower with
    | true => exact decide_eq_true (hkind.2 rfl)
    | false => exact decide_eq_false fun hs => Bool.noConfusion (hkind.1 hs)

theorem reportAttempt_pool {pg : Pg} {u : Uuid} {specId ms : Int} {status : String} :
    Pool (attemptSetting lower key) Reports.anyError (fun _ _ => True)
      (reportAttempt pg u mapUid slug specId ms status) Reports.anyResult := by
  unfold reportAttempt
  split
  · exact .pure fun _ _ _ _ => trivial
  refine Reports.report_pool fun since => Ends.ask fun _ now _ => ?_
  refine Ends.bind Reports.lockMaterializedSpec_triple fun current => ?_
  split
  · exact Reports.giveUp_ends
  refine Ends.bind shareGame_triple fun game => ?_
  cases game with
  | none => exact Reports.giveUp_ends
  | some game =>
      let a (id : Int) : MinigameAttemptRow :=
        { userId := u, minigameKey := game.minigameKey, mapUid, slug, elapsedMs := ms, status,
          createdAt := now }
      refine Reports.fact_ends (fun db v hA => hA.2 game rfl) fun hlow => ?_
      refine Ends.ask fun _ id _ => ?_
      refine Ends.bind ((logAttempt_triple (a := a id)).pre fun _ _ _ hA => hA.1) fun _ => ?_
      refine countAttempt_ends (a := a id) fun since L r hL => ?_
      dsimp only
      split
      case isTrue hfinish =>
        refine Ends.bind (improveScore_triple (a := a id) hlow hfinish) fun improved => ?_
        cases improved with
        | true => exact commitAttempt_ends hL
        | false =>
            exact Ends.bind (countFinish_triple (a := a id) hlow hfinish)
              fun _ => commitAttempt_ends hL
      case isFalse hfinish =>
        exact (commitAttempt_ends hL).pre fun db v _ hA => ⟨r, hA.unfinished hfinish⟩

end

/-! ## Every interleaving -/

section

variable {pg : Pg} {lower : Bool} {key : String} {db : Db} {s : CallSystem}

theorem call_safe (j : WayfinderJob) (hdb : (attemptProtocol lower key).Inv db) :
    Safe (attemptProtocol lower key) (KindStays key lower) { commit := fun _ _ _ => True }
      (fun _ _ _ => True) (j.call pg) {} db := by
  have haside : (∀ t ∈ j.tables, ¬OfAttempts t) →
      Safe (attemptProtocol lower key) (KindStays key lower) { commit := fun _ _ _ => True }
        (fun _ _ _ => True) (j.call pg) {} db := by
    intro hj
    exact (j.call_confined hj).safe (attemptProtocol_ignores lower key) (fun _ _ _ _ _ => trivial)
      (fun _ _ => trivial) .nil
  cases j with
  | minigameAttempt u m slug id ms status => exact Reports.toCall_safe hdb reportAttempt_pool
  | _ => exact haside (by simp [WayfinderJob.tables, OfAttempts])

/-- Whatever the reports and the other transactions do, the aggregates of a minigame are those of
the log, as long as its kind stays; and a report that fails or is dropped changed neither. -/
theorem minigame_aggregates (pg : Pg) (key : String) (lower : Bool) {db : Db} {s : CallSystem}
    (hdb : ∀ u, Tallies lower (attempts db u key) (db.get ⟨.minigamePb, (u, key)⟩))
    (h : Reach shared (WayfinderJob.call pg) (KindStays key lower) (CallSystem.on db) s) :
    (∀ u, Tallies lower (attempts s.db u key) (s.db.get ⟨.minigamePb, (u, key)⟩)) ∧
    Reports.Atomic pg s := by
  have hinv : (attemptProtocol lower key).Inv (CallSystem.on db).db := hdb
  exact ⟨(h.sound (fun j _ => call_safe j) hinv rfl).inv, Reports.atomic rfl h⟩

end

end Minigames

/-! ## Two first finishes at once -/

namespace Sample

/-- A map with one minigame and one collectible, and one player. -/
def playable : Db :=
  Store.view [
    ⟨⟨.collectibleOnMap, (mapUid, "Coin-1")⟩, some
      { collectibleKey := "coin", name := "Coin", pickup := "coin", collectOnUnlock := false,
        hasZone := true,
        gatedBy := none, unlockScore := none, specUser := 1, nameId := "climb" }⟩,
    ⟨⟨.minigameOnMap, (mapUid, "Sprint-1")⟩, some
      { minigameKey := "sprint", kind := "Sprint", name := "Sprint", specUser := 1,
        nameId := "climb" }⟩,
    ⟨⟨.mapListingBind, mapUid⟩, some
      { specId := 7, verified := some (1, 0), materialized := some (0, pg.md5 text) }⟩,
    ⟨⟨.specs, 7⟩, some
      { userId := 1, nameId := "climb", spec := text, hitCounter := 0,
        createdAt := 0, updatedAt := 0, listingThreshold := 5 }⟩,
    ⟨⟨.users, 1⟩, some { displayName := "Author", lastLoginTs := 0 }⟩] .empty

def attemptAnswers (id : Int) : (q : Ask) → q.Ans
  | .nextAttemptId => id
  | q => answers 8 none q

end Sample

namespace Minigames

/-- The second report counts before the first does. -/
theorem minigame_aggregates_race :
    ∃ s, Reach shared (WayfinderJob.call Sample.pg) (KindStays "sprint" true)
        (CallSystem.on Sample.playable) s ∧
      ((s.db.get ⟨.minigamePb, ((1 : Uuid), "sprint")⟩).map fun r =>
        (r.attemptCount, r.finishCount, r.score)) = some (2, 2, 900) ∧
      Tallies true (attempts s.db 1 "sprint")
        (s.db.get ⟨.minigamePb, ((1 : Uuid), "sprint")⟩) := by
  have hnone : ∀ u, Tallies true (attempts Sample.playable u "sprint")
      (Sample.playable.get ⟨.minigamePb, (u, "sprint")⟩) := fun _ => rfl
  have hrun : ∃ s, ReachBy shared (WayfinderJob.call Sample.pg)
      (fun s m => s.Admits (KindStays "sprint" true) m)
      (CallSystem.on Sample.playable) s ∧
      ((s.db.get ⟨.minigamePb, ((1 : Uuid), "sprint")⟩).map fun r =>
        (r.attemptCount, r.finishCount, r.score)) =
        some (2, 2, 900) :=
    ReachBy.scriptedBy [
      .start (.minigameAttempt 1 Sample.mapUid "Sprint-1" 7 1000 "finish"),
        .go 0 6 (Sample.attemptAnswers 1),
      .start (.minigameAttempt 1 Sample.mapUid "Sprint-1" 7 900 "finish"),
        .go 1 20 (Sample.attemptAnswers 2),
      .go 0 20 (Sample.attemptAnswers 1)] (by decide +kernel)
  obtain ⟨s, hs, hrow⟩ := hrun
  have hreach := hs.reach fun _ _ h => h
  exact ⟨s, hreach, hrow, (minigame_aggregates Sample.pg "sprint" true hnone hreach).1 1⟩

end Minigames

end Dd2Server
