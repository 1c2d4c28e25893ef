import Dd2Server.Boards.Rules
import Dd2Server.ReadCommitted.Scores

/-!
# The best height on a custom map

Any number of `report_map_curr_pos` calls on one database.  A standing never falls.  It ends as the
maximum when no `INSERT` comes late: when each finds no row of its user on its map, or one that is
at least as high.  A late one is dropped by `ON CONFLICT DO NOTHING`, and its height with it.
-/

namespace Dd2Server.Boards

open ReadCommitted

/-- The heights of the standings. -/
def standings (db : Db) : Scores (Uuid × String) Height :=
  fun k => (db.get ⟨.mapLeaderboard, k⟩).map StandingRow.height

theorem standings_eq_some {db : Db} {k : Uuid × String} {h : Height} :
    standings db k = some h ↔ ∃ r, db.get ⟨.mapLeaderboard, k⟩ = some r ∧ r.height = h :=
  Option.map_eq_some_iff

theorem standings_congr {db db' : Db}
    (h : ∀ k, db'.get ⟨.mapLeaderboard, k⟩ = db.get ⟨.mapLeaderboard, k⟩) :
    standings db' = standings db := funext fun k => congrArg (Option.map _) (h k)

/-- A row was put where no higher one was. -/
theorem standings_put {db : Db} {k : Uuid × String} {r : StandingRow}
    (h : ∀ old, db.get ⟨.mapLeaderboard, k⟩ = some old → old.height ≤ r.height) :
    Scores.Put k r.height (standings db)
      (standings (db.put ⟨⟨.mapLeaderboard, k⟩, some r⟩)) where
  below y hy := by
    obtain ⟨old, hold, rfl⟩ := standings_eq_some.1 hy
    exact h old hold
  new := standings_eq_some.2 ⟨r, Store.get_put_self db ⟨.mapLeaderboard, k⟩ (some r), rfl⟩
  others k' hne := congrArg (Option.map _) (Store.get_put_of_ne (by simpa using Ne.symm hne))

/-! ## The calls -/

/-- A call of `report_map_curr_pos`. -/
structure Report where
  userId : Uuid
  mapUid : String
  pos : Pos
  raceTime : Int
  deriving DecidableEq

namespace Report

def body (hash : String → Int) (j : Report) : Server (Except ApiError Unit) :=
  (reportMapCurrPos hash j.userId j.mapUid j.pos j.raceTime).run

/-- The calls and the standings they report; a height above the maximum is discarded. -/
def scoring : Scoring Table.Key Table.Row Report (Uuid × String) Height where
  read := standings
  key j := (j.userId, j.mapUid)
  score j := j.pos.y
  accepts j := j.pos.y ≤ maxHeight

/-- What is known of a call that returned; `strict` says that no `INSERT` came late. -/
def Ended (strict : Prop) (j : Report) : Except ApiError Unit → Log → Db → Prop
  | .ok _ => fun _ db => strict → scoring.accepts j →
      Scores.AtLeast (scoring.key j) (scoring.score j) (standings db)
  | .error _ => fun log _ => Commits scoring.Same log

end Report

/-- The calls leave each other nothing but that standings do not fall. -/
def standingsProtocol : Protocol Table.Key Table.Row where
  Inv _ := True
  stay a b := Scores.Raised (standings a) (standings b)
  keep _ _ _ := True
  stay_refl db := .refl (standings db)
  stay_trans h h' := h.trans h'
  keep_refl _ _ := trivial
  keep_trans _ _ := trivial

/-- An `INSERT` of a standing that is not late. -/
def NotLate : Tag → Db → Prop
  | .insertStanding userId mapUid height, v =>
      ∀ r, v.get ⟨.mapLeaderboard, (userId, mapUid)⟩ = some r → height ≤ r.height
  | _, _ => True

instance : ∀ tag v, Decidable (NotLate tag v)
  | .insertStanding userId mapUid height, v =>
      decidable_of_iff
        (((v.get ⟨.mapLeaderboard, (userId, mapUid)⟩).all fun r =>
          decide (height ≤ r.height)) = true)
        ((Option.all_eq_true _ _).trans (by simp [NotLate]))
  | .named _, _ | .countPublic .., _ | .raisePb .., _ | .insertPb _, _ | .archivePb .., _ =>
      .isTrue trivial

section

variable {C : Tag → Db → Prop} {G : Promise Table.Key Table.Row Tag Ask.Ans Act.Out}
  {strict : Prop} {since : Log} {E : SqlxError → Known}

/-- What a transaction of a call does to the standings. -/
def Step (k : Uuid × String) (h : Height) (pre post : Db) : Prop :=
  Report.scoring.Same pre post ∨ Scores.Put k h (standings pre) (standings post)

theorem Step.refl {k : Uuid × String} {h : Height} (db : Db) : Step k h db db := .inl rfl

theorem Step.guarantee {k : Uuid × String} {h : Height} {ls : List (Lock Table.Key)} {db v : Db}
    (hs : Step k h db v) : Guarantee standingsProtocol ls db v where
  inv := trivial
  stay := by
    rcases hs with he | hput
    · exact .of_eq he
    · exact hput.raised
  keep _ := .inr trivial

/-- What the statements of a call know of its log when they fail. -/
def Unwritten : SqlxError → Known := fun _ log _ => Commits Report.scoring.Same log

theorem unwritten_trouble (h : Commits Report.scoring.Same since) : OnTrouble since Unwritten := by
  intro log db ev hq hev
  refine (Quiet.not_committed hq h).cons fun pre post he => ?_
  subst he
  exact False.elim hev

theorem onBoards_put {k : Uuid × String} {h : Height} :
    OnBoards fun db v => Scores.Put k h (standings db) (standings v) := by
  intro db v v' hput hsame
  rw [standings_congr hsame]
  exact hput

/-! ## The statements -/

theorem upsertMapCurrHeight_triple {mapUid : String} {userId : Uuid} {pos : Pos} {raceTime : Int}
    {now : Time} (hE : OnTrouble since E) :
    Triple (setting standingsProtocol C G) since E [] (fun db v => v = db)
      (sql (upsertMapCurrHeightStmt mapUid userId pos raceTime now)) (fun _ => [])
      (fun _ => Report.scoring.Same) := by
  refine sql_triple hE fun ws db e a _ _ _ hrun => ?_
  cases hrun
  refine ⟨by simp, fun db' _ hA' => ?_⟩
  rw [hA']
  exact standings_congr fun k => Store.get_put_of_ne (by simp)

/-- The locks and the state after the `UPDATE`. -/
theorem raiseStanding_triple {mapUid : String} {userId : Uuid} {pos : Pos} {raceTime : Int}
    {now : Time} (hE : OnTrouble since E) :
    Triple (setting standingsProtocol C G) since E [] (fun db v => v = db)
      (sql (raiseStandingStmt mapUid userId pos raceTime now))
      (fun raised => if raised then [⟨⟨.mapLeaderboard, (userId, mapUid)⟩, .noKeyUpdate⟩]
        else [])
      (fun raised db v =>
        if raised then Scores.Put (userId, mapUid) pos.y (standings db) (standings v)
        else v = db) := by
  refine sql_triple hE fun ws db e a _ hA _ hrun => ?_
  rw [hA] at hrun ⊢
  simp only [raiseStandingStmt] at hrun
  split at hrun
  case h_1 =>
    cases hrun
    exact ⟨by simp, fun db' _ hA' => hA'⟩
  case h_2 old hold =>
    split at hrun
    case isFalse =>
      cases hrun
      exact ⟨by simp, fun db' _ hA' => hA'⟩
    case isTrue hlt =>
      cases hrun
      refine ⟨by simp [Effect.allLocks, Write.lock, hold], fun db' hr hA' => ?_⟩
      have hrow : db'.get ⟨.mapLeaderboard, (userId, mapUid)⟩ = some old := by
        refine (hr.row ⟨⟨.mapLeaderboard, (userId, mapUid)⟩, .noKeyUpdate⟩ ?_
          (by simp)).trans hold
        simp [Effect.allLocks, Write.lock, hold]
      rw [hA', if_pos rfl]
      refine standings_put (k := (userId, mapUid)) (r := ⟨pos.y, pos, raceTime, now, _⟩) ?_
      intro r hr
      obtain rfl : old = r := Option.some.inj (hrow.symm.trans hr)
      exact hlt.le

/-- The state after the `INSERT`: the row is new, or there was one. -/
theorem insertStanding_triple {n : NewStanding} {now : Time} (hE : OnTrouble since E)
    (hC : strict → ∀ v, C (.insertStanding n.userId n.mapUid n.height) v →
      NotLate (.insertStanding n.userId n.mapUid n.height) v) :
    Triple (setting standingsProtocol C G) since E [] (fun db v => v = db)
      (sql (n.stmt true now))
      (fun inserted => if inserted then [⟨n.key, .update⟩] else [])
      (fun inserted db v =>
        if inserted then Scores.Put (n.userId, n.mapUid) n.height (standings db) (standings v)
        else v = db ∧ (strict →
          Scores.AtLeast (n.userId, n.mapUid) n.height (standings db))) := by
  refine sql_triple hE fun ws db e a _ hA hadm hrun => ?_
  rw [hA] at hadm hrun ⊢
  simp only [NewStanding.stmt] at hrun
  split at hrun
  case h_1 old hold =>
    cases hrun
    refine ⟨by simp, fun db' hr hA' => ⟨hA', fun hstrict => ?_⟩⟩
    have hat : Scores.AtLeast (n.userId, n.mapUid) n.height (standings db) :=
      ⟨old.height, standings_eq_some.2 ⟨old, hold, rfl⟩, hC hstrict db hadm old hold⟩
    exact hat.raised hr.stay
  case h_2 hnone =>
    split at hrun
    case isFalse => cases hrun
    case isTrue =>
      cases hrun
      refine ⟨by simp [Effect.allLocks, Write.lock, hnone], fun db' hr hA' => ?_⟩
      have hrow : db'.get n.key = none := by
        refine (hr.row ⟨n.key, .update⟩ ?_ (by simp)).trans hnone
        simp [Effect.allLocks, Write.lock, hnone]
      rw [hA', if_pos rfl]
      refine standings_put (k := (n.userId, n.mapUid)) (r := n.row now) ?_
      intro r hr
      exact absurd (hrow.symm.trans hr) (by simp)

/-! ## A call -/

/-- The end of a transaction of a call. -/
theorem commit_ends {α : Type} {a : α} {k : Uuid × String} {h : Height}
    {L : List (Lock Table.Key)} {A : Assertion Table.Key Table.Row} {B : α → Known}
    (hE : OnTrouble since E) (hG : ∀ log pre post, Step k h pre post → G log pre post)
    (hA : ∀ db v, A db v → Step k h db v)
    (hB : ∀ log db v, Quiet Plain since log → A db v →
      ∀ db', Scores.Raised (standings v) (standings db') → B a (.committed db v :: log) db') :
    Ends (setting standingsProtocol C G) since E L A (do commitQ; return a) B := by
  refine Ends.commit ?_ ?_ ?_ ?_
  · exact fun log db hq _ => hE log db .failed hq trivial
  · exact fun db v _ h => (hA db v h).guarantee
  · exact fun log db v _ _ h => hG log db v (hA db v h)
  · exact fun log db v hq _ h db' hr => hB log db v hq h db' hr.stay

theorem upsertMapCurrHeight_pool {k : Uuid × String} {h : Height} {mapUid : String} {userId : Uuid}
    {pos : Pos} {raceTime : Int} (hG : ∀ log pre post, Step k h pre post → G log pre post) :
    Pool (setting standingsProtocol C G) Unwritten (fun log _ => Commits Report.scoring.Same log)
      (upsertMapCurrHeight mapUid userId pos raceTime)
      (fun _ log _ => Commits Report.scoring.Same log) := by
  rw [upsertMapCurrHeight]
  split
  case isTrue => exact Pool.throw fun _ _ _ h => h
  case isFalse =>
  refine autocommit_pool fun now since hc => ?_
  have hE : OnTrouble since Unwritten := unwritten_trouble hc
  refine Ends.bind (upsertMapCurrHeight_triple hE) fun _ =>
    commit_ends hE hG (fun _ _ hs => .inl hs) ?_
  intro log db v hq hs db' _
  refine (Quiet.not_committed hq hc).cons fun pre post he => ?_
  cases he
  exact hs

theorem raiseStanding_pool {mapUid : String} {userId : Uuid} {pos : Pos} {raceTime : Int}
    (hG : ∀ log pre post, Step (userId, mapUid) pos.y pre post → G log pre post) :
    Pool (setting standingsProtocol C G) Unwritten (fun log _ => Commits Report.scoring.Same log)
      (autocommit fun now => sql (raiseStandingStmt mapUid userId pos raceTime now))
      (fun raised log db =>
        if raised then Scores.AtLeast (userId, mapUid) pos.y (standings db)
        else Commits Report.scoring.Same log) := by
  refine autocommit_pool fun now since hc => ?_
  have hE : OnTrouble since Unwritten := unwritten_trouble hc
  refine Ends.bind (raiseStanding_triple hE) fun raised => ?_
  cases raised with
  | true =>
      refine commit_ends hE hG (fun _ _ hput => .inr hput) ?_
      exact fun log db v _ hput db' hr => (Scores.Put.atLeast hput).raised hr
  | false =>
      refine commit_ends hE hG ?_ ?_
      · rintro db v rfl
        exact .refl v
      · rintro log db v hq rfl db' -
        refine (Quiet.not_committed hq hc).cons fun pre post he => ?_
        cases he
        rfl

theorem insertStanding_pool (strict : Prop) {hash : String → Int} {n : NewStanding}
    (hC : strict → ∀ v, C (.insertStanding n.userId n.mapUid n.height) v →
      NotLate (.insertStanding n.userId n.mapUid n.height) v)
    (hG : ∀ log pre post, Step (n.userId, n.mapUid) n.height pre post → G log pre post) :
    Pool (setting standingsProtocol C G) Unwritten (fun log _ => Commits Report.scoring.Same log)
      (autocommit fun now => n.insert hash true now)
      (fun _ _ db => strict → Scores.AtLeast (n.userId, n.mapUid) n.height (standings db)) := by
  refine autocommit_pool fun now since hc => ?_
  have hE : OnTrouble since Unwritten := unwritten_trouble hc
  have hins : Triple (setting standingsProtocol C G) since Unwritten [] (fun db v => v = db)
      (n.insert hash true now) (fun _ => [])
      (fun _ db v => Scores.Put (n.userId, n.mapUid) n.height (standings db) (standings v) ∨
        v = db ∧ (strict → Scores.AtLeast (n.userId, n.mapUid) n.height (standings db))) := by
    rw [NewStanding.insert]
    refine Triple.bind (insertStanding_triple hE hC) fun inserted => ?_
    cases inserted with
    | false => exact Triple.pure (fun db v _ hA => .inr hA) fun _ hx => hx
    | true =>
        refine (mapLeaderboardMaybeList_triple hE onBoards_put).weaken (fun _ hx => hx)
          (fun db v _ hA => hA) ?_ fun _ db v _ hA => .inl hA
        exact fun _ x hx => (nomatch hx)
  refine Ends.bind hins fun _ => commit_ends hE hG ?_ ?_
  · rintro db v (hput | ⟨rfl, -⟩)
    · exact .inr hput
    · exact .refl v
  · rintro log db v - (hput | ⟨rfl, hle⟩) db' hr hstrict
    · exact hput.atLeast.raised hr
    · exact (hle hstrict).raised hr

theorem Report.safe (strict : Prop) {hash : String → Int}
    (hC : strict → ∀ tag v, C tag v → NotLate tag v) (j : Report) (db : Db) :
    Safe standingsProtocol C { commit := fun _ => scoring.Promised j }
      (fun r l db => j.Ended strict r l.log db) (j.body hash) {} db := by
  have hpool : Pool (setting standingsProtocol C { commit := fun _ => scoring.Promised j })
      (fun _ log _ => Commits scoring.Same log) (fun log _ => Commits scoring.Same log)
      (reportMapCurrPos hash j.userId j.mapUid j.pos j.raceTime)
      (fun _ _ db => strict → scoring.accepts j →
        Scores.AtLeast (scoring.key j) (scoring.score j) (standings db)) := by
    rw [reportMapCurrPos]
    split
    case isTrue hhigh => exact Pool.pure fun _ _ _ _ _ hacc => absurd hhigh (not_lt.2 hacc)
    case isFalse hhigh =>
    split
    case isTrue => exact Pool.throw fun _ _ _ h => h
    case isFalse =>
    have hG : ∀ (log : Log) pre post, Step (scoring.key j) (scoring.score j) pre post →
        scoring.Promised j pre post := by
      rintro log pre post (hsame | hput)
      · exact .inl hsame
      · exact .inr ⟨not_lt.1 hhigh, hput⟩
    refine Pool.bind _ (Pool.adapt (upsertMapCurrHeight_pool hG)) fun _ => ?_
    refine Pool.bind _ (Pool.adapt (raiseStanding_pool hG)) fun raised => ?_
    cases raised with
    | true => exact Pool.pure fun _ _ _ hle _ _ => hle
    | false =>
        refine Pool.adapt ((insertStanding_pool
          (G := { commit := fun _ => scoring.Promised j }) strict
          (n := ⟨j.mapUid, j.userId, j.pos, j.pos.y, j.raceTime⟩)
          (fun hs v hv => hC hs _ v hv) hG).weaken (fun _ _ _ h => h) (fun _ _ _ h => h) ?_)
        exact fun _ _ _ hle hs _ => hle hs
  refine (hpool {} db trivial rfl rfl fun _ _ => .nil).post ?_
  rintro r l db ⟨-, -, hres⟩
  have hnow := hres db (.refl trivial)
  cases r <;> exact hnow

end

/-! ## All runs -/

/-- Any number of calls on a database. -/
abbrev Reports := Sys Table.Key Table.Row Tag Ask.Ans Act.Out Unit Report (Except ApiError Unit)

namespace Reports

/-- A database, and no call. -/
def on (db : Db) : Reports where
  db := db
  mem := ()

/-- The states of all interleavings. -/
abbrev Run (hash : String → Int) (s s' : Reports) : Prop :=
  Reach shared (Report.body hash) (fun _ _ => True) s s'

/-- The states of the interleavings in which no call is dropped. -/
abbrev Completing (hash : String → Int) (s s' : Reports) : Prop :=
  ReachBy shared (Report.body hash) (fun _ m => m.Keeps) s s'

/-- The same where no `INSERT` comes late. -/
abbrev Punctual (hash : String → Int) (s s' : Reports) : Prop :=
  ReachBy shared (Report.body hash) (fun s m => m.Keeps ∧ s.Admits NotLate m) s s'

/-- All calls have returned. -/
def Returned (s : Reports) : Prop := ∀ t ∈ s.tasks, ∃ r, t.prog = .ret r

/-- The initial height of a user on a map, and the heights that were accepted. -/
def heights (db₀ : Db) (s : Reports) (userId : Uuid) (mapUid : String) : Set Height :=
  Report.scoring.reported db₀ s (fun t => t.prog = .ret (.ok ())) (userId, mapUid)

/-- The stored heights are the maxima. -/
def StoreMaximum (db₀ : Db) (s : Reports) : Prop :=
  ∀ userId mapUid h,
    standings s.db (userId, mapUid) = some h ↔ IsGreatest (s.heights db₀ userId mapUid) h

variable {hash : String → Int} {db₀ : Db} {s s' : Reports}

theorem never_decreases (h : Run hash (on db₀) s) (h' : Run hash s s') :
    Scores.Raised (standings s.db) (standings s'.db) :=
  (h'.stays (fun j db _ => j.safe False (fun hf => hf.elim) db)
    (h.sound (fun j db _ => j.safe False (fun hf => hf.elim) db) trivial rfl)).2

theorem storeMaximum (h : Punctual hash (on db₀) s) (hret : s.Returned) :
    s.StoreMaximum db₀ := by
  intro userId mapUid x
  have hbody : ∀ (j : Report) db, standingsProtocol.Inv db → Safe standingsProtocol NotLate
      { commit := fun _ => Report.scoring.Promised j } (fun r l db => j.Ended True r l.log db)
        (j.body hash) {} db :=
    fun j db _ => j.safe True (fun _ _ _ hv => hv) db
  have hsound := (h.reach fun _ _ hm => hm.2).sound hbody trivial rfl
  refine Scoring.isGreatest (fun _ _ hm => hm) hbody trivial rfl (fun _ _ hr => hr) h ?_ ?_
  · intro t ht hr hacc
    exact hsound.ended ht hr trivial hacc
  · intro t ht hc
    obtain ⟨r, hr⟩ := hret t ht
    cases r with
    | ok a => exact hr
    | error e => exact absurd (hsound.ended ht hr) hc

/-- Heights never fall.  Where no `INSERT` comes late they end as the maxima. -/
theorem best_heights (hash : String → Int) (db₀ : Db) :
    (∀ s s', Run hash (on db₀) s → Run hash s s' →
      Scores.Raised (standings s.db) (standings s'.db)) ∧
    ∀ s, Punctual hash (on db₀) s → s.Returned → s.StoreMaximum db₀ :=
  ⟨fun _ _ h h' => never_decreases h h', fun _ h hret => storeMaximum h hret⟩

/-! ## Two first reports -/

/-- A report of one user on one map. -/
def report (y : Height) : Report := ⟨1, "Map________________________", ⟨0, y, 0⟩, 0⟩

/-- Moves of a call: the clock of a transaction is read, and statements run. -/
def clock (i : Nat) : Move Ask.Ans Report := .run i (.answer fun | .now => (0 : Int))

def steps (i n : Nat) : List (Move Ask.Ans Report) := List.replicate n (.run i .proceed)

/-- The current height and the `UPDATE`. -/
def updates (i : Nat) : List (Move Ask.Ans Report) := clock i :: steps i 3 ++ clock i :: steps i 3

/-- The second call comes after the first. -/
theorem best_heights_sample :
    ∃ s, Punctual (fun _ => 0) (on .empty) s ∧ s.StoreMaximum .empty ∧
      standings s.db (1, "Map________________________") = some 20 := by
  let moves := .start (report 10) :: updates 0 ++ clock 0 :: steps 0 8 ++
    .start (report 20) :: updates 1
  obtain ⟨s, hs, htasks, hstored⟩ : ∃ s, Punctual (fun _ => 0) (on .empty) s ∧
      s.tasks.map (fun t => (t.job, t.prog.result)) =
        [(report 10, .ok ()), (report 20, .ok ())].map (fun p => (p.1, some p.2)) ∧
      standings s.db (1, "Map________________________") = some 20 :=
    ReachBy.played moves (by decide +kernel)
  exact ⟨s, hs, (best_heights (fun _ => 0) .empty).2 s hs (Sys.returned_of_map htasks), hstored⟩

/-- Both calls find nothing to update; the lower height is inserted first. -/
theorem late_insert_drops :
    ¬∀ hash db₀ s, Completing hash (on db₀) s → s.Returned → s.StoreMaximum db₀ := by
  intro hall
  let moves := .start (report 10) :: .start (report 20) :: updates 0 ++ updates 1 ++
    clock 0 :: steps 0 8 ++ clock 1 :: steps 1 3
  obtain ⟨s, hs, htasks, hstored⟩ : ∃ s, Completing (fun _ => 0) (on .empty) s ∧
      s.tasks.map (fun t => (t.job, t.prog.result)) =
        [(report 10, .ok ()), (report 20, .ok ())].map (fun p => (p.1, some p.2)) ∧
      standings s.db (1, "Map________________________") = some 10 :=
    ReachBy.played moves (by decide +kernel)
  have hgreatest := (hall _ _ s hs (Sys.returned_of_map htasks) 1 _ 10).1 hstored
  -- the second call returned, and its height is above what is stored
  obtain ⟨t, ht, he⟩ :=
    List.mem_map.1 (htasks ▸ List.mem_cons_of_mem _ (List.mem_singleton_self _) :
    (report 20, some (.ok ())) ∈ s.tasks.map fun t => (t.job, t.prog.result))
  obtain ⟨hjob, hr⟩ := Prod.mk.inj he
  have hin : (20 : Height) ∈ s.heights .empty 1 "Map________________________" := by
    refine .inr ⟨t, ht, by rw [hjob]; rfl, ?_, Prog.result_eq_some.1 hr, by rw [hjob]; rfl⟩
    rw [hjob]
    exact (by decide +kernel : (20 : Height) ≤ maxHeight)
  exact absurd (hgreatest.2 hin) (by decide +kernel)

end Reports

end Dd2Server.Boards
