import Dd2Server.Queries.ListedMaps

/-!
# Minigame attempts

An attempt is logged and counted in one transaction.  The row of the player's best is made by the
count, and a finish improves it or only counts as a finish.
-/

namespace Dd2Server

open ReadCommitted

/-- `INSERT … ON CONFLICT DO UPDATE` of one row: `f` of the row that is there, else `r`. -/
def upsertRow (t : Table) (k : t.Key) (r : t.Row) (f : t.Row → t.Row) (v : Db) :
    Option DbEffect :=
  match v.get ⟨t, k⟩ with
  | none => insertRow t k r v
  | some old =>
      if t.check k r && t.check k (f old) then some { writes := [⟨⟨t, k⟩, some (f old)⟩] }
        else none

/-- An upsert inserts its row, or writes what it makes of the row that is there. -/
theorem upsertRow_cases {t : Table} {k : t.Key} {r : t.Row} {f : t.Row → t.Row}
    {v : Db} {e : DbEffect} (h : upsertRow t k r f v = some e) :
    v.get ⟨t, k⟩ = none ∧ insertRow t k r v = some e ∨
      ∃ old, v.get ⟨t, k⟩ = some old ∧
      e = { writes := [⟨⟨t, k⟩, some (f old)⟩] } := by
  simp only [upsertRow] at h
  split at h
  case h_1 hnone => exact .inl ⟨hnone, h⟩
  case h_2 old hold =>
    simp only [Option.ite_none_right_eq_some, Option.some.injEq] at h
    exact .inr ⟨old, hold, h.2.symm⟩

theorem upsertRow_row {t : Table} {k : t.Key} {r : t.Row} {f : t.Row → t.Row}
    {v : Db} {e : DbEffect} (h : upsertRow t k r f v = some e) :
    e.writes = [⟨⟨t, k⟩, some ((v.get ⟨t, k⟩).elim r f)⟩] := by
  rcases upsertRow_cases h with ⟨hnone, hins⟩ | ⟨old, hold, rfl⟩
  · obtain ⟨-, rfl⟩ := insertRow_eq_some.1 hins
    rw [hnone]
    rfl
  · rw [hold]
    rfl

namespace Minigames

/-- What an attempt looks at. -/
structure OnMapRow where
  minigameKey : String
  lowerIsBetter : Bool

/-- A minigame of a map, locked `FOR SHARE` if it is there. -/
def shareGameStmt (mapUid slug : String) : Sql (Option OnMapRow) where
  tag := .named "report_attempt: game"
  run v :=
    match v.get ⟨.minigameOnMap, (mapUid, slug)⟩ with
    | none => some ({}, none)
    | some r =>
        some ({ locks := [⟨⟨.minigameOnMap, (mapUid, slug)⟩, .share⟩] },
          some { minigameKey := r.minigameKey, lowerIsBetter := r.kind = "Sprint" })

/-- `INSERT INTO minigame_pb … ON CONFLICT (user_id, minigame_key) DO UPDATE`. -/
def countAttemptStmt (userId : Uuid) (key mapUid slug : String) (now : Time) : Sql Unit where
  tag := .named "report_attempt: count"
  run v :=
    (upsertRow .minigamePb (userId, key)
      { mapUid, slug, score := 0, finishCount := 0, attemptCount := 1, lastPlayed := now,
        updatedAt := now }
      (fun r => { r with attemptCount := r.attemptCount + 1, lastPlayed := now }) v).map
        fun e => (e, ())

/-- The score is the first of a finish, or better than the one that stands. -/
def improves (elapsedMs : Int) (lowerIsBetter : Bool) (r : MinigamePbRow) : Bool :=
  r.finishCount = 0 || (lowerIsBetter && elapsedMs < r.score) ||
    (!lowerIsBetter && r.score < elapsedMs)

/-- `UPDATE minigame_pb SET` the score where it improves, with whether it did. -/
def improveScoreStmt (userId : Uuid) (key : String) (elapsedMs : Int)
    (lowerIsBetter : Bool) (now : Time) : Sql Bool where
  tag := .named "report_attempt: score"
  run v :=
    match v.get ⟨.minigamePb, (userId, key)⟩ with
    | none => some ({}, false)
    | some r =>
        if improves elapsedMs lowerIsBetter r then
          let r' :=
            { r with score := elapsedMs, finishCount := r.finishCount + 1, updatedAt := now }
          if Table.minigamePb.check (userId, key) r' then
            some ({ writes := [⟨⟨.minigamePb, (userId, key)⟩, some r'⟩] }, true)
          else none
        else some ({}, false)

/-- `UPDATE minigame_pb SET finish_count = finish_count + 1`. -/
def countFinishStmt (userId : Uuid) (key : String) : Sql Unit where
  tag := .named "report_attempt: finish"
  run v :=
    match v.get ⟨.minigamePb, (userId, key)⟩ with
    | none => some ({}, ())
    | some r =>
        let r' := { r with finishCount := r.finishCount + 1 }
        if Table.minigamePb.check (userId, key) r' then
          some ({ writes := [⟨⟨.minigamePb, (userId, key)⟩, some r'⟩] }, ())
        else none

def reportAttempt (pg : Pg) (userId : Uuid) (mapUid slug : String) (specId elapsedMs : Int)
    (status : String) : Query DbError Unit :=
  if status = "finish" ∧ elapsedMs < 0 then return ()
  else
    transaction do
      let now ← askQ Ask.now
      let current ← ListedMaps.lockMaterializedSpec pg mapUid specId
      if !current then return ()
      else
        let game ← sql (shareGameStmt mapUid slug)
        match game with
        | none => return ()
        | some game =>
            let id ← askQ Ask.nextAttemptId
            sql (insertStmt (.named "report_attempt: attempt") .minigameAttempt id
              { userId, minigameKey := game.minigameKey, mapUid, slug, elapsedMs, status,
                createdAt := now })
            sql (countAttemptStmt userId game.minigameKey mapUid slug now)
            if status = "finish" then
              let improved ← sql
                  (improveScoreStmt userId game.minigameKey elapsedMs game.lowerIsBetter now)
              -- the row is there, and its score stands
              if !improved then sql (countFinishStmt userId game.minigameKey)
            commitQ

end Minigames

end Dd2Server
