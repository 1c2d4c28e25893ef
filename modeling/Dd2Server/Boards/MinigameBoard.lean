import Dd2Server.Boards.MapBoard
import Mathlib.Data.Prod.Lex
import Mathlib.Order.WithBot

/-!
# The leaderboard of a minigame

The players who finished a minigame, best score first: the lowest in a sprint, the highest in any
other kind.
-/

namespace Dd2Server.Boards

open Machine Paging

/-- The tables that a minigame board reads, with the users who are shadow-banned. -/
structure MinigameTables where
  db : Dd2Server.Db
  shadowBanned : Uuid → Bool
  /-- The foreign key to `users`. -/
  named : ∀ userId key, (db.get ⟨.minigamePb, (userId, key)⟩).isSome →
    (db.get ⟨.users, userId⟩).isSome

/-- A row of `minigame_pb` with the columns joined to it. -/
structure PbRow where
  userId : Uuid
  displayName : Option String
  pb : MinigamePbRow
  kind : String
  deriving DecidableEq

/-- A column of numbers with `NULL`s, ascending and `NULLS LAST`. -/
abbrev NullsLast (α : Type) := WithTop α

/-- `ORDER BY CASE WHEN kind = 'Sprint' THEN score END ASC NULLS LAST, CASE WHEN kind <> 'Sprint'
THEN score END DESC NULLS LAST`. -/
def PbRow.byScore (r : PbRow) : NullsLast ℤ ×ₗ NullsLast ℤᵒᵈ :=
  toLex (if r.kind = "Sprint" then WithTop.some r.pb.score else ⊤,
    if r.kind ≠ "Sprint" then WithTop.some (OrderDual.toDual r.pb.score) else ⊤)

instance : Inhabited MinigameLBEntry := ⟨⟨0, "", "", 0, 0⟩⟩

def PbRow.entry (rank : Nat) (r : PbRow) : Option MinigameLBEntry := do
  let name ← r.displayName
  return { rank := BitVec.ofNat 32 rank, wsid := r.userId.text, name, score := r.pb.score
           ts := timestampU32 r.pb.updatedAt }

namespace MinigameTables

variable (t : MinigameTables)

/-- The rows on the public board. -/
def publicRows (mapUid slug : String) : List PbRow :=
  match t.db.get ⟨.minigameOnMap, (mapUid, slug)⟩ with
  | none => []
  | some mom =>
      ((t.db.rows .minigamePb).filter fun e =>
        e.1.2 = mom.minigameKey && !t.shadowBanned e.1.1 && 0 < e.2.finishCount).map fun e =>
          { userId := e.1.1, displayName := (t.db.get ⟨.users, e.1.1⟩).map (·.displayName),
            pb := e.2
            kind := mom.kind }

/-- The order in which a query returns the public rows. -/
abbrev Order (mapUid slug : String) := Arranged PbRow.byScore (t.publicRows mapUid slug)

def publicEntry (mapUid slug : String) (r : PbRow) : Option MinigameLBEntry :=
  r.entry (rank PbRow.byScore (t.publicRows mapUid slug) r)

variable {t}

/-- The parameters of the query of `get_minigame_leaderboard`. -/
def getMinigameLeaderboardRange (start end' : BitVec 64) : Checked Range := do
  let limit := maxS (← subS end' start) 0
  return { limit, offset := start }

def getMinigameLeaderboard {mapUid slug : String} (order : t.Order mapUid slug)
    (start end' : BitVec 64) :
    Checked (Except SqlxError (List MinigameLBEntry)) := do
  let range ← getMinigameLeaderboardRange start end'
  return do
    let rows ← range.select order.list
    decoded (t.publicEntry mapUid slug) rows

def getMinigameLeaderboardPage {mapUid slug : String} (order : t.Order mapUid slug)
    (page : BitVec 32) :
    Checked (Except SqlxError (List MinigameLBEntry)) := do
  let start ← mulS (page.setWidth 64) 100
  let end' ← addS start 100
  getMinigameLeaderboard order start end'

/-- The answer, without the map and the slug that it repeats. -/
def handleGetMapUidMinigameLeaderboard {mapUid slug : String} (order : t.Order mapUid slug)
    (page : BitVec 32) : Checked (Except Rejection (List MinigameLBEntry)) :=
  if slug.toList.contains '/' then return .error .notFound
  else do
    let r ← getMinigameLeaderboardPage order page
    return r.mapError .api

end MinigameTables

/-! ## The rows of a board -/

section

variable {t : MinigameTables} {mapUid slug : String} {r : PbRow}

theorem mem_pbRows : r ∈ t.publicRows mapUid slug ↔
    ∃ mom, t.db.get ⟨.minigameOnMap, (mapUid, slug)⟩ = some mom ∧
      t.db.get ⟨.minigamePb, (r.userId, mom.minigameKey)⟩ = some r.pb ∧
      t.shadowBanned r.userId = false ∧ 0 < r.pb.finishCount ∧
      r.displayName = (t.db.get ⟨.users, r.userId⟩).map (·.displayName) ∧
      r.kind = mom.kind := by
  unfold MinigameTables.publicRows
  split
  case h_1 hnone => simp [hnone]
  case h_2 mom hmom =>
    simp only [List.mem_map, List.mem_filter, Bool.and_eq_true, decide_eq_true_eq,
      Bool.not_eq_eq_eq_not, Bool.not_true, hmom, Option.some.injEq, exists_eq_left']
    constructor
    · rintro ⟨⟨⟨u, k⟩, pb⟩, ⟨hmem, ⟨rfl, hban⟩, hcount⟩, rfl⟩
      exact ⟨ReadCommitted.Store.mem_rows.1 hmem, hban, hcount, rfl, rfl⟩
    · rintro ⟨hget, hban, hcount, hname, hkind⟩
      refine ⟨((r.userId, mom.minigameKey), r.pb), ⟨ReadCommitted.Store.mem_rows.2 hget,
        ⟨rfl, hban⟩, hcount⟩, ?_⟩
      rw [← hname, ← hkind]

/-- A user has at most one row on a board. -/
theorem pbRows_nodup (t : MinigameTables) (mapUid slug : String) :
    ((t.publicRows mapUid slug).map PbRow.userId).Nodup := by
  unfold MinigameTables.publicRows
  split
  case h_1 => exact List.nodup_nil
  case h_2 mom hmom =>
    rw [List.map_map]
    refine nodup_firsts (ReadCommitted.Store.rows_nodup t.db .minigamePb) (b := mom.minigameKey)
      fun e he => ?_
    rw [Bool.and_eq_true, Bool.and_eq_true, decide_eq_true_eq] at he
    exact he.1.1

theorem pbEntry_isSome (h : r ∈ t.publicRows mapUid slug) (rank : Nat) :
    (r.entry rank).isSome := by
  obtain ⟨mom, -, hget, -, -, hname, -⟩ := mem_pbRows.1 h
  have huser := t.named r.userId mom.minigameKey (by rw [hget]; rfl)
  obtain ⟨u, hu⟩ := Option.isSome_iff_exists.1 huser
  rw [hu, Option.map_some] at hname
  simp [PbRow.entry, hname]

end

end Dd2Server.Boards
