import Dd2Server.Boards.Schema
import Dd2Server.Dispatch.Requests
import Dd2Server.ReadCommitted.Coroutines

/-!
# What the read loop asks the world outside

The statements of the handlers with the rows that they give, the caches and the queue of the
connection.  The answers are arbitrary, within what the schema and the statements that write the
rows promise: a column that is `NOT NULL` has a value, and an array that only ever takes three
numbers has three.
-/

namespace Dd2Server.Dispatch

open Boards (SqlxError)
open Machine PlayerStats ReadCommitted

/-! ## Rows -/

/-- A row of `ranked_lb_view` with a colour.  The driver takes each column of a view for
nullable. -/
structure RankedLbRow where
  wsid : Option Uuid
  height : Option F64
  ts : Option Time
  rank : Option Int
  displayName : Option String
  updateCount : Option (BitVec 32)
  color : Option (List F64)
  /-- The columns of `leaderboard` are `NOT NULL`. -/
  notNull : wsid.isSome ∧ height.isSome ∧ ts.isSome

/-- A row of a board of a map. -/
structure MapLbRow where
  userId : Uuid
  displayName : String
  color : List F64
  pos : List F64
  raceTime : Int
  updatedAt : Time
  updateCount : BitVec 32
  rank : Option Int
  /-- Every statement that writes a colour or a position writes an `[f64; 3]`. -/
  three : color.length = 3 ∧ pos.length = 3

structure MinigameLbRow where
  userId : Uuid
  displayName : String
  score : Int
  updatedAt : Time
  rank : Option Int

/-- A row of `custom_map_aux_specs`. -/
structure CustomMapAuxSpec where
  id : Int
  userId : Uuid
  nameId : String
  spec : Value
  hitCounter : Int
  createdAt : Time
  updatedAt : Time

/-- A `NUMERIC`. -/
structure BigDecimal where
  digits : Int
  scale : Int

/-- A row of `contexts`. -/
structure NewContext where
  sessionToken : Uuid
  flags : Fin 15 → Bool
  flagsRaw : BitVec 64
  hasVlItem : Bool
  mapId : Option Int
  managers : BitVec 64
  blockCount : BitVec 32
  itemCount : BitVec 32
  biCount : BitVec 32
  predecessor : Option Uuid
  editor : Option Bool

/-- The board that a cache keeps. -/
inductive Cached
  | lb
  | live
  deriving DecidableEq

/-! ## Questions -/

/-- The receiver of the channel is gone. -/
inductive SendError
  | closed

inductive Question : Type → Type 1
  /-- What a program over the Wayfinder tables waits for. -/
  | wayfinder {β : Type} (q : Awaited Table.Key Table.Row Tag Ask.Ans Act.Out β) : Question β
  /-- What a program over the leaderboard tables waits for. -/
  | boards {β : Type}
      (q : Awaited Boards.Table.Key Boards.Table.Row Boards.Tag Boards.Ask.Ans Boards.Act.Out β) :
        Question β
  /-- `queue_tx.send`. -/
  | send (r : Response) : Question (Except SendError Unit)
  /-- `mgr_tx.send` of `NewTop3`. -/
  | sendNewTop3 : Question (Except SendError Unit)
  /-- A fresh entry of a cache and its age. -/
  | cacheGet (cache : Cached) (mapUid : String) : Question
    (Option (Nat × List (LeaderboardEntry2 Triple Triple)))
  /-- The entry goes into the cache, and has an age then. -/
  | cachePut (cache : Cached) (mapUid : String)
    (entries : List (LeaderboardEntry2 Triple Triple)) : Question Nat
  -- contexts
  | getOrInsertMap (uid name : String) (hash : List UInt8) : Question (Except SqlxError Int)
  | insertContext (c : NewContext) : Question (Except SqlxError Uuid)
  | contextMarkSucceeded (prior successor : Uuid) : Question (Except SqlxError Unit)
  -- runs
  | insertVehicleState (sessionId : Uuid) (isOfficial : Bool) (pos : F32 × F32 × F32)
    (rotq : F32 × F32 × F32 × F32)
      (vel : F32 × F32 × F32) : Question (Except SqlxError Unit)
  | upsertMapCurrHeight (mapUid : String) (userId : Uuid) (pos : F32 × F32 × F32)
    (raceTime : BitVec 32) :
      Question (Except SqlxError Unit)
  | insertRespawn (sessionId : Uuid) (raceTime : BitVec 32) : Question (Except SqlxError Unit)
  | insertFinish (sessionId : Uuid) (raceTime : BitVec 32) : Question (Except SqlxError Unit)
  -- statistics
  | updateStats (userId : Uuid) (columns : StatsColumns) : Question (Except SqlxError (BitVec 32))
  | archiveStats (userId : Uuid) : Question (Except SqlxError Unit)
  | insertStats (userId : Uuid) (columns : StatsColumns) : Question (Except SqlxError Unit)
  | downgradeStats (userId : Uuid) (columns : StatsColumns) : Question (Except SqlxError Unit)
  | rankedStats (userId : Uuid) : Question (Except SqlxError (StatsColumns × Option Int))
  | setMapStats (userId : Uuid) (uid : String) (stats : Value) : Question (Except SqlxError Unit)
  | mapStats (uid : String) (wsid : Uuid) : Question (Except SqlxError (Option Int × Time))
  -- personal bests
  | pbHeight (userId : Uuid) : Question (Except SqlxError F64)
  | raisePb (userId : Uuid) (height : F64) : Question (Except SqlxError (BitVec 32))
  | archivePb (userId : Uuid) : Question (Except SqlxError (BitVec 32))
  | insertPb (userId : Uuid) (height : F64) : Question (Except SqlxError Unit)
  | userInLb (userId : Uuid) : Question (Except SqlxError (Option RankedLbRow))
  | globalLb (range : Boards.Range) : Question (Except SqlxError (List RankedLbRow))
  -- players
  | updateUserColor (userId : Uuid) (color : Boards.Color) : Question (Except SqlxError Unit)
  | setTwitch (userId : Uuid) (twitchName : String) : Question (Except SqlxError Unit)
  | twitch (userId : Uuid) : Question (Except SqlxError (Uuid × String))
  | displayName (userId : Uuid) : Question (Except SqlxError String)
  | getProfile (userId : Uuid) : Question (Except SqlxError Value)
  | insertProfile (userId : Uuid) (profile : Value) : Question (Except SqlxError Unit)
  | setProfile (userId : Uuid) (profile : Value) : Question (Except SqlxError Unit)
  | getPreferences (userId : Uuid) : Question (Except SqlxError Value)
  | setPreferences (userId : Uuid) (preferences : Value) : Question (Except SqlxError Unit)
  -- overviews
  | globalOverview : Question (Except SqlxError Value)
  | playerCounts : Question (Except SqlxError (Option Int))
  | donations : Question (Except SqlxError (List (String × BigDecimal × Time × String)))
  | donors : Question (Except SqlxError (List (String × BigDecimal)))
  | gfmDonations : Question (Except SqlxError F64)
  | thirdFinish : Question (Except SqlxError Bool)
  -- boards of a map
  | mapLeaderboardLen (mapUid : String) : Question (Except SqlxError (Option Int))
  | mapNbPlayingLive (mapUid : String) : Question (Except SqlxError (Option Int))
  | mapLeaderboard (mapUid : String) (range : Boards.Range) : Question
    (Except SqlxError (List MapLbRow))
  | mapLiveHeights (mapUid : String) (n : BitVec 32) : Question (Except SqlxError (List MapLbRow))
  | mapRankEntry (mapUid : String) (userId : Uuid) : Question (Except SqlxError (Option MapLbRow))
  /-- The public message of the active ban. -/
  | activeBan (mapUid : String) (userId : Uuid) : Question (Except SqlxError (Option String))
  | isUnofficial (mapUid : String) (userId : Uuid) : Question (Except SqlxError Bool)
  -- catalogs
  | minigameLeaderboard (mapUid slug : String) (range : Boards.Range) : Question
    (Except SqlxError (List MinigameLbRow))
  | minigameMyRank (mapUid slug : String) (userId : Uuid) : Question
    (Except SqlxError (Option MinigameLbRow))
  | minigameList (mapUid : String) : Question (Except SqlxError (List MinigameListGame))
  | collectibleList (mapUid : String) : Question (Except SqlxError (List CollectibleListItem))
  | collectibleMine (mapUid : String) (userId : Uuid) :
      Question (Except SqlxError (List (CollectibleListItem × Option Time × Option Time)))
  | listSpecs (userId : Uuid) : Question (Except SqlxError (List CustomMapAuxSpec))

/-! ## Handlers -/

/-- `api_error::Error`. -/
inductive Error
  | strErr (msg : String)
  | sqlxErr (e : SqlxError)
  | sendErr
  | uuidErr

/-- An `async fn` that returns a `Result`. -/
abbrev Handler (ε α : Type) := Coroutine.Fallible Question ε α

variable {ε α β : Type}

/-- A statement under `?`. -/
def query (q : Question (Except SqlxError α)) : Handler Error α :=
  (Coroutine.request q).adapt .sqlxErr

/-- `queue_tx.send(r)?`. -/
def send (r : Response) : Handler Error Unit :=
  (Coroutine.request (.send r)).adapt fun _ => .sendErr

/-- A program over the Wayfinder tables. -/
def runWayfinder (x : Dd2Server.Query ε α) : Handler ε α :=
  ExceptT.mk (x.run.coroutine .wayfinder)

/-- A program over the leaderboard tables. -/
def runBoards (x : Boards.Query ε α) : Handler ε α :=
  ExceptT.mk (x.run.coroutine .boards)

/-- The handler's error is a value. -/
def result (x : Handler ε α) : Coroutine Question (Except ε α) := x.run

/-- A computation on machine integers. -/
def checked (b : Build) (x : Checked α) : Coroutine Question α := .unwrap (x b)

section

open Coroutine

variable {k : α → Handler Error β}

@[simp] theorem calm_query {q : Question (Except SqlxError α)} : Calm (query q) := by simp [query]

@[simp] theorem calm_query_bind {q : Question (Except SqlxError α)} :
    Calm (query q >>= k) ↔ ∀ a, Calm (k a) := by
  rw [calm_bind_iff]
  show (ask q >>= fun r => pure (r.mapError Error.sqlxErr)).Ensures _ ↔ _
  rw [ensures_bind, ensures_ask]
  constructor
  · intro h a
    exact h (.ok a) a rfl
  · rintro h (e | a) a' ha
    · cases ha
    · cases ha
      exact h a

@[simp] theorem calm_send {r : Response} : Calm (send r) := by simp [send]

theorem ensures_result {x : Handler ε α} {P : Except ε α → Prop} (hP : ∀ r, P r) :
    (result x).Ensures P ↔ Calm x :=
  ensures_congr fun r => iff_of_true (hP r) trivial

theorem ensures_checked_bind {b : Build} {x : Checked α} {f : α → Checked β}
    {P : β → Prop} :
    (checked b (x >>= f)).Ensures P ↔ (checked b x).Ensures fun a =>
    (checked b (f a)).Ensures P := by
  show (unwrap ((x b).bind fun a => f a b)).Ensures P ↔ _
  cases hx : x b with
  | none => simp [checked, hx]
  | some a => simp [checked, hx]

/-- A sum panics in a debug build where it overflows. -/
theorem ensures_addS {b : Build} {w : Nat} {x y : BitVec w} {P : BitVec w → Prop}
    (hP : ∀ z, P z) :
    (checked b (addS x y)).Ensures P ↔ (b = .debug → FitsS w (x.toInt + y.toInt)) := by
  rw [checked, ensures_unwrap]
  by_cases hfits : FitsS w (x.toInt + y.toInt)
  · rw [(addS_eq hfits).1]
    exact iff_of_true ⟨_, rfl, hP _⟩ fun _ => hfits
  · have hover : x.saddOverflow y = true := by
      simp only [BitVec.saddOverflow, Bool.or_eq_true, decide_eq_true_eq]
      rw [FitsS] at hfits
      omega
    rw [addS, if_pos hover]
    cases b with
    | debug => simp [overflowed, hfits]
    | release => simp [overflowed, hP]

/-- And so does a difference. -/
theorem ensures_subS {b : Build} {w : Nat} {x y : BitVec w} {P : BitVec w → Prop}
    (hP : ∀ z, P z) :
    (checked b (subS x y)).Ensures P ↔ (b = .debug → FitsS w (x.toInt - y.toInt)) := by
  rw [checked, ensures_unwrap]
  by_cases hfits : FitsS w (x.toInt - y.toInt)
  · rw [(subS_eq hfits).1]
    exact iff_of_true ⟨_, rfl, hP _⟩ fun _ => hfits
  · have hover : x.ssubOverflow y = true := by
      simp only [BitVec.ssubOverflow, Bool.or_eq_true, decide_eq_true_eq]
      rw [FitsS] at hfits
      omega
    rw [subS, if_pos hover]
    cases b with
    | debug => simp [overflowed, hfits]
    | release => simp [overflowed, hP]

theorem calm_runWayfinder {x : Dd2Server.Query ε α} : Calm (runWayfinder x) :=
  Prog.ensures_coroutine _

theorem calm_runBoards {x : Boards.Query ε α} : Calm (runBoards x) := Prog.ensures_coroutine _

end

end Dd2Server.Dispatch
