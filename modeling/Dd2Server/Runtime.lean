import Dd2Server.Driver
import Dd2Server.Schema
import Dd2Server.Server2.PendingUnlocks

/-!
# What a request task does besides its statements

The questions a task asks the world outside, the memory the tasks of one server process share, and
the names its statements carry in a log.
-/

namespace Dd2Server

open ReadCommitted

def dd2MapUid : String := "DeepDip2__The_Storm_Is_Here"

/-! ## Messages -/

/-- A hex digit in lower case. -/
def hexChar (n : Nat) : Char := Char.ofNat (if n < 10 then 0x30 + n else 0x61 + (n - 10))

/-- The digits of an id from position `i` on, the highest first. -/
def Uuid.hexFrom (u : Uuid) (i n : Nat) : List Char :=
  (List.range n).map fun j => hexChar (u.toNat / 16 ^ (31 - (i + j)) % 16)

/-- `Uuid::to_string`. -/
def Uuid.text (u : Uuid) : String :=
  String.ofList (u.hexFrom 0 8 ++ '-' :: u.hexFrom 8 4 ++ '-' :: u.hexFrom 12 4 ++
    '-' :: u.hexFrom 16 4 ++ '-' :: u.hexFrom 20 12)

theorem hexChar_inj {a b : Nat} (ha : a < 16) (hb : b < 16) (h : hexChar a = hexChar b) :
    a = b := by
  have hall : ∀ x < 16, ∀ y < 16, hexChar x = hexChar y → x = y := by decide
  exact hall a ha b hb h

theorem Uuid.hexFrom_length (u : Uuid) (i n : Nat) : (u.hexFrom i n).length = n := by
  simp [Uuid.hexFrom]

theorem Uuid.digit_of_hexFrom {u v : Uuid} {i n : Nat} (h : u.hexFrom i n = v.hexFrom i n) {j : Nat}
    (hj : j < n) : u.toNat / 16 ^ (31 - (i + j)) % 16 = v.toNat / 16 ^ (31 - (i + j)) % 16 := by
  have hget := congrArg (fun l => l[j]?) h
  simp only [Uuid.hexFrom, List.getElem?_map, List.getElem?_range hj, Option.map_some,
    Option.some.injEq] at hget
  exact hexChar_inj (Nat.mod_lt _ (by decide)) (Nat.mod_lt _ (by decide)) hget

theorem mod_pow_of_digits {a b : Nat} (n : Nat)
    (h : ∀ p < n, a / 16 ^ p % 16 = b / 16 ^ p % 16) : a % 16 ^ n = b % 16 ^ n := by
  induction n with
  | zero => simp [Nat.mod_one]
  | succ n ih =>
      rw [Nat.mod_pow_succ, Nat.mod_pow_succ, ih fun p hp => h p (by omega), h n (by omega)]

/-- `Uuid::to_string` does not identify two ids. -/
theorem Uuid.text_inj {u v : Uuid} (h : u.text = v.text) : u = v := by
  have hlist := String.ofList_injective h
  simp only [List.append_assoc, List.cons_append] at hlist
  have hlen : ∀ (i n : Nat), (u.hexFrom i n).length = (v.hexFrom i n).length := by
    intro i n
    rw [hexFrom_length, hexFrom_length]
  obtain ⟨h₀, hlist⟩ := List.append_inj hlist (hlen 0 8)
  obtain ⟨h₁, hlist⟩ := List.append_inj (List.cons.inj hlist).2 (hlen 8 4)
  obtain ⟨h₂, hlist⟩ := List.append_inj (List.cons.inj hlist).2 (hlen 12 4)
  obtain ⟨h₃, hlist⟩ := List.append_inj (List.cons.inj hlist).2 (hlen 16 4)
  have h₄ := (List.cons.inj hlist).2
  have hdigit : ∀ p < 32, u.toNat / 16 ^ p % 16 = v.toNat / 16 ^ p % 16 := by
    intro p hp
    have hat : ∀ i n, u.hexFrom i n = v.hexFrom i n → i ≤ 31 - p → 31 - p < i + n →
        u.toNat / 16 ^ p % 16 = v.toNat / 16 ^ p % 16 := by
      intro i n he hi hn
      have hd := digit_of_hexFrom he (j := 31 - p - i) (by omega)
      rwa [show 31 - (i + (31 - p - i)) = p by omega] at hd
    by_cases h8 : 31 - p < 8
    · exact hat 0 8 h₀ (by omega) (by omega)
    by_cases h12 : 31 - p < 12
    · exact hat 8 4 h₁ (by omega) (by omega)
    by_cases h16 : 31 - p < 16
    · exact hat 12 4 h₂ (by omega) (by omega)
    by_cases h20 : 31 - p < 20
    · exact hat 16 4 h₃ (by omega) (by omega)
    · exact hat 20 12 h₄ (by omega) (by omega)
  have hmod := mod_pow_of_digits 32 hdigit
  have hu : u.toNat < 16 ^ 32 := u.isLt
  have hv : v.toNat < 16 ^ 32 := v.isLt
  rw [Nat.mod_eq_of_lt hu, Nat.mod_eq_of_lt hv] at hmod
  exact BitVec.eq_of_toNat_eq hmod

/-- An entry of `HatsOnMap` and `HatsOnMapUpdate`. -/
structure HatOnMapPlayer where
  wsid : String
  name : String
  slug : String
  deriving DecidableEq

/-- An entry of `HatsMine`. -/
structure HatMineItem where
  slug : String
  name : String
  key : String
  unlockedAt : Option Nat
  deriving DecidableEq

/-- What a client is sent. -/
inductive Response
  | nonFatalErrorMsg (level : Nat) (msg : String)
  | hatsMine (uid equipped : String) (items : List HatMineItem)
  | hatsOnMap (uid : String) (hats : List HatOnMapPlayer)
  | hatsOnMapUpdate (uid : String) (hats : List HatOnMapPlayer)
  deriving DecidableEq

/-- What a client asks; of a context report, the map id it names. -/
inductive Request
  | reportContext (mapUid : Option String)
  | reportMinigameMap (uid : String) (specId : Int)
  | reportHatUnlock (uid slug : String) (specId : Int)
  | reportHatEquip (uid slug : String)
  | getHatsMine (uid : String)
  | getHatsOnMap (uid : String)
  deriving DecidableEq

/-- What Nadeo says about the comment of a map. -/
inductive PublishedComment
  | notOnNadeo
  | comment (text : Option String)
  deriving DecidableEq

/-- The verdict of the equip limiter. -/
inductive HatEquipRateVerdict
  | allowed
  | perUser
  | global
  deriving DecidableEq

/-! ## Questions -/

inductive Ask
  /-- `NOW()` of a transaction, and `Utc::now()`. -/
  | now
  /-- `nextval` of the ids of `custom_map_aux_specs`. -/
  | nextSpecId
  /-- `nextval` of the ids of `minigame_attempt`. -/
  | nextAttemptId
  | authorIdForUid (accountId : Uuid) (mapUid : String)
  | fetchPublishedComment (mapUid : String)
  | hasOfficialRecord (accountId : Uuid) (mapUid : String)
  | hasRecentOfficialRecord (accountId : Uuid) (mapUid : String)
  | allowUnlockValidation (accountId : Uuid) (mapUid hatSlug : String)
  /-- The hook of an equip between its write and its broadcast entry. -/
  | beforePayload
  /-- A context report is parsed and stored. -/
  | updateContext (mapUid : Option String)
  | equipRate (userId : Uuid)
  /-- Nadeo is configured, and the map's comment is due. -/
  | admitCommentBind (mapUid : String)
  /-- After how many steps a spawned validation panics. -/
  | panics (mapUid slug : String)

/-- The type of the answers. -/
@[reducible] def Ask.Ans : Ask → Type
  | .now => Time
  | .nextSpecId => Int
  | .nextAttemptId => Int
  | .authorIdForUid _ _ => Except String Uuid
  | .fetchPublishedComment _ => Except String PublishedComment
  | .hasOfficialRecord _ _ => Except String Bool
  | .hasRecentOfficialRecord _ _ => Except String Bool
  | .allowUnlockValidation _ _ _ => Bool
  | .beforePayload => Except DbError Unit
  | .updateContext _ => Except DbError Unit
  | .equipRate _ => HatEquipRateVerdict
  | .admitCommentBind _ => Bool
  | .panics _ _ => Option Nat

/-! ## Shared memory -/

/-- A task that another task leaves behind. -/
inductive Spawned
  | deferredBind (userId : Uuid) (mapUid : String) (specId : Int)
  | commentBind (mapUid : String)
  | unlockValidation (conn : Nat) (userId : Uuid) (mapUid slug : String) (specId : Int)
  deriving DecidableEq

inductive Act
  /-- Take the operation lock of a map. -/
  | lockMap (mapUid : String)
  | unlockMap (mapUid : String)
  /-- Send the manager a `HatsOnMapUpdate` for every connection on the map. -/
  | broadcastToMap (mapUid : String) (hats : List HatOnMapPlayer)
  /-- A connection is among the manager's players. -/
  | openConnection
  /-- The read loop has a request. -/
  | received (conn : Nat) (request : Request)
  /-- The map the connection is on, as the manager sees it. -/
  | setTracked (conn : Nat) (next : Option String)
  /-- Put a response in the queue of the connection. -/
  | send (conn : Nat) (response : Response)
  | beginUnlock (conn : Nat) (mapUid slug : String)
  | anyForMap (conn : Nat) (mapUid : String)
  | releaseUnlock (conn : Nat) (mapUid slug : String)
  | acquirePermit (conn : Nat)
  | dropPermit (conn : Nat)
  | spawn (task : Spawned)
  /-- A spawned task starts. -/
  | begun (task : Spawned)
  /-- The manager takes the next message of its channel. -/
  | nextMessage
  /-- The manager looks at one player. -/
  | offer (conn : Nat) (mapUid : String) (hats : List HatOnMapPlayer)
  /-- The manager is done with a message. -/
  | delivered
  /-- A message of the manager goes into the queue of the connection. -/
  | relay (conn : Nat)

@[reducible] def Act.Out : Act → Type
  | .openConnection => Nat
  | .beginUnlock _ _ _ => Bool
  | .anyForMap _ _ => Bool
  | .releaseUnlock _ _ _ => Bool
  | .nextMessage => (String × List HatOnMapPlayer) × Nat
  | _ => Unit

def maxConcurrentHatValidations : Nat := 2

/-- What the tasks of a connection and the manager share. -/
structure Connection where
  wayfinderMapUid : Option String := none
  pending : PendingHatUnlocks := {}
  validationPermits : Nat := maxConcurrentHatValidations
  /-- The manager's messages on their way to the queue. -/
  inbox : List Response := []
  /-- The queue, oldest first. -/
  queue : List Response := []

/-- The operation locks that are taken, the messages in the manager's channel, how many of them the
manager took, and the connections. -/
structure Mem where
  mapLocks : List String := []
  broadcasts : List (String × List HatOnMapPlayer) := []
  taken : Nat := 0
  delivering : Bool := false
  spawned : List Spawned := []
  opened : Nat := 0
  conns : Nat → Connection := fun _ => {}

/-- The connection is changed. -/
def Mem.modify (mem : Mem) (c : Nat) (f : Connection → Connection) : Mem :=
  { mem with conns := Function.update mem.conns c (f (mem.conns c)) }

/-- The name of a statement. -/
inductive Tag
  | named (fn : String)
  | lockBinding (mapUid : String)
  | resolveComment (wsid : Uuid) (nameId : String)
  | upsertSpec (userId : Uuid) (nameId : String) (spec : Value)
  | deleteCatalog (catalog : Table) (userId : Uuid) (nameId : String)

abbrev vocabulary : Vocabulary := ⟨Table.Key, Table.Row, Tag, Ask.Ans, Act.Out⟩

abbrev LogEvent := Event Table.Key Table.Row Tag Ask.Ans Act.Out

abbrev Log := List LogEvent

def Act.perform : (a : Act) → Mem → Option (Mem × a.Out)
  | .lockMap m, mem =>
      if m ∈ mem.mapLocks then none else some ({ mem with mapLocks := m :: mem.mapLocks }, ())
  | .unlockMap m, mem => some ({ mem with mapLocks := mem.mapLocks.erase m }, ())
  | .broadcastToMap m hats, mem =>
      some ({ mem with broadcasts := mem.broadcasts ++ [(m, hats)] }, ())
  | .openConnection, mem => some ({ mem with opened := mem.opened + 1 }, mem.opened)
  | .received _ _, mem => some (mem, ())
  | .setTracked c next, mem => some (mem.modify c fun x => { x with wayfinderMapUid := next }, ())
  | .send c r, mem => some (mem.modify c fun x => { x with queue := x.queue ++ [r] }, ())
  | .beginUnlock c m slug, mem =>
      match (mem.conns c).pending.begin m slug with
      | some p => some (mem.modify c fun x => { x with pending := p }, true)
      | none => some (mem, false)
  | .anyForMap c m, mem => some (mem, (mem.conns c).pending.anyForMap m)
  | .releaseUnlock c m slug, mem =>
      let (p, drained) := (mem.conns c).pending.remove (m, slug)
      some (mem.modify c fun x => { x with pending := p }, drained)
  | .acquirePermit c, mem =>
      match (mem.conns c).validationPermits with
      | 0 => none
      | n + 1 => some (mem.modify c fun x => { x with validationPermits := n }, ())
  | .dropPermit c, mem =>
      some (mem.modify c fun x => { x with validationPermits := x.validationPermits + 1 }, ())
  | .spawn task, mem => some ({ mem with spawned := task :: mem.spawned }, ())
  | .begun task, mem =>
      if task ∈ mem.spawned then some ({ mem with spawned := mem.spawned.erase task }, ())
        else none
  | .nextMessage, mem =>
      if mem.delivering then none
      else mem.broadcasts[mem.taken]?.map fun msg =>
        ({ mem with taken := mem.taken + 1, delivering := true }, msg, mem.opened)
  | .offer c m hats, mem =>
      if (mem.conns c).wayfinderMapUid = some m then
        some (mem.modify c fun x => { x with inbox := x.inbox ++ [.hatsOnMapUpdate m hats] }, ())
      else some (mem, ())
  | .delivered, mem => some ({ mem with delivering := false }, ())
  | .relay c, mem =>
      match (mem.conns c).inbox with
      | [] => none
      | r :: rest =>
          some (mem.modify c fun x => { x with inbox := rest, queue := x.queue ++ [r] }, ())

/-- The operation locks a task holds, by its log. -/
def heldMaps : Log → List String
  | [] => []
  | .acted (.lockMap m) _ :: log => m :: heldMaps log
  | .acted (.unlockMap m) _ :: log => (heldMaps log).erase m
  | _ :: log => heldMaps log

/-- The pending unlocks a task answers for, by its log. -/
def heldUnlocks : Log → List (Nat × String × String)
  | [] => []
  | .acted (.beginUnlock c m slug) began :: log =>
      if began = true then (c, m, slug) :: heldUnlocks log else heldUnlocks log
  | .acted (.spawn (.unlockValidation c _ m slug _)) _ :: log =>
      (heldUnlocks log).erase (c, m, slug)
  | .acted (.begun (.unlockValidation c _ m slug _)) _ :: log => (c, m, slug) :: heldUnlocks log
  | .acted (.releaseUnlock c m slug) _ :: log => (heldUnlocks log).erase (c, m, slug)
  | _ :: log => heldUnlocks log

/-- The permits a task holds, by its log. -/
def heldPermits : Log → List Nat
  | [] => []
  | .acted (.acquirePermit c) _ :: log => c :: heldPermits log
  | .acted (.dropPermit c) _ :: log => (heldPermits log).erase c
  | _ :: log => heldPermits log

def Mem.unlockOver (mem : Mem) (key : Nat × String × String) : Mem :=
  mem.modify key.1 fun x => { x with pending := (x.pending.remove key.2).1 }

def Mem.permitBack (mem : Mem) (c : Nat) : Mem :=
  mem.modify c fun x => { x with validationPermits := x.validationPermits + 1 }

def shared : Shared Table.Key Table.Row Tag Ask.Ans Act.Out Mem where
  perform := Act.perform
  -- the guards of a dropped task go with it
  abandon log mem :=
    let mem' : Mem := { mem with mapLocks := mem.mapLocks.diff (heldMaps log) }
    (heldPermits log).foldl Mem.permitBack ((heldUnlocks log).foldl Mem.unlockOver mem')

/-! ## Programs -/

abbrev Server := vocabulary.Server

abbrev Query := vocabulary.Query

abbrev Sql := vocabulary.Sql

abbrev select (fn : String) (f : Db → β) : Sql β := selectAs (.named fn) f

/-- A statement that writes, on its own. -/
def autocommit (s : Time → Sql β) : Query DbError β :=
  single .database (askQ Ask.now) fun now => sql (s now)

end Dd2Server
