import Dd2Server.AsyncCache
import Dd2Server.Server2.Connection

/-!
# Live boards

A ping of a client reads the two boards of its map through the shared caches.  It sends a board if
the map is not the one of the ping before, or if the board took its value no longer than `sendTtl`
ago.

The events of a run are the pings of one client, the sections in which they meet the caches, the
sections of everybody else and the answers to other requests of the client.  Every cache has a
clock, since the sections of one cache follow each other and those of two caches need not.
-/

namespace Dd2Server

namespace Server2

open Limits

/-! ## States -/

inductive Board
  | mapLb
  | livePlayers
  deriving DecidableEq

abbrev Entries := List (LeaderboardEntry2 F64.Triple F64.Triple)

instance : DecidableEq Entries := inferInstance

abbrev BoardCache := InnerCache String Entries

def cacheTtl : Nat := 9000

def sendTtl : Nat := 11000

/-- A `MapLB` or a `MapLivePlayers` to the client, by a ping or in answer to another request. -/
structure BoardMessage where
  board : Board
  uid : String
  entries : Entries
  byPing : Bool

/-- A ping that has a board still to read, perhaps under the write lock. -/
structure Ping where
  uid : String
  mapChanged : Bool
  board : Board
  missed : Bool

/-- What a ping met in a cache: when, for which map, what it was given and what was cached then. -/
structure Found where
  readAt : Nat
  uid : String
  entries : Entries
  cached : Option Entries

structure LiveState where
  cache : Board → BoardCache
  /-- When the last section of a cache was over. -/
  clock : Board → Nat
  /-- When the client's connection did something last. -/
  clientClock : Nat
  lastPingMapUid : Option String
  ping : Option Ping
  found : Board → Option Found
  /-- The last message first. -/
  sent : List BoardMessage

/-- A client that has just connected, to a server in any state. -/
def LiveState.connected (cache : Board → BoardCache) (clock : Board → Nat) : LiveState :=
  { cache, clock, clientClock := 0, lastPingMapUid := none, ping := none,
    found := fun _ => none, sent := [] }

inductive LiveEvent
  /-- A ping arrives, with the map of the client's context. -/
  | ping (arrived : Nat) (map : Option String)
  /-- The ping has the read lock of its board; it has read the clock before. -/
  | look (now readAt : Nat)
  /-- The ping has the write lock of its board. -/
  | write (now : Nat) (fresh : Entries) (cachedAt : Nat)
  /-- Another request of the client is answered. -/
  | reply (board : Board) (uid : String) (entries : Entries)
  /-- Somebody else has the write lock. -/
  | refresh (board : Board) (key : String) (ttl now : Nat) (fresh : Except Unit Entries)
    (cachedAt : Nat)
  /-- Anybody purges a cache. -/
  | purge (board : Board) (now : Nat)

/-- The maps whose boards a ping reads. -/
def Watched (uid : String) : Prop := 20 ≤ Text.byteLen uid ∧ Text.byteLen uid < 30

instance (uid : String) : Decidable (Watched uid) := inferInstanceAs (Decidable (_ ∧ _))

namespace LiveState

/-- A ping has a board and goes on to the next one. -/
def answer (s : LiveState) (p : Ping) (readAt age : Nat) (entries : Entries) (cache : BoardCache) :
    LiveState :=
  { s with
    cache := Function.update s.cache p.board cache
    clock := Function.update s.clock p.board readAt
    clientClock := readAt
    ping := match p.board with
      | .mapLb => some { p with board := .livePlayers, missed := false }
      | .livePlayers => none
    found := Function.update s.found p.board
      (some { readAt, uid := p.uid, entries, cached := (cache.map.get p.uid).map CacheEntry.value })
    sent :=
      if p.mapChanged ∨
        age ≤ sendTtl then { board := p.board, uid := p.uid, entries, byPing := true } :: s.sent
      else s.sent }

/-- One event, if it can happen. -/
def step (s : LiveState) : LiveEvent → Option LiveState
  | .ping arrived map =>
      if s.ping.isNone ∧ s.clientClock ≤ arrived then
        let (lastPingMapUid, mapChanged) := updateLastMap s.lastPingMapUid map
        some { s with
          clientClock := arrived
          lastPingMapUid
          ping := (map.filter fun uid => Watched uid).map fun uid =>
            { uid, mapChanged, board := .mapLb, missed := false } }
      else none
  | .look now readAt =>
      s.ping.bind fun p =>
        if ¬ p.missed ∧ s.clientClock ≤ now ∧ now ≤ readAt ∧
          s.clock p.board ≤ readAt then
          match (s.cache p.board).look p.uid cacheTtl now with
          | some (age, entries) => some (s.answer p readAt age entries (s.cache p.board))
          | none => some { s with
              clock := Function.update s.clock p.board readAt
              clientClock := readAt
              ping := some { p with missed := true } }
        else none
  | .write now fresh cachedAt =>
      s.ping.bind fun p =>
        if p.missed ∧ s.clientClock ≤ now ∧ s.clock p.board ≤ now ∧ now ≤ cachedAt then
          match (s.cache p.board).refresh p.uid cacheTtl now
            (.ok fresh : Except Unit Entries) cachedAt with
          | .hit age entries => some (s.answer p now age entries (s.cache p.board))
          | .failed _ => none
          | .fetched age entries cache => some (s.answer p cachedAt age entries cache)
        else none
  | .reply board uid entries =>
      some { s with sent := { board, uid, entries, byPing := false } :: s.sent }
  | .refresh board key ttl now fresh cachedAt =>
      if s.clock board ≤ now ∧ now ≤ cachedAt then
        match (s.cache board).refresh key ttl now fresh cachedAt with
        | .fetched _ _ cache => some { s with
            cache := Function.update s.cache board cache
            clock := Function.update s.clock board cachedAt }
        | _ => some s
      else none
  | .purge board now =>
      some { s with cache := Function.update s.cache board ((s.cache board).purge now) }

def run : LiveState → List LiveEvent → Option LiveState
  | s, [] => some s
  | s, e :: events => (s.step e).bind fun s' => s'.run events

/-- The last entries of a board that pings sent for a map. -/
def lastSent (s : LiveState) (board : Board) (uid : String) : Option Entries :=
  (s.sent.find? fun m => m.byPing ∧ m.board = board ∧ m.uid = uid).map BoardMessage.entries

/-- The clock reading by which an event finds the age of a board for the ping. -/
def agedAt (s : LiveState) : LiveEvent → Option Nat
  | .look now _ => s.ping.bind fun p => ((s.cache p.board).look p.uid cacheTtl now).map fun _ => now
  | .write now _ cachedAt => s.ping.map fun p =>
      match (s.cache p.board).look p.uid cacheTtl now with
      | some _ => now
      | none => cachedAt
  | _ => none

/-- From the time a ping read a board to the time the next ping on the map finds the age of it, no
more than `sendTtl` passes. -/
def ReadsOnTime (s : LiveState) (e : LiveEvent) : Prop :=
  ∀ p ∈ s.ping, ∀ f ∈ s.found p.board, ∀ now ∈ s.agedAt e, p.mapChanged = false →
    now ≤ f.readAt + sendTtl

def OnTime : LiveState → List LiveEvent → Prop
  | _, [] => True
  | s, e :: events => s.ReadsOnTime e ∧ ∀ s' ∈ s.step e, OnTime s' events

instance (s : LiveState) (e : LiveEvent) : Decidable (s.ReadsOnTime e) :=
  inferInstanceAs (Decidable (∀ p ∈ s.ping, ∀ f ∈ s.found p.board, ∀ now ∈ s.agedAt e,
    p.mapChanged = false → now ≤ f.readAt + sendTtl))

instance decidableOnTime :
    ∀ (s : LiveState) (events : List LiveEvent), Decidable (s.OnTime events)
  | _, [] => isTrue trivial
  | s, e :: events =>
      have : ∀ s', Decidable (OnTime s' events) := fun s' => decidableOnTime s' events
      inferInstanceAs (Decidable (s.ReadsOnTime e ∧ ∀ s' ∈ s.step e, OnTime s' events))

end LiveState

/-- The same entries, or equal ones to the cache. -/
def Same (v w : Entries) : Prop := v = w ∨ (v == w) = true

instance (v w : Entries) : Decidable (Same v w) := inferInstanceAs (Decidable (_ ∨ _))

theorem Same.refl (v : Entries) : Same v v := .inl rfl

theorem Same.symm {v w : Entries} (h : Same v w) : Same w v := h.imp Eq.symm BEq.symm

theorem Same.trans {u v w : Entries} (h : Same u v) (h' : Same v w) : Same u w := by
  rcases h with rfl | h
  · exact h'
  · rcases h' with rfl | h'
    · exact .inr h
    · exact .inr (BEq.trans h h')

/-! ## What a section shows -/

/-- A section on the way from `cache` to `cache'` gives a ping the entries and the age of a board,
by the clock reading `now`: what is cached then has just come in, or was cached before. -/
structure Reads (cache cache' : BoardCache) (uid : String) (now age : Nat) (entries : Entries)
    (entry : CacheEntry Entries) : Prop where
  get : cache'.map.get uid = some entry
  same : Same entries entry.value
  age : age = now - entry.firstSeen
  origin : entry.firstSeen = now ∨ ∃ old, cache.map.get uid = some old ∧
    entry.value = old.value ∧
    entry.firstSeen = old.firstSeen

theorem look_reads {cache : BoardCache} {uid : String} {ttl now age : Nat} {entries : Entries}
    (h : cache.look uid ttl now = some (age, entries)) :
    ∃ entry, Reads cache cache uid now age entries entry := by
  obtain ⟨entry, hget, -, hage, hentries⟩ := InnerCache.look_eq_some.1 h
  refine ⟨entry, hget, ?_, hage, .inr ⟨entry, hget, rfl, rfl⟩⟩
  rw [hentries]
  exact Same.refl entry.value

theorem store_reads (cache : BoardCache) (uid : String) (entries : Entries) (cachedAt : Nat) :
    ∃ entry, Reads cache (cache.store uid entries cachedAt).2 uid cachedAt
      (cache.store uid entries cachedAt).1 entries entry := by
  obtain ⟨entry, hget, -, hage, hcases⟩ := InnerCache.get_store cache uid entries cachedAt
  refine ⟨entry, hget, ?_, hage, ?_⟩
  · rcases hcases with ⟨hvalue, -⟩ | ⟨old, -, heq, hvalue, -⟩
    · exact .inl hvalue.symm
    · rw [hvalue]
      exact Same.symm (.inr heq)
  · rcases hcases with ⟨-, hseen⟩ | ⟨old, hold, -, hvalue, hseen⟩
    · exact .inl hseen
    · exact .inr ⟨old, hold, hvalue, hseen⟩

namespace LiveState

/-! ## What was sent and what is cached -/

/-- The client has what its last ping found of a board, `v` for `f`.  What has come into the cache
since then is younger than that ping's look at it. -/
structure CaughtBy (s : LiveState) (board : Board) (uid : String) (f : Found)
    (v : Entries) : Prop where
  found : s.found board = some f
  map : f.uid = uid
  sent : s.lastSent board uid = some v
  entries : Same v f.entries
  cached : ∃ c, f.cached = some c ∧ Same v c
  before : f.readAt ≤ s.clock board
  since : ∀ entry, (s.cache board).map.get uid = some entry →
    Same v entry.value ∨ f.readAt ≤ entry.firstSeen

def Caught (s : LiveState) (board : Board) (uid : String) : Prop :=
  ∃ f v, s.CaughtBy board uid f v

/-- The client keeps a board as long as pings send nothing of it and the cache takes in nothing
old. -/
theorem Caught.frame {s s' : LiveState} {board : Board} {uid : String} (h : s.Caught board uid)
    (hfound : s'.found board = s.found board) (hsent : s'.lastSent board uid = s.lastSent board uid)
    (hclock : s.clock board ≤ s'.clock board)
    (hcache : ∀ entry, (s'.cache board).map.get uid = some entry →
      s.clock board ≤ entry.firstSeen ∨ ∃ old, (s.cache board).map.get uid = some old ∧
        entry.value = old.value ∧ entry.firstSeen = old.firstSeen) : s'.Caught board uid := by
  obtain ⟨f, v, hcaught⟩ := h
  refine ⟨f, v, hfound.trans hcaught.found, hcaught.map, hsent.trans hcaught.sent,
    hcaught.entries, hcaught.cached, Nat.le_trans hcaught.before hclock, fun entry hget => ?_⟩
  rcases hcache entry hget with hnew | ⟨old, hold, hvalue, hseen⟩
  · exact .inr (Nat.le_trans hcaught.before hnew)
  · rw [hvalue, hseen]
    exact hcaught.since old hold

variable {s : LiveState} {p : Ping} {readAt age now : Nat} {entries : Entries} {cache : BoardCache}
  {entry : CacheEntry Entries}

/-- A ping that sends a board leaves the client with it. -/
theorem lastSent_answer (h : p.mapChanged = true ∨ age ≤ sendTtl) :
    (s.answer p readAt age entries cache).lastSent p.board p.uid = some entries := by
  rw [lastSent, answer]
  dsimp only
  rw [if_pos h, List.find?_cons_of_pos (by simp)]
  rfl

theorem lastSent_answer_skip (h : ¬(p.mapChanged = true ∨ age ≤ sendTtl)) (board : Board)
    (uid : String) :
    (s.answer p readAt age entries cache).lastSent board uid = s.lastSent board uid := by
  rw [lastSent, answer]
  dsimp only
  rw [if_neg h]
  rfl

theorem lastSent_answer_of_ne {board : Board} (h : board ≠ p.board) (uid : String) :
    (s.answer p readAt age entries cache).lastSent board uid = s.lastSent board uid := by
  by_cases hsend : p.mapChanged = true ∨ age ≤ sendTtl
  · rw [lastSent, answer]
    dsimp only
    rw [if_pos hsend, List.find?_cons_of_neg (by simp [h.symm])]
    rfl
  · exact lastSent_answer_skip hsend board uid

/-- A ping leaves the client with the board that it reads: either it sends the board, or the board
is as old as the look of the ping before and the client has it. -/
theorem answer_caught (hreads : Reads (s.cache p.board) cache p.uid now age entries entry)
    (hcaught : p.mapChanged = false → s.Caught p.board p.uid)
    (htime : ∀ f, p.mapChanged = false → s.found p.board = some f →
      now ≤ f.readAt + sendTtl) : (s.answer p readAt age entries cache).Caught p.board p.uid := by
  let f : Found :=
    { readAt, uid := p.uid, entries, cached := (cache.map.get p.uid).map CacheEntry.value }
  have hfound : (s.answer p readAt age entries cache).found p.board = some f :=
    Function.update_self _ _ _
  have hclock : (s.answer p readAt age entries cache).clock p.board = readAt :=
    Function.update_self _ _ _
  have hcache : (s.answer p readAt age entries cache).cache p.board = cache :=
    Function.update_self _ _ _
  -- it is enough that the client has an equal board
  have henough : ∀ v, (s.answer p readAt age entries cache).lastSent p.board p.uid = some v →
      Same v entries →
      (s.answer p readAt age entries cache).Caught p.board p.uid := by
    intro v hsent hsame
    refine ⟨f, v, hfound, rfl, hsent, hsame, ⟨entry.value, ?_, hsame.trans hreads.same⟩,
      hclock.ge, ?_⟩
    · show (cache.map.get p.uid).map CacheEntry.value = some entry.value
      rw [hreads.get]
      rfl
    · intro entry' hget
      rw [hcache, hreads.get] at hget
      cases hget
      exact .inl (hsame.trans hreads.same)
  by_cases hsend : p.mapChanged = true ∨ age ≤ sendTtl
  · exact henough entries (lastSent_answer hsend) (Same.refl entries)
  · obtain ⟨hsameMap, hold⟩ := not_or.1 hsend
    obtain ⟨f₀, v, hcaught⟩ := hcaught (Bool.eq_false_of_not_eq_true hsameMap)
    have hlate := htime f₀ (Bool.eq_false_of_not_eq_true hsameMap) hcaught.found
    refine henough v ((lastSent_answer_skip hsend _ _).trans hcaught.sent) ?_
    rcases hreads.origin with hnew | ⟨old, hget, hvalue, hseen⟩
    · rw [hreads.age, hnew, Nat.sub_self] at hold
      exact absurd (Nat.zero_le sendTtl) hold
    · rcases hcaught.since old hget with hsame | hyoung
      · exact (hvalue ▸ hsame : Same v entry.value).trans hreads.same.symm
      · have hage := hreads.age
        omega

/-- A ping leaves the other board alone. -/
theorem answer_frame {board : Board} {uid : String} (h : s.Caught board uid)
    (hne : board ≠ p.board) : (s.answer p readAt age entries cache).Caught board uid := by
  have hcache : (s.answer p readAt age entries cache).cache board = s.cache board :=
    Function.update_of_ne hne _ _
  have hclock : (s.answer p readAt age entries cache).clock board = s.clock board :=
    Function.update_of_ne hne _ _
  refine h.frame (Function.update_of_ne hne _ _) (lastSent_answer_of_ne hne uid) hclock.ge ?_
  intro entry hget
  rw [hcache] at hget
  exact .inr ⟨entry, hget, rfl, rfl⟩

/-! ## Runs -/

/-- Between two pings the client has both boards.  During a ping it has those that the ping has
read, and on the same map those that it is still to read. -/
structure Settled (s : LiveState) : Prop where
  idle : s.ping = none → ∀ uid, s.lastPingMapUid = some uid → Watched uid →
    ∀ board, s.Caught board uid
  map : ∀ p, s.ping = some p → s.lastPingMapUid = some p.uid
  pinging : ∀ p, s.ping = some p → ∀ board,
    p.mapChanged = false ∨ p.board = .livePlayers ∧ board = .mapLb → s.Caught board p.uid

theorem settled_connected (cache : Board → BoardCache) (clock : Board → Nat) :
    (connected cache clock).Settled where
  idle := by
    intro _ uid hmap
    cases hmap
  map := by
    intro p hp
    cases hp
  pinging := by
    intro p hp
    cases hp

/-- What happens outside the pings of the client. -/
theorem Settled.frame {s s' : LiveState} (h : s.Settled) (hping : s'.ping = s.ping)
    (hmap : s'.lastPingMapUid = s.lastPingMapUid)
    (hcaught : ∀ board uid, s.Caught board uid → s'.Caught board uid) : s'.Settled where
  idle := by
    rw [hping, hmap]
    intro hidle uid hlast hwatched board
    exact hcaught board uid (h.idle hidle uid hlast hwatched board)
  map := by
    rw [hping, hmap]
    exact h.map
  pinging := by
    rw [hping]
    intro p hp board hboard
    exact hcaught board p.uid (h.pinging p hp board hboard)

theorem Settled.reply (h : s.Settled) (board : Board) (uid : String) (entries : Entries) :
    Settled { s with sent := { board, uid, entries, byPing := false } :: s.sent } := by
  refine h.frame rfl rfl fun board' uid' hcaught => hcaught.frame rfl ?_ (Nat.le_refl _) ?_
  · rw [lastSent, List.find?_cons_of_neg (by simp)]
    rfl
  · intro entry hget
    exact .inr ⟨entry, hget, rfl, rfl⟩

theorem Settled.purge (h : s.Settled) (board : Board) (now : Nat) :
    Settled { s with cache := Function.update s.cache board ((s.cache board).purge now) } := by
  refine h.frame rfl rfl fun board' uid hcaught => hcaught.frame rfl rfl (Nat.le_refl _) ?_
  intro entry hget
  refine .inr ⟨entry, ?_, rfl, rfl⟩
  rcases eq_or_ne board' board with rfl | hne
  · simp only [Function.update_self] at hget
    exact InnerCache.get_purge hget
  · simp only [Function.update_of_ne hne] at hget
    exact hget

/-- A fetch of somebody else puts an entry into the cache that is younger than all looks before
it. -/
theorem Settled.store (h : s.Settled) {board : Board} {key : String} {entries : Entries}
    {cachedAt : Nat} (hclock : s.clock board ≤ cachedAt) :
    Settled { s with
      cache := Function.update s.cache board ((s.cache board).store key entries cachedAt).2
      clock := Function.update s.clock board cachedAt } := by
  refine h.frame rfl rfl fun board' uid hcaught => ?_
  rcases eq_or_ne board' board with rfl | hne
  · have htime : Function.update s.clock board' cachedAt board' = cachedAt :=
      Function.update_self _ _ _
    refine hcaught.frame rfl rfl (hclock.trans htime.ge) fun entry hget => ?_
    simp only [Function.update_self] at hget
    rcases eq_or_ne uid key with rfl | hkey
    · obtain ⟨entry', hreads⟩ := store_reads (s.cache board') uid entries cachedAt
      rw [hreads.get] at hget
      cases hget
      rcases hreads.origin with hnew | hold
      · exact .inl (hclock.trans hnew.ge)
      · exact .inr hold
    · rw [InnerCache.get_store_of_ne hkey] at hget
      exact .inr ⟨entry, hget, rfl, rfl⟩
  · have htime : Function.update s.clock board cachedAt board' = s.clock board' :=
      Function.update_of_ne hne _ _
    refine hcaught.frame rfl rfl htime.ge fun entry hget => ?_
    simp only [Function.update_of_ne hne] at hget
    exact .inr ⟨entry, hget, rfl, rfl⟩

/-- The ping meets nothing fresh under the read lock. -/
theorem Settled.miss (h : s.Settled) (hp : s.ping = some p) (hclock : s.clock p.board ≤ readAt) :
    Settled { s with
      clock := Function.update s.clock p.board readAt
      clientClock := readAt
      ping := some { p with missed := true } } := by
  have hcaught : ∀ board uid, s.Caught board uid → Caught { s with
      clock := Function.update s.clock p.board readAt
      clientClock := readAt
      ping := some { p with missed := true } } board uid := by
    intro board uid hcaught
    refine hcaught.frame rfl rfl ?_ fun entry hget => .inr ⟨entry, hget, rfl, rfl⟩
    show s.clock board ≤ Function.update s.clock p.board readAt board
    rcases eq_or_ne board p.board with rfl | hne
    · rw [Function.update_self]
      exact hclock
    · rw [Function.update_of_ne hne]
  constructor
  · intro hidle
    cases hidle
  · intro p' hp'
    cases hp'
    exact h.map p hp
  · intro p' hp' board hboard
    cases hp'
    exact hcaught board p.uid (h.pinging p hp board hboard)

/-- The ping reads a board. -/
theorem Settled.answer (h : s.Settled) (hp : s.ping = some p)
    (hreads : Reads (s.cache p.board) cache p.uid now age entries entry)
    (htime : ∀ f, p.mapChanged = false → s.found p.board = some f →
      now ≤ f.readAt + sendTtl) : (s.answer p readAt age entries cache).Settled := by
  have hread : (s.answer p readAt age entries cache).Caught p.board p.uid :=
    answer_caught hreads (fun hsame => h.pinging p hp p.board (.inl hsame)) htime
  have hother : ∀ board, board ≠ p.board → s.Caught board p.uid →
      (s.answer p readAt age entries cache).Caught board p.uid :=
        fun board hne hcaught => answer_frame hcaught hne
  cases hboard : p.board with
  | mapLb =>
      have hping : (s.answer p readAt age entries cache).ping =
          some { p with board := .livePlayers, missed := false } := by rw [LiveState.answer, hboard]
      constructor
      · intro hidle
        rw [hping] at hidle
        cases hidle
      · intro p' hp'
        rw [hping] at hp'
        cases hp'
        exact h.map p hp
      · intro p' hp' board hcase
        rw [hping] at hp'
        cases hp'
        rcases eq_or_ne board p.board with rfl | hne
        · exact hread
        · rcases hcase with hsame | ⟨-, rfl⟩
          · exact hother board hne (h.pinging p hp board (.inl hsame))
          · exact absurd hboard.symm hne
  | livePlayers =>
      have hping : (s.answer p readAt age entries cache).ping = none := by
        rw [LiveState.answer, hboard]
      constructor
      · intro _ uid hlast _ board
        have huid : s.lastPingMapUid = some uid := hlast
        rw [h.map p hp] at huid
        cases huid
        cases board with
        | mapLb =>
            refine hother .mapLb ?_ (h.pinging p hp .mapLb (.inr ⟨hboard, rfl⟩))
            rw [hboard]
            exact Board.noConfusion
        | livePlayers =>
            rw [← hboard]
            exact hread
      · intro p' hp'
        rw [hping] at hp'
        cases hp'
      · intro p' hp'
        rw [hping] at hp'
        cases hp'

/-- The next ping, perhaps on another map. -/
theorem Settled.ping (h : s.Settled) (hidle : s.ping = none) (arrived : Nat) (map : Option String) :
    Settled { s with
      clientClock := arrived
      lastPingMapUid := (updateLastMap s.lastPingMapUid map).1
      ping := (map.filter fun uid => Watched uid).map fun uid =>
        { uid, mapChanged := (updateLastMap s.lastPingMapUid map).2, board := .mapLb,
          missed := false } } := by
  have hlast : (updateLastMap s.lastPingMapUid map).1 = map := by
    unfold updateLastMap
    split
    · rename_i hsame
      exact hsame
    · rfl
  have hkeep : ∀ board uid, s.Caught board uid → Caught { s with
      clientClock := arrived
      lastPingMapUid := (updateLastMap s.lastPingMapUid map).1
      ping := (map.filter fun uid => Watched uid).map fun uid =>
        { uid, mapChanged := (updateLastMap s.lastPingMapUid map).2, board := .mapLb,
          missed := false } }
      board uid := fun board uid hcaught =>
    hcaught.frame rfl rfl (Nat.le_refl _) fun entry hget => .inr ⟨entry, hget, rfl, rfl⟩
  constructor
  · intro hnone uid huid hwatched board
    simp only [hlast] at huid
    subst huid
    simp [hwatched] at hnone
  · intro p hp
    obtain ⟨uid, huid, rfl⟩ := Option.map_eq_some_iff.1 hp
    exact hlast.trans (Option.filter_eq_some_iff.1 huid).1
  · intro p hp board hcase
    obtain ⟨uid, huid, rfl⟩ := Option.map_eq_some_iff.1 hp
    obtain ⟨rfl, hwatched⟩ := Option.filter_eq_some_iff.1 huid
    rcases hcase with hsame | ⟨hboard, -⟩
    · have hstay : s.lastPingMapUid = some uid := by
        unfold updateLastMap at hsame
        split at hsame
        · rename_i hsame'
          exact hsame'
        · cases hsame
      exact hkeep board uid (h.idle hidle uid hstay (of_decide_eq_true hwatched) board)
    · cases hboard

theorem Settled.step {e : LiveEvent} {s' : LiveState} (h : s.Settled) (hstep : s.step e = some s')
    (htime : s.ReadsOnTime e) : s'.Settled := by
  cases e with
  | ping arrived map =>
      rw [LiveState.step] at hstep
      split at hstep
      · rename_i hready
        cases hstep
        exact h.ping (Option.isNone_iff_eq_none.1 hready.1) arrived map
      · cases hstep
  | look now readAt =>
      obtain ⟨p, hp, hstep⟩ := Option.bind_eq_some_iff.1 hstep
      split at hstep
      · rename_i hready
        cases hlook : (s.cache p.board).look p.uid cacheTtl now with
        | some answer =>
            rw [hlook] at hstep
            cases hstep
            obtain ⟨entry, hreads⟩ := look_reads hlook
            have haged : s.agedAt (.look now readAt) = some now := by simp [agedAt, hp, hlook]
            exact h.answer hp hreads fun f hsame hfound => htime p hp f hfound now haged hsame
        | none =>
            rw [hlook] at hstep
            cases hstep
            exact h.miss hp hready.2.2.2
      · cases hstep
  | write now fresh cachedAt =>
      obtain ⟨p, hp, hstep⟩ := Option.bind_eq_some_iff.1 hstep
      split at hstep
      · cases hlook : (s.cache p.board).look p.uid cacheTtl now with
        | some answer =>
            have haged : s.agedAt (.write now fresh cachedAt) = some now := by
              simp [agedAt, hp, hlook]
            rw [InnerCache.refresh, hlook] at hstep
            cases hstep
            obtain ⟨entry, hreads⟩ := look_reads hlook
            exact h.answer hp hreads fun f hsame hfound => htime p hp f hfound now haged hsame
        | none =>
            have haged : s.agedAt (.write now fresh cachedAt) = some cachedAt := by
              simp [agedAt, hp, hlook]
            rw [InnerCache.refresh, hlook] at hstep
            cases hstep
            obtain ⟨entry, hreads⟩ := store_reads (s.cache p.board) p.uid fresh cachedAt
            exact h.answer hp hreads fun f hsame hfound => htime p hp f hfound cachedAt haged hsame
      · cases hstep
  | reply board uid entries =>
      cases hstep
      exact h.reply board uid entries
  | refresh board key ttl now fresh cachedAt =>
      rw [LiveState.step] at hstep
      split at hstep
      · rename_i hready
        rcases InnerCache.refresh_cases (s.cache board) key ttl now fresh cachedAt with
          ⟨age, value, -, hrefresh⟩ | ⟨e, -, hrefresh⟩ | ⟨value, -, hrefresh⟩
        · rw [hrefresh] at hstep
          cases hstep
          exact h
        · rw [hrefresh] at hstep
          cases hstep
          exact h
        · rw [hrefresh] at hstep
          cases hstep
          exact h.store (Nat.le_trans hready.1 hready.2)
      · cases hstep
  | purge board now =>
      cases hstep
      exact h.purge board now

theorem Settled.run {events : List LiveEvent} {s s' : LiveState} (h : s.Settled)
    (hrun : s.run events = some s') (htimes : s.OnTime events) : s'.Settled := by
  induction events generalizing s with
  | nil =>
      cases hrun
      exact h
  | cons e events ih =>
      obtain ⟨s₁, hstep, hrun⟩ := Option.bind_eq_some_iff.1 hrun
      exact ih (h.step hstep htimes.1) hrun (htimes.2 s₁ hstep)

/-- After a ping the last message of each board that pings sent for the current map is what the ping
was given and what was cached then. -/
def Delivered (s : LiveState) : Prop :=
  s.ping = none → ∀ uid, s.lastPingMapUid = some uid → Watched uid → ∀ board, ∃ f v,
    s.found board = some f ∧ f.uid = uid ∧ s.lastSent board uid = some v ∧
      Same v f.entries ∧
      ∃ c, f.cached = some c ∧ Same v c

theorem Settled.delivered (h : s.Settled) : s.Delivered := by
  intro hidle uid hmap hwatched board
  obtain ⟨f, v, hcaught⟩ := h.idle hidle uid hmap hwatched board
  exact ⟨f, v, hcaught.found, hcaught.map, hcaught.sent, hcaught.entries, hcaught.cached⟩

/-- Pings that read the boards on time miss nothing, whatever everybody else does to the caches. -/
theorem live_boards_delivered {cache : Board → BoardCache} {clock : Board → Nat}
    {events : List LiveEvent} {s : LiveState} (hrun : (connected cache clock).run events = some s)
    (htimes : (connected cache clock).OnTime events) : s.Delivered :=
  ((settled_connected cache clock).run hrun htimes).delivered

/-! ## Boards that a client does not have -/

/-- The last message with a board of a map that the client got. -/
def lastMessage (s : LiveState) (board : Board) (uid : String) : Option Entries :=
  (s.sent.find? fun m => m.board = board ∧ m.uid = uid).map BoardMessage.entries

/-- After a ping the last message with a board of the current map is what was cached then. -/
def Shown (s : LiveState) : Prop :=
  s.ping = none → ∀ uid, s.lastPingMapUid = some uid → Watched uid → ∀ board, ∃ f c v,
    s.found board = some f ∧ f.cached = some c ∧ s.lastMessage board uid = some v ∧ Same v c

/-- Two pings in a row with the same map arrive at most `sendTtl` apart. -/
def PingsSpaced (events : List LiveEvent) : Prop :=
  (events.filterMap fun e => match e with
    | .ping arrived map => some (arrived, map)
    | _ => none).IsChain fun a b => a.2 = b.2 → b.1 ≤ a.1 + sendTtl

instance (events : List LiveEvent) : Decidable (PingsSpaced events) :=
  inferInstanceAs (Decidable (List.IsChain _ _))

def connectedEmpty : LiveState := connected (fun _ => .default 0) (fun _ => 0)

/-- The map of the runs. -/
def cup : String := "CupOfTheDay_abcdefghijklmno"

/-- A board of one entry. -/
def boardAt (ts : Nat) : Entries := [{ standingOf "Ana" ⟨0⟩ with ts }]

/-- A ping that finds both boards stale; the leaderboard takes `delay` to fetch. -/
def stalePing (arrived : Nat) (entries : Entries) (delay : Nat) : List LiveEvent :=
  [.ping arrived (some cup), .look arrived arrived, .write arrived entries (arrived + delay),
    .look (arrived + delay) (arrived + delay), .write (arrived + delay) [] (arrived + delay)]

/-- Somebody else refreshes the leaderboard between two pings. -/
def refreshedBetween : List LiveEvent :=
  stalePing 10 (boardAt 1) 2 ++ [.refresh .mapLb cup cacheTtl 9100 (.ok (boardAt 2)) 9105,
    .ping 9500 (some cup), .look 9500 9500, .look 9500 9500, .write 9500 [] 9505]

theorem live_boards_delivered_refreshed : ∃ s, connectedEmpty.run refreshedBetween = some s ∧
    s.Delivered := by
  have hsome : (connectedEmpty.run refreshedBetween).isSome = true := by decide
  obtain ⟨s, hrun⟩ := Option.isSome_iff_exists.1 hsome
  exact ⟨s, hrun, live_boards_delivered hrun (by decide)⟩

/-- Somebody else refreshes the leaderboard just after a ping has read it, and the next ping,
`sendTtl` later, fetches it again. -/
def refreshedAfter : List LiveEvent :=
  [.refresh .mapLb cup cacheTtl 0 (.ok (boardAt 1)) 0, .ping 8999 (some cup), .look 8999 8999,
    .look 8999 8999, .write 8999 [] 8999, .refresh .mapLb cup cacheTtl 9000
      (.ok (boardAt 2)) 9000] ++
  stalePing 19999 (boardAt 2) 2

/-- The client asks for another page of the leaderboard between two pings. -/
def pageBetween : List LiveEvent :=
  stalePing 10 (boardAt 1) 0 ++ stalePing 9500 (boardAt 1) 0 ++ [.reply .mapLb cup []] ++
    stalePing 18900 (boardAt 1) 0

/-- What the runs leave: the last message and what was cached at the last ping. -/
def leaves (s : LiveState) : Option Entries × Option Entries × Option String × Bool :=
  (s.lastMessage .mapLb cup, (s.found .mapLb).bind Found.cached, s.lastPingMapUid, s.ping.isNone)

theorem not_shown {s : LiveState} {v c : Entries} (h : s.leaves = (some v, some c, some cup, true))
    (hother : ¬ Same v c) : ¬ s.Shown := by
  intro hshown
  simp only [leaves, Prod.mk.injEq] at h
  obtain ⟨hmessage, hcached, hmap, hidle⟩ := h
  obtain ⟨f, c', v', hfound, hcached', hmessage', hsame⟩ :=
    hshown (Option.isNone_iff_eq_none.1 hidle) cup hmap (by decide) .mapLb
  rw [hmessage] at hmessage'
  rw [hfound, Option.bind_some, hcached'] at hcached
  cases hmessage'
  cases hcached
  exact hother hsame

/-- A client can miss a board though its pings arrive in time, and though they read the boards in
time it can be left with another page. -/
theorem live_boards_missed :
    (¬ ∀ cache clock events s, (connected cache clock).run events = some s →
      PingsSpaced events → (∀ board uid entries, .reply board uid entries ∉ events) →
      s.Shown) ∧
    ¬ ∀ cache clock events s, (connected cache clock).run events = some s →
      PingsSpaced events → (connected cache clock).OnTime events → s.Shown := by
  constructor
  · intro h
    have hleaves : (connectedEmpty.run refreshedAfter).map leaves =
        some (some (boardAt 1), some (boardAt 2), some cup, true) := by decide
    obtain ⟨s, hrun, hleft⟩ := Option.map_eq_some_iff.1 hleaves
    refine not_shown hleft (by decide) (h _ _ refreshedAfter s hrun (by decide) ?_)
    intro board uid entries hm
    simp [refreshedAfter, stalePing] at hm
  · intro h
    have hleaves : (connectedEmpty.run pageBetween).map leaves =
        some (some [], some (boardAt 1), some cup, true) := by decide
    obtain ⟨s, hrun, hleft⟩ := Option.map_eq_some_iff.1 hleaves
    exact not_shown hleft (by decide) (h _ _ pageBetween s hrun (by decide) (by decide))

end LiveState

end Server2

end Dd2Server
