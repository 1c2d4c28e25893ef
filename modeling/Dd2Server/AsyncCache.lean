import Dd2Server.Entries
import Dd2Server.Limits.KeyMap
import Mathlib.Algebra.Group.Nat.Defs
import Mathlib.Data.List.Induction

/-!
# The shared cache of query results

`get_or_insert_with` takes the read lock, then the write lock, then both of them again to purge.
Each of these is a section of its own here, so that the sections of several callers can be
interleaved.  The clock readings of a call and the result of its fetch are arguments.

A fetched value is compared with the cached one through the equality of its type.  For a leaderboard
entry this is an equality of some of its fields.
-/

namespace Dd2Server

open Limits

/-! ## Sections -/

structure CacheEntry (V : Type) where
  value : V
  firstSeen : Nat
  lastChecked : Nat
  deriving DecidableEq

/-- The cached entries; times are in milliseconds. -/
structure InnerCache (K V : Type) where
  map : KeyMap K (CacheEntry V)
  lastScanned : Nat
  purgeAfter : Nat

/-- `Default` of a cache, made at an instant. -/
def InnerCache.default {K V : Type} (now : Nat) : InnerCache K V :=
  { map := .empty, lastScanned := now, purgeAfter := 600000 }

/-- The age and the value of an entry that was checked within the `ttl`. -/
def CacheEntry.hit {V : Type} (entry : CacheEntry V) (ttl now : Nat) : Option (Nat × V) :=
  if now < entry.lastChecked + ttl then some (now - entry.firstSeen, entry.value) else none

/-- The entry after a fetch. -/
def CacheEntry.modify {V : Type} [BEq V] (entry : CacheEntry V) (value : V) (cachedAt : Nat) :
    CacheEntry V :=
  let entry := if entry.value != value then { entry with value, firstSeen := cachedAt } else entry
  { entry with lastChecked := cachedAt }

namespace InnerCache

variable {K V E : Type} [DecidableEq K]

/-- What the read lock shows. -/
def look (cache : InnerCache K V) (key : K) (ttl now : Nat) : Option (Nat × V) :=
  (cache.map.get key).bind fun entry => entry.hit ttl now

/-- A fetched value goes into the cache; its age is returned. -/
def store [BEq V] (cache : InnerCache K V) (key : K) (value : V) (cachedAt : Nat) :
    Nat × InnerCache K V :=
  match cache.map.get key with
  | some entry =>
      let entry := entry.modify value cachedAt
      (cachedAt - entry.firstSeen, { cache with map := cache.map.insert key entry })
  | none =>
      (0, { cache with
        map := cache.map.insert key { value, firstSeen := cachedAt, lastChecked := cachedAt } })

/-- The purge under the write lock; the clock was read before the read lock. -/
def purge (cache : InnerCache K V) (now : Nat) : InnerCache K V :=
  { cache with
    map := cache.map.retain fun _ entry => now - entry.lastChecked < cache.purgeAfter
    lastScanned := now }

def checkPurgeOld (cache : InnerCache K V) (now : Nat) : InnerCache K V :=
  if now - cache.lastScanned < cache.purgeAfter then cache else cache.purge now

/-- What a caller meets under the write lock. -/
inductive Written (K V E : Type)
  /-- Somebody else has refreshed the entry. -/
  | hit (age : Nat) (value : V)
  | failed (e : E)
  | fetched (age : Nat) (value : V) (cache : InnerCache K V)

/-- Under the write lock the entry is looked at again, by a clock reading of its own, and then
fetched. -/
def refresh [BEq V] (cache : InnerCache K V) (key : K) (ttl now : Nat) (fresh : Except E V)
    (cachedAt : Nat) : Written K V E :=
  match cache.look key ttl now with
  | some (age, value) => .hit age value
  | none =>
      match fresh with
      | .error e => .failed e
      | .ok value =>
          .fetched (cache.store key value cachedAt).1 value (cache.store key value cachedAt).2

/-- The arguments of a call with what it reads off the clock and off its source. -/
structure Call (K V E : Type) where
  key : K
  ttl : Nat
  now : Nat
  recheck : Nat
  fresh : Except E V
  cachedAt : Nat
  scannedAt : Nat

/-- A call that nobody interrupts. -/
def getOrInsertWith [BEq V] (cache : InnerCache K V) (c : Call K V E) :
    Except E (Nat × V) × InnerCache K V :=
  match cache.look c.key c.ttl c.now with
  | some answer => (.ok answer, cache)
  | none =>
      match cache.refresh c.key c.ttl c.recheck c.fresh c.cachedAt with
      | .hit age value => (.ok (age, value), cache)
      | .failed e => (.error e, cache)
      | .fetched age value cache => (.ok (age, value), cache.checkPurgeOld c.scannedAt)

/-- The value that a call fetches, if it does and succeeds. -/
def Call.fetches [BEq V] (cache : InnerCache K V) (c : Call K V E) : Option V :=
  match cache.look c.key c.ttl c.now with
  | some _ => none
  | none =>
      match cache.refresh c.key c.ttl c.recheck c.fresh c.cachedAt with
      | .fetched _ value _ => some value
      | _ => none

/-- The cache after some calls. -/
def after [BEq V] (cache : InnerCache K V) (calls : List (Call K V E)) : InnerCache K V :=
  calls.foldl (fun cache c => (cache.getOrInsertWith c).2) cache

/-- The value that was fetched last for a key. -/
def lastFetch [BEq V] (key : K) : (cache : InnerCache K V) → List (Call K V E) → Option V
  | _, [] => none
  | cache, c :: calls =>
      (lastFetch key (cache.getOrInsertWith c).2 calls).or
        (if c.key = key then c.fetches cache else none)

/-! ## Sections and entries -/

theorem look_eq_some {cache : InnerCache K V} {key : K} {ttl now age : Nat} {value : V} :
    cache.look key ttl now = some (age, value) ↔ ∃ entry, cache.map.get key = some entry ∧
      now < entry.lastChecked + ttl ∧ age = now - entry.firstSeen ∧ value = entry.value := by
  unfold look CacheEntry.hit
  constructor
  · intro h
    obtain ⟨entry, hget, h⟩ := Option.bind_eq_some_iff.1 h
    split at h
    · rename_i hlt
      cases h
      exact ⟨entry, hget, hlt, rfl, rfl⟩
    · cases h
  · rintro ⟨entry, hget, hlt, rfl, rfl⟩
    rw [hget, Option.bind_some, if_pos hlt]

/-- A purge keeps entries as they are or drops them. -/
theorem get_purge {cache : InnerCache K V} {now : Nat} {key : K} {entry : CacheEntry V}
    (h : (cache.purge now).map.get key = some entry) : cache.map.get key = some entry :=
  (KeyMap.get_retain.1 h).1

theorem get_checkPurgeOld {cache : InnerCache K V} {now : Nat} {key : K} {entry : CacheEntry V}
    (h : (cache.checkPurgeOld now).map.get key = some entry) : cache.map.get key = some entry := by
  unfold checkPurgeOld at h
  split at h
  · exact h
  · exact get_purge h

section Store

variable [BEq V]

/-- What a fetch makes of an entry that was there. -/
theorem modify_cases (entry : CacheEntry V) (value : V) (cachedAt : Nat) :
    entry.modify value cachedAt = { value, firstSeen := cachedAt, lastChecked := cachedAt } ∨
      (entry.value == value) = true ∧
      entry.modify value cachedAt = { entry with lastChecked := cachedAt } := by
  unfold CacheEntry.modify bne
  cases h : entry.value == value with
  | true => exact .inr ⟨rfl, rfl⟩
  | false => exact .inl rfl

theorem get_store_of_ne {cache : InnerCache K V} {key key' : K} {value : V} {cachedAt : Nat}
    (h : key' ≠ key) : (cache.store key value cachedAt).2.map.get key' = cache.map.get key' := by
  unfold store
  split <;> exact KeyMap.get_insert_of_ne _ _ h

/-- The entry that a fetch leaves is the fetched value from now on, or the old one if they are equal
to the type. -/
theorem get_store (cache : InnerCache K V) (key : K) (value : V) (cachedAt : Nat) : ∃ entry,
    (cache.store key value cachedAt).2.map.get key = some entry ∧ entry.lastChecked = cachedAt ∧
      (cache.store key value cachedAt).1 = cachedAt - entry.firstSeen ∧
      (entry.value = value ∧ entry.firstSeen = cachedAt ∨
        ∃ old, cache.map.get key = some old ∧ (old.value == value) = true ∧
        entry.value = old.value ∧ entry.firstSeen = old.firstSeen) := by
  unfold store
  cases hget : cache.map.get key with
  | none =>
      refine ⟨_, KeyMap.get_insert_self _ _ _, rfl, ?_, .inl ⟨rfl, rfl⟩⟩
      exact (Nat.sub_self cachedAt).symm
  | some old =>
      refine ⟨_, KeyMap.get_insert_self _ _ _, rfl, rfl, ?_⟩
      rcases modify_cases old value cachedAt with hnew | ⟨heq, hold⟩
      · rw [hnew]
        exact .inl ⟨rfl, rfl⟩
      · rw [hold]
        exact .inr ⟨old, rfl, heq, rfl, rfl⟩

/-- The three ways through the write lock. -/
theorem refresh_cases (cache : InnerCache K V) (key : K) (ttl now : Nat) (fresh : Except E V)
    (cachedAt : Nat) :
    (∃ age value, cache.look key ttl now = some (age, value) ∧
      cache.refresh key ttl now fresh cachedAt = .hit age value) ∨
    (∃ e, fresh = .error e ∧ cache.refresh key ttl now fresh cachedAt = .failed e) ∨
    ∃ value, fresh = .ok value ∧ cache.refresh key ttl now fresh cachedAt =
      .fetched (cache.store key value cachedAt).1 value (cache.store key value cachedAt).2 := by
  unfold refresh
  cases hlook : cache.look key ttl now with
  | some answer => exact .inl ⟨answer.1, answer.2, rfl, rfl⟩
  | none =>
      cases fresh with
      | error e => exact .inr (.inl ⟨e, rfl, rfl⟩)
      | ok value => exact .inr (.inr ⟨value, rfl, rfl⟩)

/-! ## Agreement with the source -/

/-- A cached value is the value fetched last, or equal to it to its type. -/
def Agrees (cache : InnerCache K V) (last : K → Option V) : Prop :=
  ∀ key entry, cache.map.get key = some entry → ∃ w, last key = some w ∧
    (entry.value = w ∨ (entry.value == w) = true)

theorem Agrees.look {cache : InnerCache K V} {last : K → Option V}
    (h : cache.Agrees last) {key : K} {ttl now age : Nat} {value : V}
    (hlook : cache.look key ttl now = some (age, value)) :
    ∃ w, last key = some w ∧ (value = w ∨ (value == w) = true) := by
  obtain ⟨entry, hget, -, -, rfl⟩ := look_eq_some.1 hlook
  exact h key entry hget

theorem Agrees.store {cache : InnerCache K V} {last : K → Option V}
    (h : cache.Agrees last) (key : K) (value : V) (cachedAt : Nat) :
    (cache.store key value cachedAt).2.Agrees fun k => if key = k then some value else last k := by
  intro k entry hget
  rcases eq_or_ne k key with rfl | hne
  · obtain ⟨entry', hget', -, -, hcases⟩ := get_store cache k value cachedAt
    rw [hget] at hget'
    cases hget'
    refine ⟨value, if_pos rfl, ?_⟩
    rcases hcases with ⟨heq, -⟩ | ⟨old, -, heq, hold, -⟩
    · exact .inl heq
    · rw [hold]
      exact .inr heq
  · rw [get_store_of_ne hne] at hget
    obtain ⟨w, hlast, hw⟩ := h k entry hget
    exact ⟨w, (if_neg hne.symm).trans hlast, hw⟩

theorem Agrees.checkPurgeOld {cache : InnerCache K V} {last : K → Option V}
    (h : cache.Agrees last) (now : Nat) : (cache.checkPurgeOld now).Agrees last :=
  fun key entry hget => h key entry (get_checkPurgeOld hget)

/-- The values fetched last after one more call. -/
def lastAfter (cache : InnerCache K V) (c : Call K V E) (last : K → Option V) (key : K) :
    Option V :=
  (if c.key = key then c.fetches cache else none).or (last key)

/-- One call keeps the agreement, and what it returns agrees. -/
theorem Agrees.call {cache : InnerCache K V} {last : K → Option V} (h : cache.Agrees last)
    (c : Call K V E) :
    (cache.getOrInsertWith c).2.Agrees (lastAfter cache c last) ∧
      ∀ age value, (cache.getOrInsertWith c).1 = .ok (age, value) →
        ∃ w, lastAfter cache c last c.key = some w ∧
          (value = w ∨ (value == w) = true ∧ c.fetches cache = none) := by
  -- a call that does not fetch leaves the cache and the last values alone
  have hquiet : c.fetches cache = none → lastAfter cache c last = last := by
    intro hnone
    funext key
    rw [lastAfter, hnone, ite_self, Option.none_or]
  have hanswer : ∀ {ttl now age : Nat} {value : V}, c.fetches cache = none →
      cache.look c.key ttl now = some (age, value) →
        ∃ w, lastAfter cache c last c.key = some w ∧
        (value = w ∨ (value == w) = true ∧ c.fetches cache = none) := by
    intro ttl now age value hnone hlook
    obtain ⟨w, hlast, hw⟩ := h.look hlook
    rw [hquiet hnone]
    exact ⟨w, hlast, hw.imp_right fun heq => ⟨heq, hnone⟩⟩
  cases hlook : cache.look c.key c.ttl c.now with
  | some answer =>
      have hnone : c.fetches cache = none := by rw [Call.fetches, hlook]
      rw [getOrInsertWith, hlook]
      refine ⟨by rw [hquiet hnone]; exact h, fun age value he => ?_⟩
      cases he
      exact hanswer hnone hlook
  | none =>
      rcases refresh_cases cache c.key c.ttl c.recheck c.fresh c.cachedAt with
        ⟨age', value', hlook', hrefresh⟩ | ⟨e, -, hrefresh⟩ | ⟨value', -, hrefresh⟩
      · have hnone : c.fetches cache = none := by rw [Call.fetches, hlook, hrefresh]
        rw [getOrInsertWith, hlook, hrefresh]
        refine ⟨by rw [hquiet hnone]; exact h, fun age value he => ?_⟩
        cases he
        exact hanswer hnone hlook'
      · have hnone : c.fetches cache = none := by rw [Call.fetches, hlook, hrefresh]
        rw [getOrInsertWith, hlook, hrefresh]
        refine ⟨by rw [hquiet hnone]; exact h, fun age value he => ?_⟩
        cases he
      · have hfetches : c.fetches cache = some value' := by rw [Call.fetches, hlook, hrefresh]
        have hlast : lastAfter cache c last = fun k =>
            if c.key = k then some value' else last k := by
          funext key
          rw [lastAfter, hfetches]
          split <;> rfl
        rw [getOrInsertWith, hlook, hrefresh, hlast]
        refine ⟨(h.store c.key value' c.cachedAt).checkPurgeOld c.scannedAt,
          fun age value he => ?_⟩
        cases he
        exact ⟨_, if_pos rfl, .inl rfl⟩

theorem after_snoc (cache : InnerCache K V) (calls : List (Call K V E)) (c : Call K V E) :
    cache.after (calls ++ [c]) = ((cache.after calls).getOrInsertWith c).2 := by
  simp [after]

theorem lastFetch_snoc (cache : InnerCache K V) (calls : List (Call K V E)) (c : Call K V E) :
    (fun key => lastFetch key cache (calls ++ [c])) =
      lastAfter (cache.after calls) c fun key => lastFetch key cache calls := by
  funext key
  induction calls generalizing cache with
  | nil => simp [lastFetch, lastAfter, after]
  | cons c' calls ih =>
      rw [List.cons_append, lastFetch, ih, lastAfter, lastAfter, lastFetch, Option.or_assoc]
      rfl

theorem agrees_after (start : Nat) (calls : List (Call K V E)) :
    (after (default start) calls).Agrees fun key => lastFetch key (default start) calls := by
  induction calls using List.reverseRecOn with
  | nil =>
      intro key entry hget
      cases hget
  | append_singleton calls c ih =>
      rw [after_snoc, lastFetch_snoc]
      exact (ih.call c).1

/-- A value that a call returns is the one fetched last for its key if the call fetches; a value
found in the cache is that one or equal to it to its type. -/
theorem returned_agrees (start : Nat) (calls : List (Call K V E)) (c : Call K V E)
    {age : Nat} {value : V}
    (hanswer : ((after (default start) calls).getOrInsertWith c).1 = .ok (age, value)) :
    ∃ w, lastFetch c.key (default start) (calls ++ [c]) = some w ∧
      (value = w ∨ (value == w) = true ∧ c.fetches (after (default start) calls) = none) ∧
      (LawfulBEq V → value = w) := by
  obtain ⟨w, hlast, hw⟩ := ((agrees_after start calls).call c).2 age value hanswer
  have hsnoc := congrFun (lastFetch_snoc (default start) calls c) c.key
  refine ⟨w, hsnoc.trans hlast, hw, fun _ => ?_⟩
  rcases hw with heq | ⟨heq, -⟩
  · exact heq
  · exact eq_of_beq heq

end Store

end InnerCache

/-! ## Leaderboard entries -/

/-- An `f64` by its bits. -/
structure F64 where
  bits : BitVec 64
  deriving DecidableEq

namespace F64

def magnitude (x : F64) : Nat := x.bits.toNat % 2 ^ 63

def isNan (x : F64) : Bool := 0x7FF0000000000000 < x.magnitude

/-- A NaN equals nothing, and the two zeros equal each other. -/
instance : BEq F64 where
  beq x y := !x.isNan && !y.isNan && (x.bits = y.bits || x.magnitude = 0 && y.magnitude = 0)

abbrev Triple := F64 × F64 × F64

end F64

/-- The `PartialEq` of the source, which is about the cheap fields only. -/
instance : BEq (LeaderboardEntry2 F64.Triple F64.Triple) where
  beq x y := x.ts == y.ts && x.rank == y.rank && x.pos == y.pos && x.updateCount == y.updateCount &&
    x.raceTime == y.raceTime

instance : PartialEquivBEq F64 where
  symm {x y} h := by
    simp only [BEq.beq, Bool.and_eq_true, Bool.or_eq_true, decide_eq_true_eq,
      Bool.not_eq_true'] at h ⊢
    obtain ⟨⟨hx, hy⟩, hxy⟩ := h
    exact ⟨⟨hy, hx⟩, hxy.imp Eq.symm And.symm⟩
  trans {x y z} h h' := by
    simp only [BEq.beq, Bool.and_eq_true, Bool.or_eq_true, decide_eq_true_eq,
      Bool.not_eq_true'] at h h' ⊢
    obtain ⟨⟨hx, -⟩, hxy⟩ := h
    obtain ⟨⟨-, hz⟩, hyz⟩ := h'
    refine ⟨⟨hx, hz⟩, ?_⟩
    rcases hxy with hxy | hxy
    · rcases hyz with hyz | hyz
      · exact .inl (hxy.trans hyz)
      · rw [F64.magnitude, ← hxy] at hyz
        exact .inr hyz
    · rcases hyz with hyz | hyz
      · rw [F64.magnitude, F64.magnitude, hyz] at hxy
        exact .inr hxy
      · exact .inr ⟨hxy.1, hyz.2⟩

instance partialEquivBEq_prod {α β : Type} [BEq α] [BEq β] [PartialEquivBEq α]
    [PartialEquivBEq β] : PartialEquivBEq (α × β) where
  symm {x y} h := by
    obtain ⟨h₁, h₂⟩ := Bool.and_eq_true_iff.1 h
    exact Bool.and_eq_true_iff.2 ⟨BEq.symm h₁, BEq.symm h₂⟩
  trans {x y z} h h' := by
    obtain ⟨h₁, h₂⟩ := Bool.and_eq_true_iff.1 h
    obtain ⟨h₁', h₂'⟩ := Bool.and_eq_true_iff.1 h'
    exact Bool.and_eq_true_iff.2 ⟨BEq.trans h₁ h₁', BEq.trans h₂ h₂'⟩

theorem LeaderboardEntry2.beq_iff {x y : LeaderboardEntry2 F64.Triple F64.Triple} :
    (x == y) = true ↔ x.ts = y.ts ∧ x.rank = y.rank ∧ (x.pos == y.pos) = true ∧
      x.updateCount = y.updateCount ∧ x.raceTime = y.raceTime := by
  show (x.ts == y.ts && x.rank == y.rank && x.pos == y.pos && x.updateCount == y.updateCount &&
    x.raceTime == y.raceTime) = true ↔ _
  simp only [Bool.and_eq_true, beq_iff_eq, and_assoc]

instance : PartialEquivBEq (LeaderboardEntry2 F64.Triple F64.Triple) where
  symm h := by
    obtain ⟨hts, hrank, hpos, hcount, htime⟩ := LeaderboardEntry2.beq_iff.1 h
    exact LeaderboardEntry2.beq_iff.2 ⟨hts.symm, hrank.symm, BEq.symm hpos,
      hcount.symm, htime.symm⟩
  trans h h' := by
    obtain ⟨hts, hrank, hpos, hcount, htime⟩ := LeaderboardEntry2.beq_iff.1 h
    obtain ⟨hts', hrank', hpos', hcount', htime'⟩ := LeaderboardEntry2.beq_iff.1 h'
    exact LeaderboardEntry2.beq_iff.2 ⟨hts.trans hts', hrank.trans hrank', BEq.trans hpos hpos',
      hcount.trans hcount', htime.trans htime'⟩

instance partialEquivBEq_list {α : Type} [BEq α] [PartialEquivBEq α] :
    PartialEquivBEq (List α) where
  symm {x y} h := by
    induction x generalizing y with
    | nil =>
        cases y with
        | nil => rfl
        | cons b y => cases h
    | cons a x ih =>
        cases y with
        | nil => cases h
        | cons b y =>
            obtain ⟨hhead, htail⟩ := Bool.and_eq_true_iff.1 h
            exact Bool.and_eq_true_iff.2 ⟨BEq.symm hhead, ih htail⟩
  trans {x y z} h h' := by
    induction x generalizing y z with
    | nil =>
        cases y with
        | nil => exact h'
        | cons b y => cases h
    | cons a x ih =>
        cases y with
        | nil => cases h
        | cons b y =>
            cases z with
            | nil => cases h'
            | cons c z =>
                obtain ⟨hhead, htail⟩ := Bool.and_eq_true_iff.1 h
                obtain ⟨hhead', htail'⟩ := Bool.and_eq_true_iff.1 h'
                exact Bool.and_eq_true_iff.2 ⟨BEq.trans hhead hhead', ih htail htail'⟩

/-- The entry of a player, under any name and in any colour. -/
def standingOf (name : String) (red : F64) : LeaderboardEntry2 F64.Triple F64.Triple :=
  { rank := 1, wsid := "0a1b2c3d-0000-4000-8000-000000000001",
    pos := (⟨0⟩, ⟨0x4059000000000000⟩, ⟨0⟩),
    ts := 1700000000, name, updateCount := 3, color := (red, ⟨0⟩, ⟨0⟩), raceTime := 4200 }

/-- A call for a board, which takes no time. -/
def boardCall (now : Nat) (board : List (LeaderboardEntry2 F64.Triple F64.Triple)) :
    InnerCache.Call String (List (LeaderboardEntry2 F64.Triple F64.Triple)) Unit :=
  { key := "Cup", ttl := 9000, now, recheck := now, fresh := .ok board, cachedAt := now,
    scannedAt := now }

/-- The board is fetched, and fetched again when a player has a new name, and the third call is a
hit: it returns a board that equals the one fetched last to its type. -/
theorem returned_agrees_renamed :
    InnerCache.lastFetch "Cup" (.default 0)
      [boardCall 10 [standingOf "Ana" ⟨0⟩], boardCall 9500 [standingOf "Anna" ⟨0⟩],
        boardCall 9600 []] = some [standingOf "Anna" ⟨0⟩] ∧
    ([standingOf "Ana" ⟨0⟩] == [standingOf "Anna" ⟨0⟩]) = true ∧
    ¬LawfulBEq (List (LeaderboardEntry2 F64.Triple F64.Triple)) := by
  have hanswer : ((InnerCache.after (.default 0) [boardCall 10 [standingOf "Ana" ⟨0⟩],
      boardCall 9500 [standingOf "Anna" ⟨0⟩]]).getOrInsertWith (boardCall 9600 [])).1 =
      .ok (9590, [standingOf "Ana" ⟨0⟩]) := rfl
  have hfetched : InnerCache.lastFetch "Cup" (.default 0) [boardCall 10 [standingOf "Ana" ⟨0⟩],
      boardCall 9500 [standingOf "Anna" ⟨0⟩],
        boardCall 9600 []] = some [standingOf "Anna" ⟨0⟩] := rfl
  have hne : [standingOf "Ana" ⟨0⟩] ≠ [standingOf "Anna" ⟨0⟩] := by decide
  obtain ⟨w, hlast, hagrees, hlawful⟩ :=
    InnerCache.returned_agrees 0 _ (boardCall 9600 []) hanswer
  obtain rfl : w = [standingOf "Anna" ⟨0⟩] := Option.some.inj (hlast.symm.trans hfetched)
  exact ⟨hfetched, (hagrees.resolve_left hne).1, fun h => hne (hlawful h)⟩

/-- A player takes a new name between two fetches: the next hit returns the old one. -/
theorem returned_differs :
    ¬ ∀ (start : Nat)
      (calls : List (InnerCache.Call String (List (LeaderboardEntry2 F64.Triple F64.Triple)) Unit))
      (c : InnerCache.Call String (List (LeaderboardEntry2 F64.Triple F64.Triple)) Unit)
      (age : Nat) (value : List (LeaderboardEntry2 F64.Triple F64.Triple)),
      ((InnerCache.after (.default start) calls).getOrInsertWith c).1 = .ok (age, value) →
      InnerCache.lastFetch c.key (.default start) (calls ++ [c]) = some value := by
  intro h
  have hsame := h 0 [boardCall 10 [standingOf "Ana" ⟨0⟩],
    boardCall 9500 [standingOf "Anna" ⟨0⟩]]
    (boardCall 9600 []) 9590 [standingOf "Ana" ⟨0⟩] rfl
  exact absurd hsame (by decide)

end Dd2Server
