import Dd2Server.Nadeo.Admission

/-!
# Lookups at Nadeo

The author verifier and the record verifier answer from a cache.  What is not there is looked up by
one caller for each key, who has the guard of the gate of the key: the others wait, and look into
the cache again.  The steps of the callers interleave in every way, and between them the time
passes, backends answer or fail, and callers are dropped while they wait.
-/

namespace Dd2Server

namespace Nadeo

open Limits

/-- What the two verifiers differ in.  A key of type `κ` is looked up for a map of an account, the
backend answers with an `α`, and a caller gets a `ρ`. -/
structure Service (κ α ρ : Type) where
  keyOf : Uuid → String → κ
  /-- The answers with the positive TTL. -/
  positive : α → Bool
  reply : α → Except String ρ
  capacity : Nat
  positiveTtl : Nat
  negativeTtl : Nat
  limits : AdmissionLimits
  concurrency : Nat
  capacityExceeded : String
  admissionExceeded : String
  /-- How often a recheck looks, 0 if there are no rechecks. -/
  recentAttempts : Nat

namespace CachedMapAuthorVerifier

def withConfig (capacity positiveTtl negativeTtl : Nat) (limits : AdmissionLimits)
    (concurrency : Nat) : Service String (Option Uuid) Uuid where
  keyOf _ mapUid := mapUid
  positive := Option.isSome
  reply value := value.elim (.error "Nadeo map author not found") .ok
  capacity := capacity
  positiveTtl := positiveTtl
  negativeTtl := negativeTtl
  limits := limits
  concurrency := concurrency
  capacityExceeded := "Nadeo map author single-flight capacity exceeded"
  admissionExceeded := "Nadeo map author lookup admission limit exceeded"
  recentAttempts := 0

def new : Service String (Option Uuid) Uuid :=
  withConfig cacheCapacity (secs (15 * 60)) (secs 60) limits 8

end CachedMapAuthorVerifier

namespace CachedOfficialRecordVerifier

def withConfig (capacity positiveTtl negativeTtl : Nat) (limits : AdmissionLimits)
    (concurrency : Nat) : Service (Uuid × String) Bool Bool where
  keyOf accountId mapUid := (accountId, mapUid)
  positive value := value
  reply := .ok
  capacity := capacity
  positiveTtl := positiveTtl
  negativeTtl := negativeTtl
  limits := limits
  concurrency := concurrency
  capacityExceeded := "Nadeo official-record single-flight capacity exceeded"
  admissionExceeded := "Nadeo official-record lookup admission limit exceeded"
  recentAttempts := 3

def new : Service (Uuid × String) Bool Bool :=
  withConfig cacheCapacity (secs (15 * 60)) (secs 90) limits 16

end CachedOfficialRecordVerifier

/-- `CachedMapAuthor` and `CachedRecord`. -/
structure Cached (α : Type) where
  value : α
  obtained : Nat
  deriving DecidableEq

/-- What a lookup leaves with, `none` if its caller was dropped. -/
abbrev Outcome (α : Type) := Option (Except String α)

/-- Where a caller is.  Its lookup has a clone of the gate of the key from `waits` to `drops`, the
guard of that gate from `rechecks` to `unlocks`, and a permit of `outbound` while it fetches and
releases. -/
inductive Stage (κ α : Type)
  | begins
  | looks
  | gates
  /-- With the lock of the registry, which is full: these gates are still to be looked at. -/
  | scans (unchecked : List (κ × Nat))
  | waits (gate : Nat)
  | rechecks (gate : Nat)
  | admits (gate : Nat)
  | queues (gate : Nat)
  | fetches (gate flight : Nat)
  | releases (gate : Nat) (outcome : Outcome α)
  | unlocks (gate : Nat) (outcome : Outcome α)
  | drops (gate : Nat) (outcome : Outcome α)
  | answered (outcome : Outcome α)
  | sleeps (wake : Nat)
  | done

/-- A call of `author_id_for_uid` or `has_official_record`, or a recheck by
`has_recent_official_record`. -/
structure Caller (κ α : Type) where
  accountId : Uuid
  key : κ
  recent : Bool
  attempt : Nat := 0
  negativeNotBefore : Option Nat := none
  stage : Stage κ α := .begins

/-- What is noted of a run, besides the time. -/
inductive Event (κ α ρ : Type)
  | called (caller : Nat) (key : κ) (recent : Bool)
  /-- A caller takes an answer from the cache. -/
  | looked (caller : Nat) (value : α)
  /-- A fetch begins at the backend. -/
  | fetching (caller flight : Nat) (key : κ)
  | fetched (caller flight : Nat) (key : κ) (answer : Except String α)
  | returned (caller : Nat) (result : Except String ρ)

structure Verifier (κ α ρ : Type) where
  answers : LruCache κ (Cached α)
  keyGates : LruCache κ Nat
  admission : Admission
  outbound : Nat
  callers : List (Caller κ α) := []
  /-- How many gates were made. -/
  allocated : Nat := 0
  /-- How many fetches began. -/
  flights : Nat := 0
  now : Nat
  /-- The latest first. -/
  log : List (Nat × Event κ α ρ) := []

inductive Move (α : Type)
  | call (accountId : Uuid) (mapUid : String) (recent : Bool)
  | go (caller : Nat)
  | fetched (caller : Nat) (answer : Except String α)
  /-- A caller is dropped at an `await`. -/
  | drop (caller : Nat)
  | pass (nanos : Nat)

namespace Stage

variable {κ α : Type}

/-- The gate a caller has a clone of. -/
def gate : Stage κ α → Option Nat
  | waits gate | rechecks gate | admits gate | queues gate | fetches gate _ => some gate
  | releases gate _ | unlocks gate _ | drops gate _ => some gate
  | _ => none

/-- The gate a caller has the guard of. -/
def guard : Stage κ α → Option Nat
  | rechecks gate | admits gate | queues gate | fetches gate _ => some gate
  | releases gate _ | unlocks gate _ => some gate
  | _ => none

/-- The lock of the registry is taken. -/
def scanning : Stage κ α → Bool
  | scans _ => true
  | _ => false

end Stage

variable {κ α ρ : Type} [DecidableEq κ]

def Service.ttl (sv : Service κ α ρ) (value : α) : Nat :=
  if sv.positive value then sv.positiveTtl else sv.negativeTtl

/-- `cached_author` and `cached_record`: the former has no `negativeNotBefore`. -/
def cached (sv : Service κ α ρ) (answers : LruCache κ (Cached α)) (key : κ)
    (negativeNotBefore : Option Nat) (now : Nat) : LruCache κ (Cached α) × Option α :=
  match answers.get key with
  | (answers, none) => (answers, none)
  | (answers, some cached) =>
      if sv.ttl cached.value ≤ now - cached.obtained then (answers.pop key, none)
      else if !sv.positive cached.value && negativeNotBefore.any fun required => cached.obtained <
        required
      then (answers, none)
      else (answers, some cached.value)

namespace Verifier

def new (sv : Service κ α ρ) (now : Nat) : Verifier κ α ρ where
  answers := .empty (max sv.capacity 1) (by omega)
  keyGates := .empty (max sv.capacity 1) (by omega)
  admission := .new sv.capacity now
  outbound := max sv.concurrency 1
  now := now

/-- `Arc::strong_count`. -/
def strongCount (st : Verifier κ α ρ) (gate : Nat) : Nat :=
  st.keyGates.entries.countP (fun e => e.2 = gate) +
    st.callers.countP fun c => c.stage.gate = some gate

/-- A caller is at a stage from now on. -/
def moves (st : Verifier κ α ρ) (i : Nat) (c : Caller κ α) (stage : Stage κ α) :
    Verifier κ α ρ :=
  { st with callers := st.callers.set i { c with stage } }

def note (st : Verifier κ α ρ) (e : Event κ α ρ) : Verifier κ α ρ :=
  { st with log := (st.now, e) :: st.log }

/-- `key_gate` makes a gate. -/
def newGate (st : Verifier κ α ρ) (key : κ) : Verifier κ α ρ :=
  { st with keyGates := st.keyGates.put key st.allocated, allocated := st.allocated + 1 }

/-- The next step of `has_recent_official_record` after a lookup answered; the other calls
return. -/
def concludes (sv : Service κ α ρ) (st : Verifier κ α ρ) (i : Nat) (c : Caller κ α) :
    Except String α → Verifier κ α ρ
  | .error error => (st.note (.returned i (.error error))).moves i c .done
  | .ok value =>
      if c.recent && !sv.positive value && c.attempt + 1 < sv.recentAttempts then
        st.moves i c (.sleeps (st.now + millis (250 * 2 ^ c.attempt)))
      else (st.note (.returned i (sv.reply value))).moves i c .done

/-- The next step of `author_id_for_uid` or `lookup`. -/
def advance (sv : Service κ α ρ) (st : Verifier κ α ρ) (i : Nat) (c : Caller κ α) :
    Option (Verifier κ α ρ) :=
  match c.stage with
  | .begins =>
      some (st.moves i { c with negativeNotBefore := if c.recent then some st.now else none }
        .looks)
  | .looks =>
      match cached sv st.answers c.key c.negativeNotBefore st.now with
      | (answers, some value) =>
          some (({ st with answers }.note (.looked i value)).moves i c
            (.answered (some (.ok value))))
      | (answers, none) => some ({ st with answers }.moves i c .gates)
  | .gates =>
      if st.callers.any fun c' => c'.stage.scanning then none
      else
        match st.keyGates.get c.key with
        | (keyGates, some gate) => some ({ st with keyGates }.moves i c (.waits gate))
        | (keyGates, none) =>
            if keyGates.cap ≤ keyGates.entries.length then
              some ({ st with keyGates }.moves i c (.scans keyGates.entries))
            else some (({ st with keyGates }.newGate c.key).moves i c (.waits st.allocated))
  | .scans [] => some (st.moves i c (.answered (some (.error sv.capacityExceeded))))
  | .scans (e :: unchecked) =>
      if st.strongCount e.2 = 1 then
        some (({ st with keyGates := st.keyGates.pop e.1 }.newGate c.key).moves i c
          (.waits st.allocated))
      else some (st.moves i c (.scans unchecked))
  | .waits gate =>
      if st.callers.any fun c' => c'.stage.guard = some gate then none
      else some (st.moves i c (.rechecks gate))
  | .rechecks gate =>
      match cached sv st.answers c.key c.negativeNotBefore st.now with
      | (answers, some value) =>
          some (({ st with answers }.note (.looked i value)).moves i c
            (.unlocks gate (some (.ok value))))
      | (answers, none) => some ({ st with answers }.moves i c (.admits gate))
  | .admits gate =>
      match admitAt sv.limits st.admission c.accountId st.now with
      | (admission, true) => some ({ st with admission }.moves i c (.queues gate))
      | (admission, false) =>
          some ({ st with admission }.moves i c
            (.unlocks gate (some (.error sv.admissionExceeded))))
  | .queues gate =>
      if st.outbound = 0 then none
      else
        let st' := { st with outbound := st.outbound - 1, flights := st.flights + 1 }
        some ((st'.note (.fetching i st.flights c.key)).moves i c (.fetches gate st.flights))
  | .fetches _ _ => none
  | .releases gate outcome =>
      some ({ st with outbound := st.outbound + 1 }.moves i c (.unlocks gate outcome))
  | .unlocks gate outcome => some (st.moves i c (.drops gate outcome))
  | .drops _ outcome => some (st.moves i c (.answered outcome))
  | .answered none => some (st.moves i c .done)
  | .answered (some result) => some (st.concludes sv i c result)
  | .sleeps wake =>
      if st.now < wake then none else some (st.moves i { c with attempt := c.attempt + 1 } .begins)
  | .done => none

/-- The answer of the backend comes, and is put into the cache if it is one. -/
def fetched (st : Verifier κ α ρ) (i : Nat) (c : Caller κ α) (answer : Except String α) :
    Option (Verifier κ α ρ) :=
  match c.stage with
  | .fetches gate flight =>
      let st' := st.note (.fetched i flight c.key answer)
      match answer with
      | .ok value =>
          some ({ st' with answers := st.answers.put c.key ⟨value, st.now⟩ }.moves i c
            (.releases gate (some (.ok value))))
      | .error error => some (st'.moves i c (.releases gate (some (.error error))))
  | _ => none

/-- A caller is dropped where it awaits, or before it was polled. -/
def dropped (st : Verifier κ α ρ) (i : Nat) (c : Caller κ α) : Option (Verifier κ α ρ) :=
  match c.stage with
  | .begins | .sleeps _ => some (st.moves i c .done)
  | .waits gate => some (st.moves i c (.drops gate none))
  | .queues gate => some (st.moves i c (.unlocks gate none))
  | .fetches gate _ => some (st.moves i c (.releases gate none))
  | _ => none

/-- One step of a caller, of its owner, of the backend or of the clock. -/
def step (sv : Service κ α ρ) (st : Verifier κ α ρ) : Move α → Option (Verifier κ α ρ)
  | .call accountId mapUid recent =>
      if recent && sv.recentAttempts = 0 then none
      else
        let key := sv.keyOf accountId mapUid
        some { st.note (.called st.callers.length key recent) with
          callers := st.callers ++ [{ accountId, key, recent }] }
  | .go i => st.callers[i]?.bind fun c => st.advance sv i c
  | .fetched i answer => st.callers[i]?.bind fun c => st.fetched i c answer
  | .drop i => st.callers[i]?.bind fun c => st.dropped i c
  | .pass nanos => some { st with now := st.now + nanos }

/-- The verifier after some steps. -/
def run (sv : Service κ α ρ) (st : Verifier κ α ρ) :
    List (Move α) → Option (Verifier κ α ρ)
  | [] => some st
  | m :: moves => (st.step sv m).bind fun st' => st'.run sv moves

/-- What the interleavings reach from a new verifier. -/
inductive Reached (sv : Service κ α ρ) : Verifier κ α ρ → Prop
  | new (now : Nat) : Reached sv (.new sv now)
  | step {st st' : Verifier κ α ρ} {m : Move α} :
      Reached sv st → st.step sv m = some st' → Reached sv st'

theorem Reached.run {sv : Service κ α ρ} {st st' : Verifier κ α ρ} {moves : List (Move α)}
    (h : Reached sv st) (hrun : st.run sv moves = some st') : Reached sv st' := by
  induction moves generalizing st with
  | nil =>
      cases hrun
      exact h
  | cons m moves ih =>
      obtain ⟨st₁, h₁, hrun⟩ := Option.bind_eq_some_iff.1 hrun
      exact ih (.step h h₁) hrun

end Verifier

end Nadeo

end Dd2Server
