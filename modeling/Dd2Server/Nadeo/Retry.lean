import Dd2Server.Json
import Dd2Server.Router
import Dd2Server.Nadeo.Admission
import Mathlib.Data.List.Chain

/-!
# Requests that are tried again

A request to Nadeo is sent up to three times.  Between two of them the client sleeps as long as the
server asks for, or 200 ms, then 400 ms where it does not ask.  Times are in nanoseconds.
-/

namespace Dd2Server

namespace Nadeo

open Router

structure HttpResponse where
  status : Nat
  /-- `Display` of the status. -/
  statusText : String
  /-- The `Retry-After` header. -/
  retryAfter : Option String
  body : Except String Bytes

inductive RetryDecision
  | noRetry
  | retryAfter (delay : Nat)
  | exceedsBudget
  deriving DecidableEq

def retryAttempts : Nat := 3

def maxRetryDelay : Nat := secs 2

def backoff (attempt : Nat) : Nat := millis (200 * 2 ^ min attempt 3)

/-- What one attempt meets with. -/
structure Attempt where
  outcome : Except String HttpResponse
  /-- How long the outcome takes. -/
  took : Nat
  /-- `SystemTime::now()` when it is there. -/
  systemTime : Nat
  /-- By how much the sleep after it is longer than asked for. -/
  overslept : Nat

/-- A request that was sent, and how long a sleep was asked for after it. -/
structure HttpRequest where
  sentAt : Nat
  attempt : Attempt
  slept : Option Nat

def HttpRequest.receivedAt (r : HttpRequest) : Nat := r.sentAt + r.attempt.took

/-- What the requests came to. -/
structure Sent where
  result : Except String HttpResponse
  requests : List HttpRequest

section

-- `httpdate::parse_http_date`
variable (parseHttpDate : String → Option Nat)

/-- The delay a `Retry-After` asks for. -/
def requestedDelay (now : Nat) (value : String) : Option Nat :=
  match Text.parseU64 (Text.trim value).toList with
  | some n => some (secs n)
  | none => (parseHttpDate value).map (· - now)

def retryDelay (status : Nat) (retryAfter : Option String) (attempt now : Nat) : RetryDecision :=
  if status ≠ 429 ∧ ¬ (500 ≤ status ∧ status < 600) then .noRetry
  else match retryAfter.bind (requestedDelay parseHttpDate now) with
    | some delay => if maxRetryDelay < delay then .exceedsBudget else .retryAfter delay
    | none => .retryAfter (min (backoff attempt) maxRetryDelay)

/-- The sleep before another attempt, unless the outcome is the result. -/
def Attempt.pause (a : Attempt) (attempt : Nat) : Option Nat :=
  match a.outcome with
  | .ok response =>
      match retryDelay parseHttpDate response.status response.retryAfter attempt a.systemTime with
      | .retryAfter delay => some delay
      | .noRetry => none
      | .exceedsBudget => none
  | .error _ => some (backoff attempt)

/-- The attempts from `attempt` on, the first of them at `clock`; the last one is made with none
left. -/
def sendFrom (attempts : Nat → Attempt) : (left attempt clock : Nat) → Sent
  | 0, attempt, clock =>
      let a := attempts attempt
      { result := a.outcome, requests := [{ sentAt := clock, attempt := a, slept := none }] }
  | left + 1, attempt, clock =>
      let a := attempts attempt
      match a.pause parseHttpDate attempt with
      | none =>
          { result := a.outcome, requests := [{ sentAt := clock, attempt := a, slept := none }] }
      | some delay =>
          let sent := sendFrom attempts left (attempt + 1) (clock + a.took + delay + a.overslept)
          { sent with
            requests := { sentAt := clock, attempt := a, slept := some delay } :: sent.requests }

def sendWithRetry (attempts : Nat → Attempt) (clock : Nat) : Sent :=
  sendFrom parseHttpDate attempts (retryAttempts - 1) 0 clock

/-- The outcome is a 429, a 5xx or a transport failure. -/
def Transient : Except String HttpResponse → Prop
  | .ok response => response.status = 429 ∨ 500 ≤ response.status ∧ response.status < 600
  | .error _ => True

/-- At this time the seconds of the `Retry-After` are over, or its date is not in the future. -/
def HttpRequest.Elapsed (r : HttpRequest) (time : Nat) : Prop :=
  ∀ response value, r.attempt.outcome = .ok response → response.retryAfter = some value →
    match Text.parseU64 (Text.trim value).toList with
    | some n => r.receivedAt + secs n ≤ time
    | none =>
        ∀ date, parseHttpDate value = some date →
          date ≤ r.attempt.systemTime + (time - r.receivedAt)

/-- One request after another. -/
structure HttpRequest.Again (r next : HttpRequest) : Prop where
  transient : Transient r.attempt.outcome
  elapsed : r.Elapsed parseHttpDate next.sentAt

end

variable {parseHttpDate : String → Option Nat} {attempts : Nat → Attempt}

theorem backoff_le {attempt : Nat} (h : attempt < retryAttempts) :
    backoff attempt ≤ maxRetryDelay := by
  have hall : ∀ n < retryAttempts, backoff n ≤ maxRetryDelay := by decide
  exact hall attempt h

/-- A pause is short, follows a transient outcome, and is the delay the server asked for. -/
theorem Attempt.pause_eq_some {a : Attempt} {attempt delay : Nat} (hlast : attempt < retryAttempts)
    (h : a.pause parseHttpDate attempt = some delay) :
    Transient a.outcome ∧ delay ≤ maxRetryDelay ∧
      ∀ response value requested, a.outcome = .ok response →
      response.retryAfter = some value →
      requestedDelay parseHttpDate a.systemTime value = some requested → requested = delay := by
  unfold Attempt.pause at h
  cases houtcome : a.outcome with
  | error e =>
      rw [houtcome] at h
      cases h
      exact ⟨trivial, backoff_le hlast, fun _ _ _ he => nomatch he⟩
  | ok response =>
      rw [houtcome] at h
      dsimp only at h
      have hdecision : retryDelay parseHttpDate response.status response.retryAfter
          attempt a.systemTime =
          .retryAfter delay := by
        split at h
        case h_1 d hd =>
          cases h
          exact hd
        case h_2 => cases h
        case h_3 => cases h
      rw [retryDelay] at hdecision
      split at hdecision
      case isTrue => cases hdecision
      case isFalse hstatus =>
      have htransient : Transient (.ok response) := by
        show response.status = 429 ∨ 500 ≤ response.status ∧ response.status < 600
        tauto
      cases hrequested : response.retryAfter.bind (requestedDelay parseHttpDate a.systemTime) with
      | none =>
          rw [hrequested] at hdecision
          cases hdecision
          refine ⟨htransient, min_le_right _ _, fun r value requested he hvalue hr => ?_⟩
          cases he
          rw [hvalue, Option.bind_some, hr] at hrequested
          cases hrequested
      | some d =>
          rw [hrequested] at hdecision
          dsimp only at hdecision
          split at hdecision
          case isTrue => cases hdecision
          case isFalse hle =>
            cases hdecision
            refine ⟨htransient, not_lt.1 hle, fun r value requested he hvalue hr => ?_⟩
            cases he
            rw [hvalue, Option.bind_some, hr] at hrequested
            exact Option.some.inj hrequested

/-- Where the sleep lasts as long as the pause, the `Retry-After` is over behind it. -/
theorem HttpRequest.elapsed_of_pause {r : HttpRequest} {attempt delay time : Nat}
    (hlast : attempt < retryAttempts) (h : r.attempt.pause parseHttpDate attempt = some delay)
    (htime : r.receivedAt + delay ≤ time) : r.Elapsed parseHttpDate time := by
  obtain ⟨-, -, hdelay⟩ := Attempt.pause_eq_some hlast h
  intro response value houtcome hvalue
  have hrequested := hdelay response value
  simp only [requestedDelay] at hrequested
  split
  case h_1 n hn =>
    rw [hn] at hrequested
    have hd : secs n = delay := hrequested _ houtcome hvalue rfl
    rw [hd]
    exact htime
  case h_2 hn =>
    intro date hdate
    rw [hn, hdate] at hrequested
    have hd : date - r.attempt.systemTime = delay := hrequested _ houtcome hvalue rfl
    omega

/-- What is known of the attempts from one on. -/
structure Sent.Proper (sent : Sent) (parseHttpDate : String → Option Nat)
    (attempts : Nat → Attempt) (left attempt clock : Nat) : Prop where
  first : ∃ r rest, sent.requests = r :: rest ∧ r.sentAt = clock
  count : sent.requests.length ≤ left + 1
  attempts : sent.requests.map HttpRequest.attempt =
    (List.range' attempt sent.requests.length).map attempts
  short : ∀ r ∈ sent.requests, ∀ delay, r.slept = some delay → delay ≤ maxRetryDelay
  again : sent.requests.IsChain (HttpRequest.Again parseHttpDate)
  last : sent.requests.getLast?.map (fun r => r.attempt.outcome) = some sent.result

/-- One attempt that ends it. -/
theorem Sent.Proper.one (left attempt clock : Nat) :
    Sent.Proper { result := (attempts attempt).outcome, requests :=
    [{ sentAt := clock, attempt := attempts attempt, slept := none }] } parseHttpDate attempts left
      attempt clock where
  first := ⟨_, [], rfl, rfl⟩
  count := Nat.le_add_left 1 left
  attempts := rfl
  short := by simp
  again := List.isChain_singleton _
  last := rfl

/-- One attempt before the others. -/
theorem Sent.Proper.more {sent : Sent} {left attempt clock delay : Nat}
    (hlast : attempt < retryAttempts)
    (hpause : (attempts attempt).pause parseHttpDate attempt = some delay)
      (h : sent.Proper parseHttpDate attempts left (attempt + 1) (clock + (attempts attempt).took +
        delay + (attempts attempt).overslept)) : Sent.Proper { sent with requests :=
      { sentAt := clock, attempt := attempts attempt, slept := some delay } :: sent.requests }
      parseHttpDate attempts (left + 1) attempt clock := by
  obtain ⟨next, rest, hrequests, hsentAt⟩ := h.first
  obtain ⟨htransient, hshort, -⟩ := Attempt.pause_eq_some hlast hpause
  refine ⟨⟨_, _, rfl, rfl⟩, Nat.succ_le_succ h.count, ?_, ?_, ?_, ?_⟩
  · dsimp only
    rw [List.map_cons, h.attempts, List.length_cons, List.range'_succ, List.map_cons]
  · intro r hr d hd
    rcases List.mem_cons.1 hr with rfl | hr
    · cases hd
      exact hshort
    · exact h.short r hr d hd
  · have hchain := h.again
    dsimp only
    rw [hrequests] at hchain ⊢
    refine .cons_cons ⟨htransient, HttpRequest.elapsed_of_pause hlast hpause ?_⟩ hchain
    rw [hsentAt]
    exact Nat.le_add_right _ _
  · have hresult := h.last
    dsimp only
    rw [hrequests] at hresult ⊢
    rwa [List.getLast?_cons_cons]

/-- By induction on the attempts that are left. -/
theorem sendFrom_proper (left attempt clock : Nat) (h : left + attempt < retryAttempts) :
    (sendFrom parseHttpDate attempts left attempt clock).Proper parseHttpDate attempts left
      attempt clock := by
  induction left generalizing attempt clock with
  | zero => exact .one 0 attempt clock
  | succ left ih =>
      rw [sendFrom]
      dsimp only
      split
      case h_1 => exact .one (left + 1) attempt clock
      case h_2 delay hpause => exact .more (by omega) hpause (ih (attempt + 1) _ (by omega))

/-- Up to three requests are sent.  One follows another only after a 429, a 5xx or a transport
failure, and not before the server's `Retry-After` is over; no sleep is longer than two seconds, and
the result is the last outcome. -/
theorem sendWithRetry_proper (parseHttpDate : String → Option Nat)
    (attempts : Nat → Attempt) (clock : Nat) :
    let sent := sendWithRetry parseHttpDate attempts clock
    sent.requests.length ≤ 3 ∧
    sent.requests.map HttpRequest.attempt = (List.range sent.requests.length).map attempts ∧
    sent.requests.IsChain (fun r next => Transient r.attempt.outcome ∧
      r.Elapsed parseHttpDate next.sentAt) ∧
    (∀ r ∈ sent.requests, ∀ delay, r.slept = some delay → delay ≤ maxRetryDelay) ∧
    sent.requests.getLast?.map (fun r => r.attempt.outcome) = some sent.result := by
  have h := @sendFrom_proper parseHttpDate attempts (retryAttempts - 1) 0 clock (by decide)
  refine ⟨h.count, ?_, h.again.imp fun r next hr => ⟨hr.transient, hr.elapsed⟩,
    h.short, h.last⟩
  rw [List.range_eq_range']
  exact h.attempts

/-- Three transport failures. -/
example : (sendWithRetry (fun _ => none)
    (fun _ => ⟨.error "connection reset", secs 1, 0, 5⟩) 0).requests.map HttpRequest.sentAt =
      [0, secs 1 + millis 200 + 5, 2 * secs 1 + millis 600 + 10] := by decide

end Nadeo

end Dd2Server
