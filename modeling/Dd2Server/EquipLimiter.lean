import Dd2Server.Runtime
import Dd2Server.Limits.FixedWindow
import Dd2Server.Limits.Lru

/-!
# The limiter of hat equips

A user may equip once in an interval, and all users so often in a window.  The table of the users'
last equips forgets the user who equipped longest ago, but never one whose interval still matters:
with room for the equips of two windows, `equips_apart` holds whatever it forgets.
-/

namespace Dd2Server

open Limits

structure HatEquipRateState where
  attempts : LruCache Uuid Nat
  globalStarted : Nat
  globalCount : Nat

/-- The count of the window, or of a new one if it is over. -/
def HatEquipRateState.renewed (state : HatEquipRateState) (globalWindow now : Nat) :
    HatEquipRateState :=
  if globalWindow ≤ now - state.globalStarted then
    { state with globalStarted := now, globalCount := 0 }
  else state

structure HatEquipRateLimiter where
  state : HatEquipRateState
  perUserInterval : Nat
  globalWindow : Nat
  globalLimit : Nat

namespace HatEquipRateLimiter

def new (capacity perUserInterval globalWindow globalLimit : Nat) (now : Nat) :
    HatEquipRateLimiter where
  state := ⟨.empty (max capacity 1) (LruCache.room capacity), now, 0⟩
  perUserInterval := perUserInterval
  globalWindow := globalWindow
  globalLimit := max globalLimit 1

/-- The limiter of the server; durations are in nanoseconds. -/
def hatEquipLimiter (now : Nat) : HatEquipRateLimiter := new 4096 250000000 1000000000 2048 now

def checkAt (l : HatEquipRateLimiter) (userId : Uuid) (now : Nat) :
    HatEquipRateLimiter × HatEquipRateVerdict :=
  if (l.state.attempts.peek userId).any fun previous => now - previous < l.perUserInterval then
    (l, .perUser)
  else
    let state := l.state.renewed l.globalWindow now
    if l.globalLimit ≤ state.globalCount then ({ l with state }, .global)
    else
      ({ l with state := { state with
          attempts := state.attempts.put userId now
          globalCount := state.globalCount + 1 } }, .allowed)

/-- Equips of users, one after another, and those that were allowed, the latest first. -/
def checkAll (l : HatEquipRateLimiter) (allowed : List (Uuid × Nat)) :
    List (Uuid × Nat) → HatEquipRateLimiter × List (Uuid × Nat)
  | [] => (l, allowed)
  | (userId, now) :: requests =>
      match checkAt l userId now with
      | (l', .allowed) => checkAll l' ((userId, now) :: allowed) requests
      | (l', _) => checkAll l' allowed requests

/-- The moments, the latest first, are at least so far apart. -/
def Apart (interval : Nat) (times : List Nat) : Prop :=
  times.Pairwise fun later earlier => earlier + interval ≤ later

section

variable {l l' : HatEquipRateLimiter} {allowed : List (Uuid × Nat)} {now now' : Nat} {u : Uuid}

/-- What the limiter knows of the equips it allowed.  A user the table forgot equipped before all of
as many others as it has room for. -/
structure Fair (l : HatEquipRateLimiter) (allowed : List (Uuid × Nat)) (now : Nat) : Prop where
  room : 2 * l.globalLimit ≤ l.state.attempts.cap + 1
  interval : l.perUserInterval ≤ l.globalWindow
  global : Windowed l.globalWindow l.globalLimit l.state.globalStarted l.state.globalCount now
    (allowed.map Prod.snd)
  attempts : ∀ u t, l.state.attempts.peek u = some t →
    (u, t) ∈ allowed ∧ ∀ x ∈ timesOf u allowed, x ≤ t
  forgotten : ∀ u, l.state.attempts.peek u = none → ∀ x ∈ timesOf u allowed,
    l.state.attempts.cap < (allowed.map Prod.snd).countP fun y => x ≤ y
  sorted : (l.state.attempts.entries.map Prod.snd).Pairwise (· ≥ ·)
  apart : ∀ u, Apart l.perUserInterval (timesOf u allowed)

theorem Fair.wait (h : Fair l allowed now) (hle : now ≤ now') : Fair l allowed now' :=
  { h with global := h.global.wait hle }

theorem Fair.start {capacity interval window limit : Nat} (hroom : 2 * limit ≤ capacity)
    (hinterval : interval ≤ window) (started now : Nat) :
    Fair (new capacity interval window limit started) [] now where
  room := by
    show 2 * max limit 1 ≤ max capacity 1 + 1
    omega
  interval := hinterval
  global := .start _ _ _ _
  attempts u t h := by simp [new, LruCache.peek, LruCache.empty] at h
  forgotten u _ := by simp
  sorted := by simp [new, LruCache.empty]
  apart u := List.Pairwise.nil

/-- The window starts again if it is over. -/
theorem Fair.renew (h : Fair l allowed now) :
    Fair { l with state := l.state.renewed l.globalWindow now } allowed now := by
  rw [HatEquipRateState.renewed]
  split
  case isTrue hover => exact { h with global := h.global.restart hover }
  case isFalse => exact h

@[simp] theorem renewed_attempts (state : HatEquipRateState) (window now : Nat) :
    (state.renewed window now).attempts = state.attempts := by
  rw [HatEquipRateState.renewed]
  split <;> rfl

theorem renewed_count_le (state : HatEquipRateState) (window now : Nat) :
    (state.renewed window now).globalCount ≤ state.globalCount := by
  rw [HatEquipRateState.renewed]
  split
  · exact Nat.zero_le _
  · exact Nat.le_refl _

/-- An equip that is allowed comes late enough after those of the user: had the table forgotten one
in the interval, two windows would hold too many. -/
theorem Fair.late (h : Fair l allowed now) (hlt : l.state.globalCount < l.globalLimit)
    (huser : ¬(l.state.attempts.peek u).any
      (fun previous => now - previous < l.perUserInterval) = true) :
    ∀ x ∈ timesOf u allowed, x + l.perUserInterval ≤ now := by
  intro x hx
  have hmem := List.mem_map_of_mem (f := Prod.snd) (mem_timesOf.1 hx)
  have hpast := h.global.past x hmem
  cases hpeek : l.state.attempts.peek u with
  | some t =>
      have hle := (h.attempts u t hpeek).2 x hx
      simp only [hpeek, Option.any_some, decide_eq_true_eq] at huser
      omega
  | none =>
      by_contra hlate
      have hinterval := h.interval
      have hroom := h.room
      have hcount := h.forgotten u hpeek x hx
      have hsparse := (h.global.counted hlt).sparse x
      have hall : (allowed.map Prod.snd).countP (fun y => x ≤ y) ≤
          (allowed.map Prod.snd).countP fun y => x ≤ y ∧ y < x + l.globalWindow := by
        apply List.countP_mono_left
        intro y hy hle
        have hpast' := h.global.past y hy
        simp only [decide_eq_true_eq] at hle ⊢
        omega
      rw [List.countP_cons_of_pos] at hsparse
      · omega
      · simp only [decide_eq_true_eq]
        omega

/-- Each user in the table equipped, so a user the table forgets equipped before all of them. -/
theorem Fair.put_forgotten (h : Fair l allowed now) {v : Uuid} (hne : v ≠ u)
    (hgone : (l.state.attempts.put u now).peek v = none) : ∀ x ∈ timesOf v allowed,
      l.state.attempts.cap < (((u, now) :: allowed).map Prod.snd).countP fun y => x ≤ y := by
  intro x hx
  have hpast := h.global.past x (List.mem_map_of_mem (f := Prod.snd) (mem_timesOf.1 hx))
  rw [List.map_cons, List.countP_cons_of_pos (by simpa using hpast)]
  cases hold : l.state.attempts.peek v with
  | none =>
      have hcount := h.forgotten v hold x hx
      omega
  | some t =>
      obtain ⟨hfull, -, older, hentries⟩ := LruCache.forgotten_last hne hold hgone
      have hxt := (h.attempts v t hold).2 x hx
      have hsorted := h.sorted
      have hcount : (l.state.attempts.entries.map Prod.fst).length ≤
          (allowed.map Prod.snd).countP fun y => x ≤ y := by
        apply length_le_countP l.state.attempts.nodup
        intro k hk
        obtain ⟨e, he, rfl⟩ := List.mem_map.1 hk
        refine ⟨e.2, (h.attempts e.1 e.2 (LruCache.peek_eq_some.2 he)).1, ?_⟩
        have hge : t ≤ e.2 := by
          rw [hentries] at he hsorted
          rcases List.mem_append.1 he with he | he
          · rw [List.map_append, List.pairwise_append] at hsorted
            exact hsorted.2.2 e.2 (List.mem_map_of_mem he) t (by simp)
          · rw [List.mem_singleton.1 he]
        simp only [decide_eq_true_eq]
        omega
      rw [List.length_map, hfull] at hcount
      omega

/-- An equip is allowed. -/
theorem Fair.allow (h : Fair l allowed now) (hlt : l.state.globalCount < l.globalLimit)
    (huser : ¬(l.state.attempts.peek u).any
      (fun previous => now - previous < l.perUserInterval) = true) :
    Fair { l with state := { l.state with
        attempts := l.state.attempts.put u now
        globalCount := l.state.globalCount + 1 } } ((u, now) :: allowed) now where
  room := h.room
  interval := h.interval
  global := h.global.counted hlt
  attempts v t hv := by
    rcases eq_or_ne v u with rfl | hne
    · rw [LruCache.peek_put_self] at hv
      obtain rfl := Option.some.inj hv
      refine ⟨List.mem_cons_self, fun x hx => ?_⟩
      rw [mem_timesOf] at hx
      exact (h.global.counted hlt).past x (List.mem_map_of_mem (f := Prod.snd) hx)
    · obtain ⟨hm, hle⟩ := h.attempts v t (LruCache.peek_of_put hne hv)
      rw [timesOf_of_ne hne]
      exact ⟨List.mem_cons_of_mem _ hm, hle⟩
  forgotten v hv := by
    have hne : v ≠ u := by
      rintro rfl
      rw [LruCache.peek_put_self] at hv
      cases hv
    rw [timesOf_of_ne hne]
    exact h.put_forgotten hne hv
  sorted := by
    rw [LruCache.put_entries, List.map_cons, List.pairwise_cons]
    have hsub : ((l.state.attempts.others u).take (l.state.attempts.cap - 1)).Sublist
        l.state.attempts.entries := (List.take_sublist _ _).trans List.filter_sublist
    refine ⟨fun x hx => ?_, h.sorted.sublist (hsub.map _)⟩
    obtain ⟨e, he, rfl⟩ := List.mem_map.1 hx
    have hm := (h.attempts e.1 e.2 (LruCache.peek_eq_some.2 (hsub.subset he))).1
    exact h.global.past e.2 (List.mem_map_of_mem (f := Prod.snd) hm)
  apart v := by
    rcases eq_or_ne v u with rfl | hne
    · rw [timesOf_self]
      exact List.pairwise_cons.2 ⟨h.late hlt huser, h.apart v⟩
    · rw [timesOf_of_ne hne]
      exact h.apart v

/-- One equip. -/
theorem Fair.checkAt (h : Fair l allowed now) (u : Uuid) :
    Fair (l.checkAt u now).1
      (if (l.checkAt u now).2 = .allowed then (u, now) :: allowed else allowed) now := by
  rw [HatEquipRateLimiter.checkAt]
  split
  case isTrue => exact h
  case isFalse huser =>
  have hrenewed := h.renew
  dsimp only
  split
  case isTrue => exact hrenewed
  case isFalse hcount =>
    apply hrenewed.allow (Nat.lt_of_not_le hcount)
    rw [renewed_attempts]
    exact huser

/-- By induction on the equips, in the order in which they come. -/
theorem Fair.checkAll {requests : List (Uuid × Nat)} (h : Fair l allowed now)
    (hnow : ∀ r ∈ requests, now ≤ r.2)
    (hsorted : requests.Pairwise fun r r' => r.2 ≤ r'.2) :
    ∃ now', Fair (l.checkAll allowed requests).1 (l.checkAll allowed requests).2 now' := by
  induction requests generalizing l allowed now with
  | nil => exact ⟨now, h⟩
  | cons r requests ih =>
      obtain ⟨u, t⟩ := r
      obtain ⟨hlater, hrest⟩ := List.pairwise_cons.1 hsorted
      have hstep := (h.wait (hnow (u, t) List.mem_cons_self)).checkAt u
      rw [HatEquipRateLimiter.checkAll]
      split
      case h_1 l' heq =>
        rw [heq, if_pos rfl] at hstep
        exact ih hstep hlater hrest
      case h_2 l' v hne heq =>
        rw [heq, if_neg hne] at hstep
        exact ih hstep hlater hrest

theorem checkAt_settings (l : HatEquipRateLimiter) (u : Uuid) (now : Nat) :
    (l.checkAt u now).1.perUserInterval = l.perUserInterval ∧
      (l.checkAt u now).1.globalWindow = l.globalWindow ∧
      (l.checkAt u now).1.globalLimit = l.globalLimit := by
  rw [HatEquipRateLimiter.checkAt]
  split
  · exact ⟨rfl, rfl, rfl⟩
  · dsimp only
    split <;> exact ⟨rfl, rfl, rfl⟩

theorem checkAll_settings (l : HatEquipRateLimiter) (allowed requests : List (Uuid × Nat)) :
    (l.checkAll allowed requests).1.perUserInterval = l.perUserInterval ∧
      (l.checkAll allowed requests).1.globalWindow = l.globalWindow ∧
      (l.checkAll allowed requests).1.globalLimit = l.globalLimit := by
  induction requests generalizing l allowed with
  | nil => exact ⟨rfl, rfl, rfl⟩
  | cons r requests ih =>
      obtain ⟨u, now⟩ := r
      have hset := checkAt_settings l u now
      rw [HatEquipRateLimiter.checkAll]
      split
      all_goals
        rename_i heq
        rw [heq] at hset
        obtain ⟨hi, hw, hl⟩ := ih _ _
        exact ⟨hi.trans hset.1, hw.trans hset.2.1, hl.trans hset.2.2⟩

/-- A refusal leaves the equips of the users, and counts nothing. -/
theorem checkAt_refused {v : HatEquipRateVerdict} (h : l.checkAt u now = (l', v))
    (hv : v ≠ .allowed) :
    l'.state.attempts = l.state.attempts ∧ l'.state.globalCount ≤ l.state.globalCount := by
  rw [HatEquipRateLimiter.checkAt] at h
  split at h
  case isTrue =>
    cases h
    exact ⟨rfl, Nat.le_refl _⟩
  case isFalse =>
  dsimp only at h
  split at h
  case isTrue =>
    cases h
    exact ⟨renewed_attempts _ _ _, renewed_count_le _ _ _⟩
  case isFalse =>
    cases h
    exact absurd rfl hv

/-- With room for the equips of two windows and an interval no longer than a window: two equips of a
user are an interval apart, at most twice the limit falls in an interval of one window, and a
refusal changes no equip and counts nothing. -/
theorem equips_apart {capacity interval window limit started : Nat} {requests : List (Uuid × Nat)}
    (hroom : 2 * limit ≤ capacity) (hinterval : interval ≤ window)
    (hsorted : requests.Pairwise fun r r' => r.2 ≤ r'.2) :
    (∀ u, Apart interval
      (timesOf u ((new capacity interval window limit started).checkAll [] requests).2)) ∧
    Sparse window (2 * (new capacity interval window limit started).globalLimit)
      (((new capacity interval window limit started).checkAll [] requests).2.map Prod.snd) ∧
    ∀ (l l' : HatEquipRateLimiter) u now v, l.checkAt u now = (l', v) → v ≠ .allowed →
      l'.state.attempts = l.state.attempts ∧ l'.state.globalCount ≤ l.state.globalCount := by
  obtain ⟨now', hfair⟩ := (Fair.start hroom hinterval started 0).checkAll
    (fun r _ => Nat.zero_le r.2)
    hsorted
  obtain ⟨hi, hw, hl⟩ :=
    checkAll_settings (new capacity interval window limit started) [] requests
  have hsparse := hfair.global.sparse
  have happart := hfair.apart
  rw [hw, hl] at hsparse
  rw [hi] at happart
  exact ⟨happart, hsparse, fun l l' u now v h hv => checkAt_refused h hv⟩

end

/-- The limiter of the server, and a user who is too fast once. -/
theorem equips_apart_twice : Apart 250000000
    (timesOf 1 ((hatEquipLimiter 0).checkAll [] [(1, 0), (1, 1000), (1, 300000000)]).2) :=
  (@equips_apart 4096 250000000 1000000000 2048 0 [(1, 0), (1, 1000), (1, 300000000)] (by decide)
    (by decide) (by decide)).1 1

end HatEquipRateLimiter

end Dd2Server
