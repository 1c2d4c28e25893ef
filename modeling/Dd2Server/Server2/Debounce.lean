import Dd2Server.DefaultSlugs
import Dd2Server.Limits.KeyMap

/-!
# The debounce of comment binds

`comment_bind_admit` schedules a lookup for a map whose entry is missing or due, and makes room in a
full table first.  `comment_bind_reschedule` moves the entry of a map whose lookup ended, and puts a
new one into the table if there is none, without a look at its size.
-/

namespace Dd2Server

namespace Server2

open Limits

/-- Debounce bookkeeping for one observed map uid; times are in nanoseconds. -/
structure CommentBindState where
  nextAttempt : Nat
  attempts : Nat
  deriving DecidableEq

abbrev Debounce := KeyMap String CommentBindState

def minutes (n : Nat) : Nat := n * 60 * 1000000000

def commentBindBackoff : Nat → Nat
  | 0 => minutes 5
  | 1 => minutes 15
  | _ => minutes 60

inductive CommentBindAdmission
  | skip
  | schedule
  deriving DecidableEq

/-- A full table forgets the entries that are due, or all if none is. -/
def makeRoom (state : Debounce) (now cap : Nat) : Debounce :=
  if cap ≤ state.size then
    let state := state.retain fun _ entry => now < entry.nextAttempt
    if cap ≤ state.size then .empty else state
  else state

def commentBindAdmit (state : Debounce) (mapUid : String) (now cap : Nat) :
    Debounce × CommentBindAdmission :=
  let state := makeRoom state now cap
  match state.get mapUid with
  | some entry =>
      if now < entry.nextAttempt then (state, .skip)
      else
        let attempts := min (entry.attempts + 1) 255
        (state.insert mapUid { nextAttempt := now + commentBindBackoff attempts, attempts },
          .schedule)
  | none =>
      (state.insert mapUid { nextAttempt := now + commentBindBackoff 0, attempts := 0 }, .schedule)

def commentBindReschedule (state : Debounce) (mapUid : String) (delay : Nat) (resetAttempts : Bool)
    (now : Nat) : Debounce :=
  match state.get mapUid with
  | some entry =>
      state.insert mapUid
        { nextAttempt := now + delay, attempts := if resetAttempts then 0 else entry.attempts }
  | none => state.insert mapUid { nextAttempt := now + delay, attempts := 0 }

/-! ## Runs -/

inductive DebounceCall
  | admission (mapUid : String)
  | reschedule (mapUid : String) (delay : Nat) (resetAttempts : Bool)

/-- The table after a call. -/
def DebounceCall.run (cap now : Nat) (state : Debounce) : DebounceCall → Debounce
  | .admission mapUid => (commentBindAdmit state mapUid now cap).1
  | .reschedule mapUid delay resetAttempts =>
      commentBindReschedule state mapUid delay resetAttempts now

/-- A call that schedules a lookup for a map. -/
def DebounceCall.Schedules (cap now : Nat) (state : Debounce) (mapUid : String) :
    DebounceCall → Prop
  | .admission uid => uid = mapUid ∧ (commentBindAdmit state mapUid now cap).2 = .schedule
  | .reschedule _ _ _ => False

/-- The table on which a call looks up its map: an admission makes room first. -/
def DebounceCall.room (cap now : Nat) (state : Debounce) : DebounceCall → Debounce
  | .admission _ => makeRoom state now cap
  | .reschedule _ _ _ => state

/-- The delay that a call records for a map, if it does. -/
def DebounceCall.records (cap now : Nat) (state : Debounce) (mapUid : String) :
    DebounceCall → Option Nat
  | .admission uid =>
      if uid = mapUid ∧ (commentBindAdmit state mapUid now cap).2 = .schedule then
        ((commentBindAdmit state mapUid now cap).1.get mapUid).map
          fun e => commentBindBackoff e.attempts
      else none
  | .reschedule uid delay _ => if uid = mapUid then some delay else none

/-- Calls with their times, the first one first. -/
abbrev DebounceRun := List (Nat × DebounceCall)

/-- The table after a run. -/
def debounced (cap : Nat) (calls : DebounceRun) : Debounce :=
  calls.foldl (fun state c => c.2.run cap c.1 state) .empty

theorem debounced_snoc (cap : Nat) (calls : DebounceRun) (c : Nat × DebounceCall) :
    debounced cap (calls ++ [c]) = c.2.run cap c.1 (debounced cap calls) := by
  simp [debounced, List.foldl_append]

/-- The delay that a run recorded last for a map, after the calls `before`. -/
def lastDelay (cap : Nat) (mapUid : String) : (before : DebounceRun) → DebounceRun → Option Nat
  | _, [] => none
  | before, c :: calls =>
      (lastDelay cap mapUid (before ++ [c]) calls).or
        (c.2.records cap c.1 (debounced cap before) mapUid)

/-! ## The size of the table -/

/-- The table holds at most `cap` entries all along. -/
def Bounded (cap : Nat) (calls : DebounceRun) : Prop :=
  ∀ pre post, calls = pre ++ post → (debounced cap pre).size ≤ cap

/-- A call keeps the bound: an admission where there is room for one entry at all, a reschedule of a
map that has an entry or finds room for one. -/
def DebounceCall.FindsRoom (cap : Nat) (state : Debounce) : DebounceCall → Prop
  | .admission _ => 0 < cap
  | .reschedule mapUid _ _ => (state.get mapUid).isSome ∨ state.size < cap

theorem size_makeRoom {state : Debounce} {now cap : Nat} (hcap : 0 < cap) :
    (makeRoom state now cap).size < cap := by
  unfold makeRoom
  split
  · dsimp only
    split
    · exact hcap
    · omega
  · omega

theorem size_admission {state : Debounce} {mapUid : String} {now cap : Nat} (hcap : 0 < cap) :
    (commentBindAdmit state mapUid now cap).1.size ≤ cap := by
  have hroom : (makeRoom state now cap).size < cap := size_makeRoom hcap
  have hinsert := fun e => (makeRoom state now cap).size_insert_le mapUid e
  unfold commentBindAdmit
  dsimp only
  split
  · split
    · exact Nat.le_of_lt hroom
    · exact Nat.le_trans (hinsert _) hroom
  · exact Nat.le_trans (hinsert _) hroom

theorem get_admit_isSome (state : Debounce) (mapUid : String) (now cap : Nat) :
    ((commentBindAdmit state mapUid now cap).1.get mapUid).isSome := by
  unfold commentBindAdmit
  dsimp only
  split
  · rename_i entry hget
    split
    · rw [hget]
      rfl
    · simp
  · simp

theorem size_run {cap now : Nat} {state : Debounce} {call : DebounceCall} (h : state.size ≤ cap)
    (hroom : call.FindsRoom cap state) : (call.run cap now state).size ≤ cap := by
  cases call with
  | admission mapUid => exact size_admission hroom
  | reschedule mapUid delay resetAttempts =>
      rw [DebounceCall.run, commentBindReschedule]
      split
      · rename_i entry hget
        rw [KeyMap.size_insert_old _ hget]
        exact h
      · rename_i hget
        rw [KeyMap.size_insert_new _ hget]
        rcases hroom with hsome | hlt
        · rw [hget] at hsome
          cases hsome
        · exact hlt

theorem findsRoom_of_size {cap now : Nat} {state : Debounce} {call : DebounceCall}
    (h : (call.run cap now state).size ≤ cap) : call.FindsRoom cap state := by
  cases call with
  | admission mapUid =>
      obtain ⟨e, he⟩ := Option.isSome_iff_exists.1 (get_admit_isSome state mapUid now cap)
      exact Nat.lt_of_lt_of_le (KeyMap.size_pos he) h
  | reschedule mapUid delay resetAttempts =>
      cases hget : state.get mapUid with
      | some entry => exact .inl (by rw [hget]; rfl)
      | none =>
          simp only [DebounceCall.run, commentBindReschedule, hget, KeyMap.size_insert_new _ hget]
            at h
          exact .inr h

/-- The table stays within its bound exactly where every call finds room. -/
theorem bounded_iff (cap : Nat) (calls : DebounceRun) : Bounded cap calls ↔
    ∀ pre now call post, calls = pre ++ (now, call) :: post →
    call.FindsRoom cap (debounced cap pre) := by
  constructor
  · rintro h pre now call post rfl
    have hsize := h (pre ++ [(now, call)]) post (by simp)
    rw [debounced_snoc] at hsize
    exact findsRoom_of_size hsize
  · rintro h pre post rfl
    induction pre using List.reverseRecOn generalizing post with
    | nil => exact Nat.zero_le cap
    | append_singleton pre c ih =>
        rw [debounced_snoc]
        refine size_run (ih (c :: post) ?_) (h pre c.1 c.2 post (by simp))
        intro pre' now call post' he
        exact h pre' now call post' (by simpa using he)

/-! ## The time between two lookups -/

theorem get_makeRoom {state : Debounce} {now cap : Nat} {mapUid : String} {e : CommentBindState}
    (h : (makeRoom state now cap).get mapUid = some e) : state.get mapUid = some e := by
  unfold makeRoom at h
  split at h
  · dsimp only at h
    split at h
    · cases h
    · exact (KeyMap.get_retain.1 h).1
  · exact h

theorem admit_skip {state : Debounce} {mapUid : String} {now cap : Nat} {e : CommentBindState}
    (h : (makeRoom state now cap).get mapUid = some e) (hlt : now < e.nextAttempt) :
    commentBindAdmit state mapUid now cap = (makeRoom state now cap, .skip) := by
  simp only [commentBindAdmit, h, hlt, if_true]

/-- An admission that schedules a lookup records a backoff from now on. -/
theorem admit_schedule {state : Debounce} {mapUid : String} {now cap : Nat}
    (h : (commentBindAdmit state mapUid now cap).2 = .schedule) : ∃ attempts,
    (commentBindAdmit state mapUid now cap).1 = (makeRoom state now cap).insert mapUid
      { nextAttempt := now + commentBindBackoff attempts, attempts } := by
  unfold commentBindAdmit at h ⊢
  dsimp only at h ⊢
  split at h
  · split at h
    · cases h
    · rename_i hdue
      rw [if_neg hdue]
      exact ⟨_, rfl⟩
  · exact ⟨0, rfl⟩

/-- An admission that schedules a lookup finds the entry due, if there is one. -/
theorem due_of_schedule {state : Debounce} {mapUid : String} {now cap : Nat} {e : CommentBindState}
    (h : (commentBindAdmit state mapUid now cap).2 = .schedule)
    (he : (makeRoom state now cap).get mapUid = some e) : e.nextAttempt ≤ now := by
  refine Nat.le_of_not_lt fun hlt => ?_
  rw [admit_skip he hlt] at h
  cases h

theorem reschedule_eq (state : Debounce) (mapUid : String) (delay : Nat)
    (resetAttempts : Bool) (now : Nat) :
    ∃ attempts, commentBindReschedule state mapUid delay resetAttempts now =
      state.insert mapUid { nextAttempt := now + delay, attempts } := by
  unfold commentBindReschedule
  split
  · exact ⟨_, rfl⟩
  · exact ⟨0, rfl⟩

theorem DebounceCall.Schedules.records {cap now : Nat} {state : Debounce} {mapUid : String}
    {call : DebounceCall} (h : call.Schedules cap now state mapUid) :
      ∃ d e, call.records cap now state mapUid = some d ∧
      (call.run cap now state).get mapUid = some e ∧ e.nextAttempt = now + d := by
  cases call with
  | admission uid =>
      obtain ⟨rfl, hschedule⟩ := h
      obtain ⟨attempts, hstate⟩ := admit_schedule hschedule
      refine ⟨commentBindBackoff attempts, ⟨now + commentBindBackoff attempts, attempts⟩,
        ?_, ?_, rfl⟩
      · rw [DebounceCall.records, if_pos ⟨rfl, hschedule⟩, hstate, KeyMap.get_insert_self]
        rfl
      · rw [DebounceCall.run, hstate, KeyMap.get_insert_self]
  | reschedule uid delay resetAttempts => exact h.elim

/-- A call after `t₁` leaves an entry due no sooner than the delay recorded last after `t₁`,
unless it evicts it. -/
theorem run_keeps {cap now t₁ d : Nat} {state : Debounce} {mapUid : String} {call : DebounceCall}
    {e : CommentBindState} (hle : t₁ ≤ now) (he : (call.room cap now state).get mapUid = some e)
    (hd : t₁ + d ≤ e.nextAttempt) : ∃ e', (call.run cap now state).get mapUid = some e' ∧
      t₁ + (call.records cap now state mapUid).getD d ≤ e'.nextAttempt := by
  cases call with
  | admission uid =>
      cases hanswer : (commentBindAdmit state uid now cap).2 with
      | schedule =>
          rcases eq_or_ne uid mapUid with rfl | hne
          · have hschedules : DebounceCall.Schedules cap now state uid (.admission uid) :=
              ⟨rfl, hanswer⟩
            obtain ⟨d', e', hrecords, hget, hnext⟩ := hschedules.records
            refine ⟨e', hget, ?_⟩
            rw [hrecords, Option.getD_some, hnext]
            omega
          · obtain ⟨attempts, hstate⟩ := admit_schedule hanswer
            refine ⟨e, ?_, ?_⟩
            · rw [DebounceCall.run, hstate, KeyMap.get_insert_of_ne _ _ hne.symm]
              exact he
            · rw [DebounceCall.records, if_neg fun h => hne h.1]
              exact hd
      | skip =>
          refine ⟨e, ?_, ?_⟩
          · have hstate : (commentBindAdmit state uid now cap).1 = makeRoom state now cap := by
              cases hget : (makeRoom state now cap).get uid with
              | none =>
                  simp only [commentBindAdmit, hget] at hanswer
                  cases hanswer
              | some e' =>
                  by_cases hlt : now < e'.nextAttempt
                  · rw [admit_skip hget hlt]
                  · simp only [commentBindAdmit, hget, hlt, if_false] at hanswer
                    cases hanswer
            rw [DebounceCall.run, hstate]
            exact he
          · rw [DebounceCall.records, if_neg fun h => by rw [← h.1, hanswer] at h; cases h.2]
            exact hd
  | reschedule uid delay resetAttempts =>
      obtain ⟨attempts, hstate⟩ := reschedule_eq state uid delay resetAttempts now
      rw [DebounceCall.run, hstate, DebounceCall.records]
      rcases eq_or_ne uid mapUid with rfl | hne
      · refine ⟨_, KeyMap.get_insert_self _ _ _, ?_⟩
        rw [if_pos rfl]
        exact Nat.add_le_add_right hle delay
      · refine ⟨e, ?_, ?_⟩
        · rw [KeyMap.get_insert_of_ne _ _ hne.symm]
          exact he
        · rw [if_neg hne]
          exact hd

theorem lastDelay_snoc (cap : Nat) (mapUid : String) (before calls : DebounceRun)
    (c : Nat × DebounceCall) :
    lastDelay cap mapUid before (calls ++ [c]) =
      (c.2.records cap c.1 (debounced cap (before ++ calls)) mapUid).or
        (lastDelay cap mapUid before calls) := by
  induction calls generalizing before with
  | nil => simp [lastDelay]
  | cons c' calls ih =>
      rw [List.cons_append, lastDelay, ih, lastDelay, List.append_assoc, List.singleton_append,
        Option.or_assoc]

/-- No call of `calls`, which come after `before`, evicts the entry of the map. -/
def Unevicted (cap : Nat) (mapUid : String) (before calls : DebounceRun) : Prop :=
  ∀ mid now call rest, calls = mid ++ (now, call) :: rest →
    ((call.room cap now (debounced cap (before ++ mid))).get mapUid).isSome

/-- Between two lookups of a map whose entry stays, at least the delay recorded last passes. -/
def Spaced (cap : Nat) (calls : DebounceRun) : Prop :=
  ∀ pre t₁ c₁ mid t₂ c₂ post mapUid delay, calls =
    pre ++ (t₁, c₁) :: (mid ++ (t₂, c₂) :: post) →
    c₁.Schedules cap t₁ (debounced cap pre) mapUid →
    c₂.Schedules cap t₂ (debounced cap (pre ++ (t₁, c₁) :: mid)) mapUid →
    Unevicted cap mapUid (pre ++ [(t₁, c₁)]) (mid ++ [(t₂, c₂)]) →
    lastDelay cap mapUid pre ((t₁, c₁) :: mid) = some delay → t₁ + delay ≤ t₂

/-- After a lookup is scheduled at `t₁`, an entry that stays is due no sooner than the delay
recorded last after `t₁`. -/
theorem entry_due {cap t₁ : Nat} {pre mid : DebounceRun} {c₁ : DebounceCall} {mapUid : String}
    (h : c₁.Schedules cap t₁ (debounced cap pre) mapUid) (hlater : ∀ c ∈ mid, t₁ ≤ c.1)
    (hkept : Unevicted cap mapUid (pre ++ [(t₁, c₁)]) mid) :
    ∃ e d, (debounced cap (pre ++ (t₁, c₁) :: mid)).get mapUid = some e ∧
      lastDelay cap mapUid pre ((t₁, c₁) :: mid) = some d ∧ t₁ + d ≤ e.nextAttempt := by
  induction mid using List.reverseRecOn with
  | nil =>
      obtain ⟨d, e, hrecords, hget, hnext⟩ := h.records
      refine ⟨e, d, ?_, ?_, hnext.symm.le⟩
      · rw [debounced_snoc]
        exact hget
      · simp [lastDelay, hrecords]
  | append_singleton mid c ih =>
      obtain ⟨e, d, hget, hdelay, hdue⟩ :=
        ih (fun c' hc' => hlater c' (List.mem_append_left _ hc'))
        fun mid' now call rest he => hkept mid' now call (rest ++ [c]) (by simp [he])
      have hroom := hkept mid c.1 c.2 [] rfl
      rw [List.append_assoc, List.singleton_append] at hroom
      obtain ⟨e₀, he₀⟩ := Option.isSome_iff_exists.1 hroom
      have hsame : e₀ = e := by
        have hget₀ : (debounced cap (pre ++ (t₁, c₁) :: mid)).get mapUid = some e₀ := by
          cases hc : c.2 with
          | admission uid =>
              rw [hc] at he₀
              exact get_makeRoom he₀
          | reschedule uid delay resetAttempts =>
              rw [hc] at he₀
              exact he₀
        rw [hget] at hget₀
        exact (Option.some.inj hget₀).symm
      subst hsame
      obtain ⟨e', hget', hdue'⟩ := run_keeps (hlater c (by simp)) he₀ hdue
      refine ⟨e', _, ?_, ?_, hdue'⟩
      · rw [← List.cons_append, ← List.append_assoc, debounced_snoc]
        exact hget'
      · rw [← List.cons_append, lastDelay_snoc, hdelay]
        cases c.2.records cap c.1 (debounced cap (pre ++ (t₁, c₁) :: mid)) mapUid <;> rfl

theorem spaced {cap : Nat} {calls : DebounceRun} (htimes : calls.Pairwise fun a b => a.1 ≤ b.1) :
    Spaced cap calls := by
  rintro pre t₁ c₁ mid t₂ c₂ post mapUid delay rfl h₁ h₂ hkept hdelay
  have hlater := (List.pairwise_cons.1 (List.pairwise_append.1 htimes).2.1).1
  have hmid : Unevicted cap mapUid (pre ++ [(t₁, c₁)]) mid :=
    fun mid' now call rest he => hkept mid' now call (rest ++ [(t₂, c₂)]) (by simp [he])
  obtain ⟨e, d, hget, hlast, hdue⟩ :=
    entry_due h₁ (fun c hc => hlater c (List.mem_append_left _ hc)) hmid
  rw [hlast] at hdelay
  cases hdelay
  have hroom := hkept mid t₂ c₂ [] rfl
  rw [List.append_assoc, List.singleton_append] at hroom
  cases c₂ with
  | admission uid =>
      obtain ⟨rfl, hschedule⟩ := h₂
      obtain ⟨e₀, he₀⟩ := Option.isSome_iff_exists.1 hroom
      have hget₀ := get_makeRoom he₀
      rw [hget] at hget₀
      cases hget₀
      exact Nat.le_trans hdue (due_of_schedule hschedule he₀)
  | reschedule uid delay resetAttempts => exact h₂.elim

/-- The debounce holds its bound and its delays exactly in the runs in which every call finds
room. -/
theorem debounce_iff {cap : Nat} {calls : DebounceRun}
    (htimes : calls.Pairwise fun a b => a.1 ≤ b.1) :
    Bounded cap calls ∧ Spaced cap calls ↔
      ∀ pre now call post, calls = pre ++ (now, call) :: post →
        call.FindsRoom cap (debounced cap pre) := by
  rw [← bounded_iff]
  exact and_iff_left (spaced htimes)

/-- Three observations of one map in a table for one, the third of them after the backoff. -/
theorem debounce_iff_again :
    let calls : DebounceRun := [(0, .admission "Cup"), (minutes 1, .admission "Cup"),
      (minutes 2, .reschedule "Cup" (minutes 60) true), (minutes 62, .admission "Cup")]
    Bounded 1 calls ∧ Spaced 1 calls ↔
      ∀ pre now call post, calls = pre ++ (now, call) :: post →
        call.FindsRoom 1 (debounced 1 pre) :=
  debounce_iff (by decide)

/-! ## A full table -/

/-- A map uid that ends in five digits, for `i` up to 89999. -/
def mapNumber (stem : String) (i : Nat) : String := numbered stem (10000 + i)

/-- The admissions of `n` maps at once. -/
def admissions (now : Nat) (stem : String) (n : Nat) : DebounceRun :=
  (List.range n).map fun i => (now, .admission (mapNumber stem i))

theorem admissions_succ (now : Nat) (stem : String) (n : Nat) :
    admissions now stem (n + 1) =
      admissions now stem n ++ [(now, .admission (mapNumber stem n))] := by
  simp [admissions, List.range_succ]

theorem makeRoom_eq_self {state : Debounce} {now cap : Nat} (h : state.size < cap) :
    makeRoom state now cap = state := if_neg (Nat.not_le.2 h)

/-- A full table in which everything is due is emptied. -/
theorem makeRoom_due {state : Debounce} {now cap : Nat} (hcap : 0 < cap)
    (hfull : cap ≤ state.size) (hdue : ∀ mapUid e, state.get mapUid = some e →
      e.nextAttempt ≤ now) : makeRoom state now cap = .empty := by
  have hnone : (state.retain fun _ entry => now < entry.nextAttempt) = .empty := by
    apply KeyMap.retain_eq_empty
    intro mapUid e he
    simpa using hdue mapUid e he
  rw [makeRoom, if_pos hfull, hnone]
  exact if_neg (Nat.not_le.2 hcap)

theorem admission_new {state : Debounce} {mapUid : String} {now cap : Nat}
    (hroom : state.size < cap) (hnew : state.get mapUid = none) :
      DebounceCall.run cap now state (.admission mapUid) =
        state.insert mapUid { nextAttempt := now + minutes 5, attempts := 0 } := by
  simp only [DebounceCall.run, commentBindAdmit, makeRoom_eq_self hroom, hnew, commentBindBackoff]

theorem mapNumber_inj {stem : String} {m n : Nat} (h : mapNumber stem m = mapNumber stem n) :
    m = n := by
  have hlist := congrArg String.toList h
  rw [mapNumber, mapNumber, numbered_toList, numbered_toList, List.append_cancel_left_eq] at hlist
  exact Nat.add_left_cancel (Text.natChars_inj hlist)

/-- What `n` admissions make of a table in which none of their maps has an entry. -/
structure Filled (state : Debounce) (now : Nat) (stem : String) (n : Nat)
    (state' : Debounce) : Prop where
  size : state'.size = state.size + n
  old : ∀ mapUid, (∀ i < n, mapUid ≠ mapNumber stem i) →
    state'.get mapUid = state.get mapUid
  entries : ∀ mapUid e, state'.get mapUid = some e →
    state.get mapUid = some e ∨ e.nextAttempt = now + minutes 5

/-- Maps that are new fill the table one by one. -/
theorem admissions_fill {cap now : Nat} {stem : String} {calls : DebounceRun} (n : Nat)
    (hnew : ∀ i, (debounced cap calls).get (mapNumber stem i) = none)
    (hroom : (debounced cap calls).size + n ≤ cap) :
    Filled (debounced cap calls) now stem n (debounced cap (calls ++ admissions now stem n)) := by
  induction n with
  | zero =>
      have hnil : calls ++ admissions now stem 0 = calls := List.append_nil calls
      rw [hnil]
      exact ⟨rfl, fun _ _ => rfl, fun _ _ he => .inl he⟩
  | succ n ih =>
      have hfilled := ih (Nat.le_of_succ_le hroom)
      have hget : (debounced cap (calls ++ admissions now stem n)).get (mapNumber stem n) =
          none := by
        rw [hfilled.old (mapNumber stem n)
          fun i hi h => Nat.ne_of_gt hi (mapNumber_inj h)]
        exact hnew n
      have hlt : (debounced cap (calls ++ admissions now stem n)).size < cap := by
        rw [hfilled.size]
        exact hroom
      rw [admissions_succ, ← List.append_assoc, debounced_snoc, admission_new hlt hget]
      constructor
      · rw [KeyMap.size_insert_new _ hget, hfilled.size, Nat.add_assoc]
      · intro mapUid hne
        rw [KeyMap.get_insert_of_ne _ _ (hne n (Nat.lt_succ_self n))]
        exact hfilled.old mapUid fun i hi => hne i (Nat.lt_succ_of_lt hi)
      · intro mapUid e he
        rcases eq_or_ne mapUid (mapNumber stem n) with rfl | hne
        · rw [KeyMap.get_insert_self] at he
          cases he
          exact .inr rfl
        · rw [KeyMap.get_insert_of_ne _ _ hne] at he
          exact hfilled.entries mapUid e he

theorem mapNumber_ne {stem mapUid : String} (hhead : stem.toList.head? ≠ mapUid.toList.head?)
    (hne : stem.toList ≠ []) (i : Nat) : mapNumber stem i ≠ mapUid := by
  rintro rfl
  rw [mapNumber, numbered_toList, List.head?_append_of_ne_nil _ hne] at hhead
  exact hhead rfl

/-- A new map that is observed when every entry of a full table is due is left alone in it. -/
theorem admission_due {cap now : Nat} {state : Debounce} {mapUid : String} (hcap : 0 < cap)
    (hfull : cap ≤ state.size) (hdue : ∀ uid e, state.get uid = some e →
      e.nextAttempt ≤ now) :
    DebounceCall.run cap now state (.admission mapUid) =
      KeyMap.insert .empty mapUid { nextAttempt := now + minutes 5, attempts := 0 } := by
  simp only [DebounceCall.run, commentBindAdmit, makeRoom_due hcap hfull hdue, KeyMap.get_empty,
    commentBindBackoff]

/-- A full table after the admissions of a map and of `n` more. -/
def filling (now : Nat) (mapUid stem : String) (n : Nat) : DebounceRun :=
  [(now, .admission mapUid)] ++ admissions now stem n

/-- A run in which the lookup of a map ends after its entry has gone: `n + 1` maps are observed at
once, and as many later on, when the first ones are due. -/
def lateCompletion (mapUid mapUid' stem : String) (n : Nat) : DebounceRun :=
  (filling 0 mapUid stem n ++ [(minutes 5, .admission mapUid')]) ++ admissions (minutes 5) stem n ++
    [(minutes 5, .reschedule mapUid (minutes 60) true)]

theorem filled {now n : Nat} {mapUid stem : String} {calls : DebounceRun}
    (hne : ∀ i, mapNumber stem i ≠ mapUid)
    (hone : debounced (n + 1) calls =
      KeyMap.insert .empty mapUid { nextAttempt := now + minutes 5, attempts := 0 }) :
    let state := debounced (n + 1) (calls ++ admissions now stem n)
    state.size = n + 1 ∧ (∀ uid e, state.get uid = some e →
      e.nextAttempt ≤ now + minutes 5) ∧
      ∀ uid, uid ≠ mapUid → (∀ i, mapNumber stem i ≠ uid) → state.get uid = none := by
  have hsize : (debounced (n + 1) calls).size = 1 := by
    rw [hone]
    rfl
  have hfilled : Filled (debounced (n + 1) calls) now stem n
      (debounced (n + 1) (calls ++ admissions now stem n)) := by
    apply admissions_fill
    · intro i
      rw [hone, KeyMap.get_insert_of_ne _ _ (hne i)]
      rfl
    · omega
  refine ⟨?_, ?_, ?_⟩
  · rw [hfilled.size]
    omega
  · intro uid e he
    rcases hfilled.entries uid e he with hold | hnew
    · rw [hone] at hold
      rcases eq_or_ne uid mapUid with rfl | hother
      · rw [KeyMap.get_insert_self] at hold
        cases hold
        exact Nat.le_refl _
      · rw [KeyMap.get_insert_of_ne _ _ hother] at hold
        cases hold
    · exact Nat.le_of_eq hnew
  · intro uid hother hnumber
    rw [hfilled.old uid fun i _ => (hnumber i).symm, hone, KeyMap.get_insert_of_ne _ _ hother]
    rfl

/-- The completion finds a full table without an entry of its map. -/
theorem lateCompletion_size {mapUid mapUid' stem : String} {n : Nat} (hne : mapUid ≠ mapUid')
    (hnumber : ∀ i, mapNumber stem i ≠ mapUid)
    (hnumber' : ∀ i, mapNumber stem i ≠ mapUid') :
    (debounced (n + 1) (lateCompletion mapUid mapUid' stem n)).size = n + 2 := by
  have hone : debounced (n + 1) [(0, .admission mapUid)] =
      KeyMap.insert .empty mapUid { nextAttempt := 0 + minutes 5, attempts := 0 } :=
    admission_new (Nat.succ_pos n) rfl
  have hfirst := filled hnumber hone
  have hemptied : debounced (n + 1) (filling 0 mapUid stem n ++ [(minutes 5, .admission mapUid')]) =
      KeyMap.insert .empty mapUid' { nextAttempt := minutes 5 + minutes 5, attempts := 0 } := by
    rw [debounced_snoc]
    refine admission_due (Nat.succ_pos n) hfirst.1.ge fun uid e he => ?_
    rw [← Nat.zero_add (minutes 5)]
    exact hfirst.2.1 uid e he
  obtain ⟨hsize, -, hgone⟩ := filled hnumber' hemptied
  have hnone := hgone mapUid hne hnumber
  rw [lateCompletion, debounced_snoc, DebounceCall.run, commentBindReschedule, hnone]
  dsimp only
  rw [KeyMap.size_insert_new _ hnone, hsize]

theorem lateCompletion_times (mapUid mapUid' stem : String) (n : Nat) :
    (lateCompletion mapUid mapUid' stem n).Pairwise fun a b => a.1 ≤ b.1 := by
  have hsame : ∀ (now : Nat) (calls : DebounceRun), (∀ c ∈ calls, c.1 = now) →
      calls.Pairwise fun a b => a.1 ≤ b.1 := by
    intro now calls h
    exact List.pairwise_of_forall_mem_list fun a ha b hb => ((h a ha).trans (h b hb).symm).le
  have hadmissions : ∀ now, ∀ c ∈ admissions now stem n, c.1 = now := by
    intro now c hc
    obtain ⟨i, -, rfl⟩ := List.mem_map.1 hc
    rfl
  have hfirst : ∀ c ∈ filling 0 mapUid stem n, c.1 = 0 := by
    intro c hc
    rcases List.mem_append.1 hc with hone | hmore
    · rw [List.mem_singleton.1 hone]
    · exact hadmissions 0 c hmore
  have hsecond : ∀ c ∈ [(minutes 5, .admission mapUid')] ++ admissions (minutes 5) stem n ++
      [(minutes 5, .reschedule mapUid (minutes 60) true)], c.1 = minutes 5 := by
    intro c hc
    rcases List.mem_append.1 hc with hc | hlast
    · rcases List.mem_append.1 hc with hone | hmore
      · rw [List.mem_singleton.1 hone]
      · exact hadmissions _ c hmore
    · rw [List.mem_singleton.1 hlast]
  rw [lateCompletion, List.append_assoc, List.append_assoc, ← List.append_assoc [_]]
  refine List.pairwise_append.2 ⟨hsame 0 _ hfirst, hsame _ _ hsecond, fun a ha b hb => ?_⟩
  rw [hfirst a ha]
  exact Nat.zero_le b.1

/-- With room for 8192 entries the table outgrows its bound. -/
theorem debounce_outgrown : ¬ ∀ cap (calls : DebounceRun), 0 < cap →
    (calls.Pairwise fun a b => a.1 ≤ b.1) → Bounded cap calls ∧ Spaced cap calls := by
  intro h
  let calls := lateCompletion "babcdefghijklmnopqrstuvwxyz" "cabcdefghijklmnopqrstuvwxyz"
    "aabcdefghijklmnopqrstu" 8191
  have hsize : (debounced 8192 calls).size = 8193 := lateCompletion_size (by decide)
    (mapNumber_ne (by decide) (by decide)) (mapNumber_ne (by decide) (by decide))
  have hbounded := (h 8192 calls (by decide) (lateCompletion_times _ _ _ _)).1 calls []
    (List.append_nil _).symm
  rw [hsize] at hbounded
  exact absurd hbounded (by decide)

end Server2

end Dd2Server
