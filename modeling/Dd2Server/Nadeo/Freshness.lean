import Dd2Server.Nadeo.SingleFlight

/-!
# How fresh the answers of the record verifier are

A recheck takes a negative answer from the cache if it came after the attempt began.  The fetch of
such an answer may have begun before the recheck.  But the answer that the second attempt takes came
after the recheck began, and the answer that the third attempt takes came later; as one fetch at
most is in flight for a key, the fetch of the latter began when the former had come.
-/

namespace Dd2Server

namespace Nadeo

open Limits Verifier

namespace Stage

variable {κ α : Type}

/-- What a lookup leaves with, while it gives back what it holds and then. -/
def outcome : Stage κ α → Option (Outcome α)
  | releases _ outcome | unlocks _ outcome | drops _ outcome | answered outcome => some outcome
  | _ => none

/-- In an attempt that has no answer yet. -/
def asks : Stage κ α → Bool
  | looks | gates | scans _ | waits _ | rechecks _ | admits _ | queues _ | fetches _ _ => true
  | _ => false

end Stage

/-- What is noted of a run, the latest first. -/
abbrev History (κ : Type) := List (Nat × Event κ Bool Bool)

variable {κ : Type} {sv : Service κ Bool Bool} {log log' : History κ} {e : Event κ Bool Bool}
  {i j f now now' : Nat} {key : κ}

/-! ## What a log says -/

/-- A call is in the log, and began before this time. -/
def Since (log : History κ) (i : Nat) (key : κ) (t : Nat) : Prop :=
  ∃ t₀ recent, (t₀, .called i key recent) ∈ log ∧ t₀ < t

/-- An answer for the key of a call came after the call began, and before this time. -/
def Answered (log : History κ) (i : Nat) (key : κ) (t : Nat) : Prop :=
  ∃ j f answer o, (o, .fetched j f key answer) ∈ log ∧ Since log i key o ∧ o < t

/-- A fetch that began after the call answered that there is no record. -/
def FreshNegative (log : History κ) (i : Nat) (key : κ) : Prop :=
  ∃ j f t t₁ t₀ recent, [(t, .fetched j f key (.ok false)), (t₁, .fetching j f key),
    (t₀, .called i key recent)].Sublist log

/-- The call fetched this answer itself, or looked at one that was not too old. -/
def Backed (sv : Service κ Bool Bool) (log : History κ) (i : Nat) (key : κ)
    (value : Bool) : Prop :=
  (∃ f t, (t, .fetched i f key (.ok value)) ∈ log) ∨
    ∃ j f t t', [(t', .looked i value), (t, .fetched j f key (.ok value))].Sublist log ∧
      t' < t + sv.ttl value

/-- No answer for the key of a fetch came since the fetch began. -/
def InFlight (log : History κ) (i f : Nat) (key : κ) : Prop :=
  ∃ since t₁ earlier, log = since ++ (t₁, .fetching i f key) :: earlier ∧
    ∀ e ∈ since, ∀ j f' answer, e.2 ≠ .fetched j f' key answer

/-- What a call that returns was told. -/
structure Returns (sv : Service κ Bool Bool) (log : History κ) (i : Nat)
    (key : κ) (recent : Bool) (result : Except String Bool) : Prop where
  negative : recent = true → result = .ok false → FreshNegative log i key
  positive : result = .ok true → Backed sv log i key true
  failed : ∀ t f key' error, (t, .fetched i f key' (.error error)) ∈ log →
    result = .error error

/-- Why an event may come after a log. -/
def Reason (sv : Service κ Bool Bool) (log : History κ) : Event κ Bool Bool → Prop
  | .called _ _ _ | .looked _ _ => True
  | .fetching i _ key => ∃ t₀ recent, (t₀, .called i key recent) ∈ log
  | .fetched i f key _ => InFlight log i f key
  | .returned i result => ∀ t₀ key recent, (t₀, .called i key recent) ∈ log →
      Returns sv log i key recent result

/-- Before the attempts of a recheck, if no fetch answered it yet: what is there at this time came
before the recheck, or came in its second attempt. -/
def Progress (log : History κ) (i : Nat) (key : κ) (attempt t : Nat) : Prop :=
  FreshNegative log i key ∨ attempt = 0 ∨ attempt = 1 ∧ Since log i key t ∨
    1 < attempt ∧ Answered log i key t

/-- After an attempt that said there is no record. -/
def Told (log : History κ) (i : Nat) (key : κ) (attempt now : Nat) : Prop :=
  FreshNegative log i key ∨ attempt = 0 ∨ attempt = 1 ∧ Answered log i key (now + 1)

/-- Where a recheck is. -/
def Going (log : History κ) (now i : Nat) (c : Caller κ Bool) : Prop :=
  match c.stage with
  | .begins => Progress log i c.key c.attempt now
  | .releases _ outcome | .unlocks _ outcome | .drops _ outcome | .answered outcome =>
      outcome = some (.ok false) → Told log i c.key c.attempt now
  | .sleeps wake => Progress log i c.key (c.attempt + 1) wake
  | .done => True
  | _ => ∃ t, c.negativeNotBefore = some t ∧ Progress log i c.key c.attempt t

/-- What the log says of a caller. -/
structure Fine (sv : Service κ Bool Bool) (log : History κ) (now i : Nat)
    (c : Caller κ Bool) : Prop where
  backed : ∀ value, c.stage.outcome = some (some (.ok value)) → Backed sv log i c.key value
  failed : ∀ t f key error, (t, .fetched i f key (.error error)) ∈ log →
    c.stage.outcome = some (some (.error error)) ∨ c.stage = .done
  inFlight : ∀ g f, c.stage = .fetches g f → InFlight log i f c.key
  going : c.recent = true → Going log now i c

/-- The log is in the order of the times, every event in it has its reason, the calls in it are
those of the callers, and every cached answer is one of the backend. -/
structure Logged [DecidableEq κ] (sv : Service κ Bool Bool)
    (st : Verifier κ Bool Bool) : Prop where
  sorted : st.log.Pairwise fun e e' => e'.1 ≤ e.1
  past : ∀ e ∈ st.log, e.1 ≤ st.now
  reasons : ∀ t e earlier, (t, e) :: earlier <:+ st.log → Reason sv earlier e
  called : ∀ i c, st.callers[i]? = some c →
    ∃ t₀, (t₀, .called i c.key c.recent) ∈ st.log
  callers : ∀ t₀ i key recent, (t₀, .called i key recent) ∈ st.log →
    ∃ c, st.callers[i]? = some c ∧ c.key = key ∧ c.recent = recent
  cached : ∀ key value obtained, st.answers.peek key = some ⟨value, obtained⟩ →
    ∃ j f, (obtained, .fetched j f key (.ok value)) ∈ st.log

/-! ## Logs grow -/

theorem Since.mono (h : Since log i key now) (hlog : log ⊆ log') (hle : now ≤ now') :
    Since log' i key now' := by
  obtain ⟨t₀, recent, hm, hlt⟩ := h
  exact ⟨t₀, recent, hlog hm, Nat.lt_of_lt_of_le hlt hle⟩

theorem Answered.mono (h : Answered log i key now) (hlog : log ⊆ log') (hle : now ≤ now') :
    Answered log' i key now' := by
  obtain ⟨j, f, answer, o, hm, hsince, hlt⟩ := h
  exact ⟨j, f, answer, o, hlog hm, hsince.mono hlog (Nat.le_refl o), Nat.lt_of_lt_of_le hlt hle⟩

theorem FreshNegative.mono (h : FreshNegative log i key) (hlog : log.Sublist log') :
    FreshNegative log' i key := by
  obtain ⟨j, f, t, t₁, t₀, recent, hsub⟩ := h
  exact ⟨j, f, t, t₁, t₀, recent, hsub.trans hlog⟩

theorem Backed.mono {value : Bool} (h : Backed sv log i key value) (hlog : log.Sublist log') :
    Backed sv log' i key value := by
  rcases h with ⟨f, t, hm⟩ | ⟨j, f, t, t', hsub, hlt⟩
  · exact .inl ⟨f, t, hlog.subset hm⟩
  · exact .inr ⟨j, f, t, t', hsub.trans hlog, hlt⟩

theorem Progress.mono {attempt : Nat} (h : Progress log i key attempt now) (hlog : log.Sublist log')
    (hle : now ≤ now') : Progress log' i key attempt now' := by
  rcases h with hfresh | hfirst | ⟨hsecond, hsince⟩ | ⟨hthird, hanswered⟩
  · exact .inl (hfresh.mono hlog)
  · exact .inr (.inl hfirst)
  · exact .inr (.inr (.inl ⟨hsecond, hsince.mono hlog.subset hle⟩))
  · exact .inr (.inr (.inr ⟨hthird, hanswered.mono hlog.subset hle⟩))

theorem Told.mono {attempt : Nat} (h : Told log i key attempt now) (hlog : log.Sublist log')
    (hle : now ≤ now') : Told log' i key attempt now' := by
  rcases h with hfresh | hfirst | ⟨hsecond, hanswered⟩
  · exact .inl (hfresh.mono hlog)
  · exact .inr (.inl hfirst)
  · exact .inr (.inr ⟨hsecond, hanswered.mono hlog.subset (Nat.succ_le_succ hle)⟩)

/-- The next attempt begins after a sleep. -/
theorem Told.progress {attempt wake : Nat} (h : Told log i key attempt now)
    (hcalled : ∃ t₀ recent, (t₀, .called i key recent) ∈ log ∧ t₀ ≤ now)
    (hlt : now < wake) : Progress log i key (attempt + 1) wake := by
  rcases h with hfresh | hfirst | ⟨hsecond, hanswered⟩
  · exact .inl hfresh
  · obtain ⟨t₀, recent, hm, hle⟩ := hcalled
    exact .inr (.inr (.inl ⟨by omega, t₀, recent, hm, Nat.lt_of_le_of_lt hle hlt⟩))
  · exact .inr (.inr (.inr ⟨by omega, hanswered.mono (List.Subset.refl log) hlt⟩))

theorem Going.mono {c : Caller κ Bool} (h : Going log now i c) (hlog : log.Sublist log')
    (hle : now ≤ now') : Going log' now' i c := by
  rw [Going] at h ⊢
  split at h
  · exact h.mono hlog hle
  · exact fun ho => (h ho).mono hlog hle
  · exact fun ho => (h ho).mono hlog hle
  · exact fun ho => (h ho).mono hlog hle
  · exact fun ho => (h ho).mono hlog hle
  · exact h.mono hlog (Nat.le_refl _)
  · trivial
  · obtain ⟨t, ht, hp⟩ := h
    exact ⟨t, ht, hp.mono hlog (Nat.le_refl t)⟩

theorem InFlight.note (h : InFlight log i f key)
    (he : ∀ j f' answer, e ≠ .fetched j f' key answer) :
    InFlight ((now, e) :: log) i f key := by
  obtain ⟨since, t₁, earlier, rfl, hsince⟩ := h
  refine ⟨(now, e) :: since, t₁, earlier, rfl, fun e' he' => ?_⟩
  rcases List.mem_cons.1 he' with rfl | he'
  · exact he
  · exact hsince e' he'

/-- A caller while the time passes. -/
theorem Fine.wait {c : Caller κ Bool} (h : Fine sv log now i c) (hle : now ≤ now') :
    Fine sv log now' i c :=
  ⟨h.backed, h.failed, h.inFlight, fun hr => (h.going hr).mono (List.Sublist.refl log) hle⟩

/-- A caller while another one makes an event. -/
theorem Fine.note {c : Caller κ Bool} (h : Fine sv log now i c)
    (hfetched : ∀ j f key answer, e = .fetched j f key answer →
      j ≠ i ∧ ∀ g f', c.stage = .fetches g f' → c.key ≠ key) :
    Fine sv ((now, e) :: log) now i c where
  backed value hv := (h.backed value hv).mono (List.sublist_cons_self _ _)
  failed t f key error hm := by
    rcases List.mem_cons.1 hm with heq | hm
    · exact absurd rfl (hfetched i f key _ (congrArg Prod.snd heq).symm).1
    · exact h.failed t f key error hm
  inFlight g f hs := by
    refine (h.inFlight g f hs).note fun j f' answer he => ?_
    exact (hfetched j f' c.key answer he).2 g f hs rfl
  going hr := (h.going hr).mono (List.sublist_cons_self _ _) (Nat.le_refl now)

/-! ## Where a caller goes -/

section

variable {c : Caller κ Bool} {s : Stage κ Bool} {outcome : Outcome Bool}

theorem Stage.asks_outcome (h : s.asks = true) : s.outcome = none ∧ s ≠ .done := by
  cases s <;> simp_all [Stage.asks, Stage.outcome]

theorem going_asks (h : c.stage.asks = true) :
    Going log now i c ↔ ∃ t, c.negativeNotBefore = some t ∧
    Progress log i c.key c.attempt t := by
  rw [Going]
  cases hc : c.stage <;> rw [hc] at h <;> first | exact Iff.rfl | cases h

theorem going_outcome (h : c.stage.outcome = some outcome) :
    Going log now i c ↔ (outcome = some (.ok false) → Told log i c.key c.attempt now) := by
  rw [Going]
  cases hc : c.stage <;> rw [hc] at h <;> cases h <;> exact Iff.rfl

theorem Stage.outcome_not_fetches {g f : Nat} (h : s.outcome = some outcome) :
    s ≠ .fetches g f := by
  rintro rfl
  cases h

/-- A caller whose lookup is not over has no fetch that failed. -/
theorem Fine.not_failed (h : Fine sv log now i c) (ho : c.stage.outcome = none)
    (hd : c.stage ≠ .done) {t : Nat} {error : String} :
    (t, .fetched i f key (.error error)) ∉ log := by
  intro hm
  rcases h.failed t f key error hm with heq | heq
  · rw [ho] at heq
    cases heq
  · exact hd heq

/-- A step inside of an attempt. -/
theorem Fine.onward (h : Fine sv log now i c) (hc : c.stage.asks = true) (hs : s.asks = true)
    (hf : ∀ g f, s ≠ .fetches g f) : Fine sv log now i { c with stage := s } where
  backed value hv := by
    have hso : s.outcome = some (some (.ok value)) := hv
    rw [(Stage.asks_outcome hs).1] at hso
    cases hso
  failed t f key error hm :=
    absurd hm (h.not_failed (Stage.asks_outcome hc).1 (Stage.asks_outcome hc).2)
  inFlight g f he := absurd he (hf g f)
  going hr := (going_asks (c := { c with stage := s }) hs).2 ((going_asks hc).1 (h.going hr))

/-- A lookup fails before the backend is asked, or its caller is dropped. -/
theorem Fine.fails (h : Fine sv log now i c) (hc : c.stage.outcome = none) (hd : c.stage ≠ .done)
    (hs : s.outcome = some outcome) (hne : ∀ value, outcome ≠ some (.ok value)) :
    Fine sv log now i { c with stage := s } where
  backed value hv := by
    have hso : s.outcome = some (some (.ok value)) := hv
    rw [hs] at hso
    exact absurd (Option.some.inj hso) (hne value)
  failed t f key error hm := absurd hm (h.not_failed hc hd)
  inFlight g f he := absurd he (Stage.outcome_not_fetches hs)
  going hr := (going_outcome (c := { c with stage := s }) hs).2 fun ho => absurd ho (hne false)

/-- A lookup gives back what it has. -/
theorem Fine.passes (h : Fine sv log now i c) (hc : c.stage.outcome = some outcome)
    (hs : s.outcome = some outcome) : Fine sv log now i { c with stage := s } where
  backed value hv := h.backed value (by rw [hc, ← hs]; exact hv)
  failed t f key error hm := by
    rcases h.failed t f key error hm with heq | heq
    · left
      show s.outcome = _
      rw [hs, ← hc]
      exact heq
    · rw [heq] at hc
      cases hc
  inFlight g f he := absurd he (Stage.outcome_not_fetches hs)
  going hr := (going_outcome (c := { c with stage := s }) hs).2 ((going_outcome hc).1 (h.going hr))

end

/-! ## The order of a log -/

/-- What is earlier than an event of the later part of a log, and than its time, is in the former
part. -/
theorem mem_of_earlier {later earlier : History κ} {x y : Nat × Event κ Bool Bool}
    (hsorted : (later ++ earlier).Pairwise fun e e' => e'.1 ≤ e.1) (hx : x ∈ later ++ earlier)
    (hy : y ∈ earlier) (hlt : x.1 < y.1) : x ∈ earlier := by
  rcases List.mem_append.1 hx with hlater | hx
  · have hle := (List.pairwise_append.1 hsorted).2.2 x hlater y hy
    omega
  · exact hx

section

variable [DecidableEq κ] {st st₁ : Verifier κ Bool Bool} {c c' : Caller κ Bool}
    {s : Stage κ Bool}

/-- The fetch of a later answer began when the former answer had come, so after the call. -/
theorem Logged.fresh_of_later (h : Logged sv st) {j₁ f₁ j₂ f₂ o₁ o₂ : Nat}
    {answer : Except String Bool} (hsince : Since st.log i key o₁)
    (h₁ : (o₁, .fetched j₁ f₁ key answer) ∈ st.log)
    (h₂ : (o₂, .fetched j₂ f₂ key (.ok false)) ∈ st.log) (hlt : o₁ < o₂) :
    FreshNegative st.log i key := by
  obtain ⟨t₀, recent, h₀, hlt₀⟩ := hsince
  obtain ⟨later, earlier, hlog⟩ := List.append_of_mem h₂
  obtain ⟨since, t₁, before, rfl, hnone⟩ : InFlight earlier j₂ f₂ key :=
    h.reasons o₂ _ earlier ⟨later, hlog.symm⟩
  have hsorted := h.sorted
  rw [hlog] at hsorted h₁ h₀
  have h₁' : (o₁, Event.fetched j₁ f₁ key answer) ∈
      since ++ (t₁, .fetching j₂ f₂ key) :: before := by
    have hm := mem_of_earlier hsorted h₁ List.mem_cons_self hlt
    rcases List.mem_cons.1 hm with heq | hm
    · have htime := congrArg Prod.fst heq
      simp only at htime
      omega
    · exact hm
  have hbefore : (o₁, Event.fetched j₁ f₁ key answer) ∈ before := by
    rcases List.mem_append.1 h₁' with hm | hm
    · exact absurd rfl (hnone _ hm j₁ f₁ answer)
    · rcases List.mem_cons.1 hm with heq | hm
      · cases heq
      · exact hm
  have hcalled : (t₀, Event.called i key recent) ∈ before := by
    have hsplit : later ++ (o₂, Event.fetched j₂ f₂ key (.ok false)) ::
        (since ++ (t₁, .fetching j₂ f₂ key) :: before) =
        (later ++ (o₂, .fetched j₂ f₂ key (.ok false)) :: since ++
          [(t₁, .fetching j₂ f₂ key)]) ++ before := by simp
    rw [hsplit] at hsorted h₀
    exact mem_of_earlier hsorted h₀ hbefore hlt₀
  refine ⟨j₂, f₂, o₂, t₁, t₀, recent, ?_⟩
  rw [hlog]
  apply List.sublist_append_of_sublist_right
  apply List.Sublist.cons_cons
  apply List.sublist_append_of_sublist_right
  apply List.Sublist.cons_cons
  exact List.singleton_sublist.2 hcalled

/-- A look into the cache: the answer is not too old, and a negative one not older than asked
for. -/
theorem cached_some {answers answers' : LruCache κ (Cached Bool)}
    {required : Option Nat} {value : Bool}
    (h : cached sv answers key required now = (answers', some value)) :
    (∀ k v, answers'.peek k = some v → answers.peek k = some v) ∧
      ∃ obtained, answers.peek key = some ⟨value, obtained⟩ ∧
        now - obtained < sv.ttl value ∧ ∀ t, sv.positive value = false → required = some t →
        t ≤ obtained := by
  rw [cached] at h
  split at h
  case h_1 => cases h
  case h_2 answers₁ entry hget =>
  have hpeek : answers.peek key = some entry := by
    rw [← LruCache.get_value, hget]
  have hsame : ∀ k, answers₁.peek k = answers.peek k := by
    intro k
    rw [← LruCache.peek_get answers key k, hget]
  split at h
  · cases h
  case isFalse hfresh =>
    split at h
    · cases h
    case isFalse hnotbefore =>
      cases h
      refine ⟨fun k v hk => by rwa [hsame] at hk, entry.obtained, hpeek,
        Nat.lt_of_not_le hfresh, ?_⟩
      intro t hnegative ht
      subst ht
      simp only [hnegative, Bool.not_false, Option.any_some, Bool.true_and,
        decide_eq_true_eq] at hnotbefore
      exact Nat.le_of_not_lt hnotbefore

/-- A look that finds nothing puts nothing into the cache. -/
theorem cached_none {answers answers' : LruCache κ (Cached Bool)} {required : Option Nat}
    (h : cached sv answers key required now = (answers', none)) (k : κ) (v : Cached Bool)
    (hk : answers'.peek k = some v) : answers.peek k = some v := by
  rw [cached] at h
  split at h
  case h_1 answers₁ hget =>
    cases h
    rw [← LruCache.peek_get answers key k, hget]
    exact hk
  case h_2 answers₁ entry hget =>
    have hsame : answers₁.peek k = answers.peek k := by
      rw [← LruCache.peek_get answers key k, hget]
    split at h
    · cases h
      rw [← hsame]
      have hne : k ≠ key := by
        rintro rfl
        rw [LruCache.peek_pop_self] at hk
        cases hk
      rwa [LruCache.peek_pop_of_ne hne] at hk
    · split at h
      · cases h
        rw [← hsame]
        exact hk
      · cases h

/-! ## One event, one step -/

theorem Logged.note (h : Logged sv st) (hreason : Reason sv st.log e)
    (hcall : ∀ i key recent, e ≠ .called i key recent) : Logged sv (st.note e) where
  sorted := List.pairwise_cons.2 ⟨fun e he => h.past e he, h.sorted⟩
  past e he := by
    rcases List.mem_cons.1 he with rfl | he
    · exact Nat.le_refl _
    · exact h.past e he
  reasons t e' earlier hs := by
    rcases List.suffix_cons_iff.1 hs with heq | hs
    · cases heq
      exact hreason
    · exact h.reasons t e' earlier hs
  called i c hi := by
    obtain ⟨t₀, hm⟩ := h.called i c hi
    exact ⟨t₀, List.mem_cons_of_mem _ hm⟩
  callers t₀ i key recent hm := by
    rcases List.mem_cons.1 hm with heq | hm
    · exact absurd (congrArg Prod.snd heq).symm (hcall i key recent)
    · exact h.callers t₀ i key recent hm
  cached key value obtained hp := by
    obtain ⟨j, f, hm⟩ := h.cached key value obtained hp
    exact ⟨j, f, List.mem_cons_of_mem _ hm⟩

/-- The gates and counters of the verifier may change, and answers may go. -/
theorem Logged.congr (h : Logged sv st) (hlog : st₁.log = st.log) (hnow : st.now ≤ st₁.now)
    (hcallers : st₁.callers = st.callers)
    (hanswers : ∀ key v, st₁.answers.peek key = some v → st.answers.peek key = some v) :
    Logged sv st₁ := by
  constructor
  · rw [hlog]
    exact h.sorted
  · rw [hlog]
    exact fun e he => Nat.le_trans (h.past e he) hnow
  · rw [hlog]
    exact h.reasons
  · rw [hlog, hcallers]
    exact h.called
  · rw [hlog, hcallers]
    exact h.callers
  · rw [hlog]
    exact fun key value obtained hp => h.cached key value obtained (hanswers key _ hp)

theorem Logged.moves (h : Logged sv st) (hi : st.callers[i]? = some c) (hkey : c'.key = c.key)
    (hrecent : c'.recent = c.recent) : Logged sv (st.moves i c' s) where
  sorted := h.sorted
  past := h.past
  reasons := h.reasons
  called j d hj := by
    rcases moves_get_elim hi hj with ⟨rfl, rfl⟩ | ⟨-, hj⟩
    · show ∃ t₀, (t₀, .called j c'.key c'.recent) ∈ st.log
      rw [hkey, hrecent]
      exact h.called j c hi
    · exact h.called j d hj
  callers t₀ j key recent hm := by
    obtain ⟨d, hj, hk, hr⟩ := h.callers t₀ j key recent hm
    rw [moves_get hi]
    split
    case isTrue heq =>
      subst heq
      rw [hi] at hj
      cases hj
      exact ⟨_, rfl, hkey.trans hk, hrecent.trans hr⟩
    case isFalse => exact ⟨d, hj, hk, hr⟩
  cached := h.cached

/-- The log is in order, and says the truth about every caller. -/
structure Sound (sv : Service κ Bool Bool) (st : Verifier κ Bool Bool) : Prop where
  logged : Logged sv st
  fine : ∀ i c, st.callers[i]? = some c → Fine sv st.log st.now i c

/-- A caller goes on. -/
theorem Sound.moves (h : Sound sv st) (hi : st.callers[i]? = some c) (hkey : c'.key = c.key)
    (hrecent : c'.recent = c.recent) (hlog : st₁.log = st.log) (hnow : st₁.now = st.now)
    (hcallers : st₁.callers = st.callers)
    (hanswers : ∀ key v, st₁.answers.peek key = some v → st.answers.peek key = some v)
    (hfine : Fine sv st.log st.now i { c' with stage := s }) : Sound sv (st₁.moves i c' s) := by
  have hi₁ : st₁.callers[i]? = some c := by rw [hcallers]; exact hi
  refine ⟨(h.logged.congr hlog (Nat.le_of_eq hnow.symm) hcallers hanswers).moves hi₁
    hkey hrecent, ?_⟩
  intro j d hj
  show Fine sv st₁.log st₁.now j d
  rw [hlog, hnow]
  rcases moves_get_elim hi₁ hj with ⟨rfl, rfl⟩ | ⟨-, hj⟩
  · exact hfine
  · rw [hcallers] at hj
    exact h.fine j d hj

/-- A caller makes an event, and goes on. -/
theorem Sound.notes (h : Sound sv st) (hi : st.callers[i]? = some c) (hreason : Reason sv st.log e)
    (hcall : ∀ i key recent, e ≠ .called i key recent)
    (hfetched : ∀ j f key answer, e ≠ .fetched j f key answer)
    (hlog : st₁.log = st.log) (hnow : st₁.now = st.now)
    (hcallers : st₁.callers = st.callers)
    (hanswers : ∀ key v, st₁.answers.peek key = some v → st.answers.peek key = some v)
    (hfine : Fine sv ((st.now, e) :: st.log) st.now i { c with stage := s }) :
    Sound sv ((st₁.note e).moves i c s) := by
  have hnoted : Sound sv (st.note e) := by
    refine ⟨h.logged.note hreason hcall, fun j d hj => (h.fine j d hj).note ?_⟩
    exact fun j' f key answer he => absurd he (hfetched j' f key answer)
  have hsame : (st₁.note e).log = (st.note e).log := by
    show (st₁.now, e) :: st₁.log = (st.now, e) :: st.log
    rw [hnow, hlog]
  exact hnoted.moves hi rfl rfl hsame hnow hcallers hanswers hfine

/-! ## The steps -/

/-- A lookup finds an answer in the cache. -/
theorem Sound.looks (h : Sound sv st) (hi : st.callers[i]? = some c)
    (hsv : ∀ value, sv.positive value = value) {answers : LruCache κ (Cached Bool)}
    {value : Bool} (hc : c.stage.asks = true)
    (hlook : cached sv st.answers c.key c.negativeNotBefore st.now = (answers, some value))
    (hs : s.outcome = some (some (.ok value))) :
    Sound sv (({ st with answers }.note (.looked i value)).moves i c s) := by
  obtain ⟨hanswers, obtained, hpeek, hyoung, hlate⟩ := cached_some hlook
  obtain ⟨j, f, hm⟩ := h.logged.cached c.key value obtained hpeek
  have hfine := h.fine i c hi
  have hpast := h.logged.past _ hm
  refine h.notes hi trivial (fun i key recent he => by cases he)
    (fun j f key answer he => by cases he)
    rfl rfl rfl hanswers ⟨fun v hv => ?_, fun t f' key error hm' => ?_,
      fun g f' he => ?_, fun hr => ?_⟩
  · have hso : s.outcome = some (some (.ok v)) := hv
    rw [hs] at hso
    cases hso
    right
    refine ⟨j, f, obtained, st.now, ?_, ?_⟩
    · exact List.Sublist.cons_cons _ (List.singleton_sublist.2 hm)
    · simp only at hpast
      omega
  · rcases List.mem_cons.1 hm' with heq | hm'
    · cases heq
    · exact absurd hm' (hfine.not_failed (Stage.asks_outcome hc).1 (Stage.asks_outcome hc).2)
  · exact absurd he (Stage.outcome_not_fetches hs)
  · have htold : value = false → Told st.log i c.key c.attempt st.now := by
      rintro rfl
      obtain ⟨t, ht, hprogress⟩ := (going_asks hc).1 (hfine.going hr)
      have hle := hlate t (hsv false) ht
      simp only at hpast
      rcases hprogress with hfresh | hfirst | ⟨hsecond, hsince⟩ |
        ⟨-, j₁, f₁, answer, o, hm₁, hsince, hlt⟩
      · exact .inl hfresh
      · exact .inr (.inl hfirst)
      · exact .inr (.inr ⟨hsecond, j, f, .ok false, obtained, hm,
          hsince.mono (List.Subset.refl _) hle, Nat.lt_succ_of_le hpast⟩)
      · exact .inl (h.logged.fresh_of_later hsince hm₁ hm (Nat.lt_of_lt_of_le hlt hle))
    refine (going_outcome (c := { c with stage := s }) hs).2 fun ho => ?_
    cases ho
    exact (htold rfl).mono (List.sublist_cons_self _ _) (Nat.le_refl _)

/-- A fetch that answers now began after its call. -/
theorem Logged.fresh_of_fetched (h : Logged sv st) (hf : InFlight st.log i f key) :
    FreshNegative ((now, .fetched i f key (.ok false)) :: st.log) i key := by
  obtain ⟨since, t₁, earlier, hlog, -⟩ := hf
  obtain ⟨t₀, recent, hm⟩ : ∃ t₀ recent, (t₀, Event.called i key recent) ∈ earlier :=
    h.reasons t₁ _ earlier ⟨since, hlog.symm⟩
  refine ⟨i, f, now, t₁, t₀, recent, List.Sublist.cons_cons _ ?_⟩
  rw [hlog]
  apply List.sublist_append_of_sublist_right
  exact List.Sublist.cons_cons _ (List.singleton_sublist.2 hm)

/-- The answer of the backend comes. -/
theorem Sound.fetched (h : Sound sv st) (hg : Guarded sv st) (hi : st.callers[i]? = some c)
    {answer : Except String Bool} {st' : Verifier κ Bool Bool}
    (hs : st.fetched i c answer = some st') : Sound sv st' := by
  rw [Verifier.fetched] at hs
  split at hs
  case h_2 => cases hs
  case h_1 gate flight hc =>
  have hfine := h.fine i c hi
  have hflight := hfine.inFlight gate flight hc
  have hnot : ∀ {t : Nat} {f : Nat} {key : κ} {error : String},
      (t, Event.fetched i f key (.error error)) ∉ st.log :=
    hfine.not_failed (by rw [hc]; rfl) (by rw [hc]; exact fun he => by cases he)
  have hlogged : Logged sv (st.note (.fetched i flight c.key answer)) :=
    h.logged.note hflight fun i key recent he => by cases he
  have hothers : ∀ j d, j ≠ i → st.callers[j]? = some d →
      Fine sv ((st.now, .fetched i flight c.key answer) :: st.log) st.now j d := by
    intro j d hne hj
    refine (h.fine j d hj).note fun j' f' key answer' he => ?_
    cases he
    refine ⟨fun he => hne he.symm, fun g' f' hd hk => hne ?_⟩
    exact (hg.singleFlight.fetches i j c d gate flight g' f' hi hj hc hd hk.symm).symm
  split at hs
  case h_1 value =>
    cases hs
    constructor
    · refine Logged.moves (c := c) ?_ hi rfl rfl
      refine { hlogged with cached := fun key v o hp => ?_ }
      by_cases hk : key = c.key
      · subst hk
        have hput : some (Cached.mk value st.now) = some ⟨v, o⟩ := by
          rw [← hp]
          exact (LruCache.peek_put_self st.answers c.key ⟨value, st.now⟩).symm
        cases hput
        exact ⟨i, flight, List.mem_cons_self⟩
      · exact hlogged.cached key v o (LruCache.peek_of_put hk hp)
    · intro j d hj
      have hi' : ({ st.note (.fetched i flight c.key (.ok value)) with
        answers := st.answers.put c.key ⟨value, st.now⟩ } : Verifier κ Bool Bool).callers[i]? =
          some c := hi
      rcases moves_get_elim hi' hj with ⟨rfl, rfl⟩ | ⟨hne, hj⟩
      · refine ⟨fun v hv => ?_, fun t f' key error hm => ?_, fun g f' he =>
          (by cases he), fun hr => ?_⟩
        · cases hv
          exact .inl ⟨flight, st.now, List.mem_cons_self⟩
        · rcases List.mem_cons.1 hm with heq | hm
          · cases heq
          · exact absurd hm hnot
        · intro ho
          cases ho
          exact .inl (h.logged.fresh_of_fetched hflight)
      · exact hothers j d hne hj
  case h_2 error =>
    cases hs
    refine ⟨hlogged.moves (c := c) hi rfl rfl, fun j d hj => ?_⟩
    have hi' : (st.note (.fetched i flight c.key (.error error))).callers[i]? = some c := hi
    rcases moves_get_elim hi' hj with ⟨rfl, rfl⟩ | ⟨hne, hj⟩
    · refine ⟨fun v hv => (by cases hv), fun t f' key error' hm =>
        ?_, fun g f' he => (by cases he), fun hr ho => (by cases ho)⟩
      rcases List.mem_cons.1 hm with heq | hm
      · cases heq
        exact .inl rfl
      · exact absurd hm hnot
    · exact hothers j d hne hj

theorem Sound.dropped (h : Sound sv st) (hi : st.callers[i]? = some c) {st' : Verifier κ Bool Bool}
    (hs : st.dropped i c = some st') : Sound sv st' := by
  have hfine := h.fine i c hi
  have hdone : Fine sv st.log st.now i { c with stage := .done } :=
    ⟨fun v hv => (by cases hv), fun t f key error hm => .inr rfl, fun g f he => (by cases he),
      fun _ => trivial⟩
  rw [Verifier.dropped] at hs
  split at hs
  case h_1 hc =>
    cases hs
    exact h.moves hi rfl rfl rfl rfl rfl (fun _ _ hp => hp) hdone
  case h_2 wake hc =>
    cases hs
    exact h.moves hi rfl rfl rfl rfl rfl (fun _ _ hp => hp) hdone
  case h_3 gate hc =>
    cases hs
    exact h.moves hi rfl rfl rfl rfl rfl (fun _ _ hp => hp)
      (hfine.fails (by rw [hc]; rfl) (by rw [hc]; exact fun he => by cases he) rfl
        fun v he => by cases he)
  case h_4 gate hc =>
    cases hs
    exact h.moves hi rfl rfl rfl rfl rfl (fun _ _ hp => hp)
      (hfine.fails (by rw [hc]; rfl) (by rw [hc]; exact fun he => by cases he) rfl
        fun v he => by cases he)
  case h_5 gate flight hc =>
    cases hs
    exact h.moves hi rfl rfl rfl rfl rfl (fun _ _ hp => hp)
      (hfine.fails (by rw [hc]; rfl) (by rw [hc]; exact fun he => by cases he) rfl
        fun v he => by cases he)
  case h_6 => cases hs

/-- What the record verifier has of its own. -/
structure Rechecks (sv : Service κ Bool Bool) : Prop where
  positive : ∀ value, sv.positive value = value
  reply : ∀ value, sv.reply value = .ok value
  attempts : 2 < sv.recentAttempts

theorem Sound.concludes (h : Sound sv st) (hsv : Rechecks sv) (hi : st.callers[i]? = some c)
    {result : Except String Bool} (hc : c.stage = .answered (some result)) :
    Sound sv (st.concludes sv i c result) := by
  have hfine := h.fine i c hi
  have hco : c.stage.outcome = some (some result) := by rw [hc]; rfl
  have hfailed : ∀ t f key error, (t, Event.fetched i f key (.error error)) ∈ st.log →
      result = .error error := by
    intro t f key error hm
    rcases hfine.failed t f key error hm with heq | heq
    · rw [hco] at heq
      exact Option.some.inj (Option.some.inj heq)
    · rw [hc] at heq
      cases heq
  have hdone : ∀ e, Fine sv ((st.now, e) :: st.log) st.now i { c with stage := .done } := fun e =>
    ⟨fun v hv => (by cases hv), fun t f key error hm => .inr rfl, fun g f he => (by cases he),
      fun _ => trivial⟩
  have hkey : ∀ {t₀ key recent}, (t₀, Event.called i key recent) ∈ st.log →
      c.key = key ∧ c.recent = recent := by
    intro t₀ key recent hm
    obtain ⟨d, hd, hk, hr⟩ := h.logged.callers t₀ i key recent hm
    rw [hi] at hd
    cases hd
    exact ⟨hk, hr⟩
  cases result with
  | error error =>
      refine h.notes hi ?_ (fun i key recent he => by cases he)
        (fun j f key answer he => by cases he)
        rfl rfl rfl (fun _ _ hp => hp) (hdone _)
      intro t₀ key recent hm
      exact ⟨fun _ he => (by cases he), fun he => (by cases he), hfailed⟩
  | ok value =>
      have htold : c.recent = true → value = false → Told st.log i c.key c.attempt st.now := by
        rintro hr rfl
        exact (going_outcome hco).1 (hfine.going hr) rfl
      rw [Verifier.concludes]
      split
      case isTrue hretry =>
        rw [hsv.positive] at hretry
        simp only [Bool.and_eq_true, Bool.not_eq_true', decide_eq_true_eq] at hretry
        obtain ⟨⟨hr, hnegative⟩, -⟩ := hretry
        refine h.moves hi rfl rfl rfl rfl rfl (fun _ _ hp => hp)
          ⟨fun v hv => (by cases hv), fun t f key error hm =>
            ?_, fun g f he => (by cases he), fun _ => ?_⟩
        · cases hfailed t f key error hm
        · obtain ⟨t₀, hm⟩ := h.logged.called i c hi
          refine (htold hr hnegative).progress ⟨t₀, c.recent, hm, h.logged.past _ hm⟩ ?_
          have hpos : 0 < 2 ^ c.attempt := Nat.two_pow_pos _
          rw [millis]
          omega
      case isFalse hlast =>
        refine h.notes hi ?_ (fun i key recent he => by cases he)
          (fun j f key answer he => by cases he)
          rfl rfl rfl (fun _ _ hp => hp) (hdone _)
        intro t₀ key recent hm
        obtain ⟨rfl, rfl⟩ := hkey hm
        rw [hsv.reply]
        refine ⟨fun hr he => ?_, fun he => ?_, hfailed⟩
        · cases he
          rcases htold hr rfl with hfresh | hfirst | ⟨hsecond, -⟩
          · exact hfresh
          · have hattempts := hsv.attempts
            rw [hsv.positive, hr] at hlast
            simp only [Bool.not_false, Bool.true_and, decide_eq_true_eq] at hlast
            omega
          · have hattempts := hsv.attempts
            rw [hsv.positive, hr] at hlast
            simp only [Bool.not_false, Bool.true_and, decide_eq_true_eq] at hlast
            omega
        · cases he
          exact hfine.backed true hco

/-- One case for each place where a caller can be. -/
theorem Sound.advance (h : Sound sv st) (hsv : Rechecks sv) (hi : st.callers[i]? = some c)
    {st' : Verifier κ Bool Bool} (hs : st.advance sv i c = some st') : Sound sv st' := by
  have hfine := h.fine i c hi
  have hsame : ∀ (key : κ) (v : Cached Bool), st.answers.peek key = some v →
      st.answers.peek key = some v := fun _ _ hp => hp
  cases hc : c.stage with
  | begins =>
      simp only [Verifier.advance, hc] at hs
      cases hs
      refine h.moves hi rfl rfl rfl rfl rfl hsame ⟨fun v hv => (by cases hv),
        fun t f key error hm => ?_, fun g f he => (by cases he), fun hr => ?_⟩
      · exact absurd hm (hfine.not_failed (by rw [hc]; rfl)
          (by rw [hc]; exact fun he => by cases he))
      · have hgoing := hfine.going hr
        rw [Going, hc] at hgoing
        exact ⟨st.now, if_pos hr, hgoing⟩
  | looks =>
      simp only [Verifier.advance, hc] at hs
      split at hs
      case h_1 answers value hlook =>
        cases hs
        exact h.looks hi hsv.positive (by rw [hc]; rfl) hlook rfl
      case h_2 answers hlook =>
        cases hs
        exact h.moves hi rfl rfl rfl rfl rfl (cached_none hlook)
          (hfine.onward (by rw [hc]; rfl) rfl fun g f he => by cases he)
  | gates =>
      have honward : ∀ s : Stage κ Bool, s.asks = true → (∀ g f, s ≠ .fetches g f) →
          Fine sv st.log st.now i { c with stage := s } := fun s => hfine.onward (by rw [hc]; rfl)
      simp only [Verifier.advance, hc] at hs
      split at hs
      · cases hs
      split at hs
      · cases hs
        exact h.moves hi rfl rfl rfl rfl rfl hsame (honward _ rfl fun g f he => by cases he)
      · split at hs
        · cases hs
          exact h.moves hi rfl rfl rfl rfl rfl hsame (honward _ rfl fun g f he => by cases he)
        · cases hs
          exact h.moves hi rfl rfl rfl rfl rfl hsame (honward _ rfl fun g f he => by cases he)
  | scans unchecked =>
      cases unchecked with
      | nil =>
          simp only [Verifier.advance, hc] at hs
          cases hs
          exact h.moves hi rfl rfl rfl rfl rfl hsame (hfine.fails (by rw [hc]; rfl)
            (by rw [hc]; exact fun he => by cases he) rfl fun v he => by cases he)
      | cons e unchecked =>
          simp only [Verifier.advance, hc] at hs
          split at hs
          · cases hs
            exact h.moves hi rfl rfl rfl rfl rfl hsame
              (hfine.onward (by rw [hc]; rfl) rfl fun g f he => by cases he)
          · cases hs
            exact h.moves hi rfl rfl rfl rfl rfl hsame
              (hfine.onward (by rw [hc]; rfl) rfl fun g f he => by cases he)
  | waits gate =>
      simp only [Verifier.advance, hc] at hs
      split at hs
      · cases hs
      · cases hs
        exact h.moves hi rfl rfl rfl rfl rfl hsame
          (hfine.onward (by rw [hc]; rfl) rfl fun g f he => by cases he)
  | rechecks gate =>
      simp only [Verifier.advance, hc] at hs
      split at hs
      case h_1 answers value hlook =>
        cases hs
        exact h.looks hi hsv.positive (by rw [hc]; rfl) hlook rfl
      case h_2 answers hlook =>
        cases hs
        exact h.moves hi rfl rfl rfl rfl rfl (cached_none hlook)
          (hfine.onward (by rw [hc]; rfl) rfl fun g f he => by cases he)
  | admits gate =>
      simp only [Verifier.advance, hc] at hs
      split at hs
      · cases hs
        exact h.moves hi rfl rfl rfl rfl rfl hsame
          (hfine.onward (by rw [hc]; rfl) rfl fun g f he => by cases he)
      · cases hs
        exact h.moves hi rfl rfl rfl rfl rfl hsame (hfine.fails (by rw [hc]; rfl)
          (by rw [hc]; exact fun he => by cases he) rfl fun v he => by cases he)
  | queues gate =>
      simp only [Verifier.advance, hc] at hs
      split at hs
      · cases hs
      · cases hs
        have hnoted : Fine sv ((st.now, .fetching i st.flights c.key) :: st.log) st.now i c :=
          hfine.note fun j f key answer he => by cases he
        obtain ⟨t₀, hcalled⟩ := h.logged.called i c hi
        have hasks : c.stage.asks = true := by rw [hc]; rfl
        refine h.notes hi ⟨t₀, c.recent, hcalled⟩ (fun i key recent he => by cases he)
          (fun j f key answer he => by cases he) rfl rfl rfl hsame
          ⟨fun v hv => (by cases hv), fun t f key error hm => ?_,
            fun g f he => ?_, fun hr => ?_⟩
        · exact absurd hm (hnoted.not_failed (Stage.asks_outcome hasks).1
            (Stage.asks_outcome hasks).2)
        · cases he
          exact ⟨[], st.now, st.log, rfl, by simp⟩
        · exact (going_asks hasks).1 (hnoted.going hr)
  | fetches gate flight =>
      simp only [Verifier.advance, hc] at hs
      cases hs
  | releases gate outcome =>
      simp only [Verifier.advance, hc] at hs
      cases hs
      exact h.moves hi rfl rfl rfl rfl rfl hsame (hfine.passes (by rw [hc]; rfl) rfl)
  | unlocks gate outcome =>
      simp only [Verifier.advance, hc] at hs
      cases hs
      exact h.moves hi rfl rfl rfl rfl rfl hsame (hfine.passes (by rw [hc]; rfl) rfl)
  | drops gate outcome =>
      simp only [Verifier.advance, hc] at hs
      cases hs
      exact h.moves hi rfl rfl rfl rfl rfl hsame (hfine.passes (by rw [hc]; rfl) rfl)
  | answered outcome =>
      cases outcome with
      | none =>
          simp only [Verifier.advance, hc] at hs
          cases hs
          exact h.moves hi rfl rfl rfl rfl rfl hsame ⟨fun v hv => (by cases hv),
            fun _ _ _ _ _ => .inr rfl, fun g f he => (by cases he), fun _ => trivial⟩
      | some result =>
          simp only [Verifier.advance, hc] at hs
          cases hs
          exact h.concludes hsv hi hc
  | sleeps wake =>
      simp only [Verifier.advance, hc] at hs
      split at hs
      · cases hs
      case isFalse hwake =>
        cases hs
        refine h.moves hi rfl rfl rfl rfl rfl hsame ⟨fun v hv => (by cases hv),
          fun t f key error hm => ?_, fun g f he => (by cases he), fun hr => ?_⟩
        · exact absurd hm (hfine.not_failed (by rw [hc]; rfl)
            (by rw [hc]; exact fun he => by cases he))
        · have hgoing := hfine.going hr
          rw [Going, hc] at hgoing
          exact hgoing.mono (List.Sublist.refl _) (Nat.le_of_not_lt hwake)
  | done =>
      simp only [Verifier.advance, hc] at hs
      cases hs

/-- A call begins. -/
theorem Sound.call (h : Sound sv st) (hc : c.stage = .begins) (hattempt : c.attempt = 0) :
    Sound sv
      { st.note (.called st.callers.length c.key c.recent) with callers := st.callers ++ [c] } := by
  have hold : ∀ {j : Nat} {d : Caller κ Bool}, st.callers[j]? = some d →
      (st.callers ++ [c])[j]? = some d :=
    fun {j d} hj => by rw [List.getElem?_append_left (List.getElem?_eq_some_iff.1 hj).1, hj]
  have hnew : ∀ {j : Nat} {d : Caller κ Bool}, (st.callers ++ [c])[j]? = some d →
      st.callers[j]? = some d ∨ j = st.callers.length ∧ d = c := by
    intro j d hj
    rw [List.getElem?_append] at hj
    split at hj
    · exact .inl hj
    case isFalse hlen =>
      rw [List.getElem?_singleton] at hj
      split at hj
      case isTrue hzero => exact .inr ⟨by omega, (Option.some.inj hj).symm⟩
      case isFalse => cases hj
  have hnone : st.callers[st.callers.length]? = none := List.getElem?_eq_none (Nat.le_refl _)
  have hfetched : ∀ {t j f : Nat} {key : κ} {answer : Except String Bool},
      (t, Event.fetched j f key answer) ∈ st.log → j ≠ st.callers.length := by
    rintro t j f key answer hm rfl
    obtain ⟨later, earlier, hlog⟩ := List.append_of_mem hm
    obtain ⟨since, t₁, before, rfl, -⟩ : InFlight earlier _ f key :=
      h.logged.reasons t _ earlier ⟨later, hlog.symm⟩
    have hreason : Reason sv before (.fetching st.callers.length f key) := by
      refine h.logged.reasons t₁ _ before
        ⟨later ++ (t, .fetched st.callers.length f key answer) :: since, ?_⟩
      rw [hlog]
      simp
    obtain ⟨t₀, recent, hcalled⟩ := hreason
    have hmem : (t₀, Event.called st.callers.length key recent) ∈ st.log := by
      rw [hlog]
      simp [hcalled]
    obtain ⟨d, hd, -⟩ := h.logged.callers _ _ _ _ hmem
    rw [hnone] at hd
    cases hd
  refine ⟨⟨?_, fun e he => ?_, fun t e earlier hs => ?_, fun j d hj =>
    ?_, fun t₀ j key recent hm => ?_, fun key value obtained hp => ?_⟩, fun j d hj => ?_⟩
  · exact List.pairwise_cons.2 ⟨fun e he => h.logged.past e he, h.logged.sorted⟩
  · rcases List.mem_cons.1 he with rfl | he
    · exact Nat.le_refl _
    · exact h.logged.past e he
  · rcases List.suffix_cons_iff.1 hs with heq | hs
    · cases heq
      trivial
    · exact h.logged.reasons t e earlier hs
  · rcases hnew hj with hj | ⟨rfl, rfl⟩
    · obtain ⟨t₀, hm⟩ := h.logged.called j d hj
      exact ⟨t₀, List.mem_cons_of_mem _ hm⟩
    · exact ⟨st.now, List.mem_cons_self⟩
  · rcases List.mem_cons.1 hm with heq | hm
    · cases heq
      exact ⟨c, by simp, rfl, rfl⟩
    · obtain ⟨d, hd, hk, hr⟩ := h.logged.callers t₀ j key recent hm
      exact ⟨d, hold hd, hk, hr⟩
  · obtain ⟨j, f, hm⟩ := h.logged.cached key value obtained hp
    exact ⟨j, f, List.mem_cons_of_mem _ hm⟩
  · rcases hnew hj with hj | ⟨rfl, rfl⟩
    · exact (h.fine j d hj).note fun _ _ _ _ he => by cases he
    · refine ⟨fun v hv => ?_, fun t f key error hm => ?_, fun g f he => ?_, fun hr => ?_⟩
      · rw [hc] at hv
        cases hv
      · rcases List.mem_cons.1 hm with heq | hm
        · cases heq
        · exact absurd rfl (hfetched hm)
      · rw [hc] at he
        cases he
      · rw [Going, hc]
        exact .inr (.inl hattempt)

theorem Sound.step (h : Sound sv st) (hg : Guarded sv st) (hsv : Rechecks sv) {m : Move Bool}
    {st' : Verifier κ Bool Bool} (hs : st.step sv m = some st') : Sound sv st' := by
  cases m with
  | call accountId mapUid recent =>
      rw [Verifier.step] at hs
      split at hs
      · cases hs
      · cases hs
        exact h.call (c := { accountId, key := sv.keyOf accountId mapUid, recent }) rfl rfl
  | go i =>
      obtain ⟨c, hi, hs⟩ := Option.bind_eq_some_iff.1 hs
      exact h.advance hsv hi hs
  | fetched i answer =>
      obtain ⟨c, hi, hs⟩ := Option.bind_eq_some_iff.1 hs
      exact h.fetched hg hi hs
  | drop i =>
      obtain ⟨c, hi, hs⟩ := Option.bind_eq_some_iff.1 hs
      exact h.dropped hi hs
  | pass nanos =>
      cases hs
      exact ⟨h.logged.congr rfl (Nat.le_add_right _ _) rfl fun _ _ hp => hp,
        fun i c hi => (h.fine i c hi).wait (Nat.le_add_right _ _)⟩

theorem Sound.new (sv : Service κ Bool Bool) (now : Nat) : Sound sv (.new sv now) where
  logged :=
    { sorted := List.Pairwise.nil
      past := by simp [Verifier.new]
      reasons := fun t e earlier hs => by simp [Verifier.new] at hs
      called := fun i c hi => by simp [Verifier.new] at hi
      callers := fun t₀ i key recent hm => by simp [Verifier.new] at hm
      cached := fun key value obtained hp => by
        simp [Verifier.new, LruCache.empty, LruCache.peek] at hp }
  fine i c hi := by simp [Verifier.new] at hi

theorem Verifier.Reached.sound (h : Reached sv st) (hsv : Rechecks sv) :
    Sound sv st := by
  induction h with
  | new now => exact .new sv now
  | step hr hs ih => exact ih.step hr.guarded hsv hs

end

namespace CachedOfficialRecordVerifier

theorem rechecks (capacity positiveTtl negativeTtl : Nat) (limits : AdmissionLimits)
    (concurrency : Nat) :
    Rechecks (withConfig capacity positiveTtl negativeTtl limits concurrency) :=
  ⟨fun _ => rfl, fun _ => rfl, Nat.lt_succ_self 2⟩

end CachedOfficialRecordVerifier

/-- Every call of the record verifier that returned was told the truth: a recheck that says there is
no record by a fetch that began after the call, a call that says there is one by an answer that was
not too old when the call looked at it, and a call whose fetch failed says so.  Only answers are
cached. -/
theorem answers_fresh (capacity positiveTtl negativeTtl : Nat) (limits : AdmissionLimits)
    (concurrency : Nat) {st : Verifier (Uuid × String) Bool Bool}
    (h : Reached (CachedOfficialRecordVerifier.withConfig capacity positiveTtl negativeTtl limits
      concurrency) st) :
    (∀ t i result earlier t₀ key recent, (t, .returned i result) :: earlier <:+ st.log →
      (t₀, .called i key recent) ∈ earlier →
      Returns (CachedOfficialRecordVerifier.withConfig capacity positiveTtl negativeTtl
        limits concurrency) earlier i key recent result) ∧
    ∀ key value obtained, st.answers.peek key = some ⟨value, obtained⟩ →
      ∃ j f, (obtained, .fetched j f key (.ok value)) ∈ st.log := by
  have hlogged := (h.sound (CachedOfficialRecordVerifier.rechecks _ _ _ _ _)).logged
  exact ⟨fun t i result earlier t₀ key recent hs =>
    hlogged.reasons t _ earlier hs t₀ key recent, hlogged.cached⟩

namespace Sample

/-- A recheck waits behind a fetch that began before it, and asks again. -/
def rechecking : List (Move Bool) :=
  .call 7 "A" false :: goes 0 7 ++ .call 7 "A" true :: goes 1 3 ++ .fetched 0
    (.ok false) :: goes 0 4 ++
    goes 1 5 ++ .pass (millis 250) :: goes 1 8 ++ .fetched 1 (.ok false) :: goes 1 4 ++
    .pass (millis 500) :: goes 1 8 ++ .fetched 1 (.ok false) :: goes 1 4

end Sample

theorem answers_fresh_waiting : ∃ st t earlier,
    (Verifier.new Sample.narrow 0).run Sample.narrow Sample.rechecking = some st ∧
      (t, Event.returned 1 (.ok false)) :: earlier <:+ st.log ∧
      FreshNegative earlier 1 (7, "A") := by
  have hruns : ((Verifier.new Sample.narrow 0).run Sample.narrow Sample.rechecking).any (fun st =>
      match st.log with
      | (_, .returned 1 (.ok false)) :: earlier => earlier.any fun e =>
          match e.2 with
          | .called 1 key true => key = (7, "A")
          | _ => false
      | _ => false) = true := by decide
  obtain ⟨st, hrun, hlog⟩ := (Option.any_eq_true _ _).1 hruns
  split at hlog
  case h_2 => cases hlog
  case h_1 t earlier hst =>
    obtain ⟨⟨t₀, e⟩, he, hcalled⟩ := List.any_eq_true.1 hlog
    split at hcalled
    case h_2 => cases hcalled
    case h_1 key heq =>
      obtain rfl : e = .called 1 key true := heq
      obtain rfl : key = (7, "A") := by simpa using hcalled
      have hsuffix : (t, Event.returned 1 (.ok false)) :: earlier <:+ st.log := ⟨[], hst.symm⟩
      refine ⟨st, t, earlier, hrun, hsuffix, ?_⟩
      exact ((answers_fresh 1 (secs (15 * 60)) (secs 90) CachedOfficialRecordVerifier.limits 16
        (Reached.run (.new 0) hrun)).1 t 1 _ earlier t₀ _ true hsuffix he).negative rfl rfl

end Nadeo

end Dd2Server
