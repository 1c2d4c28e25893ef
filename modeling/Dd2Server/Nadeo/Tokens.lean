import Dd2Server.Nadeo.Admission
import Mathlib.Data.List.Basic
import Mathlib.Logic.Function.Basic

/-!
# Tokens of Nadeo

A request to Nadeo needs a token of its audience.  `ensure_cached_token` takes the one in the cache
while it is young.  Otherwise it goes through the gate of the audience, looks again, and asks Nadeo
for another one.  What it saw behind the gate is so until it leaves: nobody else puts a token into
the cache.  So Nadeo is asked by one caller at a time, only when the last token is too old, and the
tokens in the cache come no closer than the age of one.
-/

namespace Dd2Server

namespace Nadeo

/-- The services that have tokens of their own. -/
inductive Audience
  | live
  | core
  deriving DecidableEq

def Audience.text : Audience → String
  | .live => "NadeoLiveServices"
  | .core => "NadeoServices"

structure CachedToken where
  access : String
  refresh : Option String
  obtained : Nat
  deriving DecidableEq

def tokenMaxAge : Nat := secs (50 * 60)

/-- Where a call of `ensure_cached_token` is. -/
inductive TokenStage
  | looks
  | waits
  | looksAgain
  | fetches
  | stores (token : CachedToken)
  | unlocks (result : Except String String)
  | returns (result : Except String String)
  | done
  deriving DecidableEq

/-- With the guard of the gate. -/
def TokenStage.guard : TokenStage → Bool
  | .looksAgain | .fetches | .stores _ | .unlocks _ => true
  | _ => false

/-- At an `await`, where the call may be dropped. -/
def TokenStage.awaits : TokenStage → Bool
  | .looks | .waits | .looksAgain | .fetches | .stores _ => true
  | _ => false

structure TokenCaller where
  audience : Audience
  stage : TokenStage := .looks
  deriving DecidableEq

/-- What is noted of a run, besides the time. -/
inductive TokenEvent
  | looked (caller : Nat) (audience : Audience) (token : CachedToken)
  /-- `authenticate` begins. -/
  | asks (caller : Nat) (audience : Audience)
  | stored (caller : Nat) (audience : Audience) (token : CachedToken)
  | returned (caller : Nat) (audience : Audience) (result : Except String String)
  deriving DecidableEq

/-- The tokens of `NadeoLiveClient`, and its callers. -/
structure TokenStore where
  cache : Audience → Option CachedToken := fun _ => none
  callers : List TokenCaller := []
  now : Nat
  /-- The latest first. -/
  log : List (Nat × TokenEvent) := []

inductive TokenMove
  | call (audience : Audience)
  | go (caller : Nat)
  /-- `authenticate` ends. -/
  | fetched (caller : Nat) (answer : Except String (String × Option String))
  | drop (caller : Nat)
  | pass (nanos : Nat)

namespace TokenStore

/-- `fresh_token`. -/
def fresh (st : TokenStore) (a : Audience) : Option CachedToken :=
  (st.cache a).filter fun token => st.now - token.obtained < tokenMaxAge

def note (st : TokenStore) (ev : TokenEvent) : TokenStore :=
  { st with log := (st.now, ev) :: st.log }

/-- A caller is at a stage from now on. -/
def moves (st : TokenStore) (i : Nat) (c : TokenCaller) (stage : TokenStage) : TokenStore :=
  { st with callers := st.callers.set i { c with stage } }

/-- The next step of `ensure_cached_token`. -/
def advance (st : TokenStore) (i : Nat) (c : TokenCaller) : Option TokenStore :=
  match c.stage with
  | .looks =>
      match st.fresh c.audience with
      | some token =>
          some ((st.note (.looked i c.audience token)).moves i c (.returns (.ok token.access)))
      | none => some (st.moves i c .waits)
  | .waits =>
      if st.callers.any fun d => d.audience = c.audience && d.stage.guard then none
      else some (st.moves i c .looksAgain)
  | .looksAgain =>
      match st.fresh c.audience with
      | some token =>
          some ((st.note (.looked i c.audience token)).moves i c (.unlocks (.ok token.access)))
      | none => some ((st.note (.asks i c.audience)).moves i c .fetches)
  | .fetches => none
  | .stores token =>
      let st' := { st with cache := Function.update st.cache c.audience (some token) }
      some ((st'.note (.stored i c.audience token)).moves i c (.unlocks (.ok token.access)))
  | .unlocks result => some (st.moves i c (.returns result))
  | .returns result => some ((st.note (.returned i c.audience result)).moves i c .done)
  | .done => none

/-- The answer of Nadeo comes. -/
def fetched (st : TokenStore) (i : Nat) (c : TokenCaller)
    (answer : Except String (String × Option String)) : Option TokenStore :=
  match c.stage, answer with
  | .fetches, .ok (access, refresh) =>
      some (st.moves i c (.stores { access, refresh, obtained := st.now }))
  | .fetches, .error error => some (st.moves i c (.unlocks (.error error)))
  | _, _ => none

def step (st : TokenStore) : TokenMove → Option TokenStore
  | .call audience => some { st with callers := st.callers ++ [{ audience }] }
  | .go i => st.callers[i]?.bind fun c => st.advance i c
  | .fetched i answer => st.callers[i]?.bind fun c => st.fetched i c answer
  | .drop i =>
      st.callers[i]?.bind fun c => if c.stage.awaits then some (st.moves i c .done) else none
  | .pass nanos => some { st with now := st.now + nanos }

def run (st : TokenStore) : List TokenMove → Option TokenStore
  | [] => some st
  | m :: moves => (st.step m).bind fun st' => st'.run moves

/-- What the interleavings reach from empty caches. -/
inductive Reached : TokenStore → Prop
  | new (now : Nat) : Reached { now }
  | step {st st' : TokenStore} {m : TokenMove} : Reached st → st.step m = some st' → Reached st'

theorem Reached.run {st st' : TokenStore} {moves : List TokenMove} (h : Reached st)
    (hrun : st.run moves = some st') : Reached st' := by
  induction moves generalizing st with
  | nil =>
      cases hrun
      exact h
  | cons m moves ih =>
      obtain ⟨st₁, h₁, hrun⟩ := Option.bind_eq_some_iff.1 hrun
      exact ih (.step h h₁) hrun

/-! ## What a step can do -/

/-- A caller goes to another stage, and this is noted. -/
inductive Goes (st : TokenStore) (i : Nat) (c : TokenCaller) :
    TokenStage → Option TokenEvent → Prop
  | hit (token : CachedToken) (hstage : c.stage = .looks)
    (hfresh : st.fresh c.audience = some token) :
      Goes st i c (.returns (.ok token.access)) (some (.looked i c.audience token))
  | misses (hstage : c.stage = .looks) : Goes st i c .waits none
  | enters (hstage : c.stage = .waits)
      (hfree : ∀ d ∈ st.callers, d.audience = c.audience →
        d.stage.guard = false) : Goes st i c .looksAgain none
  | hitAgain (token : CachedToken) (hstage : c.stage = .looksAgain)
    (hfresh : st.fresh c.audience = some token) :
      Goes st i c (.unlocks (.ok token.access)) (some (.looked i c.audience token))
  | asks (hstage : c.stage = .looksAgain) (hstale : st.fresh c.audience = none) :
      Goes st i c .fetches (some (.asks i c.audience))
  | fetched (token : CachedToken) (hstage : c.stage = .fetches) (hnow : token.obtained = st.now) :
      Goes st i c (.stores token) none
  | fails (error : String) (hstage : c.stage = .fetches) : Goes st i c
    (.unlocks (.error error)) none
  | stores (token : CachedToken) (hstage : c.stage = .stores token) :
      Goes st i c (.unlocks (.ok token.access)) (some (.stored i c.audience token))
  | unlocks (result : Except String String) (hstage : c.stage = .unlocks result) : Goes st i c
    (.returns result) none
  | returns (result : Except String String) (hstage : c.stage = .returns result) :
      Goes st i c .done (some (.returned i c.audience result))
  | dropped (hawaits : c.stage.awaits = true) : Goes st i c .done none

/-- What an event does to the cache. -/
def cacheAfter (st : TokenStore) : Option TokenEvent → Audience → Option CachedToken
  | some (.stored _ a token) => Function.update st.cache a (some token)
  | _ => st.cache

/-- The log with what is noted now. -/
def logAfter (st : TokenStore) (ev : Option TokenEvent) : List (Nat × TokenEvent) :=
  (ev.map fun ev => (st.now, ev)).toList ++ st.log

inductive Stepped (st st' : TokenStore) : Prop
  | passed (nanos : Nat) (h : st' = { st with now := st.now + nanos })
  | called (a : Audience) (h : st' = { st with callers := st.callers ++ [{ audience := a }] })
  | went (i : Nat) (c : TokenCaller) (stage : TokenStage) (ev : Option TokenEvent)
    (hi : st.callers[i]? = some c)
      (hgoes : Goes st i c stage ev)
      (h : st' = { st with cache := st.cacheAfter ev, callers := st.callers.set i { c with stage }
                           log := st.logAfter ev })

theorem step_cases {st st' : TokenStore} {m : TokenMove} (h : st.step m = some st') :
    Stepped st st' := by
  cases m with
  | call a =>
      cases h
      exact .called a rfl
  | pass nanos =>
      cases h
      exact .passed nanos rfl
  | drop i =>
      obtain ⟨c, hi, h⟩ := Option.bind_eq_some_iff.1 h
      split at h
      case isFalse => cases h
      case isTrue hawaits =>
        cases h
        exact .went i c _ none hi (.dropped hawaits) rfl
  | fetched i answer =>
      obtain ⟨c, hi, h⟩ := Option.bind_eq_some_iff.1 h
      simp only [TokenStore.fetched] at h
      split at h
      case h_1 hstage _ =>
        cases h
        exact .went i c _ none hi (.fetched _ hstage rfl) rfl
      case h_2 hstage _ =>
        cases h
        exact .went i c _ none hi (.fails _ hstage) rfl
      case h_3 => cases h
  | go i =>
      obtain ⟨c, hi, h⟩ := Option.bind_eq_some_iff.1 h
      simp only [advance] at h
      split at h
      case h_1 hstage =>
        split at h
        · next token hfresh =>
          cases h
          exact .went i c _ _ hi (.hit token hstage hfresh) rfl
        · cases h
          exact .went i c _ none hi (.misses hstage) rfl
      case h_2 hstage =>
        split at h
        case isTrue => cases h
        case isFalse hany =>
          cases h
          refine .went i c _ none hi (.enters hstage fun d hd ha => ?_) rfl
          rw [Bool.eq_false_iff]
          intro hguard
          exact hany (List.any_eq_true.2 ⟨d, hd, by simp [ha, hguard]⟩)
      case h_3 hstage =>
        split at h
        · next token hfresh =>
          cases h
          exact .went i c _ _ hi (.hitAgain token hstage hfresh) rfl
        · next hstale =>
          cases h
          exact .went i c _ _ hi (.asks hstage hstale) rfl
      case h_4 => cases h
      case h_5 token hstage =>
        cases h
        exact .went i c _ _ hi (.stores token hstage) rfl
      case h_6 result hstage =>
        cases h
        exact .went i c _ none hi (.unlocks result hstage) rfl
      case h_7 result hstage =>
        cases h
        exact .went i c _ _ hi (.returns result hstage) rfl
      case h_8 => cases h

/-! ## What a caller stands on -/

/-- The tokens that the log says an audience had, the latest first. -/
def stored (log : List (Nat × TokenEvent)) (a : Audience) : List CachedToken :=
  log.filterMap fun
    | (_, .stored _ b token) => if b = a then some token else none
    | _ => none

/-- All of the tokens are too old at a moment. -/
def Stale (tokens : List CachedToken) (t : Nat) : Prop :=
  ∀ token ∈ tokens, token.obtained + tokenMaxAge ≤ t

/-- A caller saw a young token of its audience, or stored one itself. -/
def Warranted (log : List (Nat × TokenEvent)) (i : Nat) (a : Audience) (access : String) : Prop :=
  ∃ t token, token.access = access ∧ token ∈ stored log a ∧
    ((t, .looked i a token) ∈ log ∧ t < token.obtained + tokenMaxAge ∨
      (t, .stored i a token) ∈ log)

/-- What a caller knows at its stage. -/
def Stands (log : List (Nat × TokenEvent)) (now i : Nat) (c : TokenCaller) : Prop :=
  match c.stage with
  | .fetches => Stale (stored log c.audience) now
  | .stores token => Stale (stored log c.audience) token.obtained ∧ token.obtained ≤ now
  | .unlocks (.ok access) | .returns (.ok access) => Warranted log i c.audience access
  | _ => True

/-- What an event says that comes after others. -/
def Follows (log : List (Nat × TokenEvent)) (t : Nat) : TokenEvent → Prop
  | .looked _ a token => token ∈ stored log a ∧ t < token.obtained + tokenMaxAge
  | .asks _ a => Stale (stored log a) t
  | .stored _ a token => Stale (stored log a) token.obtained ∧ token.obtained ≤ t
  | .returned i a (.ok access) => Warranted log i a access
  | .returned _ _ (.error _) => True

/-- Each event of a log follows from the earlier ones. -/
inductive Told : List (Nat × TokenEvent) → Prop
  | nil : Told []
  | cons {log : List (Nat × TokenEvent)} {t : Nat} {ev : TokenEvent} (hlog : Told log)
      (hev : Follows log t ev) : Told ((t, ev) :: log)

theorem Told.follows {later log : List (Nat × TokenEvent)} {t : Nat} {ev : TokenEvent}
    (h : Told (later ++ (t, ev) :: log)) : Follows log t ev := by
  induction later with
  | nil =>
      cases h with
      | cons _ hev => exact hev
  | cons e later ih =>
      cases h with
      | cons hlog _ => exact ih hlog

/-- What holds of the cache, its callers and the log, at all times. -/
structure Sound (st : TokenStore) : Prop where
  told : Told st.log
  cached : ∀ a, st.cache a = (stored st.log a).head?
  /-- One caller at a time is behind a gate. -/
  guarded : ∀ (i j : Nat) (c d : TokenCaller), st.callers[i]? = some c →
    st.callers[j]? = some d →
    c.audience = d.audience → c.stage.guard = true → d.stage.guard = true → i = j
  stands : ∀ (i : Nat) (c : TokenCaller), st.callers[i]? = some c → Stands st.log st.now i c

theorem Stale.later {tokens : List CachedToken} {t t' : Nat} (h : Stale tokens t) (hle : t ≤ t') :
    Stale tokens t' :=
  fun token htoken => (h token htoken).trans hle

theorem stored_subset {log log' : List (Nat × TokenEvent)} (h : log ⊆ log') (a : Audience) :
    stored log a ⊆ stored log' a :=
  List.filterMap_subset _ h

theorem Warranted.later {log log' : List (Nat × TokenEvent)} {i : Nat} {a : Audience}
    {access : String} (h : Warranted log i a access) (hlog : log ⊆ log') :
    Warranted log' i a access := by
  obtain ⟨t, token, haccess, htoken, hev⟩ := h
  refine ⟨t, token, haccess, stored_subset hlog a htoken, ?_⟩
  obtain ⟨hlooked, ht⟩ | hstored := hev
  · exact .inl ⟨hlog hlooked, ht⟩
  · exact .inr (hlog hstored)

/-- Without the guard a caller does not depend on which tokens there are. -/
theorem Stands.later {log log' : List (Nat × TokenEvent)} {t t' i : Nat} {c : TokenCaller}
    (h : Stands log t i c) (hlog : log ⊆ log') (hle : t ≤ t')
    (hstored : c.stage.guard = true → stored log' c.audience = stored log c.audience) :
    Stands log' t' i c := by
  unfold Stands at h ⊢
  split at h
  case h_1 hstage =>
    rw [hstored (by rw [hstage]; rfl)]
    exact h.later hle
  case h_2 token hstage =>
    rw [hstored (by rw [hstage]; rfl)]
    exact ⟨h.1, h.2.trans hle⟩
  case h_3 => exact h.later hlog
  case h_4 => exact h.later hlog
  case h_5 => trivial

/-- No token is stored before the last one is too old. -/
theorem Told.spaced {log : List (Nat × TokenEvent)} (h : Told log) (a : Audience) :
    (stored log a).Pairwise fun newer older => older.obtained + tokenMaxAge ≤ newer.obtained := by
  induction h with
  | nil => exact .nil
  | @cons log t ev _ hev ih =>
      cases ev with
      | stored i b token =>
          by_cases hb : b = a
          · subst hb
            rw [stored, List.filterMap_cons_some (b := token) (by simp)]
            exact ih.cons hev.1
          · rw [stored, List.filterMap_cons_none (by simp [hb])]
            exact ih
      | looked i b token => exact ih
      | asks i b => exact ih
      | returned i b result => exact ih

theorem caller_of_append {callers : List TokenCaller} {d e : TokenCaller} {k : Nat}
    (hk : (callers ++ [d])[k]? = some e) : callers[k]? = some e ∨ e = d := by
  rw [List.getElem?_append] at hk
  split at hk
  · exact .inl hk
  · exact .inr (List.mem_singleton.1 (List.mem_of_getElem? hk))

theorem caller_of_set {callers : List TokenCaller} {d e : TokenCaller} {i k : Nat}
    (hk : (callers.set i d)[k]? = some e) :
    i = k ∧ e = d ∨ i ≠ k ∧ callers[k]? = some e := by
  by_cases hik : i = k
  · subst hik
    have hlen := (List.getElem?_eq_some_iff.1 hk).1
    rw [List.length_set] at hlen
    rw [List.getElem?_set_self hlen] at hk
    exact .inl ⟨rfl, (Option.some.inj hk).symm⟩
  · rw [List.getElem?_set_ne hik] at hk
    exact .inr ⟨hik, hk⟩

namespace Sound

variable {st st' : TokenStore} {i : Nat} {c : TokenCaller} {stage : TokenStage}
    {ev : Option TokenEvent}

theorem fresh_some (h : Sound st) {a : Audience} {token : CachedToken}
    (hfresh : st.fresh a = some token) :
    token ∈ stored st.log a ∧ st.now < token.obtained + tokenMaxAge := by
  obtain ⟨hcache, hage⟩ := Option.filter_eq_some_iff.1 hfresh
  rw [h.cached a] at hcache
  have hlt : st.now - token.obtained < tokenMaxAge := of_decide_eq_true hage
  exact ⟨List.mem_of_head? hcache, by omega⟩

/-- When the last token is too old, the earlier ones are as well. -/
theorem fresh_none (h : Sound st) {a : Audience} (hfresh : st.fresh a = none) :
    Stale (stored st.log a) st.now := by
  have hspaced := h.told.spaced a
  have hcache := h.cached a
  cases htokens : stored st.log a with
  | nil => exact fun _ h => by cases h
  | cons token older =>
      rw [htokens] at hspaced hcache
      have hage := Option.filter_eq_none_iff.1 hfresh token hcache
      have hlast : token.obtained + tokenMaxAge ≤ st.now := by
        have := of_decide_eq_false (Bool.eq_false_iff.2 hage)
        have : 0 < tokenMaxAge := by decide
        omega
      intro token' hmem
      rcases List.mem_cons.1 hmem with rfl | hmem
      · exact hlast
      · have := List.rel_of_pairwise_cons hspaced hmem
        omega

theorem follows (h : Sound st) (hi : st.callers[i]? = some c) (hgoes : Goes st i c stage ev) :
    ∀ e ∈ ev, Follows st.log st.now e := by
  have hstands := h.stands i c hi
  intro e he
  cases hgoes with
  | hit token hstage hfresh | hitAgain token hstage hfresh =>
      cases he
      exact h.fresh_some hfresh
  | asks hstage hstale =>
      cases he
      exact h.fresh_none hstale
  | stores token hstage =>
      cases he
      rw [Stands, hstage] at hstands
      exact hstands
  | returns result hstage =>
      cases he
      rw [Stands, hstage] at hstands
      cases result with
      | error error => trivial
      | ok access => exact hstands
  | misses | enters | fetched | fails | unlocks | dropped => cases he

theorem told_after (h : Sound st) (hi : st.callers[i]? = some c) (hgoes : Goes st i c stage ev) :
    Told (st.logAfter ev) := by
  have hev := h.follows hi hgoes
  cases ev with
  | none => exact h.told
  | some e => exact h.told.cons (hev e rfl)

theorem cached_after (h : Sound st) (ev : Option TokenEvent) (a : Audience) :
    st.cacheAfter ev a = (stored (st.logAfter ev) a).head? := by
  cases ev with
  | none => exact h.cached a
  | some e =>
      cases e with
      | stored i b token =>
          by_cases hb : b = a
          · subst hb
            simp [cacheAfter, logAfter, stored]
          · simp only [cacheAfter, logAfter, Function.update_of_ne (Ne.symm hb), h.cached a]
            simp [stored, hb]
      | looked | asks | returned => exact h.cached a

theorem subset_logAfter (st : TokenStore) (ev : Option TokenEvent) : st.log ⊆ st.logAfter ev :=
  List.subset_append_right _ _

/-- Who gets the guard found it free. -/
theorem guard_after (h : Sound st) (hi : st.callers[i]? = some c) (hgoes : Goes st i c stage ev)
    (hguard : stage.guard = true) {j : Nat} {d : TokenCaller} (hj : st.callers[j]? = some d)
    (haudience : c.audience = d.audience) (hd : d.stage.guard = true) : i = j := by
  have hheld (hc : c.stage.guard = true) : i = j := h.guarded i j c d hi hj haudience hc hd
  cases hgoes with
  | hit | misses | unlocks | returns | dropped => cases hguard
  | enters hstage hfree =>
      rw [hfree d (List.mem_of_getElem? hj) haudience.symm] at hd
      cases hd
  | hitAgain _ hstage | asks hstage | fetched _ hstage | fails _ hstage | stores _ hstage =>
      exact hheld (by rw [hstage]; rfl)

/-- A token of another caller's audience is not stored while that one has the guard. -/
theorem stored_after (h : Sound st) (hi : st.callers[i]? = some c) (hgoes : Goes st i c stage ev)
    {j : Nat} {d : TokenCaller} (hj : st.callers[j]? = some d) (hij : i ≠ j)
    (hd : d.stage.guard = true) :
    stored (st.logAfter ev) d.audience = stored st.log d.audience := by
  cases hgoes with
  | stores token hstage =>
      have hne : c.audience ≠ d.audience := fun haudience =>
        hij (h.guarded i j c d hi hj haudience (by rw [hstage]; rfl) hd)
      simp [logAfter, stored, hne]
  | misses | enters | fetched | fails | unlocks | dropped => rfl
  | hit | hitAgain | asks | returns => rfl

/-- What the caller that moved knows then. -/
theorem stands_after (h : Sound st) (hi : st.callers[i]? = some c) (hgoes : Goes st i c stage ev) :
    Stands (st.logAfter ev) st.now i { c with stage } := by
  have hstands := h.stands i c hi
  cases hgoes with
  | hit token hstage hfresh | hitAgain token hstage hfresh =>
      obtain ⟨htoken, ht⟩ := h.fresh_some hfresh
      exact ⟨st.now, token, rfl, stored_subset (subset_logAfter st _) _ htoken,
        .inl ⟨List.mem_cons_self, ht⟩⟩
  | misses | enters | fails | returns | dropped => trivial
  | asks hstage hstale => exact h.fresh_none hstale
  | fetched token hstage hnow =>
      rw [Stands, hstage] at hstands
      exact ⟨hnow ▸ hstands, hnow.le⟩
  | stores token hstage =>
      refine ⟨st.now, token, rfl, ?_, .inr List.mem_cons_self⟩
      simp [logAfter, stored]
  | unlocks result hstage =>
      rw [Stands, hstage] at hstands
      cases result with
      | error error => trivial
      | ok access => exact hstands

theorem new (now : Nat) : Sound { now } where
  told := .nil
  cached a := rfl
  guarded i j c d hi := by simp at hi
  stands i c hi := by simp at hi

theorem called (h : Sound st) (a : Audience) :
    Sound { st with callers := st.callers ++ [{ audience := a }] } where
  told := h.told
  cached := h.cached
  guarded i j c d hi hj haudience hc hd := by
    -- Who has the guard does not begin now.
    have hold {k : Nat} {e : TokenCaller} (hk : (st.callers ++ [{ audience := a }])[k]? = some e)
        (he : e.stage.guard = true) : st.callers[k]? = some e := by
      rcases caller_of_append hk with hk | rfl
      · exact hk
      · cases he
    exact h.guarded i j c d (hold hi hc) (hold hj hd) haudience hc hd
  stands i c hi := by
    rcases caller_of_append hi with hi | rfl
    · exact h.stands i c hi
    · trivial

theorem went (h : Sound st) (hi : st.callers[i]? = some c) (hgoes : Goes st i c stage ev) :
    Sound { st with cache := st.cacheAfter ev, callers := st.callers.set i { c with stage }
                    log := st.logAfter ev } where
  told := h.told_after hi hgoes
  cached := h.cached_after ev
  guarded j k d e hj hk haudience hd he := by
    rcases caller_of_set hj with ⟨rfl, rfl⟩ | ⟨hij, hj⟩
    · rcases caller_of_set hk with ⟨rfl, rfl⟩ | ⟨hik, hk⟩
      · rfl
      · exact h.guard_after hi hgoes hd hk haudience he
    · rcases caller_of_set hk with ⟨rfl, rfl⟩ | ⟨hik, hk⟩
      · exact (h.guard_after hi hgoes he hj haudience.symm hd).symm
      · exact h.guarded j k d e hj hk haudience hd he
  stands j d hj := by
    rcases caller_of_set hj with ⟨rfl, rfl⟩ | ⟨hij, hj⟩
    · exact h.stands_after hi hgoes
    · exact (h.stands j d hj).later (subset_logAfter st ev) le_rfl (h.stored_after hi hgoes hj hij)

theorem step {m : TokenMove} (h : Sound st) (hstep : st.step m = some st') : Sound st' := by
  cases step_cases hstep with
  | passed nanos hst =>
      subst hst
      refine ⟨h.told, h.cached, h.guarded, fun i c hi => ?_⟩
      exact (h.stands i c hi).later (List.Subset.refl _) (Nat.le_add_right ..) fun _ => rfl
  | called a hst =>
      subst hst
      exact h.called a
  | went i c stage ev hi hgoes hst =>
      subst hst
      exact h.went hi hgoes

end Sound

theorem Reached.sound {st : TokenStore} (h : Reached st) : Sound st := by
  induction h with
  | new now => exact .new now
  | step _ hstep ih => exact ih.step hstep

/-- **Nadeo is asked for a token by one caller at a time, and only when the last one is too old: the
tokens of an audience are fetched further apart than the age of one.  A caller gets a token of its
audience that was young when it looked, or that it fetched itself.** -/
theorem tokens_spaced {st : TokenStore} (h : Reached st) (a : Audience) :
    ((stored st.log a).Pairwise fun newer older =>
        older.obtained + tokenMaxAge ≤ newer.obtained) ∧
      st.cache a = (stored st.log a).head? ∧
      (∀ (i j : Nat) (c d : TokenCaller), st.callers[i]? = some c → st.callers[j]? = some d →
        c.audience = a → d.audience = a → c.stage = .fetches → d.stage = .fetches → i = j) ∧
      (∀ later log t i, st.log = later ++ (t, .asks i a) :: log → Stale (stored log a) t) ∧
      ∀ later log t i access, st.log = later ++ (t, .returned i a (.ok access)) :: log →
        Warranted log i a access := by
  have hsound := h.sound
  have htold := hsound.told
  refine ⟨htold.spaced a, hsound.cached a, ?_, ?_, ?_⟩
  · intro i j c d hi hj hc hd hic hjd
    exact hsound.guarded i j c d hi hj (hc.trans hd.symm) (by rw [hic]; rfl) (by rw [hjd]; rfl)
  · intro later log t i hlog
    rw [hlog] at htold
    exact htold.follows
  · intro later log t i access hlog
    rw [hlog] at htold
    exact htold.follows

/-- Two callers at once, and one when the token is too old. -/
def visits : List TokenMove :=
  [.call .live, .call .live, .go 0, .go 1, .go 0, .go 0, .pass 5, .fetched 0 (.ok ("first", none)),
    .go 0, .go 0,
    .go 1, .go 1, .go 1, .go 1, .go 0, .pass tokenMaxAge, .call .live, .go 2, .go 2, .go 2,
    .fetched 2 (.ok ("second", none)), .go 2, .go 2, .go 2]

theorem tokens_spaced_visits :
    ∃ st, ({ now := 0 } : TokenStore).run visits = some st ∧
      stored st.log .live = [⟨"second", none, tokenMaxAge + 5⟩, ⟨"first", none, 5⟩] ∧
      (stored st.log .live).Pairwise fun newer older => older.obtained + tokenMaxAge ≤
        newer.obtained :=
  ⟨_, rfl, rfl, (tokens_spaced
    (.run (.new 0) (rfl : ({ now := 0 } : TokenStore).run visits = _)) .live).1⟩

end TokenStore

end Nadeo

end Dd2Server
