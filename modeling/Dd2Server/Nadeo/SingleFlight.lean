import Dd2Server.Nadeo.Lookups

/-!
# One fetch for each key

`key_gate` takes a gate out of the full registry when no caller has a clone of it.  So the gate a
caller holds or waits for stays in the registry, all callers of a key meet at one gate, and one of
them fetches: `single_flight`.
-/

namespace Dd2Server

namespace Nadeo

open Limits

namespace Verifier

variable {κ α ρ : Type} {sv : Service κ α ρ} {st st' : Verifier κ α ρ} {i j : Nat}
  {c c' d : Caller κ α} {s : Stage κ α} {g : Nat} {unchecked : List (κ × Nat)}

theorem moves_get (hi : st.callers[i]? = some c) (s : Stage κ α) (j : Nat) :
    (st.moves i c' s).callers[j]? = if j = i then some { c' with stage := s }
    else st.callers[j]? := by
  have hlt : i < st.callers.length := (List.getElem?_eq_some_iff.1 hi).1
  show (st.callers.set i _)[j]? = _
  rw [List.getElem?_set]
  split
  case isTrue h =>
    subst h
    simp
  case isFalse h => rw [if_neg fun h' => h h'.symm]

theorem moves_get_elim (hi : st.callers[i]? = some c)
    (hj : (st.moves i c' s).callers[j]? = some d) :
    j = i ∧ d = { c' with stage := s } ∨ j ≠ i ∧ st.callers[j]? = some d := by
  rw [moves_get hi] at hj
  split at hj
  case isTrue h => exact .inl ⟨h, (Option.some.inj hj).symm⟩
  case isFalse h => exact .inr ⟨h, hj⟩

/-- What one caller at most has, after a caller went on that has it already or that finds it
free. -/
theorem unique_moves {P : Stage κ α → Prop}
    (h : ∀ (i j : Nat) (c d : Caller κ α), st.callers[i]? = some c →
      st.callers[j]? = some d → P c.stage → P d.stage → i = j) (hi : st.callers[i]? = some c)
    (hs : P s → P c.stage ∨ ∀ d ∈ st.callers, ¬P d.stage) :
    ∀ (k j : Nat) (a d : Caller κ α), (st.moves i c' s).callers[k]? = some a →
      (st.moves i c' s).callers[j]? = some d → P a.stage → P d.stage → k = j := by
  intro k j a d hk hj ha hd
  rcases moves_get_elim hi hk with ⟨rfl, rfl⟩ | ⟨-, hk'⟩
  · rcases moves_get_elim hi hj with ⟨rfl, rfl⟩ | ⟨-, hj'⟩
    · rfl
    · rcases hs ha with hc | hfree
      · exact h k j c d hi hj' hc hd
      · exact absurd hd (hfree d (List.mem_of_getElem? hj'))
  · rcases moves_get_elim hi hj with ⟨rfl, rfl⟩ | ⟨-, hj'⟩
    · rcases hs hd with hc | hfree
      · exact h k j a c hk' hi ha hc
      · exact absurd ha (hfree a (List.mem_of_getElem? hk'))
    · exact h k j a d hk' hj' ha hd

variable [DecidableEq κ]

/-- The full registry as a caller finds it while it scans. -/
structure Scanning (st : Verifier κ α ρ) (key : κ) (unchecked : List (κ × Nat)) : Prop where
  full : st.keyGates.cap ≤ st.keyGates.entries.length
  missing : st.keyGates.peek key = none
  unchecked : unchecked ⊆ st.keyGates.entries

/-- The gates of the callers are in the registry, one caller at most has the guard of a gate, and
one at most the lock of the registry. -/
structure Guarded (sv : Service κ α ρ) (st : Verifier κ α ρ) : Prop where
  capacity : st.keyGates.cap = max sv.capacity 1
  registered : ∀ (i : Nat) (c : Caller κ α) (g : Nat), st.callers[i]? = some c →
    c.stage.gate = some g →
    (c.key, g) ∈ st.keyGates.entries
  guards : ∀ (i j : Nat) (c d : Caller κ α) (g : Nat), st.callers[i]? = some c →
    st.callers[j]? = some d →
    c.stage.guard = some g → d.stage.guard = some g → i = j
  scanner : ∀ (i j : Nat) (c d : Caller κ α), st.callers[i]? = some c →
    st.callers[j]? = some d →
    c.stage.scanning = true → d.stage.scanning = true → i = j
  scanning : ∀ (i : Nat) (c : Caller κ α) (unchecked : List (κ × Nat)),
    st.callers[i]? = some c →
    c.stage = .scans unchecked → Scanning st c.key unchecked

theorem Guarded.new (sv : Service κ α ρ) (now : Nat) : Guarded sv (.new sv now) where
  capacity := rfl
  registered i c g hi := by simp [Verifier.new] at hi
  guards i j c d g hi := by simp [Verifier.new] at hi
  scanner i j c d hi := by simp [Verifier.new] at hi
  scanning i c unchecked hi := by simp [Verifier.new] at hi

/-- The answers, the permits, the clock and the log may change. -/
theorem Guarded.congr (h : Guarded sv st) (hgates : st'.keyGates = st.keyGates)
    (hcallers : st'.callers = st.callers) : Guarded sv st' := by
  obtain ⟨hcap, hregistered, hguards, hscanner, hscanning⟩ := h
  constructor
  · rwa [hgates]
  · rwa [hgates, hcallers]
  · rwa [hcallers]
  · rwa [hcallers]
  · intro i c unchecked hi hs
    rw [hcallers] at hi
    obtain ⟨hfull, hmissing, hsub⟩ := hscanning i c unchecked hi hs
    rw [← hgates] at hfull hmissing hsub
    exact ⟨hfull, hmissing, hsub⟩

/-- A caller goes on: it takes no new gate, and no guard or lock that another one has. -/
theorem Guarded.moves (h : Guarded sv st) (hi : st.callers[i]? = some c) (hkey : c'.key = c.key)
    (hgate : ∀ g, s.gate = some g → c.stage.gate = some g)
    (hguard : ∀ g, s.guard = some g → c.stage.guard = some g ∨
      ∀ d ∈ st.callers, d.stage.guard ≠ some g)
    (hscanner : s.scanning = true → c.stage.scanning = true ∨
      ∀ d ∈ st.callers, ¬d.stage.scanning = true)
    (hscan : ∀ unchecked, s = .scans unchecked → Scanning st c.key unchecked) :
    Guarded sv (st.moves i c' s) where
  capacity := h.capacity
  registered j d g hj hd := by
    rcases moves_get_elim hi hj with ⟨rfl, rfl⟩ | ⟨-, hj⟩
    · show (c'.key, g) ∈ st.keyGates.entries
      rw [hkey]
      exact h.registered j c g hi (hgate g hd)
    · exact h.registered j d g hj hd
  guards k j a d g hk hj :=
    unique_moves (P := fun s => s.guard = some g) (fun i j c d hi hj => h.guards i j c d g hi hj) hi
      (hguard g) k j a d hk hj
  scanner := unique_moves (P := fun s => s.scanning = true) h.scanner hi hscanner
  scanning j d unchecked hj hd := by
    rcases moves_get_elim hi hj with ⟨rfl, rfl⟩ | ⟨-, hj⟩
    · obtain ⟨hfull, hmissing, hsub⟩ := hscan unchecked hd
      rw [← hkey] at hmissing
      exact ⟨hfull, hmissing, hsub⟩
    · obtain ⟨hfull, hmissing, hsub⟩ := h.scanning j d unchecked hj hd
      exact ⟨hfull, hmissing, hsub⟩

/-- A caller takes a clone of a gate while it has the lock of the registry: the gates of all callers
are still there. -/
theorem Guarded.enters (h : Guarded sv st) (hi : st.callers[i]? = some c)
    {keyGates : LruCache κ Nat} {allocated : Nat}
      (hfree : ∀ (j : Nat) (d : Caller κ α), st.callers[j]? = some d →
        d.stage.scanning = true → j = i)
    (hcap : keyGates.cap = st.keyGates.cap) (hg : (c.key, g) ∈ keyGates.entries)
    (hkeep : ∀ (j : Nat) (d : Caller κ α) (g' : Nat), st.callers[j]? = some d →
      d.stage.gate = some g' → (d.key, g') ∈ keyGates.entries) :
    Guarded sv ({ st with keyGates, allocated }.moves i c (.waits g)) := by
  have hi' : ({ st with keyGates, allocated } : Verifier κ α ρ).callers[i]? = some c := hi
  constructor
  · show keyGates.cap = _
    rw [hcap]
    exact h.capacity
  · intro j d g' hj hd
    rcases moves_get_elim hi' hj with ⟨rfl, rfl⟩ | ⟨-, hj⟩
    · obtain rfl : g = g' := Option.some.inj hd
      exact hg
    · exact hkeep j d g' hj hd
  · intro k j a d g' hk hj
    exact unique_moves (P := fun s => s.guard = some g')
      (fun i j c d hi hj => h.guards i j c d g' hi hj)
      hi' (fun hs => by cases hs) k j a d hk hj
  · exact unique_moves (P := fun s => s.scanning = true) h.scanner hi' fun hs => by cases hs
  · intro j d unchecked hj hd
    rcases moves_get_elim hi' hj with ⟨rfl, rfl⟩ | ⟨hne, hj⟩
    · cases hd
    · exact absurd (hfree j d hj (by rw [hd]; rfl)) hne

/-- A new gate comes into a registry with room, or takes the place of one that no caller has. -/
theorem Guarded.enters_new (h : Guarded sv st) (hi : st.callers[i]? = some c)
    {keyGates : LruCache κ Nat}
    (hfree : ∀ (j : Nat) (d : Caller κ α), st.callers[j]? = some d →
      d.stage.scanning = true → j = i)
    (hcap : keyGates.cap = st.keyGates.cap) (hroom : keyGates.entries.length < keyGates.cap)
    (hmissing : st.keyGates.peek c.key = none)
    (hkeep : ∀ (j : Nat) (d : Caller κ α) (g' : Nat), st.callers[j]? = some d →
      d.stage.gate = some g' → (d.key, g') ∈ keyGates.entries) :
    Guarded sv ((newGate { st with keyGates } c.key).moves i c (.waits st.allocated)) := by
  have hput : (keyGates.put c.key st.allocated).entries =
      (c.key, st.allocated) :: keyGates.others c.key := LruCache.put_entries_of_room (.inl hroom)
  refine h.enters hi hfree hcap ?_ fun j d g' hj hd => ?_
  · rw [hput]
    exact List.mem_cons_self
  · rw [hput]
    apply List.mem_cons_of_mem
    refine LruCache.mem_others.2 ⟨hkeep j d g' hj hd, fun hk => ?_⟩
    have hthere := h.registered j d g' hj hd
    rw [show d.key = c.key from hk] at hthere
    exact LruCache.peek_eq_none.1 hmissing g' hthere

/-- What a scan takes out of the registry is no gate of a caller. -/
theorem Guarded.evicts (h : Guarded sv st) {e : κ × Nat} (he : e ∈ st.keyGates.entries)
    (hone : st.strongCount e.2 = 1) {j : Nat} (hj : st.callers[j]? = some d)
    (hd : d.stage.gate = some g) : (d.key, g) ∈ (st.keyGates.pop e.1).entries := by
  refine LruCache.mem_others.2 ⟨h.registered j d g hj hd, fun hk => ?_⟩
  have hsame : g = e.2 := by
    have hthere := LruCache.peek_eq_some.2 (h.registered j d g hj hd)
    rw [show d.key = e.1 from hk, LruCache.peek_eq_some.2 he] at hthere
    exact (Option.some.inj hthere).symm
  have hregistry : 0 < st.keyGates.entries.countP fun e' => e'.2 = e.2 :=
    List.countP_pos_iff.2 ⟨e, he, by simp⟩
  have hcaller : 0 < st.callers.countP fun c => c.stage.gate = some e.2 :=
    List.countP_pos_iff.2 ⟨d, List.mem_of_getElem? hj, by simp [hd, hsame]⟩
  rw [strongCount] at hone
  omega

/-- A caller goes on with the gate and the guard that it has, or gives them back. -/
theorem Guarded.goes (h : Guarded sv st) (hi : st.callers[i]? = some c)
    (hgates : st'.keyGates = st.keyGates) (hcallers : st'.callers = st.callers)
    (hkey : c'.key = c.key) (hgate : ∀ g, s.gate = some g → c.stage.gate = some g)
    (hguard : ∀ g, s.guard = some g → c.stage.guard = some g) (hscan : s.scanning = false) :
    Guarded sv (st'.moves i c' s) := by
  refine (h.congr hgates hcallers).moves (by rw [hcallers]; exact hi) hkey hgate
    (fun g hg => .inl (hguard g hg)) (fun hs => ?_) fun unchecked hs => ?_
  · rw [hscan] at hs
    cases hs
  · subst hs
    cases hscan

theorem Guarded.concludes (h : Guarded sv st) (hi : st.callers[i]? = some c)
    (result : Except String α) : Guarded sv (st.concludes sv i c result) := by
  cases result with
  | error error =>
      exact h.goes hi rfl rfl rfl (fun g hg => by cases hg) (fun g hg => by cases hg) rfl
  | ok value =>
      rw [Verifier.concludes]
      split
      · exact h.goes hi rfl rfl rfl (fun g hg => by cases hg) (fun g hg => by cases hg) rfl
      · exact h.goes hi rfl rfl rfl (fun g hg => by cases hg) (fun g hg => by cases hg) rfl

/-- The lock of the registry is free when a caller takes it. -/
theorem Guarded.gates (h : Guarded sv st) (hi : st.callers[i]? = some c) (hc : c.stage = .gates)
    (hs : st.advance sv i c = some st') : Guarded sv st' := by
  simp only [Verifier.advance, hc] at hs
  split at hs
  case isTrue => cases hs
  case isFalse hlock =>
  have hfree : ∀ d ∈ st.callers, ¬d.stage.scanning = true := by simpa using hlock
  have halone : ∀ (j : Nat) (d : Caller κ α), st.callers[j]? = some d →
      d.stage.scanning = true → j = i :=
    fun j d hj hd => absurd hd (hfree d (List.mem_of_getElem? hj))
  rw [LruCache.get] at hs
  cases hpeek : st.keyGates.peek c.key with
  | some gate =>
      rw [hpeek] at hs
      cases hs
      have hput : (st.keyGates.put c.key gate).entries =
          (c.key, gate) :: st.keyGates.others c.key :=
        LruCache.put_entries_of_room (.inr (by simp [hpeek]))
      refine h.enters hi halone rfl ?_ fun j d g hj hd => ?_
      · rw [hput]
        exact List.mem_cons_self
      · rw [hput]
        have hthere := h.registered j d g hj hd
        by_cases hk : d.key = c.key
        · rw [hk] at hthere ⊢
          rw [LruCache.peek_eq_some.2 hthere] at hpeek
          rw [Option.some.inj hpeek]
          exact List.mem_cons_self
        · exact List.mem_cons_of_mem _ (LruCache.mem_others.2 ⟨hthere, hk⟩)
  | none =>
      rw [hpeek] at hs
      dsimp only at hs
      split at hs
      case isTrue hfull =>
        cases hs
        refine h.moves hi rfl (fun g hg => by cases hg) (fun g hg => by cases hg)
          (fun _ => .inr hfree) fun unchecked he => ?_
        cases he
        exact ⟨hfull, hpeek, List.Subset.refl _⟩
      case isFalse hroom =>
        cases hs
        exact h.enters_new hi halone rfl (Nat.lt_of_not_le hroom) hpeek
          fun j d g hj hd => h.registered j d g hj hd

/-- A scan looks at the next gate. -/
theorem Guarded.scans (h : Guarded sv st) (hi : st.callers[i]? = some c) {e : κ × Nat}
    (hc : c.stage = .scans (e :: unchecked)) (hs : st.advance sv i c = some st') :
    Guarded sv st' := by
  obtain ⟨hfull, hmissing, hsub⟩ := h.scanning i c _ hi hc
  have hscanning : c.stage.scanning = true := by rw [hc]; rfl
  have he : e ∈ st.keyGates.entries := hsub List.mem_cons_self
  simp only [Verifier.advance, hc] at hs
  split at hs
  case isTrue hone =>
    cases hs
    have hlt : (st.keyGates.pop e.1).entries.length < (st.keyGates.pop e.1).cap := by
      have hothers := LruCache.others_length_of_peek (LruCache.peek_eq_some.2 he)
      exact Nat.lt_of_lt_of_le hothers st.keyGates.length_le
    exact h.enters_new hi (fun j d hj hd => h.scanner j i d c hj hi hd hscanning) rfl hlt hmissing
      fun j d g hj hd => h.evicts he hone hj hd
  case isFalse =>
    cases hs
    refine h.moves hi rfl (fun g hg => by cases hg) (fun g hg => by cases hg)
      (fun _ => .inl hscanning) fun unchecked' he' => ?_
    cases he'
    exact ⟨hfull, hmissing, fun x hx => hsub (List.mem_cons_of_mem _ hx)⟩

theorem Guarded.advance (h : Guarded sv st) (hi : st.callers[i]? = some c)
    (hs : st.advance sv i c = some st') : Guarded sv st' := by
  cases hc : c.stage with
  | gates => exact h.gates hi hc hs
  | scans unchecked =>
      cases unchecked with
      | nil =>
          simp only [Verifier.advance, hc] at hs
          cases hs
          exact h.goes hi rfl rfl rfl (fun g hg => by cases hg) (fun g hg => by cases hg) rfl
      | cons e unchecked => exact h.scans hi hc hs
  | waits gate =>
      simp only [Verifier.advance, hc] at hs
      split at hs
      case isTrue => cases hs
      case isFalse hfree =>
        cases hs
        refine h.moves hi rfl (fun g hg => by rw [hc]; exact hg) (fun g hg => .inr ?_)
          (fun hs => by cases hs) fun unchecked he => by cases he
        obtain rfl : gate = g := Option.some.inj hg
        simpa using hfree
  | begins =>
      simp only [Verifier.advance, hc] at hs
      cases hs
      exact h.goes hi rfl rfl rfl (fun g hg => by cases hg) (fun g hg => by cases hg) rfl
  | looks =>
      simp only [Verifier.advance, hc] at hs
      split at hs
      · cases hs
        exact h.goes hi rfl rfl rfl (fun g hg => by cases hg) (fun g hg => by cases hg) rfl
      · cases hs
        exact h.goes hi rfl rfl rfl (fun g hg => by cases hg) (fun g hg => by cases hg) rfl
  | rechecks gate =>
      simp only [Verifier.advance, hc] at hs
      split at hs
      · cases hs
        exact h.goes hi rfl rfl rfl (fun g hg => by rwa [hc]) (fun g hg => by rwa [hc]) rfl
      · cases hs
        exact h.goes hi rfl rfl rfl (fun g hg => by rwa [hc]) (fun g hg => by rwa [hc]) rfl
  | admits gate =>
      simp only [Verifier.advance, hc] at hs
      split at hs
      · cases hs
        exact h.goes hi rfl rfl rfl (fun g hg => by rwa [hc]) (fun g hg => by rwa [hc]) rfl
      · cases hs
        exact h.goes hi rfl rfl rfl (fun g hg => by rwa [hc]) (fun g hg => by rwa [hc]) rfl
  | queues gate =>
      simp only [Verifier.advance, hc] at hs
      split at hs
      · cases hs
      · cases hs
        exact h.goes hi rfl rfl rfl (fun g hg => by rwa [hc]) (fun g hg => by rwa [hc]) rfl
  | fetches gate flight =>
      simp only [Verifier.advance, hc] at hs
      cases hs
  | releases gate outcome =>
      simp only [Verifier.advance, hc] at hs
      cases hs
      exact h.goes hi rfl rfl rfl (fun g hg => by rwa [hc]) (fun g hg => by rwa [hc]) rfl
  | unlocks gate outcome =>
      simp only [Verifier.advance, hc] at hs
      cases hs
      exact h.goes hi rfl rfl rfl (fun g hg => by rwa [hc]) (fun g hg => by cases hg) rfl
  | drops gate outcome =>
      simp only [Verifier.advance, hc] at hs
      cases hs
      exact h.goes hi rfl rfl rfl (fun g hg => by cases hg) (fun g hg => by cases hg) rfl
  | answered outcome =>
      cases outcome with
      | none =>
          simp only [Verifier.advance, hc] at hs
          cases hs
          exact h.goes hi rfl rfl rfl (fun g hg => by cases hg) (fun g hg => by cases hg) rfl
      | some result =>
          simp only [Verifier.advance, hc] at hs
          cases hs
          exact h.concludes hi result
  | sleeps wake =>
      simp only [Verifier.advance, hc] at hs
      split at hs
      · cases hs
      · cases hs
        exact h.goes hi rfl rfl rfl (fun g hg => by cases hg) (fun g hg => by cases hg) rfl
  | done =>
      simp only [Verifier.advance, hc] at hs
      cases hs

theorem Guarded.fetched (h : Guarded sv st) (hi : st.callers[i]? = some c)
    {answer : Except String α} (hs : st.fetched i c answer = some st') : Guarded sv st' := by
  rw [Verifier.fetched] at hs
  split at hs
  case h_1 gate flight hc =>
    split at hs
    · cases hs
      exact h.goes hi rfl rfl rfl (fun g hg => by rwa [hc]) (fun g hg => by rwa [hc]) rfl
    · cases hs
      exact h.goes hi rfl rfl rfl (fun g hg => by rwa [hc]) (fun g hg => by rwa [hc]) rfl
  case h_2 => cases hs

theorem Guarded.dropped (h : Guarded sv st) (hi : st.callers[i]? = some c)
    (hs : st.dropped i c = some st') : Guarded sv st' := by
  rw [Verifier.dropped] at hs
  split at hs
  case h_1 =>
    cases hs
    exact h.goes hi rfl rfl rfl (fun g hg => by cases hg) (fun g hg => by cases hg) rfl
  case h_2 =>
    cases hs
    exact h.goes hi rfl rfl rfl (fun g hg => by cases hg) (fun g hg => by cases hg) rfl
  case h_3 gate hc =>
    cases hs
    exact h.goes hi rfl rfl rfl (fun g hg => by rwa [hc]) (fun g hg => by cases hg) rfl
  case h_4 gate hc =>
    cases hs
    exact h.goes hi rfl rfl rfl (fun g hg => by rwa [hc]) (fun g hg => by rwa [hc]) rfl
  case h_5 gate flight hc =>
    cases hs
    exact h.goes hi rfl rfl rfl (fun g hg => by rwa [hc]) (fun g hg => by rwa [hc]) rfl
  case h_6 => cases hs

/-- A new caller has nothing. -/
theorem Guarded.call (h : Guarded sv st) (hc : c.stage = .begins) :
    Guarded sv { st with callers := st.callers ++ [c] } := by
  have hold : ∀ (j : Nat) (d : Caller κ α), (st.callers ++ [c])[j]? = some d →
      st.callers[j]? = some d ∨ d.stage = .begins := by
    intro j d hj
    rw [List.getElem?_append] at hj
    split at hj
    · exact .inl hj
    · right
      obtain rfl := List.mem_singleton.1 (List.mem_of_getElem? hj)
      exact hc
  constructor
  · exact h.capacity
  · intro j d g hj hd
    rcases hold j d hj with hj | hd'
    · exact h.registered j d g hj hd
    · rw [hd'] at hd
      cases hd
  · intro k j a d g hk hj ha hd
    rcases hold k a hk with hk | ha'
    · rcases hold j d hj with hj | hd'
      · exact h.guards k j a d g hk hj ha hd
      · rw [hd'] at hd
        cases hd
    · rw [ha'] at ha
      cases ha
  · intro k j a d hk hj ha hd
    rcases hold k a hk with hk | ha'
    · rcases hold j d hj with hj | hd'
      · exact h.scanner k j a d hk hj ha hd
      · rw [hd'] at hd
        cases hd
    · rw [ha'] at ha
      cases ha
  · intro j d unchecked hj hd
    rcases hold j d hj with hj | hd'
    · obtain ⟨hfull, hmissing, hsub⟩ := h.scanning j d unchecked hj hd
      exact ⟨hfull, hmissing, hsub⟩
    · rw [hd'] at hd
      cases hd

theorem Guarded.step (h : Guarded sv st) {m : Move α} (hs : st.step sv m = some st') :
    Guarded sv st' := by
  cases m with
  | call accountId mapUid recent =>
      rw [Verifier.step] at hs
      split at hs
      · cases hs
      · cases hs
        have hnoted : Guarded sv
            (st.note (.called st.callers.length (sv.keyOf accountId mapUid) recent)) :=
          h.congr rfl rfl
        exact hnoted.call rfl
  | go i =>
      obtain ⟨c, hi, hs⟩ := Option.bind_eq_some_iff.1 hs
      exact h.advance hi hs
  | fetched i answer =>
      obtain ⟨c, hi, hs⟩ := Option.bind_eq_some_iff.1 hs
      exact h.fetched hi hs
  | drop i =>
      obtain ⟨c, hi, hs⟩ := Option.bind_eq_some_iff.1 hs
      exact h.dropped hi hs
  | pass nanos =>
      cases hs
      exact h.congr rfl rfl

theorem Reached.guarded (h : Reached sv st) : Guarded sv st := by
  induction h with
  | new now => exact .new sv now
  | step _ hs ih => exact ih.step hs

end Verifier

open Verifier

/-- One fetch at most is in flight for a key, the gate that a caller holds or waits for is the one
the registry has for its key, and the registry is not larger than its capacity. -/
structure SingleFlight {κ α ρ : Type} [DecidableEq κ] (sv : Service κ α ρ)
    (st : Verifier κ α ρ) : Prop where
  fetches : ∀ (i j : Nat) (c d : Caller κ α) (g f g' f' : Nat), st.callers[i]? = some c →
    st.callers[j]? = some d → c.stage = .fetches g f → d.stage = .fetches g' f' →
      c.key = d.key → i = j
  registered : ∀ (i : Nat) (c : Caller κ α) (g : Nat), st.callers[i]? = some c →
    c.stage.gate = some g → st.keyGates.peek c.key = some g
  bounded : st.keyGates.entries.length ≤ max sv.capacity 1

theorem Verifier.Guarded.singleFlight {κ α ρ : Type} [DecidableEq κ] {sv : Service κ α ρ}
    {st : Verifier κ α ρ} (h : Guarded sv st) : SingleFlight sv st where
  fetches i j c d g f g' f' hi hj hc hd hkey := by
    have hcg := h.registered i c g hi (by rw [hc]; rfl)
    have hdg := h.registered j d g' hj (by rw [hd]; rfl)
    have hsame : g = g' := by
      rw [hkey] at hcg
      have hpeek := LruCache.peek_eq_some.2 hcg
      rw [LruCache.peek_eq_some.2 hdg] at hpeek
      exact (Option.some.inj hpeek).symm
    exact h.guards i j c d g hi hj (by rw [hc]; rfl) (by rw [hd, hsame]; rfl)
  registered i c g hi hc := LruCache.peek_eq_some.2 (h.registered i c g hi hc)
  bounded := by
    rw [← h.capacity]
    exact st.keyGates.length_le

/-- Of both verifiers, with every configuration, in every interleaving. -/
theorem single_flight (capacity positiveTtl negativeTtl : Nat) (limits : AdmissionLimits)
    (concurrency : Nat) :
    (∀ st, Reached (CachedMapAuthorVerifier.withConfig capacity positiveTtl negativeTtl limits
      concurrency) st →
        SingleFlight (CachedMapAuthorVerifier.withConfig capacity positiveTtl negativeTtl limits
          concurrency) st) ∧
    ∀ st, Reached (CachedOfficialRecordVerifier.withConfig capacity positiveTtl negativeTtl limits
        concurrency) st →
      SingleFlight (CachedOfficialRecordVerifier.withConfig capacity positiveTtl negativeTtl limits
        concurrency) st :=
  ⟨fun _ h => h.guarded.singleFlight, fun _ h => h.guarded.singleFlight⟩

namespace Sample

/-- A verifier with room for one gate. -/
def narrow : Service (Uuid × String) Bool Bool :=
  CachedOfficialRecordVerifier.withConfig 1 (secs (15 * 60))
    (secs 90) CachedOfficialRecordVerifier.limits 16

/-- Steps of one caller. -/
def goes (i n : Nat) : List (Move Bool) := List.replicate n (.go i)

/-- The gate of the first key is in use when the second key comes, and idle when it comes again. -/
def evicting : List (Move Bool) :=
  .call 7 "A" false :: goes 0 7 ++ .call 7 "A" false :: goes 1 3 ++ .call 7 "B" false :: goes 2 5 ++
    [.drop 1, .go 1, .fetched 0 (.ok false)] ++ goes 0 4 ++ .call 7 "B" false :: goes 3 8

end Sample

theorem single_flight_evicting : ∃ st,
    (Verifier.new Sample.narrow 0).run Sample.narrow Sample.evicting = some st ∧
      SingleFlight Sample.narrow st := by
  have hruns : ((Verifier.new Sample.narrow 0).run Sample.narrow Sample.evicting).isSome =
      true := by
    decide
  obtain ⟨st, hrun⟩ := Option.isSome_iff_exists.1 hruns
  exact ⟨st, hrun,
    (single_flight 1 (secs (15 * 60)) (secs 90) CachedOfficialRecordVerifier.limits 16).2 st
    (Reached.run (.new 0) hrun)⟩

end Nadeo

end Dd2Server
