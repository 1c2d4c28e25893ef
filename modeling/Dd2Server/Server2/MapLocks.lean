import Dd2Server.Runtime
import Dd2Server.ReadCommitted.Owners
import Mathlib.Data.List.Dedup

/-!
# The registry of the operation locks

`for_map` looks up the mutex of a map in a registry of weak references, prunes the dead ones on the
way, and makes a new mutex when there is none that is alive.  A lookup has the registry to itself,
but handles are dropped while it runs.  No interleaving makes two live mutexes of one map, so the
registry does what `Act.lockMap` and `Act.unlockMap` say: `run_simulates`.
-/

namespace Dd2Server

namespace Server2

open ReadCommitted

/-- A handle that `for_map` returned, an `Arc` of the mutex of a map, and whether its guard is
held. -/
structure MapHandle where
  mapUid : String
  mutex : Nat
  locked : Bool := false
  deriving DecidableEq

/-- How far a lookup is. -/
inductive LookupStage
  /-- `retain` still has to look at these entries. -/
  | retaining (unchecked : List (String × Nat))
  | pruned
  /-- No mutex of the map is alive. -/
  | missed
  deriving DecidableEq

/-- A lookup that runs. -/
structure MapLookup where
  mapUid : String
  stage : LookupStage
  /-- The maps with a live handle when it began, which the code does not keep. -/
  before : List String
  deriving DecidableEq

structure WayfinderMapOperationLocks where
  /-- The weak references. -/
  locks : List (String × Nat) := []
  handles : List MapHandle := []
  allocated : Nat := 0
  lookup : Option MapLookup := none
  deriving DecidableEq

inductive LockStep
  /-- A lookup takes the lock of the registry. -/
  | forMap (mapUid : String)
  /-- `retain` looks at the next entry. -/
  | retain
  /-- `get` and `upgrade`. -/
  | upgrade
  | insert
  | drop (i : Nat)
  | lock (i : Nat)
  | unlock (i : Nat)
  deriving DecidableEq

namespace WayfinderMapOperationLocks

def strongCount (st : WayfinderMapOperationLocks) (mutex : Nat) : Nat :=
  st.handles.countP fun h => h.mutex = mutex

/-- A lookup is at this stage. -/
def atStage (st : WayfinderMapOperationLocks) (l : MapLookup) (stage : LookupStage) :
    WayfinderMapOperationLocks := { st with lookup := some { l with stage } }

/-- A lookup returns a handle. -/
def returns (st : WayfinderMapOperationLocks) (mapUid : String) (mutex : Nat) :
    WayfinderMapOperationLocks :=
  { st with handles := { mapUid, mutex } :: st.handles, lookup := none }

/-- One step of a lookup, or of a task with a handle. -/
def step (st : WayfinderMapOperationLocks) : LockStep → Option WayfinderMapOperationLocks
  | .forMap mapUid =>
      match st.lookup with
      | some _ => none
      | none => some { st with
          locks := []
          lookup := some ⟨mapUid, .retaining st.locks, st.handles.map MapHandle.mapUid⟩ }
  | .retain =>
      match st.lookup with
      | some ⟨mapUid, .retaining [], before⟩ =>
          some (st.atStage ⟨mapUid, .pruned, before⟩ .pruned)
      | some ⟨mapUid, .retaining (e :: unchecked), before⟩ =>
          let st := if 0 < st.strongCount e.2 then { st with locks := e :: st.locks } else st
          some (st.atStage ⟨mapUid, .pruned, before⟩ (.retaining unchecked))
      | _ => none
  | .upgrade =>
      match st.lookup with
      | some ⟨mapUid, .pruned, before⟩ =>
          match st.locks.find? fun e => e.1 = mapUid with
          | some e =>
              if 0 < st.strongCount e.2 then some (st.returns mapUid e.2)
              else some (st.atStage ⟨mapUid, .pruned, before⟩ .missed)
          | none => some (st.atStage ⟨mapUid, .pruned, before⟩ .missed)
      | _ => none
  | .insert =>
      match st.lookup with
      | some ⟨mapUid, .missed, _⟩ =>
          let st' := st.returns mapUid st.allocated
          some { st' with
            locks := (mapUid, st.allocated) :: st.locks.filter fun e => e.1 ≠ mapUid
            allocated := st.allocated + 1 }
      | _ => none
  | .drop i =>
      match st.handles[i]? with
      | some h => if h.locked then none else some { st with handles := st.handles.eraseIdx i }
      | none => none
  | .lock i =>
      match st.handles[i]? with
      | some h =>
          if st.handles.any fun h' => h'.mutex = h.mutex && h'.locked then none
          else some { st with handles := st.handles.set i { h with locked := true } }
      | none => none
  | .unlock i =>
      match st.handles[i]? with
      | some h =>
          if h.locked then some { st with handles := st.handles.set i { h with locked := false } }
          else none
      | none => none

/-- The registry and its handles after some steps. -/
def run (st : WayfinderMapOperationLocks) : List LockStep → Option WayfinderMapOperationLocks
  | [] => some st
  | s :: steps => (st.step s).bind fun st' => st'.run steps

/-- What the interleavings of lookups and of tasks with handles reach. -/
inductive Reached : WayfinderMapOperationLocks → Prop
  | init : Reached {}
  | step {st st' : WayfinderMapOperationLocks} {s : LockStep} :
      Reached st → st.step s = some st' → Reached st'

theorem Reached.run {st st' : WayfinderMapOperationLocks} {steps : List LockStep} (h : Reached st)
    (hrun : st.run steps = some st') : Reached st' := by
  induction steps generalizing st with
  | nil =>
      cases hrun
      exact h
  | cons s steps ih =>
      obtain ⟨st₁, h₁, hrun⟩ := Option.bind_eq_some_iff.1 hrun
      exact ih (.step h h₁) hrun

/-! ## One mutex for each map -/

/-- The entries a running `retain` has not looked at. -/
def unchecked (st : WayfinderMapOperationLocks) : List (String × Nat) :=
  match st.lookup with
  | some ⟨_, .retaining unchecked, _⟩ => unchecked
  | _ => []

def entries (st : WayfinderMapOperationLocks) : List (String × Nat) := st.unchecked ++ st.locks

/-- Every live handle is in the registry, which names a mutex once and a map once. -/
structure Consistent (st : WayfinderMapOperationLocks) : Prop where
  maps : (st.entries.map Prod.fst).Nodup
  mutexes : (st.entries.map Prod.snd).Nodup
  allocated : ∀ e ∈ st.entries, e.2 < st.allocated
  live : ∀ h ∈ st.handles, (h.mapUid, h.mutex) ∈ st.entries
  /-- A lookup that missed has no live handle of its map. -/
  missed : ∀ mapUid before, st.lookup = some ⟨mapUid, .missed, before⟩ →
    ∀ h ∈ st.handles, h.mapUid ≠ mapUid
  /-- The guards of one mutex exclude each other. -/
  guards : (st.handles.filter MapHandle.locked |>.map MapHandle.mutex).Nodup

/-- While a lookup runs, handles are only dropped, and what it kept was alive when it began. -/
structure Pruning (st : WayfinderMapOperationLocks) (l : MapLookup) : Prop where
  before : ∀ h ∈ st.handles, h.mapUid ∈ l.before
  kept : ∀ e ∈ st.locks, e.1 ∈ l.before

section

variable {st st' : WayfinderMapOperationLocks} {s : LockStep} {a b : MapHandle}

theorem strongCount_pos {mutex : Nat} :
    0 < st.strongCount mutex ↔ ∃ h ∈ st.handles, h.mutex = mutex := by
  simp [strongCount, List.countP_pos_iff]

theorem Consistent.same_map (h : Consistent st) (ha : a ∈ st.handles) (hb : b ∈ st.handles) :
    a.mapUid = b.mapUid ↔ a.mutex = b.mutex := by
  have hea := h.live a ha
  have heb := h.live b hb
  constructor
  · intro he
    exact congrArg Prod.snd (List.inj_on_of_nodup_map h.maps hea heb he)
  · intro he
    exact congrArg Prod.fst (List.inj_on_of_nodup_map h.mutexes hea heb he)

theorem Consistent.start : Consistent {} where
  maps := List.nodup_nil
  mutexes := List.nodup_nil
  allocated := by simp [entries, unchecked]
  live := by simp
  missed := by simp
  guards := List.nodup_nil

/-- Fewer entries and handles, as long as each handle keeps its entry. -/
theorem Consistent.shrink (h : Consistent st) (he : st'.entries.Sublist st.entries)
    (halloc : st'.allocated = st.allocated) (hh : st'.handles.Sublist st.handles)
    (hlive : ∀ x ∈ st'.handles, (x.mapUid, x.mutex) ∈ st'.entries)
    (hmissed : ∀ mapUid before, st'.lookup = some ⟨mapUid, .missed, before⟩ →
      ∀ x ∈ st'.handles, x.mapUid ≠ mapUid) : Consistent st' where
  maps := h.maps.sublist (he.map _)
  mutexes := h.mutexes.sublist (he.map _)
  allocated e hm := by
    rw [halloc]
    exact h.allocated e (he.subset hm)
  live := hlive
  missed := hmissed
  guards := h.guards.sublist ((hh.filter _).map _)

/-- A lookup keeps an entry, or prunes one that no handle has. -/
theorem Consistent.retain (h : Consistent st) {mapUid : String} {e : String × Nat}
    {rest : List (String × Nat)} {before : List String}
    (hl : st.lookup = some ⟨mapUid, .retaining (e :: rest), before⟩) :
    Consistent ((if 0 < st.strongCount e.2 then { st with locks := e :: st.locks } else st).atStage
      ⟨mapUid, .pruned, before⟩ (.retaining rest)) := by
  have hentries : st.entries = e :: (rest ++ st.locks) := by simp [entries, unchecked, hl]
  split
  case isTrue =>
    have hperm : (rest ++ e :: st.locks).Perm st.entries := by
      rw [hentries]
      exact List.perm_middle
    constructor
    · exact (hperm.map Prod.fst).nodup_iff.2 h.maps
    · exact (hperm.map Prod.snd).nodup_iff.2 h.mutexes
    · exact fun x hx => h.allocated x (hperm.subset hx)
    · exact fun x hx => hperm.mem_iff.2 (h.live x hx)
    · simp [atStage]
    · exact h.guards
  case isFalse hdead =>
    have hsub : (rest ++ st.locks).Sublist st.entries := by
      rw [hentries]
      exact List.sublist_cons_self _ _
    refine h.shrink hsub rfl (List.Sublist.refl _) (fun x hx => ?_) (by simp [atStage])
    have hx' := h.live x hx
    rw [hentries] at hx'
    rcases List.mem_cons.1 hx' with heq | hm
    · exact absurd (strongCount_pos.2 ⟨x, hx, congrArg Prod.snd heq⟩) hdead
    · exact hm

/-- A lookup that finds no live mutex of its map. -/
theorem Consistent.miss (h : Consistent st) {mapUid : String} {before : List String}
    (hl : st.lookup = some ⟨mapUid, .pruned, before⟩)
    (hnone : ∀ x ∈ st.handles, x.mapUid ≠ mapUid) :
    Consistent (st.atStage ⟨mapUid, .pruned, before⟩ .missed) := by
  have hentries : st.entries = st.locks := by simp [entries, unchecked, hl]
  refine h.shrink (by rw [hentries]; exact List.Sublist.refl _) rfl (List.Sublist.refl _)
    (fun x hx => ?_) ?_
  · have hx' := h.live x hx
    rwa [hentries] at hx'
  · intro m before' he
    simp only [atStage, Option.some.injEq, MapLookup.mk.injEq] at he
    rw [← he.1]
    exact hnone

/-- A lookup returns one more handle of a mutex. -/
theorem Consistent.returns (h : Consistent st) {mapUid : String} {mutex : Nat}
    {before : List String} (hl : st.lookup = some ⟨mapUid, .pruned, before⟩)
    (hm : (mapUid, mutex) ∈ st.locks) : Consistent (st.returns mapUid mutex) := by
  have hentries : st.entries = st.locks := by simp [entries, unchecked, hl]
  have hentries' : (st.returns mapUid mutex).entries = st.entries := by rw [hentries]; rfl
  constructor
  · rw [hentries']
    exact h.maps
  · rw [hentries']
    exact h.mutexes
  · rw [hentries']
    exact h.allocated
  · intro x hx
    rw [hentries']
    rcases List.mem_cons.1 hx with rfl | hx
    · rw [hentries]
      exact hm
    · exact h.live x hx
  · simp [WayfinderMapOperationLocks.returns]
  · exact h.guards

/-- A new mutex. -/
theorem Consistent.insert (h : Consistent st) {mapUid : String} {before : List String}
    (hl : st.lookup = some ⟨mapUid, .missed, before⟩) :
    Consistent { st.returns mapUid st.allocated with
      locks := (mapUid, st.allocated) :: st.locks.filter fun e => e.1 ≠ mapUid
      allocated := st.allocated + 1 } := by
  have hentries : st.entries = st.locks := by simp [entries, unchecked, hl]
  have hmaps := h.maps
  have hmutexes := h.mutexes
  have hallocated := h.allocated
  have hlive := h.live
  rw [hentries] at hmaps hmutexes hallocated hlive
  have hsub : (st.locks.filter fun e => e.1 ≠ mapUid).Sublist st.locks := List.filter_sublist
  constructor
  · show (mapUid :: (st.locks.filter fun e => e.1 ≠ mapUid).map Prod.fst).Nodup
    refine List.nodup_cons.2 ⟨fun hm => ?_, hmaps.sublist (hsub.map _)⟩
    obtain ⟨e, he, heq⟩ := List.mem_map.1 hm
    simpa [heq] using (List.mem_filter.1 he).2
  · show (st.allocated :: (st.locks.filter fun e => e.1 ≠ mapUid).map Prod.snd).Nodup
    refine List.nodup_cons.2 ⟨fun hm => ?_, hmutexes.sublist (hsub.map _)⟩
    obtain ⟨e, he, heq⟩ := List.mem_map.1 hm
    have hlt := hallocated e (hsub.subset he)
    omega
  · intro e he
    rcases List.mem_cons.1 he with rfl | he
    · exact Nat.lt_succ_self _
    · exact Nat.lt_succ_of_lt (hallocated e (hsub.subset he))
  · intro x hx
    rcases List.mem_cons.1 hx with rfl | hx
    · exact List.mem_cons_self
    · apply List.mem_cons_of_mem
      apply List.mem_filter.2
      exact ⟨hlive x hx, by simpa using h.missed mapUid before hl x hx⟩
  · simp [WayfinderMapOperationLocks.returns]
  · exact h.guards

/-- A handle is taken out, or its guard changes, while the registry stays. -/
theorem Consistent.handles (h : Consistent st) {handles : List MapHandle}
    (hh : ∀ x ∈ handles, ∃ y ∈ st.handles, x.mapUid = y.mapUid ∧ x.mutex = y.mutex)
    (hg : (handles.filter MapHandle.locked |>.map MapHandle.mutex).Nodup) :
    Consistent { st with handles } where
  maps := h.maps
  mutexes := h.mutexes
  allocated := h.allocated
  live x hx := by
    obtain ⟨y, hy, hmap, hmutex⟩ := hh x hx
    rw [hmap, hmutex]
    exact h.live y hy
  missed mapUid before hl x hx := by
    obtain ⟨y, hy, hmap, -⟩ := hh x hx
    rw [hmap]
    exact h.missed mapUid before hl y hy
  guards := hg

theorem handles_set {i : Nat} {y : MapHandle} (hi : st.handles[i]? = some y) (locked : Bool) :
    ∀ x ∈ st.handles.set i { y with locked }, ∃ y ∈ st.handles, x.mapUid = y.mapUid ∧
    x.mutex = y.mutex := by
  intro x hx
  rcases List.mem_or_eq_of_mem_set hx with hx | rfl
  · exact ⟨x, hx, rfl, rfl⟩
  · exact ⟨y, List.mem_of_getElem? hi, rfl, rfl⟩

/-- What the guards say after one is taken. -/
theorem locked_set {β : Type} (f : MapHandle → β) (hf : ∀ x locked, f { x with locked } = f x)
    {i : Nat} {y : MapHandle} (hi : st.handles[i]? = some y) (hy : y.locked = false) :
    (((st.handles.set i { y with locked := true }).filter MapHandle.locked).map f).Perm
      (f y :: (st.handles.filter MapHandle.locked).map f) := by
  obtain ⟨l₁, l₂, hl, hset, -⟩ := Owners.split_at hi
  rw [hset, hl]
  simp only [List.filter_append, List.filter_cons, hy, Bool.false_eq_true, ↓reduceIte,
    List.map_append, List.map_cons, hf]
  exact List.perm_middle

/-- What the guards say after one is given back. -/
theorem unlocked_set {β : Type} (f : MapHandle → β) {i : Nat} {y : MapHandle}
    (hi : st.handles[i]? = some y) (hy : y.locked = true) :
    ((st.handles.filter MapHandle.locked).map f).Perm
      (f y :: ((st.handles.set i { y with locked := false }).filter MapHandle.locked).map f) := by
  obtain ⟨l₁, l₂, hl, hset, -⟩ := Owners.split_at hi
  rw [hset, hl]
  simp only [List.filter_append, List.filter_cons, hy, Bool.false_eq_true, ↓reduceIte,
    List.map_append, List.map_cons]
  exact List.perm_middle

/-- What the guards say after a handle without a guard is dropped. -/
theorem locked_drop {i : Nat} {y : MapHandle} (hi : st.handles[i]? = some y)
    (hy : y.locked = false) :
    (st.handles.eraseIdx i).filter MapHandle.locked = st.handles.filter MapHandle.locked := by
  obtain ⟨l₁, l₂, hl, -, herase⟩ := Owners.split_at hi
  rw [herase, hl]
  simp [List.filter_append, hy]

theorem mem_guards {mutex : Nat} :
    mutex ∈ (st.handles.filter MapHandle.locked).map MapHandle.mutex ↔
      ∃ x ∈ st.handles, x.mutex = mutex ∧ x.locked = true := by
  simp only [List.mem_map, List.mem_filter]
  constructor
  · rintro ⟨x, ⟨hx, hlocked⟩, hm⟩
    exact ⟨x, hx, hm, hlocked⟩
  · rintro ⟨x, hx, hm, hlocked⟩
    exact ⟨x, ⟨hx, hlocked⟩, hm⟩

/-- The mutex of a handle is taken when some handle has its guard. -/
theorem step_lock {i : Nat} {y : MapHandle} (hi : st.handles[i]? = some y) :
    st.step (.lock i) =
      if y.mutex ∈ (st.handles.filter MapHandle.locked).map MapHandle.mutex then none
      else some { st with handles := st.handles.set i { y with locked := true } } := by
  have hany : (st.handles.any fun x => x.mutex = y.mutex && x.locked) = true ↔
      y.mutex ∈ (st.handles.filter MapHandle.locked).map MapHandle.mutex := by
    rw [mem_guards]
    simp
  simp only [step, hi, hany]

/-- One step keeps the registry consistent. -/
theorem Consistent.step (h : Consistent st) (hs : st.step s = some st') : Consistent st' := by
  cases s with
  | forMap mapUid =>
      simp only [WayfinderMapOperationLocks.step] at hs
      split at hs
      · cases hs
      case h_2 hl =>
        cases hs
        have hentries : st.entries = st.locks := by simp [entries, unchecked, hl]
        refine h.shrink ?_ rfl (List.Sublist.refl _) (fun x hx => ?_) (by simp)
        · rw [hentries]
          simp [entries, unchecked]
        · have hx' := h.live x hx
          rw [hentries] at hx'
          simpa [entries, unchecked] using hx'
  | retain =>
      simp only [WayfinderMapOperationLocks.step] at hs
      split at hs
      case h_1 mapUid before hl =>
        cases hs
        have hentries : st.entries = st.locks := by simp [entries, unchecked, hl]
        refine h.shrink (by rw [hentries]; exact List.Sublist.refl _) rfl (List.Sublist.refl _)
          (fun x hx => ?_) (by simp [atStage])
        have hx' := h.live x hx
        rwa [hentries] at hx'
      case h_2 mapUid e rest before hl =>
        cases hs
        exact h.retain hl
      · cases hs
  | upgrade =>
      simp only [WayfinderMapOperationLocks.step] at hs
      split at hs
      case h_1 mapUid before hl =>
        have hentries : st.entries = st.locks := by simp [entries, unchecked, hl]
        split at hs
        case h_1 e he =>
          have hmem := List.mem_of_find?_eq_some he
          have hmap : e.1 = mapUid := by simpa using List.find?_some he
          obtain ⟨m, mutex⟩ := e
          obtain rfl : m = mapUid := hmap
          split at hs
          case isTrue =>
            cases hs
            exact h.returns hl hmem
          case isFalse hdead =>
            cases hs
            refine h.miss hl fun x hx he' => hdead (strongCount_pos.2 ⟨x, hx, ?_⟩)
            have hx' := h.live x hx
            rw [hentries] at hx'
            have hmaps := h.maps
            rw [hentries] at hmaps
            exact congrArg Prod.snd (List.inj_on_of_nodup_map hmaps hx' hmem he')
        case h_2 hnone =>
          cases hs
          refine h.miss hl fun x hx he' => ?_
          have hx' := h.live x hx
          rw [hentries] at hx'
          simpa [he'] using List.find?_eq_none.1 hnone _ hx'
      · cases hs
  | insert =>
      simp only [WayfinderMapOperationLocks.step] at hs
      split at hs
      case h_1 mapUid before hl =>
        cases hs
        exact h.insert hl
      · cases hs
  | drop i =>
      simp only [WayfinderMapOperationLocks.step] at hs
      split at hs
      case h_1 y hi =>
        split at hs
        · cases hs
        case isFalse hy =>
          cases hs
          refine h.handles (fun x hx => ⟨x, List.mem_of_mem_eraseIdx hx, rfl, rfl⟩) ?_
          rw [locked_drop hi (by simpa using hy)]
          exact h.guards
      · cases hs
  | lock i =>
      cases hi : st.handles[i]? with
      | none => simp [WayfinderMapOperationLocks.step, hi] at hs
      | some y =>
          rw [step_lock hi] at hs
          split at hs
          · cases hs
          case isFalse hfree =>
            cases hs
            have hy : y.locked = false := by
              by_contra hlocked
              exact hfree (mem_guards.2 ⟨y, List.mem_of_getElem? hi,
                rfl, by simpa using hlocked⟩)
            refine h.handles (handles_set hi true) ?_
            exact (locked_set MapHandle.mutex (fun _ _ => rfl) hi hy).nodup_iff.2
              (List.nodup_cons.2 ⟨hfree, h.guards⟩)
  | unlock i =>
      simp only [WayfinderMapOperationLocks.step] at hs
      split at hs
      case h_1 y hi =>
        split at hs
        case isTrue hy =>
          cases hs
          refine h.handles (handles_set hi false) ?_
          exact (List.nodup_cons.1 ((unlocked_set MapHandle.mutex hi hy).nodup_iff.1 h.guards)).2
        · cases hs
      · cases hs

theorem Reached.consistent (h : Reached st) : Consistent st := by
  induction h with
  | init => exact .start
  | step _ hs ih => exact ih.step hs

/-! ## What a lookup leaves in the registry -/

/-- What a lookup kept had a live handle when the lookup began. -/
theorem Reached.pruning (h : Reached st) {l : MapLookup} (hl : st.lookup = some l) :
    Pruning st l := by
  induction h generalizing l with
  | init => cases hl
  | @step st st' s hr hs ih =>
      cases s with
      | forMap mapUid =>
          simp only [WayfinderMapOperationLocks.step] at hs
          split at hs
          · cases hs
          · cases hs
            cases hl
            exact ⟨fun x hx => List.mem_map_of_mem hx, by simp⟩
      | retain =>
          simp only [WayfinderMapOperationLocks.step] at hs
          split at hs
          case h_1 mapUid before hl' =>
            cases hs
            cases hl
            obtain ⟨hbefore, hkept⟩ := ih hl'
            exact ⟨hbefore, hkept⟩
          case h_2 mapUid e rest before hl' =>
            cases hs
            cases hl
            obtain ⟨hbefore, hkept⟩ := ih hl'
            have hlive := hr.consistent
            split
            case isTrue halive =>
              refine ⟨hbefore, fun e' he' => ?_⟩
              rcases List.mem_cons.1 he' with rfl | he'
              · obtain ⟨x, hx, hmutex⟩ := strongCount_pos.1 halive
                have hx' := hlive.live x hx
                have he : e' ∈ st.entries := by simp [entries, unchecked, hl']
                have heq : (x.mapUid, x.mutex) = e' :=
                  List.inj_on_of_nodup_map hlive.mutexes hx' he hmutex
                rw [← heq]
                exact hbefore x hx
              · exact hkept e' he'
            case isFalse => exact ⟨hbefore, hkept⟩
          · cases hs
      | upgrade =>
          simp only [WayfinderMapOperationLocks.step] at hs
          split at hs
          case h_1 mapUid before hl' =>
            obtain ⟨hbefore, hkept⟩ := ih hl'
            split at hs
            case h_1 e he =>
              split at hs
              · cases hs
                cases hl
              · cases hs
                cases hl
                exact ⟨hbefore, hkept⟩
            case h_2 =>
              cases hs
              cases hl
              exact ⟨hbefore, hkept⟩
          · cases hs
      | insert =>
          simp only [WayfinderMapOperationLocks.step] at hs
          split at hs
          · cases hs
            cases hl
          · cases hs
      | drop i =>
          simp only [WayfinderMapOperationLocks.step] at hs
          split at hs
          · split at hs
            · cases hs
            · cases hs
              obtain ⟨hbefore, hkept⟩ := ih hl
              exact ⟨fun x hx => hbefore x (List.mem_of_mem_eraseIdx hx), hkept⟩
          · cases hs
      | lock i =>
          cases hi : st.handles[i]? with
          | none => simp [WayfinderMapOperationLocks.step, hi] at hs
          | some y =>
              rw [step_lock hi] at hs
              split at hs
              · cases hs
              · cases hs
                obtain ⟨hbefore, hkept⟩ := ih hl
                refine ⟨fun x hx => ?_, hkept⟩
                obtain ⟨z, hz, hmap, -⟩ := handles_set hi true x hx
                rw [hmap]
                exact hbefore z hz
      | unlock i =>
          simp only [WayfinderMapOperationLocks.step] at hs
          split at hs
          case h_1 y hi =>
            split at hs
            · cases hs
              obtain ⟨hbefore, hkept⟩ := ih hl
              refine ⟨fun x hx => ?_, hkept⟩
              obtain ⟨z, hz, hmap, -⟩ := handles_set hi false x hx
              rw [hmap]
              exact hbefore z hz
            · cases hs
          · cases hs

/-- What a step that ends a lookup leaves in the registry. -/
theorem locks_of_returned {l : MapLookup} (hs : st.step s = some st') (hl : st.lookup = some l)
    (hend : st'.lookup = none) : ∀ e ∈ st'.locks, e ∈ st.locks ∨ e.1 = l.mapUid := by
  intro e he
  cases s with
  | forMap mapUid => simp [WayfinderMapOperationLocks.step, hl] at hs
  | retain =>
      simp only [WayfinderMapOperationLocks.step] at hs
      split at hs
      · cases hs
        cases hend
      · cases hs
        cases hend
      · cases hs
  | upgrade =>
      simp only [WayfinderMapOperationLocks.step] at hs
      split at hs
      · split at hs
        · split at hs
          · cases hs
            exact .inl he
          · cases hs
            cases hend
        · cases hs
          cases hend
      · cases hs
  | insert =>
      simp only [WayfinderMapOperationLocks.step] at hs
      split at hs
      case h_1 mapUid before hl' =>
        cases hs
        rw [hl'] at hl
        cases hl
        rcases List.mem_cons.1 he with rfl | he
        · exact .inr rfl
        · exact .inl (List.mem_filter.1 he).1
      · cases hs
  | drop i =>
      simp only [WayfinderMapOperationLocks.step] at hs
      split at hs
      · split at hs
        · cases hs
        · cases hs
          rw [hl] at hend
          cases hend
      · cases hs
  | lock i =>
      cases hi : st.handles[i]? with
      | none => simp [WayfinderMapOperationLocks.step, hi] at hs
      | some y =>
          rw [step_lock hi] at hs
          split at hs
          · cases hs
          · cases hs
            rw [hl] at hend
            cases hend
  | unlock i =>
      simp only [WayfinderMapOperationLocks.step] at hs
      split at hs
      · split at hs
        · cases hs
          rw [hl] at hend
          cases hend
        · cases hs
      · cases hs

/-- Two live handles have the same mutex exactly when they are of the same map, and after a lookup
the registry has at most as many entries as there are maps that it returned or that had a live
handle when it began. -/
theorem one_mutex_per_map (h : Reached st) :
    (∀ a ∈ st.handles, ∀ b ∈ st.handles, a.mapUid = b.mapUid ↔ a.mutex = b.mutex) ∧
      ∀ s st' l, st.step s = some st' → st.lookup = some l → st'.lookup = none →
        st'.locks.length ≤ (l.mapUid :: l.before).dedup.length := by
  refine ⟨fun a ha b hb => h.consistent.same_map ha hb, fun s st' l hs hl hend => ?_⟩
  have hmaps := (h.consistent.step hs).maps
  have hentries : st'.entries = st'.locks := by simp [entries, unchecked, hend]
  rw [hentries] at hmaps
  have hsub : st'.locks.map Prod.fst ⊆ (l.mapUid :: l.before).dedup := by
    intro m hm
    obtain ⟨e, he, rfl⟩ := List.mem_map.1 hm
    rw [List.mem_dedup]
    rcases locks_of_returned hs hl hend e he with hold | hnew
    · exact List.mem_cons_of_mem _ ((h.pruning hl).kept e hold)
    · rw [hnew]
      exact List.mem_cons_self
  have hle := (List.subperm_of_subset hmaps hsub).length_le
  rwa [List.length_map] at hle

end

/-- A handle is dropped after the lookup of another map has kept its entry. -/
def droppedMeanwhile : List LockStep :=
  [.forMap "A", .retain, .upgrade, .insert, .forMap "B", .retain, .drop 0, .retain, .upgrade]

theorem one_mutex_per_map_dropped : ∃ st l, Reached st ∧ st.lookup = some l ∧ ∀ s st',
    st.step s = some st' → st'.lookup = none →
      st'.locks.length ≤ (l.mapUid :: l.before).dedup.length := by
  have hlookup : ((({} : WayfinderMapOperationLocks).run droppedMeanwhile).bind lookup).isSome =
      true := by
    decide
  obtain ⟨l, hl⟩ := Option.isSome_iff_exists.1 hlookup
  obtain ⟨st, hrun, hl⟩ := Option.bind_eq_some_iff.1 hl
  exact ⟨st, l, Reached.run .init hrun, hl, fun s st' hs hend =>
    (one_mutex_per_map (Reached.run .init hrun)).2 s st' l hs hl hend⟩

/-- What was dropped meanwhile is still in the registry after the lookup. -/
theorem dead_entry_left : ¬∀ st st' s, Reached st → st.step s = some st' →
    st.lookup.isSome → st'.lookup = none →
    st'.locks.length ≤ (st'.handles.map MapHandle.mapUid).dedup.length := by
  intro hall
  have hlast : ∃ st st', ({} : WayfinderMapOperationLocks).run droppedMeanwhile = some st ∧
      st.step .insert = some st' ∧ st.lookup.isSome ∧ st'.lookup = none ∧
      ¬st'.locks.length ≤ (st'.handles.map MapHandle.mapUid).dedup.length := by
    refine ⟨_, _, rfl, rfl, ?_⟩
    decide
  obtain ⟨st, st', hrun, hstep, hbusy, hend, hmore⟩ := hlast
  exact hmore (hall st st' .insert (Reached.run .init hrun) hstep hbusy hend)

/-! ## The locks of the server model -/

/-- The maps whose mutex is taken. -/
def lockedMaps (st : WayfinderMapOperationLocks) : List String :=
  (st.handles.filter MapHandle.locked).map MapHandle.mapUid

/-- The operation of the server model that a step stands for, if any. -/
def operation (st : WayfinderMapOperationLocks) : LockStep → Option Act
  | .lock i => (st.handles[i]?).map fun h => .lockMap h.mapUid
  | .unlock i => (st.handles[i]?).map fun h => .unlockMap h.mapUid
  | _ => none

/-- The operations of some steps. -/
def operations (st : WayfinderMapOperationLocks) : List LockStep → List Act
  | [] => []
  | s :: steps =>
      (st.operation s).toList ++ ((st.step s).map fun st' => st'.operations steps).getD []

/-- The operations can be performed one after the other, and lead from the one memory to the
other. -/
inductive Performed : List Act → Mem → Mem → Prop
  | nil (mem : Mem) : Performed [] mem mem
  | cons {a : Act} {o : a.Out} {as : List Act} {mem mem₁ mem₂ : Mem}
    (ha : a.perform mem = some (mem₁, o))
      (has : Performed as mem₁ mem₂) : Performed (a :: as) mem mem₂

section

variable {st st' : WayfinderMapOperationLocks} {mem : Mem} {i : Nat} {y : MapHandle}

/-- A mutex is taken exactly when its map is locked. -/
theorem Consistent.locked_iff (h : Consistent st) (hy : y ∈ st.handles) :
    y.mutex ∈ (st.handles.filter MapHandle.locked).map MapHandle.mutex ↔
    y.mapUid ∈ st.lockedMaps := by
  simp only [lockedMaps, List.mem_map, List.mem_filter]
  constructor
  · rintro ⟨x, ⟨hx, hlocked⟩, hm⟩
    exact ⟨x, ⟨hx, hlocked⟩, (h.same_map hx hy).2 hm⟩
  · rintro ⟨x, ⟨hx, hlocked⟩, hm⟩
    exact ⟨x, ⟨hx, hlocked⟩, (h.same_map hx hy).1 hm⟩

/-- Taking the guard of a handle is `Act.lockMap`: it is possible when that is, and does the
same. -/
theorem lock_simulates (h : Reached st) (hmem : mem.mapLocks.Perm st.lockedMaps)
    (hi : st.handles[i]? = some y) :
    ((st.step (.lock i)).isSome ↔ ((Act.lockMap y.mapUid).perform mem).isSome) ∧
      ∀ st', st.step (.lock i) = some st' → ∃ mem',
        (Act.lockMap y.mapUid).perform mem = some (mem', ()) ∧
        mem'.mapLocks.Perm st'.lockedMaps := by
  have hy := List.mem_of_getElem? hi
  have hiff := h.consistent.locked_iff hy
  have hmem' : y.mapUid ∈ mem.mapLocks ↔ y.mapUid ∈ st.lockedMaps := hmem.mem_iff
  rw [step_lock hi]
  by_cases hlocked : y.mapUid ∈ st.lockedMaps
  · rw [if_pos (hiff.2 hlocked)]
    simp [Act.perform, hmem'.2 hlocked]
  · have hfree : y.mutex ∉ (st.handles.filter MapHandle.locked).map MapHandle.mutex :=
      fun hm => hlocked (hiff.1 hm)
    have hunlocked : y.locked = false := by
      by_contra hl
      exact hfree (mem_guards.2 ⟨y, hy, rfl, by simpa using hl⟩)
    rw [if_neg hfree]
    refine ⟨by simp [Act.perform, mt hmem'.1 hlocked], fun st' hst' => ?_⟩
    cases hst'
    refine ⟨_, by rw [Act.perform, if_neg (mt hmem'.1 hlocked)], ?_⟩
    exact (hmem.cons y.mapUid).trans
      (locked_set MapHandle.mapUid (fun _ _ => rfl) hi hunlocked).symm

/-- Giving a guard back is `Act.unlockMap`. -/
theorem unlock_simulates (hmem : mem.mapLocks.Perm st.lockedMaps) (hi : st.handles[i]? = some y)
    (hs : st.step (.unlock i) = some st') : ∃ mem',
      (Act.unlockMap y.mapUid).perform mem = some (mem', ()) ∧
      mem'.mapLocks.Perm st'.lockedMaps := by
  simp only [step, hi] at hs
  split at hs
  case isTrue hlocked =>
    cases hs
    refine ⟨_, rfl, ?_⟩
    have hperm := hmem.trans (unlocked_set MapHandle.mapUid hi hlocked)
    have herase := hperm.erase y.mapUid
    rwa [List.erase_cons_head] at herase
  case isFalse => cases hs

/-- Lookups, and drops of handles without a guard, leave the locked maps. -/
theorem lookup_simulates {s : LockStep} (hs : st.step s = some st') (hlock : ∀ i, s ≠ .lock i)
    (hunlock : ∀ i, s ≠ .unlock i) : st'.lockedMaps = st.lockedMaps := by
  cases s with
  | lock i => exact absurd rfl (hlock i)
  | unlock i => exact absurd rfl (hunlock i)
  | drop i =>
      simp only [step] at hs
      split at hs
      case h_1 y hi =>
        split at hs
        · cases hs
        case isFalse hy =>
          cases hs
          rw [lockedMaps, locked_drop hi (by simpa using hy)]
          rfl
      · cases hs
  | forMap mapUid =>
      simp only [step] at hs
      split at hs
      · cases hs
      · cases hs
        rfl
  | retain =>
      simp only [step] at hs
      split at hs
      · cases hs
        rfl
      · cases hs
        split <;> rfl
      · cases hs
  | upgrade =>
      simp only [step] at hs
      split at hs
      · split at hs
        · split at hs
          · cases hs
            rfl
          · cases hs
            rfl
        · cases hs
          rfl
      · cases hs
  | insert =>
      simp only [step] at hs
      split at hs
      · cases hs
        rfl
      · cases hs

/-- One step is no operation of the server model, or one that does the same to the locked maps. -/
theorem step_simulates {s : LockStep} (h : Reached st) (hmem : mem.mapLocks.Perm st.lockedMaps)
    (hs : st.step s = some st') : ∃ mem', Performed (st.operation s).toList mem mem' ∧
      mem'.mapLocks.Perm st'.lockedMaps := by
  have hquiet : (∀ i, s ≠ .lock i) → (∀ i, s ≠ .unlock i) → st.operation s = none →
      ∃ mem', Performed (st.operation s).toList mem mem' ∧
        mem'.mapLocks.Perm st'.lockedMaps := by
    intro hlock hunlock hnone
    rw [hnone, lookup_simulates hs hlock hunlock]
    exact ⟨mem, .nil mem, hmem⟩
  cases s with
  | lock i =>
      cases hi : st.handles[i]? with
      | none => simp [step, hi] at hs
      | some y =>
          obtain ⟨mem', hperf, hperm⟩ := (lock_simulates h hmem hi).2 st' hs
          rw [operation, hi]
          exact ⟨mem', .cons hperf (.nil mem'), hperm⟩
  | unlock i =>
      cases hi : st.handles[i]? with
      | none => simp [step, hi] at hs
      | some y =>
          obtain ⟨mem', hperf, hperm⟩ := unlock_simulates hmem hi hs
          rw [operation, hi]
          exact ⟨mem', .cons hperf (.nil mem'), hperm⟩
  | forMap mapUid => exact hquiet (by simp) (by simp) rfl
  | retain => exact hquiet (by simp) (by simp) rfl
  | upgrade => exact hquiet (by simp) (by simp) rfl
  | insert => exact hquiet (by simp) (by simp) rfl
  | drop i => exact hquiet (by simp) (by simp) rfl

theorem Performed.append {as as' : List Act} {mem₁ mem₂ : Mem} (h : Performed as mem mem₁)
    (h' : Performed as' mem₁ mem₂) : Performed (as ++ as') mem mem₂ := by
  induction h with
  | nil mem => exact h'
  | cons ha _ ih => exact .cons ha (ih h')

/-- The registry does what the server model says of the locks, in every interleaving of lookups and
of tasks with handles: its locks and unlocks are performed by the model one after the other, the
same maps are locked then, and a guard can be taken just when the model can lock the map. -/
theorem run_simulates {steps : List LockStep} (h : Reached st)
    (hmem : mem.mapLocks.Perm st.lockedMaps) (hrun : st.run steps = some st') :
      ∃ mem', Performed (st.operations steps) mem mem' ∧ mem'.mapLocks.Perm st'.lockedMaps ∧
        ∀ i y, st'.handles[i]? = some y →
        ((st'.step (.lock i)).isSome ↔ ((Act.lockMap y.mapUid).perform mem').isSome) := by
  induction steps generalizing st mem with
  | nil =>
      cases hrun
      exact ⟨mem, .nil mem, hmem, fun i y hi => (lock_simulates h hmem hi).1⟩
  | cons s steps ih =>
      obtain ⟨st₁, hs, hrun⟩ := Option.bind_eq_some_iff.1 hrun
      obtain ⟨mem₁, hfirst, hmem₁⟩ := step_simulates h hmem hs
      obtain ⟨mem', hrest, hmem', hlocks⟩ := ih (.step h hs) hmem₁ hrun
      refine ⟨mem', ?_, hmem', hlocks⟩
      rw [operations, hs, Option.map_some, Option.getD_some]
      exact hfirst.append hrest

end

end WayfinderMapOperationLocks

end Server2

end Dd2Server
