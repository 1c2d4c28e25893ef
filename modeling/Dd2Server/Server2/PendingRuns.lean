import Dd2Server.Server2.Broadcasts

/-!
# Pending unlocks over a run

An entry of the pending set has one owner: the read loop that began it, the list of tasks that are
to start, or the validation that answers for it.  So the set holds what is outstanding and nothing
else, and where a map has drained a release was the last to go.
-/

namespace Dd2Server

namespace Server2

open ReadCommitted

/-! ## Who answers for an entry -/

/-- The entry that a task will answer for once it starts. -/
def owes : Spawned → Option (Nat × String × String)
  | .unlockValidation c _ m slug _ => some (c, m, slug)
  | _ => none

def unlockOwners :
    Owners Table.Key Table.Row Tag Ask.Ans Act.Out Mem (Nat × String × String) where
  own := heldUnlocks
  spare mem := mem.spawned.filterMap owes
  marked mem k := k.2 ∈ (mem.conns k.1).pending.owed

theorem modify_conns_self {mem : Mem} {c : Nat} {f : Connection → Connection} :
    (mem.modify c f).conns c = f (mem.conns c) := Function.update_self ..

theorem modify_conns_of_ne {mem : Mem} {c c' : Nat} {f : Connection → Connection} (h : c' ≠ c) :
    (mem.modify c f).conns c' = mem.conns c' := Function.update_of_ne h ..

theorem pending_modify {mem : Mem} {c : Nat} {f : Connection → Connection}
    (hf : ∀ x, (f x).pending = x.pending) (c' : Nat) :
    ((mem.modify c f).conns c').pending = (mem.conns c').pending := by
  by_cases hc : c' = c
  · rw [hc, modify_conns_self, hf]
  · rw [modify_conns_of_ne hc]

/-- Most operations leave the pending sets alone. -/
theorem perform_pending {a : Act} {mem mem' : Mem} {o : a.Out} (h : a.perform mem = some (mem', o))
    (hbegin : ∀ c m slug, a ≠ .beginUnlock c m slug)
    (hrelease : ∀ c m slug, a ≠ .releaseUnlock c m slug) (c' : Nat) :
    (mem'.conns c').pending = (mem.conns c').pending := by
  cases a with
  | beginUnlock c m slug => exact absurd rfl (hbegin c m slug)
  | releaseUnlock c m slug => exact absurd rfl (hrelease c m slug)
  | setTracked c next =>
      cases h
      exact pending_modify (by simp) c'
  | send c r =>
      cases h
      exact pending_modify (by simp) c'
  | dropPermit c =>
      cases h
      exact pending_modify (by simp) c'
  | acquirePermit c =>
      simp only [Act.perform] at h
      split at h <;> cases h
      exact pending_modify (by simp) c'
  | offer c m hats =>
      simp only [Act.perform] at h
      split at h <;> cases h
      · exact pending_modify (by simp) c'
      · rfl
  | relay c =>
      simp only [Act.perform] at h
      split at h <;> cases h
      exact pending_modify (by simp) c'
  | nextMessage =>
      simp only [Act.perform, Option.ite_none_left_eq_some, Option.map_eq_some_iff] at h
      obtain ⟨-, msg, -, he⟩ := h
      cases he
      rfl
  | lockMap m =>
      simp only [Act.perform] at h
      split at h <;> cases h
      rfl
  | begun task =>
      simp only [Act.perform] at h
      split at h <;> cases h
      rfl
  | _ =>
      cases h
      rfl

/-- Most operations leave the list of tasks that are to start alone. -/
theorem perform_spawned {a : Act} {mem mem' : Mem} {o : a.Out} (h : a.perform mem = some (mem', o))
    (hspawn : ∀ task, a ≠ .spawn task) (hbegun : ∀ task, a ≠ .begun task) :
    mem'.spawned = mem.spawned := by
  cases a with
  | spawn task => exact absurd rfl (hspawn task)
  | begun task => exact absurd rfl (hbegun task)
  | _ =>
      simp only [Act.perform] at h
      grind [Mem.modify]

theorem mem_unlocksOver {keys : List (Nat × String × String)} {mem : Mem}
    {k : Nat × String × String} :
    k.2 ∈ ((keys.foldl Mem.unlockOver mem).conns k.1).pending.owed ↔
      k.2 ∈ (mem.conns k.1).pending.owed ∧ k ∉ keys := by
  induction keys generalizing mem with
  | nil => simp
  | cons key keys ih =>
      have hone : k.2 ∈ ((mem.unlockOver key).conns k.1).pending.owed ↔
          k.2 ∈ (mem.conns k.1).pending.owed ∧ k ≠ key := by
        by_cases hc : k.1 = key.1
        · rw [hc, Mem.unlockOver, modify_conns_self, ← hc]
          simp [PendingHatUnlocks.remove, Prod.ext_iff, hc, and_comm]
        · have hne : k ≠ key := fun he => hc (by rw [he])
          rw [Mem.unlockOver, modify_conns_of_ne hc, and_iff_left hne]
      rw [List.foldl_cons, ih, hone, List.mem_cons, not_or, and_assoc]

theorem pending_permitsBack (cs : List Nat) (mem : Mem) (c : Nat) :
    ((cs.foldl Mem.permitBack mem).conns c).pending = (mem.conns c).pending := by
  induction cs generalizing mem with
  | nil => rfl
  | cons c' cs ih =>
      rw [List.foldl_cons, ih]
      exact pending_modify (by simp) c

/-- A task that is dropped takes its entries with it. -/
theorem mem_abandon {log : Log} {mem : Mem} {k : Nat × String × String} :
    k.2 ∈ ((shared.abandon log mem).conns k.1).pending.owed ↔
      k.2 ∈ (mem.conns k.1).pending.owed ∧ k ∉ heldUnlocks log := by
  show k.2 ∈ (((heldPermits log).foldl Mem.permitBack _).conns k.1).pending.owed ↔ _
  rw [pending_permitsBack, mem_unlocksOver]

theorem begin_free {p p' : PendingHatUnlocks} {m slug : String} (h : p.begin m slug = some p') :
    (m, slug) ∉ p.owed := by
  intro hin
  obtain ⟨-, howed, hcard⟩ := begin_card h
  rw [howed, Finset.insert_eq_of_mem hin] at hcard
  omega

/-- The entries of one connection after a change of its pending set. -/
theorem marked_modify {mem : Mem} {c : Nat} {p : PendingHatUnlocks} {k : Nat × String × String} :
    unlockOwners.marked (mem.modify c fun x => { x with pending := p }) k ↔
      if k.1 = c then k.2 ∈ p.owed else unlockOwners.marked mem k := by
  show k.2 ∈ ((mem.modify c _).conns k.1).pending.owed ↔ _
  split
  case isTrue hc => rw [hc, modify_conns_self]
  case isFalse hc =>
    rw [modify_conns_of_ne hc]
    rfl

theorem marked_begin {mem : Mem} {c : Nat} {m slug : String} {p : PendingHatUnlocks}
    (h : (mem.conns c).pending.begin m slug = some p) {k : Nat × String × String} :
    unlockOwners.marked (mem.modify c fun x => { x with pending := p }) k ↔
      k = (c, m, slug) ∨ unlockOwners.marked mem k := by
  rw [marked_modify, (begin_card h).2.1]
  split
  case isTrue hc =>
    have hkey : k = (c, m, slug) ↔ k.2 = (m, slug) :=
      ⟨congrArg Prod.snd, fun he => Prod.ext hc he⟩
    rw [Finset.mem_insert, hkey, ← hc]
    rfl
  case isFalse hc => rw [or_iff_right fun he => hc (by rw [he])]

theorem marked_remove {mem : Mem} {c : Nat} {m slug : String} {k : Nat × String × String} :
    unlockOwners.marked (mem.modify c fun x =>
      { x with pending := ((mem.conns c).pending.remove (m, slug)).1 }) k ↔ k ≠ (c, m, slug) ∧
        unlockOwners.marked mem k := by
  rw [marked_modify]
  split
  case isTrue hc =>
    have hkey : k = (c, m, slug) ↔ k.2 = (m, slug) :=
      ⟨congrArg Prod.snd, fun he => Prod.ext hc he⟩
    rw [PendingHatUnlocks.remove, Finset.mem_erase, Ne, Ne, hkey, ← hc]
    rfl
  case isFalse hc => rw [and_iff_right fun he => hc (by rw [he])]

/-- An entry is old, or was added just now. -/
theorem marked_perform {a : Act} {mem mem' : Mem} {o : a.Out} {k : Nat × String × String}
    (h : a.perform mem = some (mem', o)) (hk : unlockOwners.marked mem' k) :
    unlockOwners.marked mem k ∨ a = .beginUnlock k.1 k.2.1 k.2.2 ∧
      ((mem.conns k.1).pending.begin k.2.1 k.2.2).isSome = true := by
  cases a with
  | beginUnlock c m slug =>
      simp only [Act.perform] at h
      split at h
      case h_1 p hp =>
        cases h
        rcases (marked_begin hp).1 hk with rfl | hk
        · exact .inr ⟨rfl, by rw [hp]; rfl⟩
        · exact .inl hk
      case h_2 =>
        cases h
        exact .inl hk
  | releaseUnlock c m slug =>
      cases h
      exact .inl (marked_remove.1 hk).2
  | _ =>
      left
      show k.2 ∈ (mem.conns k.1).pending.owed
      rw [← perform_pending h (by simp) (by simp)]
      exact hk

/-- An entry stays, or is released just now. -/
theorem unmarked_perform {a : Act} {mem mem' : Mem} {o : a.Out} {k : Nat × String × String}
    (h : a.perform mem = some (mem', o)) (hk : unlockOwners.marked mem k) :
    unlockOwners.marked mem' k ∨ a = .releaseUnlock k.1 k.2.1 k.2.2 := by
  cases a with
  | releaseUnlock c m slug =>
      cases h
      by_cases he : k = (c, m, slug)
      · exact .inr (by rw [he])
      · exact .inl (marked_remove.2 ⟨he, hk⟩)
  | beginUnlock c m slug =>
      left
      simp only [Act.perform] at h
      split at h
      case h_1 p hp =>
        cases h
        exact (marked_begin hp).2 (.inr hk)
      case h_2 =>
        cases h
        exact hk
  | _ =>
      left
      show k.2 ∈ (mem'.conns k.1).pending.owed
      rw [perform_pending h (by simp) (by simp)]
      exact hk

/-- A move of a task is an operation on the shared memory, or leaves that alone. -/
theorem advance_acts {held : List (Lock Table.Key)} {db db' : Db} {mem mem' : Mem}
    {p p' : Server Unit} {l l' : Local Table.Key Table.Row Tag Ask.Ans Act.Out}
    {ch : Choice Ask.Ans} (h : advance shared held db mem p l ch = some (db', mem', p', l')) :
    (∃ a o next, p = .act a next ∧ a.perform mem = some (mem', o) ∧
      l'.log = .acted a o :: l.log) ∨ mem' = mem ∧ ∃ new, l'.log = new ++ l.log ∧
        acts new = [] := by
  cases advance_cases h with
  | acted a o next hp hperf hdb hp' hlog => exact .inl ⟨a, o, next, hp, hperf, hlog⟩
  | looked tag hdb hmem hlog => exact .inr ⟨hmem, [_], hlog, rfl⟩
  | committed hmem hlog => exact .inr ⟨hmem, [_], hlog, rfl⟩
  | passed new hdb hmem hlog hnew => exact .inr ⟨hmem, new, hlog, (passive_quiet hnew).1⟩

/-- Besides `begin` and `release`, entries only pass from one owner to another. -/
theorem owned_perm {a : Act} {log : Log} {mem mem' : Mem} {o : a.Out} (hact : Orderly log a)
    (h : a.perform mem = some (mem', o)) (hbegin : ∀ c m slug, a ≠ .beginUnlock c m slug)
    (hrelease : ∀ c m slug, a ≠ .releaseUnlock c m slug) :
    (heldUnlocks (.acted a o :: log) ++ mem'.spawned.filterMap owes).Perm
      (heldUnlocks log ++ mem.spawned.filterMap owes) := by
  cases a with
  | beginUnlock c m slug => exact absurd rfl (hbegin c m slug)
  | releaseUnlock c m slug => exact absurd rfl (hrelease c m slug)
  | spawn task =>
      cases h
      cases task with
      | unlockValidation c u m slug specId =>
          exact List.perm_middle.trans ((List.perm_cons_erase hact).symm.append_right _)
      | _ => exact .refl _
  | begun task =>
      simp only [Act.perform] at h
      split at h
      case isFalse => cases h
      case isTrue hin =>
        cases h
        have hperm := (List.perm_cons_erase hin).symm.filterMap owes
        cases task with
        | unlockValidation c u m slug specId =>
            exact List.perm_middle.symm.trans (hperm.append_left _)
        | _ => exact hperm.append_left _
  | _ =>
      rw [perform_spawned h (by simp) (by simp)]
      exact .refl _

theorem unlockOwners_lawful : unlockOwners.Lawful shared Orderly where
  nil := rfl
  skip ev log h := by
    refine heldUnlocks_ofActs.quiet (n := [ev]) ?_ log
    cases ev with
    | acted a o => exact absurd rfl (h a o)
    | _ => rfl
  pass a o log mem mem' hact hperf := by
    have hmoved : (∀ c m slug, a ≠ .beginUnlock c m slug) →
        (∀ c m slug, a ≠ .releaseUnlock c m slug) →
        unlockOwners.Passes log mem (.acted a o :: log) mem' := by
      intro hbegin hrelease
      refine .moved (owned_perm hact hperf hbegin hrelease) fun k hk => ?_
      show k.2 ∈ (mem'.conns k.1).pending.owed
      rw [perform_pending hperf hbegin hrelease]
      exact hk
    cases a with
    | beginUnlock c m slug =>
        simp only [shared, Act.perform] at hperf
        split at hperf
        case h_1 p hp =>
          cases hperf
          exact Owners.Passes.taken (O := unlockOwners) (k := (c, m, slug)) rfl rfl (begin_free hp)
            fun k hk => (marked_begin hp).2 hk.symm
        case h_2 =>
          cases hperf
          exact .same rfl rfl fun _ hk => hk
    | releaseUnlock c m slug =>
        cases hperf
        exact Owners.Passes.freed (O := unlockOwners) (k := (c, m, slug)) hact rfl rfl
          fun k hk hne => marked_remove.2 ⟨hne, hk⟩
    | _ => exact hmoved (by simp) (by simp)
  drop log mem := by
    constructor
    · obtain ⟨conns, h, -⟩ := abandon_eq log mem
      rw [h]
      rfl
    · exact fun k hk hno => mem_abandon.2 ⟨hk, hno⟩

theorem unlockOwners_tidy : unlockOwners.Tidy shared Orderly where
  pass a o log mem mem' hact hperf k hk := by
    have hmoved : (∀ c m slug, a ≠ .beginUnlock c m slug) →
        (∀ c m slug, a ≠ .releaseUnlock c m slug) →
        k ∈ unlockOwners.own (.acted a o :: log) ++ unlockOwners.spare mem' ∨
          unlockOwners.marked mem k ∧ k ∉ unlockOwners.own log ++ unlockOwners.spare mem := by
      intro hbegin hrelease
      refine Owners.Tidy.kept (owned_perm hact hperf hbegin hrelease).mem_iff.2 ?_
      show k.2 ∈ (mem.conns k.1).pending.owed
      rw [← perform_pending hperf hbegin hrelease]
      exact hk
    cases a with
    | beginUnlock c m slug =>
        simp only [shared, Act.perform] at hperf
        split at hperf
        case h_1 p hp =>
          cases hperf
          rcases (marked_begin hp).1 hk with rfl | hk
          · exact .inl List.mem_cons_self
          · exact Owners.Tidy.kept (List.mem_cons_of_mem _) hk
        case h_2 =>
          cases hperf
          exact Owners.Tidy.kept id hk
    | releaseUnlock c m slug =>
        cases hperf
        obtain ⟨hne, hk⟩ := marked_remove.1 hk
        refine Owners.Tidy.kept (fun hin => ?_) hk
        show k ∈ (heldUnlocks log).erase (c, m, slug) ++ _
        rw [List.mem_append, List.mem_erase_of_ne hne, ← List.mem_append]
        exact hin
    | _ => exact hmoved (by simp) (by simp)
  drop _ _ _ hk := mem_abandon.1 hk

/-! ## Runs that keep their validations -/

/-- The task validates an unlock of the connection. -/
def validates (c : Nat) : Spawned → Bool
  | .unlockValidation c' _ _ _ _ => c' = c
  | _ => false

def Job.validates (c : Nat) : Job → Bool
  | .spawned task => Server2.validates c task
  | _ => false

/-- The runtime drops no validation, and no task with an entry: a read loop does not wait between
`begin` and the spawn of the validation. -/
def KeepsUnlocks (s : System) : Move Ask.Ans Job → Prop
  | .drop i =>
      ∀ t, s.tasks[i]? = some t → heldUnlocks t.loc.log = [] ∧
        ∀ c, t.job.validates c = false
  | _ => True

/-- No validation that was begun on the connection is outstanding. -/
def Settled (c : Nat) (s : System) : Prop :=
  (∀ task ∈ s.mem.spawned, validates c task = false) ∧ ∀ t ∈ s.tasks,
    (∀ key ∈ heldUnlocks t.loc.log, key.1 ≠ c) ∧
      (t.job.validates c = true → t.prog.result = some ())

instance (c : Nat) (s : System) : Decidable (Settled c s) := inferInstanceAs (Decidable (_ ∧ _))

section

variable (pg : Pg)

/-- This step is the operation of one task, which has this log then. -/
def Performs (s s' : System) (a : Act) (o : a.Out) (t : ServerTask) : Prop :=
  ∃ i c u next, s.tasks[i]? = some u ∧ u.prog = .act a next ∧
    s.move shared (Job.body pg) (.run i c) = some s' ∧
    s'.tasks[i]? = some t ∧ t.job = u.job ∧ t.loc.log = .acted a o :: u.loc.log

end

section

variable {pg : Pg} {db₀ : Db} {s s' : System} {c : Nat} {m slug : String}

/-- Only validations release entries. -/
theorem Job.releases {j : Job} {log : Log}
    (h : (Job.promise pg j).act log (.releaseUnlock c m slug)) :
    ∃ u specId, j = .spawned (.unlockValidation c u m slug specId) := by
  cases j with
  | spawned task =>
      cases task with
      | unlockValidation c' u m' slug' specId =>
          obtain ⟨he, -⟩ := h
          cases he
          exact ⟨u, specId, rfl⟩
      | deferredBind u m' specId => exact h.elim
      | commentBind m' => exact h.elim
  | relay c' => cases h.2
  | _ => exact h.elim

/-- A validation lasts to the end of the run. -/
theorem KeepsUnlocks.lasts {mv : Move Ask.Ans Job} (hok : KeepsUnlocks s mv)
    (hm : s.move shared (Job.body pg) mv = some s') {t : ServerTask} (ht : t ∈ s.tasks)
    (hc : t.job.validates c = true) : t.Lasts s' := by
  cases mv with
  | start j => exact (Sys.move_cases hm).lasts trivial ht
  | run i ch => exact (Sys.move_cases hm).lasts trivial ht
  | drop i =>
      cases Sys.move_cases hm with
      | dropped i u hu hdb hmem htasks =>
          obtain ⟨k, hk⟩ := List.getElem?_of_mem ht
          have hne : k ≠ i := by
            rintro rfl
            obtain rfl : u = t := Option.some.inj (hu.symm.trans hk)
            rw [(hok u hu).2 c] at hc
            cases hc
          refine ⟨t, ?_, rfl, [], rfl⟩
          rw [htasks]
          exact List.mem_eraseIdx_iff_getElem?.2 ⟨k, hne, hk⟩

/-- An entry is gone because its validation released it. -/
theorem released {mv : Move Ask.Ans Job} {k : Nat × String × String} (hok : KeepsUnlocks s mv)
    (hm : s.move shared (Job.body pg) mv = some s') (hk : unlockOwners.marked s.mem k)
    (hno : ¬unlockOwners.marked s'.mem k) :
    ∃ i ch u next t, mv = .run i ch ∧ s.tasks[i]? = some u ∧
      u.prog = .act (.releaseUnlock k.1 k.2.1 k.2.2) next ∧ s'.tasks[i]? = some t ∧
        t.job = u.job ∧ t.loc.log = .acted (.releaseUnlock k.1 k.2.1 k.2.2)
          (!(s'.mem.conns k.1).pending.anyForMap k.2.1) :: u.loc.log := by
  cases Sys.move_cases hm with
  | started j hdb hmem htasks => exact absurd (hmem ▸ hk) hno
  | dropped i t ht hdb hmem htasks =>
      rw [hmem] at hno
      refine absurd (mem_abandon.2 ⟨hk, ?_⟩) hno
      rw [(hok t ht).1]
      exact List.not_mem_nil
  | ran i ch t t' ht hjob htasks hadv =>
      rcases advance_acts hadv with ⟨a, o, next, hp, hperf, hlog⟩ | ⟨hmem, -⟩
      · obtain rfl := (unmarked_perform hperf hk).resolve_left hno
        have ht' : s'.tasks[i]? = some t' := by
          rw [htasks]
          exact List.getElem?_set_self (List.getElem?_eq_some_iff.1 ht).1
        simp only [Act.perform, Option.some.injEq, Prod.mk.injEq] at hperf
        refine ⟨i, ch, t, next, t', rfl, ht, hp, ht', hjob, ?_⟩
        rw [hlog, ← hperf.1, ← hperf.2, modify_conns_self]
        rfl
      · exact absurd (hmem ▸ hk) hno

theorem KeepsUnlocks.sane (hinv : Inv pg False db₀)
    (h : ReachBy shared (Job.body pg) KeepsUnlocks (System.on db₀) s) : Sane pg s :=
  RunFrom.sane (h.reach fun s _ _ => s.admits_true) hinv

/-- Every entry has an owner. -/
theorem KeepsUnlocks.owned (hinv : Inv pg False db₀)
    (h : ReachBy shared (Job.body pg) KeepsUnlocks (System.on db₀) s) : unlockOwners.Owned s := by
  induction h with
  | init => exact fun k hk => absurd hk (Finset.notMem_empty _)
  | step hs hok hm ih =>
      exact ih.move unlockOwners_lawful unlockOwners_tidy
        (fun t ht a next hp => (KeepsUnlocks.sane hinv hs).orderly ht hp) hm

/-- Where nothing is outstanding, nothing is marked. -/
theorem Settled.drained (hsettled : Settled c s) (howned : unlockOwners.Owned s) :
    (s.mem.conns c).pending.owed = ∅ := by
  refine Finset.eq_empty_of_forall_notMem fun key hkey => ?_
  rcases List.mem_append.1 (howned (c, key) hkey) with hown | hspare
  · obtain ⟨t, ht, hheld⟩ := List.mem_flatMap.1 hown
    exact (hsettled.2 t ht).1 _ hheld rfl
  · obtain ⟨task, htask, howes⟩ := List.mem_filterMap.1 hspare
    have hno := hsettled.1 task htask
    cases task with
    | unlockValidation c' u m' slug' specId =>
        cases howes
        simp [validates] at hno
    | _ => cases howes

theorem anyForMap_iff {p : PendingHatUnlocks} :
    p.anyForMap m = true ↔ ∃ slug, (m, slug) ∈ p.owed := by
  simp [PendingHatUnlocks.anyForMap]

/-- A map is drained by a release, which says so. -/
theorem drained_by_release {mv : Move Ask.Ans Job} (hok : KeepsUnlocks s mv)
    (hm : s.move shared (Job.body pg) mv = some s')
    (hp : (s.mem.conns c).pending.anyForMap m = true)
    (hno : (s'.mem.conns c).pending.anyForMap m = false) :
    ∃ slug i ch u next t, mv = .run i ch ∧ s.tasks[i]? = some u ∧
      u.prog = .act (.releaseUnlock c m slug) next ∧ s'.tasks[i]? = some t ∧ t.job = u.job ∧
      t.loc.log = .acted (.releaseUnlock c m slug) true :: u.loc.log := by
  obtain ⟨slug, hk⟩ := anyForMap_iff.1 hp
  have hgone : ¬unlockOwners.marked s'.mem (c, m, slug) := by
    intro hin
    rw [anyForMap_iff.2 ⟨slug, hin⟩] at hno
    cases hno
  obtain ⟨i, ch, u, next, t, rfl, hu, hp, ht, hjob, hlog⟩ :=
    released (k := (c, m, slug)) hok hm hk hgone
  rw [hno] at hlog
  exact ⟨slug, i, ch, u, next, t, rfl, hu, hp, ht, hjob, hlog⟩

/-- A task that is about to perform an operation performs it. -/
theorem Performs.of_move {i : Nat} {ch : Choice Ask.Ans} {u : ServerTask} {a : Act}
    {next : a.Out → Server Unit} (hu : s.tasks[i]? = some u) (hp : u.prog = .act a next)
    (hm : s.move shared (Job.body pg) (.run i ch) = some s') : ∃ o t, Performs pg s s' a o t := by
  cases Sys.move_cases hm with
  | ran _ _ u' t hu' hjob htasks hadv =>
      obtain rfl : u = u' := Option.some.inj (hu.symm.trans hu')
      have ht : s'.tasks[i]? = some t := by
        rw [htasks]
        exact List.getElem?_set_self (List.getElem?_eq_some_iff.1 hu).1
      rw [hp] at hadv
      cases ch with
      | proceed =>
          simp only [advance, Option.map_eq_some_iff, Prod.mk.injEq] at hadv
          obtain ⟨⟨mem, o⟩, -, -, -, -, hlog⟩ := hadv
          exact ⟨o, t, i, .proceed, u, next, hu, hp, hm, ht, hjob, by rw [← hlog]; rfl⟩
      | fail => simp [advance] at hadv
      | answer f => simp [advance] at hadv

/-- What the operation did to the shared memory. -/
theorem Performs.perform {a : Act} {o : a.Out} {t : ServerTask} (h : Performs pg s s' a o t) :
    a.perform s.mem = some (s'.mem, o) := by
  obtain ⟨i, ch, u, next, hu, hp, hm, ht, -, hlog⟩ := h
  cases Sys.move_cases hm with
  | ran _ _ u' t' hu' hjob htasks hadv =>
      obtain rfl : u = u' := Option.some.inj (hu.symm.trans hu')
      rw [htasks, List.getElem?_set_self (List.getElem?_eq_some_iff.1 hu).1] at ht
      obtain rfl := Option.some.inj ht
      have hacted : ∀ {ev : LogEvent}, t'.loc.log = ev :: u.loc.log → ev = .acted a o :=
        fun he => (List.cons.inj (he.symm.trans hlog)).1
      cases advance_cases hadv with
      | acted a' o' next' hp' hperf hdb hprog hlog' =>
          cases hacted hlog'
          exact hperf
      | looked tag hdb hmem hlog' => cases hacted hlog'
      | committed hmem hlog' => cases hacted hlog'
      | passed new hdb hmem hlog' hnew =>
          rw [hlog] at hlog'
          cases new with
          | nil => exact absurd hlog' (List.cons_ne_self _ _)
          | cons ev new =>
              obtain ⟨rfl, -⟩ := List.cons.inj hlog'
              exact (hnew _ List.mem_cons_self).elim

/-- On the way to a state without entries for the map, a release drained it. -/
theorem drained_on_the_way (hsane : Sane pg s) (hp : (s.mem.conns c).pending.anyForMap m = true)
    (h : ReachBy shared (Job.body pg) KeepsUnlocks s s') : Sane pg s' ∧
      ((s'.mem.conns c).pending.anyForMap m = false → ∃ s₁ s₂ slug t,
        ReachBy shared (Job.body pg) KeepsUnlocks s s₁ ∧
        Performs pg s₁ s₂ (.releaseUnlock c m slug) true t ∧
        ReachBy shared (Job.body pg) KeepsUnlocks s₂ s' ∧ t.Lasts s' ∧
        ∃ u specId, t.job = .spawned (.unlockValidation c u m slug specId)) := by
  induction h with
  | init =>
      refine ⟨hsane, fun hno => ?_⟩
      rw [hp] at hno
      cases hno
  | @step s₁ s' mv hs hok hm ih =>
      obtain ⟨hsane₁, ih⟩ := ih
      refine ⟨hsane₁.move hm, fun hno => ?_⟩
      cases hmid : (s₁.mem.conns c).pending.anyForMap m with
      | true =>
          obtain ⟨slug, i, ch, u, next, t, rfl, hu, hprog, ht, hjob, hlog⟩ :=
            drained_by_release hok hm hmid hno
          have hperf : Performs pg s₁ s' (.releaseUnlock c m slug) true t :=
            ⟨i, ch, u, next, hu, hprog, hm, ht, hjob, hlog⟩
          obtain ⟨v, specId, hj⟩ :=
            Job.releases (Sound.act hsane₁ (List.mem_of_getElem? hu) hprog)
          refine ⟨s₁, s', slug, t, hs, hperf, .init, ⟨t, List.mem_of_getElem? ht, rfl, [],
            rfl⟩, v, specId, ?_⟩
          exact hjob.trans hj
      | false =>
          obtain ⟨s₂, s₃, slug, t, h₂, hperf, h₃, ⟨t', ht', hjob, new, hlog⟩, v,
              specId, hj⟩ := ih hmid
          have hval : t'.job.validates c = true := by simp [hjob, hj, Job.validates, validates]
          obtain ⟨t'', ht'', hjob', new', hlog'⟩ := hok.lasts hm ht' hval
          refine ⟨s₂, s₃, slug, t, h₂, hperf, .step h₃ hok hm,
            ⟨t'', ht'', hjob'.trans hjob, new' ++ new, ?_⟩, v, specId, hj⟩
          rw [hlog', hlog, List.append_assoc]

/-- A validation releases its entry once. -/
theorem Kept.released_once {u : Uuid} {specId : Int} {n older : Log} {d : Bool}
    (h : Kept (validating pg c u m slug specId)
      (n ++ .acted (.releaseUnlock c m slug) d :: older)) :
    heldUnlocks (n ++ .acted (.releaseUnlock c m slug) d :: older) = [] ∧
      ∀ d', .acted (.releaseUnlock c m slug) d' ∉ n := by
  induction n with
  | nil =>
      obtain ⟨-, hheld⟩ := h.act [] (.releaseUnlock c m slug) d older rfl
      refine ⟨?_, by simp⟩
      rw [List.nil_append, heldUnlocks, hheld, List.erase_cons_head]
  | cons ev n ih =>
      obtain ⟨hheld, hnone⟩ := ih h.tail
      cases ev with
      | acted a o =>
          have hact := h.act [] a o _ rfl
          cases a with
          | begun task => exact absurd hact.1 (by simp)
          | releaseUnlock c' m' slug' =>
              exact absurd (hact.2.symm.trans hheld) (by simp)
          | acquirePermit c' => exact ⟨hheld, by simp [hnone]⟩
          | dropPermit c' => exact ⟨hheld, by simp [hnone]⟩
          | send c' r => exact ⟨hheld, by simp [hnone]⟩
          | _ => exact hact.elim
      | _ => exact ⟨hheld, by simp [hnone]⟩

theorem Kept.not_released_before {u : Uuid} {specId : Int} {n older : Log} {d : Bool}
    (h : Kept (validating pg c u m slug specId) (n ++ .acted (.releaseUnlock c m slug) d :: older))
    (d' : Bool) : .acted (.releaseUnlock c m slug) d' ∉ older := by
  intro hm
  obtain ⟨n', older', rfl⟩ := List.append_of_mem hm
  rw [← List.cons_append, ← List.append_assoc] at h
  exact (Kept.released_once h).2 d (by simp)

end

end Server2

end Dd2Server
