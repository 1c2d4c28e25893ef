import Dd2Server.ReadCommitted.Ledger
import Dd2Server.Server2.LastHats

/-!
# Validations at a time

A connection has two permits for validations and a bounded set of entries.  No interleaving of its
read loop with its validations loses a permit or makes one: tasks that panic or are dropped give
theirs back.
-/

namespace Dd2Server

namespace Server2

open ReadCommitted

theorem heldPermits_ofActs : OfActs heldPermits := by
  intro log
  induction log with
  | nil => rfl
  | cons ev log ih =>
      cases ev with
      | acted a o => cases a <;> simp [heldPermits, ih]
      | _ => exact ih

/-! ## Permits of one validation -/

/-- A validation commits with its permit, and takes and gives back one. -/
def permitted (c : Nat) : Promise Table.Key Table.Row Tag Ask.Ans Act.Out where
  commit log _ _ := heldPermits log = [c]
  act log
    | .acquirePermit c' => c' = c ∧ heldPermits log = []
    | .dropPermit c' => c' = c ∧ heldPermits log = [c]
    | _ => True

def Job.permits : Job → Promise Table.Key Table.Row Tag Ask.Ans Act.Out
  | .spawned (.unlockValidation c _ _ _ _) => permitted c
  | _ => { commit := fun _ _ _ => True, act := fun _ _ => True }

section

variable {pg : Pg} {w : Scope} {C : Tag → Db → Prop} {ε : Type} {u : Uuid} {c : Nat}
  {m slug : String} {specId : Int}

/-- No permit is held. -/
def Unpermitted : Known Table.Key Table.Row Tag Ask.Ans Act.Out := fun log _ => heldPermits log = []

theorem pushHatsMine_permitted :
    Pool (setting pg w C (permitted c)) (fun _ => Unpermitted) Unpermitted (pushHatsMine pg c u m)
      (fun _ => Unpermitted) := by
  have hmine : Pool (setting pg w C (permitted c)) (fun _ => Unpermitted) Unpermitted
      (Hats.getHatsMine pg m u)
      (fun _ => Unpermitted) := by
    apply Pool.bind (fun _ => Unpermitted)
    · exact plain_pool (select_pool (fun _ _ h => h) fun _ _ _ _ _ _ h => h)
    intro bound
    cases bound with
    | none => exact Pool.pure fun _ _ _ h => h
    | some specId =>
        apply Pool.bind (fun _ => Unpermitted)
        · exact Pool.readCommitted (fun _ _ _ h => h) fun _ _ _ _ _ _ h => h
        intro equipped
        apply Pool.bind (fun _ => Unpermitted)
        · exact Pool.readCommitted (fun _ _ _ h => h) fun _ _ _ _ _ _ h => h
        · exact fun items => Pool.pure fun _ _ _ h => h
  rw [pushHatsMine]
  apply Pool.bind (fun _ => Unpermitted)
  · exact Pool.adapt hmine
  intro mine
  cases mine with
  | none => exact Pool.pure fun _ _ _ h => h
  | some r => exact Pool.act (fun _ _ _ _ => trivial) fun _ _ _ _ h => h

theorem hatUnlockValidation_permitted :
    Pool (setting pg w C (permitted c)) (fun (_ : ε) => Unpermitted) Unpermitted
      (hatUnlockValidation pg c u m slug specId) (fun _ => Unpermitted) := by
  rw [hatUnlockValidation]
  apply Pool.bind (fun _ log _ => heldPermits log = [c])
  · exact Pool.act (fun _ _ _ h => ⟨rfl, h⟩) fun _ _ _ _ h => congrArg (c :: ·) h
  intro _
  apply Pool.bind (fun _ log _ => heldPermits log = [c])
  · exact askQ_pool fun a log db h => h
  intro panics
  apply Pool.bind (fun _ log _ => heldPermits log = [c])
  · have hunlock : Pool (setting pg w C (querying fun _ _ => True)) (fun _ _ _ => True)
        (fun log _ => log = []) (Hats.reportUnlock pg u m slug specId) (fun _ _ _ => True) := by
      apply Pool.weaken (reportUnlock_pool fun _ _ _ _ => trivial)
      · rintro log db - rfl
        exact Commits.nil
      · exact fun _ _ _ _ => trivial
      · exact fun _ _ _ _ => trivial
    apply Pool.weaken (Pool.within (G := permitted c) (O := fun log => heldPermits log = [c])
      (E := fun _ _ _ => False) (joined_pool hunlock) ?_)
    · exact fun log db _ h => h
    · rintro e log db ⟨new, old, rfl, hn, ho, hf⟩
      exact hf.elim
    · rintro a log db ⟨new, old, rfl, hn, ho, -⟩
      exact (heldPermits_ofActs.quiet hn old).trans ho
    · intro new old pre post hn ho _
      exact (heldPermits_ofActs.quiet hn old).trans ho
  intro _
  apply Pool.bind (fun _ => Unpermitted)
  · refine Pool.act (fun _ _ _ h => ⟨rfl, h⟩) fun _ log db _ h => ?_
    show (heldPermits log).erase c = []
    rw [h, List.erase_cons_head]
  intro _
  apply Pool.bind (fun _ => Unpermitted)
  · exact Pool.act (fun _ _ _ _ => trivial) fun _ _ _ _ h => h
  intro d
  cases d with
  | false => exact Pool.pure fun _ _ _ h => h
  | true =>
      apply Pool.bind (fun _ => Unpermitted)
      · apply Pool.weaken (Pool.attempt (E := fun (_ : ε) => Unpermitted) pushHatsMine_permitted)
        · exact fun _ _ _ h => h
        · exact fun _ _ _ h => h
        · rintro (e | a) log db h <;> exact h
      · exact fun _ => Pool.pure fun _ _ _ h => h

/-- A validation that is over has no permit. -/
def Job.Permitted : Job → Log → Prop
  | .spawned (.unlockValidation ..), log => heldPermits log = []
  | _, _ => True

theorem Job.safe_permits (j : Job) {db : Db} (hinv : Inv pg False db) :
    Safe (protocol pg .any) (fun _ _ => True) (Job.permits j) (fun _ l _ => Job.Permitted j l.log)
      (j.body pg) {}
      db := by
  have hfree : Safe (protocol pg .any) (fun _ _ => True)
      { commit := fun _ _ _ => True, act := fun _ _ => True } (fun _ _ _ => True)
        (j.body pg) {} db :=
    (j.safe hinv).mono (fun _ _ _ _ => trivial) (fun _ _ _ => trivial) fun _ _ _ _ => trivial
  cases j with
  | spawned task =>
      cases task with
      | unlockValidation c u m slug specId =>
          refine begun_safe (G := permitted c)
            (Q := fun log => heldPermits log = []) trivial ?_ hinv
          apply Pool.weaken (hatUnlockValidation_permitted (ε := Empty))
          · rintro log db - rfl
            rfl
          · exact fun _ _ _ h => h
          · exact fun _ _ _ h => h
      | _ => exact hfree
  | _ => exact hfree

end

/-! ## The permits of a connection -/

section

variable {pg : Pg} {db₀ : Db} {s s' : System} {c : Nat}

theorem permits_modify {mem : Mem} {c : Nat} {f : Connection → Connection}
    (hf : ∀ x, (f x).validationPermits = x.validationPermits) (c' : Nat) :
    ((mem.modify c f).conns c').validationPermits = (mem.conns c').validationPermits := by
  by_cases hc : c' = c
  · rw [hc, modify_conns_self, hf]
  · rw [modify_conns_of_ne hc]

/-- Most operations leave the permits alone. -/
theorem perform_permits {a : Act} {mem mem' : Mem} {o : a.Out} (h : a.perform mem = some (mem', o))
    (hacquire : ∀ c, a ≠ .acquirePermit c) (hdrop : ∀ c, a ≠ .dropPermit c) (c' : Nat) :
    (mem'.conns c').validationPermits = (mem.conns c').validationPermits := by
  cases a with
  | acquirePermit c => exact absurd rfl (hacquire c)
  | dropPermit c => exact absurd rfl (hdrop c)
  | setTracked c next =>
      cases h
      exact permits_modify (by simp) c'
  | send c r =>
      cases h
      exact permits_modify (by simp) c'
  | beginUnlock c m slug =>
      simp only [Act.perform] at h
      split at h <;> cases h
      · exact permits_modify (by simp) c'
      · rfl
  | releaseUnlock c m slug =>
      cases h
      exact permits_modify (by simp) c'
  | offer c m hats =>
      simp only [Act.perform] at h
      split at h <;> cases h
      · exact permits_modify (by simp) c'
      · rfl
  | relay c =>
      simp only [Act.perform] at h
      split at h <;> cases h
      exact permits_modify (by simp) c'
  | nextMessage =>
      simp only [Act.perform, Option.ite_none_left_eq_some, Option.map_eq_some_iff] at h
      obtain ⟨-, msg, -, he⟩ := h
      cases he
      rfl
  | lockMap m =>
      simp only [Act.perform] at h
      split at h <;> cases h
      rfl
  | begun task =>
      simp only [Act.perform] at h
      split at h <;> cases h
      rfl
  | _ =>
      cases h
      rfl

theorem permits_unlocksOver (keys : List (Nat × String × String)) (mem : Mem) (c : Nat) :
    ((keys.foldl Mem.unlockOver mem).conns c).validationPermits =
      (mem.conns c).validationPermits := by
  induction keys generalizing mem with
  | nil => rfl
  | cons key keys ih =>
      rw [List.foldl_cons, ih]
      exact permits_modify (by simp) c

theorem permits_permitsBack (cs : List Nat) (mem : Mem) (c : Nat) :
    ((cs.foldl Mem.permitBack mem).conns c).validationPermits =
      cs.count c + (mem.conns c).validationPermits := by
  induction cs generalizing mem with
  | nil => simp
  | cons c' cs ih =>
      rw [List.foldl_cons, ih, List.count_cons, Mem.permitBack, conns_modify]
      by_cases hc : c = c'
      · subst hc
        simp
        omega
      · simp [hc, Ne.symm hc]

/-- The permits of a connection, with the tasks and with the semaphore. -/
def permitLedger (c : Nat) : Ledger Table.Key Table.Row Tag Ask.Ans Act.Out Mem Nat where
  own log := (heldPermits log).count c
  bank mem := (mem.conns c).validationPermits

theorem permitLedger_lawful (c : Nat) : (permitLedger c).Lawful where
  nil := rfl
  skip ev log h := by
    have hquiet := heldPermits_ofActs.quiet (n := [ev]) ?_ log
    · exact congrArg (List.count c) hquiet
    · cases ev with
      | acted a o => exact absurd rfl (h a o)
      | _ => rfl

/-- Only validations have to do with permits. -/
theorem Sane.permits (h : Sane pg s)
    (hp : Sound (protocol pg .any) (fun _ _ => True) Job.permits
      (fun j _ l _ => Job.Permitted j l.log) s)
    {t : ServerTask} (ht : t ∈ s.tasks) {next : Unit → Server Unit}
    (hprog : t.prog = .act (.dropPermit c) next) : heldPermits t.loc.log = [c] := by
  have hact := Sound.act h ht hprog
  have hperm := Sound.act hp ht hprog
  cases hj : t.job with
  | spawned task =>
      rw [hj] at hact hperm
      cases task with
      | unlockValidation c' u m slug specId =>
          obtain ⟨rfl, hheld⟩ := hperm
          exact hheld
      | _ => exact hact.elim
  | relay c' =>
      rw [hj] at hact
      cases hact.2
  | _ =>
      rw [hj] at hact
      exact hact.elim

theorem RunFrom.permits_kept (hinv : Inv pg False db₀) (h : RunFrom pg db₀ s) :
    Sound (protocol pg .any) (fun _ _ => True) Job.permits
      (fun j _ l _ => Job.Permitted j l.log) s :=
  Reach.sound (fun j _ hinv => j.safe_permits hinv)
    (show (protocol pg .any).Inv (System.on db₀).db from hinv) rfl h

theorem RunFrom.permits (hinv : Inv pg False db₀) (h : RunFrom pg db₀ s) :
    (permitLedger c).total s = maxConcurrentHatValidations := by
  induction h with
  | init => rfl
  | @step s s' mv hs hadm hm ih =>
      have hsane : Sane pg s := RunFrom.sane hs hinv
      have hperms := RunFrom.permits_kept hinv hs
      rw [(permitLedger_lawful c).move ?_ ?_ hm, ih]
      · intro t ht a next mem' o hp hperf
        show (heldPermits (.acted a o :: t.loc.log)).count c + (mem'.conns c).validationPermits =
          (heldPermits t.loc.log).count c + (s.mem.conns c).validationPermits
        have hsame : (∀ c, a ≠ .acquirePermit c) → (∀ c, a ≠ .dropPermit c) →
            (heldPermits (.acted a o :: t.loc.log)).count c + (mem'.conns c).validationPermits =
              (heldPermits t.loc.log).count c + (s.mem.conns c).validationPermits := by
          intro hacquire hdrop
          have hheld : heldPermits (.acted a o :: t.loc.log) = heldPermits t.loc.log := by
            cases a <;> simp_all [heldPermits]
          rw [hheld, perform_permits hperf hacquire hdrop c]
        cases a with
        | acquirePermit c' =>
            simp only [shared, Act.perform] at hperf
            split at hperf
            case h_1 => cases hperf
            case h_2 n hn =>
              obtain ⟨rfl, -⟩ := Prod.mk.inj (Option.some.inj hperf)
              rw [conns_modify]
              by_cases hc : c = c'
              · subst hc
                simp only [heldPermits, List.count_cons_self, if_true, hn]
                omega
              · simp [heldPermits, hc, Ne.symm hc]
        | dropPermit c' =>
            simp only [shared, Act.perform, Option.some.injEq, Prod.mk.injEq] at hperf
            obtain ⟨rfl, -⟩ := hperf
            have hheld := hsane.permits hperms ht hp
            rw [conns_modify]
            simp only [heldPermits, hheld]
            by_cases hc : c = c'
            · subst hc
              simp
              omega
            · simp [hc, Ne.symm hc]
        | _ => exact hsame (by simp) (by simp)
      · intro t ht
        show ((shared.abandon t.loc.log s.mem).conns c).validationPermits =
          (heldPermits t.loc.log).count c + (s.mem.conns c).validationPermits
        simp only [shared]
        rw [permits_permitsBack, permits_unlocksOver]

/-! ## Bounds -/

/-- A task has permits of the connection that it validates for, and no others. -/
theorem RunFrom.permit_of (hinv : Inv pg False db₀) (h : RunFrom pg db₀ s) {t : ServerTask}
    (ht : t ∈ s.tasks) (hc : c ∈ heldPermits t.loc.log) :
    ∃ u m slug specId, t.job = .spawned (.unlockValidation c u m slug specId) := by
  have hkept := (RunFrom.permits_kept hinv h).kept t ht
  have hsane : Sane pg s := RunFrom.sane h hinv
  -- the permit was acquired
  have hacquired : ∀ log : Log, c ∈ heldPermits log → ∃ newer older,
      log = newer ++ .acted (.acquirePermit c) () :: older := by
    intro log
    induction log with
    | nil => exact fun hin => absurd hin List.not_mem_nil
    | cons ev log ih =>
        have hold : c ∈ heldPermits log → ∃ newer older,
            ev :: log = newer ++ .acted (.acquirePermit c) () :: older := by
          intro hin
          obtain ⟨newer, older, he⟩ := ih hin
          exact ⟨ev :: newer, older, congrArg (ev :: ·) he⟩
        intro hin
        cases ev with
        | acted a o =>
            cases a with
            | acquirePermit c' =>
                rcases List.mem_cons.1 hin with rfl | hin
                · exact ⟨[], log, rfl⟩
                · exact hold hin
            | dropPermit c' => exact hold (List.mem_of_mem_erase hin)
            | _ => exact hold hin
        | _ => exact hold hin
  obtain ⟨newer, older, hlog⟩ := hacquired _ hc
  have hact := (hsane.kept t ht).act newer _ _ older hlog
  have hperm := hkept.act newer _ _ older hlog
  cases hj : t.job with
  | spawned task =>
      rw [hj] at hact hperm
      cases task with
      | unlockValidation c' u m slug specId =>
          obtain ⟨rfl, -⟩ := hperm
          exact ⟨u, m, slug, specId, rfl⟩
      | _ => exact hact.elim
  | relay c' =>
      rw [hj] at hact
      cases hact.2
  | _ =>
      rw [hj] at hact
      exact hact.elim

theorem perform_entries {a : Act} {mem mem' : Mem} {o : a.Out} (h : a.perform mem = some (mem', o))
    (hle : (mem.conns c).pending.owed.card ≤ maxPendingHatUnlocks) :
    (mem'.conns c).pending.owed.card ≤ maxPendingHatUnlocks := by
  cases a with
  | beginUnlock c' m slug =>
      simp only [Act.perform] at h
      split at h
      case h_1 p hp =>
        cases h
        rw [conns_modify]
        split
        case isTrue hc =>
          subst hc
          obtain ⟨hlt, -, hcard⟩ := begin_card hp
          exact hcard ▸ hlt
        case isFalse => exact hle
      case h_2 =>
        cases h
        exact hle
  | releaseUnlock c' m slug =>
      cases h
      rw [conns_modify]
      split
      case isTrue hc =>
        subst hc
        exact (remove_card_le _ _).trans hle
      case isFalse => exact hle
  | _ =>
      rw [perform_pending h (by simp) (by simp)]
      exact hle

theorem RunFrom.entries (h : RunFrom pg db₀ s) :
    (s.mem.conns c).pending.owed.card ≤ maxPendingHatUnlocks := by
  induction h with
  | init => simp [System.on]
  | step hs hadm hm ih =>
      cases Sys.move_cases hm with
      | started j hdb hmem htasks => exact hmem ▸ ih
      | dropped i t ht hdb hmem htasks =>
          rw [hmem]
          refine (Finset.card_le_card fun k hk => ?_).trans ih
          exact (mem_abandon (k := (c, k)).1 hk).1
      | ran i ch t t' ht hjob htasks hadv =>
          rcases advance_acts hadv with ⟨a, o, next, hp, hperf, -⟩ | ⟨hmem, -⟩
          · exact perform_entries hperf ih
          · exact hmem ▸ ih

/-- The validations of a connection that are outstanding, by their entries. -/
def outstanding (c : Nat) (s : System) : List (Nat × String × String) :=
  (unlockOwners.all s).filter fun k => k.1 = c

/-- What bounds the validations of a connection. -/
structure ValidationsBounded (c : Nat) (s : System) : Prop where
  permits : (s.mem.conns c).validationPermits +
    (s.tasks.map fun t => (heldPermits t.loc.log).count c).sum =
    maxConcurrentHatValidations
  commits : ∀ t ∈ s.tasks, ∀ u m slug specId, t.job =
    .spawned (.unlockValidation c u m slug specId) →
    ∀ newer pre post older, t.loc.log = newer ++ .committed pre post :: older →
      heldPermits older = [c]
  free : (∀ t ∈ s.tasks, t.job.validates c = true → t.prog.result = some ()) →
    (s.mem.conns c).validationPermits = maxConcurrentHatValidations
  entries : (outstanding c s).length ≤ maxPendingHatUnlocks

/-- In every run, with tasks dropped or panicking anywhere: at most two validations of a connection
are between taking and giving back a permit, each commits in between, no permit is lost, and no more
than sixteen validations are outstanding. -/
theorem validations_bounded (hinv : Inv pg False db₀) (h : RunFrom pg db₀ s) (c : Nat) :
    ValidationsBounded c s where
  permits := by
    have htotal : (s.tasks.map fun t => (heldPermits t.loc.log).count c).sum +
        (s.mem.conns c).validationPermits =
        maxConcurrentHatValidations := RunFrom.permits hinv h
    omega
  commits t ht u m slug specId hj newer pre post older hlog := by
    have hkept := (RunFrom.permits_kept hinv h).kept t ht
    rw [hj] at hkept
    exact hkept.commit newer pre post older hlog
  free hover := by
    have htotal : (s.tasks.map fun t => (heldPermits t.loc.log).count c).sum +
        (s.mem.conns c).validationPermits =
        maxConcurrentHatValidations := RunFrom.permits hinv h
    have hsum : (s.tasks.map fun t => (heldPermits t.loc.log).count c).sum = 0 := by
      refine List.sum_eq_zero fun n hn => ?_
      obtain ⟨t, ht, rfl⟩ := List.mem_map.1 hn
      refine List.count_eq_zero.2 fun hin => ?_
      obtain ⟨u, m, slug, specId, hj⟩ := RunFrom.permit_of hinv h ht hin
      have hret := hover t ht (by simp [hj, Job.validates, validates])
      have hended : Job.Permitted t.job t.loc.log :=
        (RunFrom.permits_kept hinv h).ended ht (Prog.result_eq_some.1 hret)
      rw [hj] at hended
      rw [show heldPermits t.loc.log = [] from hended] at hin
      cases hin
    omega
  entries := by
    have hsingle : unlockOwners.Single s := RunFrom.single hinv h
    have hnodup : ((outstanding c s).map Prod.snd).Nodup := by
      refine List.Nodup.map_on (fun x hx y hy he => ?_) (hsingle.nodup.filter _)
      have hx' : x.1 = c := by simpa using (List.mem_filter.1 hx).2
      have hy' : y.1 = c := by simpa using (List.mem_filter.1 hy).2
      exact Prod.ext (hx'.trans hy'.symm) he
    have hsub : ∀ k ∈ (outstanding c s).map Prod.snd, k ∈ (s.mem.conns c).pending.owed := by
      intro k hk
      obtain ⟨x, hx, rfl⟩ := List.mem_map.1 hk
      obtain ⟨hin, hc⟩ := List.mem_filter.1 hx
      obtain rfl : x.1 = c := by simpa using hc
      exact hsingle.marked x hin
    calc (outstanding c s).length
      _ = ((outstanding c s).map Prod.snd).toFinset.card := by
        rw [List.toFinset_card_of_nodup hnodup, List.length_map]
      _ ≤ (s.mem.conns c).pending.owed.card :=
        Finset.card_le_card fun k hk => hsub k (List.mem_toFinset.1 hk)
      _ ≤ maxPendingHatUnlocks := h.entries

end

/-- A validation of the author's connection has its permit. -/
theorem validations_bounded_author : ∃ s, (s.mem.conns 1).validationPermits = 1 ∧
    ValidationsBounded 1 s := by
  obtain ⟨s, hrun, hone⟩ : ∃ s, RunFrom Sample.pg Store.empty s ∧
      (s.mem.conns 1).validationPermits = 1 :=
    Reach.scripted
      (Sample.mapBound ++
        [.start (.connection 1 "Author" [.reportHatUnlock Sample.mapUid "Hat-1" 7]),
         .go 4 60 (Sample.answers 7 none),
         .start (.spawned (.unlockValidation 1 1 Sample.mapUid "Hat-1" 7)),
           .go 5 4 (Sample.answers 7 none)])
      (by decide +kernel)
  exact ⟨s, hone, validations_bounded (inv_empty Sample.pg False) hrun 1⟩

end Server2

end Dd2Server
