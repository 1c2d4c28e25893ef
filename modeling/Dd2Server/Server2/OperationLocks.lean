import Dd2Server.ReadCommitted.Ledger
import Dd2Server.Server2.LockDiscipline
import Dd2Server.Server2.PendingRuns

/-!
# One operation lock at a time

A task that holds the operation lock of a map only tells the players there and frees the lock: it
takes no second lock, and waits for nothing in the shared memory.  So nobody waits for an operation
lock in a circle, and every lock that is taken is with one task.

The shared memory is that of the model.  A comment bind also writes down under the lock when its map
is due again, in the table of the debounce; that takes a mutex for a moment and no operation lock.
-/

namespace Dd2Server

namespace Server2

open ReadCommitted

/-! ## The promise -/

/-- With an operation lock a task tells the players of its map or frees the lock, and nothing
else. -/
def hushed : Promise Table.Key Table.Row Tag Ask.Ans Act.Out where
  commit _ _ _ := True
  act log
    | .unlockMap m => heldMaps log = [m]
    | .broadcastToMap m _ => heldMaps log = [m]
    | _ => heldMaps log = []

/-- No operation lock is held. -/
def Unlocked : Known Table.Key Table.Row Tag Ask.Ans Act.Out := fun log _ => heldMaps log = []

section

variable {pg : Pg} {w : Scope} {C : Tag → Db → Prop} {ε α : Type} {u : Uuid} {c : Nat}
  {name m : String} {tracked next : Option String}

/-- A query that starts and ends without a lock. -/
abbrev Hushed (pg : Pg) (w : Scope) (C : Tag → Db → Prop) (x : Query ε α) : Prop :=
  Pool (setting pg w C hushed) (fun _ => Unlocked) Unlocked x (fun _ => Unlocked)

theorem Hushed.pure (a : α) : Hushed pg w C (pure a : Query ε α) := Pool.pure fun _ _ _ h => h

theorem Hushed.bind {β : Type} {x : Query ε β} {f : β → Query ε α} (hx : Hushed pg w C x)
    (hf : ∀ b, Hushed pg w C (f b)) : Hushed pg w C (x >>= f) :=
  Pool.bind (fun _ => Unlocked) hx hf

theorem Hushed.attempt {ε' : Type} {x : Query ε' α} (hx : Hushed pg w C x) :
    Hushed pg w C (attempt x : Query ε (Except ε' α)) := by
  apply Pool.weaken (Pool.attempt hx)
  · exact fun log db _ h => h
  · exact fun e log db h => h
  · rintro (e | a) log db h <;> exact h

theorem Hushed.adapt {ε' : Type} {g : ε' → ε} {x : Query ε' α} (hx : Hushed pg w C x) :
    Hushed pg w C (x.adapt g : Query ε α) := Pool.adapt hx

theorem hushed_askQ {q : Ask} : Hushed pg w C (askQ q : Query ε q.Ans) :=
  askQ_pool fun _ _ _ h => h

theorem hushed_select {tag : Tag} {f : Db → α} : Hushed pg w C (sql (selectAs tag f)) :=
  plain_pool (select_pool (fun _ _ h => h) fun _ _ _ _ _ _ h => h)

theorem hushed_poolRead {tag : Tag} {f : Db → α} : Hushed pg w C (poolRead tag f) :=
  Pool.readCommitted (fun _ _ _ h => h) fun _ _ _ _ _ _ h => h

/-- An operation that has nothing to do with operation locks. -/
theorem hushed_actQ {a : Act} (ha : Act.isLocking a = false)
    (hcast : ∀ m hats, a ≠ .broadcastToMap m hats) :
    Hushed pg w C (actQ a : Query ε a.Out) := by
  apply Pool.act
  · intro log db _ h
    cases a with
    | unlockMap m => cases ha
    | broadcastToMap m hats => exact absurd rfl (hcast m hats)
    | _ => exact h
  · intro o log db _ h
    cases a with
    | unlockMap m => cases ha
    | lockMap m => cases ha
    | _ => exact h

/-- What an operation on a map promises is enough. -/
theorem hushed_operation {R : Db → Db → Prop} {T : List HatOnMapPlayer → Db → Prop}
    {mute : Prop} {x : Query ε α}
      (h : Pool (setting pg w C (operation m R T mute)) (fun _ log _ => Complete m T log)
        (fun log _ => log = []) x (fun _ log _ => Complete m T log)) : Hushed pg w C x := by
  have hend : ∀ {new old : Log}, Complete m T new → heldMaps old = [] →
      heldMaps (new ++ old) = [] := by
    intro new old hn hold
    rw [heldMaps_ofActs.append]
    rcases hn with hn | hn | ⟨hats, db, -, hn⟩ <;> rw [hn]
    · exact hold
    · show (m :: heldMaps old).erase m = []
      rw [List.erase_cons_head, hold]
    · show (m :: heldMaps old).erase m = []
      rw [List.erase_cons_head, hold]
  have hlocked : ∀ {new old : Log}, acts new = [.acted (.lockMap m) ()] → heldMaps old = [] →
      heldMaps (new ++ old) = [m] := by
    intro new old hn hold
    rw [heldMaps_ofActs.append, hn]
    exact congrArg (m :: ·) hold
  apply ReadCommitted.Pool.after h
  · exact fun _ _ _ _ _ _ _ => trivial
  · intro new old a hk hold ha
    cases a with
    | lockMap m' =>
        obtain ⟨-, hacts⟩ := ha
        exact (heldMaps_ofActs.quiet hacts old).trans hold
    | broadcastToMap m' hats =>
        obtain ⟨rfl, hacts, -⟩ := ha
        exact hlocked hacts hold
    | unlockMap m' =>
        obtain ⟨rfl, -, hacts | ⟨hats, hacts⟩⟩ := ha
        · exact hlocked hacts hold
        · show heldMaps (new ++ old) = [m']
          rw [heldMaps_ofActs.append, hacts]
          exact congrArg (m' :: ·) hold
    | _ => exact ha.elim
  · exact fun e new old db _ hold he => hend he hold
  · exact fun a new old db _ hold hb => hend hb hold

/-- A query under the lock of a map. -/
theorem hushed_underMapLock {x : Query ε α}
    (hx : Pool (setting pg w C hushed) (fun _ log _ => heldMaps log = [m])
      (fun log _ => heldMaps log = [m]) x (fun _ log _ => heldMaps log = [m])) :
        Hushed pg w C (underMapLock m x) := by
  have hfree : ∀ {log : Log}, heldMaps log = [m] →
      heldMaps (.acted (.unlockMap m) () :: log) = [] := by
    intro log h
    show (heldMaps log).erase m = []
    rw [h, List.erase_cons_head]
  apply underMapLock_pool _ _ _ hx
  · exact fun log db h => ⟨h, congrArg (m :: ·) h⟩
  · exact fun e log db h => ⟨h, hfree h⟩
  · exact fun a log db h => ⟨h, hfree h⟩

theorem hushed_broadcast {hats : List HatOnMapPlayer}
    {E : ε → Known Table.Key Table.Row Tag Ask.Ans Act.Out} :
    Pool (setting pg w C hushed) E (fun log _ => heldMaps log = [m])
      (actQ (Act.broadcastToMap m hats) : Query ε Unit) (fun _ log _ => heldMaps log = [m]) :=
  Pool.act (fun _ _ _ h => h) fun _ _ _ _ h => h

/-! ## The read loop -/

theorem hushed_setWayfinderMap :
    Hushed pg w C (setWayfinderMap pg c u name tracked next : Query ε _) := by
  have hleave : Hushed pg w C (broadcastLeave u name tracked) := by
    rw [broadcastLeave]
    split
    · exact .pure _
    · exact hushed_underMapLock hushed_broadcast
  have hjoin : Hushed pg w C (broadcastJoin pg u next) := by
    rw [broadcastJoin]
    split
    · exact .pure _
    · apply hushed_underMapLock
      apply Pool.bind (fun _ log _ => heldMaps log = [_])
      · exact Pool.readCommitted (fun _ _ _ h => h) fun _ _ _ _ _ _ h => h
      · intro entry
        cases entry with
        | none => exact Pool.pure fun _ _ _ h => h
        | some entry => exact hushed_broadcast
  have hboth : Hushed pg w C (broadcastHatContextTransition pg u name tracked next) := by
    rw [broadcastHatContextTransition]
    split
    · exact .pure _
    · exact hleave.bind fun _ => hjoin
  rw [setWayfinderMap]
  split
  · exact .pure _
  · exact (hushed_actQ rfl (by simp)).bind fun _ => hboth.attempt.bind fun _ => .pure _

theorem hushed_adoptWayfinderMap :
    Hushed pg w C (adoptWayfinderMap pg c u name tracked m : Query ε _) := by
  have hobserve : Hushed pg w C (observeMapForCommentBind m : Query ε Unit) := by
    rw [observeMapForCommentBind]
    split
    · exact .pure _
    · refine Hushed.bind hushed_askQ fun admitted => ?_
      split
      · exact hushed_actQ rfl (by simp)
      · exact .pure _
  rw [adoptWayfinderMap]
  split
  · exact .pure _
  · exact hobserve.bind fun _ => hushed_setWayfinderMap

theorem hushed_adoptOrTracked :
    Hushed pg w C (adoptWayfinderMapOrTracked pg c u name tracked m : Query ε _) := by
  refine Hushed.bind hushed_adoptWayfinderMap fun r => ?_
  cases r.2 <;> exact .pure _

theorem hushed_reportMinigameMap {specId : Int} :
    Hushed pg w C (reportMinigameMap pg u m specId) := by
  rw [reportMinigameMap]
  split
  · exact .pure _
  · refine Hushed.bind (Hushed.adapt (Hushed.bind hushed_select fun _ => .pure _)) fun asks => ?_
    split
    · exact hushed_actQ rfl (by simp)
    · exact hushed_operation bind_operation

theorem hushed_reportHatUnlock {slug : String} {specId : Int} :
    Hushed pg w C (reportHatUnlock pg c u m slug specId) := by
  rw [reportHatUnlock]
  split
  · exact .pure _
  · refine Hushed.bind (Hushed.adapt hushed_select) fun bound => ?_
    cases bound with
    | none => exact .pure _
    | some _ =>
        refine Hushed.bind (hushed_actQ rfl (by simp)) fun owed => ?_
        split
        · exact hushed_actQ rfl (by simp)
        · exact .pure _

theorem hushed_reportHatEquip {slug : String} :
    Hushed pg w C (reportHatEquip pg c u tracked m slug) := by
  rw [reportHatEquip]
  split
  · exact .pure _
  · refine Hushed.bind hushed_askQ fun verdict => ?_
    cases verdict with
    | allowed => exact hushed_operation equip_operation
    | perUser => exact hushed_actQ rfl (by simp)
    | global => exact .pure _

theorem hushed_sendHatsMine : Hushed pg w C (sendHatsMine pg c u tracked m) := by
  have hmine : Hushed pg w C (Hats.getHatsMine pg m u) := by
    refine Hushed.bind hushed_select fun bound => ?_
    cases bound with
    | none => exact .pure _
    | some _ => exact hushed_poolRead.bind fun _ => hushed_poolRead.bind fun _ => .pure _
  rw [sendHatsMine]
  split
  · exact .pure _
  · refine Hushed.bind (hushed_actQ rfl (by simp)) fun pending => ?_
    split
    · exact .pure _
    · refine Hushed.bind hmine.adapt fun mine => ?_
      cases mine with
      | none => exact .pure _
      | some _ => exact hushed_actQ rfl (by simp)

theorem hushed_sendHatsOnMap : Hushed pg w C (sendHatsOnMap pg c tracked m) := by
  rw [sendHatsOnMap]
  split
  · exact .pure _
  · exact Hushed.bind (Hushed.adapt (hushed_askQ.bind fun _ => hushed_poolRead)) fun _ =>
      hushed_actQ rfl (by simp)

theorem hushed_handle {st : ReadLoop} (r : Request) :
    Hushed pg w C (handle pg c u name st r : Query ε ReadLoop) := by
  cases r with
  | reportContext mapUid =>
      refine Hushed.bind hushed_askQ fun stored => ?_
      cases stored with
      | error e => exact .pure _
      | ok _ =>
          dsimp only
          split
          · refine Hushed.bind ?_ fun _ => .pure _
            rw [applyContextMapChange]
            split
            · exact .pure _
            · exact hushed_setWayfinderMap
          · exact .pure _
  | reportMinigameMap uid specId =>
      exact hushed_reportMinigameMap.attempt.bind fun _ => hushed_adoptWayfinderMap.bind
        fun _ => .pure _
  | reportHatUnlock uid slug specId => exact hushed_reportHatUnlock.attempt.bind fun _ => .pure _
  | reportHatEquip uid slug => exact hushed_reportHatEquip.attempt.bind fun _ => .pure _
  | getHatsMine uid =>
      exact hushed_adoptOrTracked.bind fun _ => hushed_sendHatsMine.attempt.bind fun _ => .pure _
  | getHatsOnMap uid =>
      exact hushed_adoptOrTracked.bind fun _ => hushed_sendHatsOnMap.attempt.bind fun _ => .pure _

theorem hushed_readLoop {st : ReadLoop} (requests : List Request) :
    Hushed pg w C (readLoop pg c u name st requests : Query ε Unit) := by
  induction requests generalizing st with
  | nil => exact .pure _
  | cons r requests ih =>
      exact (hushed_actQ rfl (by simp)).bind fun _ => (hushed_handle r).bind fun _ => ih

/-! ## Tasks -/

/-- The other jobs take no operation lock, by what they promise besides. -/
def Job.hush : Job → Promise Table.Key Table.Row Tag Ask.Ans Act.Out
  | .connection _ _ _ => hushed
  | .spawned (.deferredBind _ _ _) => hushed
  | .spawned (.commentBind _) => hushed
  | _ => { commit := fun _ _ _ => True, act := fun _ _ => True }

theorem Job.safe_hush (j : Job) {db : Db} (hinv : Inv pg False db) :
    Safe (protocol pg .any) (fun _ _ => True) (Job.hush j) (fun _ _ _ => True)
      (j.body pg) {} db := by
  have hfree : Safe (protocol pg .any) (fun _ _ => True)
      { commit := fun _ _ _ => True, act := fun _ _ => True } (fun _ _ _ => True)
        (j.body pg) {} db :=
    (j.safe hinv).mono (fun _ _ _ _ => trivial) (fun _ _ _ => trivial) fun _ _ _ _ => trivial
  cases j with
  | connection u name requests =>
      have hconn : Hushed pg .any (fun _ _ => True)
          (Server2.connection pg u name requests : Query Empty Unit) :=
        (hushed_actQ rfl (by simp)).bind fun _ => hushed_readLoop requests
      refine detached_safe (Pool.weaken hconn ?_ (fun _ _ _ h => h) fun _ _ _ h => h)
        (Q := fun _ => True) (fun _ _ _ _ => trivial) (fun _ _ _ _ => trivial) hinv
      rintro log db - rfl
      rfl
  | spawned task =>
      have hbegun : ∀ {task : Spawned}, Hushed pg .any (fun _ _ => True)
          (Server2.spawned pg task : Query Empty Unit) →
          Safe (protocol pg .any) (fun _ _ => True) hushed (fun _ _ _ => True)
            (Job.body pg (.spawned task)) {} db := by
        intro task hx
        refine begun_safe (Q := fun _ => True) rfl (Pool.weaken hx ?_ (fun _ _ _ _ => trivial)
          fun _ _ _ _ => trivial) hinv
        rintro log db - rfl
        rfl
      cases task with
      | deferredBind u m specId =>
          exact hbegun ((hushed_operation bind_operation).attempt.bind fun _ => .pure _)
      | commentBind m =>
          exact hbegun ((hushed_operation commentBind_operation).bind fun _ => .pure _)
      | unlockValidation c u m slug specId => exact hfree
  | _ => exact hfree

/-! ## Every run -/

theorem RunFrom.hushed {db₀ : Db} {s : System} (h : RunFrom pg db₀ s)
    (hinv : Inv pg False db₀) :
    Sound (protocol pg .any) (fun _ _ => True) Job.hush (fun _ _ _ _ => True) s :=
  Reach.sound (fun j _ hinv => j.safe_hush hinv)
    (show (protocol pg .any).Inv (System.on db₀).db from hinv) rfl h

/-- The lock of no map, or of one. -/
theorem Kept.one_map {log : Log} (h : Kept hushed log) :
    heldMaps log = [] ∨ ∃ m, heldMaps log = [m] := by
  induction log with
  | nil => exact .inl rfl
  | cons ev log ih =>
      have hold := ih h.tail
      cases ev with
      | acted a o =>
          have hact := h.act [] a o log rfl
          cases a with
          | lockMap m => exact .inr ⟨m, congrArg (m :: ·) hact⟩
          | unlockMap m =>
              refine .inl ?_
              show (heldMaps log).erase m = []
              rw [show heldMaps log = [m] from hact, List.erase_cons_head]
          | _ => exact hold
      | _ => exact hold

/-- A task that is not held to it has no operation lock. -/
theorem Sane.unlocked {s : System} (h : Sane pg s) {t : ServerTask} (ht : t ∈ s.tasks)
    (hjob : Job.hush t.job ≠ hushed) : heldMaps t.loc.log = [] := by
  apply heldMaps_eq_nil
  intro m o hmem
  obtain ⟨newer, older, hlog⟩ := List.append_of_mem hmem
  have hact := (h.kept t ht).act newer _ o older hlog
  cases hj : t.job with
  | connection u name requests => exact hjob (by rw [hj]; rfl)
  | spawned task =>
      rw [hj] at hact
      cases task with
      | deferredBind u m specId => exact hjob (by rw [hj]; rfl)
      | commentBind m => exact hjob (by rw [hj]; rfl)
      | unlockValidation c u m' slug specId => exact hact
  | relay c =>
      rw [hj] at hact
      cases hact.2
  | _ =>
      rw [hj] at hact
      exact hact

/-- How often a map is locked, and how often its lock is with a task. -/
def lockLedger (m : String) : Ledger Table.Key Table.Row Tag Ask.Ans Act.Out Mem Int where
  own log := (heldMaps log).count m
  bank mem := -mem.mapLocks.count m

theorem lockLedger_lawful (m : String) : (lockLedger m).Lawful where
  nil := rfl
  skip ev log h := by
    have hquiet := heldMaps_ofActs.quiet (n := [ev]) ?_ log
    · exact congrArg (fun l : List String => (l.count m : Int)) hquiet
    · cases ev with
      | acted a o => exact absurd rfl (h a o)
      | _ => rfl

/-- The operation lock of a map is taken exactly when a task has it. -/
theorem RunFrom.locks_owned {db₀ : Db} {s : System} (h : RunFrom pg db₀ s)
    (hinv : Inv pg False db₀) (m : String) :
    mapOwners.Single s ∧ (lockLedger m).total s = 0 := by
  have hs₀ : mapOwners.Single (System.on db₀) :=
    ⟨by simp [Owners.all, System.on, mapOwners], by simp [Owners.all, System.on, mapOwners]⟩
  induction h with
  | init => exact ⟨hs₀, rfl⟩
  | @step s s' mv hs hadm hm ih =>
      obtain ⟨hsingle, htotal⟩ := ih
      have hsane : Sane pg s := RunFrom.sane hs hinv
      refine ⟨hsingle.move mapOwners_lawful (fun t ht a next hp => hsane.orderly ht hp) hm, ?_⟩
      have hmarked : ∀ t ∈ s.tasks, ∀ k ∈ heldMaps t.loc.log, k ∈ s.mem.mapLocks :=
        fun t ht k hk =>
        hsingle.marked k (List.mem_append_left _ (List.mem_flatMap.2 ⟨t, ht, hk⟩))
      rw [(lockLedger_lawful m).move ?_ ?_ hm, htotal]
      · intro t ht a next mem' o hp hperf
        have hact := hsane.orderly ht hp
        have hsame : (∀ m, a ≠ .lockMap m) → (∀ m, a ≠ .unlockMap m) →
            ((heldMaps (.acted a o :: t.loc.log)).count m : Int) + -mem'.mapLocks.count m =
              (heldMaps t.loc.log).count m + -s.mem.mapLocks.count m := by
          intro hlock hunlock
          have hheld : heldMaps (.acted a o :: t.loc.log) = heldMaps t.loc.log := by
            cases a <;> simp_all [heldMaps]
          rw [hheld, perform_mapLocks hperf hlock hunlock]
        show ((heldMaps (.acted a o :: t.loc.log)).count m : Int) + -mem'.mapLocks.count m =
          (heldMaps t.loc.log).count m + -s.mem.mapLocks.count m
        cases a with
        | lockMap m' =>
            simp only [shared, Act.perform, Option.ite_none_left_eq_some, Option.some.injEq,
              Prod.mk.injEq] at hperf
            obtain ⟨-, rfl, -⟩ := hperf
            simp only [heldMaps, List.count_cons]
            omega
        | unlockMap m' =>
            simp only [shared, Act.perform, Option.some.injEq, Prod.mk.injEq] at hperf
            obtain ⟨rfl, -⟩ := hperf
            have hheld : m' ∈ heldMaps t.loc.log := hact
            have h₁ := List.count_pos_iff.2 hheld
            have h₂ := List.count_pos_iff.2 (hmarked t ht m' hheld)
            simp only [heldMaps, List.count_erase, beq_iff_eq]
            split
            case isTrue he =>
              subst he
              omega
            case isFalse => omega
        | _ => exact hsame (by simp) (by simp)
      · intro t ht
        obtain ⟨conns, he, -⟩ := abandon_eq t.loc.log s.mem
        have hnodup : (heldMaps t.loc.log).Nodup :=
          (List.nodup_flatMap.1 hsingle.nodup.of_append_left).1 t ht
        have hle := (List.subperm_of_subset hnodup (hmarked t ht)).count_le m
        show -((shared.abandon t.loc.log s.mem).mapLocks.count m : Int) =
          (heldMaps t.loc.log).count m + -s.mem.mapLocks.count m
        rw [he]
        show -((s.mem.mapLocks.diff (heldMaps t.loc.log)).count m : Int) = _
        rw [List.count_diff]
        omega

/-- What the operation locks of a server process are good for. -/
structure LocksApart (s : System) : Prop where
  owned : ∀ m, m ∈ s.mem.mapLocks ↔ ∃ t ∈ s.tasks, m ∈ heldMaps t.loc.log
  apart : ∀ (i j : Nat) (t u : ServerTask) m, s.tasks[i]? = some t → s.tasks[j]? = some u →
    m ∈ heldMaps t.loc.log → m ∈ heldMaps u.loc.log → i = j
  one : ∀ t ∈ s.tasks, heldMaps t.loc.log = [] ∨ ∃ m, heldMaps t.loc.log = [m]
  onward : ∀ t ∈ s.tasks, heldMaps t.loc.log ≠ [] → ∀ a next, t.prog = .act a next →
    ∃ m, heldMaps t.loc.log = [m] ∧ (a = .unlockMap m ∨ ∃ hats, a = .broadcastToMap m hats)

/-- In every run, with tasks dropped anywhere, a map is locked exactly when one task has its lock;
that task has no other, and the next thing it does in the shared memory of the model is to tell the
players there or to free the lock, neither of which waits. -/
theorem operation_locks {db₀ : Db} {s : System} (hinv : Inv pg False db₀)
    (h : RunFrom pg db₀ s) : LocksApart s where
  owned m := by
    obtain ⟨hsingle, htotal⟩ := h.locks_owned hinv m
    refine ⟨fun hm => ?_, ?_⟩
    · by_contra hno
      have hsum : (s.tasks.map fun t => ((heldMaps t.loc.log).count m : Int)).sum = 0 := by
        refine List.sum_eq_zero fun x hx => ?_
        obtain ⟨t, ht, rfl⟩ := List.mem_map.1 hx
        have hcount := List.count_eq_zero.2 fun hm => hno ⟨t, ht, hm⟩
        rw [hcount]
        rfl
      have htotal' : (s.tasks.map fun t => ((heldMaps t.loc.log).count m : Int)).sum +
          -(s.mem.mapLocks.count m : Int) = 0 := htotal
      have hpos := List.count_pos_iff.2 hm
      omega
    · rintro ⟨t, ht, hm⟩
      exact hsingle.marked m (List.mem_append_left _ (List.mem_flatMap.2 ⟨t, ht, hm⟩))
  apart i j t u m hi hj hm hm' := (h.locks_owned hinv m).1.apart hi hj hm hm'
  one t ht := by
    have hkept := (h.hushed hinv).kept t ht
    by_cases hjob : Job.hush t.job = hushed
    · exact Kept.one_map (hjob ▸ hkept)
    · exact .inl ((h.sane hinv).unlocked ht hjob)
  onward t ht hheld a next hp := by
    have hact := Sound.act (h.hushed hinv) ht hp
    have hjob : Job.hush t.job = hushed := by
      by_contra hno
      exact hheld ((h.sane hinv).unlocked ht hno)
    rw [hjob] at hact
    cases a with
    | unlockMap m => exact ⟨m, hact, .inl rfl⟩
    | broadcastToMap m hats => exact ⟨m, hact, .inr ⟨hats, rfl⟩⟩
    | _ => exact absurd hact hheld

end

/-- A comment bind waits for Nadeo with the operation lock of its map. -/
theorem operation_locks_comment : ∃ s, s.mem.mapLocks = [Sample.mapUid] ∧ LocksApart s := by
  obtain ⟨s, hrun, hlocked⟩ : ∃ s, RunFrom Sample.pg Store.empty s ∧
      s.mem.mapLocks = [Sample.mapUid] :=
    Reach.scripted
      [.start (.connection 1 "Player" [.getHatsMine Sample.mapUid]),
       .go 0 40 (fun
         | .admitCommentBind _ => true
         | q => Sample.answers 7 none q),
       .start (.spawned (.commentBind Sample.mapUid)), .go 1 2 (Sample.answers 7 none)]
      (by decide +kernel)
  exact ⟨s, hlocked, operation_locks (inv_empty Sample.pg False) hrun⟩

end Server2

end Dd2Server
