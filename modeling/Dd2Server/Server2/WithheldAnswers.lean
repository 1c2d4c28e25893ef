import Dd2Server.Server2.ConnectionUsers

/-!
# Answers that were withheld

While validations of a map are pending, a connection does not answer 213.  The release that drains
the map does: its validation goes on to push `HatsMine` of the map to the user who asked
(`withheld_answered`).
-/

namespace Dd2Server

namespace Server2

open ReadCommitted

section

variable (pg : Pg)

/-- Between the two states a release of this user drained the map, and its validation went on to
push `HatsMine` of the map to the user. -/
def Answered (c : Nat) (u : Uuid) (m : String) (s s' : System) : Prop :=
  ∃ s₁ s₂ slug specId t, ReachBy shared (Job.body pg) KeepsUnlocks s s₁ ∧
    Performs pg s₁ s₂ (.releaseUnlock c m slug) true t ∧
    ReachBy shared (Job.body pg) KeepsUnlocks s₂ s' ∧
    t.job = .spawned (.unlockValidation c u m slug specId) ∧
    ∃ t' ∈ s'.tasks, t'.job = t.job ∧ ∃ newer, t'.loc.log = newer ++ t.loc.log ∧
      Attempted pg c u m newer

end

section

variable {pg : Pg} {db₀ : Db} {s s' : System} {c : Nat} {u : Uuid} {m slug : String}

/-- The operation is the last of the log. -/
theorem Performs.log {a : Act} {o : a.Out} {t : ServerTask} (h : Performs pg s s' a o t) :
    ∃ older, t.loc.log = .acted a o :: older := by
  obtain ⟨i, ch, v, next, -, -, -, -, -, hlog⟩ := h
  exact ⟨v.loc.log, hlog⟩

/-- What came after the release of a validation that ended. -/
theorem Kept.attempted {specId : Int} {newer older : Log}
    (h : Kept (validating pg c u m slug specId)
      (newer ++ .acted (.releaseUnlock c m slug) true :: older))
    (hval : Validated pg c u m slug (newer ++ .acted (.releaseUnlock c m slug) true :: older)) :
    Attempted pg c u m newer := by
  obtain ⟨-, newer', d, older', hlog, -, hyes, -⟩ := hval
  obtain ⟨rfl, he, rfl⟩ := (List.append_cons_inj_of_notMem ((Kept.released_once h).2 d)
    (Kept.not_released_before h d)).1 hlog
  cases he
  exact hyes rfl

/-- A validation that returned is over. -/
theorem Settled.validated (hsettled : Settled c s) (hsane : Sane pg s) {t : ServerTask}
    (ht : t ∈ s.tasks) {specId : Int}
    (hj : t.job = .spawned (.unlockValidation c u m slug specId)) :
    Validated pg c u m slug t.loc.log := by
  have hret := (hsettled.2 t ht).2 (by simp [hj, Job.validates, validates])
  have hended : Job.Ended pg t.job t.loc.log := hsane.ended ht (Prog.result_eq_some.1 hret)
  rwa [hj] at hended

/-- The user who asks on a connection has it for good. -/
theorem asker_stays (hinv : Inv pg False db₀)
    (h : ReachBy shared (Job.body pg) KeepsUnlocks (System.on db₀) s) {t : ServerTask} {o : Bool}
    (hasked : Performs pg s s' (.anyForMap c m) o t) :
    ∃ u name requests, t.job = .connection u name requests ∧
      ∀ s₁, ReachBy shared (Job.body pg) KeepsUnlocks s' s₁ → OfUser c u s₁ := by
  have hrun : RunFrom pg db₀ s := h.reach fun s _ _ => s.admits_true
  obtain ⟨i, ch, t₀, next, ht₀, hp, hm, -, hjob, -⟩ := hasked
  have hmem := List.mem_of_getElem? ht₀
  have hsane := RunFrom.sane hrun hinv
  have hopened : opened t₀.loc.log = some c := Job.asks (Sound.act hsane hmem hp)
  obtain ⟨u, hu⟩ := (RunFrom.oneUser (c := c) hinv hrun).user
  obtain ⟨name, requests, hj⟩ := hu.loop t₀ hmem hopened
  have hlt : c < s.mem.opened := by
    refine (RunFrom.looking hinv hrun).loops.marked c (List.mem_append_left _ ?_)
    exact List.mem_flatMap.2 ⟨t₀, hmem, by simp [loopOwners, hopened]⟩
  refine ⟨u, name, requests, hjob.trans hj, fun s₁ h₁ => ?_⟩
  have hkeeps : KeepsUnlocks s (.run i ch) := trivial
  have hstep : ReachBy shared (Job.body pg) KeepsUnlocks s s' := .step .init hkeeps hm
  obtain ⟨hu', hsane', hlt'⟩ := hu.lasts hsane hlt hstep
  exact (hu'.lasts hsane' hlt' h₁).1

/-- In every run that ends with no validation outstanding no entry is left, only the validation that
drained its map pushes, and every withheld answer was followed by such a push to the user who
asked. -/
theorem withheld_answered (hinv : Inv pg False db₀)
    (h : ReachBy shared (Job.body pg) KeepsUnlocks (System.on db₀) s) (hsettled : Settled c s) :
    (s.mem.conns c).pending.owed = ∅ ∧
    (∀ t ∈ s.tasks, ∀ u m slug specId,
      t.job = .spawned (.unlockValidation c u m slug specId) →
      Validated pg c u m slug t.loc.log) ∧
    ∀ s₁ s₂ m t, ReachBy shared (Job.body pg) KeepsUnlocks (System.on db₀) s₁ →
      Performs pg s₁ s₂ (.anyForMap c m) true t →
      ReachBy shared (Job.body pg) KeepsUnlocks s₂ s →
        ∃ u name requests, t.job = .connection u name requests ∧ Answered pg c u m s₂ s := by
  have hsane : Sane pg s := KeepsUnlocks.sane hinv h
  have hempty : (s.mem.conns c).pending.owed = ∅ := hsettled.drained (KeepsUnlocks.owned hinv h)
  refine ⟨hempty, fun t ht u m slug specId => hsettled.validated hsane ht, ?_⟩
  intro s₁ s₂ m t h₁ hasked h₂
  obtain ⟨u, name, requests, hasker, hstays⟩ := asker_stays hinv h₁ hasked
  have hperf := hasked.perform
  simp only [Act.perform, Option.some.injEq, Prod.mk.injEq] at hperf
  obtain ⟨hmem, hany⟩ := hperf
  have hsane₂ : Sane pg s₂ := by
    obtain ⟨i, ch, v, next, -, -, hm, -⟩ := hasked
    exact (KeepsUnlocks.sane hinv h₁).move hm
  have hno : (s.mem.conns c).pending.anyForMap m = false := by
    rw [← Bool.not_eq_true, anyForMap_iff, hempty]
    simp
  obtain ⟨-, hdrained⟩ := drained_on_the_way hsane₂ (by rw [← hmem]; exact hany) h₂
  obtain ⟨s₃, s₄, slug, t₃, h₃, hrel, h₄, ⟨t', ht', hjob, newer, hlog⟩, v, specId,
      hj⟩ := hdrained hno
  obtain ⟨older, hlog₃⟩ := hrel.log
  have hval := hsettled.validated hsane ht' (hjob.trans hj)
  have hkept : Kept (Job.promise pg t'.job) t'.loc.log := hsane.kept t' ht'
  rw [hjob.trans hj] at hkept
  -- The entry is of the one user of the connection, who asked.
  obtain rfl : v = u := by
    refine (hstays s h₂).begun t' ht' v m slug specId ?_
    rw [hlog, hlog₃] at hkept ⊢
    refine List.mem_append_right _ (List.mem_cons_of_mem _ (Kept.begun hkept.older.tail ?_))
    have hact := hkept.act newer (.releaseUnlock c m slug) true older rfl
    rw [hact.2]
    exact List.cons_ne_nil _ _
  refine ⟨v, name, requests, hasker, s₃, s₄, slug, specId, t₃, h₃, hrel, h₄, hj, t',
    ht', hjob, newer, hlog, ?_⟩
  rw [hlog, hlog₃] at hkept hval
  exact Kept.attempted hkept hval

end

namespace Sample

def asksPending (c : Nat) (m : String) (t : ServerTask) : Bool :=
  match t.prog with
  | .act (.anyForMap c' m') _ => c' = c && m' = m
  | _ => false

theorem asksPending_sound {c : Nat} {m : String} {t : ServerTask} (h : asksPending c m t = true) :
    ∃ next, t.prog = .act (.anyForMap c m) next := by
  unfold asksPending at h
  split at h
  case h_1 c' m' next hp =>
    simp only [Bool.and_eq_true, decide_eq_true_eq] at h
    obtain ⟨rfl, rfl⟩ := h
    exact ⟨next, hp⟩
  case h_2 => cases h

/-- The task sent the own hats of the map last, and one of them is unlocked. -/
def sentUnlocked (c : Nat) (m : String) (t : ServerTask) : Bool :=
  match t.loc.log with
  | .acted (.send c' (.hatsMine m' _ items)) _ :: _ =>
      c' = c && m' = m && items.any (·.unlockedAt.isSome)
  | _ => false

/-- The author finishes the map, and asks for the hats at once. -/
def askedMeanwhile : List (ReadCommitted.Cue Ask.Ans Job) := mapBound ++
  [.start (.connection 1 "Author" [.reportHatUnlock Sample.mapUid "Hat-1" 7,
   .getHatsMine Sample.mapUid]), .go 4 11 (Sample.answers 7 none)]

def validated : List (ReadCommitted.Cue Ask.Ans Job) :=
  [.go 4 10 (Sample.answers 7 none),
   .start (.spawned (.unlockValidation 1 1 Sample.mapUid "Hat-1" 7)),
   .go 5 80 (Sample.answers 7 none)]

end Sample

theorem withheld_answered_author : ∃ s₁ s₂ s t u name requests,
    Performs Sample.pg s₁ s₂ (.anyForMap 1 Sample.mapUid) true t ∧ Settled 1 s ∧
    (s.mem.conns 1).pending.owed = ∅ ∧ t.job = .connection u name requests ∧
    Answered Sample.pg 1 u Sample.mapUid s₂ s ∧
    s.tasks.any (Sample.sentUnlocked 1 Sample.mapUid) = true := by
  have hrun : ∀ s i ch, KeepsUnlocks s (.run i ch) := fun _ _ _ => trivial
  obtain ⟨s₁, h₁, hasks, hpending, hrest⟩ :
      ∃ s, ReachBy shared (Job.body Sample.pg) KeepsUnlocks (System.on Store.empty) s ∧
        ((s.tasks[4]?).any (Sample.asksPending 1 Sample.mapUid) = true ∧
        (s.mem.conns 1).pending.anyForMap Sample.mapUid = true ∧
        ((s.move shared (Job.body Sample.pg) (.run 4 .proceed)).bind fun s₂ =>
          s₂.script shared (Job.body Sample.pg) Sample.validated).any (fun s =>
            decide (Settled 1 s) && s.tasks.any (Sample.sentUnlocked 1 Sample.mapUid)) = true) :=
    ReachBy.scripted hrun Sample.askedMeanwhile (fun _ _ _ => trivial) (by decide +kernel)
  obtain ⟨u, hu, hasks⟩ := (Option.any_eq_true _ _).1 hasks
  obtain ⟨next, hp⟩ := Sample.asksPending_sound hasks
  obtain ⟨s, hrest, hend⟩ := (Option.any_eq_true _ _).1 hrest
  obtain ⟨hsettled, hsent⟩ := Bool.and_eq_true_iff.1 hend
  obtain ⟨s₂, hm, hscript⟩ := Option.bind_eq_some_iff.1 hrest
  obtain ⟨o, t, hperf⟩ := Performs.of_move hu hp hm
  obtain rfl : true = o := by
    have hout := hperf.perform
    simp only [Act.perform, Option.some.injEq, Prod.mk.injEq] at hout
    exact hpending.symm.trans hout.2
  have h₂ : ReachBy shared (Job.body Sample.pg) KeepsUnlocks s₂ s :=
    ReachBy.script hrun (fun _ _ _ => trivial) .init hscript
  have h : ReachBy shared (Job.body Sample.pg) KeepsUnlocks (System.on Store.empty) s :=
    ReachBy.script hrun (fun _ _ _ => trivial) (.step h₁ (hrun s₁ 4 .proceed) hm) hscript
  obtain ⟨hempty, -, hanswered⟩ :=
    withheld_answered (inv_empty Sample.pg False) h (of_decide_eq_true hsettled)
  obtain ⟨v, name, requests, hjob, hanswer⟩ := hanswered s₁ s₂ _ t h₁ hperf h₂
  exact ⟨s₁, s₂, s, t, v, name, requests, hperf, of_decide_eq_true hsettled, hempty, hjob,
    hanswer, hsent⟩

end Server2

end Dd2Server
