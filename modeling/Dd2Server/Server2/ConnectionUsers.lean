import Dd2Server.Server2.OwedPushes

/-!
# The user of a connection

A read loop opens its connection and leaves its validations for one user.  So whatever is begun on a
connection is of the user who has the connection.
-/

namespace Dd2Server

namespace Server2

open ReadCommitted

/-- The read loop of the connection and its validations are of this user. -/
structure OfUser (c : Nat) (u : Uuid) (s : System) : Prop where
  loop : ∀ t ∈ s.tasks, opened t.loc.log = some c →
    ∃ name requests, t.job = .connection u name requests
  spawned : ∀ v m slug specId, .unlockValidation c v m slug specId ∈ s.mem.spawned → v = u
  begun : ∀ t ∈ s.tasks, ∀ v m slug specId,
    .acted (.begun (.unlockValidation c v m slug specId)) () ∈ t.loc.log → v = u

section

variable {pg : Pg} {db₀ : Db} {s s' : System} {c : Nat} {u : Uuid}
    {m slug : String} {specId : Int}

/-- A connection is opened by its read loop. -/
theorem Job.opens {j : Job} {log : Log} (h : (Job.promise pg j).act log .openConnection) :
    ∃ u name requests, j = .connection u name requests := by
  cases j with
  | connection u name requests => exact ⟨u, name, requests, rfl⟩
  | spawned task => cases task <;> exact h.elim
  | relay c' => cases h.2
  | _ => exact h.elim

/-- A validation is left to a task by the read loop of its connection. -/
theorem Job.leaves {j : Job} {log : Log} {v : Uuid}
    (h : (Job.promise pg j).act log (.spawn (.unlockValidation c v m slug specId))) :
    opened log = some c ∧ ∃ name requests, j = .connection v name requests := by
  cases j with
  | connection u name requests =>
      obtain ⟨rfl, hopened, -⟩ := h
      exact ⟨hopened, name, requests, rfl⟩
  | spawned task => cases task <;> exact h.elim
  | relay c' => cases h.2
  | _ => exact h.elim

/-- Unless another user opens the connection, it stays with its user. -/
theorem OfUser.move {mv : Move Ask.Ans Job} (hsane : Sane pg s) (h : OfUser c u s)
    (hm : s.move shared (Job.body pg) mv = some s')
    (hopen : ∀ i ch t next, mv = .run i ch → s.tasks[i]? = some t →
      t.prog = .act .openConnection next → s.mem.opened = c →
      ∃ name requests, t.job = .connection u name requests) : OfUser c u s' := by
  cases Sys.move_cases hm with
  | started j hdb hmem htasks =>
      refine ⟨fun t ht hc => ?_, by rw [hmem]; exact h.spawned, fun t ht => ?_⟩
      · rw [htasks] at ht
        rcases List.mem_append.1 ht with ht | ht
        · exact h.loop t ht hc
        · rw [List.mem_singleton.1 ht] at hc
          cases hc
      · rw [htasks] at ht
        rcases List.mem_append.1 ht with ht | ht
        · exact h.begun t ht
        · rw [List.mem_singleton.1 ht]
          intro v m slug specId hin
          cases hin
  | dropped i t ht hdb hmem htasks =>
      obtain ⟨conns, habandon, -⟩ := abandon_eq t.loc.log s.mem
      rw [habandon] at hmem
      refine ⟨fun t ht => ?_, by rw [hmem]; exact h.spawned, fun t ht => ?_⟩
      · rw [htasks] at ht
        exact h.loop t (List.mem_of_mem_eraseIdx ht)
      · rw [htasks] at ht
        exact h.begun t (List.mem_of_mem_eraseIdx ht)
  | ran i ch t t' ht hjob htasks hadv =>
      have htm := List.mem_of_getElem? ht
      have hothers : ∀ {P : ServerTask → Prop}, (∀ u ∈ s.tasks, P u) → P t' →
          ∀ u ∈ s'.tasks, P u := by
        intro P hold hnew u hu
        rw [htasks] at hu
        rcases List.mem_or_eq_of_mem_set hu with hu | rfl
        · exact hold u hu
        · exact hnew
      rcases advance_acts hadv with ⟨a, o, next, hp, hperf, hlog⟩ | ⟨hmem, new, hlog, hacts⟩
      · have hact := Sound.act hsane htm hp
        refine ⟨hothers h.loop fun hc => ?_, fun v m slug specId hin => ?_,
          hothers h.begun fun v m slug specId hin => ?_⟩
        · rw [hjob]
          by_cases ha : a = .openConnection
          · subst ha
            simp only [Act.perform, Option.some.injEq, Prod.mk.injEq] at hperf
            rw [hlog, ← hperf.2] at hc
            exact hopen i ch t next rfl ht hp (Option.some.inj hc)
          · refine h.loop t htm ?_
            rw [← hc, hlog, opened_acted ha]
        · by_cases hspawn : ∃ task, a = .spawn task
          · obtain ⟨task, rfl⟩ := hspawn
            simp only [Act.perform, Option.some.injEq, Prod.mk.injEq] at hperf
            rw [← hperf.1] at hin
            rcases List.mem_cons.1 hin with rfl | hin
            · obtain ⟨hopened, name, requests, hj⟩ := Job.leaves hact
              obtain ⟨name', requests', hj'⟩ := h.loop t htm hopened
              rw [hj] at hj'
              cases hj'
              rfl
            · exact h.spawned v m slug specId hin
          · by_cases hbegun : ∃ task, a = .begun task
            · obtain ⟨task, rfl⟩ := hbegun
              simp only [Act.perform, Option.ite_none_right_eq_some, Option.some.injEq,
                Prod.mk.injEq] at hperf
              rw [← hperf.2.1] at hin
              exact h.spawned v m slug specId (List.mem_of_mem_erase hin)
            · rw [perform_spawned hperf (fun task he => hspawn ⟨task, he⟩)
                fun task he => hbegun ⟨task, he⟩] at hin
              exact h.spawned v m slug specId hin
        · rw [hlog] at hin
          rcases List.mem_cons.1 hin with he | hin
          · cases he
            simp only [Act.perform, Option.ite_none_right_eq_some] at hperf
            exact h.spawned v m slug specId hperf.1
          · exact h.begun t htm v m slug specId hin
      · refine ⟨hothers h.loop fun hc => ?_, by rw [hmem]; exact h.spawned,
          hothers h.begun fun v m slug specId hin => ?_⟩
        · rw [hjob]
          rw [hlog, opened_ofActs.quiet hacts] at hc
          exact h.loop t htm hc
        · rw [hlog] at hin
          rcases List.mem_append.1 hin with hin | hin
          · exact absurd hin (notMem_of_acts_nil hacts _ _)
          · exact h.begun t htm v m slug specId hin

/-- The connection has one user, and none before it is opened. -/
structure OneUser (c : Nat) (s : System) : Prop where
  user : ∃ u, OfUser c u s
  unopened : s.mem.opened ≤ c → ∀ u, OfUser c u s

theorem OneUser.start : OneUser c (System.on db₀) := by
  have hany : ∀ u, OfUser c u (System.on db₀) :=
    fun u => ⟨by simp [System.on], by simp [System.on], by simp [System.on]⟩
  exact ⟨⟨1, hany 1⟩, fun _ => hany⟩

theorem OneUser.move {mv : Move Ask.Ans Job} (hsane : Sane pg s) (h : OneUser c s)
    (hm : s.move shared (Job.body pg) mv = some s') : OneUser c s' := by
  by_cases hopens : ∃ i ch t next, mv = .run i ch ∧ s.tasks[i]? = some t ∧
    t.prog = .act .openConnection next
  case pos =>
    obtain ⟨i, ch, t, next, rfl, ht, hp⟩ := hopens
    obtain ⟨v, name, requests, hj⟩ := Job.opens (Sound.act hsane (List.mem_of_getElem? ht) hp)
    have hlater : s'.mem.opened = s.mem.opened + 1 := by
      obtain ⟨o, t', hperf⟩ := Performs.of_move ht hp hm
      have hout := hperf.perform
      simp only [Act.perform, Option.some.injEq, Prod.mk.injEq] at hout
      rw [← hout.1]
    constructor
    · by_cases hc : s.mem.opened = c
      · refine ⟨v, (h.unopened (by omega) v).move hsane hm ?_⟩
        rintro i' ch' t' next' he ht' - -
        cases he
        obtain rfl : t = t' := Option.some.inj (ht.symm.trans ht')
        exact ⟨name, requests, hj⟩
      · obtain ⟨u, hu⟩ := h.user
        exact ⟨u, hu.move hsane hm fun _ _ _ _ _ _ _ he => absurd he hc⟩
    · intro hle u
      exact (h.unopened (by omega) u).move hsane hm fun _ _ _ _ _ _ _ he => absurd he (by omega)
  case neg =>
    have hno : ∀ u, ∀ i ch t next, mv = .run i ch → s.tasks[i]? = some t →
        t.prog = .act .openConnection next →
        s.mem.opened = c → ∃ name requests, t.job = .connection u name requests :=
      fun u i ch t next he ht hp => absurd ⟨i, ch, t, next, he, ht, hp⟩ hopens
    have hsame : s'.mem.opened = s.mem.opened := by
      cases Sys.move_cases hm with
      | started j hdb hmem htasks => rw [hmem]
      | dropped i t ht hdb hmem htasks =>
          obtain ⟨conns, habandon, -⟩ := abandon_eq t.loc.log s.mem
          rw [hmem, habandon]
      | ran i ch t t' ht hjob htasks hadv =>
          rcases advance_acts hadv with ⟨a, o, next, hp, hperf, -⟩ | ⟨hmem, -⟩
          · refine perform_opened hperf ?_
            rintro rfl
            exact hopens ⟨i, ch, t, next, rfl, ht, hp⟩
          · rw [hmem]
    obtain ⟨u, hu⟩ := h.user
    exact ⟨⟨u, hu.move hsane hm (hno u)⟩, fun hle v =>
      (h.unopened (by omega) v).move hsane hm (hno v)⟩

theorem RunFrom.oneUser (hinv : Inv pg False db₀) (h : RunFrom pg db₀ s) : OneUser c s := by
  induction h with
  | init => exact .start
  | step hs _ hm ih => exact ih.move (RunFrom.sane hs hinv) hm

theorem opened_le {mv : Move Ask.Ans Job} (hm : s.move shared (Job.body pg) mv = some s') :
    s.mem.opened ≤ s'.mem.opened := by
  cases Sys.move_cases hm with
  | started j hdb hmem htasks => rw [hmem]
  | dropped i t ht hdb hmem htasks =>
      obtain ⟨conns, habandon, -⟩ := abandon_eq t.loc.log s.mem
      rw [hmem, habandon]
  | ran i ch t t' ht hjob htasks hadv =>
      rcases advance_acts hadv with ⟨a, o, next, hp, hperf, -⟩ | ⟨hmem, -⟩
      · by_cases ha : a = .openConnection
        · subst ha
          simp only [Act.perform, Option.some.injEq, Prod.mk.injEq] at hperf
          rw [← hperf.1]
          exact Nat.le_succ _
        · rw [perform_opened hperf ha]
      · rw [hmem]

/-- A connection that was opened stays with its user. -/
theorem OfUser.lasts {ok : System → Move Ask.Ans Job → Prop} (hsane : Sane pg s)
    (h : OfUser c u s) (hlt : c < s.mem.opened) (hs : ReachBy shared (Job.body pg) ok s s') :
    OfUser c u s' ∧ Sane pg s' ∧ c < s'.mem.opened := by
  induction hs with
  | init => exact ⟨h, hsane, hlt⟩
  | step _ _ hm ih =>
      obtain ⟨hu, hsane, hlt⟩ := ih
      refine ⟨hu.move hsane hm fun _ _ _ _ _ _ _ he => ?_, hsane.move hm,
        hlt.trans_le (opened_le hm)⟩
      exact absurd he hlt.ne'

/-- A validation that holds its entry was begun. -/
theorem Kept.begun {log : Log} (h : Kept (validating pg c u m slug specId) log)
    (hheld : heldUnlocks log ≠ []) :
    .acted (.begun (.unlockValidation c u m slug specId)) () ∈ log := by
  induction log with
  | nil => exact absurd rfl hheld
  | cons ev log ih =>
      have hold : heldUnlocks log ≠ [] → .acted (.begun (.unlockValidation c u m slug specId))
          () ∈ ev :: log :=
        fun hne => List.mem_cons_of_mem _ (ih h.tail hne)
      cases ev with
      | acted a o =>
          have hact := h.act [] a o log rfl
          cases a with
          | begun task =>
              obtain ⟨-, rfl⟩ := hact
              exact List.mem_cons_self
          | releaseUnlock c' m' slug' =>
              refine hold fun hnil => hheld ?_
              rw [heldUnlocks, hnil]
              rfl
          | acquirePermit c' => exact hold hheld
          | dropPermit c' => exact hold hheld
          | send c' r => exact hold hheld
          | _ => exact hact.elim
      | _ => exact hold hheld

/-- What drained the map is in the log. -/
theorem drained_mem {log : Log} (h : drained log = some (c, m)) :
    ∃ slug newer older, log = newer ++ .acted (.releaseUnlock c m slug) true :: older := by
  induction log with
  | nil => cases h
  | cons ev log ih =>
      have hold : drained log = some (c, m) →
          ∃ slug newer older, ev :: log =
            newer ++ .acted (.releaseUnlock c m slug) true :: older := by
        intro h
        obtain ⟨slug, newer, older, rfl⟩ := ih h
        exact ⟨slug, ev :: newer, older, rfl⟩
      cases ev with
      | acted a o =>
          cases a with
          | releaseUnlock c' m' slug =>
              simp only [drained] at h
              split at h
              case isTrue ho =>
                cases h
                subst ho
                exact ⟨slug, [], log, rfl⟩
              case isFalse => cases h
          | _ => cases h
      | _ => exact hold h

/-- A push is owed by a validation of the connection, which began. -/
theorem Sane.owing (hsane : Sane pg s) {t : ServerTask} (ht : t ∈ s.tasks)
    (h : drained t.loc.log = some (c, m)) :
    ∃ u slug specId, t.job = .spawned (.unlockValidation c u m slug specId) ∧
      .acted (.begun (.unlockValidation c u m slug specId)) () ∈ t.loc.log := by
  obtain ⟨slug, newer, older, hlog⟩ := drained_mem h
  have hkept := hsane.kept t ht
  have hact := hkept.act newer (.releaseUnlock c m slug) true older hlog
  obtain ⟨u, specId, hj⟩ := Job.releases hact
  rw [hj] at hkept hact
  refine ⟨u, slug, specId, hj, ?_⟩
  rw [hlog] at hkept ⊢
  have hbegun : .acted (.begun (.unlockValidation c u m slug specId)) () ∈ older := by
    refine Kept.begun hkept.older.tail ?_
    rw [hact.2]
    exact List.cons_ne_nil _ _
  exact List.mem_append_right _ (List.mem_cons_of_mem _ hbegun)

end

end Server2

end Dd2Server
