import Dd2Server.Server2.Jobs

/-!
# Broadcasts carry the current hat

Every task that binds a map or moves a hat there, and every join push, takes the operation lock of
the map around both its commit or read and its message.  So what a message says of a user is what
the user wears there when the message is put on the manager's channel.
-/

namespace Dd2Server

namespace Server2

open ReadCommitted

/-! ## The operation locks -/

theorem perform_mapLocks {a : Act} {mem mem' : Mem} {o : a.Out} (h : a.perform mem = some (mem', o))
    (hlock : ∀ m, a ≠ .lockMap m) (hunlock : ∀ m, a ≠ .unlockMap m) :
    mem'.mapLocks = mem.mapLocks := by
  cases a with
  | lockMap m => exact absurd rfl (hlock m)
  | unlockMap m => exact absurd rfl (hunlock m)
  | _ =>
      simp only [Act.perform] at h
      grind [Mem.modify]

theorem conns_modify {mem : Mem} {c : Nat} {f : Connection → Connection} (c' : Nat) :
    (mem.modify c f).conns c' = if c' = c then f (mem.conns c') else mem.conns c' := by
  split
  case isTrue h =>
    subst h
    exact Function.update_self ..
  case isFalse h => exact Function.update_of_ne h ..

/-- The connections have the same messages, in the queue and on the way there. -/
def SameMessages (conns conns' : Nat → Connection) : Prop :=
  ∀ c, (conns' c).queue = (conns c).queue ∧ (conns' c).inbox = (conns c).inbox

theorem SameMessages.of_modify {mem : Mem} {c : Nat} {f : Connection → Connection}
    {conns : Nat → Connection} (h : SameMessages (mem.modify c f).conns conns)
    (hf : ∀ x, (f x).queue = x.queue ∧ (f x).inbox = x.inbox) :
    SameMessages mem.conns conns := by
  intro c'
  rw [(h c').1, (h c').2, conns_modify]
  split
  · exact hf _
  · exact ⟨rfl, rfl⟩

/-- A task that is dropped frees its operation locks, and touches the connections besides. -/
theorem abandon_eq (log : Log) (mem : Mem) : ∃ conns, shared.abandon log mem =
    { mem with mapLocks := mem.mapLocks.diff (heldMaps log), conns := conns } ∧
    SameMessages mem.conns conns := by
  have hunlocks : ∀ (keys : List (Nat × String × String)) (mem : Mem),
      ∃ conns, keys.foldl Mem.unlockOver mem = { mem with conns := conns } ∧
        SameMessages mem.conns conns := by
    intro keys
    induction keys with
    | nil => exact fun mem => ⟨mem.conns, rfl, fun _ => ⟨rfl, rfl⟩⟩
    | cons key keys ih =>
        intro mem
        obtain ⟨conns, h, hsame⟩ := ih (mem.unlockOver key)
        refine ⟨conns, h, ?_⟩
        unfold Mem.unlockOver at hsame
        exact hsame.of_modify fun _ => ⟨rfl, rfl⟩
  have hpermits : ∀ (cs : List Nat) (mem : Mem),
      ∃ conns, cs.foldl Mem.permitBack mem = { mem with conns := conns } ∧
        SameMessages mem.conns conns := by
    intro cs
    induction cs with
    | nil => exact fun mem => ⟨mem.conns, rfl, fun _ => ⟨rfl, rfl⟩⟩
    | cons c cs ih =>
        intro mem
        obtain ⟨conns, h, hsame⟩ := ih (mem.permitBack c)
        refine ⟨conns, h, ?_⟩
        unfold Mem.permitBack at hsame
        exact hsame.of_modify fun _ => ⟨rfl, rfl⟩
  obtain ⟨conns, h, hsame⟩ := hunlocks (heldUnlocks log)
    { mem with mapLocks := mem.mapLocks.diff (heldMaps log) }
  obtain ⟨conns', h', hsame'⟩ := hpermits (heldPermits log)
    { mem with mapLocks := mem.mapLocks.diff (heldMaps log), conns := conns }
  refine ⟨conns', ?_, fun c =>
    ⟨(hsame' c).1.trans (hsame c).1, (hsame' c).2.trans (hsame c).2⟩⟩
  rw [← h', ← h]
  rfl

/-- The tasks that hold operation locks. -/
def mapOwners : Owners Table.Key Table.Row Tag Ask.Ans Act.Out Mem String where
  own := heldMaps
  spare _ := []
  marked mem m := m ∈ mem.mapLocks

theorem mapOwners_lawful : mapOwners.Lawful shared Orderly where
  nil := rfl
  skip ev log h := by
    have hquiet := heldMaps_ofActs.quiet (n := [ev]) ?_ log
    · exact hquiet
    · cases ev with
      | acted a o => exact absurd rfl (h a o)
      | _ => rfl
  pass a o log mem mem' hact hperf := by
    have hsame : (∀ m, a ≠ .lockMap m) → (∀ m, a ≠ .unlockMap m) →
        mapOwners.Passes log mem (.acted a o :: log) mem' := by
      intro hlock hunlock
      refine .same ?_ rfl fun k hk => ?_
      · show heldMaps (.acted a o :: log) = heldMaps log
        cases a <;> simp_all [heldMaps]
      · show k ∈ mem'.mapLocks
        rw [perform_mapLocks hperf hlock hunlock]
        exact hk
    cases a with
    | lockMap m =>
        simp only [shared, Act.perform, Option.ite_none_left_eq_some, Option.some.injEq,
          Prod.mk.injEq] at hperf
        obtain ⟨hfree, rfl, -⟩ := hperf
        refine Owners.Passes.taken (O := mapOwners) (k := m) rfl rfl hfree ?_
        rintro k (hk | rfl)
        · exact List.mem_cons_of_mem _ hk
        · exact List.mem_cons_self
    | unlockMap m =>
        simp only [shared, Act.perform, Option.some.injEq, Prod.mk.injEq] at hperf
        obtain ⟨rfl, -⟩ := hperf
        refine Owners.Passes.freed (O := mapOwners) (k := m) hact rfl rfl ?_
        exact fun k hk hne => (List.mem_erase_of_ne hne).2 hk
    | _ => exact hsame (by simp) (by simp)
  drop log mem := by
    refine ⟨rfl, fun k hk hno => ?_⟩
    obtain ⟨conns, h, -⟩ := abandon_eq log mem
    show k ∈ (shared.abandon log mem).mapLocks
    rw [h]
    exact List.mem_diff_of_mem hk hno

/-! ## What stands while the lock is held -/

/-- The runs without rechecks over HTTP, which take no operation lock. -/
def NoRecheck (_ : System) (mv : Move Ask.Ans Job) : Prop := ∀ m, mv ≠ .start (.recheckBind m)

/-- Who holds the operation lock of a map knows the worn hats there from its last read or commit. -/
structure Locking (pg : Pg) (s : System) : Prop where
  sane : Sane pg s
  locks : mapOwners.Single s
  jobs : ∀ t ∈ s.tasks, ∀ m, t.job ≠ .recheckBind m
  anchored : ∀ t ∈ s.tasks, ∀ m ∈ heldMaps t.loc.log, ∀ db, anchor t.loc.log = some db →
    SameWorn m db s.db

section

variable {pg : Pg} {db₀ : Db} {s s' : System} {m : String}

theorem Locking.start (hinv : Inv pg False db₀) : Locking pg (System.on db₀) where
  sane := .fresh hinv (by simp [System.on])
  locks := ⟨by simp [Owners.all, System.on, mapOwners], by simp [Owners.all,
    System.on, mapOwners]⟩
  jobs := by simp [System.on]
  anchored := by simp [System.on]

theorem passive_quiet {new : Log} (h : ∀ ev ∈ new, ev.Passive) :
    acts new = [] ∧ ∀ log, anchor (new ++ log) = anchor log := by
  induction new with
  | nil => exact ⟨rfl, fun _ => rfl⟩
  | cons ev new ih =>
      obtain ⟨hacts, hanchor⟩ := ih fun ev' hm => h ev' (List.mem_cons_of_mem _ hm)
      have hev := h ev List.mem_cons_self
      cases ev with
      | acted a o => exact hev.elim
      | read tag db => exact hev.elim
      | committed pre post => exact hev.elim
      | _ => exact ⟨hacts, hanchor⟩

/-- A task that does not hold the lock of a map leaves the worn hats there. -/
theorem Locking.others (h : Locking pg s) {i : Nat} {c : Choice Ask.Ans} {t : ServerTask}
    (ht : s.tasks[i]? = some t) (hm : m ∉ heldMaps t.loc.log)
    (hmove : s.move shared (Job.body pg) (.run i c) = some s') : SameWorn m s.db s'.db := by
  rcases (h.sane.run ht s.admits_true hmove).2 with he | ⟨-, hG, -⟩
  · rw [he]
    exact fun _ => rfl
  · exact Job.locked hG (h.jobs t (List.mem_of_getElem? ht)) hm

theorem Locking.move {mv : Move Ask.Ans Job} (h : Locking pg s) (hok : NoRecheck s mv)
    (hm : s.move shared (Job.body pg) mv = some s') : Locking pg s' where
  sane := h.sane.move hm
  locks := Owners.Single.move mapOwners_lawful h.locks
    (fun t ht a next hp => h.sane.orderly ht hp) hm
  jobs := by
    cases Sys.move_cases hm with
    | started j hdb hmem htasks =>
        rw [htasks]
        intro t ht m
        rcases List.mem_append.1 ht with ht | ht
        · exact h.jobs t ht m
        · rintro hj
          rw [List.mem_singleton.1 ht] at hj
          exact hok m (congrArg Move.start hj)
    | dropped i t ht hdb hmem htasks =>
        rw [htasks]
        exact fun u hu => h.jobs u (List.mem_of_mem_eraseIdx hu)
    | ran i c t t' ht hjob htasks hadv =>
        rw [htasks]
        intro u hu
        rcases List.mem_or_eq_of_mem_set hu with hu | rfl
        · exact h.jobs u hu
        · rw [hjob]
          exact h.jobs t (List.mem_of_getElem? ht)
  anchored := by
    cases Sys.move_cases hm with
    | started j hdb hmem htasks =>
        rw [htasks, hdb]
        intro t ht m hheld
        rcases List.mem_append.1 ht with ht | ht
        · exact h.anchored t ht m hheld
        · rw [List.mem_singleton.1 ht] at hheld
          cases hheld
    | dropped i t ht hdb hmem htasks =>
        rw [htasks, hdb]
        exact fun u hu => h.anchored u (List.mem_of_mem_eraseIdx hu)
    | ran i c t t' ht hjob htasks hadv =>
        have htm := List.mem_of_getElem? ht
        rw [htasks]
        intro u hu m hheld db hanchor
        obtain ⟨k, hk⟩ := List.getElem?_of_mem hu
        rcases eq_or_ne i k with rfl | hne
        · rw [List.getElem?_set_self (List.getElem?_eq_some_iff.1 ht).1] at hk
          obtain rfl := Option.some.inj hk
          cases advance_cases hadv with
          | acted a o next hp hperf hdb hp' hlog =>
              rw [hlog] at hanchor
              cases hanchor
          | looked tag hdb hmem hlog =>
              rw [hlog] at hanchor
              cases hanchor
              rw [hdb]
              exact fun _ => rfl
          | committed hmem hlog =>
              rw [hlog] at hanchor
              cases hanchor
              exact fun _ => rfl
          | passed new hdb hmem hlog hnew =>
              obtain ⟨hacts, hold⟩ := passive_quiet hnew
              rw [hlog, heldMaps_ofActs.quiet hacts] at hheld
              rw [hlog, hold] at hanchor
              rw [hdb]
              exact h.anchored t htm m hheld db hanchor
        · rw [List.getElem?_set_ne hne] at hk
          have hno : m ∉ heldMaps t.loc.log := fun hown => hne (h.locks.apart ht hk hown hheld)
          exact (h.anchored u (List.mem_of_getElem? hk) m hheld db hanchor).trans
            (h.others ht hno hm)

theorem ReachBy.locking (hinv : Inv pg False db₀)
    (h : ReachBy shared (Job.body pg) NoRecheck (System.on db₀) s) : Locking pg s := by
  induction h with
  | init => exact .start hinv
  | step _ hok hm ih => exact ih.move hok hm

/-! ## The channel -/

/-- A task puts this message on the channel next, and it says what its users wear there now; only a
leave push says without looking that its user wears nothing. -/
def Current (s : System) (msg : String × List HatOnMapPlayer) : Prop :=
  ∃ t ∈ s.tasks, (∃ next, t.prog = .act (.broadcastToMap msg.1 msg.2) next) ∧
    ((∃ u, Leaving u msg.1 msg.2 t.loc.log) ∨ ∀ x ∈ msg.2,
      (∃ u : Uuid, x.wsid = u.text) ∧ ∀ u : Uuid, x.wsid = u.text →
        x.slug = wornSlug s.db u msg.1)

theorem Locking.current (h : Locking pg s) {t : ServerTask} (ht : t ∈ s.tasks)
    {hats : List HatOnMapPlayer} {next : Unit → Server Unit}
    (hp : t.prog = .act (.broadcastToMap m hats) next) : Current s (m, hats) := by
  obtain ⟨hheld, hsays⟩ := h.sane.orderly ht hp
  refine ⟨t, ht, ⟨next, hp⟩, hsays.imp id ?_⟩
  rintro ⟨db, hanchor, hreflects⟩ x hx
  obtain ⟨u, hu, hslug⟩ := (h.anchored t ht m hheld db hanchor).reflects (hreflects x hx)
  refine ⟨⟨u, hu⟩, fun v hv => ?_⟩
  rw [← Uuid.text_inj (hu.symm.trans hv)]
  exact hslug

theorem perform_broadcasts {a : Act} {mem mem' : Mem} {o : a.Out}
    (h : a.perform mem = some (mem', o)) (ha : ∀ m hats, a ≠ .broadcastToMap m hats) :
    mem'.broadcasts = mem.broadcasts := by
  cases a with
  | broadcastToMap m hats => exact absurd rfl (ha m hats)
  | _ =>
      simp only [Act.perform] at h
      grind [Mem.modify]

/-- The channel only grows, by the message of a task. -/
theorem move_broadcasts {mv : Move Ask.Ans Job} (hm : s.move shared (Job.body pg) mv = some s') :
    s'.mem.broadcasts = s.mem.broadcasts ∨
      ∃ t ∈ s.tasks, ∃ m hats next, t.prog = .act (.broadcastToMap m hats) next ∧
        s'.mem.broadcasts = s.mem.broadcasts ++ [(m, hats)] := by
  cases Sys.move_cases hm with
  | started j hdb hmem htasks => exact .inl (by rw [hmem])
  | dropped i t ht hdb hmem htasks =>
      obtain ⟨conns, h, -⟩ := abandon_eq t.loc.log s.mem
      exact .inl (by rw [hmem, h])
  | ran i c t t' ht hjob htasks hadv =>
      cases advance_cases hadv with
      | acted a o next hp hperf hdb hp' hlog =>
          by_cases ha : ∃ m hats, a = .broadcastToMap m hats
          · obtain ⟨m, hats, rfl⟩ := ha
            simp only [shared, Act.perform, Option.some.injEq, Prod.mk.injEq] at hperf
            exact .inr ⟨t, List.mem_of_getElem? ht, m, hats, next, hp, by rw [← hperf.1]⟩
          · exact .inl (perform_broadcasts hperf fun m hats he => ha ⟨m, hats, he⟩)
      | looked tag hdb hmem hlog => exact .inl (by rw [hmem])
      | committed hmem hlog => exact .inl (by rw [hmem])
      | passed new hdb hmem hlog hnew => exact .inl (by rw [hmem])

/-- The states in which the messages of the channel were sent, in the order of the channel. -/
structure Sent (pg : Pg) (db₀ : Db) (s : System) (sent : Nat → System) : Prop where
  run : ∀ k < s.mem.broadcasts.length,
    ReachBy shared (Job.body pg) NoRecheck (System.on db₀) (sent k)
  order : ∀ j k, j ≤ k → k < s.mem.broadcasts.length →
    ReachBy shared (Job.body pg) NoRecheck (sent j) (sent k)
  before : ∀ k < s.mem.broadcasts.length, ReachBy shared (Job.body pg) NoRecheck (sent k) s
  length : ∀ k < s.mem.broadcasts.length, (sent k).mem.broadcasts.length = k
  current : ∀ k msg, s.mem.broadcasts[k]? = some msg → Current (sent k) msg

/-- Without rechecks over HTTP, every message says what its users wore when it was sent, so the
messages of the channel are in the order of the committed rows they show. -/
theorem broadcasts_current (hinv : Inv pg False db₀)
    (h : ReachBy shared (Job.body pg) NoRecheck (System.on db₀) s) :
    ∃ sent, Sent pg db₀ s sent := by
  induction h with
  | init => exact ⟨fun _ => System.on db₀, by simp [System.on], by simp [System.on],
      by simp [System.on], by simp [System.on], by simp [System.on]⟩
  | @step s s' mv hs hok hm ih =>
      obtain ⟨sent, hsent⟩ := ih
      rcases move_broadcasts hm with hb | ⟨t, ht, m, hats, next, hp, hb⟩
      · refine ⟨sent, ?_, ?_, ?_, ?_, ?_⟩ <;> rw [hb]
        · exact hsent.run
        · exact hsent.order
        · exact fun k hk => .step (hsent.before k hk) hok hm
        · exact hsent.length
        · exact hsent.current
      · have hnow : Current s (m, hats) := (ReachBy.locking hinv hs).current ht hp
        have hlen : s'.mem.broadcasts.length = s.mem.broadcasts.length + 1 := by
          rw [hb, List.length_append, List.length_singleton]
        -- the new message is the last one, and was sent in `s`
        let sent' : Nat → System := fun k => if k < s.mem.broadcasts.length then sent k else s
        have hold : ∀ k, k < s.mem.broadcasts.length → sent' k = sent k := fun k hk => if_pos hk
        have hlast : sent' s.mem.broadcasts.length = s := if_neg (lt_irrefl _)
        have hcase : ∀ k, k < s'.mem.broadcasts.length →
            k < s.mem.broadcasts.length ∨ k = s.mem.broadcasts.length := by
          intro k hk
          omega
        refine ⟨sent', ?_, ?_, ?_, ?_, ?_⟩
        · intro k hk
          rcases hcase k hk with hk | rfl
          · rw [hold k hk]
            exact hsent.run k hk
          · rw [hlast]
            exact hs
        · intro j k hjk hk
          rcases hcase k hk with hk | rfl
          · rw [hold k hk, hold j (by omega)]
            exact hsent.order j k hjk hk
          · rw [hlast]
            rcases Nat.lt_or_ge j s.mem.broadcasts.length with hj | hj
            · rw [hold j hj]
              exact hsent.before j hj
            · obtain rfl : j = s.mem.broadcasts.length := by omega
              rw [hlast]
              exact .init
        · intro k hk
          rcases hcase k hk with hk | rfl
          · rw [hold k hk]
            exact .step (hsent.before k hk) hok hm
          · rw [hlast]
            exact .step .init hok hm
        · intro k hk
          rcases hcase k hk with hk | rfl
          · rw [hold k hk]
            exact hsent.length k hk
          · rw [hlast]
        · intro k msg hk
          have hlt : k < s'.mem.broadcasts.length := (List.getElem?_eq_some_iff.1 hk).1
          rw [hb] at hk
          rcases hcase k hlt with hk' | rfl
          · rw [hold k hk']
            rw [List.getElem?_append_left hk'] at hk
            exact hsent.current k msg hk
          · rw [List.getElem?_concat_length] at hk
            rw [hlast, ← Option.some.inj hk]
            exact hnow

end

theorem broadcasts_current_equip : ∃ s sent,
    s.mem.broadcasts = [(Sample.mapUid, [⟨Uuid.text 1, "Author", "Hat-1"⟩])] ∧
      Sent Sample.pg Store.empty s sent := by
  obtain ⟨s, hs, htold⟩ : ∃ s, ReachBy shared (Job.body Sample.pg) NoRecheck
      (System.on Store.empty) s ∧
      s.mem.broadcasts = [(Sample.mapUid, [⟨Uuid.text 1, "Author", "Hat-1"⟩])] :=
    ReachBy.scripted (fun _ _ _ => by simp [NoRecheck]) Sample.hatEquipped
      (by simp [Sample.hatEquipped, Sample.mapBound, NoRecheck]) (by decide +kernel)
  obtain ⟨sent, hsent⟩ := broadcasts_current (inv_empty Sample.pg False) hs
  exact ⟨s, sent, htold, hsent⟩

end Server2

end Dd2Server
