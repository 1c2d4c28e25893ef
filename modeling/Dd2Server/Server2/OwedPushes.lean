import Dd2Server.Server2.PendingRuns
import Dd2Server.ReadCommitted.Conduct

/-!
# Pushes that are owed

A release looks at the pending set of its connection, and its task pushes later, after reads of its
own.  Where the read loop begins no validation of the map in between, a push goes into the queue
while no entry of the map is left.  A read loop that answers 213 begins nothing between its look and
its push.
-/

namespace Dd2Server

namespace Server2

open ReadCommitted

/-- The release of this task drained the map, and the task has not pushed yet. -/
def OwesPush (c : Nat) (m : String) (t : ServerTask) : Prop :=
  drained t.loc.log = some (c, m) ∧ t.prog.result = none

/-- A push of the map is owed to the connection. -/
def PushOwed (c : Nat) (m : String) (s : System) : Prop := ∃ t ∈ s.tasks, OwesPush c m t

instance (c : Nat) (m : String) (t : ServerTask) : Decidable (OwesPush c m t) :=
  inferInstanceAs (Decidable (_ ∧ _))

instance (c : Nat) (m : String) (s : System) : Decidable (PushOwed c m s) :=
  inferInstanceAs (Decidable (∃ t ∈ s.tasks, OwesPush c m t))

/-- The connection and the map of the entry that the task adds next. -/
def begins (s : System) (t : ServerTask) : Option (Nat × String) :=
  match t.prog with
  | .act (.beginUnlock c m slug) _ =>
      if ((s.mem.conns c).pending.begin m slug).isSome then some (c, m) else none
  | _ => none

/-- No validation of a map begins while a push of the map is owed to its connection. -/
def NoBeginOwed (s : System) : Move Ask.Ans Job → Prop
  | .run i _ => ∀ t ∈ s.tasks[i]?, ∀ key ∈ begins s t, ¬PushOwed key.1 key.2 s
  | _ => True

instance (s : System) : (mv : Move Ask.Ans Job) → Decidable (NoBeginOwed s mv)
  | .start _ => .isTrue trivial
  | .run i _ =>
      inferInstanceAs (Decidable (∀ t ∈ s.tasks[i]?, ∀ key ∈ begins s t,
        ¬PushOwed key.1 key.2 s))
  | .drop _ => .isTrue trivial

/-! ## One read loop for each connection -/

/-- The read loops, each with the connection it opened. -/
def loopOwners : Owners Table.Key Table.Row Tag Ask.Ans Act.Out Mem Nat where
  own log := (opened log).toList
  spare _ := []
  marked mem c := c < mem.opened

theorem perform_opened {a : Act} {mem mem' : Mem} {o : a.Out} (h : a.perform mem = some (mem', o))
    (ha : a ≠ .openConnection) : mem'.opened = mem.opened := by
  cases a with
  | openConnection => exact absurd rfl ha
  | _ =>
      simp only [Act.perform] at h
      grind [Mem.modify]

theorem opened_acted {a : Act} {o : a.Out} (ha : a ≠ .openConnection) (log : Log) :
    opened (.acted a o :: log) = opened log := by
  cases a with
  | openConnection => exact absurd rfl ha
  | _ => rfl

theorem loopOwners_lawful : loopOwners.Lawful shared Orderly where
  nil := rfl
  skip ev log h := by
    refine congrArg Option.toList (opened_ofActs.quiet (n := [ev]) ?_ log)
    cases ev with
    | acted a o => exact absurd rfl (h a o)
    | _ => rfl
  pass a o log mem mem' hact hperf := by
    by_cases ha : a = .openConnection
    · subst ha
      obtain rfl : log = [] := hact
      cases hperf
      refine Owners.Passes.taken (O := loopOwners) (k := mem.opened) rfl rfl (Nat.lt_irrefl _) ?_
      rintro c (hc | rfl)
      · exact Nat.lt_succ_of_lt hc
      · exact Nat.lt_succ_self _
    · refine .same ?_ rfl fun c hc => ?_
      · show (opened (.acted a o :: log)).toList = (opened log).toList
        rw [opened_acted ha]
      · show c < mem'.opened
        rw [perform_opened hperf ha]
        exact hc
  drop log mem := by
    obtain ⟨conns, h, -⟩ := abandon_eq log mem
    refine ⟨rfl, fun c hc _ => ?_⟩
    show c < (shared.abandon log mem).opened
    rw [h]
    exact hc

section

variable {pg : Pg} {db₀ : Db} {s s' : System} {c : Nat} {m : String}

/-! ## What a move does to the pending sets -/

/-- A map has an entry where it had none, because a task added it. -/
theorem added {mv : Move Ask.Ans Job} (hm : s.move shared (Job.body pg) mv = some s')
    (hno : (s.mem.conns c).pending.anyForMap m = false)
    (hyes : (s'.mem.conns c).pending.anyForMap m = true) :
    ∃ i ch t slug next, mv = .run i ch ∧ s.tasks[i]? = some t ∧
      t.prog = .act (.beginUnlock c m slug) next ∧ begins s t = some (c, m) := by
  obtain ⟨slug, hk⟩ := anyForMap_iff.1 hyes
  have hold : ¬unlockOwners.marked s.mem (c, m, slug) := by
    intro hin
    rw [anyForMap_iff.2 ⟨slug, hin⟩] at hno
    cases hno
  replace hk : unlockOwners.marked s'.mem (c, m, slug) := hk
  cases Sys.move_cases hm with
  | started j hdb hmem htasks => exact absurd (hmem ▸ hk) hold
  | dropped i t ht hdb hmem htasks =>
      rw [hmem] at hk
      exact absurd (mem_abandon.1 hk).1 hold
  | ran i ch t t' ht hjob htasks hadv =>
      rcases advance_acts hadv with ⟨a, o, next, hp, hperf, -⟩ | ⟨hmem, -⟩
      · obtain ⟨rfl, hsome⟩ := (marked_perform hperf hk).resolve_left hold
        exact ⟨i, ch, t, slug, next, rfl, ht, hp, by simp [begins, hp, hsome]⟩
      · exact absurd (hmem ▸ hk) hold

/-! ## Read loops that looked -/

/-- A task looks for entries of its own connection. -/
theorem Job.asks {j : Job} {log : Log} (h : (Job.promise pg j).act log (.anyForMap c m)) :
    opened log = some c := by
  cases j with
  | connection u name requests => exact h
  | spawned task => cases task <;> exact h.elim
  | relay c' => cases h.2
  | _ => exact h.elim

/-- Where a read loop looked for entries of the map and began none since, there is none. -/
structure Looking (pg : Pg) (s : System) : Prop where
  sane : Sane pg s
  loops : loopOwners.Single s
  clear : ∀ t ∈ s.tasks, ∀ c m, opened t.loc.log = some c → clearMap t.loc.log = some m →
    (s.mem.conns c).pending.anyForMap m = false

theorem Looking.start (hinv : Inv pg False db₀) : Looking pg (System.on db₀) where
  sane := .fresh hinv (by simp [System.on])
  loops := ⟨by simp [Owners.all, System.on, loopOwners], by simp [Owners.all,
    System.on, loopOwners]⟩
  clear := by simp [System.on]

/-- The task that moves. -/
theorem Looking.advance (h : Looking pg s) {i : Nat} {ch : Choice Ask.Ans} {t t' : ServerTask}
    (ht : s.tasks[i]? = some t)
      (hadv : ReadCommitted.advance shared (s.heldByOthers i) s.db s.mem t.prog t.loc ch =
        some (s'.db, s'.mem, t'.prog, t'.loc)) (hc :
        opened t'.loc.log = some c) (hm : clearMap t'.loc.log = some m) :
    (s'.mem.conns c).pending.anyForMap m = false := by
  have htm := List.mem_of_getElem? ht
  rcases advance_acts hadv with ⟨a, o, next, hp, hperf, hlog⟩ | ⟨hmem, new, hlog, hacts⟩
  · rw [hlog] at hc hm
    have hkeep : opened t.loc.log = some c → clearMap t.loc.log = some m →
        (∀ c m slug, a ≠ .beginUnlock c m slug) →
        (s'.mem.conns c).pending.anyForMap m = false := by
      intro hc hm hbegin
      by_contra hyes
      obtain ⟨slug, hk⟩ := anyForMap_iff.1 (Bool.eq_true_of_not_eq_false hyes)
      rcases marked_perform (k := (c, m, slug)) hperf hk with hold | ⟨ha, -⟩
      · have hno := h.clear t htm c m hc hm
        rw [anyForMap_iff.2 ⟨slug, hold⟩] at hno
        cases hno
      · exact hbegin _ _ _ ha
    cases a with
    | openConnection =>
        have hnil : t.loc.log = [] := h.sane.orderly htm hp
        rw [hnil] at hm
        cases hm
    | beginUnlock c' m' slug => cases hm
    | anyForMap c' m' =>
        obtain rfl : c' = c := Option.some.inj ((Job.asks (Sound.act h.sane htm hp)).symm.trans hc)
        simp only [Act.perform, Option.some.injEq, Prod.mk.injEq] at hperf
        rw [← hperf.1]
        rw [← hperf.2] at hm
        simp only [clearMap] at hm
        split at hm
        case isTrue => cases hm
        case isFalse hno =>
          cases hm
          exact Bool.eq_false_of_not_eq_true hno
    | _ => exact hkeep hc hm (by simp)
  · rw [hlog, opened_ofActs.quiet hacts] at hc
    rw [hlog, clearMap_ofActs.quiet hacts] at hm
    rw [hmem]
    exact h.clear t htm c m hc hm

theorem Looking.move {mv : Move Ask.Ans Job} (h : Looking pg s)
    (hm : s.move shared (Job.body pg) mv = some s') : Looking pg s' where
  sane := h.sane.move hm
  loops := Owners.Single.move loopOwners_lawful h.loops
    (fun t ht a next hp => h.sane.orderly ht hp) hm
  clear t ht c m hc hclear := by
    by_contra hyes
    have hadd := added (c := c) (m := m) hm
    cases Sys.move_cases hm with
    | started j hdb hmem htasks =>
        rw [htasks] at ht
        rcases List.mem_append.1 ht with ht | ht
        · obtain ⟨i, ch, -, -, -, he, -⟩ :=
            hadd (h.clear t ht c m hc hclear) (Bool.eq_true_of_not_eq_false hyes)
          cases he
        · rw [List.mem_singleton.1 ht] at hc
          cases hc
    | dropped i u hu hdb hmem htasks =>
        rw [htasks] at ht
        obtain ⟨i, ch, -, -, -, he, -⟩ :=
          hadd (h.clear t (List.mem_of_mem_eraseIdx ht) c m hc hclear)
          (Bool.eq_true_of_not_eq_false hyes)
        cases he
    | ran i ch u u' hu hjob htasks hadv =>
        rw [htasks] at ht
        obtain ⟨k, hk⟩ := List.getElem?_of_mem ht
        rcases eq_or_ne i k with rfl | hne
        · rw [List.getElem?_set_self (List.getElem?_eq_some_iff.1 hu).1] at hk
          obtain rfl := Option.some.inj hk
          exact hyes (h.advance hu hadv hc hclear)
        · -- only the read loop of the connection begins validations there
          rw [List.getElem?_set_ne hne] at hk
          obtain ⟨j, ch', v, slug, next, he, hv, hp, -⟩ := hadd
            (h.clear t (List.mem_of_getElem? hk) c m hc hclear) (Bool.eq_true_of_not_eq_false hyes)
          cases he
          obtain rfl : u = v := Option.some.inj (hu.symm.trans hv)
          have hown : opened u.loc.log = some c := h.sane.orderly (List.mem_of_getElem? hu) hp
          exact hne (h.loops.apart hu hk (k := c) (by simp [loopOwners, hown])
            (by simp [loopOwners, hc]))

/-- Each entry has one owner, and is in the pending set of its connection. -/
theorem RunFrom.single (hinv : Inv pg False db₀) (h : RunFrom pg db₀ s) :
    unlockOwners.Single s := by
  induction h with
  | init => exact ⟨List.nodup_nil, by simp [Owners.all, System.on, unlockOwners]⟩
  | step hs _ hm ih =>
      exact ih.move unlockOwners_lawful
        (fun t ht a next hp => (RunFrom.sane hs hinv).orderly ht hp) hm

theorem RunFrom.looking (hinv : Inv pg False db₀) (h : RunFrom pg db₀ s) : Looking pg s := by
  induction h with
  | init => exact .start hinv
  | step _ _ hm ih => exact ih.move hm

/-! ## Pushes that are owed -/

/-- A push is owed since before, or a release drained the map just now. -/
theorem OwesPush.of_advance {held : List (Lock Table.Key)} {db db' : Db} {mem mem' : Mem}
    {t t' : ServerTask} {ch : Choice Ask.Ans}
      (hadv : ReadCommitted.advance shared held db mem t.prog t.loc ch = some (db', mem', t'.prog,
        t'.loc)) (h : OwesPush c m t') :
    OwesPush c m t ∧ mem' = mem ∨ (mem'.conns c).pending.anyForMap m = false ∧
      ∃ slug, t'.loc.log = .acted (.releaseUnlock c m slug) true :: t.loc.log := by
  obtain ⟨hdrained, -⟩ := h
  rcases advance_acts hadv with ⟨a, o, next, hp, hperf, hlog⟩ | ⟨hmem, new, hlog, hacts⟩
  · rw [hlog] at hdrained
    cases a with
    | releaseUnlock c' m' slug =>
        simp only [drained] at hdrained
        split at hdrained
        case isFalse => cases hdrained
        case isTrue ho =>
          cases hdrained
          refine .inr ⟨?_, slug, by rw [hlog, ho]⟩
          simp only [Act.perform, PendingHatUnlocks.remove, Option.some.injEq,
            Prod.mk.injEq] at hperf
          rw [← hperf.1, modify_conns_self]
          rw [ho] at hperf
          simpa [PendingHatUnlocks.anyForMap] using hperf.2
    | _ => cases hdrained
  · rw [hlog, drained_ofActs.quiet hacts] at hdrained
    refine .inl ⟨⟨hdrained, ?_⟩, hmem⟩
    cases hres : t.prog.result with
    | none => rfl
    | some r =>
        rw [Prog.result_eq_some.1 hres] at hadv
        cases ch <;> simp [ReadCommitted.advance] at hadv

/-- The maps with a push owed have no entry. -/
theorem owed_clear
    (h : ReachBy shared (Job.body pg) NoBeginOwed (System.on db₀) s) :
    ∀ c m, PushOwed c m s → (s.mem.conns c).pending.anyForMap m = false := by
  induction h with
  | init =>
      rintro c m ⟨t, ht, -⟩
      cases ht
  | @step s s' mv hs hok hm ih =>
      rintro c m ⟨t, ht, howes⟩
      have hkeep : PushOwed c m s → (s'.mem.conns c).pending.anyForMap m = false := by
        intro hold
        by_contra hyes
        obtain ⟨i, ch, u, slug, next, rfl, hu, -, hbegins⟩ :=
          added hm (ih c m hold) (Bool.eq_true_of_not_eq_false hyes)
        exact hok u hu (c, m) hbegins hold
      cases Sys.move_cases hm with
      | started j hdb hmem htasks =>
          rw [htasks] at ht
          rcases List.mem_append.1 ht with ht | ht
          · exact hkeep ⟨t, ht, howes⟩
          · rw [List.mem_singleton.1 ht] at howes
            cases howes.1
      | dropped i u hu hdb hmem htasks =>
          rw [htasks] at ht
          exact hkeep ⟨t, List.mem_of_mem_eraseIdx ht, howes⟩
      | ran i ch u u' hu hjob htasks hadv =>
          rw [htasks] at ht
          rcases List.mem_or_eq_of_mem_set ht with ht | rfl
          · exact hkeep ⟨t, ht, howes⟩
          · rcases OwesPush.of_advance hadv howes with ⟨hold, -⟩ | ⟨hno, -⟩
            · exact hkeep ⟨u, List.mem_of_getElem? hu, hold⟩
            · exact hno

theorem NoBeginOwed.run (h : ReachBy shared (Job.body pg) NoBeginOwed (System.on db₀) s) :
    RunFrom pg db₀ s :=
  h.reach fun s _ _ => s.admits_true

/-- In every run in which no validation of a map begins while a push of the map is owed, no
`HatsMine` goes into a queue while a validation of its map is outstanding that was begun on the
connection. -/
theorem no_hats_mine_while_pending (hinv : Inv pg False db₀)
    (h : ReachBy shared (Job.body pg) NoBeginOwed (System.on db₀) s) {equipped : String}
    {items : List HatMineItem} {t : ServerTask}
    (hsend : Performs pg s s' (.send c (.hatsMine m equipped items)) () t) :
    (s.mem.conns c).pending.anyForMap m = false ∧
    ∀ slug, (c, m, slug) ∉ unlockOwners.all s := by
  have hno : (s.mem.conns c).pending.anyForMap m = false := by
    obtain ⟨i, ch, u, next, hu, hp, -⟩ := hsend
    have hum := List.mem_of_getElem? hu
    have hlooking := RunFrom.looking hinv (NoBeginOwed.run h)
    rcases hlooking.sane.orderly hum hp with ⟨hopened, hclear⟩ | hdrained
    · exact hlooking.clear u hum c m hopened hclear
    · refine owed_clear h c m ⟨u, hum, hdrained, ?_⟩
      rw [hp]
      rfl
  refine ⟨hno, fun slug hall => ?_⟩
  have hmarked : (m, slug) ∈ (s.mem.conns c).pending.owed :=
    (RunFrom.single hinv (NoBeginOwed.run h)).marked _ hall
  rw [anyForMap_iff.2 ⟨slug, hmarked⟩] at hno
  cases hno

end

namespace Sample

/-- The `HatsMine` that the task enqueues next. -/
def pushes (t : ServerTask) : Option (Nat × String × String × List HatMineItem) :=
  match t.prog with
  | .act (.send c (.hatsMine m equipped items)) _ => some (c, m, equipped, items)
  | _ => none

theorem pushes_eq {t : ServerTask} {c : Nat} {m equipped : String} {items : List HatMineItem}
    (h : pushes t = some (c, m, equipped, items)) :
    ∃ next, t.prog = .act (.send c (.hatsMine m equipped items)) next := by
  unfold pushes at h
  split at h
  case h_1 c' m' equipped' items' next hp =>
    cases h
    exact ⟨next, hp⟩
  case h_2 => cases h

/-- Nadeo knows no record of the author yet. -/
def noRecord : (q : Ask) → q.Ans
  | .hasOfficialRecord _ _ => .ok false
  | .hasRecentOfficialRecord _ _ => .ok false
  | q => Sample.answers 7 none q

/-- The author reports the hat twice, and the first report is denied. -/
def reportedTwice : List (ReadCommitted.Cue Ask.Ans Job) := mapBound ++
  [.start (.connection 1 "Author"
    [.reportHatUnlock Sample.mapUid "Hat-1" 7, .reportHatUnlock Sample.mapUid "Hat-1" 7]),
   .go 4 5 (Sample.answers 7 none),
     .start (.spawned (.unlockValidation 1 1 Sample.mapUid "Hat-1" 7)),
   .go 5 13 noRecord]

/-- The move that enqueues it. -/
theorem pushes_performs {pg : Pg} {s s' : System} {i c : Nat} {m equipped : String}
    {items : List HatMineItem} (h : (s.tasks[i]?).bind pushes = some (c, m, equipped, items))
    (hm : s.move shared (Job.body pg) (.run i .proceed) = some s') :
    ∃ t, Performs pg s s' (.send c (.hatsMine m equipped items)) () t := by
  obtain ⟨u, hu, hpush⟩ := Option.bind_eq_some_iff.1 h
  obtain ⟨next, hp⟩ := pushes_eq hpush
  obtain ⟨o, t, hperf⟩ := Performs.of_move hu hp hm
  exact ⟨t, hperf⟩

end Sample

/-- The author reports the hat again while the push of the first report is owed, and the push says
that the hat is locked. -/
theorem hats_mine_while_pending : ∃ s s' t equipped items, RunFrom Sample.pg Store.empty s ∧
    Performs Sample.pg s s' (.send 1 (.hatsMine Sample.mapUid equipped items)) () t ∧
    (Sample.mapUid, "Hat-1") ∈ (s.mem.conns 1).pending.owed ∧
    ∃ x ∈ items, x.slug = "Hat-1" ∧ x.unlockedAt = none := by
  obtain ⟨s, hs, hmove, hpush, howed⟩ : ∃ s, RunFrom Sample.pg Store.empty s ∧
      (s.move shared (Job.body Sample.pg) (.run 5 .proceed)).isSome = true ∧
      (((s.tasks[5]?).bind Sample.pushes).any fun x => x.1 = 1 ∧ x.2.1 = Sample.mapUid ∧
        ∃ y ∈ x.2.2.2, y.slug = "Hat-1" ∧ y.unlockedAt = none) = true ∧
      (Sample.mapUid, "Hat-1") ∈ (s.mem.conns 1).pending.owed :=
    Reach.scripted (Sample.reportedTwice ++ [.go 4 4 (Sample.answers 7 none)]) (by decide +kernel)
  obtain ⟨s', hm⟩ := Option.isSome_iff_exists.1 hmove
  obtain ⟨⟨c, m, equipped, items⟩, hpush, hlocked⟩ := (Option.any_eq_true _ _).1 hpush
  obtain ⟨rfl, rfl, hlocked⟩ := of_decide_eq_true hlocked
  obtain ⟨t, hperf⟩ := Sample.pushes_performs hpush hm
  exact ⟨s, s', t, equipped, items, hs, hperf, howed, hlocked⟩

theorem no_hats_mine_while_pending_author : ∃ s s' t equipped items,
    Performs Sample.pg s s' (.send 1 (.hatsMine Sample.mapUid equipped items)) () t ∧
    (s.mem.conns 1).pending.anyForMap Sample.mapUid = false ∧
    ∀ slug, (1, Sample.mapUid, slug) ∉ unlockOwners.all s := by
  obtain ⟨s, hs, hmove, hpush⟩ :
      ∃ s, ReachBy shared (Job.body Sample.pg) NoBeginOwed (System.on Store.empty) s ∧
        (s.move shared (Job.body Sample.pg) (.run 5 .proceed)).isSome = true ∧
        (((s.tasks[5]?).bind Sample.pushes).any fun x => x.1 = 1 ∧ x.2.1 = Sample.mapUid) =
          true :=
    ReachBy.scriptedBy Sample.reportedTwice (by decide +kernel)
  obtain ⟨s', hm⟩ := Option.isSome_iff_exists.1 hmove
  obtain ⟨⟨c, m, equipped, items⟩, hpush, heq⟩ := (Option.any_eq_true _ _).1 hpush
  obtain ⟨rfl, rfl⟩ := of_decide_eq_true heq
  obtain ⟨t, hperf⟩ := Sample.pushes_performs hpush hm
  exact ⟨s, s', t, equipped, items, hperf, no_hats_mine_while_pending
    (inv_empty Sample.pg False) hs hperf⟩

end Server2

end Dd2Server
