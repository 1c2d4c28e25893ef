import Dd2Server.Server2.ConnectionUsers

/-!
# The last hats of a map

A push reads the hats of its map and goes into the queue later.  While no other release drains the
map in between, the last `HatsMine` of the map shows every unlock that the validations of the
connection committed.
-/

namespace Dd2Server

namespace Server2

open ReadCommitted

/-! ## What a push reads -/

/-- A push follows the read of its items, and nothing but the push follows a release that drained
its map. -/
def reading (pg : Pg) (u : Uuid) (m : String) :
    Promise Table.Key Table.Row Tag Ask.Ans Act.Out where
  commit _ _ _ := True
  act log
    | .send _ r =>
        ∃ equipped db older, log = .read (.named "get_hats_mine: items") db :: older ∧
        r = .hatsMine m equipped (Hats.mineItems pg db u m)
    | _ => drained log = none

def Job.reads (pg : Pg) : Job → Promise Table.Key Table.Row Tag Ask.Ans Act.Out
  | .spawned (.unlockValidation _ u m _ _) => reading pg u m
  | _ => { commit := fun _ _ _ => True, act := fun _ _ => True }

/-- The items are those of the read that was just done. -/
def ItemsRead (pg : Pg) (u : Uuid) (m : String) (r : Option (String × List HatMineItem)) :
    Known Table.Key Table.Row Tag Ask.Ans Act.Out := fun log _ =>
  ∀ equipped items, r = some (equipped, items) → ∃ db older,
    log = .read (.named "get_hats_mine: items") db :: older ∧ items = Hats.mineItems pg db u m

section

variable {pg : Pg} {w : Scope} {C : Tag → Db → Prop} {ε : Type} {u : Uuid} {c : Nat}
  {m slug : String} {specId : Int}

theorem getHatsMine_items {G : Promise Table.Key Table.Row Tag Ask.Ans Act.Out} {A : Log → Prop} :
    Pool (setting pg w C G) (fun _ _ _ => True) (fun log _ => A log) (Hats.getHatsMine pg m u)
      (ItemsRead pg u m) := by
  rw [Hats.getHatsMine]
  apply Pool.bind (fun _ _ _ => True)
  · apply plain_pool
    exact select_pool (fun _ _ _ => trivial) fun _ _ _ _ _ _ _ => trivial
  intro bound
  cases bound with
  | none =>
      apply Pool.pure
      intro log db _ _ equipped items he
      cases he
  | some specId =>
      apply Pool.bind (fun _ _ _ => True)
      · exact Pool.readCommitted (fun _ _ _ _ => trivial) fun _ _ _ _ _ _ _ => trivial
      intro equipped
      apply Pool.bind (fun items log _ => ∃ db older,
        log = .read (.named "get_hats_mine: items") db :: older ∧
          items = Hats.mineItems pg db u m)
      · exact Pool.readCommitted (fun _ _ _ _ => trivial) fun log db _ _ db' _ _ => ⟨db,
          log, rfl, rfl⟩
      intro items
      apply Pool.pure
      intro log db _ h equipped' items' he
      cases he
      exact h

theorem pushHatsMine_reading {A : Log → Prop} :
    Pool (setting pg w C (reading pg u m)) (fun _ _ _ => True) (fun log _ => A log)
      (pushHatsMine pg c u m) (fun _ _ _ => True) := by
  rw [pushHatsMine]
  apply Pool.bind (ItemsRead pg u m)
  · exact Pool.adapt getHatsMine_items
  intro mine
  cases mine with
  | none => exact Pool.pure fun _ _ _ _ => trivial
  | some r =>
      obtain ⟨equipped, items⟩ := r
      apply Pool.act
      · intro log db _ h
        obtain ⟨db', older, hlog, rfl⟩ := h equipped items rfl
        exact ⟨equipped, db', older, hlog, rfl⟩
      · exact fun _ _ _ _ _ => trivial

theorem hatUnlockValidation_reading :
    Pool (setting pg w C (reading pg u m)) (fun (_ : ε) _ _ => True)
      (fun log _ => drained log = none) (hatUnlockValidation pg c u m slug specId)
        (fun _ _ _ => True) := by
  rw [hatUnlockValidation]
  apply Pool.bind (fun _ log _ => drained log = none)
  · exact Pool.act (fun _ _ _ h => h) fun _ _ _ _ _ => rfl
  intro _
  apply Pool.bind (fun _ log _ => drained log = none)
  · exact askQ_pool fun a log db h => h
  intro panics
  apply Pool.bind (fun _ log _ => drained log = none)
  · have hunlock : Pool (setting pg w C (querying fun _ _ => True)) (fun _ _ _ => True)
        (fun log _ => log = []) (Hats.reportUnlock pg u m slug specId) (fun _ _ _ => True) := by
      apply Pool.weaken (reportUnlock_pool fun _ _ _ _ => trivial)
      · rintro log db - rfl
        exact Commits.nil
      · exact fun _ _ _ _ => trivial
      · exact fun _ _ _ _ => trivial
    apply Pool.weaken (Pool.within (G := reading pg u m) (O := fun log => drained log = none)
      (E := fun _ _ _ => False) (joined_pool hunlock) fun _ _ _ _ _ _ _ => trivial)
    · exact fun log db _ h => h
    · rintro e log db ⟨new, old, rfl, hn, ho, hf⟩
      exact hf.elim
    · rintro a log db ⟨new, old, rfl, hn, ho, -⟩
      exact (drained_ofActs.quiet hn old).trans ho
  intro _
  apply Pool.bind (fun _ log _ => drained log = none)
  · exact Pool.act (fun _ _ _ h => h) fun _ _ _ _ _ => rfl
  intro _
  apply Pool.bind (fun _ _ _ => True)
  · exact Pool.act (fun _ _ _ h => h) fun _ _ _ _ _ => trivial
  intro d
  cases d with
  | false => exact Pool.pure fun _ _ _ _ => trivial
  | true =>
      apply Pool.bind (fun _ _ _ => True)
      · apply Pool.weaken (Pool.attempt (E := fun _ _ _ => True)
          (pushHatsMine_reading (A := fun _ => True)))
        · exact fun _ _ _ h => h
        · exact fun _ _ _ _ => trivial
        · exact fun _ _ _ _ => trivial
      · exact fun _ => Pool.pure fun _ _ _ _ => trivial

theorem Job.safe_reads (j : Job) {db : Db} (hinv : Inv pg False db) :
    Safe (protocol pg .any) (fun _ _ => True) (Job.reads pg j) (fun _ _ _ => True)
      (j.body pg) {} db := by
  have hfree : Safe (protocol pg .any) (fun _ _ => True)
      { commit := fun _ _ _ => True, act := fun _ _ => True } (fun _ _ _ => True)
        (j.body pg) {} db :=
    (j.safe hinv).mono (fun _ _ _ _ => trivial) (fun _ _ _ => trivial) fun _ _ _ _ => trivial
  cases j with
  | spawned task =>
      cases task with
      | unlockValidation c u m slug specId =>
          refine (begun_safe (G := reading pg u m) (Q := fun _ => True) rfl ?_ hinv)
          apply Pool.weaken (hatUnlockValidation_reading (ε := Empty))
          · rintro log db - rfl
            rfl
          · exact fun _ _ _ _ => trivial
          · exact fun _ _ _ _ => trivial
      | _ => exact hfree
  | _ => exact hfree

end

/-! ## Unlocks -/

/-- The map has the hat, and the user unlocked it. -/
def HasHat (u : Uuid) (m slug : String) (db : Db) : Prop :=
  ∃ h r, db.get ⟨.hatOnMap, (m, slug)⟩ = some h ∧
    db.get ⟨.hatUnlock, (u, h.hatKey)⟩ = some r

/-- A validation of the connection committed the unlock. -/
def Granted (c : Nat) (u : Uuid) (m slug : String) (s : System) : Prop :=
  ∃ t ∈ s.tasks, ∃ specId pre post, t.job = .spawned (.unlockValidation c u m slug specId) ∧
    .committed pre post ∈ t.loc.log ∧ HasHat u m slug post

/-- The hat is in the list, as an unlocked one. -/
def Shows (slug : String) (items : List HatMineItem) : Prop :=
  ∃ x ∈ items, x.slug = slug ∧ x.unlockedAt.isSome = true

instance (slug : String) (items : List HatMineItem) : Decidable (Shows slug items) :=
  inferInstanceAs (Decidable (∃ x ∈ items, _ ∧ _))

/-- The binding of the map is materialized, with the hats it had at the start. -/
structure StaysBound (pg : Pg) (m : String) (db₀ db : Db) : Prop where
  usable : Hats.bindingUsable pg db m = true
  hats : ∀ slug, db.get ⟨.hatOnMap, (m, slug)⟩ = db₀.get ⟨.hatOnMap, (m, slug)⟩

section

variable {pg : Pg} {u : Uuid} {m slug : String} {db₀ pre post : Db}

/-- Unlocks stay. -/
theorem Commit.keepsUnlock (h : Commit pg False pre post) {k : Uuid × String} {r : HatUnlockRow}
    (hr : pre.get ⟨.hatUnlock, k⟩ = some r) :
    ∃ r', post.get ⟨.hatUnlock, k⟩ = some r' := by
  have hframe : ∀ {ts : List Table}, Frame ts pre post → Table.hatUnlock ∉ ts →
      ∃ r', post.get ⟨.hatUnlock, k⟩ = some r' := fun hf hts =>
        ⟨r, (hf.get k hts).trans hr⟩
  cases h with
  | same h => exact ⟨r, by rw [h]; exact hr⟩
  | hit h => exact hframe h.others (by decide)
  | upserted h round => exact hframe h.others (by decide)
  | deleted h => exact hframe h.others (by decide)
  | @catalog t h =>
      refine hframe h.others fun hm => ?_
      have hcat := h.catalog
      rw [← List.mem_singleton.1 hm] at hcat
      exact absurd hcat (by decide)
  | bound h => exact hframe h.others (by decide)
  | @unlocked v key h =>
      by_cases hk : k = (v, key)
      · rw [hk]
        exact h.unlock
      · refine ⟨r, (h.rest ⟨.hatUnlock, k⟩ fun he => hk ?_).trans hr⟩
        cases he
        rfl
  | equipped h => exact ⟨r, (h.put.others _ (by simp)).trans hr⟩
  | unequipped h => exact ⟨r, (h.others _ (by simp)).trans hr⟩
  | login h => exact hframe h.others (by decide)

theorem HasHat.stays (h : HasHat u m slug pre) (hpre : StaysBound pg m db₀ pre)
    (hpost : StaysBound pg m db₀ post) (hc : Commit pg False pre post) :
    HasHat u m slug post := by
  obtain ⟨x, r, hx, hr⟩ := h
  obtain ⟨r', hr'⟩ := Commit.keepsUnlock hc hr
  exact ⟨x, r', (hpost.hats slug).trans ((hpre.hats slug).symm.trans hx), hr'⟩

/-- A read of the own hats shows those that are unlocked. -/
theorem HasHat.shown {db : Db} (h : HasHat u m slug db) (hb : Hats.bindingUsable pg db m = true) :
    Shows slug (Hats.mineItems pg db u m) := by
  obtain ⟨x, r, hx, hr⟩ := h
  have hmem : ((m, slug), x) ∈ selectWhere .hatOnMap (fun k _ => k.1 = m) db :=
    mem_selectWhere.2 ⟨hx, by simp⟩
  rw [Hats.mineItems, if_pos hb]
  refine ⟨_, List.mem_mergeSort.2 (List.mem_map.2 ⟨_, hmem, rfl⟩), rfl, ?_⟩
  simp [hr]

end

/-! ## What the client was told last -/

/-- The items of a `HatsMine` of the map. -/
def mineOf (m : String) : Response → Option (List HatMineItem)
  | .hatsMine m' _ items => if m' = m then some items else none
  | _ => none

/-- The items of the last `HatsMine` of the map. -/
def lastMine (m : String) (queue : List Response) : Option (List HatMineItem) :=
  (queue.filterMap (mineOf m)).getLast?

theorem lastMine_concat {m : String} {queue : List Response} {r : Response} :
    lastMine m (queue ++ [r]) = (mineOf m r).or (lastMine m queue) := by
  cases h : mineOf m r <;> simp [lastMine, List.filterMap_append, h]

/-- The messages of the manager on their way to the connection are not about the own hats. -/
def Relayed (c : Nat) (mem : Mem) : Prop := ∀ r ∈ (mem.conns c).inbox, ∀ m, mineOf m r = none

/-- What an operation does to the queue of a connection and to the messages on their way there. -/
theorem perform_queue {a : Act} {mem mem' : Mem} {o : a.Out} (h : a.perform mem = some (mem', o))
    (c : Nat) :
    (mem'.conns c).queue = (mem.conns c).queue ∧ (mem'.conns c).inbox = (mem.conns c).inbox ∨
    (∃ r, a = .send c r ∧ (mem'.conns c).queue = (mem.conns c).queue ++ [r] ∧
      (mem'.conns c).inbox = (mem.conns c).inbox) ∨
    (∃ r, (mem.conns c).inbox = r :: (mem'.conns c).inbox ∧
      (mem'.conns c).queue = (mem.conns c).queue ++ [r]) ∨
    ∃ m hats, (mem'.conns c).inbox = (mem.conns c).inbox ++ [.hatsOnMapUpdate m hats] ∧
      (mem'.conns c).queue = (mem.conns c).queue := by
  have hmodify : ∀ {c' : Nat} {f : Connection → Connection}, (∀ x, (f x).queue = x.queue ∧
      (f x).inbox = x.inbox) →
      ((mem.modify c' f).conns c).queue = (mem.conns c).queue ∧
        ((mem.modify c' f).conns c).inbox = (mem.conns c).inbox := by
    intro c' f hf
    rw [conns_modify]
    split
    · exact hf _
    · exact ⟨rfl, rfl⟩
  cases a with
  | send c' r =>
      cases h
      by_cases hc : c = c'
      · subst hc
        right; left
        refine ⟨r, rfl, ?_⟩
        rw [modify_conns_self]
        exact ⟨rfl, rfl⟩
      · left
        rw [modify_conns_of_ne hc]
        exact ⟨rfl, rfl⟩
  | relay c' =>
      simp only [Act.perform] at h
      split at h
      case h_1 => cases h
      case h_2 r rest hin =>
        cases h
        by_cases hc : c = c'
        · subst hc
          right; right; left
          refine ⟨r, ?_⟩
          rw [modify_conns_self]
          exact ⟨hin, rfl⟩
        · left
          rw [modify_conns_of_ne hc]
          exact ⟨rfl, rfl⟩
  | offer c' m hats =>
      simp only [Act.perform] at h
      split at h <;> cases h
      · by_cases hc : c = c'
        · subst hc
          right; right; right
          refine ⟨m, hats, ?_⟩
          rw [modify_conns_self]
          exact ⟨rfl, rfl⟩
        · left
          rw [modify_conns_of_ne hc]
          exact ⟨rfl, rfl⟩
      · exact .inl ⟨rfl, rfl⟩
  | beginUnlock c' m slug =>
      simp only [Act.perform] at h
      split at h <;> cases h
      · exact .inl (hmodify (by simp))
      · exact .inl ⟨rfl, rfl⟩
  | acquirePermit c' =>
      simp only [Act.perform] at h
      split at h <;> cases h
      exact .inl (hmodify (by simp))
  | setTracked c' next =>
      cases h
      exact .inl (hmodify (by simp))
  | releaseUnlock c' m slug =>
      cases h
      exact .inl (hmodify (by simp))
  | dropPermit c' =>
      cases h
      exact .inl (hmodify (by simp))
  | lockMap m =>
      simp only [Act.perform] at h
      split at h <;> cases h
      exact .inl ⟨rfl, rfl⟩
  | begun task =>
      simp only [Act.perform] at h
      split at h <;> cases h
      exact .inl ⟨rfl, rfl⟩
  | nextMessage =>
      simp only [Act.perform, Option.ite_none_left_eq_some, Option.map_eq_some_iff] at h
      obtain ⟨-, msg, -, he⟩ := h
      cases he
      exact .inl ⟨rfl, rfl⟩
  | _ =>
      cases h
      exact .inl ⟨rfl, rfl⟩

theorem Relayed.perform {a : Act} {mem mem' : Mem} {o : a.Out} {c : Nat} (hr : Relayed c mem)
    (h : a.perform mem = some (mem', o)) : Relayed c mem' := by
  intro r hin m
  rcases perform_queue h c with ⟨-, hinbox⟩ | ⟨-, -, -, hinbox⟩ | ⟨r', hinbox, -⟩ |
    ⟨m', hats, hinbox, -⟩
  · exact hr r (hinbox ▸ hin) m
  · exact hr r (hinbox ▸ hin) m
  · refine hr r ?_ m
    rw [hinbox]
    exact List.mem_cons_of_mem _ hin
  · rw [hinbox] at hin
    rcases List.mem_append.1 hin with hin | hin
    · exact hr r hin m
    · rw [List.mem_singleton.1 hin]
      rfl

/-- Only a `HatsMine` of the map changes what the last one says. -/
theorem lastMine_perform {a : Act} {mem mem' : Mem} {o : a.Out} {c : Nat} {m : String}
    (hr : Relayed c mem) (h : a.perform mem = some (mem', o)) :
    lastMine m (mem'.conns c).queue = lastMine m (mem.conns c).queue ∨
      ∃ equipped items, a = .send c (.hatsMine m equipped items) ∧
        lastMine m (mem'.conns c).queue = some items := by
  rcases perform_queue h c with ⟨hqueue, -⟩ | ⟨r, rfl, hqueue, -⟩ |
    ⟨r, hinbox, hqueue⟩ | ⟨-, -, -, hqueue⟩
  · exact .inl (by rw [hqueue])
  · rw [hqueue, lastMine_concat]
    cases r with
    | hatsMine m' equipped items =>
        by_cases hm : m' = m
        · subst hm
          exact .inr ⟨equipped, items, rfl, by simp [mineOf]⟩
        · exact .inl (by simp [mineOf, hm])
    | _ => exact .inl rfl
  · have hno : mineOf m r = none := hr r (by rw [hinbox]; exact List.mem_cons_self) m
    exact .inl (by rw [hqueue, lastMine_concat, hno]; rfl)
  · exact .inl (by rw [hqueue])

/-! ## Pushes in order -/

/-- The committed rows in which the task just read the items of a push. -/
def itemsSeen : Log → Option Db
  | .read (.named fn) db :: _ => if fn = "get_hats_mine: items" then some db else none
  | _ => none

/-- The push of this task is owed, and its items are read. -/
def HasRead (c : Nat) (m : String) (t : ServerTask) : Prop :=
  OwesPush c m t ∧ (itemsSeen t.loc.log).isSome = true

instance (c : Nat) (m : String) (t : ServerTask) : Decidable (HasRead c m t) :=
  inferInstanceAs (Decidable (_ ∧ _))

/-- The connection and the map that the task drains next. -/
def drains (s : System) (t : ServerTask) : Option (Nat × String) :=
  match t.prog with
  | .act (.releaseUnlock c m slug) _ =>
      if ((s.mem.conns c).pending.remove (m, slug)).2 = true then some (c, m) else none
  | _ => none

/-- No release drains the map while another push of the map has its items and is not in the queue
yet. -/
def InOrder (c : Nat) (m : String) (s : System) : Move Ask.Ans Job → Prop
  | .run i _ =>
      ∀ t ∈ s.tasks[i]?, drains s t = some (c, m) → ∀ u ∈ s.tasks, ¬HasRead c m u
  | _ => True

instance (c : Nat) (m : String) (s : System) :
    (mv : Move Ask.Ans Job) → Decidable (InOrder c m s mv)
  | .start _ => .isTrue trivial
  | .run i _ => inferInstanceAs (Decidable
      (∀ t ∈ s.tasks[i]?, drains s t = some (c, m) → ∀ u ∈ s.tasks, ¬HasRead c m u))
  | .drop _ => .isTrue trivial

/-- The validations of the runtime are kept, and the map stays bound. -/
def OnBoundMap (pg : Pg) (db₀ : Db) (m : String) (s : System) (mv : Move Ask.Ans Job) : Prop :=
  KeepsUnlocks s mv ∧ StaysBound pg m db₀ s.db

/-- These rows have every unlock that the validations of the connection committed. -/
structure UpToDate (pg : Pg) (c : Nat) (m : String) (s : System) (db : Db) : Prop where
  usable : Hats.bindingUsable pg db m = true
  granted : ∀ u slug, Granted c u m slug s → HasHat u m slug db

/-- What holds whatever the order of the pushes. -/
structure Tracked (pg : Pg) (c : Nat) (s : System) : Prop where
  looking : Looking pg s
  reads : Sound (protocol pg .any) (fun _ _ => True) (Job.reads pg) (fun _ _ _ _ => True) s
  single : unlockOwners.Single s
  user : OneUser c s
  relayed : Relayed c s.mem

/-- Rows that a task read for a push have every unlock that is committed, or another push is to
come. -/
structure Following (pg : Pg) (c : Nat) (m : String) (s : System) : Prop where
  now : ∀ u slug, Granted c u m slug s → HasHat u m slug s.db
  looked : ∀ t ∈ s.tasks, opened t.loc.log = some c → clearMap t.loc.log = some m →
    ∀ db, anchor t.loc.log = some db → UpToDate pg c m s db
  read : ∀ t ∈ s.tasks, OwesPush c m t → ∀ db, itemsSeen t.loc.log = some db →
    (s.mem.conns c).pending.anyForMap m = true ∨ UpToDate pg c m s db
  last : ∀ u slug, Granted c u m slug s → (s.mem.conns c).pending.anyForMap m = true ∨
    (∃ t ∈ s.tasks, drained t.loc.log = some (c, m)) ∨
    ∃ items, lastMine m (s.mem.conns c).queue = some items ∧ Shows slug items

section

variable {pg : Pg} {db₀ : Db} {s s' : System} {c : Nat} {u : Uuid} {m slug : String}

theorem abandon_messages (log : Log) (mem : Mem) :
    SameMessages mem.conns (shared.abandon log mem).conns := by
  obtain ⟨conns, h, hsame⟩ := abandon_eq log mem
  rw [h]
  exact hsame

theorem Relayed.move {mv : Move Ask.Ans Job} (h : Relayed c s.mem)
    (hm : s.move shared (Job.body pg) mv = some s') : Relayed c s'.mem := by
  cases Sys.move_cases hm with
  | started j hdb hmem htasks => exact hmem ▸ h
  | dropped i t ht hdb hmem htasks =>
      intro r hin
      rw [hmem, (abandon_messages _ _ c).2] at hin
      exact h r hin
  | ran i ch t t' ht hjob htasks hadv =>
      rcases advance_acts hadv with ⟨a, o, next, hp, hperf, -⟩ | ⟨hmem, -⟩
      · exact h.perform hperf
      · exact hmem ▸ h

theorem RunFrom.tracked (hinv : Inv pg False db₀) (h : RunFrom pg db₀ s) : Tracked pg c s where
  looking := h.looking hinv
  reads := Reach.sound (fun j _ hinv => j.safe_reads hinv)
    (show (protocol pg .any).Inv (System.on db₀).db from hinv)
    rfl h
  single := h.single hinv
  user := h.oneUser hinv
  relayed := by
    induction h with
    | init =>
        intro r hin
        cases hin
    | step _ _ hm ih => exact ih.move hm

/-! ## What is granted -/

/-- An unlock is old, or was committed just now by a validation that holds its entry. -/
theorem Granted.of_move {mv : Move Ask.Ans Job} (ht' : Tracked pg c s)
    (hm : s.move shared (Job.body pg) mv = some s') (h : Granted c u m slug s') :
      Granted c u m slug s ∨ HasHat u m slug s'.db ∧
      (s.mem.conns c).pending.anyForMap m = true ∧ s'.mem = s.mem := by
  have hsane' : Sane pg s' := ht'.looking.sane.move hm
  obtain ⟨v, hv, specId, pre, post, hj, hcommit, hhas⟩ := h
  cases Sys.move_cases hm with
  | started j hdb hmem htasks =>
      rw [htasks] at hv
      rcases List.mem_append.1 hv with hv | hv
      · exact .inl ⟨v, hv, specId, pre, post, hj, hcommit, hhas⟩
      · rw [List.mem_singleton.1 hv] at hcommit
        cases hcommit
  | dropped i t ht hdb hmem htasks =>
      rw [htasks] at hv
      exact .inl ⟨v, List.mem_of_mem_eraseIdx hv, specId, pre, post, hj, hcommit, hhas⟩
  | ran i ch t t' ht hjob htasks hadv =>
      have hv' := hv
      rw [htasks] at hv'
      rcases List.mem_or_eq_of_mem_set hv' with hold | rfl
      · exact .inl ⟨v, hold, specId, pre, post, hj, hcommit, hhas⟩
      · have hprev : .committed pre post ∈ t.loc.log → Granted c u m slug s := fun hin =>
          ⟨t, List.mem_of_getElem? ht, specId, pre, post, hjob.symm.trans hj, hin, hhas⟩
        rcases advance_commits hadv with hlog | ⟨-, hsame⟩
        · rw [hlog] at hcommit
          rcases List.mem_cons.1 hcommit with he | hcommit
          · cases he
            right
            have hheld := (hsane'.kept v hv).commit [] _ _ _ hlog
            rw [hj] at hheld
            have hmarked : unlockOwners.marked s.mem (c, m, slug) := by
              refine ht'.single.marked _ (List.mem_append_left _ ?_)
              refine List.mem_flatMap.2 ⟨t, List.mem_of_getElem? ht, ?_⟩
              show (c, m, slug) ∈ heldUnlocks t.loc.log
              rw [hheld.1]
              exact List.mem_cons_self
            refine ⟨hhas, anyForMap_iff.2 ⟨slug, hmarked⟩, ?_⟩
            rcases advance_acts hadv with ⟨a, o, next, hp, hperf, hlog'⟩ | ⟨hmem, -⟩
            · rw [hlog] at hlog'
              cases hlog'
            · exact hmem
          · exact .inl (hprev hcommit)
        · exact .inl (hprev ((hsame pre post).1 hcommit))

/-- An unlock was committed by a validation that began. -/
theorem Granted.begun (hsane : Sane pg s) (h : Granted c u m slug s) :
    ∃ t ∈ s.tasks, ∃ specId, .acted (.begun (.unlockValidation c u m slug specId)) () ∈
      t.loc.log := by
  obtain ⟨t, ht, specId, pre, post, hj, hcommit, -⟩ := h
  obtain ⟨newer, older, hlog⟩ := List.append_of_mem hcommit
  have hkept := hsane.kept t ht
  have hheld := hkept.commit newer pre post older hlog
  rw [hj] at hkept hheld
  rw [hlog] at hkept
  refine ⟨t, ht, specId, ?_⟩
  rw [hlog]
  refine List.mem_append_right _ (List.mem_cons_of_mem _ (Kept.begun hkept.older.tail ?_))
  rw [hheld.1]
  exact List.cons_ne_nil _ _

/-- Rows that were up to date are, unless a validation is outstanding. -/
theorem UpToDate.move {mv : Move Ask.Ans Job} {db : Db} (ht : Tracked pg c s)
    (hm : s.move shared (Job.body pg) mv = some s') (h : UpToDate pg c m s db) :
    (s'.mem.conns c).pending.anyForMap m = true ∨ UpToDate pg c m s' db := by
  by_cases hany : (s'.mem.conns c).pending.anyForMap m = true
  case pos => exact .inl hany
  case neg =>
    refine .inr ⟨h.usable, fun u slug hgranted => ?_⟩
    rcases hgranted.of_move ht hm with hold | ⟨-, hpending, hmem⟩
    · exact h.granted u slug hold
    · exact absurd (hmem ▸ hpending) hany

theorem Following.now_move {mv : Move Ask.Ans Job} (ht : Tracked pg c s) (h : Following pg c m s)
    (hm : s.move shared (Job.body pg) mv = some s') (hb : StaysBound pg m db₀ s.db)
    (hb' : StaysBound pg m db₀ s'.db) : UpToDate pg c m s' s'.db := by
  refine ⟨hb'.usable, fun u slug hgranted => ?_⟩
  rcases hgranted.of_move ht hm with hold | ⟨hnew, -⟩
  · have hhas := h.now u slug hold
    rcases ht.looking.sane.moved hm with he | ⟨-, hc⟩
    · rw [he]
      exact hhas
    · exact hhas.stays hb hb' hc
  · exact hnew

/-! ## Reads -/

/-- The rows a task saw last are those of now, or it saw them before and did nothing since. -/
theorem anchor_advance {held : List (Lock Table.Key)} {db db' db₁ : Db} {mem mem' : Mem}
    {p p' : Server Unit} {l l' : Local Table.Key Table.Row Tag Ask.Ans Act.Out}
    {ch : Choice Ask.Ans} (hadv : advance shared held db mem p l ch = some (db', mem', p', l'))
    (h : anchor l'.log = some db₁) :
    db₁ = db' ∨ db' = db ∧ ∃ new, l'.log = new ++ l.log ∧ acts new = [] ∧
    anchor l.log = some db₁ := by
  cases advance_cases hadv with
  | acted a o next hp hperf hdb hp' hlog =>
      rw [hlog] at h
      cases h
  | looked tag hdb hmem hlog =>
      rw [hlog] at h
      cases h
      exact .inl hdb.symm
  | committed hmem hlog =>
      rw [hlog] at h
      cases h
      exact .inl rfl
  | passed new hdb hmem hlog hnew =>
      obtain ⟨hacts, hanchor⟩ := passive_quiet hnew
      rw [hlog, hanchor] at h
      exact .inr ⟨hdb, new, hlog, hacts, h⟩

theorem itemsSeen_eq {log : Log} {db : Db} (h : itemsSeen log = some db) :
    ∃ older, log = .read (.named "get_hats_mine: items") db :: older := by
  unfold itemsSeen at h
  split at h
  case h_1 fn db' older =>
    split at h
    case isTrue hfn =>
      cases h
      exact ⟨older, by rw [hfn]⟩
    case isFalse => cases h
  case h_2 => cases h

/-- The items a task saw last are those of now, or nothing is in its log since. -/
theorem itemsSeen_advance {held : List (Lock Table.Key)} {db db' db₁ : Db} {mem mem' : Mem}
    {p p' : Server Unit} {l l' : Local Table.Key Table.Row Tag Ask.Ans Act.Out}
    {ch : Choice Ask.Ans} (hadv : advance shared held db mem p l ch = some (db', mem', p', l'))
    (h : itemsSeen l'.log = some db₁) :
    db₁ = db' ∨ mem' = mem ∧ itemsSeen l.log = some db₁ := by
  obtain ⟨older, hread⟩ := itemsSeen_eq h
  cases advance_cases hadv with
  | acted a o next hp hperf hdb hp' hlog =>
      rw [hlog] at hread
      cases hread
  | looked tag hdb hmem hlog =>
      rw [hlog] at hread
      cases hread
      exact .inl hdb.symm
  | committed hmem hlog =>
      rw [hlog] at hread
      cases hread
  | passed new hdb hmem hlog hnew =>
      cases new with
      | nil =>
          rw [hlog] at h
          exact .inr ⟨hmem, h⟩
      | cons ev new =>
          rw [hlog] at hread
          cases hread
          exact (hnew _ List.mem_cons_self).elim

theorem Following.looked_move {mv : Move Ask.Ans Job} (ht : Tracked pg c s) (h : Following pg c m s)
    (hm : s.move shared (Job.body pg) mv = some s') (hnow : UpToDate pg c m s' s'.db) :
    ∀ t ∈ s'.tasks, opened t.loc.log = some c → clearMap t.loc.log = some m →
      ∀ db, anchor t.loc.log = some db → UpToDate pg c m s' db := by
  intro v hv hopened hclear db hanchor
  -- the read loop began nothing, so nothing was committed
  have hno : (s'.mem.conns c).pending.anyForMap m = false :=
    (ht.looking.move hm).clear v hv c m hopened hclear
  have hkeep : UpToDate pg c m s db → UpToDate pg c m s' db := by
    intro hup
    rcases hup.move ht hm with hany | hup
    · rw [hno] at hany
      cases hany
    · exact hup
  cases Sys.move_cases hm with
  | started j hdb hmem htasks =>
      rw [htasks] at hv
      rcases List.mem_append.1 hv with hv | hv
      · exact hkeep (h.looked v hv hopened hclear db hanchor)
      · rw [List.mem_singleton.1 hv] at hopened
        cases hopened
  | dropped i t hi hdb hmem htasks =>
      rw [htasks] at hv
      exact hkeep (h.looked v (List.mem_of_mem_eraseIdx hv) hopened hclear db hanchor)
  | ran i ch t t' hi hjob htasks hadv =>
      rw [htasks] at hv
      rcases List.mem_or_eq_of_mem_set hv with hv | rfl
      · exact hkeep (h.looked v hv hopened hclear db hanchor)
      · rcases anchor_advance hadv hanchor with rfl | ⟨-, new, hlog, hacts, hanchor⟩
        · exact hnow
        · rw [hlog, opened_ofActs.quiet hacts] at hopened
          rw [hlog, clearMap_ofActs.quiet hacts] at hclear
          exact hkeep (h.looked t (List.mem_of_getElem? hi) hopened hclear db hanchor)

/-- Where no entry of the map is left, a release drained the map just now. -/
theorem drained_now {mv : Move Ask.Ans Job} (hkeeps : KeepsUnlocks s mv)
    (hm : s.move shared (Job.body pg) mv = some s')
    (hyes : (s.mem.conns c).pending.anyForMap m = true)
    (hno : (s'.mem.conns c).pending.anyForMap m = false) :
    ∃ i ch u t, mv = .run i ch ∧ s.tasks[i]? = some u ∧ drains s u = some (c, m) ∧
      s'.tasks[i]? = some t ∧ drained t.loc.log = some (c, m) := by
  obtain ⟨slug, i, ch, u, next, t, rfl, hu, hp, ht, hjob, hlog⟩ :=
    drained_by_release hkeeps hm hyes hno
  have hperf : Performs pg s s' (.releaseUnlock c m slug) true t :=
    ⟨i, ch, u, next, hu, hp, hm, ht, hjob, hlog⟩
  have hout := hperf.perform
  simp only [Act.perform, Option.some.injEq, Prod.mk.injEq] at hout
  refine ⟨i, ch, u, t, rfl, hu, ?_, ht, ?_⟩
  · simp [drains, hp, hout.2]
  · rw [hlog]
    rfl

theorem Following.read_move {mv : Move Ask.Ans Job} (ht : Tracked pg c s) (h : Following pg c m s)
    (hkeeps : KeepsUnlocks s mv) (horder : InOrder c m s mv)
    (hm : s.move shared (Job.body pg) mv = some s') (hnow : UpToDate pg c m s' s'.db) :
    ∀ t ∈ s'.tasks, OwesPush c m t → ∀ db, itemsSeen t.loc.log = some db →
      (s'.mem.conns c).pending.anyForMap m = true ∨ UpToDate pg c m s' db := by
  intro v hv howes db hseen
  have hkeep : v ∈ s.tasks → (s'.mem.conns c).pending.anyForMap m = true ∨
      UpToDate pg c m s' db := by
    intro hold
    rcases h.read v hold howes db hseen with hany | hup
    · by_contra hno
      have hnone : (s'.mem.conns c).pending.anyForMap m = false :=
        Bool.eq_false_of_not_eq_true fun hyes => hno (.inl hyes)
      obtain ⟨i, ch, u, t, rfl, hu, hdrains, -⟩ := drained_now hkeeps hm hany hnone
      exact horder u hu hdrains v hold ⟨howes, by rw [hseen]; rfl⟩
    · exact hup.move ht hm
  cases Sys.move_cases hm with
  | started j hdb hmem htasks =>
      rw [htasks] at hv
      rcases List.mem_append.1 hv with hv | hv
      · exact hkeep hv
      · rw [List.mem_singleton.1 hv] at hseen
        cases hseen
  | dropped i t hi hdb hmem htasks =>
      rw [htasks] at hv
      exact hkeep (List.mem_of_mem_eraseIdx hv)
  | ran i ch t t' hi hjob htasks hadv =>
      rw [htasks] at hv
      rcases List.mem_or_eq_of_mem_set hv with hv | rfl
      · exact hkeep hv
      · have hseen' := hseen
        rcases itemsSeen_advance hadv hseen with rfl | ⟨hmem, hseen⟩
        · exact .inr hnow
        · rcases OwesPush.of_advance hadv howes with ⟨hold, -⟩ | ⟨-, slug, hlog⟩
          · rcases h.read t (List.mem_of_getElem? hi) hold db hseen with hany | hup
            · exact .inl (hmem ▸ hany)
            · exact hup.move ht hm
          · obtain ⟨older, hread⟩ := itemsSeen_eq hseen'
            rw [hlog] at hread
            cases hread

/-! ## Sends -/

/-- The read loop and the validations of a connection are of one user. -/
theorem OfUser.granted {u v : Uuid} (h : OfUser c u s) (hsane : Sane pg s)
    (hg : Granted c v m slug s) : v = u := by
  obtain ⟨t, ht, specId, hbegun⟩ := hg.begun hsane
  exact h.begun t ht v m slug specId hbegun

/-- What goes into the queue shows every unlock, or a validation is outstanding. -/
theorem Following.sends (ht : Tracked pg c s) (h : Following pg c m s) {t : ServerTask}
    (htm : t ∈ s.tasks) {equipped : String} {items : List HatMineItem}
    {next : Unit → Server Unit} (hp : t.prog = .act (.send c (.hatsMine m equipped items)) next) :
    (s.mem.conns c).pending.anyForMap m = true ∨ ∀ u slug, Granted c u m slug s →
    Shows slug items := by
  have hsane := ht.looking.sane
  have hact := Sound.act hsane htm hp
  obtain ⟨u, huser⟩ := ht.user.user
  have hshown : ∀ {db : Db}, UpToDate pg c m s db → ∀ v slug, Granted c v m slug s →
      Shows slug (Hats.mineItems pg db u m) := by
    intro db hup v slug hg
    obtain rfl := huser.granted hsane hg
    exact (hup.granted v slug hg).shown hup.usable
  rcases hsane.orderly htm hp with ⟨hopened, hclear⟩ | hdrained
  · right
    obtain ⟨name, requests, hj⟩ := huser.loop t htm hopened
    rw [hj] at hact
    obtain ⟨-, -, db, hanchor, rfl⟩ := hact
    exact hshown (h.looked t htm hopened hclear db hanchor)
  · obtain ⟨v, slug, specId, hj, hbegun⟩ := hsane.owing htm hdrained
    obtain rfl := huser.begun t htm v m slug specId hbegun
    have hread := Sound.act ht.reads htm hp
    rw [hj] at hread
    obtain ⟨equipped', db, older, hlog, he⟩ := hread
    cases he
    have howes : OwesPush c m t := ⟨hdrained, by rw [hp]; rfl⟩
    have hseen : itemsSeen t.loc.log = some db := by rw [hlog]; rfl
    exact (h.read t htm howes db hseen).imp_right hshown

/-- After a release that drained its map comes the push. -/
theorem Tracked.only_push (ht : Tracked pg c s) {t : ServerTask} (htm : t ∈ s.tasks)
    (hd : drained t.loc.log = some (c, m)) {a : Act} {next : a.Out → Server Unit}
    (hp : t.prog = .act a next) : ∃ equipped items, a = .send c (.hatsMine m equipped items) := by
  obtain ⟨u, slug, specId, hj, -⟩ := ht.looking.sane.owing htm hd
  have hact := Sound.act ht.looking.sane htm hp
  have hread := Sound.act ht.reads htm hp
  rw [hj] at hact hread
  cases a with
  | send c' r =>
      obtain ⟨rfl, -, equipped, db, -, rfl⟩ := hact
      exact ⟨equipped, _, rfl⟩
  | _ => exact absurd (hd.symm.trans hread) (by simp)

/-- A task that drained the map is still there, or its push went into the queue just now. -/
theorem Tracked.owing_move {mv : Move Ask.Ans Job} (ht : Tracked pg c s)
    (hkeeps : KeepsUnlocks s mv) (hm : s.move shared (Job.body pg) mv = some s') {t : ServerTask}
    (htm : t ∈ s.tasks) (hd : drained t.loc.log = some (c, m)) :
      (∃ t ∈ s'.tasks, drained t.loc.log = some (c, m)) ∨
        ∃ i ch equipped items next, mv = .run i ch ∧ s.tasks[i]? = some t ∧
        t.prog = .act (.send c (.hatsMine m equipped items)) next := by
  obtain ⟨u, slug, specId, hj, -⟩ := ht.looking.sane.owing htm hd
  cases Sys.move_cases hm with
  | started j hdb hmem htasks =>
      left
      refine ⟨t, ?_, hd⟩
      rw [htasks]
      exact List.mem_append_left _ htm
  | dropped i v hv hdb hmem htasks =>
      left
      obtain ⟨k, hk⟩ := List.getElem?_of_mem htm
      have hne : k ≠ i := by
        rintro rfl
        obtain rfl : v = t := Option.some.inj (hv.symm.trans hk)
        have hno := (hkeeps v hv).2 c
        simp [hj, Job.validates, validates] at hno
      refine ⟨t, ?_, hd⟩
      rw [htasks]
      exact List.mem_eraseIdx_iff_getElem?.2 ⟨k, hne, hk⟩
  | ran i ch v v' hv hjob htasks hadv =>
      obtain ⟨k, hk⟩ := List.getElem?_of_mem htm
      have hlen : i < s.tasks.length := (List.getElem?_eq_some_iff.1 hv).1
      rcases eq_or_ne i k with rfl | hne
      · obtain rfl : v = t := Option.some.inj (hv.symm.trans hk)
        rcases advance_acts hadv with ⟨a, o, next, hp, hperf, hlog⟩ |
          ⟨hmem, new, hlog, hacts⟩
        · obtain ⟨equipped, items, rfl⟩ := ht.only_push htm hd hp
          exact .inr ⟨i, ch, equipped, items, next, rfl, hv, hp⟩
        · left
          refine ⟨v', ?_, ?_⟩
          · rw [htasks]
            exact List.mem_set hlen _
          · rw [hlog, drained_ofActs.quiet hacts]
            exact hd
      · left
        refine ⟨t, ?_, hd⟩
        rw [htasks]
        exact List.mem_of_getElem? ((List.getElem?_set_ne hne).trans hk)

theorem Following.last_move {mv : Move Ask.Ans Job} (ht : Tracked pg c s) (h : Following pg c m s)
    (hkeeps : KeepsUnlocks s mv) (hm : s.move shared (Job.body pg) mv = some s') :
    ∀ u slug, Granted c u m slug s' → (s'.mem.conns c).pending.anyForMap m = true ∨
      (∃ t ∈ s'.tasks, drained t.loc.log = some (c, m)) ∨
      ∃ items, lastMine m (s'.mem.conns c).queue = some items ∧ Shows slug items := by
  intro u slug hgranted
  rcases hgranted.of_move ht hm with hold | ⟨-, hpending, hmem⟩
  case inr => exact .inl (hmem ▸ hpending)
  -- the validation that is outstanding still is, or it drained the map
  have hany : (s.mem.conns c).pending.anyForMap m = true →
      (s'.mem.conns c).pending.anyForMap m = true ∨
      (∃ t ∈ s'.tasks, drained t.loc.log = some (c, m)) ∨
      ∃ items, lastMine m (s'.mem.conns c).queue = some items ∧ Shows slug items := by
    intro hyes
    by_cases hno : (s'.mem.conns c).pending.anyForMap m = true
    · exact .inl hno
    · obtain ⟨i, ch, v, t, -, -, -, hi, hd⟩ :=
        drained_now hkeeps hm hyes (Bool.eq_false_of_not_eq_true hno)
      exact .inr (.inl ⟨t, List.mem_of_getElem? hi, hd⟩)
  -- what goes into the queue now shows the unlock
  have hsend : ∀ i ch t equipped items next, mv = .run i ch → s.tasks[i]? = some t →
      t.prog = .act (.send c (.hatsMine m equipped items)) next →
        (s'.mem.conns c).pending.anyForMap m = true ∨
      (∃ t ∈ s'.tasks, drained t.loc.log = some (c, m)) ∨
      ∃ items, lastMine m (s'.mem.conns c).queue = some items ∧ Shows slug items := by
    rintro i ch t equipped items next rfl hi hp
    rcases h.sends ht (List.mem_of_getElem? hi) hp with hyes | hshows
    · exact hany hyes
    · obtain ⟨o, t', hperf⟩ := Performs.of_move hi hp hm
      have hout := hperf.perform
      simp only [Act.perform, Option.some.injEq, Prod.mk.injEq] at hout
      refine .inr (.inr ⟨items, ?_, hshows u slug hold⟩)
      rw [← hout.1, modify_conns_self, lastMine_concat]
      simp [mineOf]
  rcases h.last u slug hold with hyes | ⟨t, htm, hd⟩ | ⟨items, hlast, hshows⟩
  · exact hany hyes
  · rcases ht.owing_move hkeeps hm htm hd with hlasts |
      ⟨i, ch, equipped, items, next, he, hi, hp⟩
    · exact .inr (.inl hlasts)
    · exact hsend i ch t equipped items next he hi hp
  · have hsame : lastMine m (s'.mem.conns c).queue = lastMine m (s.mem.conns c).queue →
        (s'.mem.conns c).pending.anyForMap m = true ∨
          (∃ t ∈ s'.tasks, drained t.loc.log = some (c, m)) ∨
        ∃ items, lastMine m (s'.mem.conns c).queue = some items ∧ Shows slug items :=
      fun he => .inr (.inr ⟨items, he.trans hlast, hshows⟩)
    cases Sys.move_cases hm with
    | started j hdb hmem htasks => exact hsame (by rw [hmem])
    | dropped i t hi hdb hmem htasks => exact hsame (by rw [hmem, (abandon_messages _ _ c).1])
    | ran i ch t t' hi hjob htasks hadv =>
        rcases advance_acts hadv with ⟨a, o, next, hp, hperf, -⟩ | ⟨hmem, -⟩
        · rcases lastMine_perform (m := m) ht.relayed hperf with he |
            ⟨equipped, items', rfl, -⟩
          · exact hsame he
          · exact hsend i ch t equipped items' next rfl hi hp
        · exact hsame (by rw [hmem])

theorem Following.start : Following pg c m (System.on db₀) where
  now u slug h := by
    obtain ⟨t, ht, -⟩ := h
    cases ht
  looked := by simp [System.on]
  read := by simp [System.on]
  last u slug h := by
    obtain ⟨t, ht, -⟩ := h
    cases ht

theorem following (hinv : Inv pg False db₀)
    (h : ReachBy shared (Job.body pg) (fun s mv => OnBoundMap pg db₀ m s mv ∧
      InOrder c m s mv) (System.on db₀) s)
    (hbound : StaysBound pg m db₀ s.db) : Following pg c m s := by
  induction h with
  | init => exact .start
  | @step s s' mv hs hok hm ih =>
      obtain ⟨⟨hkeeps, hb⟩, horder⟩ := hok
      have ht : Tracked pg c s := RunFrom.tracked hinv (hs.reach fun s _ _ => s.admits_true)
      have hf := ih hb
      have hnow := hf.now_move ht hm hb hbound
      exact ⟨hnow.granted, hf.looked_move ht hm hnow, hf.read_move ht hkeeps horder hm hnow,
        hf.last_move ht hkeeps hm⟩

/-- Where pushes of a map that stays bound go into the queue before another release drains the map,
and every push that is owed went there, the last `HatsMine` of the map shows every unlock that the
validations committed. -/
theorem last_hats_mine_shows (hinv : Inv pg False db₀)
    (h : ReachBy shared (Job.body pg)
      (fun s mv => OnBoundMap pg db₀ m s mv ∧ InOrder c m s mv) (System.on db₀) s)
    (hbound : StaysBound pg m db₀ s.db) (hsettled : Settled c s)
    (hpushed : ∀ t ∈ s.tasks, drained t.loc.log ≠ some (c, m)) :
    ∀ u slug, Granted c u m slug s →
      ∃ items, lastMine m (s.mem.conns c).queue = some items ∧ Shows slug items := by
  intro u slug hgranted
  have howned : unlockOwners.Owned s := KeepsUnlocks.owned hinv (h.mono fun _ _ hok => hok.1.1)
  rcases (following hinv h hbound).last u slug hgranted with hany | ⟨t, ht, hd⟩ | hshows
  · obtain ⟨slug', hin⟩ := anyForMap_iff.1 hany
    rw [hsettled.drained howned] at hin
    exact absurd hin (Finset.notMem_empty _)
  · exact absurd hd (hpushed t ht)
  · exact hshows

end

namespace Sample

/-- The hats of the map. -/
def hats (db : Db) : List (Table.Key .hatOnMap × Table.Row .hatOnMap) :=
  selectWhere .hatOnMap (fun k _ => k.1 = Sample.mapUid) db

/-- The rows show that the map stays bound, and no task is dropped. -/
def Steady (db₀ : Db) (s : System) : Move Ask.Ans Job → Prop
  | .drop _ => False
  | _ => Hats.bindingUsable Sample.pg s.db Sample.mapUid = true ∧ hats s.db = hats db₀

instance (db₀ : Db) (s : System) : (mv : Move Ask.Ans Job) → Decidable (Steady db₀ s mv)
  | .start _ => inferInstanceAs (Decidable (_ ∧ _))
  | .run _ _ => inferInstanceAs (Decidable (_ ∧ _))
  | .drop _ => .isFalse id

theorem staysBound {db₀ db : Db} (hb : Hats.bindingUsable Sample.pg db Sample.mapUid = true)
    (hh : hats db = hats db₀) : StaysBound Sample.pg Sample.mapUid db₀ db where
  usable := hb
  hats slug := by
    refine Option.ext fun x => ?_
    have hiff : ∀ db : Db, db.get ⟨.hatOnMap, (Sample.mapUid, slug)⟩ = some x ↔
        ((Sample.mapUid, slug), x) ∈ hats db := by
      intro db
      rw [hats, mem_selectWhere, and_iff_left]
      exact decide_eq_true rfl
    rw [hiff, hiff, hh]

theorem Steady.onBoundMap {db₀ : Db} {s : System} {mv : Move Ask.Ans Job}
    (h : Steady db₀ s mv) : OnBoundMap Sample.pg db₀ Sample.mapUid s mv := by
  cases mv with
  | start j => exact ⟨trivial, staysBound h.1 h.2⟩
  | run i ch => exact ⟨trivial, staysBound h.1 h.2⟩
  | drop i => exact h.elim

/-- The log has a commit that leaves the hat unlocked. -/
def unlocks (log : Log) : Bool := log.any fun
  | .committed _ post => (post.get ⟨.hatOnMap, (Sample.mapUid, "Hat-1")⟩).any fun h =>
      (post.get ⟨.hatUnlock, (1, h.hatKey)⟩).isSome
  | _ => false

/-- The task validated the hat, and committed. -/
def validatedHat (t : ServerTask) : Bool :=
  match t.job with
  | .spawned (.unlockValidation c u m slug _) =>
      decide (c = 0 ∧ u = 1 ∧ m = Sample.mapUid ∧ slug = "Hat-1") && unlocks t.loc.log
  | _ => false

theorem granted {s : System} (h : (s.tasks.any validatedHat) = true) :
    Granted 0 1 Sample.mapUid "Hat-1" s := by
  obtain ⟨t, ht, h⟩ := List.any_eq_true.1 h
  unfold validatedHat at h
  split at h
  case h_1 c u m slug specId hj =>
    rw [Bool.and_eq_true, decide_eq_true_eq] at h
    obtain ⟨⟨rfl, rfl, rfl, rfl⟩, h⟩ := h
    obtain ⟨ev, hev, h⟩ := List.any_eq_true.1 h
    cases ev with
    | committed pre post =>
        obtain ⟨x, hx, hsome⟩ := (Option.any_eq_true _ _).1 h
        obtain ⟨r, hr⟩ := Option.isSome_iff_exists.1 hsome
        exact ⟨t, ht, specId, pre, post, hj, hev, x, r, hx, hr⟩
    | _ => cases h
  case h_2 => cases h

/-- The author reports the hat of a bound map twice, and the first report is denied and has its push
ready. -/
def deniedFirst : List (ReadCommitted.Cue Ask.Ans Job) :=
  [.start (.connection 1 "Author"
    [.reportHatUnlock Sample.mapUid "Hat-1" 7, .reportHatUnlock Sample.mapUid "Hat-1" 7]),
   .go 0 5 (Sample.answers 7 none),
     .start (.spawned (.unlockValidation 0 1 Sample.mapUid "Hat-1" 7)),
   .go 1 13 noRecord]

/-- The second report is validated. -/
def validatedSecond : List (ReadCommitted.Cue Ask.Ans Job) :=
  [.go 0 4 (Sample.answers 7 none),
   .start (.spawned (.unlockValidation 0 1 Sample.mapUid "Hat-1" 7)),
   .go 2 80 (Sample.answers 7 none)]

/-- The validations are over, and their pushes are in the queue. -/
def Over (s : System) : Prop :=
  Settled 0 s ∧ (∀ t ∈ s.tasks, drained t.loc.log ≠ some (0, Sample.mapUid)) ∧
    (s.tasks.any validatedHat) = true

instance (s : System) : Decidable (Over s) := inferInstanceAs (Decidable (_ ∧ _ ∧ _))

end Sample

/-- The push of the first report goes into the queue after the one of the second. -/
theorem last_hats_mine_stale : ∃ db₀ s,
    ReachBy shared (Job.body Sample.pg) (OnBoundMap Sample.pg db₀ Sample.mapUid)
      (System.on db₀) s ∧
    StaysBound Sample.pg Sample.mapUid db₀ s.db ∧ Settled 0 s ∧
    (∀ t ∈ s.tasks, drained t.loc.log ≠ some (0, Sample.mapUid)) ∧
    Granted 0 1 Sample.mapUid "Hat-1" s ∧
    ∃ items, lastMine Sample.mapUid (s.mem.conns 0).queue = some items ∧
    ¬Shows "Hat-1" items := by
  obtain ⟨s₀, -, h⟩ : ∃ s₀, RunFrom Sample.pg Store.empty s₀ ∧
      (((System.on s₀.db).scriptBy shared (Job.body Sample.pg) (Sample.Steady s₀.db)
        (Sample.deniedFirst ++ Sample.validatedSecond ++ [.go 1 1 (Sample.answers 7 none)])).any
          fun s =>
          decide (Sample.Over s ∧ Sample.Steady s₀.db s (.start .deliver) ∧
            ((lastMine Sample.mapUid (s.mem.conns 0).queue).any fun items =>
              decide ¬Shows "Hat-1" items) = true)) = true :=
    Reach.scripted Sample.mapBound (by decide +kernel)
  obtain ⟨s, hs, h⟩ := (Option.any_eq_true _ _).1 h
  obtain ⟨⟨hsettled, hpushed, hvalidated⟩, ⟨hb, hh⟩, hlast⟩ := of_decide_eq_true h
  obtain ⟨items, hitems, hno⟩ := (Option.any_eq_true _ _).1 hlast
  exact ⟨s₀.db, s, (ReachBy.scriptBy .init hs).mono fun _ _ => Sample.Steady.onBoundMap,
    Sample.staysBound hb hh, hsettled, hpushed, Sample.granted hvalidated, items, hitems,
      of_decide_eq_true hno⟩

theorem last_hats_mine_shows_author : ∃ s items, Granted 0 1 Sample.mapUid "Hat-1" s ∧
    lastMine Sample.mapUid (s.mem.conns 0).queue = some items ∧ Shows "Hat-1" items := by
  obtain ⟨s₀, hs₀, h⟩ : ∃ s₀, RunFrom Sample.pg Store.empty s₀ ∧
      (((System.on s₀.db).scriptBy shared (Job.body Sample.pg)
        (fun s mv => Sample.Steady s₀.db s mv ∧ InOrder 0 Sample.mapUid s mv)
        (Sample.deniedFirst ++ [.go 1 1 (Sample.answers 7 none)] ++ Sample.validatedSecond)).any
          fun s =>
          decide (Sample.Over s ∧ Sample.Steady s₀.db s (.start .deliver))) = true :=
    Reach.scripted Sample.mapBound (by decide +kernel)
  obtain ⟨s, hs, h⟩ := (Option.any_eq_true _ _).1 h
  obtain ⟨⟨hsettled, hpushed, hvalidated⟩, hb, hh⟩ := of_decide_eq_true h
  have hgranted := Sample.granted hvalidated
  have hrun := (ReachBy.scriptBy .init hs).mono fun _ _ hok =>
    And.imp_left Sample.Steady.onBoundMap hok
  obtain ⟨items, hlast, hshows⟩ :=
    last_hats_mine_shows (RunFrom.sane hs₀ (inv_empty Sample.pg False)).inv hrun
    (Sample.staysBound hb hh) hsettled hpushed 1 "Hat-1" hgranted
  exact ⟨s, items, hgranted, hlast, hshows⟩

end Server2

end Dd2Server
