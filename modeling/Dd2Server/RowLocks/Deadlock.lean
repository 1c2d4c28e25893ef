import Dd2Server.ReadCommitted.Conduct
import Dd2Server.RowLocks.Binds
import Dd2Server.RowLocks.Reports
import Dd2Server.RowLocks.Uploads
import Dd2Server.Runs

/-!
# No deadlock among the Wayfinder transactions

Any number of the eight transactions run in any order of their statements, and each statement takes
its row locks one at a time in any order.  From a task that waits to the one it waits for, the rank
of the lock asked for grows, and so no cycle of waiting tasks is ever reached.
-/

namespace Dd2Server

open ReadCommitted

/-- A Wayfinder transaction. -/
inductive WayfinderJob
  | upsertSpecAndCatalogs (userId : Uuid) (nameId : String) (spec : Value)
  | commitAuthoritativeBind (prepared : ListedMaps.PreparedBind) (reporterId : Uuid)
    (mapUid : String)
      (specId : Int)
  | commitCommentBind (mapUid : String) (specId : Int)
  | minigameAttempt (userId : Uuid) (mapUid slug : String) (specId elapsedMs : Int)
    (status : String)
  | collectibleUnlock (userId : Uuid) (mapUid slug : String) (specId : Int)
  | collectibleCollect (userId : Uuid) (mapUid slug : String) (specId : Int) (x y z : F32)
    (source : String)
  | hatUnlock (userId : Uuid) (mapUid slug : String) (specId : Int)
  /-- The empty slug takes the hat off. -/
  | hatEquip (userId : Uuid) (mapUid slug : String)

/-- A query as a task whose result nobody reads. -/
def Query.toTask {ε α : Type} (x : Query ε α) : Server Unit := x.run.bind fun _ => .ret ()

def WayfinderJob.body (pg : Pg) : WayfinderJob → Server Unit
  | .upsertSpecAndCatalogs u n spec =>
      Query.toTask (CustomMapAuxSpecs.upsertSpecAndCatalogs pg u n spec)
  | .commitAuthoritativeBind p u m id =>
      Query.toTask (ListedMaps.commitAuthoritativeBind pg p u m id)
  | .commitCommentBind m id => Query.toTask (ListedMaps.commitCommentBind pg m id)
  | .minigameAttempt u m slug id ms status =>
      Query.toTask (Minigames.reportAttempt pg u m slug id ms status)
  | .collectibleUnlock u m slug id => Query.toTask (Collectibles.reportUnlock pg u m slug id)
  | .collectibleCollect u m slug id x y z source =>
      Query.toTask (Collectibles.reportCollect pg u m slug id x y z source)
  | .hatUnlock u m slug id => Query.toTask (Hats.reportUnlock pg u m slug id)
  | .hatEquip u m slug => Query.toTask (Hats.reportEquipWithBeforePayload pg u m slug)

abbrev WayfinderSystem := Sys Table.Key Table.Row Tag Ask.Ans Act.Out Mem WayfinderJob Unit

/-- The ids that the sequence gave to a task. -/
def drawn : Log → List Int
  | [] => []
  | .answered .nextSpecId id :: log => id :: drawn log
  | _ :: log => drawn log

/-- The program asks the sequence for an id. -/
def draws {α : Type} : Server α → Bool
  | .ask .nextSpecId _ => true
  | _ => false

/-- The sequence of the spec ids gives no id twice. -/
def FromSequence (s : WayfinderSystem) : Move Ask.Ans WayfinderJob → Prop
  | .run i (.answer f) =>
      ((s.tasks[i]?).any fun t => draws t.prog) = true →
        ∀ u ∈ s.tasks, f .nextSpecId ∉ drawn u.loc.log
  | _ => True

instance (s : WayfinderSystem) : ∀ m, Decidable (FromSequence s m)
  | .run _ (.answer _) => inferInstanceAs (Decidable (_ → _))
  | .run _ .proceed => inferInstanceAs (Decidable True)
  | .run _ .fail => inferInstanceAs (Decidable True)
  | .start _ => inferInstanceAs (Decidable True)
  | .drop _ => inferInstanceAs (Decidable True)

/-- A database, and no task. -/
def WayfinderSystem.on (db : Db) : WayfinderSystem where
  db := db
  mem := {}

/-- The states of all interleavings of Wayfinder transactions on a database, lock by lock. -/
def WayfinderRun (pg : Pg) (db : Db) (s : WayfinderSystem) : Prop :=
  Piecemeal shared (WayfinderJob.body pg) FromSequence (WayfinderSystem.on db) s

theorem mem_drawn {log : Log} {id : Int} : id ∈ drawn log ↔ Drew log id := by
  induction log with
  | nil => simp [drawn, Drew]
  | cons ev log ih =>
      cases ev with
      | answered q a =>
          cases q with
          | nextSpecId => simp [drawn, Drew, ih]
          | _ => simpa [drawn, Drew] using ih
      | _ => simpa [drawn, Drew] using ih

/-! ## Every transaction keeps the discipline -/

theorem toTask_orderly {ε α : Type} {x : Query ε α}
    (h : Rest rowLocks [] [] (fun _ => False) (fun db v => v = db) x) {db : Db}
    (hdb : WellNamed db) : Orderly rowLocks (fun _ _ _ => True) (Query.toTask x) {} db :=
  (Rest.orderly h hdb).bind (fun _ _ _ _ _ _ _ => trivial) hdb

theorem WayfinderJob.orderly (pg : Pg) (j : WayfinderJob) {db : Db} (hdb : WellNamed db) :
    Orderly rowLocks (fun _ _ _ => True) (j.body pg) {} db := by
  cases j with
  | upsertSpecAndCatalogs u n spec => exact toTask_orderly upsertSpecAndCatalogs_rest hdb
  | commitAuthoritativeBind p u m id => exact toTask_orderly commitAuthoritativeBind_rest hdb
  | commitCommentBind m id => exact toTask_orderly commitCommentBind_rest hdb
  | minigameAttempt u m slug id ms status => exact toTask_orderly reportAttempt_rest hdb
  | collectibleUnlock u m slug id => exact toTask_orderly collectibleUnlock_rest hdb
  | collectibleCollect u m slug id x y z source => exact toTask_orderly reportCollect_rest hdb
  | hatUnlock u m slug id => exact toTask_orderly hatUnlock_rest hdb
  | hatEquip u m slug => exact toTask_orderly reportEquip_rest hdb

section

variable {pg : Pg} {db : Db} {s : WayfinderSystem}

theorem WayfinderRun.disciplined (h : WayfinderRun pg db s) (hdb : WellNamed db) :
    Disciplined rowLocks s := by
  have hinv : rowLocks.P.Inv (WayfinderSystem.on db).db := hdb
  exact Piecemeal.disciplined (fun j _ hdb' => j.orderly pg hdb') hinv rfl h

/-! ## The sequence -/

/-- No two tasks have the same id from the sequence. -/
def OwnIds (s : WayfinderSystem) : Prop :=
  ∀ (i j : Nat) t u, i ≠ j → s.tasks[i]? = some t → s.tasks[j]? = some u →
    ∀ id, Drew t.loc.log id → ¬Drew u.loc.log id

theorem OwnIds.start (h : OwnIds s) (j : WayfinderJob) (p : Server Unit) :
    OwnIds { s with tasks := s.tasks ++ [{ job := j, prog := p }] } := by
  have hold : ∀ {k : Nat} {t}, (s.tasks ++ [{ job := j, prog := p }])[k]? = some t →
      ∀ id, Drew t.loc.log id → s.tasks[k]? = some t := by
    intro k t hk id hid
    rw [List.getElem?_append] at hk
    split at hk
    · exact hk
    · rw [List.mem_singleton.1 (List.mem_of_getElem? hk)] at hid
      cases hid
  intro a b t u hab ha hb id hid hid'
  exact h a b t u hab (hold ha id hid) (hold hb id hid') id hid hid'

theorem OwnIds.drop (h : OwnIds s) (i : Nat) (mem : Mem) :
    OwnIds { s with mem := mem, tasks := s.tasks.eraseIdx i } := by
  intro a b t u hab ha hb
  simp only [List.getElem?_eraseIdx] at ha hb
  split at ha <;> split at hb
  · exact h a b t u hab ha hb
  · exact h a (b + 1) t u (by omega) ha hb
  · exact h (a + 1) b t u (by omega) ha hb
  · exact h (a + 1) (b + 1) t u (by omega) ha hb

/-- A task is replaced by one that has no more ids, or new ones. -/
theorem OwnIds.set (h : OwnIds s) {i : Nat}
    {t t' : Task Table.Key Table.Row Tag Ask.Ans Act.Out WayfinderJob Unit}
    (ht : s.tasks[i]? = some t) {db' : Db} {mem' : Mem}
    (hnew : ∀ id, Drew t'.loc.log id → Drew t.loc.log id ∨
      ∀ u ∈ s.tasks, ¬Drew u.loc.log id) :
    OwnIds { db := db', mem := mem', tasks := s.tasks.set i t' } := by
  have hlen : i < s.tasks.length := (List.getElem?_eq_some_iff.1 ht).1
  have hset : ∀ {k : Nat} {v}, (s.tasks.set i t')[k]? = some v →
      k = i ∧ v = t' ∨ k ≠ i ∧ s.tasks[k]? = some v := by
    intro k v hk
    rcases Nat.decEq k i with hne | rfl
    · rw [List.getElem?_set_ne (Ne.symm hne)] at hk
      exact .inr ⟨hne, hk⟩
    · rw [List.getElem?_set_self hlen] at hk
      exact .inl ⟨rfl, (Option.some.inj hk).symm⟩
  have hother : ∀ {k : Nat} {v}, k ≠ i → s.tasks[k]? = some v →
      ∀ id, Drew t'.loc.log id → ¬Drew v.loc.log id := by
    intro k v hk hv id hid
    rcases hnew id hid with hid | hid
    · exact h i k t v (Ne.symm hk) ht hv id hid
    · exact hid v (List.mem_of_getElem? hv)
  intro a b v u hab hv hu id hid hid'
  rcases hset hv with ⟨rfl, rfl⟩ | ⟨hai, hva⟩
  · rcases hset hu with ⟨rfl, rfl⟩ | ⟨hbi, hub⟩
    · exact hab rfl
    · exact hother hbi hub id hid hid'
  · rcases hset hu with ⟨rfl, rfl⟩ | ⟨hbi, hub⟩
    · exact hother hai hva id hid' hid
    · exact h a b v u hab hva hub id hid hid'

theorem WayfinderRun.ownIds (h : WayfinderRun pg db s) : OwnIds s := by
  induction h with
  | init => exact fun a b t u _ ha => by simp [WayfinderSystem.on] at ha
  | @step s s' m _ hok hm ih =>
      cases Sys.move_cases hm with
      | started j hdb hmem htasks =>
          obtain ⟨db, mem, tasks⟩ := s'
          cases htasks
          exact ih.start j _
      | dropped i t ht hdb hmem htasks =>
          obtain ⟨db, mem, tasks⟩ := s'
          cases htasks
          exact ih.drop i mem
      | ran i c t t' ht hjob htasks hadv =>
          obtain ⟨db, mem, tasks⟩ := s'
          cases htasks
          refine ih.set ht fun id hid => ?_
          rcases advance_answered hadv hid with hid | ⟨next, f, hp, rfl, rfl⟩
          · exact .inl hid
          · refine .inr fun u hu hd => ?_
            have hdraws : ((s.tasks[i]?).any fun t => draws t.prog) = true := by
              rw [ht, Option.any_some, hp]
              rfl
            exact hok hdraws u hu (mem_drawn.2 hd)
  | take _ ht _ _ ih => exact ih.set ht fun id hid => .inl hid

/-! ## No cycle -/

/-- The locks that task `i` holds. -/
def heldBy (s : WayfinderSystem) (i : Nat) : List RowLock :=
  (s.tasks[i]?).elim [] fun t => t.loc.locks

theorem WayfinderRun.rank_lt (h : WayfinderRun pg db s) (hdb : WellNamed db)
    {i j k : Nat} {a b : RowLock} (hij : s.WaitsOn i a j) (hjk : s.WaitsOn j b k) :
    rank (heldBy s i) a < rank (heldBy s j) b := by
  have hs := h.disciplined hdb
  have hids := h.ownIds
  obtain ⟨t, u, ht, hu, hne, hat, c, hc, hac⟩ := hij
  obtain ⟨u', w, hu', hw, hne', hbu, d, hd, hbd⟩ := hjk
  obtain rfl : u' = u := Option.some.inj (hu'.symm.trans hu)
  have htm := List.mem_of_getElem? ht
  have hum := List.mem_of_getElem? hu'
  have hwm := List.mem_of_getElem? hw
  have htu : Apart t.loc.locks u'.loc.locks t.loc.log u'.loc.log s.db :=
    ⟨hs.sound.apart i j t u' hne ht hu', hids i j t u' hne ht hu', hs.backed t htm,
      hs.backed u' hum⟩
  have huw : Apart u'.loc.locks w.loc.locks u'.loc.log w.loc.log s.db :=
    ⟨hs.sound.apart j k u' w hne' hu' hw, hids j k u' w hne' hu' hw, hs.backed u' hum,
      hs.backed w hwm⟩
  obtain ⟨hback, -⟩ := (hs.orderly t htm).asked hs.sound.inv hat
  obtain ⟨hback', hord⟩ := (hs.orderly u' hum).asked hs.sound.inv hbu
  have hi : heldBy s i = t.loc.locks := by rw [heldBy, ht]; rfl
  have hj : heldBy s j = u'.loc.locks := by rw [heldBy, hu']; rfl
  rw [hi, hj]
  exact htu.rank_lt hback hc hac (huw.contended hback' hd hbd).1 hord

/-- No reachable state has a cycle of transactions each waiting for a row lock of the next. -/
theorem wayfinder_deadlockFree (pg : Pg) (db : Db) (hdb : WellNamed db) (s : WayfinderSystem)
    (h : WayfinderRun pg db s) (i : Nat) : ¬Relation.TransGen s.Waits i i :=
  acyclic_of_rank (fun i a => rank (heldBy s i) a)
    (fun _ _ _ _ _ hij hjk => h.rank_lt hdb hij hjk) i

end

/-- The database of every server process is one that the transactions may start on. -/
theorem Run.wellNamed {pg : Pg} {s : System} (h : Run pg s) : WellNamed s.db :=
  (RunFrom.sound h (inv_empty pg False)).inv.wellNamed

/-! ## Two uploads under one name -/

/-- One user. -/
def Sample.oneUser : Db :=
  (Store.empty : Db).put ⟨⟨.users, 1⟩, some { displayName := "Author", lastLoginTs := 0 }⟩

theorem Sample.oneUser_wellNamed : WellNamed Sample.oneUser where
  indexed id s hs := by
    rw [Sample.oneUser, Store.get_put_of_ne (by simp), Store.get_empty] at hs
    cases hs
  games u n slug r id hr := by
    rw [Sample.oneUser, Store.get_put_of_ne (by simp), Store.get_empty] at hr
    cases hr

/-- The second of two tasks asks for a lock that the first stands in the way of. -/
def secondWaits (s : WayfinderSystem) : Bool :=
  match s.tasks with
  | [t, u] => (u.asked s.db).any fun a => t.loc.locks.any fun b => !a.compatible b
  | _ => false

theorem waits_of_secondWaits {s : WayfinderSystem} (h : secondWaits s = true) : s.Waits 1 0 := by
  unfold secondWaits at h
  split at h
  case h_1 t u hs =>
    obtain ⟨a, ha, h⟩ := List.any_eq_true.1 h
    obtain ⟨b, hb, hab⟩ := List.any_eq_true.1 h
    refine ⟨a, u, t, by rw [hs]; rfl, by rw [hs]; rfl, by decide, ha, b, hb, ?_⟩
    simpa using hab
  case h_2 => cases h

/-- The second upload waits for the name that the first has locked, and there is no cycle. -/
theorem wayfinder_deadlockFree_sample :
    ∃ s, WayfinderRun Sample.pg Sample.oneUser s ∧ s.Waits 1 0 ∧
    ∀ i, ¬Relation.TransGen s.Waits i i := by
  obtain ⟨s, hs, hwaits⟩ :
      ∃ s, ReachBy shared (WayfinderJob.body Sample.pg) FromSequence
        (WayfinderSystem.on Sample.oneUser) s ∧
        secondWaits s = true :=
    ReachBy.scriptedBy [.start (.upsertSpecAndCatalogs 1 "climb" Sample.spec),
      .start (.upsertSpecAndCatalogs 1 "climb" Sample.spec), .go 0 3 (Sample.answers 7 none),
      .go 1 2 (Sample.answers 8 none)] (by decide +kernel)
  exact ⟨s, hs.piecemeal, waits_of_secondWaits hwaits,
    wayfinder_deadlockFree Sample.pg Sample.oneUser Sample.oneUser_wellNamed s hs.piecemeal⟩

end Dd2Server
