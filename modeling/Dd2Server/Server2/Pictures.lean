import Dd2Server.Server2.Deliveries
import Dd2Server.Server2.OperationLocks

/-!
# What a client sees on its map

A client that stays on a map puts the snapshots of 214 and the updates of the manager together, in
the order of its queue.  Once a player changed hats there, the client sees the new hat in the end,
as long as no answer of 214 goes out with an older read of it, or with a read that leaves the player
out.
-/

namespace Dd2Server

namespace Server2

open ReadCommitted

/-! ## Pictures -/

/-- The hat of an entry; an empty slug is none. -/
def hatOf (slug : String) : Option String := if slug = "" then none else some slug

/-- What a message tells about the hats of a map: `HatsOnMap` is a snapshot, `HatsOnMapUpdate` an
update. -/
def hatMessage (m : String) : Response → Option (Replay.Message String String)
  | .hatsOnMap m' hats =>
      if m' = m then
        some (.snapshot (hats.filterMap fun x => (hatOf x.slug).map fun hat => (x.wsid, hat)))
      else none
  | .hatsOnMapUpdate m' hats =>
      if m' = m then some (.updates (hats.map fun x => (x.wsid, hatOf x.slug))) else none
  | _ => none

/-- The hats a client sees on a map, by what came into its queue. -/
def picture (m : String) (queue : List Response) : String → Option String :=
  Replay.replay (queue.filterMap (hatMessage m))

theorem hatMessage_readsMap {m : String} : ReadsMap m (hatMessage m) := fun _ _ hne => if_neg hne

/-- The rows and the answer made of them tell of the hat that this user wears, if any. -/
def Shown (v : Uuid) (m slug : String) (db : Db) (hats : List HatOnMapPlayer) : Prop :=
  wornSlug db v m = slug ∧ (slug ≠ "" → ∃ x ∈ hats, x.wsid = v.text)

instance (v : Uuid) (m slug : String) (db : Db) (hats : List HatOnMapPlayer) :
    Decidable (Shown v m slug db hats) :=
  inferInstanceAs (Decidable (_ ∧ _))

/-- The rows that a task read last. -/
def lastRead : Log → Option Db
  | .read _ db :: _ => some db
  | _ => none

section

variable {pg : Pg} {db : Db} {u v : Uuid} {m m' slug : String}
    {hats : List HatOnMapPlayer} {now : Time}

/-- The entries of an answer are the hats of their users. -/
theorem wornOnMap_reflects {x : HatOnMapPlayer} (hx : x ∈ Hats.wornOnMap pg db m now) :
    Reflects db m x := by
  simp only [Hats.wornOnMap, Hats.orderByText, List.mem_mergeSort, List.mem_filterMap] at hx
  obtain ⟨⟨⟨w, m'⟩, e⟩, hrow, hx⟩ := hx
  obtain ⟨hget, hp⟩ := mem_selectWhere.1 hrow
  obtain ⟨r, -, rfl⟩ := Option.map_eq_some_iff.1 hx
  have hm : m' = m := by simp only [Bool.and_eq_true, decide_eq_true_eq] at hp; exact hp.1.1
  subst hm
  refine ⟨w, rfl, ?_⟩
  rw [wornSlug, hget]
  rfl

/-- The entries about a user have the hat of that user. -/
theorem Reflects.slug_eq {x : HatOnMapPlayer} (h : Reflects db m x) (hx : x.wsid = v.text) :
    x.slug = wornSlug db v m := by
  obtain ⟨w, hw, hslug⟩ := h
  rw [← Uuid.text_inj (hw.symm.trans hx)]
  exact hslug

/-- A snapshot that shows a user says so. -/
theorem snapshot_word (hhats : hats = Hats.wornOnMap pg db m now) (h : Shown v m slug db hats) :
    (hatMessage m (.hatsOnMap m hats)).bind (Replay.Message.word v.text) = some (hatOf slug) := by
  obtain ⟨hworn, hlisted⟩ := h
  have hrows : ∀ row ∈ (hats.filterMap fun x => (hatOf x.slug).map fun hat => (x.wsid, hat)),
      row.1 = v.text → some row.2 = hatOf slug := by
    intro row hrow hk
    obtain ⟨x, hx, he⟩ := List.mem_filterMap.1 hrow
    obtain ⟨hat, hhat, rfl⟩ := Option.map_eq_some_iff.1 he
    rw [hhats] at hx
    rw [← hhat, (wornOnMap_reflects hx).slug_eq hk, hworn]
  simp only [hatMessage, if_true, Option.bind_some, Replay.Message.word, Option.some.injEq]
  by_cases hslug : slug = ""
  · -- no row is about the user
    have hnone : hatOf slug = none := if_pos hslug
    rw [Replay.lastRow_eq_none, hnone]
    · rfl
    · intro row hrow hk
      obtain ⟨row', hrow', rfl⟩ := List.mem_map.1 hrow
      have he := hrows row' hrow' hk
      rw [hnone] at he
      cases he
  · obtain ⟨x, hx, hwsid⟩ := hlisted hslug
    have hhat : hatOf x.slug = some slug := by
      have hx' := hx
      rw [hhats] at hx'
      rw [(wornOnMap_reflects hx').slug_eq hwsid, hworn]
      exact if_neg hslug
    have hlast : ∀ rows, rows =
        (hats.filterMap fun x => (hatOf x.slug).map fun hat => (x.wsid, hat)) →
        Replay.lastRow v.text (rows.map fun row => (row.1, some row.2)) = some (hatOf slug) := by
      rintro rows rfl
      refine Replay.lastRow_eq_some ⟨(x.wsid, some slug),
        List.mem_map.2 ⟨(x.wsid, slug), List.mem_filterMap.2 ⟨x, hx, ?_⟩, rfl⟩, hwsid⟩ ?_
      · rw [hhat]
        rfl
      · intro row hrow hk
        obtain ⟨row', hrow', rfl⟩ := List.mem_map.1 hrow
        exact hrows row' hrow' hk
    rw [hlast _ rfl, Option.getD_some]

/-- An update whose entries about a user have this hat says so, or nothing. -/
theorem update_word (h : ∀ x ∈ hats, x.wsid = v.text → x.slug = slug)
    {msg : Replay.Message String String}
    (hmsg : hatMessage m (.hatsOnMapUpdate m' hats) = some msg) :
    msg.word v.text = none ∧ (∀ x ∈ hats, x.wsid ≠ v.text) ∨
    msg.word v.text = some (hatOf slug) := by
  simp only [hatMessage, Option.ite_none_right_eq_some, Option.some.injEq] at hmsg
  obtain ⟨-, rfl⟩ := hmsg
  by_cases hany : ∃ x ∈ hats, x.wsid = v.text
  · obtain ⟨x, hx, hwsid⟩ := hany
    refine .inr (Replay.lastRow_eq_some ⟨_, List.mem_map.2 ⟨x, hx, rfl⟩, hwsid⟩
      fun row hrow hk => ?_)
    obtain ⟨y, hy, rfl⟩ := List.mem_map.1 hrow
    rw [h y hy hk]
  · have hno : ∀ x ∈ hats, x.wsid ≠ v.text := fun x hx he => hany ⟨x, hx, he⟩
    refine .inl ⟨Replay.lastRow_eq_none fun row hrow => ?_, hno⟩
    obtain ⟨y, hy, rfl⟩ := List.mem_map.1 hrow
    exact hno y hy

end

/-! ## What is told of a player -/

/-- The connection of this user has committed a change of hats on the map, and has told nobody
yet. -/
structure JustChanged (v : Uuid) (m : String) (t : ServerTask) : Prop where
  job : ∃ name requests, t.job = .connection v name requests
  request : Equipping t.loc.log
  locked : heldMaps t.loc.log = [m]
  change : (change t.loc.log).isSome = true

/-- The task does not tell that this user left the map, nor the client something else of the hat
there. -/
def Faithful (v : Uuid) (m slug : String) (c : Nat) (t : ServerTask) : Prop :=
  (∀ hats next, t.prog = .act (.broadcastToMap m hats) next → ¬Leaving v m hats t.loc.log) ∧
    ∀ hats next, t.prog = .act (.send c (.hatsOnMap m hats)) next →
      ∃ db, lastRead t.loc.log = some db ∧ Shown v m slug db hats

/-- The moves while the client and the player, who wears this hat, stay on the map: no recheck over
HTTP, no drop of a task that works on the map or delivers a message, and no answer with an old
hat. -/
def Staying (v : Uuid) (m slug : String) (c : Nat) (s : System) (mv : Move Ask.Ans Job) : Prop :=
  OnMap c m s ∧ wornSlug s.db v m = slug ∧ match mv with
    | .start j => ∀ m', j ≠ .recheckBind m'
    | .run i _ => ∀ t ∈ s.tasks[i]?, Faithful v m slug c t
    | .drop i => ∀ t ∈ s.tasks[i]?, m ∉ heldMaps t.loc.log ∧ () ∉ busy t.loc.log

theorem Staying.keeps {v : Uuid} {m slug : String} {c : Nat} {s : System} {mv : Move Ask.Ans Job}
    (h : Staying v m slug c s mv) : NoRecheck s mv ∧ KeepsDeliveries s mv := by
  cases mv with
  | start j => exact ⟨fun m' he => h.2.2 m' (Move.start.inj he), trivial⟩
  | run i ch => exact ⟨fun m' => by simp, trivial⟩
  | drop i => exact ⟨fun m' => by simp, fun t ht => (h.2.2 t ht).2⟩

/-- The client was told of the hat, or a task is about to. -/
structure Informed (pg : Pg) (v : Uuid) (m slug : String) (c : Nat) (s : System) : Prop where
  locking : Locking pg s
  conveying : Conveying pg s
  hushed : Sound (protocol pg .any) (fun _ _ => True) Job.hush (fun _ _ _ _ => True) s
  told : Replay.lastWord v.text (feed (hatMessage m) c s) = some (hatOf slug) ∨
    ∃ t ∈ s.tasks, JustChanged v m t

section

variable {pg : Pg} {s s' : System} {v : Uuid} {m slug : String} {c i : Nat} {t : ServerTask}
  {hats : List HatOnMapPlayer}

/-- An answer of 214 is what was read last. -/
theorem Sane.answers_onMap (h : Sane pg s) (ht : t ∈ s.tasks) {next : Unit → Server Unit}
    (hp : t.prog = .act (.send c (.hatsOnMap m hats)) next) :
    ∃ db now, lastRead t.loc.log = some db ∧ hats = Hats.wornOnMap pg db m now := by
  have hact := Sound.act h ht hp
  cases hj : t.job with
  | connection u name requests =>
      rw [hj] at hact
      obtain ⟨-, -, tag, db, now, older, hlog, hhats⟩ := hact
      exact ⟨db, now, by rw [hlog]; rfl, hhats⟩
  | spawned task =>
      rw [hj] at hact
      cases task with
      | unlockValidation c' u m' slug specId =>
          obtain ⟨-, -, equipped, db, -, hr⟩ := hact
          cases hr
      | _ => exact hact.elim
  | relay c' =>
      rw [hj] at hact
      cases hact.2
  | _ =>
      rw [hj] at hact
      exact hact.elim

/-- What a task tells of a player who does not leave the map is the hat worn there now. -/
theorem Locking.tells (h : Locking pg s) (ht : t ∈ s.tasks) {next : Unit → Server Unit}
    (hp : t.prog = .act (.broadcastToMap m hats) next) (hstay : ¬Leaving v m hats t.loc.log)
    {x : HatOnMapPlayer} (hx : x ∈ hats) (hwsid : x.wsid = v.text) :
    x.slug = wornSlug s.db v m := by
  obtain ⟨hheld, ⟨u, hleave⟩ | ⟨db, hanchor, hreflects⟩⟩ := h.sane.orderly ht hp
  · have hu : u ≠ v := by
      rintro rfl
      exact hstay hleave
    obtain ⟨c', next', older, name, -, -, rfl⟩ := hleave
    rw [List.mem_singleton.1 hx] at hwsid
    exact absurd (Uuid.text_inj hwsid) hu
  · exact ((h.anchored t ht m hheld db hanchor).reflects (hreflects x hx)).slug_eq hwsid

/-- What was said of the player last stays the hat worn now. -/
theorem Informed.keeps_told {mv : Move Ask.Ans Job} (h : Informed pg v m slug c s)
    (hok : Staying v m slug c s mv) (hm : s.move shared (Job.body pg) mv = some s')
    (hlast : Replay.lastWord v.text (feed (hatMessage m) c s) = some (hatOf slug)) :
    Replay.lastWord v.text (feed (hatMessage m) c s') = some (hatOf slug) := by
  cases h.conveying.flow hatMessage_readsMap hok.1 hok.keeps.2 hm with
  | same hb hsame =>
      rw [hsame]
      exact hlast
  | answered i ch t r next ht hp older newer hb hold hnew =>
      have htm := List.mem_of_getElem? ht
      rw [hold] at hlast
      rw [hnew]
      cases hr : hatMessage m r with
      | none =>
          rw [Option.toList_none, List.append_nil]
          exact hlast
      | some msg =>
          rw [Option.toList_some, List.append_assoc, List.singleton_append]
          refine Replay.lastWord_insert hlast (.inr ?_)
          cases r with
          | hatsOnMap m' hats =>
              obtain rfl : m' = m := by
                by_contra hne
                rw [hatMessage, if_neg hne] at hr
                cases hr
              obtain ⟨db, now, hread, hhats⟩ := h.conveying.sane.answers_onMap htm hp
              obtain ⟨db', hread', hshown⟩ := (hok.2.2 t ht).2 hats next hp
              obtain rfl := Option.some.inj (hread'.symm.trans hread)
              have hsays := snapshot_word hhats hshown
              rwa [hr] at hsays
          | hatsOnMapUpdate m' hats => exact absurd hp (h.conveying.sane.sends_no_update htm)
          | nonFatalErrorMsg level text => cases hr
          | hatsMine m' equipped items => cases hr
  | told i ch t msg next ht hp hb hnew =>
      rw [hnew]
      cases hr : hatMessage m (updateOf msg) with
      | none =>
          rw [Option.toList_none, List.append_nil]
          exact hlast
      | some word =>
          have hm' : msg.1 = m := by
            by_contra hne
            rw [updateOf, hatMessage_readsMap msg.1 msg.2 hne] at hr
            cases hr
          rw [hm'] at hp
          refine Replay.lastWord_insert (by rw [List.append_nil]; exact hlast) ?_
          refine (update_word (fun x hx hwsid => ?_) hr).imp_left And.left
          rw [h.locking.tells (List.mem_of_getElem? ht) hp
            ((hok.2.2 t ht).1 msg.2 next hp) hx hwsid]
          exact hok.2.1

/-- A task that changed the player's hat tells the players next, before it does anything else
there. -/
theorem Informed.announces {a : Act} {o : a.Out} {ch : Choice Ask.Ans}
    {next : a.Out → Server Unit} (h : Informed pg v m slug c s)
    (hok : Staying v m slug c s (.run i ch))
    (hm : s.move shared (Job.body pg) (.run i ch) = some s') (ht : s.tasks[i]? = some t)
    (hj : JustChanged v m t) (hp : t.prog = .act a next)
    (hperf : a.perform s.mem = some (s'.mem, o)) :
    Replay.lastWord v.text (feed (hatMessage m) c s') = some (hatOf slug) := by
  have htm := List.mem_of_getElem? ht
  obtain ⟨name, requests, hjob⟩ := hj.job
  have hhush := Sound.act h.hushed htm hp
  have hact := Sound.act h.conveying.sane htm hp
  rw [hjob] at hhush hact
  have hno : heldMaps t.loc.log ≠ [] := by
    rw [hj.locked]
    exact List.cons_ne_nil _ _
  cases a with
  | unlockMap m' =>
      have hnone := hact.2 hj.request
      have hsome := hj.change
      rw [hnone] at hsome
      cases hsome
  | broadcastToMap m' hats =>
      obtain rfl : m = m' := by
        have he : heldMaps t.loc.log = [m'] := hhush
        exact (List.cons.inj (hj.locked.symm.trans he)).1
      obtain ⟨-, x, rfl, hwsid⟩ := hact.2.2.2 hj.request
      have hslug : x.slug = slug := by
        rw [h.locking.tells htm hp ((hok.2.2 t ht).1 [x] next hp) List.mem_cons_self hwsid]
        exact hok.2.1
      simp only [Act.perform, Option.some.injEq, Prod.mk.injEq] at hperf
      cases h.conveying.flow hatMessage_readsMap hok.1 hok.keeps.2 hm with
      | same hb =>
          rw [← hperf.1] at hb
          exact absurd hb (by simp)
      | answered _ _ t' r next' ht' hp' =>
          obtain rfl := Option.some.inj (ht.symm.trans ht')
          rw [hp] at hp'
          cases hp'
      | told _ _ t' msg next' ht' hp' hb hnew =>
          obtain rfl := Option.some.inj (ht.symm.trans ht')
          rw [hp] at hp'
          have hmsg : hatMessage m (updateOf msg) = some (.updates [(x.wsid, hatOf x.slug)]) := by
            obtain ⟨m'', hats'⟩ := msg
            cases hp'
            exact if_pos rfl
          rw [hnew, hmsg, Option.toList_some]
          refine Replay.lastWord_concat ?_
          rw [hwsid, hslug]
          exact Replay.lastRow_eq_some ⟨_, List.mem_cons_self, rfl⟩ fun row hrow _ => by
            rw [List.mem_singleton.1 hrow]
  | _ => exact absurd hhush hno

theorem change_passive {new : Log} (hnew : ∀ ev ∈ new, ev.Passive) (log : Log) :
    change (new ++ log) = change log := by
  induction new with
  | nil => rfl
  | cons ev new ih =>
      have hold := ih fun ev' hm => hnew ev' (List.mem_cons_of_mem _ hm)
      have hev := hnew ev List.mem_cons_self
      cases ev with
      | acted a o => exact hev.elim
      | read tag db => exact hev.elim
      | committed pre post => exact hev.elim
      | _ => exact hold

/-- A task that changed the player's hat still has to tell the players, or has just told them. -/
theorem Informed.keeps_changed {mv : Move Ask.Ans Job} (h : Informed pg v m slug c s)
    (hok : Staying v m slug c s mv) (hm : s.move shared (Job.body pg) mv = some s')
    (htm : t ∈ s.tasks) (hj : JustChanged v m t) :
      Replay.lastWord v.text (feed (hatMessage m) c s') = some (hatOf slug) ∨
      ∃ t ∈ s'.tasks, JustChanged v m t := by
  obtain ⟨k, hk⟩ := List.getElem?_of_mem htm
  cases Sys.move_cases hm with
  | started j hdb hmem htasks =>
      refine .inr ⟨t, ?_, hj⟩
      rw [htasks]
      exact List.mem_append_left _ htm
  | dropped i u hu hdb hmem htasks =>
      have hne : k ≠ i := by
        rintro rfl
        obtain rfl := Option.some.inj (hu.symm.trans hk)
        refine (hok.2.2 u hu).1 ?_
        rw [hj.locked]
        exact List.mem_cons_self
      refine .inr ⟨t, ?_, hj⟩
      rw [htasks]
      exact List.mem_eraseIdx_iff_getElem?.2 ⟨k, hne, hk⟩
  | ran i ch u u' hu hjob htasks hadv =>
      rcases eq_or_ne i k with rfl | hne
      · obtain rfl := Option.some.inj (hu.symm.trans hk)
        have hin : u' ∈ s'.tasks := by
          rw [htasks]
          exact List.mem_set (List.getElem?_eq_some_iff.1 hu).1 _
        have hquiet : ∀ {n : Log}, u'.loc.log = n ++ u.loc.log → acts n = [] →
            (Server2.change u'.loc.log).isSome = true → JustChanged v m u' := by
          intro n hlog hacts hchange
          refine ⟨by rw [hjob]; exact hj.job, ?_, ?_, hchange⟩
          · obtain ⟨uid, slug', tracked, he⟩ := hj.request
            exact ⟨uid, slug', tracked, by rw [hlog, asked_ofActs.quiet hacts]; exact he⟩
          · rw [hlog, heldMaps_ofActs.quiet hacts]
            exact hj.locked
        cases advance_cases hadv with
        | acted a o next hp hperf hdb hp' hlog => exact .inl (h.announces hok hm hu hj hp hperf)
        | looked tag hdb hmem hlog =>
            refine .inr ⟨u', hin, hquiet (n := [_]) hlog rfl ?_⟩
            rw [hlog]
            exact hj.change
        | committed hmem hlog =>
            refine .inr ⟨u', hin, hquiet (n := [_]) hlog rfl ?_⟩
            rw [hlog]
            rfl
        | passed new hdb hmem hlog hnew =>
            refine .inr ⟨u', hin, hquiet hlog (passive_quiet hnew).1 ?_⟩
            rw [hlog, change_passive hnew]
            exact hj.change
      · refine .inr ⟨t, ?_, hj⟩
        rw [htasks]
        exact List.mem_of_getElem? ((List.getElem?_set_ne hne).trans hk)

theorem Informed.move {mv : Move Ask.Ans Job} (h : Informed pg v m slug c s)
    (hok : Staying v m slug c s mv) (hm : s.move shared (Job.body pg) mv = some s') :
    Informed pg v m slug c s' where
  locking := h.locking.move hok.keeps.1 hm
  conveying := h.conveying.move hm
  hushed := (Sound.move h.hushed (fun j _ _ hinv => j.safe_hush hinv) s.admits_true hm).1
  told := by
    rcases h.told with hlast | ⟨t, ht, hj⟩
    · exact .inl (h.keeps_told hok hm hlast)
    · exact h.keeps_changed hok hm ht hj

/-- A client that stays on a map sees the hat that a player put on or took off there since, once
everything is delivered and no operation on the map is under way: for every interleaving in which
the player stays there too and wears the same hat, no task is dropped that works on the map or
delivers a message, and every answer of 214 is of a read that shows the player with that hat. -/
theorem picture_converges {db₀ : Db} {s₁ s₂ : System} (hinv : Inv pg False db₀)
    (h₁ : ReachBy shared (Job.body pg) NoRecheck (System.on db₀) s₁) (ht : t ∈ s₁.tasks)
    (hj : JustChanged v m t) (h₂ : ReachBy shared (Job.body pg) (Staying v m slug c) s₁ s₂)
    (hworn : wornSlug s₂.db v m = slug) (hdone : Delivered c s₂)
    (hfree : m ∉ s₂.mem.mapLocks) :
    picture m (s₂.mem.conns c).queue v.text = hatOf (wornSlug s₂.db v m) := by
  have hw : Informed pg v m slug c s₂ := by
    clear hworn hdone hfree
    induction h₂ with
    | init =>
        exact ⟨ReachBy.locking hinv h₁, ReachBy.conveying hinv h₁,
          RunFrom.hushed (h₁.reach fun s _ _ => s.admits_true) hinv, .inr ⟨t, ht, hj⟩⟩
    | step _ hok hm ih => exact ih.move hok hm
  rcases hw.told with hlast | ⟨u, hu, hju⟩
  · rw [picture, ← hdone.feed hw.conveying.single, Replay.replay_eq, hlast, hworn]
    rfl
  · refine absurd (hw.locking.locks.marked m
      (List.mem_append_left _ (List.mem_flatMap.2 ⟨u, hu, ?_⟩))) hfree
    show m ∈ heldMaps u.loc.log
    rw [hju.locked]
    exact List.mem_cons_self

end

namespace Sample

/-- What the log has of the request that the read loop handles is an equip. -/
def equips (log : Log) : Bool := match asked log with
  | some (.reportHatEquip _ _, _) => true
  | _ => false

/-- The author's connection changed hats on the map, and has told nobody. -/
def changed (t : ServerTask) : Bool :=
  match t.job with
  | .connection u _ _ =>
      decide (u = 1 ∧ heldMaps t.loc.log = [Sample.mapUid]) && equips t.loc.log &&
      (change t.loc.log).isSome
  | _ => false

theorem justChanged {t : ServerTask} (h : changed t = true) : JustChanged 1 Sample.mapUid t := by
  unfold changed at h
  split at h
  case h_1 u name requests hj =>
    simp only [Bool.and_eq_true, decide_eq_true_eq] at h
    obtain ⟨⟨⟨rfl, hheld⟩, hequips⟩, hchange⟩ := h
    refine ⟨⟨name, requests, hj⟩, ?_, hheld, hchange⟩
    unfold equips at hequips
    split at hequips
    case h_1 uid slug tracked he => exact ⟨uid, slug, tracked, he⟩
    case h_2 => cases hequips
  case h_2 => cases h

/-- The task tells of no player that wears nothing, and answers 214 with the author's hat. -/
def calm (t : ServerTask) : Bool :=
  match t.prog with
  | .act (.broadcastToMap _ hats) _ => hats.all fun x => x.slug ≠ ""
  | .act (.send _ (.hatsOnMap _ hats)) _ =>
      (lastRead t.loc.log).any fun db => Shown 1 Sample.mapUid "Hat-1" db hats
  | _ => true

theorem faithful_of_calm {c : Nat} {t : ServerTask} (h : calm t = true) :
    Faithful 1 Sample.mapUid "Hat-1" c t := by
  refine ⟨fun hats next hp => ?_, fun hats next hp => ?_⟩
  · rintro ⟨c', next', older, name, -, -, rfl⟩
    simp [calm, hp] at h
  · simp only [calm, hp, Option.any_eq_true, decide_eq_true_eq] at h
    exact h

/-- The runs of calm tasks that are not dropped. -/
def Watching (s : System) : Move Ask.Ans Job → Prop
  | .start (.recheckBind _) => False
  | .start _ => OnMap 2 Sample.mapUid s ∧ wornSlug s.db 1 Sample.mapUid = "Hat-1"
  | .run i _ =>
      (OnMap 2 Sample.mapUid s ∧ wornSlug s.db 1 Sample.mapUid = "Hat-1") ∧
        ∀ t ∈ s.tasks[i]?, calm t = true
  | .drop _ => False

instance (s : System) : (mv : Move Ask.Ans Job) → Decidable (Watching s mv)
  | .start (.recheckBind _) => .isFalse id
  | .start (.connection ..) => inferInstanceAs (Decidable (_ ∧ _))
  | .start (.spawned _) => inferInstanceAs (Decidable (_ ∧ _))
  | .start .deliver => inferInstanceAs (Decidable (_ ∧ _))
  | .start (.relay _) => inferInstanceAs (Decidable (_ ∧ _))
  | .start (.login ..) => inferInstanceAs (Decidable (_ ∧ _))
  | .start (.upload ..) => inferInstanceAs (Decidable (_ ∧ _))
  | .start (.deleteSpec ..) => inferInstanceAs (Decidable (_ ∧ _))
  | .run i _ => inferInstanceAs (Decidable ((_ ∧ _) ∧ ∀ t ∈ s.tasks[i]?, calm t = true))
  | .drop _ => .isFalse id

theorem Watching.staying {s : System} {mv : Move Ask.Ans Job} (h : Watching s mv) :
    Staying 1 Sample.mapUid "Hat-1" 2 s mv := by
  cases mv with
  | start j =>
      cases j with
      | recheckBind m => exact h.elim
      | _ => exact ⟨h.1, h.2, by simp⟩
  | run i ch => exact ⟨h.1.1, h.1.2, fun t ht => faithful_of_calm (h.2 t ht)⟩
  | drop i => exact h.elim

/-- The author's connection comes as far as the commit of the hat. -/
def hatCommitted : List (ReadCommitted.Cue Ask.Ans Job) := mapBound ++
  [.start (.connection 1 "Author" [.reportHatUnlock Sample.mapUid "Hat-1" 7]),
   .go 4 60 (Sample.answers 7 none),
   .start (.spawned (.unlockValidation 1 1 Sample.mapUid "Hat-1" 7)),
     .go 5 80 (Sample.answers 7 none),
   .start (.connection 1 "Author" [.getHatsMine Sample.mapUid,
     .reportHatEquip Sample.mapUid "Hat-1", .getHatsOnMap Sample.mapUid]),
   .go 6 24 (Sample.answers 7 none)]

/-- The author's car is on the map. -/
def present : Db :=
  (Store.empty.put ⟨⟨.users, 1⟩, some { displayName := "Author", lastLoginTs := 0 }⟩).put
    ⟨⟨.mapCurrHeights, ((1 : Uuid), Sample.mapUid)⟩,
      some { updatedAt := 1700000000000000 }⟩

theorem inv_present : Inv Sample.pg False present := by
  have hget : ∀ k : DbKey, k.table ≠ .users → k.table ≠ .mapCurrHeights →
      present.get k = none := by
    intro k hu hm
    have hu' : (⟨.users, (1 : Uuid)⟩ : DbKey) ≠ k := by
      rintro rfl
      exact hu rfl
    have hm' : (⟨.mapCurrHeights, ((1 : Uuid), Sample.mapUid)⟩ : DbKey) ≠ k := by
      rintro rfl
      exact hm rfl
    rw [present, Store.get_put_of_ne hm', Store.get_put_of_ne hu', Store.get_empty]
  have hno : ∀ {t : Table} {k : t.Key} {r : t.Row}, t ≠ .users → t ≠ .mapCurrHeights →
      present.get ⟨t, k⟩ = some r → False := by
    intro t k r hu hm hr
    rw [hget _ hu hm] at hr
    cases hr
  exact
    { index := fun _ _ _ h => (hno (by decide) (by decide) h).elim
      indexed := fun _ _ h => (hno (by decide) (by decide) h).elim
      bindSpec := fun _ _ h => (hno (by decide) (by decide) h).elim
      games := fun _ _ _ _ _ h => (hno (by decide) (by decide) h).elim
      collectibles := fun _ _ h => (hno (by decide) (by decide) h).elim
      hats := fun _ _ h => (hno (by decide) (by decide) h).elim
      equippedUser := fun _ _ h => (hno (by decide) (by decide) h).elim
      coherent := fun h => h.elim }

/-- A message is a snapshot of the map. -/
def isSnapshot : Response → Bool
  | .hatsOnMap m _ => m = Sample.mapUid
  | _ => false

end Sample

/-- The author sees the new hat, by a snapshot and by the update. -/
theorem picture_converges_author :
    ∃ s : System, (s.mem.conns 2).queue.any Sample.isSnapshot = true ∧
      picture Sample.mapUid (s.mem.conns 2).queue (Uuid.text 1) =
        hatOf (wornSlug s.db 1 Sample.mapUid) ∧ wornSlug s.db 1 Sample.mapUid = "Hat-1" := by
  obtain ⟨s₁, h₁, hchanged, h⟩ : ∃ s₁, ReachBy shared (Job.body Sample.pg) NoRecheck
      (System.on Sample.present) s₁ ∧
      (s₁.tasks.any Sample.changed) = true ∧
      ((s₁.scriptBy shared (Job.body Sample.pg) Sample.Watching
        [.go 6 80 (Sample.answers 7 none), .start .deliver, .go 7 20 (Sample.answers 7 none),
         .start (.relay 2), .go 8 2 (Sample.answers 7 none)]).any fun s =>
          decide (Delivered 2 s ∧ Sample.mapUid ∉ s.mem.mapLocks ∧
            wornSlug s.db 1 Sample.mapUid = "Hat-1") &&
          (s.mem.conns 2).queue.any Sample.isSnapshot) = true :=
    ReachBy.scripted (fun _ _ _ => by simp [NoRecheck]) Sample.hatCommitted
      (by simp [Sample.hatCommitted, Sample.mapBound, NoRecheck]) (by decide +kernel)
  obtain ⟨t, ht, hj⟩ := List.any_eq_true.1 hchanged
  obtain ⟨s₂, h₂, h⟩ := (Option.any_eq_true _ _).1 h
  obtain ⟨h, hsnapshot⟩ := Bool.and_eq_true_iff.1 h
  obtain ⟨hdone, hfree, hworn⟩ := of_decide_eq_true h
  have hrun := (ReachBy.scriptBy .init h₂).mono fun _ _ => Sample.Watching.staying
  exact ⟨s₂, hsnapshot, picture_converges Sample.inv_present h₁ ht
    (Sample.justChanged hj) hrun hworn hdone hfree, hworn⟩

end Server2

end Dd2Server
