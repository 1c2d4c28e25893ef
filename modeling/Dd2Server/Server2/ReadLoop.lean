import Dd2Server.Server2.MapOperations

/-!
# What a connection promises

Each request takes a connection from one place where it stands to another.  `connected` says of
every operation on the shared memory what the log of the connection shows then; the request handlers
are taken one by one, and `connection_pool` puts them together along the requests of a run.
-/

namespace Dd2Server

namespace Server2

open ReadCommitted

/-! ## The promise -/

/-- The read loop handles an equip. -/
def Equipping (log : Log) : Prop := ∃ uid slug t, asked log = some (.reportHatEquip uid slug, t)

/-- The read loop does not handle a context report that names the map the connection was on. -/
def Unnamed (pg : Pg) (request : Option (Request × Option String)) : Prop :=
  ∀ uid m, request = some (.reportContext uid, some m) → contextUidRefersToMap pg uid m = false

/-- The connection of this user left the map for another one, and nothing came since but the
lock. -/
def Leaving (u : Uuid) (m : String) (hats : List HatOnMapPlayer) (log : Log) : Prop :=
  ∃ c next older name, log = .acted (.lockMap m) () :: .acted (.setTracked c next) () :: older ∧
    trackedMap older = some m ∧ hats = [⟨u.text, name, ""⟩]

/-- The players on a map are told what the task last saw or left there. -/
def Telling (m : String) (hats : List HatOnMapPlayer) (log : Log) : Prop :=
  ∃ db, anchor log = some db ∧ ∀ x ∈ hats, Reflects db m x

/-- What goes into the queue of the connection. -/
def Answers (pg : Pg) (u : Uuid) (log : Log) : Response → Prop
  | .nonFatalErrorMsg _ _ => True
  | .hatsMine m _ items =>
      clearMap log = some m ∧ ∃ db, anchor log = some db ∧ items = Hats.mineItems pg db u m
  | .hatsOnMap m hats => trackedMap log = some m ∧ ∃ tag db now older,
      log = .read tag db :: .answered .now now :: older ∧ hats = Hats.wornOnMap pg db m now
  | .hatsOnMapUpdate _ _ => False

/-- What a connection leaves to a task of its own. -/
def Leaves (u : Uuid) (log : Log) : Spawned → Prop
  | .deferredBind v _ _ => v = u
  | .commentBind _ => True
  | .unlockValidation c v m slug _ =>
      v = u ∧ opened log = some c ∧ (c, m, slug) ∈ heldUnlocks log

/-- What a connection of the user `u` promises. -/
def connected (pg : Pg) (u : Uuid) : Promise Table.Key Table.Row Tag Ask.Ans Act.Out where
  commit log pre post := Commit pg False pre post ∧ ∃ m, heldMaps log = [m] ∧
    OnlyAt m pre post ∧
    (Equipping log → OnlyOf u m pre post)
  act log
    | .openConnection => log = []
    | .received c _ => ∃ tracked request, Stands u c tracked request [] log
    | .setTracked c next => opened log = some c ∧ heldMaps log = [] ∧ Unnamed pg (asked log) ∧
        ∀ m, next = some m → Text.byteLen m = 27
    | .lockMap _ => True
    | .unlockMap m => m ∈ heldMaps log ∧ (Equipping log → change log = none)
    | .broadcastToMap m hats => m ∈ heldMaps log ∧ Unnamed pg (asked log) ∧
        (Leaving u m hats log ∨ Telling m hats log) ∧
        (Equipping log → trackedMap log = some m ∧ ∃ x, hats = [x] ∧ x.wsid = u.text)
    | .send c r => opened log = some c ∧ Answers pg u log r
    | .beginUnlock c _ _ => opened log = some c
    | .anyForMap c _ => opened log = some c
    | .spawn task => Leaves u log task
    | _ => False

/-- The request does not keep the connection from moving, and is not an equip. -/
structure Calm (pg : Pg) (request : Option (Request × Option String)) : Prop where
  unnamed : Unnamed pg request
  noEquip : ∀ uid slug t, request ≠ some (.reportHatEquip uid slug, t)

section

variable {pg : Pg} {w : Scope} {C : Tag → Db → Prop} {ε α : Type} {u : Uuid}
  {c : Nat} {name : String} {tracked next : Option String}
  {request : Option (Request × Option String)} {m : String}
  {E : ε → Known Table.Key Table.Row Tag Ask.Ans Act.Out}

theorem Calm.notEquipping {log : Log} (h : Calm pg request) (hl : asked log = request) :
    ¬Equipping log := by
  rintro ⟨uid, slug, t, he⟩
  exact h.noEquip uid slug t (hl.symm.trans he)

/-! ## Queries and operations of a connection -/

/-- An operation on a map leaves the connection where it is. -/
theorem operation_stands {R : Db → Db → Prop} {T : List HatOnMapPlayer → Db → Prop}
    {mute : Prop} {x : Query ε α}
    (h : Pool (setting pg w C (operation m R T mute)) (fun _ log _ => Complete m T log)
      (fun log _ => log = []) x (fun _ log _ => Complete m T log))
    (hreq : Unnamed pg request)
    (hR : ∀ pre post, R pre post → Commit pg False pre post ∧ OnlyAt m pre post ∧
      ((∃ uid slug t, request = some (.reportHatEquip uid slug, t)) → OnlyOf u m pre post))
    (hT : ∀ hats db, T hats db → (∀ x ∈ hats, Reflects db m x) ∧
      (tracked = some m ∨ ∀ x ∈ hats, x.slug = "") ∧
      ((∃ uid slug t, request = some (.reportHatEquip uid slug, t)) →
        tracked = some m ∧ ∃ x, hats = [x] ∧ x.wsid = u.text))
    (hmute : mute → ¬∃ uid slug t, request = some (.reportHatEquip uid slug, t)) :
    Pool (setting pg w C (connected pg u)) (fun _ log _ => Stands u c tracked request [] log)
      (fun log _ => Stands u c tracked request [] log) x
      (fun _ log _ => Stands u c tracked request [] log) := by
  have hend : ∀ {new old : Log}, Complete m T new → Stands u c tracked request [] old →
      Stands u c tracked request [] (new ++ old) := by
    rintro new old (hn | hn | ⟨hats, db, ht, hn⟩) hold
    · exact hold.quiet hn
    · apply Stands.append
      rw [hn]
      exact hold.locked.unlocked
    · apply Stands.append
      rw [hn]
      exact (hold.locked.told (hT hats db ht).2.1).unlocked
  apply ReadCommitted.Pool.after h
  · rintro new old pre post - hold ⟨hacts, hr⟩
    obtain ⟨hc, hat, heq⟩ := hR pre post hr
    refine ⟨hc, m, ?_, hat, ?_⟩
    · rw [heldMaps_ofActs.append, hacts]
      exact hold.locked.locks
    · rintro ⟨uid, slug, t, he⟩
      rw [asked_ofActs.append, hacts] at he
      exact heq ⟨uid, slug, t, hold.locked.asked.symm.trans he⟩
  · intro new old a hk hold ha
    cases a with
    | lockMap m' => trivial
    | broadcastToMap m' hats =>
        obtain ⟨rfl, hacts, db, hanchor, ht⟩ := ha
        obtain ⟨hreflects, -, heq⟩ := hT hats db ht
        have hlog : Stands u c tracked request [m'] (new ++ old) := by
          apply Stands.append
          rw [hacts]
          exact hold.locked
        refine ⟨by simp [hlog.locks], hlog.asked ▸ hreq, .inr ⟨db, anchor_append hanchor old,
          hreflects⟩, ?_⟩
        rintro ⟨uid, slug, t, he⟩
        obtain ⟨htr, hx⟩ := heq ⟨uid, slug, t, hlog.asked.symm.trans he⟩
        exact ⟨hlog.map.trans htr, hx⟩
    | unlockMap m' =>
        obtain ⟨rfl, hsilent, hacts⟩ := ha
        have hne : acts new ≠ [] := by
          rcases hacts with hn | ⟨hats, hn⟩ <;> simp [hn]
        have hheld : heldMaps (new ++ old) = [m'] := by
          rw [heldMaps_ofActs.append]
          rcases hacts with hn | ⟨hats, hn⟩ <;> rw [hn] <;> exact congrArg (m' :: ·) hold.locks
        refine ⟨by simp [hheld], ?_⟩
        rintro ⟨uid, slug, t, he⟩
        have hreq' : asked (new ++ old) = request := by
          rw [asked_ofActs.append]
          rcases hacts with hn | ⟨hats, hn⟩ <;> rw [hn] <;> exact hold.asked
        rw [change_append hne]
        exact hsilent.resolve_left fun hm => hmute hm ⟨uid, slug, t, hreq'.symm.trans he⟩
    | _ => exact ha.elim
  · exact fun e new old db _ hold he => hend he hold
  · exact fun a new old db _ hold hb => hend hb hold

/-! ## Moving between maps -/

theorem observe_stands {uid : String} :
    Pool (setting pg w C (connected pg u)) E (fun log _ => Stands u c tracked request [] log)
      (observeMapForCommentBind uid) (fun _ log _ => Stands u c tracked request [] log) := by
  rw [observeMapForCommentBind]
  split
  case isTrue => exact Pool.pure fun _ _ _ h => h
  case isFalse =>
  apply Pool.bind (fun _ log _ => Stands u c tracked request [] log)
  · exact askQ_pool fun a log db h => h.quiet (n := [.answered _ a]) rfl
  intro admitted
  cases admitted with
  | false => exact Pool.pure fun _ _ _ h => h
  | true =>
      apply Pool.act
      · exact fun _ _ _ _ => trivial
      · exact fun _ log db _ h => h.acted rfl rfl rfl rfl rfl fun _ => rfl

/-- The leave push, right after the connection left its map. -/
theorem leave_stands (hcalm : Calm pg request) (hn : ∀ m, next = some m → Text.byteLen m = 27) :
    Pool (setting pg w C (connected pg u)) (fun _ log _ => Stands u c next request [] log)
      (fun log _ => ∃ older, log = .acted (.setTracked c next) () :: older ∧
        Stands u c tracked request [] older)
      (broadcastLeave u name tracked) (fun _ log _ => Stands u c next request [] log) := by
  rw [broadcastLeave]
  cases tracked with
  | none =>
      apply Pool.pure
      rintro log db - ⟨older, rfl, h⟩
      exact h.entered hn
  | some m =>
      by_cases hm : Text.byteLen m = 27
      case neg =>
        have hnone : (some m).filter (fun uid => decide (Text.byteLen uid = 27)) = none := by
          simp [hm]
        rw [hnone]
        apply Pool.pure
        rintro log db - ⟨older, rfl, h⟩
        exact absurd (h.long m rfl) hm
      case pos =>
      have hsome : (some m).filter (fun uid => decide (Text.byteLen uid = 27)) = some m := by
        simp [hm]
      rw [hsome]
      apply underMapLock_pool (fun log _ => ∃ older,
        log = .acted (.lockMap m) () :: .acted (.setTracked c next) () :: older ∧
          Stands u c (some m) request [] older) (fun _ _ _ => False)
        (fun _ log _ => Stands u c next request [m] log)
      · apply Pool.act
        · rintro log db - ⟨older, rfl, h⟩
          refine ⟨List.mem_cons_self, ?_, .inl ⟨c, next, older, name, rfl, h.map, rfl⟩,
            fun he => ?_⟩
          · exact (show asked older = request from h.asked) ▸ hcalm.unnamed
          · exact (hcalm.notEquipping h.asked he).elim
        · rintro o log db - ⟨older, rfl, h⟩
          exact h.moved hn
      · rintro log db ⟨older, rfl, h⟩
        exact ⟨trivial, older, rfl, h⟩
      · exact fun _ _ _ hf => hf.elim
      · rintro a log db h
        exact ⟨⟨by simp [h.locks], fun he => (hcalm.notEquipping h.asked he).elim⟩,
          h.unlocked⟩

theorem pushEntry_reflects {db : Db} {x : HatOnMapPlayer} (h : Hats.pushEntry pg db u m = some x) :
    Reflects db m x := by
  obtain ⟨e, he, h⟩ := Option.bind_eq_some_iff.1 h
  split at h
  case isFalse => cases h
  case isTrue =>
    obtain ⟨r, -, rfl⟩ := Option.map_eq_some_iff.1 h
    refine ⟨u, rfl, ?_⟩
    rw [wornSlug, he]
    rfl

/-- The join push on the map the connection is on. -/
theorem join_stands (hcalm : Calm pg request) :
    Pool (setting pg w C (connected pg u)) (fun _ log _ => Stands u c next request [] log)
      (fun log _ => Stands u c next request [] log) (broadcastJoin pg u next)
      (fun _ log _ => Stands u c next request [] log) := by
  rw [broadcastJoin]
  split
  case h_1 => exact Pool.pure fun _ _ _ h => h
  case h_2 current hcur =>
  obtain rfl : next = some current := (Option.filter_eq_some_iff.1 hcur).1
  apply underMapLock_pool (fun log _ => Stands u c (some current) request [current] log)
    (fun _ log _ => Stands u c (some current) request [current] log)
    (fun _ log _ => Stands u c (some current) request [current] log)
  · apply Pool.bind (fun entry log _ => Stands u c (some current) request [current] log ∧
      ∃ db, anchor log = some db ∧ entry = Hats.pushEntry pg db u current)
    · apply Pool.readCommitted
      · exact fun log db _ h => h.quiet (n := [.failed]) rfl
      · exact fun log db _ h db' _ _ => ⟨h.quiet (n := [.read _ db]) rfl, db, rfl, rfl⟩
    intro entry
    cases entry with
    | none => exact Pool.pure fun log db _ h => h.1
    | some entry =>
        apply Pool.act
        · rintro log db - ⟨h, db', hdb, he⟩
          refine ⟨by simp [h.locks], h.asked ▸ hcalm.unnamed, .inr ⟨db', hdb, ?_⟩,
            fun heq => (hcalm.notEquipping h.asked heq).elim⟩
          intro x hx
          rw [List.mem_singleton.1 hx]
          exact pushEntry_reflects he.symm
        · exact fun o log db _ h => h.1.told (.inl rfl)
  · exact fun log db h => ⟨trivial, h.locked⟩
  · intro e log db h
    exact ⟨⟨by simp [h.locks], fun he => (hcalm.notEquipping h.asked he).elim⟩, h.unlocked⟩
  · intro a log db h
    exact ⟨⟨by simp [h.locks], fun he => (hcalm.notEquipping h.asked he).elim⟩, h.unlocked⟩

/-- Where the connection stands is what the result says. -/
def Tracks (u : Uuid) (c : Nat) (request : Option (Request × Option String))
    (r : Option String × Except DbError (Option String)) :
    Known Table.Key Table.Row Tag Ask.Ans Act.Out := fun log _ =>
  Stands u c r.1 request [] log ∧ ∀ x, r.2 = .ok x → x = r.1

theorem setWayfinderMap_stands (hcalm : Calm pg request)
    (hn : ∀ m, next = some m → Text.byteLen m = 27) :
    Pool (setting pg w C (connected pg u)) E (fun log _ => Stands u c tracked request [] log)
      (setWayfinderMap pg c u name tracked next) (Tracks u c request) := by
  rw [setWayfinderMap]
  split
  case isTrue =>
    apply Pool.pure
    intro log db _ h
    refine ⟨h, fun x hx => ?_⟩
    cases hx
    rfl
  case isFalse hne =>
  apply Pool.bind (fun _ log _ => ∃ older, log = .acted (.setTracked c next) () :: older ∧
    Stands u c tracked request [] older)
  · apply Pool.act
    · exact fun log db _ h => ⟨h.conn, h.locks, h.asked ▸ hcalm.unnamed, hn⟩
    · exact fun o log db _ h => ⟨log, rfl, h⟩
  intro _
  apply Pool.bind (fun _ log _ => Stands u c next request [] log)
  · have hpush : Pool (setting pg w C (connected pg u))
        (fun _ log _ => Stands u c next request [] log)
        (fun log _ => ∃ older, log = .acted (.setTracked c next) () :: older ∧
          Stands u c tracked request [] older)
        (broadcastHatContextTransition pg u name tracked next)
        (fun _ log _ => Stands u c next request [] log) := by
      rw [broadcastHatContextTransition, if_neg hne]
      exact Pool.bind (fun _ log _ => Stands u c next request [] log) (leave_stands hcalm hn)
        fun _ => join_stands hcalm
    apply Pool.weaken (Pool.attempt hpush)
    · exact fun log db _ h => h
    · exact fun e log db h => h
    · rintro (e | a) log db h <;> exact h
  intro r
  apply Pool.pure
  intro log db _ h
  refine ⟨h, fun x hx => ?_⟩
  cases r <;> cases hx
  rfl

theorem adoptWayfinderMap_stands {uid : String} (hcalm : Calm pg request) :
    Pool (setting pg w C (connected pg u)) E (fun log _ => Stands u c tracked request [] log)
      (adoptWayfinderMap pg c u name tracked uid) (Tracks u c request) := by
  rw [adoptWayfinderMap]
  split
  case isTrue =>
    apply Pool.pure
    intro log db _ h
    refine ⟨h, fun x hx => ?_⟩
    cases hx
    rfl
  case isFalse hlen =>
  apply Pool.bind (fun _ log _ => Stands u c tracked request [] log) observe_stands
  intro _
  apply setWayfinderMap_stands hcalm
  rintro m he
  cases he
  exact of_not_not hlen

theorem applyContextMapChange_stands {uid : Option String} (hcalm : ∀ uid slug t,
      request ≠ some (.reportHatEquip uid slug, t))
    (hreq : ∀ ctx m, request = some (.reportContext ctx, some m) → ctx = uid ∧
      tracked = some m) :
    Pool (setting pg w C (connected pg u)) E (fun log _ => Stands u c tracked request [] log)
      (applyContextMapChange pg c u name tracked uid) (Tracks u c request) := by
  rw [applyContextMapChange]
  split
  case isTrue =>
    apply Pool.pure
    intro log db _ h
    refine ⟨h, fun x hx => ?_⟩
    cases hx
    rfl
  case isFalse hno =>
  apply setWayfinderMap_stands
  · refine ⟨fun ctx m he => ?_, hcalm⟩
    obtain ⟨rfl, rfl⟩ := hreq ctx m he
    simpa using hno
  · exact fun m he => by cases he

theorem adoptOrTracked_stands {uid : String} (hcalm : Calm pg request) :
    Pool (setting pg w C (connected pg u)) E (fun log _ => Stands u c tracked request [] log)
      (adoptWayfinderMapOrTracked pg c u name tracked uid)
      (fun r log _ => Stands u c r.1 request [] log ∧ r.2 = r.1) := by
  rw [adoptWayfinderMapOrTracked]
  apply Pool.bind _ (adoptWayfinderMap_stands hcalm)
  rintro ⟨tracked', r⟩
  apply Pool.pure
  rintro log db - ⟨h, hr⟩
  cases r with
  | error e => exact ⟨h, rfl⟩
  | ok current => exact ⟨h, hr current rfl⟩

/-! ## Hats of a map -/

/-- A read of the own hats and what it logs, the newest first.  It reads the binding of the map, and
where there is one what the user wears there and the hats.  A read may fail. -/
inductive MineRead (pg : Pg) (u : Uuid) (m : String) :
    Except DbError (Option (String × List HatMineItem)) → Log → Prop
  | unread (e : DbError) : MineRead pg u m (.error e) [.failed]
  | unbound (v : Db) (hbound : ListedMaps.verifiedBinding pg v m = none) :
      MineRead pg u m (.ok none) [.saw (.named "verified_binding_spec_id") v]
  | unworn (e : DbError) (v : Db) (specId : Int)
      (hbound : ListedMaps.verifiedBinding pg v m = some specId) :
      MineRead pg u m (.error e) [.failed, .saw (.named "verified_binding_spec_id") v]
  | unlisted (e : DbError) (v worn : Db) (specId : Int)
      (hbound : ListedMaps.verifiedBinding pg v m = some specId) :
      MineRead pg u m (.error e)
        [.failed, .read (.named "get_hats_mine: equipped") worn,
          .saw (.named "verified_binding_spec_id") v]
  | listed (v worn db : Db) (specId : Int)
      (hbound : ListedMaps.verifiedBinding pg v m = some specId) :
      MineRead pg u m
        (.ok (some ((Hats.equippedSlug pg worn u m).getD "", Hats.mineItems pg db u m)))
        [.read (.named "get_hats_mine: items") db, .read (.named "get_hats_mine: equipped") worn,
          .saw (.named "verified_binding_spec_id") v]

/-- A push of `HatsMine` of the map to the user, and what it logs: it is sent unless a read failed
or the map is unbound. -/
inductive Attempted (pg : Pg) (c : Nat) (u : Uuid) (m : String) : Log → Prop
  | failed {e : DbError} {log : Log} (hread : MineRead pg u m (.error e) log) :
      Attempted pg c u m log
  | unbound {log : Log} (hread : MineRead pg u m (.ok none) log) : Attempted pg c u m log
  | sent {equipped : String} {items : List HatMineItem} {log : Log}
      (hread : MineRead pg u m (.ok (some (equipped, items))) log) :
      Attempted pg c u m (.acted (.send c (.hatsMine m equipped items)) () :: log)

/-- The items are those of the last read. -/
theorem MineRead.anchor {equipped : String} {items : List HatMineItem} {log : Log}
    (h : MineRead pg u m (.ok (some (equipped, items))) log) :
    ∃ db, Server2.anchor log = some db ∧ items = Hats.mineItems pg db u m := by
  cases h with
  | listed v worn db specId hbound => exact ⟨db, rfl, rfl⟩

theorem getHatsMine_reads {G : Promise Table.Key Table.Row Tag Ask.Ans Act.Out} :
    Pool (setting pg w C G) (fun e log _ => MineRead pg u m (.error e) log) (fun log _ => log = [])
      (Hats.getHatsMine pg m u) (fun r log _ => MineRead pg u m (.ok r) log) := by
  rw [Hats.getHatsMine]
  apply Pool.bind (fun bound log _ => ∃ v, ListedMaps.verifiedBinding pg v m = bound ∧
    log = [.saw (.named "verified_binding_spec_id") v])
  · apply plain_pool
    apply select_pool
    · rintro log db rfl
      exact .unread .database
    · rintro log db - rfl db' - -
      exact ⟨db, rfl, rfl⟩
  intro bound
  cases bound with
  | none =>
      apply Pool.pure
      rintro log db - ⟨v, hbound, rfl⟩
      exact .unbound v hbound
  | some specId =>
      apply Pool.bind (fun equipped log _ =>
        ∃ v worn, ListedMaps.verifiedBinding pg v m = some specId ∧
          equipped = Hats.equippedSlug pg worn u m ∧
          log = [.read (.named "get_hats_mine: equipped") worn,
            .saw (.named "verified_binding_spec_id") v])
      · apply Pool.readCommitted
        · rintro log db - ⟨v, hbound, rfl⟩
          exact .unworn .database v specId hbound
        · rintro log db - ⟨v, hbound, rfl⟩ db' - -
          exact ⟨v, db, hbound, rfl, rfl⟩
      intro equipped
      apply Pool.bind (fun items log _ =>
        MineRead pg u m (.ok (some (equipped.getD "", items))) log)
      · apply Pool.readCommitted
        · rintro log db - ⟨v, worn, hbound, -, rfl⟩
          exact .unlisted .database v worn specId hbound
        · rintro log db - ⟨v, worn, hbound, rfl, rfl⟩ db' - -
          exact .listed v worn db specId hbound
      exact fun items => Pool.pure fun log db _ h => h

/-- The answer of 213 once nothing is pending. -/
theorem pushHatsMine_stands :
    Pool (setting pg w C (connected pg u)) (fun _ log _ => Stands u c tracked request [] log)
      (fun log _ => Stands u c tracked request [] log ∧ clearMap log = some m)
      (pushHatsMine pg c u m) (fun _ log _ => Stands u c tracked request [] log) := by
  rw [pushHatsMine]
  apply Pool.bind (fun r => After (fun log => Stands u c tracked request [] log ∧
    clearMap log = some m) (fun log _ => MineRead pg u m (.ok r) log))
  · apply Pool.adapt
    apply Pool.weaken (Pool.within (R := fun _ _ => False) getHatsMine_reads
      fun _ _ _ _ _ _ hf => hf.elim)
    · exact fun log db _ h => h
    · rintro e log db ⟨new, old, rfl, hn, hold, -⟩
      exact hold.1.quiet hn
    · exact fun a log db h => h
  intro mine
  cases mine with
  | none =>
      apply Pool.pure
      rintro log db - ⟨new, old, rfl, hn, hold, -⟩
      exact hold.1.quiet hn
  | some r =>
      obtain ⟨equipped, items⟩ := r
      apply Pool.act
      · rintro log db - ⟨new, old, rfl, hn, hold, hread⟩
        obtain ⟨db', hdb, hitems⟩ := hread.anchor
        exact ⟨(hold.1.quiet hn).conn, (clearMap_ofActs.quiet hn old).trans hold.2, db',
          anchor_append hdb old, hitems⟩
      · rintro o log db - ⟨new, old, rfl, hn, hold, -⟩
        exact (hold.1.quiet hn).acted rfl rfl rfl rfl rfl fun _ => rfl

theorem sendHatsMine_stands {uid : String} :
    Pool (setting pg w C (connected pg u)) (fun _ log _ => Stands u c tracked request [] log)
      (fun log _ => Stands u c tracked request [] log) (sendHatsMine pg c u next uid)
      (fun _ log _ => Stands u c tracked request [] log) := by
  rw [sendHatsMine]
  split
  case isTrue => exact Pool.pure fun _ _ _ h => h
  case isFalse =>
  apply Pool.bind (fun (pending : Bool) log _ => Stands u c tracked request [] log ∧
    (pending = false → clearMap log = some uid))
  · apply Pool.act
    · exact fun log db _ h => h.conn
    · rintro pending log db - h
      refine ⟨h.acted rfl rfl rfl rfl rfl fun _ => rfl, ?_⟩
      rintro rfl
      rfl
  intro pending
  cases pending with
  | true => exact Pool.pure fun log db _ h => h.1
  | false =>
      apply Pool.weaken pushHatsMine_stands
      · exact fun log db _ h => ⟨h.1, h.2 rfl⟩
      · exact fun e log db h => h
      · exact fun a log db h => h

theorem sendHatsOnMap_stands {uid : String} :
    Pool (setting pg w C (connected pg u)) (fun _ log _ => Stands u c tracked request [] log)
      (fun log _ => Stands u c tracked request [] log) (sendHatsOnMap pg c tracked uid)
      (fun _ log _ => Stands u c tracked request [] log) := by
  rw [sendHatsOnMap]
  split
  case isTrue => exact Pool.pure fun _ _ _ h => h
  case isFalse hmatch =>
  have htracked : tracked = some uid := by simpa [deliveryMatchesMap] using hmatch
  apply Pool.bind (fun hats log _ => ∃ tag db now older,
    log = .read tag db :: .answered .now now :: older ∧ hats = Hats.wornOnMap pg db uid now ∧
      Stands u c tracked request [] older)
  · apply Pool.adapt
    rw [Hats.getHatsOnMap]
    apply Pool.bind (fun now log _ => ∃ older, log = .answered .now now :: older ∧
      Stands u c tracked request [] older)
    · exact askQ_pool fun now log db h => ⟨log, rfl, h⟩
    intro now
    apply Pool.readCommitted
    · rintro log db - ⟨older, rfl, h⟩
      exact h.quiet (n := [.failed, .answered .now now]) rfl
    · rintro log db - ⟨older, rfl, h⟩ db' - -
      exact ⟨_, db, now, older, rfl, rfl, h⟩
  intro hats
  apply Pool.act
  · rintro log db - ⟨tag, db', now, older, rfl, hhats, h⟩
    exact ⟨h.conn, h.map.trans htracked, tag, db', now, older, rfl, hhats⟩
  · rintro o log db - ⟨tag, db', now, older, rfl, hhats, h⟩
    exact (h.quiet (n := [.read tag db', .answered .now now]) rfl).acted rfl rfl rfl rfl rfl
      fun _ => rfl

/-! ## Reports -/

theorem reportMinigameMap_stands {uid : String} {specId : Int} (hcalm : Calm pg request) :
    Pool (setting pg w C (connected pg u)) (fun _ log _ => Stands u c tracked request [] log)
      (fun log _ => Stands u c tracked request [] log) (reportMinigameMap pg u uid specId)
      (fun _ log _ => Stands u c tracked request [] log) := by
  rw [reportMinigameMap]
  split
  case isTrue => exact Pool.pure fun _ _ _ h => h
  case isFalse =>
  apply Pool.bind (fun _ log _ => Stands u c tracked request [] log)
  · apply Pool.adapt
    apply Pool.bind (fun _ log _ => Stands u c tracked request [] log)
    · exact plain_pool (select_pool (fun log db h => h.quiet (n := [.failed]) rfl)
        fun log db _ h db' _ _ => h.quiet (n := [.saw _ db]) rfl)
    · exact fun _ => Pool.pure fun _ _ _ h => h
  intro asks
  cases asks with
  | true =>
      apply Pool.act
      · exact fun _ _ _ _ => rfl
      · exact fun _ log db _ h => h.acted rfl rfl rfl rfl rfl fun _ => rfl
  | false =>
      have hno : ¬∃ uid slug t, request = some (.reportHatEquip uid slug, t) := by
        rintro ⟨uid, slug, t, he⟩
        exact hcalm.noEquip uid slug t he
      apply operation_stands bind_operation hcalm.unnamed
      · exact fun pre post hr => ⟨hr.1, hr.2, fun he => absurd he hno⟩
      · exact fun hats db ht => ⟨fun x hx => Bareheaded.reflects ht hx,
          .inr fun x hx => (ht x hx).1, fun he => absurd he hno⟩
      · exact fun _ => hno

theorem reportHatUnlock_stands {uid slug : String} {specId : Int} :
    Pool (setting pg w C (connected pg u)) (fun _ log _ => Stands u c tracked request [] log)
      (fun log _ => Stands u c tracked request [] log) (reportHatUnlock pg c u uid slug specId)
      (fun _ log _ => Stands u c tracked request [] log) := by
  rw [reportHatUnlock]
  split
  case isTrue => exact Pool.pure fun _ _ _ h => h
  case isFalse =>
  apply Pool.bind (fun _ log _ => Stands u c tracked request [] log)
  · apply Pool.adapt
    exact plain_pool (select_pool (fun log db h => h.quiet (n := [.failed]) rfl)
      fun log db _ h db' _ _ => h.quiet (n := [.saw _ db]) rfl)
  intro bound
  cases bound with
  | none => exact Pool.pure fun _ _ _ h => h
  | some boundSpecId =>
      apply Pool.bind (fun (owed : Bool) log _ => ∃ older,
        log = .acted (.beginUnlock c uid slug) owed :: older ∧
          Stands u c tracked request [] older)
      · apply Pool.act
        · exact fun log db _ h => h.conn
        · exact fun owed log db _ h => ⟨log, rfl, h⟩
      intro owed
      cases owed with
      | false =>
          apply Pool.pure
          rintro log db - ⟨older, rfl, h⟩
          exact h.acted rfl rfl rfl rfl rfl fun _ => rfl
      | true =>
          apply Pool.act
          · rintro log db - ⟨older, rfl, h⟩
            exact ⟨rfl, h.conn, List.mem_cons_self⟩
          · rintro o log db - ⟨older, rfl, h⟩
            refine { h with unlocks := ?_ }
            show ((c, uid, slug) :: heldUnlocks older).erase (c, uid, slug) = []
            rw [List.erase_cons_head, h.unlocks]

theorem reportHatEquip_stands {uid slug : String} :
    Pool (setting pg w C (connected pg u))
      (fun _ log _ => Stands u c tracked (some (.reportHatEquip uid slug, tracked)) [] log)
      (fun log _ => Stands u c tracked (some (.reportHatEquip uid slug, tracked)) [] log)
      (reportHatEquip pg c u tracked uid slug)
      (fun _ log _ => Stands u c tracked (some (.reportHatEquip uid slug, tracked)) [] log) := by
  rw [reportHatEquip]
  split
  case isTrue => exact Pool.pure fun _ _ _ h => h
  case isFalse hgate =>
  have htracked : tracked = some uid := by
    have hmatch := (not_or.1 hgate).2
    simpa [deliveryMatchesMap] using hmatch
  apply Pool.bind (fun _ log _ =>
    Stands u c tracked (some (.reportHatEquip uid slug, tracked)) [] log)
  · exact askQ_pool fun a log db h => h.quiet (n := [.answered _ a]) rfl
  intro verdict
  cases verdict with
  | allowed =>
      apply operation_stands equip_operation
      · exact fun ctx m he => by cases he
      · exact fun pre post hr => ⟨hr.1, hr.2.onlyAt, fun _ => hr.2⟩
      · rintro hats db ⟨x, rfl, hwsid, hslug⟩
        refine ⟨fun y hy => ?_, .inl htracked, fun _ => ⟨htracked, x, rfl, hwsid⟩⟩
        rw [List.mem_singleton.1 hy]
        exact ⟨u, hwsid, hslug⟩
      · exact fun hf => hf.elim
  | perUser =>
      apply Pool.act
      · exact fun log db _ h => ⟨h.conn, trivial⟩
      · exact fun _ log db _ h => h.acted rfl rfl rfl rfl rfl fun _ => rfl
  | global => exact Pool.pure fun _ _ _ h => h

/-! ## The read loop -/

/-- An error of a request is only logged. -/
theorem attempt_stands {ε' : Type} {x : Query ε' α}
    (h : Pool (setting pg w C (connected pg u)) (fun _ log _ => Stands u c tracked request [] log)
      (fun log _ => Stands u c tracked request [] log) x
      (fun _ log _ => Stands u c tracked request [] log)) :
    Pool (setting pg w C (connected pg u)) E (fun log _ => Stands u c tracked request [] log)
      (attempt x) (fun _ log _ => Stands u c tracked request [] log) := by
  apply Pool.weaken (Pool.attempt h)
  · exact fun log db _ h => h
  · exact fun e log db h => h
  · rintro (e | a) log db h <;> exact h

/-- A request takes the connection from where it stands to where the loop goes on. -/
theorem handle_stands (st : ReadLoop) (r : Request)
    (hreq : request = some (r, st.wayfinderMapUid)) :
    Pool (setting pg w C (connected pg u)) E
      (fun log _ => Stands u c st.wayfinderMapUid request [] log)
      (handle pg c u name st r) (fun st' log _ =>
        Stands u c st'.wayfinderMapUid request [] log) := by
  subst hreq
  cases r with
  | reportContext mapUid =>
      rw [handle]
      apply Pool.bind (fun _ log _ => Stands u c st.wayfinderMapUid _ [] log)
      · exact askQ_pool fun a log db h => h.quiet (n := [.answered _ a]) rfl
      intro stored
      cases stored with
      | error e => exact Pool.pure fun _ _ _ h => h
      | ok _ =>
          dsimp only
          split
          case isFalse => exact Pool.pure fun _ _ _ h => h
          case isTrue =>
          apply Pool.bind _ (applyContextMapChange_stands (by simp) ?_)
          · rintro ⟨tracked', r⟩
            exact Pool.pure fun log db _ h => h.1
          · rintro ctx m he
            simp only [Option.some.injEq, Prod.mk.injEq, Request.reportContext.injEq] at he
            exact ⟨he.1.symm, he.2⟩
  | reportMinigameMap uid specId =>
      have hcalm : Calm pg (some (.reportMinigameMap uid specId, st.wayfinderMapUid)) :=
        ⟨by simp [Unnamed], by simp⟩
      rw [handle]
      apply Pool.bind _ (attempt_stands (reportMinigameMap_stands hcalm))
      intro _
      apply Pool.bind _ (adoptWayfinderMap_stands hcalm)
      rintro ⟨tracked', r⟩
      exact Pool.pure fun log db _ h => h.1
  | reportHatUnlock uid slug specId =>
      rw [handle]
      apply Pool.bind _ (attempt_stands reportHatUnlock_stands)
      exact fun _ => Pool.pure fun log db _ h => h
  | reportHatEquip uid slug =>
      rw [handle]
      apply Pool.bind _ (attempt_stands reportHatEquip_stands)
      exact fun _ => Pool.pure fun log db _ h => h
  | getHatsMine uid =>
      have hcalm : Calm pg (some (.getHatsMine uid, st.wayfinderMapUid)) :=
        ⟨by simp [Unnamed], by simp⟩
      rw [handle]
      apply Pool.bind _ (adoptOrTracked_stands hcalm)
      rintro ⟨tracked', current⟩
      apply Pool.bind (fun _ log _ => Stands u c tracked' _ [] log)
      · apply Pool.weaken (attempt_stands (E := E) sendHatsMine_stands)
        · exact fun log db _ h => h.1
        · exact fun e log db h => h
        · exact fun a log db h => h
      · exact fun _ => Pool.pure fun log db _ h => h
  | getHatsOnMap uid =>
      have hcalm : Calm pg (some (.getHatsOnMap uid, st.wayfinderMapUid)) :=
        ⟨by simp [Unnamed], by simp⟩
      rw [handle]
      apply Pool.bind _ (adoptOrTracked_stands hcalm)
      rintro ⟨tracked', current⟩
      dsimp only
      by_cases hc : current = tracked'
      case neg =>
        intro l db hinv hw hl hA
        exact absurd (hA db (.refl hinv)).2 hc
      case pos =>
      subst hc
      apply Pool.bind (fun _ log _ => Stands u c current _ [] log)
      · apply Pool.weaken (attempt_stands (E := E) sendHatsOnMap_stands)
        · exact fun log db _ h => h.1
        · exact fun e log db h => h
        · exact fun a log db h => h
      · exact fun _ => Pool.pure fun log db _ h => h

/-- By induction on the requests that are still to come. -/
theorem readLoop_stands (st : ReadLoop) (requests : List Request) :
    Pool (setting pg w C (connected pg u)) E
      (fun log _ => ∃ request, Stands u c st.wayfinderMapUid request [] log)
      (readLoop pg c u name st requests) (fun _ log _ => ∃ c tracked request,
        Stands u c tracked request [] log) := by
  induction requests generalizing st with
  | nil =>
      apply Pool.pure
      rintro log db - ⟨request, h⟩
      exact ⟨c, _, request, h⟩
  | cons r requests ih =>
      rw [readLoop]
      apply Pool.bind (fun _ log _ => Stands u c st.wayfinderMapUid
        (some (r, st.wayfinderMapUid)) [] log)
      · apply Pool.act
        · rintro log db - ⟨request, h⟩
          exact ⟨_, request, h⟩
        · rintro o log db - ⟨request, h⟩
          exact h.received r
      intro _
      apply Pool.bind _ (handle_stands st r rfl)
      intro st'
      apply Pool.weaken (ih st')
      · exact fun log db _ h => ⟨_, h⟩
      · exact fun e log db h => h
      · exact fun a log db h => h

theorem connection_pool (requests : List Request) :
    Pool (setting pg w C (connected pg u)) E (fun log _ => log = [])
      (connection pg u name requests) (fun _ log _ => ∃ c tracked request,
        Stands u c tracked request [] log) := by
  rw [connection]
  apply Pool.bind (fun c log _ => log = [.acted .openConnection c])
  · apply Pool.act
    · exact fun log db _ h => h
    · rintro o log db - rfl
      rfl
  intro c
  apply Pool.weaken (readLoop_stands {} requests)
  · rintro log db - rfl
    refine ⟨none, rfl, rfl, rfl, rfl, rfl, by simp, ?_⟩
    rintro m slug - ht
    cases ht
  · exact fun e log db h => h
  · exact fun a log db h => h

end

end Server2

end Dd2Server
