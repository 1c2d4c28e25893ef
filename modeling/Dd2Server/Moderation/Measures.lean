import Dd2Server.Moderation.SuperMods
import Dd2Server.ReadCommitted.Confined
import Dd2Server.ReadCommitted.Evidence

/-!
# Measures

A measure is a ban or its lift, a delegate more or less, a super-mod more or less.  A request takes
one for the user of the session that its cookie names, once it has read that this user may: a
super-mod may anything, the author of a map bans and names delegates on it, a delegate bans.  The
audit trail names who did it.

`Deed` is what a commit may do, with what is in the log of the task before it.  Every request keeps
to it.
-/

namespace Dd2Server.Moderation

open ReadCommitted

/-! ## Measures -/

inductive Measure
  | ban (mapUid : String) (target : Uuid)
  | lift (mapUid : String) (target : Uuid)
  | delegate (mapUid : String) (target : Uuid)
  | undelegate (mapUid : String) (target : Uuid)
  | promote (target : Uuid)
  | demote (target : Uuid)
  deriving DecidableEq

namespace Measure

/-- Its name in the audit trail. -/
def action : Measure → String
  | .ban .. => "ban.create"
  | .lift .. => "ban.lift"
  | .delegate .. => "delegate.add"
  | .undelegate .. => "delegate.remove"
  | .promote .. => "super_mod.add"
  | .demote .. => "super_mod.remove"

def mapUid : Measure → Option String
  | .ban m _ | .lift m _ | .delegate m _ | .undelegate m _ => some m
  | .promote _ | .demote _ => none

def target : Measure → Uuid
  | .ban _ u | .lift _ u | .delegate _ u | .undelegate _ u | .promote u | .demote u => u

/-- The user may take the measure. -/
def permits : Measure → Db → Uuid → Bool
  | .ban m _, db, u | .lift m _, db, u =>
      Protection.superMod.covers db m u || Protection.author.covers db m u ||
        Protection.delegate.covers db m u
  | .delegate m _, db, u | .undelegate m _, db, u =>
      Protection.superMod.covers db m u || Protection.author.covers db m u
  | .promote _, db, u | .demote _, db, u => Protection.superMod.covers db "" u

/-- The rows before and after the actor takes the measure. -/
inductive Done (actor : Uuid) (pre : Db) : Measure → Db → Prop
  | ban (m : String) (u : Uuid) (row : MapBan) (now : Time) (hrow : row.createdBy = actor)
      (hopen : row.liftedAt = none) : Done actor pre (.ban m u)
        ((pre.put ⟨⟨.mapBans, (m, u)⟩, some row⟩).put ⟨⟨.mapUnofficial, (m, u)⟩,
          some { source := "ban", updatedAt := now, updatedBy := some actor }⟩)
  | lift (m : String) (u : Uuid) (b : MapBan) (now : Time) (clears : Bool)
      (hb : pre.get ⟨.mapBans, (m, u)⟩ = some b) (hactive : b.isActive now = true) :
      Done actor pre (.lift m u) (Store.view (liftWrites m u (b.lifted actor now) clears) pre)
  | delegate (m : String) (u : Uuid) (row : MapDelegate)
    (hnew : pre.get ⟨.mapDelegates, (m, u)⟩ = none)
      (hrow : row.grantedBy = actor) :
      Done actor pre (.delegate m u) (pre.put ⟨⟨.mapDelegates, (m, u)⟩, some row⟩)
  | undelegate (m : String) (u : Uuid) (hthere : (pre.get ⟨.mapDelegates, (m, u)⟩).isSome) :
      Done actor pre (.undelegate m u) (pre.put ⟨⟨.mapDelegates, (m, u)⟩, none⟩)
  | promote (u : Uuid) (row : SuperModRow) (hnew : ¬IsSuperMod pre u)
    (hrow : row.grantedBy = some actor) :
      Done actor pre (.promote u) (pre.put ⟨⟨.superMods, u⟩, some row⟩)
  | demote (u : Uuid) (hthere : IsSuperMod pre u) : Done actor pre (.demote u)
    (pre.put ⟨⟨.superMods, u⟩, none⟩)

/-- There is nothing left to do for the measure. -/
def idle : Measure → Db → Bool
  | .delegate m u, db => (db.get ⟨.mapDelegates, (m, u)⟩).isSome
  | .undelegate m u, db => (db.get ⟨.mapDelegates, (m, u)⟩).isNone
  | .promote u, db => (db.get ⟨.superMods, u⟩).isSome
  | _, _ => false

end Measure

/-! ## What a request did -/

def Job.cookie : Job → Option String
  | .createBan _ cookie _ | .liftBan _ _ cookie _ | .addDelegate _ cookie _ _ |
    .removeDelegate _ _ cookie
  | .addSuperMod cookie _ _ | .removeSuperMod _ cookie => cookie
  | .timePasses _ => none

/-- The request is of the user: it has read a session that its cookie names and that was not
over. -/
inductive SignedIn (cookie : Option String) (actor : Uuid) (log : Log) : Prop
  | mk (sid : Uuid) (row : WebSession) (now : Time) (v : Db) (hsid : sessionId cookie = some sid)
      (huser : row.userId = actor) (hnow : .acted .clock now ∈ log) (hopen : now < row.expiresAt)
      (hrow : v.get ⟨.webSessions, sid⟩ = some row)
        (hread : .read (.named "get_web_session") v ∈ log)

/-- The request has read that the user is protected on the map in this way. -/
def Saw (kind : Protection) (mapUid : String) (actor : Uuid) (log : Log) : Prop :=
  ∃ tag v, .read tag v ∈ log ∧ kind.covers v mapUid actor = true

/-- The request has read that its user may take the measure. -/
structure Entitled (cookie : Option String) (m : Measure) (actor : Uuid) (log : Log) : Prop where
  signedIn : SignedIn cookie actor log
  saw : ∃ tag v, .read tag v ∈ log ∧ m.permits v actor = true

/-- The user that the request is about: by id, or else by a name that it has read. -/
inductive Meant (userId displayName : Option String) (target : Uuid) (log : Log) : Prop
  | byId (id : String) (hid : userId = some id) (hparse : Uuid.parse id.toList = some target)
  | byName (name : String) (row : UserRow) (v : Db) (hid : userId = none)
    (hname : displayName = some name)
      (hrow : v.get ⟨.users, target⟩ = some row) (hsame : row.displayName = name)
      (hread : .read (.named "find_user_id_by_display_name") v ∈ log)

/-- The request is for the measure. -/
inductive Asked (log : Log) : Job → Measure → Prop
  | ban (mapUid : String) (cookie : Option String) (body : CreateBanBody) (target : Uuid)
      (h : Meant body.userId body.displayName target log) :
      Asked log (.createBan mapUid cookie body) (.ban mapUid target)
  | lift (mapUid userId : String) (cookie : Option String) (keepUnofficial : Bool) (target : Uuid)
      (h : Uuid.parse userId.toList = some target) :
      Asked log (.liftBan mapUid userId cookie keepUnofficial) (.lift mapUid target)
  | delegate (mapUid : String) (cookie userId displayName : Option String) (target : Uuid)
      (h : Meant userId displayName target log) :
      Asked log (.addDelegate mapUid cookie userId displayName) (.delegate mapUid target)
  | undelegate (mapUid userId : String) (cookie : Option String) (target : Uuid)
      (h : Uuid.parse userId.toList = some target) :
      Asked log (.removeDelegate mapUid userId cookie) (.undelegate mapUid target)
  | promote (cookie userId displayName : Option String) (target : Uuid)
    (h : Meant userId displayName target log) :
      Asked log (.addSuperMod cookie userId displayName) (.promote target)
  | demote (userId : String) (cookie : Option String) (target : Uuid)
    (h : Uuid.parse userId.toList = some target) :
      Asked log (.removeSuperMod userId cookie) (.demote target)

/-- The request has taken the measure, or it saw that there was nothing left to do for it. -/
def Carried (m : Measure) (actor : Uuid) (log : Log) : Prop :=
  (∃ pre post, .committed pre post ∈ log ∧ m.Done actor pre post) ∨
    ∃ tag v, .saw tag v ∈ log ∧ m.idle v = true

/-- The rows that only measures change. -/
def Table.guarded : Table → Bool
  | .superMods | .mapDelegates | .mapBans | .mapUnofficial | .auditEvents => true
  | _ => false

/-- What a commit may do. -/
inductive Deed (j : Job) (log : Log) (pre post : Db) : Prop
  | other (h : ∀ t : Table, t.guarded = true → post t = pre t)
  | done (m : Measure) (actor : Uuid) (hasked : Asked log j m)
    (hright : Entitled j.cookie m actor log)
      (hdone : m.Done actor pre post)
  | told (m : Measure) (id : Int) (event : AuditEvent) (hasked : Asked log j m)
      (hright : Entitled j.cookie m event.actorId log) (hcarried : Carried m event.actorId log)
      (haction : event.action = m.action) (hmap : event.mapUid = m.mapUid)
      (htarget : event.targetUserId = some m.target) (hnew : pre.get ⟨.auditEvents, id⟩ = none)
      (hpost : post = pre.put ⟨⟨.auditEvents, id⟩, some event⟩)

variable {env : Env} {j : Job} {ε ε' α β : Type} {P E : Log → Prop} {log : Log}
  {pre post : Db} {m : Measure} {mapUid : String} {cookie : Option String} {actor target : Uuid}

/-! ## What the requests know -/

/-- From `P` the query comes to `Q` of its result, or to an error and `E`. -/
abbrev Acts (j : Job) (E P : Log → Prop) (x : Query ε α) (Q : α → Log → Prop) : Prop :=
  Tells { commit := Deed j } E P x Q

/-- A fact about what the log has. -/
abbrev Stays (P : Log → Prop) : Prop := Abides (fun _ _ : Db => True) P

theorem signedIn_stays (cookie : Option String) (actor : Uuid) : Stays (SignedIn cookie actor) := by
  apply Abides.of_cons
  rintro ev log ⟨sid, row, now, v, hsid, huser, hnow, hopen, hrow, hread⟩
  exact ⟨sid, row, now, v, hsid, huser, List.mem_cons_of_mem _ hnow, hopen, hrow,
    List.mem_cons_of_mem _ hread⟩

theorem saw_stays (kind : Protection) (mapUid : String) (actor : Uuid) :
    Stays (Saw kind mapUid actor) := by
  apply Abides.of_cons
  rintro ev log ⟨tag, v, hread, hcovers⟩
  exact ⟨tag, v, List.mem_cons_of_mem _ hread, hcovers⟩

theorem Meant.cons {userId displayName : Option String} (h : Meant userId displayName target log)
    (ev : LogEvent) : Meant userId displayName target (ev :: log) := by
  cases h with
  | byId id hid hparse => exact .byId id hid hparse
  | byName name row v hid hname hrow hsame hread =>
      exact .byName name row v hid hname hrow hsame (List.mem_cons_of_mem _ hread)

theorem Asked.cons (h : Asked log j m) (ev : LogEvent) : Asked (ev :: log) j m := by
  cases h with
  | ban mapUid cookie body target h => exact .ban mapUid cookie body target (h.cons ev)
  | lift mapUid userId cookie keep target h => exact .lift mapUid userId cookie keep target h
  | delegate mapUid cookie userId name target h =>
      exact .delegate mapUid cookie userId name target (h.cons ev)
  | undelegate mapUid userId cookie target h => exact .undelegate mapUid userId cookie target h
  | promote cookie userId name target h => exact .promote cookie userId name target (h.cons ev)
  | demote userId cookie target h => exact .demote userId cookie target h

/-- The request is for the measure, and its user may take it. -/
def Due (j : Job) (m : Measure) (actor : Uuid) (log : Log) : Prop :=
  Asked log j m ∧ Entitled j.cookie m actor log

theorem due_stays (j : Job) (m : Measure) (actor : Uuid) : Stays (Due j m actor) := by
  apply Abides.of_cons
  rintro ev log ⟨hasked, hin, tag, v, hread, hpermits⟩
  have hin' : SignedIn j.cookie actor (ev :: log) := by
    obtain ⟨sid, row, now, v, hsid, huser, hnow, hopen, hrow, hread⟩ := hin
    exact ⟨sid, row, now, v, hsid, huser, List.mem_cons_of_mem _ hnow, hopen, hrow,
      List.mem_cons_of_mem _ hread⟩
  exact ⟨hasked.cons ev, hin', tag, v, List.mem_cons_of_mem _ hread, hpermits⟩

theorem carried_stays (m : Measure) (actor : Uuid) : Stays (Carried m actor) := by
  apply Abides.of_cons
  rintro ev log (⟨pre, post, hmem, hdone⟩ | ⟨tag, v, hmem, hidle⟩)
  · exact .inl ⟨pre, post, List.mem_cons_of_mem _ hmem, hdone⟩
  · exact .inr ⟨tag, v, List.mem_cons_of_mem _ hmem, hidle⟩

theorem read_acts {tag : Tag} {f : Db → α} (hP : Stays P) (hE : ∀ log, P log → E log) :
    Acts j E P (poolRead tag f) fun a log => P log ∧ ∃ v, .read tag v ∈ log ∧ f v = a :=
  Tells.read hP hE

theorem ask_acts {q : Ask} (hP : Stays P) : Acts j E P (askQ q : Query ε q.Ans) fun _ => P :=
  Tells.weaken (Tells.ask hP) (fun _ h => h) (fun _ h => h) fun _ _ h => h.1

theorem autocommit_acts {s : Time → Sql α} {Q : α → Log → Prop} (hP : Stays P)
    (hE : ∀ log, P log → E log) (hs : ∀ now v e a, (s now).run v = some (e, a) →
      ∀ log pre, P log → .saw (s now).tag v ∈ log →
      (∀ w ∈ e.writes, pre.get w.row = v.get w.row) → Deed j log pre
      (Store.view e.writes pre) ∧ Q a (.committed pre (Store.view e.writes pre) :: log)) :
    Acts j E P (autocommit s) Q :=
  .acting hP hE (fun _ => trivial) fun now v e a hrun log pre h _ hsaw hrows =>
    hs now v e a hrun log pre h hsaw hrows

/-- A statement on its own that writes no guarded row. -/
theorem elsewhere_acts {s : Time → Sql α} (hP : Stays P) (hE : ∀ log, P log → E log)
    (hs : ∀ now v e a, (s now).run v = some (e, a) →
      ∀ w ∈ e.writes, w.row.table.guarded = false) : Acts j E P (autocommit s) fun _ => P := by
  apply autocommit_acts hP hE
  intro now v e a hrun log pre hlog _ _
  refine ⟨.other fun t ht => ?_, hP.commit _ _ _ trivial hlog⟩
  refine Among.view_table (W := fun t' => t' ≠ t) (fun w hw he => ?_) pre (by simp)
  rw [← he, hs now v e a hrun w hw] at ht
  cases ht

/-- A statement on its own takes the measure, or there is nothing left to do. -/
theorem measure_acts {s : Time → Sql α} (hs : ∀ now v e a, (s now).run v = some (e, a) →
      (∀ pre, (∀ w ∈ e.writes, pre.get w.row = v.get w.row) →
        m.Done actor pre (Store.view e.writes pre)) ∨ e.writes = [] ∧ m.idle v = true) :
    Acts j (fun _ => True) (Due j m actor) (autocommit s) fun _ log => Due j m actor log ∧
    Carried m actor log := by
  apply autocommit_acts (due_stays j m actor) fun _ _ => trivial
  intro now v e a hrun log pre hdue hsaw hrows
  have hdue' := (due_stays j m actor).commit pre (Store.view e.writes pre) log trivial hdue
  rcases hs now v e a hrun with hdone | ⟨hwrites, hidle⟩
  · exact ⟨.done m actor hdue.1 hdue.2 (hdone pre hrows), hdue',
      .inl ⟨_, _, List.mem_cons_self, hdone pre hrows⟩⟩
  · rw [hwrites] at hdue' ⊢
    exact ⟨.other fun _ _ => rfl, hdue', .inr ⟨_, v, List.mem_cons_of_mem _ hsaw, hidle⟩⟩

/-! ## Who asks, and about whom -/

theorem sessionUser_acts (hP : Stays P) :
    Acts j E P (sessionUser cookie : Query ε _) fun user log =>
      P log ∧ ∀ actor name, user = some (actor, name) → SignedIn cookie actor log := by
  rw [sessionUser]
  split
  · exact .pure fun log h => ⟨h, by simp⟩
  next sid hsid =>
  have hget : Acts j P P (getWebSession sid) fun user log =>
      P log ∧ ∀ actor name, user = some (actor, name) → SignedIn cookie actor log := by
    refine .bind (Tells.act hP fun _ _ => trivial) fun now => ?_
    refine .weaken (read_acts (hP.and (.mem _)) fun _ h => h.1) (fun _ h => h) (fun _ h => h) ?_
    rintro user log ⟨⟨hlog, hnow⟩, v, hread, hu⟩
    refine ⟨hlog, fun actor name he => ?_⟩
    obtain ⟨row, hrow, he⟩ := Option.map_eq_some_iff.1 (hu.trans he)
    obtain ⟨hrow, hopen⟩ := Option.filter_eq_some_iff.1 hrow
    cases he
    exact ⟨sid, row, now, v, hsid, rfl, hnow, of_decide_eq_true hopen, hrow, hread⟩
  refine .bind (.attempt hget fun _ _ h => h.1) fun r => .pure fun log h =>
    ⟨h.1, fun actor name he => ?_⟩
  cases r with
  | error e => cases he
  | ok user => exact (h.2 user rfl).2 actor name he

theorem upsert_elsewhere {t : Table} {k : t.Key} {r : t.Row} {v : Db} {e : DbEffect} {b b' : β}
    (ht : t.guarded = false)
    (h : (constraints.upsertRow t k r v).map (fun e => (e, b)) = some (e, b')) :
    ∀ w ∈ e.writes, w.row.table.guarded = false := by
  obtain ⟨e', he, hb⟩ := Option.map_eq_some_iff.1 h
  cases hb
  rw [Constraints.upsertRow_writes he]
  exact fun w hw => List.mem_singleton.1 hw ▸ ht

theorem ensureMapMeta_acts (hP : Stays P) : Acts j P P (ensureMapMeta env mapUid) fun _ => P := by
  have hread : Acts j P P ((getMapMeta mapUid).adapt env.sqlxText) fun _ => P :=
    .adapt _ (.weaken (read_acts hP fun _ h => h) (fun _ h => h) (fun _ h => h) fun _ _ h => h.1)
  have hfetch : Acts j P P (fetchMapMeta env mapUid) fun _ => P := by
    rw [fetchMapMeta]
    split
    · refine .bind (M := fun _ => P) ?_ fun r =>
        .adapt _ (elsewhere_acts hP (fun _ h => h) fun _ _ _ _ hrun => ?_)
      · refine .bind (ask_acts hP) fun r => ?_
        refine .bind (M := fun _ => P) (.result (fun _ h => h) fun _ _ _ h => h) fun info => ?_
        exact .bind (M := fun _ => P) (.result (fun _ h => h) fun _ _ _ h => h)
          fun _ => .pure fun _ h => h
      · exact upsert_elsewhere rfl hrun
    · refine .bind hread fun row => ?_
      cases row with
      | some r => exact .pure fun _ h => h
      | none => exact .throw fun _ h => h
  refine .bind hread fun row => ?_
  cases row with
  | none => exact hfetch
  | some r =>
      refine .bind (ask_acts (q := .utcNow) hP) fun now => ?_
      split
      · exact .pure fun _ h => h
      · exact hfetch

theorem canModerateMap_acts (hP : Stays P) :
    Acts j (fun _ => True) P (canModerateMap mapUid actor) fun r log =>
      P log ∧ (r = true → ∃ kind, Saw kind mapUid actor log) := by
  have hsaw : ∀ (kind : Protection) (tag : Tag), Acts j (fun _ => True) P
      (poolRead tag fun db => kind.covers db mapUid actor) fun r log =>
        P log ∧ (r = true → Saw kind mapUid actor log) := by
    intro kind tag
    refine .weaken (read_acts hP fun _ _ => trivial) (fun _ h => h) (fun _ h => h) ?_
    rintro r log ⟨hlog, v, hread, hr⟩
    exact ⟨hlog, fun he => ⟨tag, v, hread, hr.trans he⟩⟩
  refine .bind (hsaw .superMod _) fun isSm => ?_
  split
  · next h => exact .pure fun log hl => ⟨hl.1, fun _ => ⟨_, hl.2 h⟩⟩
  refine .bind (.pre (hsaw .author _) fun _ h => h.1) fun isAuthor => ?_
  split
  · next h => exact .pure fun log hl => ⟨hl.1, fun _ => ⟨_, hl.2 h⟩⟩
  exact .weaken (hsaw .delegate _) (fun _ h => h.1) (fun _ h => h) fun r log h =>
    ⟨h.1, fun he => ⟨_, h.2 he⟩⟩

theorem requireModerator_acts :
    Acts j (fun _ => True) (fun _ => True) (requireModerator env mapUid cookie) fun actor log =>
      SignedIn cookie actor log ∧ ∃ kind, Saw kind mapUid actor log := by
  refine .bind (sessionUser_acts .true) fun user => ?_
  cases user with
  | none => exact .throw fun _ _ => trivial
  | some user =>
      have hin := signedIn_stays cookie user.1
      refine .pre (A := SignedIn cookie user.1) ?_ fun log h => h.2 user.1 user.2 rfl
      refine .bind (.attempt (ensureMapMeta_acts hin) fun _ _ h => h) fun _ => ?_
      refine .bind (.adapt _ (.pre (canModerateMap_acts hin) fun _ h => h.1)) fun moderates => ?_
      split
      · next h => exact .pure fun log hl => ⟨hl.1, hl.2 h⟩
      · exact .throw fun _ _ => trivial

theorem requireSuperMod_acts :
    Acts j (fun _ => True) (fun _ => True) (requireSuperMod env cookie) fun actor log =>
      SignedIn cookie actor log ∧ Saw .superMod "" actor log := by
  refine .bind (sessionUser_acts .true) fun user => ?_
  cases user with
  | none => exact .throw fun _ _ => trivial
  | some user =>
      refine .pre (A := SignedIn cookie user.1) ?_ fun log h => h.2 user.1 user.2 rfl
      refine .bind (.adapt _ (read_acts (signedIn_stays _ _) fun _ _ => trivial)) fun isSm => ?_
      split
      · next h =>
        refine .pure fun log hl => ⟨hl.1, ?_⟩
        obtain ⟨v, hread, hv⟩ := hl.2
        exact ⟨_, v, hread, hv.trans h⟩
      · exact .throw fun _ _ => trivial

theorem runsMap_acts (hP : Stays P) :
    Acts j (fun _ => True) P (runsMap mapUid actor : Query ε Bool) fun r log =>
      P log ∧ (r = true → Saw .superMod mapUid actor log ∨ Saw .author mapUid actor log) := by
  have hsaw : ∀ {P : Log → Prop} (kind : Protection) (tag : Tag), Stays P →
      Acts j (fun _ => True) P
      (attempt (poolRead tag fun db => kind.covers db mapUid actor) : Query ε _) fun r log =>
        P log ∧ (r = .ok true → Saw kind mapUid actor log) := by
    intro P kind tag hP
    refine .weaken (.attempt (read_acts hP fun _ h => h) fun _ _ h => h.1) (fun _ h => h)
      (fun _ h => h) ?_
    rintro r log ⟨hlog, hr⟩
    refine ⟨hlog, fun he => ?_⟩
    obtain ⟨-, v, hread, hv⟩ := hr true he
    exact ⟨tag, v, hread, hv⟩
  have hok : ∀ r : Except DbError Bool, r.toOption.getD false = true → r = .ok true := by
    intro r hr
    cases r with
    | ok b => exact congrArg Except.ok hr
    | error e => cases hr
  refine .bind (hsaw .superMod _ hP) fun isSm => ?_
  refine .bind (hsaw .author _ (hP.and (.given _ (saw_stays _ _ _)))) fun isAuthor => ?_
  refine .pure fun log h => ⟨h.1.1, fun hr => ?_⟩
  rcases (Bool.or_eq_true _ _).mp hr with hr | hr
  · exact .inl (h.1.2 (hok _ hr))
  · exact .inr (h.2 (hok _ hr))

theorem parseTarget_acts {userId : String} :
    Acts j (fun _ => True) P (parseTarget userId) fun u log => P log ∧
    Uuid.parse userId.toList = some u := by
  rw [parseTarget]
  cases hu : Uuid.parse userId.toList with
  | some u => exact .pure fun _ h => ⟨h, rfl⟩
  | none => exact .throw fun _ _ => trivial

theorem findTarget_acts {notFound : String} {userId displayName : Option String} (hP : Stays P) :
    Acts j (fun _ => True) P (findTarget env notFound userId displayName) fun u log =>
      P log ∧ Meant userId displayName u log := by
  rw [findTarget.eq_def]
  split
  · exact .weaken (parseTarget_acts) (fun _ h => h) (fun _ h => h)
      fun u log h => ⟨h.1, .byId _ rfl h.2⟩
  · next name =>
    refine .bind (.adapt _ (read_acts hP fun _ _ => trivial)) fun found => ?_
    cases found with
    | none => exact .throw fun _ _ => trivial
    | some u =>
        refine .pure ?_
        rintro log ⟨hlog, v, hread, hu⟩
        obtain ⟨⟨u', row⟩, hfind, rfl⟩ := Option.map_eq_some_iff.1 hu
        have hsame := List.find?_some hfind
        exact ⟨hlog, .byName name row v rfl rfl
          (Store.mem_rows.1 (List.mem_of_find?_eq_some hfind)) (of_decide_eq_true hsame) hread⟩
  · exact .throw fun _ _ => trivial

theorem parseBanExpiresAt_acts {raw : Option String} (hP : Stays P) :
    Acts j (fun _ => True) P (parseBanExpiresAt env raw) fun _ => P := by
  rw [parseBanExpiresAt]
  split
  · exact .pure fun _ h => h
  split
  · exact .throw fun _ _ => trivial
  refine .bind (ask_acts (q := .utcNow) hP) fun now => ?_
  split
  · exact .throw fun _ _ => trivial
  · exact .pure fun _ h => h

/-! ## The measures are taken -/

theorem insert_cases {t : Table} {k : t.Key} {r : t.Row} {v : Db} {e : DbEffect}
    (h : insertRow t k r v = some e) :
    e.writes = [] ∧ (v.get ⟨t, k⟩).isSome ∨ e.writes = [⟨⟨t, k⟩, some r⟩] ∧
    v.get ⟨t, k⟩ = none := by
  rw [insertRow] at h
  split at h
  · next r' hr =>
    cases h
    exact .inl ⟨rfl, by rw [hr]; rfl⟩
  · next hnone => exact .inr ⟨Constraints.upsertRow_writes h, hnone⟩

theorem delete_cases (t : Table) (k : t.Key) (v : Db) :
    (deleteRow t k v).writes = [] ∧ v.get ⟨t, k⟩ = none ∨
      (deleteRow t k v).writes = [⟨⟨t, k⟩, none⟩] ∧ (v.get ⟨t, k⟩).isSome := by
  rw [deleteRow]
  split
  · next r hr => exact .inr ⟨rfl, by rw [hr]; rfl⟩
  · next hnone => exact .inl ⟨rfl, hnone⟩

theorem addDelegate_acts : Acts j (fun _ => True) (Due j (.delegate mapUid target) actor)
    (addDelegate mapUid target actor) fun _ log =>
      Due j (.delegate mapUid target) actor log ∧
      Carried (.delegate mapUid target) actor log := by
  apply measure_acts
  intro now v e a hrun
  obtain ⟨e', he, hb⟩ := Option.map_eq_some_iff.1 hrun
  cases hb
  rcases insert_cases he with ⟨hw, hsome⟩ | ⟨hw, hnone⟩
  · exact .inr ⟨hw, hsome⟩
  · rw [hw]
    exact .inl fun pre hrows =>
      .delegate mapUid target _ ((hrows _ (List.mem_singleton.2 rfl)).trans hnone) rfl

theorem removeDelegate_acts : Acts j (fun _ => True) (Due j (.undelegate mapUid target) actor)
    (removeDelegate mapUid target) fun _ log =>
      Due j (.undelegate mapUid target) actor log ∧
      Carried (.undelegate mapUid target) actor log := by
  apply measure_acts
  intro now v e a hrun
  cases hrun
  rcases delete_cases .mapDelegates (mapUid, target) v with ⟨hw, hnone⟩ | ⟨hw, hsome⟩
  · exact .inr ⟨hw, Option.isNone_iff_eq_none.2 hnone⟩
  · rw [hw]
    refine .inl fun pre hrows => .undelegate mapUid target ?_
    rw [hrows _ (List.mem_singleton.2 rfl)]
    exact hsome

theorem addSuperMod_acts :
    Acts j (fun _ => True) (Due j (.promote target) actor) (addSuperMod target actor) fun _ log =>
    Due j (.promote target) actor log ∧ Carried (.promote target) actor log := by
  apply measure_acts
  intro now v e a hrun
  obtain ⟨e', he, hb⟩ := Option.map_eq_some_iff.1 hrun
  cases hb
  rcases insert_cases he with ⟨hw, hsome⟩ | ⟨hw, hnone⟩
  · exact .inr ⟨hw, hsome⟩
  · rw [hw]
    refine .inl fun pre hrows => .promote target _ ?_ rfl
    rw [IsSuperMod, (hrows _ (List.mem_singleton.2 rfl)).trans hnone]
    simp

theorem removeSuperMod_acts :
    Acts j (fun _ => True) (Due j (.demote target) actor) (removeSuperMod target) fun removed log =>
    removed = true → Due j (.demote target) actor log ∧ Carried (.demote target) actor log := by
  apply autocommit_acts (due_stays _ _ _) fun _ _ => trivial
  intro now v e a hrun log pre hdue hsaw hrows
  cases hrun
  rcases delete_cases .superMods target v with ⟨hw, hnone⟩ | ⟨hw, hsome⟩
  · rw [hw]
    exact ⟨.other fun _ _ => rfl, fun hremoved => by rw [hnone] at hremoved; cases hremoved⟩
  · rw [hw] at hrows ⊢
    have hthere : IsSuperMod pre target := by
      rw [IsSuperMod, hrows _ (List.mem_singleton.2 rfl), hsome]
    have hdone : Measure.Done actor pre (.demote target) _ := .demote target hthere
    exact ⟨.done _ actor hdue.1 hdue.2 hdone, fun _ =>
      ⟨(due_stays _ _ _).commit _ _ log trivial hdue,
        .inl ⟨_, _, List.mem_cons_self, hdone⟩⟩⟩

/-- The measure is what the commit does. -/
theorem done_commits {since : Log} {A : Db → Db → Prop} {L : List (Lock Table.Key)}
    {Q : α → Log → Prop} {a : α} (hsince : Due j m actor since)
    (hA : ∀ db v, A db v → m.Done actor db v)
    (hQ : ∀ log, Due j m actor log → Carried m actor log → Q a log) :
    Ends (owing { commit := Deed j }) since (fun _ _ _ => True) L A (do commitQ; return a)
    fun a log _ => Q a log := by
  have hP := due_stays j m actor
  refine Ends.commit (fun _ _ _ _ => trivial) (fun _ _ _ _ => .free _ _ _) ?_ ?_
  · intro log db v hq _ hv
    have hdue := hP.quiet hq hsince
    exact .done m actor hdue.1 hdue.2 (hA db v hv)
  · intro log db v hq _ hv _ _
    exact hQ _ (hP.commit _ _ _ trivial (hP.quiet hq hsince))
      (.inl ⟨db, v, List.mem_cons_self, hA db v hv⟩)

theorem applyMapBan_acts (reason message : String) (expiresAt : Option Time) :
    Acts j (fun _ => True) (Due j (.ban mapUid target) actor)
      (applyMapBan mapUid target actor reason message expiresAt) fun _ log =>
        Due j (.ban mapUid target) actor log ∧ Carried (.ban mapUid target) actor log := by
  have hP := due_stays j (.ban mapUid target) actor
  apply Pool.transaction
  intro since db₀ _ hsince
  apply Ends.act fun _ _ => trivial
  intro log now hq
  have hlog := hP.skip (.acted .clock now) log (by simp) (hP.quiet hq hsince)
  refine Ends.query (fun _ _ _ _ => trivial) (fun _ _ _ _ _ => trivial)
    fun log₁ ws db e b hq₁ _ _ _ hrun => ?_
  obtain ⟨e', he, hb⟩ := Option.map_eq_some_iff.1 hrun
  cases hb
  have hlog₁ := hP.skip (.saw (.named "apply_map_ban") (Store.view ws db)) log₁ (by simp)
    (hP.quiet hq₁ hlog)
  refine ⟨[], fun db v => v = db.put ⟨⟨.mapBans, (mapUid, target)⟩,
    some (newBan actor reason message expiresAt now)⟩, by simp, fun db' _ hA => ?_, ?_⟩
  · rw [hA.1, Constraints.upsertRow_writes he]
    rfl
  refine Ends.query (fun _ _ _ _ => trivial) (fun _ _ _ _ _ => trivial)
    fun log₂ ws₂ db₂ e₂ b₂ hq₂ _ _ _ hrun₂ => ?_
  obtain ⟨e₂', he₂, hb⟩ := Option.map_eq_some_iff.1 hrun₂
  cases hb
  have hlog₂ := hP.skip (.saw .markUnofficial (Store.view ws₂ db₂)) log₂ (by simp)
    (hP.quiet hq₂ hlog₁)
  refine ⟨[], fun db v => v = (db.put ⟨⟨.mapBans, (mapUid, target)⟩,
    some (newBan actor reason message expiresAt now)⟩).put
      ⟨⟨.mapUnofficial, (mapUid, target)⟩,
    some { source := "ban", updatedAt := now, updatedBy := some actor }⟩, by
      simp, fun db' _ hA => ?_, ?_⟩
  · rw [hA, Constraints.upsertRow_writes he₂]
    rfl
  refine done_commits hlog₂ ?_ fun _ hdue hcarried => ⟨hdue, hcarried⟩
  rintro db v rfl
  exact .ban mapUid target (newBan actor reason message expiresAt now) now rfl rfl

/-- The commit of a lift whose `UPDATE` found the ban, with the mark or without it. -/
theorem lift_commits {since : Log} {now : Time} {b : MapBan}
    {L : List (Lock Table.Key)} (clears : Bool) (hsince : Due j (.lift mapUid target) actor since)
    (hactive : b.isActive now = true) :
    Ends (owing { commit := Deed j }) since (fun _ _ _ => True) L (fun db v =>
        db.get ⟨.mapBans, (mapUid, target)⟩ = some b ∧
        v = Store.view (liftWrites mapUid target (b.lifted actor now) clears) db)
      (do commitQ; return true) fun lifted log _ =>
        lifted = true → Due j (.lift mapUid target) actor log ∧
        Carried (.lift mapUid target) actor log := by
  refine done_commits hsince ?_ fun _ hdue hcarried _ => ⟨hdue, hcarried⟩
  rintro db v ⟨hb, rfl⟩
  exact .lift mapUid target b now clears hb hactive

/-- The same when the mark is still to be cleared, if there is one. -/
theorem clear_commits {since : Log} {now : Time} {b : MapBan} {L : List (Lock Table.Key)}
    (hsince : Due j (.lift mapUid target) actor since) (hactive : b.isActive now = true) :
    Ends (owing { commit := Deed j }) since (fun _ _ _ => True) L (fun db v =>
        db.get ⟨.mapBans, (mapUid, target)⟩ = some b ∧
        v = Store.view (liftWrites mapUid target (b.lifted actor now) false) db)
      (do sql (clearMarkStmt mapUid target); commitQ; return true) fun lifted log _ =>
        lifted = true → Due j (.lift mapUid target) actor log ∧
        Carried (.lift mapUid target) actor log := by
  have hP := due_stays j (.lift mapUid target) actor
  refine Ends.query (fun _ _ _ _ => trivial) (fun _ _ _ _ _ => trivial)
    fun log ws db e _ hq _ _ _ hrun => ?_
  cases hrun
  have hlog := hP.skip (.saw (.named "lift_map_ban") (Store.view ws db)) log (by simp)
    (hP.quiet hq hsince)
  rcases deleteRow_writes .mapUnofficial (mapUid, target) (Store.view ws db) with hw | hw
  · refine ⟨L, _, fun x hx => List.mem_append_right _ hx, fun db' _ hA => ?_,
      lift_commits false hlog hactive⟩
    rw [hw]
    exact hA
  · refine ⟨L, _, fun x hx => List.mem_append_right _ hx, fun db' _ hA => ?_,
      lift_commits true hlog hactive⟩
    rw [hw, hA.2]
    exact ⟨hA.1, rfl⟩

theorem liftMapBan_acts (keepUnofficial : Bool) :
    Acts j (fun _ => True) (Due j (.lift mapUid target) actor)
      (liftMapBan mapUid target actor keepUnofficial) fun lifted log =>
      lifted = true → Due j (.lift mapUid target) actor log ∧
      Carried (.lift mapUid target) actor log := by
  have hP := due_stays j (.lift mapUid target) actor
  apply Pool.transaction
  intro since db₀ _ hsince
  apply Ends.act fun _ _ => trivial
  intro log now hq
  have hlog := hP.skip (.acted .clock now) log (by simp) (hP.quiet hq hsince)
  refine Ends.query (fun _ _ _ _ => trivial) (fun _ _ _ _ _ => trivial)
    fun log₁ ws db e lifted hq₁ hinv hA _ hrun => ?_
  have hlog₁ := hP.skip (.saw (.named "lift_map_ban") (Store.view ws db)) log₁ (by simp)
    (hP.quiet hq₁ hlog)
  rw [hA.1] at hrun hlog₁ ⊢
  simp only [liftStmt] at hrun
  cases hban : liftable db mapUid target now with
  | none =>
      -- no row to update: what is committed is what was there
      rw [hban] at hrun
      cases hrun
      refine ⟨[], fun db v => v = db, by simp, fun db' _ hA' => hA'.1, ?_⟩
      refine Ends.commit (fun _ _ _ _ => trivial) (fun _ _ _ _ => .free _ _ _) ?_ fun _ _ _ _ _ _ _
        _ hl => by cases hl
      rintro log₂ db' v _ _ rfl
      exact .other fun _ _ => rfl
  | some b =>
      rw [hban] at hrun
      obtain ⟨e', he, hb⟩ := Option.map_eq_some_iff.1 hrun
      cases hb
      obtain ⟨hget, hactive⟩ := Option.filter_eq_some_iff.1 hban
      have hwrites := Constraints.upsertRow_writes he
      refine ⟨e.allLocks db, fun db v => db.get ⟨.mapBans, (mapUid, target)⟩ = some b ∧
        v = Store.view (liftWrites mapUid target (b.lifted actor now) false) db, by
          simp, fun db' hr hA' => ?_, ?_⟩
      · -- the `UPDATE` holds the row until the commit
        have hkeep : ∀ w ∈ e.writes, db'.get w.row = db.get w.row := fun w hw =>
          hr.row _ (List.mem_append_left _ (List.mem_append_left _ (List.mem_map_of_mem hw)))
            (Mode.ne_keyShare (w.lock_exclusive db))
        rw [hwrites] at hkeep
        refine ⟨(hkeep _ (List.mem_singleton.2 rfl)).trans hget, ?_⟩
        rw [hA'.1, hwrites]
        rfl
      · cases keepUnofficial with
        | true => exact lift_commits false hlog₁ hactive
        | false => exact clear_commits hlog₁ hactive

/-- The audit trail names what the request did. -/
theorem audit_acts (detail : Value) :
    Acts j (fun _ => True) (fun log => Due j m actor log ∧ Carried m actor log) (do
      let _ ← attempt (insertAuditEvent actor m.action m.mapUid (some m.target) detail)
      return okTrue : Query Reply Reply) fun _ _ => True := by
  have hP := (due_stays j m actor).and (carried_stays m actor)
  refine .bind (.attempt (.bind (ask_acts hP) fun id => autocommit_acts (Q := fun _ log =>
    Due j m actor log ∧ Carried m actor log) hP (fun _ h => h) ?_) fun _ _ h => h) fun _ =>
      .pure fun _ _ => trivial
  intro now v e a hrun log pre hlog hsaw hrows
  obtain ⟨e', he, hb⟩ := Option.map_eq_some_iff.1 hrun
  cases hb
  have hnew : v.get ⟨.auditEvents, id⟩ = none := by
    rw [Constraints.insertRow] at he
    split at he
    · next h => exact Option.isNone_iff_eq_none.1 h
    · cases he
  refine ⟨?_, hP.commit _ _ _ trivial hlog⟩
  rw [(Constraints.insertRow_spec he).2] at hrows ⊢
  exact .told m id _ hlog.1.1 hlog.1.2 hlog.2 rfl rfl rfl
    ((hrows _ (List.mem_singleton.2 rfl)).trans hnew) rfl

/-! ## The requests -/

theorem ensureUserReference_acts (hP : Stays P) (displayName : Option String) :
    Acts j (fun _ => True) P (ensureUserReference target displayName) fun _ => P := by
  apply elsewhere_acts hP fun _ _ => trivial
  intro now v e a hrun
  obtain ⟨e', he, hb⟩ := Option.map_eq_some_iff.1 hrun
  cases hb
  rcases insertRow_writes he with hw | hw
  · rw [hw]
    simp
  · rw [hw]
    exact fun w hw => List.mem_singleton.1 hw ▸ rfl

/-- What is read besides. -/
theorem look_acts {tag : Tag} {f : Db → α} (hP : Stays P) :
    Acts j (fun _ => True) P (poolRead tag f) fun _ => P :=
  .weaken (read_acts hP fun _ _ => trivial) (fun _ h => h) (fun _ h => h) fun _ _ h => h.1

theorem isProtectedFromMapBan_acts (hP : Stays P) :
    Acts j (fun _ => True) P (isProtectedFromMapBan mapUid target) fun _ => P := by
  refine .bind (look_acts hP) fun isSm => ?_
  split
  · exact .pure fun _ h => h
  refine .bind (look_acts hP) fun isAuthor => ?_
  split
  · exact .pure fun _ h => h
  · exact look_acts hP

theorem getActiveBan_acts (hP : Stays P) :
    Acts j (fun _ => True) P (getActiveBan mapUid target) fun _ => P :=
  .bind (Tells.act hP fun _ _ => trivial) fun _ => .pre (look_acts hP) fun _ h => h.1

/-- A moderator of the map. -/
def Moderator (cookie : Option String) (mapUid : String) (actor : Uuid) (log : Log) : Prop :=
  SignedIn cookie actor log ∧ ∃ kind, Saw kind mapUid actor log

theorem moderator_stays (cookie : Option String) (mapUid : String) (actor : Uuid) :
    Stays (Moderator cookie mapUid actor) :=
  (signedIn_stays cookie actor).and (.any fun kind => saw_stays kind mapUid actor)

theorem Moderator.entitled (h : Moderator cookie mapUid actor log)
    (hm : m = .ban mapUid target ∨ m = .lift mapUid target) : Entitled cookie m actor log := by
  obtain ⟨hin, kind, tag, v, hread, hcovers⟩ := h
  refine ⟨hin, tag, v, hread, ?_⟩
  rcases hm with rfl | rfl <;> cases kind <;> simp [Measure.permits, hcovers]

/-- The author of the map, or a super-mod. -/
def Runner (cookie : Option String) (mapUid : String) (actor : Uuid) (log : Log) : Prop :=
  SignedIn cookie actor log ∧ (Saw .superMod mapUid actor log ∨ Saw .author mapUid actor log)

theorem runner_stays (cookie : Option String) (mapUid : String) (actor : Uuid) :
    Stays (Runner cookie mapUid actor) :=
  (signedIn_stays cookie actor).and (.or (saw_stays _ _ _) (saw_stays _ _ _))

theorem Runner.entitled (h : Runner cookie mapUid actor log)
    (hm : m = .delegate mapUid target ∨ m = .undelegate mapUid target) :
    Entitled cookie m actor log := by
  obtain ⟨hin, ⟨tag, v, hread, hcovers⟩ | ⟨tag, v, hread, hcovers⟩⟩ := h
  · exact ⟨hin, tag, v, hread, by rcases hm with rfl | rfl <;> simp [Measure.permits, hcovers]⟩
  · exact ⟨hin, tag, v, hread, by rcases hm with rfl | rfl <;> simp [Measure.permits, hcovers]⟩

/-- Who is allowed to name delegates. -/
theorem requireRunner_acts {f : Uuid → Query Reply Reply} {refusal : Reply}
    (hf : ∀ actor, Acts j (fun _ => True) (Runner cookie mapUid actor) (f actor)
      fun _ _ => True) :
    Acts j (fun _ => True) (fun _ => True) (do
      let actor ← requireModerator env mapUid cookie
      let runs ← runsMap mapUid actor
      if runs then f actor else throw refusal) fun _ _ => True := by
  refine .bind requireModerator_acts fun actor => ?_
  refine .bind (.pre (runsMap_acts (signedIn_stays cookie actor)) fun _ h => h.1) fun runs => ?_
  split
  · next hruns => exact .pre (hf actor) fun log h => ⟨h.1, h.2 hruns⟩
  · exact .throw fun _ _ => trivial

theorem handleCreateBan_acts (body : CreateBanBody) :
    Acts (.createBan mapUid cookie body) (fun _ => True) (fun _ => True)
      (handleCreateBan env mapUid cookie body) fun _ _ => True := by
  refine .bind requireModerator_acts fun actor => ?_
  split
  · exact .throw fun _ _ => trivial
  have hP := moderator_stays cookie mapUid actor
  refine .bind (.adapt _ (parseBanExpiresAt_acts hP)) fun expiresAt => .bind (findTarget_acts hP)
    fun target => ?_
  have hdue := due_stays (.createBan mapUid cookie body) (.ban mapUid target) actor
  refine .pre (A := Due _ (.ban mapUid target) actor) ?_ fun log h =>
    ⟨.ban mapUid cookie body target h.2, Moderator.entitled h.1 (.inl rfl)⟩
  refine .bind (.adapt _ (isProtectedFromMapBan_acts hdue)) fun isProtected => ?_
  split
  · exact .throw fun _ _ => trivial
  refine .bind (.adapt _ (ensureUserReference_acts hdue _)) fun _ => ?_
  exact .bind (.adapt _ (applyMapBan_acts _ _ _)) fun _ => audit_acts (m := .ban mapUid target) _

theorem handleLiftBan_acts (userId : String) (keepUnofficial : Bool) :
    Acts (.liftBan mapUid userId cookie keepUnofficial) (fun _ => True) (fun _ => True)
      (handleLiftBan env mapUid userId cookie keepUnofficial) fun _ _ => True := by
  refine .bind requireModerator_acts fun actor => .bind parseTarget_acts fun target => ?_
  refine .pre (A := Due _ (.lift mapUid target) actor) ?_ fun log h =>
    ⟨.lift mapUid userId cookie keepUnofficial target h.2, Moderator.entitled h.1 (.inr rfl)⟩
  refine .bind (.adapt _ (liftMapBan_acts _)) fun lifted => ?_
  split
  · next hl => exact .pre (audit_acts (m := .lift mapUid target) _) fun log h => h hl
  · exact .throw fun _ _ => trivial

theorem handleAddDelegate_acts (userId displayName : Option String) :
    Acts (.addDelegate mapUid cookie userId displayName) (fun _ => True) (fun _ => True)
      (handleAddDelegate env mapUid cookie userId displayName) fun _ _ => True := by
  refine requireRunner_acts fun actor => .bind (findTarget_acts (runner_stays _ _ _))
    fun target => ?_
  have hdue := due_stays (.addDelegate mapUid cookie userId displayName)
    (.delegate mapUid target) actor
  refine .pre (A := Due _ (.delegate mapUid target) actor) ?_ fun log h =>
    ⟨.delegate mapUid cookie userId displayName target h.2, Runner.entitled h.1 (.inl rfl)⟩
  refine .bind (.adapt _ (getActiveBan_acts hdue)) fun ban => ?_
  cases ban with
  | some b => exact .throw fun _ _ => trivial
  | none =>
      refine .bind (.adapt _ (ensureUserReference_acts hdue _)) fun _ => ?_
      exact .bind (.adapt _ addDelegate_acts) fun _ => audit_acts (m := .delegate mapUid target) _

theorem handleRemoveDelegate_acts (userId : String) :
    Acts (.removeDelegate mapUid userId cookie) (fun _ => True) (fun _ => True)
      (handleRemoveDelegate env mapUid userId cookie) fun _ _ => True := by
  refine requireRunner_acts fun actor => .bind parseTarget_acts fun target => ?_
  refine .pre (A := Due _ (.undelegate mapUid target) actor) ?_ fun log h =>
    ⟨.undelegate mapUid userId cookie target h.2, Runner.entitled h.1 (.inr rfl)⟩
  exact .bind (.adapt _ removeDelegate_acts) fun _ => audit_acts (m := .undelegate mapUid target) _

theorem handleAddSuperMod_acts (userId displayName : Option String) :
    Acts (.addSuperMod cookie userId displayName) (fun _ => True) (fun _ => True)
      (handleAddSuperMod env cookie userId displayName) fun _ _ => True := by
  refine .bind requireSuperMod_acts fun actor => ?_
  have hP := (signedIn_stays cookie actor).and (saw_stays .superMod "" actor)
  refine .bind (findTarget_acts hP) fun target => ?_
  have hdue := due_stays (.addSuperMod cookie userId displayName) (.promote target) actor
  refine .pre (A := Due _ (.promote target) actor) ?_ fun log h =>
    ⟨.promote cookie userId displayName target h.2, ⟨h.1.1, h.1.2⟩⟩
  refine .bind (.adapt _ (ensureUserReference_acts hdue _)) fun _ => ?_
  exact .bind (.adapt _ addSuperMod_acts) fun _ => audit_acts (m := .promote target) _

theorem handleRemoveSuperMod_acts (userId : String) :
    Acts (.removeSuperMod userId cookie) (fun _ => True) (fun _ => True)
      (handleRemoveSuperMod env userId cookie) fun _ _ => True := by
  refine .bind requireSuperMod_acts fun actor => .bind parseTarget_acts fun target => ?_
  refine .pre (A := Due _ (.demote target) actor) ?_ fun log h =>
    ⟨.demote userId cookie target h.2, ⟨h.1.1, h.1.2⟩⟩
  refine .bind (.adapt _ (look_acts (due_stays _ _ _))) fun count => ?_
  split
  · exact .throw fun _ _ => trivial
  refine .bind (.adapt _ removeSuperMod_acts) fun removed => ?_
  split
  · next hr => exact .pre (audit_acts (m := .demote target) _) fun log h => h hr
  · exact .throw fun _ _ => trivial

end Dd2Server.Moderation
