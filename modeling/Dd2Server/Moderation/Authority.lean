import Dd2Server.Moderation.Measures
import Dd2Server.ReadCommitted.Chronicle

/-!
# Who may do what

Every commit of a run that changes a moderation row is a measure, for a request whose user was seen
to be allowed it.  What was read may be over when the measure is committed.  But it was so at some
point of the run, so every super-mod has the right from a super-mod, back to the first ones
(`Told.lineage`).
-/

namespace Dd2Server.Moderation

open ReadCommitted

variable {env : Env} {j : Job} {log : Log} {pre post : Db} {m : Measure} {actor target : Uuid}

/-! ## What a commit tells -/

/-- The tables that the measure is about. -/
def Measure.tables : Measure → List Table
  | .ban .. | .lift .. => [.mapBans, .mapUnofficial]
  | .delegate .. | .undelegate .. => [.mapDelegates]
  | .promote _ | .demote _ => [.superMods]

theorem Measure.Done.elsewhere (h : m.Done actor pre post) {t : Table} (ht : t ∉ m.tables) :
    post t = pre t := by
  have hamong : ∃ ws : List (Write Table.Key Table.Row), Among (· ∈ m.tables) ws ∧
      post = Store.view ws pre := by
    cases h with
    | ban m u row now hrow hopen =>
        exact ⟨[⟨⟨.mapUnofficial, (m, u)⟩, some ⟨"ban", now, some actor⟩⟩,
          ⟨⟨.mapBans, (m, u)⟩, some row⟩], by simp [Among, tables], rfl⟩
    | lift m u b now clears hb hactive =>
        exact ⟨_, by cases clears <;> simp [Among, tables, liftWrites], rfl⟩
    | delegate m u row hnew hrow =>
        exact ⟨[⟨⟨.mapDelegates, (m, u)⟩, some row⟩], by simp [Among, tables], rfl⟩
    | undelegate m u hthere =>
        exact ⟨[⟨⟨.mapDelegates, (m, u)⟩, none⟩], by simp [Among, tables], rfl⟩
    | promote u row hnew hrow =>
        exact ⟨[⟨⟨.superMods, u⟩, some row⟩], by simp [Among, tables], rfl⟩
    | demote u hthere => exact ⟨[⟨⟨.superMods, u⟩, none⟩], by simp [Among, tables], rfl⟩
  obtain ⟨ws, hws, rfl⟩ := hamong
  exact hws.view_table pre ht

theorem get_of_table {t : Table} (h : post t = pre t) (k : t.Key) :
    post.get ⟨t, k⟩ = pre.get ⟨t, k⟩ := by
  simp only [Store.get, h]

/-- Only a promotion makes a super-mod. -/
theorem Measure.Done.promotes (h : m.Done actor pre post) (hpre : ¬IsSuperMod pre target)
    (hpost : IsSuperMod post target) :
    m = .promote target ∧ ∃ row, post.get ⟨.superMods, target⟩ = some row ∧
    row.grantedBy = some actor := by
  have hin : Table.superMods ∈ m.tables := by
    by_contra hout
    rw [IsSuperMod, get_of_table (h.elsewhere hout)] at hpost
    exact hpre hpost
  cases h with
  | ban | lift | delegate | undelegate => simp [tables] at hin
  | promote u row hnew hrow =>
      by_cases hu : u = target
      · subst hu
        exact ⟨rfl, row, Store.get_put_self _ _ _, hrow⟩
      · rw [IsSuperMod, Store.get_put_of_ne (by simpa using hu)] at hpost
        exact absurd hpost hpre
  | demote u hthere =>
      by_cases hu : u = target
      · subst hu
        simp [IsSuperMod] at hpost
      · rw [IsSuperMod, Store.get_put_of_ne (by simpa using hu)] at hpost
        exact absurd hpost hpre

namespace Deed

/-- A guarded row changes by a measure. -/
theorem measured (h : Deed j log pre post) {k : DbKey} (hk : k.table.guarded = true)
    (hevent : k.table ≠ .auditEvents) (hne : post.get k ≠ pre.get k) :
    ∃ m actor, Due j m actor log ∧ m.Done actor pre post := by
  cases h with
  | other h => exact absurd (get_of_table (h k.table hk) k.key) hne
  | done m actor hasked hright hdone => exact ⟨m, actor, ⟨hasked, hright⟩, hdone⟩
  | told m id event hasked hright hcarried haction hmap htarget hnew hpost =>
      refine absurd ?_ hne
      rw [hpost, Store.get_put_of_ne]
      exact fun he => hevent (congrArg RowKey.table he).symm

/-- An event of the audit trail comes once the request did what it names, and stays. -/
theorem told_cases (h : Deed j log pre post) (id : Int) :
    post.get ⟨.auditEvents, id⟩ = pre.get ⟨.auditEvents, id⟩ ∨
      pre.get ⟨.auditEvents, id⟩ = none ∧
        ∃ event m, post.get ⟨.auditEvents, id⟩ = some event ∧ Due j m event.actorId log ∧
        Carried m event.actorId log ∧ event.action = m.action ∧ event.mapUid = m.mapUid ∧
        event.targetUserId = some m.target := by
  cases h with
  | other h => exact .inl (get_of_table (h .auditEvents rfl) id)
  | done m actor hasked hright hdone =>
      have hout : Table.auditEvents ∉ m.tables := by cases m <;> simp [Measure.tables]
      exact .inl (get_of_table (hdone.elsewhere hout) id)
  | told m id' event hasked hright hcarried haction hmap htarget hnew hpost =>
      by_cases he : id' = id
      · subst he
        exact .inr ⟨hnew, event, m, by rw [hpost, Store.get_put_self], ⟨hasked, hright⟩,
          hcarried, haction, hmap, htarget⟩
      · rw [hpost]
        exact .inl (Store.get_put_of_ne (by simpa using he))

end Deed

/-! ## Every run -/

theorem reply_acts {x : Query Reply Reply}
    (hx : Acts j (fun _ => True) (fun _ => True) x fun _ _ => True) (db : Db) :
    Safe .free (fun _ _ => True) { commit := Deed j } (fun _ _ _ => True) (reply x) {} db :=
  (hx {} db trivial rfl rfl fun _ _ => trivial).bind (fun _ _ _ _ _ _ _ => trivial) trivial

theorem Job.acts (env : Env) (j : Job) (db : Db) :
    Safe .free (fun _ _ => True) { commit := Deed j } (fun _ _ _ => True) (j.body env) {} db := by
  cases j with
  | createBan mapUid cookie body => exact reply_acts (handleCreateBan_acts body) db
  | liftBan mapUid userId cookie keep => exact reply_acts (handleLiftBan_acts userId keep) db
  | addDelegate mapUid cookie userId name =>
      exact reply_acts (handleAddDelegate_acts userId name) db
  | removeDelegate mapUid userId cookie => exact reply_acts (handleRemoveDelegate_acts userId) db
  | addSuperMod cookie userId name => exact reply_acts (handleAddSuperMod_acts userId name) db
  | removeSuperMod userId cookie => exact reply_acts (handleRemoveSuperMod_acts userId) db
  | timePasses d => exact fun _ _ => ⟨trivial, fun _ _ _ => trivial⟩

abbrev Commit := Entry Table.Key Table.Row Tag Ask.Ans Act.Out Job

/-- A run, with its commits. -/
abbrev Told (env : Env) (s₀ : System) (es : List Commit) (s : System) : Prop :=
  Chronicle shared (Job.body env) (fun _ _ => True) s₀ es s

/-- It was so at some point of the run before the commit. -/
abbrev WasSo (env : Env) (s₀ : System) (es : List Commit) (e : Commit) (p : Db → Prop) : Prop :=
  Before shared (Job.body env) (fun _ _ => True) s₀ es e p

variable {s₀ s : System} {es : List Commit}

/-- The commit is of a request for the measure, of the actor: of a session of the actor that was not
over, and the actor might take the measure. -/
structure Rightful (env : Env) (s₀ : System) (es : List Commit) (e : Commit) (m : Measure)
    (actor : Uuid) : Prop where
  asked : Asked e.log e.job m
  session : ∃ sid row now, sessionId e.job.cookie = some sid ∧ row.userId = actor ∧
    .acted .clock now ∈ e.log ∧
    now < row.expiresAt ∧ WasSo env s₀ es e fun db => db.get ⟨.webSessions, sid⟩ = some row
  permitted : WasSo env s₀ es e fun db => m.permits db actor = true

/-- A commit of the run makes `u` a super-mod, by `a`. -/
def Promoted (es : List Commit) (a u : Uuid) : Prop :=
  ∃ e ∈ es, ∃ row, ¬IsSuperMod e.pre u ∧ e.post.get ⟨.superMods, u⟩ = some row ∧
    row.grantedBy = some a

/-- The task of the later commit had made the earlier one: its log told of it, after what the task
had done until then. -/
def Commit.leadsTo (e e' : Commit) : Prop :=
  e.job = e'.job ∧ .committed e.pre e.post :: e.log <:+ e'.log

/-- What is known of the moderation rows after a run. -/
structure Authorised (env : Env) (s₀ : System) (es : List Commit) (s : System) : Prop where
  measured : ∀ e ∈ es, ∀ k : DbKey, k.table.guarded = true → k.table ≠ .auditEvents →
    e.post.get k ≠ e.pre.get k →
    ∃ m actor, Rightful env s₀ es e m actor ∧ m.Done actor e.pre e.post
  /-- An event of the audit trail names who did what: a commit of the task's own log did it, or the
  task saw that there was nothing left to do.  No event goes or is changed. -/
  told : ∀ e ∈ es, ∀ id, e.post.get ⟨.auditEvents, id⟩ =
    e.pre.get ⟨.auditEvents, id⟩ ∨
    e.pre.get ⟨.auditEvents, id⟩ = none ∧
      ∃ event m, e.post.get ⟨.auditEvents, id⟩ = some event ∧
      Rightful env s₀ es e m event.actorId ∧ event.action = m.action ∧
        event.mapUid = m.mapUid ∧
      event.targetUserId = some m.target ∧
      ((∃ newer older, es = newer ++ e :: older ∧ ∃ e' ∈ older, e'.leadsTo e ∧
          m.Done event.actorId e'.pre e'.post) ∨
        ∃ tag v, .saw tag v ∈ e.log ∧ m.idle v = true)
  lineage : ∀ u, IsSuperMod s.db u → ∃ root, IsSuperMod s₀.db root ∧
    Relation.ReflTransGen (Promoted es) root u

theorem Told.deed (htasks : s₀.tasks = []) (h : Told env s₀ es s) {e : Commit} (he : e ∈ es) :
    Deed e.job e.log e.pre e.post :=
  (h.promised (fun j db _ => Job.acts env j db) (fun s _ _ => s.admits_true) trivial htasks e he).2

theorem Told.rightful (htasks : s₀.tasks = []) (h : Told env s₀ es s)
    {e : Commit} (he : e ∈ es) (hdue : Due e.job m actor e.log) :
    Rightful env s₀ es e m actor := by
  obtain ⟨hasked, ⟨sid, row, now, v, hsid, huser, hnow, hopen, hrow, hread⟩, tag, v', hread',
      hpermits⟩ := hdue
  refine ⟨hasked, ⟨sid, row, now, hsid, huser, hnow, hopen, ?_⟩, ?_⟩
  · exact (h.read_before htasks he hread).mono fun db hdb => hdb ▸ hrow
  · exact (h.read_before htasks he hread').mono fun db hdb => hdb ▸ hpermits

theorem Promoted.mono {es' : List Commit} (h : ∀ e ∈ es', e ∈ es) {a u : Uuid}
    (hp : Promoted es' a u) : Promoted es a u := by
  obtain ⟨e, he, hrest⟩ := hp
  exact ⟨e, h e he, hrest⟩

/-- Who is a super-mod was one at first, or has it from a super-mod. -/
theorem Told.lineage (htasks : s₀.tasks = []) (h : Told env s₀ es s) {u : Uuid}
    (hu : IsSuperMod s.db u) :
    ∃ root, IsSuperMod s₀.db root ∧ Relation.ReflTransGen (Promoted es) root u := by
  induction hn : es.length using Nat.strong_induction_on generalizing es s u with
  | _ n ih =>
    rcases h.origin (IsSuperMod · u) hu with hroot | ⟨e, he, hpre, hpost⟩
    · exact ⟨u, hroot, .refl⟩
    obtain ⟨row, hrow⟩ := Option.isSome_iff_exists.1 hpost
    have hne : e.post.get ⟨.superMods, u⟩ ≠ e.pre.get ⟨.superMods, u⟩ := fun heq =>
      hpre (by rw [IsSuperMod, ← heq, hrow]; rfl)
    obtain ⟨m, actor, hdue, hdone⟩ :=
      (h.deed htasks he).measured (k := ⟨.superMods, u⟩) rfl (by simp) hne
    obtain ⟨rfl, row', hrow', hgrant⟩ := hdone.promotes hpre hpost
    -- the actor was a super-mod in an earlier state of the run
    obtain ⟨newer, older, es', s', hes, hsuf, hrun, hsuper⟩ :=
      (h.rightful htasks he hdue).permitted
    have hlt : es'.length < n := by
      have := hsuf.length_le
      rw [← hn, hes, List.length_append, List.length_cons]
      omega
    obtain ⟨root, hroot, hpath⟩ := ih es'.length hlt hrun hsuper rfl
    have hsub : ∀ e' ∈ es', e' ∈ es := fun e' he' => by
      rw [hes]
      exact List.mem_append_right _ (List.mem_cons_of_mem _ (hsuf.mem he'))
    have hpath' : Relation.ReflTransGen (Promoted es) root actor :=
      Relation.ReflTransGen.mono (fun a b hab => Promoted.mono hsub hab) root actor hpath
    exact ⟨root, hroot, hpath'.tail ⟨e, he, row', hpre, hrow', hgrant⟩⟩

/-- In every run the moderation rows change by measures of who may take them, the audit trail tells
of such measures, and every super-mod has the right from one of the first. -/
theorem measures_authorised (env : Env) (htasks : s₀.tasks = []) (h : Told env s₀ es s) :
    Authorised env s₀ es s := by
  refine ⟨fun e he k hk hevent hne => ?_, fun e he id => ?_, fun u hu => h.lineage htasks hu⟩
  · obtain ⟨m, actor, hdue, hdone⟩ := (h.deed htasks he).measured hk hevent hne
    exact ⟨m, actor, h.rightful htasks he hdue, hdone⟩
  · refine ((h.deed htasks he).told_cases id).imp_right ?_
    rintro ⟨hnew, event, m, hevent, hdue, hcarried, haction, hmap, htarget⟩
    refine ⟨hnew, event, m, hevent, h.rightful htasks he hdue, haction, hmap, htarget, ?_⟩
    refine hcarried.imp_left ?_
    rintro ⟨pre, post, hcommitted, hdone⟩
    obtain ⟨newer, older, hes, e', he', hjob, rfl, rfl, hlog⟩ :=
      h.committed_before htasks he hcommitted
    exact ⟨newer, older, hes, e', he', ⟨hjob, hlog⟩, hdone⟩

/-- User 1 makes user 2 a super-mod. -/
theorem measures_authorised_promotion : ∃ (es : List Commit) (s : System), IsSuperMod s.db 2 ∧
    (s.db.rows .auditEvents).length = 1 ∧ Authorised Sample.env Sample.system es s := by
  obtain ⟨s, hs, htwo, hevents⟩ : ∃ s, Reach shared (Job.body Sample.env)
      (fun _ _ => True) Sample.system s ∧
      IsSuperMod s.db 2 ∧ (s.db.rows .auditEvents).length = 1 :=
    Reach.scripted [.start (.addSuperMod Sample.cookie (some Sample.two) none),
      .go 0 40 (Sample.answers 1)]
      (by decide +kernel)
  obtain ⟨es, hes⟩ := (hs.reachBy.mono fun _ _ _ => trivial).chronicle
  exact ⟨es, s, htwo, hevents, measures_authorised Sample.env rfl hes⟩

end Dd2Server.Moderation
