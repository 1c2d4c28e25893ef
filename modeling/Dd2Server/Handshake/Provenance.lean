import Dd2Server.Handshake.Handlers
import Dd2Server.ReadCommitted.Chronicle
import Dd2Server.ReadCommitted.Conduct
import Dd2Server.ReadCommitted.Evidence
import Dd2Server.ReadCommitted.Testimony
import Mathlib.Algebra.Order.BigOperators.Group.List
import Mathlib.Algebra.Order.Group.Nat

/-!
# Whose connections there are

Whoever is connected as a user showed a token that the Openplanet service confirmed for that user,
to this connection or to an earlier one, or the token of a session of that user.  A session begins
with such a login, so all of them go back to a confirmation (`Vouched`).

Nothing ever ends a session: a token that was handed out is good in every later state, replaced or
not.
-/

namespace Dd2Server.Handshake

open ReadCommitted

/-! ## What a connection showed -/

/-- The service confirmed the token, to this connection or to one that left it in the cache. -/
def Confirmed (token : String) (resp : TokenResp) (log : Log) : Prop :=
  .answered (.opAuth token) (.ok (some resp)) ∈ log ∨
    .acted (.tokenGet token) (some resp) ∈ log

/-- Whose the session is, for those who come with its token. -/
def ownerId (sid : Uuid) (db : Db) : Option Uuid :=
  (sessionOwner sid db).map fun user => user.webServicesUserId

/-- The connection has shown that it is the user's. -/
inductive Showed (j : Job) (u : Uuid) (log : Log) : Prop
  | token (token pluginInfo : String) (resp : TokenResp)
    (hfirst : j.first = .authenticate token pluginInfo)
      (hversion : Server2.checkMinPluginVersion pluginInfo.toList = .ok ())
      (hconfirmed : Confirmed token resp log) (haccount : Uuid.parse resp.accountId.toList = some u)
  | session (text pluginInfo : String) (sid : Uuid) (v : Db)
      (hfirst : j.first = .resumeSession text pluginInfo)
      (hversion : Server2.checkMinPluginVersion pluginInfo.toList = .ok ())
      (hsid : Uuid.parse text.toList = some sid) (hread : .read "resume_session" v ∈ log)
      (howner : ownerId sid v = some u)

/-- What a commit may do. -/
inductive Change (j : Job) (log : Log) (pre post : Db) : Prop
  | other (hsessions : post .sessions = pre .sessions)
      (husers : ∀ u, (pre.get ⟨.users, u⟩).isSome → (post.get ⟨.users, u⟩).isSome)
  | opened (sid : Uuid) (row : SessionRow) (hshowed : Showed j row.userId log)
      (hnew : pre.get ⟨.sessions, sid⟩ = none)
        (hpost : post = pre.put ⟨⟨.sessions, sid⟩, some row⟩)
  | replaced (sid : Uuid) (row : SessionRow) (hrow : pre.get ⟨.sessions, sid⟩ = some row)
      (hpost : post = pre.put ⟨⟨.sessions, sid⟩, some { row with replaced := true }⟩)

/-- A token goes into the cache once the service confirmed it. -/
def Puts (log : Log) : Act → Prop
  | .tokenGet _ => True
  | .tokenPut token resp => .answered (.opAuth token) (.ok (some resp)) ∈ log

/-- The session comes. -/
def begins (sid : Uuid) (pre post : Db) : Bool :=
  (pre.get ⟨.sessions, sid⟩).isNone && (post.get ⟨.sessions, sid⟩).isSome

/-- The connection has opened the session. -/
def Opened (u sid : Uuid) (log : Log) : Prop :=
  ∃ pre post row, .committed pre post ∈ log ∧ begins sid pre post = true ∧
    post.get ⟨.sessions, sid⟩ = some row ∧ row.userId = u

/-- The connection has seen the account, or it has put it there. -/
def Seen (u : Uuid) (log : Log) : Prop :=
  (∃ tag v, .read tag v ∈ log ∧ (v.get ⟨.users, u⟩).isSome) ∨
    ∃ pre post, .committed pre post ∈ log ∧ (post.get ⟨.users, u⟩).isSome

variable {env : Env} {j : Job} {ε α β : Type} {P E : Log → Prop} {log : Log}
    {pre post : Db} {u sid : Uuid}

abbrev promised (j : Job) : Promise Table.Key Table.Row Tag Ask.Ans Act.Out where
  commit := Change j
  act := Puts

/-- From `P` the query comes to `Q` of its result, or to an error. -/
abbrev Goes (j : Job) (P : Log → Prop) (x : Query ε α) (Q : α → Log → Prop) : Prop :=
  Tells (promised j) (fun _ => True) P x Q

/-- A fact about what the log has. -/
abbrev Stays (P : Log → Prop) : Prop := Abides (fun _ _ : Db => True) P

theorem always_stays : Stays fun _ => True := .true

theorem confirmed_stays (token : String) (resp : TokenResp) : Stays (Confirmed token resp) :=
  .or (.mem _) (.mem _)

theorem showed_stays (j : Job) (u : Uuid) : Stays (Showed j u) := by
  apply Abides.of_cons
  intro ev log h
  cases h with
  | token token pluginInfo resp hfirst hversion hconfirmed haccount =>
      exact .token token pluginInfo resp hfirst hversion
        (hconfirmed.imp (List.mem_cons_of_mem _) (List.mem_cons_of_mem _)) haccount
  | session text pluginInfo sid v hfirst hversion hsid hread howner =>
      exact .session text pluginInfo sid v hfirst hversion hsid
        (List.mem_cons_of_mem _ hread) howner

theorem seen_stays (u : Uuid) : Stays (Seen u) := by
  apply Abides.of_cons
  rintro ev log (⟨tag, v, hmem, hu⟩ | ⟨pre, post, hmem, hu⟩)
  · exact .inl ⟨tag, v, List.mem_cons_of_mem _ hmem, hu⟩
  · exact .inr ⟨pre, post, List.mem_cons_of_mem _ hmem, hu⟩

/-- A statement on its own. -/
theorem autocommit_goes {s : Time → Sql α} {Q : α → Log → Prop} (hP : Stays P)
    (hs : ∀ now v e a, (s now).run v = some (e, a) → ∀ log pre, P log →
      (∀ w ∈ e.writes, pre.get w.row = v.get w.row) →
      Change j log pre (Store.view e.writes pre) ∧ Q a
      (.committed pre (Store.view e.writes pre) :: log)) : Goes j P (autocommit s) Q :=
  .asking hP (fun _ _ => trivial) fun now v e a hrun log pre h _ _ hrows =>
    hs now v e a hrun log pre h hrows

/-- A write to another table. -/
theorem Change.elsewhere {t : Table} {k : t.Key} {r : t.Row} (ht : t ≠ .sessions) :
    Change j log pre (pre.put ⟨⟨t, k⟩, some r⟩) := by
  refine .other ?_ fun u hu => ?_
  · rw [Store.put, Function.update_of_ne (Ne.symm ht)]
  · by_cases he : (⟨t, k⟩ : DbKey) = ⟨.users, u⟩
    · cases he
      simp
    · rw [Store.get_put_of_ne he]
      exact hu

/-! ## The requests -/

theorem registerOrLogin_goes (hP : Stays P) (accountId : Uuid) (displayName : String) :
    Goes j P (registerOrLogin accountId displayName) fun user log =>
      (P log ∧ Seen accountId log) ∧ user.webServicesUserId = accountId := by
  have hseen := hP.and (seen_stays accountId)
  have hfind : Tells (promised j) P P (accounts.findUser accountId displayName)
      fun found log => P log ∧
      ∀ user, found = some user → user.webServicesUserId = accountId ∧
        Seen accountId log := by
    refine .weaken (.read hP fun _ h => h) (fun _ h => h) (fun _ h => h) ?_
    rintro found log ⟨hlog, v, hread, hv⟩
    refine ⟨hlog, fun user he => ?_⟩
    obtain ⟨r, hr, rfl⟩ := Option.map_eq_some_iff.1 (hv.trans he)
    exact ⟨rfl, .inl ⟨_, v, hread, by rw [hr]; rfl⟩⟩
  have hname : ∀ userId, Goes j (fun log => P log ∧ Seen accountId log)
      (autocommit (accounts.insertDisplayNameStmt displayName userId)) fun _ log => P log ∧
        Seen accountId log := by
    intro userId
    apply autocommit_goes hseen
    intro now v e a hrun log pre hlog _
    rw [(Constraints.insertRow_spec (Accounts.insertDisplayNameStmt_run hrun)).2]
    exact ⟨.elsewhere (by simp), hseen.commit _ _ _ trivial hlog⟩
  have hstore : ∀ found : Option User, Goes j
      (fun log => P log ∧ ∀ user, found = some user → user.webServicesUserId = accountId ∧
        Seen accountId log)
      (accounts.storeUser accountId displayName found)
      fun r log => (P log ∧ Seen accountId log) ∧ r.1.webServicesUserId = accountId := by
    intro found
    cases found with
    | some user =>
        refine .pre (A := fun log => (P log ∧ Seen accountId log) ∧
          user.webServicesUserId = accountId)
          (.fact fun huser => ?_) fun log h => ⟨⟨h.1, (h.2 user rfl).2⟩, (h.2 user rfl).1⟩
        refine .bind (autocommit_goes (Q := fun _ log => P log ∧ Seen accountId log) hseen
          fun now v e a hrun log pre hlog _ => ?_) fun _ => .pure fun log h => ⟨h, huser⟩
        rcases Accounts.updateUserStmt_run hrun with rfl | he
        · exact ⟨.other rfl fun _ h => h, hseen.commit _ _ _ trivial hlog⟩
        · rw [Constraints.upsertRow_writes he]
          exact ⟨.elsewhere (by simp), hseen.commit _ _ _ trivial hlog⟩
    | none =>
        refine .pre (A := P) ?_ fun log h => h.1
        refine .bind (autocommit_goes (Q := fun user log =>
          (P log ∧ Seen accountId log) ∧ user.webServicesUserId = accountId) hP
          fun now v e a hrun log pre hlog _ => ?_) fun user => .pure fun log h => h
        obtain ⟨he, rfl⟩ := Accounts.insertUserStmt_run hrun
        rw [(Constraints.insertRow_spec he).2]
        refine ⟨.elsewhere (by simp),
          ⟨hP.commit _ _ _ trivial hlog, .inr ⟨_, _, List.mem_cons_self, ?_⟩⟩, rfl⟩
        rw [Store.view_cons, Store.view_nil, Store.get_put_self]
        rfl
  refine .bind (.attempt hfind fun _ _ h => h.1) fun found => ?_
  refine .bind (.pre (hstore found.toOption.join) ?_) fun r => ?_
  · rintro log ⟨hlog, hfound⟩
    refine ⟨hlog, fun user he => ?_⟩
    cases found with
    | error e => cases he
    | ok found => exact (hfound found rfl).2 user he
  · obtain ⟨user, insertName⟩ := r
    refine .fact fun huser => ?_
    dsimp only
    split
    · exact .bind (hname _) fun _ => .pure fun log h => ⟨h, huser⟩
    · exact .pure fun log h => ⟨h, huser⟩

theorem createSession_goes (hP : Stays P) (hshowed : ∀ log, P log → Showed j u log)
    (ipAddress : String) :
    Goes j P (createSession u ipAddress) fun session log => P log ∧
    Opened u session.sessionToken log := by
  refine .bind (.pre (Q := fun _ => P)
    (.weaken (.ask hP) (fun _ h => h) (fun _ h => h) fun _ _ h => h.1) fun _ h => h) fun sid => ?_
  apply autocommit_goes hP
  intro now v e a hrun log pre hlog hrows
  obtain ⟨e', he, hb⟩ := Option.map_eq_some_iff.1 hrun
  cases hb
  obtain ⟨hnone, hwrites⟩ := Constraints.insertRow_spec he
  rw [hwrites] at hrows ⊢
  have hpre : pre.get ⟨.sessions, sid⟩ = none := (hrows _ List.mem_cons_self).trans hnone
  refine ⟨.opened sid _ (hshowed log hlog) hpre rfl, hP.commit _ _ _ trivial hlog,
    pre, _, _, List.mem_cons_self, ?_, Store.get_put_self .., rfl⟩
  rw [begins, hpre, Store.view_cons, Store.view_nil, Store.get_put_self]
  rfl

/-- What is known of a connection that has its session. -/
structure SignedOn (j : Job) (ls : LoginSession) (log : Log) : Prop where
  showed : Showed j ls.user.webServicesUserId log
  seen : Seen ls.user.webServicesUserId log
  opened : Opened ls.user.webServicesUserId ls.session.sessionToken log

theorem resumeSession_goes {text pluginInfo ipAddress : String}
    (hfirst : j.first = .resumeSession text pluginInfo)
    (hversion : Server2.checkMinPluginVersion pluginInfo.toList = .ok ())
    (hsid : Uuid.parse text.toList = some sid) :
    Goes j (fun _ => True) (resumeSession sid ipAddress) fun r log =>
      (Showed j r.2.webServicesUserId log ∧ Seen r.2.webServicesUserId log) ∧
        Opened r.2.webServicesUserId r.1.sessionToken log := by
  refine .bind (.read always_stays fun _ _ => trivial) fun found => ?_
  cases found with
  | none => exact .throw fun _ _ => trivial
  | some user =>
      have hstays := (showed_stays j user.webServicesUserId).and (seen_stays user.webServicesUserId)
      refine .pre (A := fun log => Showed j user.webServicesUserId log ∧
        Seen user.webServicesUserId log) ?_ ?_
      · refine .bind (autocommit_goes (Q := fun _ log =>
          Showed j user.webServicesUserId log ∧ Seen user.webServicesUserId log) hstays
          fun now v e a hrun log pre hlog hrows => ?_) fun _ => ?_
        · simp only [replaceSessionStmt] at hrun
          split at hrun
          · cases hrun
            exact ⟨.other rfl fun _ h => h, hstays.commit _ _ _ trivial hlog⟩
          · next row hrow =>
            obtain ⟨e', he, hb⟩ := Option.map_eq_some_iff.1 hrun
            cases hb
            rw [Constraints.upsertRow_writes he] at hrows ⊢
            exact ⟨.replaced sid row ((hrows _ List.mem_cons_self).trans hrow) rfl,
              hstays.commit _ _ _ trivial hlog⟩
        · exact .bind (createSession_goes hstays (fun _ h => h.1) ipAddress)
            fun session => .pure fun _ h => h
      · rintro log ⟨-, v, hread, hv⟩
        refine ⟨.session text pluginInfo sid v hfirst hversion hsid hread
          (by rw [ownerId, hv]; rfl), ?_⟩
        obtain ⟨row, hrow, hv⟩ := Option.bind_eq_some_iff.1 hv
        obtain ⟨r, hr, hv⟩ := Option.bind_eq_some_iff.1 hv
        cases hv
        exact .inl ⟨_, v, hread, by rw [hr]; rfl⟩

theorem checkToken_goes (token : String) :
    Goes j (fun _ => True) (checkToken env token : Query ε _) fun resp log =>
      ∀ r, resp = some r → Confirmed token r log := by
  rw [checkToken]
  split
  case isFalse => exact .pure fun _ _ _ he => by cases he
  case isTrue =>
    refine .bind (.act always_stays fun _ _ => trivial) fun cached => ?_
    cases cached with
    | some resp => exact .pure fun log h r he => .inr (Option.some.inj he ▸ h.2)
    | none =>
        refine .bind (.pre (.ask always_stays) fun _ _ => trivial) fun reply => ?_
        cases reply with
        | unsent => exact .pure fun _ _ _ he => by cases he
        | status code => exact .pure fun _ _ _ he => by cases he
        | ok body =>
            cases body with
            | none => exact .pure fun _ _ _ he => by cases he
            | some resp =>
                refine .bind (.act (always_stays.and (.mem _)) fun log h => h.2) fun _ => .pure
                  fun log h r he => ?_
                exact .inl (Option.some.inj he ▸ h.1.2)

theorem loginViaToken_goes {token pluginInfo ipAddress : String}
    (hfirst : j.first = .authenticate token pluginInfo)
    (hversion : Server2.checkMinPluginVersion pluginInfo.toList = .ok ()) :
    Goes j (fun _ => True) (loginViaToken env ipAddress token pluginInfo) (SignedOn j) := by
  refine .bind (checkToken_goes token) fun resp => ?_
  cases resp with
  | none => exact .throw fun _ _ => trivial
  | some resp =>
      cases haccount : Uuid.parse resp.accountId.toList with
      | none =>
          simp only [haccount]
          exact .throw fun _ _ => trivial
      | some wsid =>
          simp only [haccount]
          have hstays := confirmed_stays token resp
          refine .bind (.adapt _ (.pre (registerOrLogin_goes hstays wsid resp.displayName)
            fun log h => h _ rfl))
            fun user => .fact fun huser => ?_
          have hshowed : ∀ log, Confirmed token resp log ∧ Seen wsid log →
              Showed j wsid log := fun log h =>
            .token token pluginInfo resp hfirst hversion h.1 haccount
          rw [huser]
          refine .bind (.adapt _ (createSession_goes
            (hstays.and (seen_stays wsid)) hshowed ipAddress)) fun session =>
            .pure fun log h => ⟨?_, ?_, ?_⟩
          · exact huser ▸ hshowed log h.1
          · exact huser ▸ h.1.2
          · exact huser ▸ h.2

theorem loginViaSession_goes {text pluginInfo ipAddress : String}
    (hfirst : j.first = .resumeSession text pluginInfo)
    (hversion : Server2.checkMinPluginVersion pluginInfo.toList = .ok ()) :
    Goes j (fun _ => True) (loginViaSession env ipAddress text pluginInfo) (SignedOn j) := by
  rw [loginViaSession]
  split
  · exact .throw fun _ _ => trivial
  · next sid hsid =>
    refine .bind (.adapt _ (resumeSession_goes hfirst hversion hsid)) fun r => ?_
    obtain ⟨session, user⟩ := r
    exact .pure fun log h => ⟨h.1.1, h.1.2, h.2⟩

theorem requireVersion_goes {pluginInfo : String} :
    Goes j (fun _ => True) (requireVersion pluginInfo) fun _ _ =>
      Server2.checkMinPluginVersion pluginInfo.toList = .ok () :=
  .result (fun _ _ => trivial) fun _ h _ _ => h

theorem runAuth_goes (env : Env) (j : Job) :
    Goes j (fun _ => True) (runAuth env j.ipAddress j.first) (SignedOn j) := by
  cases hfirst : j.first with
  | authenticate token pluginInfo =>
      refine .bind requireVersion_goes fun _ => .pre (A := fun _ => True ∧ _)
        (.fact fun hversion => ?_)
        fun _ h => ⟨trivial, h⟩
      exact loginViaToken_goes hfirst hversion
  | resumeSession text pluginInfo =>
      refine .bind requireVersion_goes fun _ => .pre (A := fun _ => True ∧ _)
        (.fact fun hversion => ?_)
        fun _ h => ⟨trivial, h⟩
      exact loginViaSession_goes hfirst hversion
  | other text => exact .throw fun _ _ => trivial
  | unread text => exact .throw fun _ _ => trivial

theorem Job.safe (env : Env) (j : Job) (db : Db) :
    Safe .free (fun _ _ => True) (promised j) (fun a l _ => ∀ ls, a = .ok ls →
      SignedOn j ls l.log) (j.body env) {} db := by
  refine (runAuth_goes env j {} db trivial rfl rfl fun _ _ => trivial).post ?_
  rintro a l db' ⟨-, -, hres⟩ ls rfl
  exact hres db' (.refl trivial)

/-! ## What the commits do -/

namespace Change

/-- What a commit does to one session. -/
theorem session (h : Change j log pre post) (sid : Uuid) :
    post.get ⟨.sessions, sid⟩ = pre.get ⟨.sessions, sid⟩ ∨
      (∃ row, pre.get ⟨.sessions, sid⟩ = none ∧ post.get ⟨.sessions, sid⟩ = some row ∧
        Showed j row.userId log) ∨
      ∃ row, pre.get ⟨.sessions, sid⟩ = some row ∧
      post.get ⟨.sessions, sid⟩ = some { row with replaced := true } := by
  cases h with
  | other hsessions husers => exact .inl (by simp only [Store.get, hsessions])
  | opened sid' row hshowed hnew hpost =>
      by_cases he : sid' = sid
      · subst he
        exact .inr (.inl ⟨row, hnew, by rw [hpost, Store.get_put_self], hshowed⟩)
      · rw [hpost]
        exact .inl (Store.get_put_of_ne (by simpa using he))
  | replaced sid' row hrow hpost =>
      by_cases he : sid' = sid
      · subst he
        exact .inr (.inr ⟨row, hrow, by rw [hpost, Store.get_put_self]⟩)
      · rw [hpost]
        exact .inl (Store.get_put_of_ne (by simpa using he))

theorem users (h : Change j log pre post) (hu : (pre.get ⟨.users, u⟩).isSome) :
    (post.get ⟨.users, u⟩).isSome := by
  cases h with
  | other hsessions husers => exact husers u hu
  | opened sid row hshowed hnew hpost =>
      rw [hpost, Store.get_put_of_ne (by simp)]
      exact hu
  | replaced sid row hrow hpost =>
      rw [hpost, Store.get_put_of_ne (by simp)]
      exact hu

/-- A session stays its user's. -/
theorem userId (h : Change j log pre post)
    (hrow : (pre.get ⟨.sessions, sid⟩).map SessionRow.userId = some u) :
    (post.get ⟨.sessions, sid⟩).map SessionRow.userId = some u := by
  rcases h.session sid with hsame | ⟨row, hnone, -⟩ | ⟨row, hpre, hpost⟩
  · rw [hsame, hrow]
  · rw [hnone] at hrow
    cases hrow
  · rw [hpre] at hrow
    rw [hpost]
    exact hrow

end Change

theorem ownerId_eq_some {db : Db} : ownerId sid db = some u ↔
    (db.get ⟨.sessions, sid⟩).map SessionRow.userId = some u ∧
    (db.get ⟨.users, u⟩).isSome := by
  cases hrow : db.get ⟨.sessions, sid⟩ with
  | none => simp [ownerId, sessionOwner, hrow]
  | some row =>
      cases huser : db.get ⟨.users, row.userId⟩ with
      | none =>
          constructor
          · intro h
            simp [ownerId, sessionOwner, hrow, huser] at h
          · rintro ⟨hu, hsome⟩
            cases hu
            rw [huser] at hsome
            cases hsome
      | some r =>
          constructor
          · intro h
            obtain rfl : row.userId = u := by simpa [ownerId, sessionOwner, hrow, huser] using h
            exact ⟨rfl, by rw [huser]; rfl⟩
          · rintro ⟨hu, -⟩
            cases hu
            simp [ownerId, sessionOwner, hrow, huser]

/-! ## Every run -/

abbrev Commit := Entry Table.Key Table.Row Tag Ask.Ans Act.Out Job

/-- The token and the account that an event tells of. -/
def claim : LogEvent → Option (String × TokenResp)
  | .answered (.opAuth token) (.ok (some resp)) => some (token, resp)
  | .acted (.tokenGet token) (some resp) => some (token, resp)
  | _ => none

/-- The service confirms what is genuine, and the cache remembers nothing else. -/
def told (Genuine : String → TokenResp → Prop) :
    Testimony Table.Key Table.Row Tag Ask.Ans Act.Out TokenCache where
  event ev := ∀ p ∈ claim ev, Genuine p.1 p.2
  memory cache := ∀ p ∈ cache.entries, Genuine p.1 p.2

/-- A run in which the service confirms genuine tokens only, with its commits. -/
abbrev Run (Genuine : String → TokenResp → Prop) (env : Env) (s₀ : System) (es : List Commit)
    (s : System) : Prop :=
  Chronicle shared (Job.body env) (fun s m => (told Genuine).Answers s m) s₀ es s

/-- The service says that the user is who they are, or a session from before the run does. -/
inductive Vouched (Genuine : String → TokenResp → Prop) (db₀ : Db) (u : Uuid) : Prop
  | confirmed (token : String) (resp : TokenResp) (hgenuine : Genuine token resp)
      (haccount : Uuid.parse resp.accountId.toList = some u)
  | inherited (sid : Uuid) (row : SessionRow) (hrow : db₀.get ⟨.sessions, sid⟩ = some row)
    (hu : row.userId = u)

/-- What makes the first request that of the user. -/
inductive Presented (Genuine : String → TokenResp → Prop) (db : Db) : First → Uuid → Prop
  | token (token pluginInfo : String) (resp : TokenResp) (u : Uuid)
      (hversion : Server2.checkMinPluginVersion pluginInfo.toList = .ok ())
        (hgenuine : Genuine token resp)
      (haccount : Uuid.parse resp.accountId.toList = some u) : Presented Genuine db
        (.authenticate token pluginInfo) u
  | session (text pluginInfo : String) (sid u : Uuid)
      (hversion : Server2.checkMinPluginVersion pluginInfo.toList = .ok ())
        (hsid : Uuid.parse text.toList = some sid)
      (howner : ownerId sid db = some u) : Presented Genuine db (.resumeSession text pluginInfo) u

/-- The sessions that the connection opened itself. -/
def openings (sid : Uuid) : Log → Nat
  | [] => 0
  | .committed pre post :: log => (begins sid pre post).toNat + openings sid log
  | _ :: log => openings sid log

/-- What is known of the connections and the sessions after a run. -/
structure IdentitiesShown (Genuine : String → TokenResp → Prop) (s₀ : System)
    (es : List Commit) (s : System) : Prop where
  vouched : ∀ sid row, s.db.get ⟨.sessions, sid⟩ = some row →
    Vouched Genuine s₀.db row.userId
  /-- A token is good for its user in every state after. -/
  lasting : ∀ e ∈ es, ∀ sid u, ownerId sid e.pre = some u → ownerId sid e.post = some u
  presented : ∀ t ∈ s.tasks, ∀ ls, t.prog = .ret (.ok ls) →
    Presented Genuine s.db t.job.first ls.user.webServicesUserId
  issued : ∀ t ∈ s.tasks, ∀ ls, t.prog = .ret (.ok ls) →
    ownerId ls.session.sessionToken s.db = some ls.user.webServicesUserId
  /-- No two connections have one session. -/
  apart : ∀ (i k : Nat) (t t' : Task) (ls ls' : LoginSession), s.tasks[i]? = some t →
    s.tasks[k]? = some t' →
    t.prog = .ret (.ok ls) → t'.prog = .ret (.ok ls') → ls.session = ls'.session → i = k

variable {Genuine : String → TokenResp → Prop} {s₀ s : System} {es : List Commit}

theorem told_lawful : (told Genuine).Lawful shared fun j => (promised j).act where
  other ev hanswered hacted p hp := by
    cases ev with
    | answered q a => exact absurd rfl (hanswered q a)
    | acted a o => exact absurd rfl (hacted a o)
    | _ => cases hp
  act j log a cache cache' o hcache hlog hact hperf := by
    have hput : ∀ token resp, Genuine token resp →
        (told Genuine).memory (cache.put token resp) := by
      intro token resp hgenuine p hp
      rcases List.mem_cons.1 (List.mem_of_mem_take hp) with rfl | hp
      · exact hgenuine
      · exact hcache p (Limits.LruCache.mem_others.1 hp).1
    cases a with
    | tokenGet token =>
        obtain ⟨rfl, rfl⟩ : (cache.get token).1 = cache' ∧ (cache.get token).2 = o := by
          simpa only [shared, Option.some.injEq, Prod.ext_iff] using hperf
        rw [Limits.LruCache.get]
        cases hpeek : cache.peek token with
        | none => exact ⟨hcache, fun p hp => by cases hp⟩
        | some resp =>
            have hgenuine : Genuine token resp := hcache _ (Limits.LruCache.peek_eq_some.1 hpeek)
            exact ⟨hput token resp hgenuine, fun p hp => by cases hp; exact hgenuine⟩
    | tokenPut token resp =>
        obtain ⟨rfl, -⟩ : cache.put token resp = cache' ∧ () = o := by
          simpa only [shared, Option.some.injEq, Prod.ext_iff] using hperf
        exact ⟨hput token resp (hlog _ hact (token, resp) rfl), fun p hp => by cases hp⟩
  abandon log cache h := h

namespace Run

/-- All that the logs tell of tokens is genuine. -/
theorem holds (h : Run Genuine env s₀ es s) (hmem : s₀.mem = emptyCache)
    (htasks : s₀.tasks = []) : (told Genuine).Holds s :=
  Testimony.reached (fun j db _ => Job.safe env j db)
    (fun s _ hok => ⟨s.admits_true, hok⟩) told_lawful trivial
    (fun p hp => by rw [hmem] at hp; cases hp) htasks h.reachBy

theorem change (h : Run Genuine env s₀ es s) (htasks : s₀.tasks = []) {e : Commit}
    (he : e ∈ es) : Change e.job e.log e.pre e.post :=
  (h.promised (fun j db _ => Job.safe env j db) (fun s _ _ => s.admits_true) trivial htasks e he).2

end Run

theorem Confirmed.genuine {token : String} {resp : TokenResp} (h : Confirmed token resp log)
    (hlog : ∀ ev ∈ log, (told Genuine).event ev) : Genuine token resp := by
  rcases h with h | h
  · exact hlog _ h (token, resp) rfl
  · exact hlog _ h (token, resp) rfl

/-- Every session is of a user who was vouched for. -/
theorem Run.vouched (h : Run Genuine env s₀ es s) (hmem : s₀.mem = emptyCache)
    (htasks : s₀.tasks = []) {row : SessionRow}
    (hrow : s.db.get ⟨.sessions, sid⟩ = some row) : Vouched Genuine s₀.db row.userId := by
  induction hn : es.length using Nat.strong_induction_on generalizing es s sid row with
  | _ n ih =>
    cases es with
    | nil => exact .inherited sid row (h.oldest ▸ hrow) rfl
    | cons e es =>
        obtain ⟨hpost, s', hc, hpre⟩ := Chronicle.newest h
        have hlen : es.length < n := hn ▸ Nat.lt_succ_self _
        rw [hpost] at hrow
        rcases (h.change htasks List.mem_cons_self).session sid with hsame |
          ⟨row', -, hrow', hshowed⟩ | ⟨row', hrow', hnew⟩
        · exact ih es.length hlen hc (by rw [hpre, ← hsame, hrow]) rfl
        · obtain rfl : row' = row := Option.some.inj (hrow'.symm.trans hrow)
          cases hshowed with
          | token token pluginInfo resp hfirst hversion hconfirmed haccount =>
              obtain ⟨newer, older, s'', -, hc', -, t, ht, -, hlog⟩ :=
                h.moment (List.mem_cons_self (a := e))
              refine .confirmed token resp (hconfirmed.genuine ?_) haccount
              rw [← hlog]
              exact (Run.holds hc' hmem htasks).logs t ht
          | session text pluginInfo sid' v hfirst hversion hsid hread howner =>
              obtain ⟨newer, older, es', s'', hes, hsuf, hc', hv⟩ :=
                h.read_before htasks List.mem_cons_self hread
              obtain ⟨row'', hrow'', hu⟩ :=
                Option.map_eq_some_iff.1 (ownerId_eq_some.1 howner).1
              have hlen' : es'.length < n := by
                have := congrArg List.length hes
                have := hsuf.length_le
                simp only [List.length_append, List.length_cons] at *
                omega
              exact hu ▸ ih es'.length hlen' hc' (hv ▸ hrow'') rfl
        · obtain rfl : { row' with replaced := true } = row :=
            Option.some.inj (hnew.symm.trans hrow)
          have hold : Vouched Genuine s₀.db row'.userId :=
            ih es.length hlen hc (by rw [hpre, hrow']) rfl
          exact hold

/-! ## One session for each connection -/

/-- Two places of a list on which there is a sum of one at most. -/
theorem eq_of_sum_le_one {γ : Type} {f : γ → Nat} {l : List γ} {i k : Nat} {x y : γ}
    (h : (l.map f).sum ≤ 1) (hi : l[i]? = some x) (hk : l[k]? = some y) (hx : 1 ≤ f x)
    (hy : 1 ≤ f y) : i = k := by
  have hle : ∀ {l : List γ} {z : γ}, z ∈ l → f z ≤ (l.map f).sum := fun hz =>
    List.le_sum_of_mem (List.mem_map_of_mem hz)
  induction l generalizing i k with
  | nil => cases hi
  | cons z l ih =>
      rw [List.map_cons, List.sum_cons] at h
      cases i with
      | zero =>
          cases k with
          | zero => rfl
          | succ k =>
              cases hi
              have := hle (List.mem_of_getElem? (show l[k]? = some y from hk))
              omega
      | succ i =>
          cases k with
          | zero =>
              cases hk
              have := hle (List.mem_of_getElem? (show l[i]? = some x from hi))
              omega
          | succ k => rw [ih (by omega) hi hk]

theorem Opened.openings_pos (h : Opened u sid log) : 1 ≤ openings sid log := by
  obtain ⟨pre, post, row, hmem, hnew, -⟩ := h
  induction log with
  | nil => cases hmem
  | cons ev log ih =>
      rcases List.mem_cons.1 hmem with rfl | hmem
      · rw [openings, hnew]
        exact Nat.le_add_right 1 _
      · refine Nat.le_trans (ih hmem) ?_
        cases ev with
        | committed pre post => exact Nat.le_add_left ..
        | _ => exact Nat.le_refl _

/-- A session is opened once. -/
theorem Run.openings_le_one (h : Run Genuine env s₀ es s)
    (htasks : s₀.tasks = []) (sid : Uuid) :
    (s.tasks.map fun t => openings sid t.loc.log).sum ≤ 1 := by
  have hspent : (s.tasks.map fun t => openings sid t.loc.log).sum + (es.map fun _ => 0).sum ≤
      (es.map fun e => (begins sid e.pre e.post).toNat).sum :=
    h.spent_le (fun _ => openings sid) (fun e => (begins sid e.pre e.post).toNat)
      (fun _ => 0) (fun _ => rfl)
      (fun _ ev log hev => by cases ev with
        | committed pre post => exact absurd rfl (hev pre post)
        | _ => rfl)
      htasks fun e _ => by rw [openings]; omega
  have hstock : (s.db.get ⟨.sessions, sid⟩).isSome.toNat + (es.map fun _ => 0).sum =
      (s₀.db.get ⟨.sessions, sid⟩).isSome.toNat +
        (es.map fun e => (begins sid e.pre e.post).toNat).sum := by
    refine h.stock (fun db => (db.get ⟨.sessions, sid⟩).isSome.toNat)
      (fun e => (begins sid e.pre e.post).toNat) (fun _ => 0) fun e he => ?_
    rcases (h.change htasks he).session sid with hsame | ⟨row, hnone, hsome, -⟩ |
      ⟨row, hpre, hpost⟩
    · rw [begins, hsame]
      cases e.pre.get ⟨.sessions, sid⟩ <;> rfl
    · rw [begins, hnone, hsome]
      rfl
    · rw [begins, hpre, hpost]
      rfl
  have hone := Bool.toNat_le (s.db.get ⟨.sessions, sid⟩).isSome
  omega

/-! ## The connections -/

/-- In every run of connections, whoever is connected showed a genuine token of the user, or the
token of a session of the user, and all sessions go back to genuine tokens. -/
theorem identities_shown (env : Env) (hmem : s₀.mem = emptyCache) (htasks : s₀.tasks = [])
    (h : Run Genuine env s₀ es s) : IdentitiesShown Genuine s₀ es s := by
  have hended : ∀ t ∈ s.tasks, ∀ ls, t.prog = .ret (.ok ls) → SignedOn t.job ls t.loc.log :=
    fun t ht ls hret =>
    ((h.reachBy.reach fun s _ _ => s.admits_true).sound
      (fun j db _ => Job.safe env j db) trivial htasks).ended
      ht hret ls rfl
  have hlasting : ∀ e ∈ es, ∀ sid u, ownerId sid e.pre = some u →
      ownerId sid e.post = some u := by
    intro e he sid u howner
    have hchange := h.change htasks he
    obtain ⟨hrow, huser⟩ := ownerId_eq_some.1 howner
    exact ownerId_eq_some.2 ⟨hchange.userId hrow, hchange.users huser⟩
  refine ⟨fun sid row hrow => h.vouched hmem htasks hrow, hlasting, ?_, ?_, ?_⟩
  · intro t ht ls hret
    cases (hended t ht ls hret).showed with
    | token token pluginInfo resp hfirst hversion hconfirmed haccount =>
        rw [hfirst]
        exact .token token pluginInfo resp _ hversion
          (hconfirmed.genuine ((h.holds hmem htasks).logs t ht)) haccount
    | session text pluginInfo sid v hfirst hversion hsid hread howner =>
        rw [hfirst]
        exact .session text pluginInfo sid _ hversion hsid
          (h.lasts_read (fun db => ownerId sid db = some _)
            (fun e he => hlasting e he sid _) htasks ht hread howner)
  · intro t ht ls hret
    obtain ⟨-, hseen, pre, post, row, hopened, -, hrow, hu⟩ := hended t ht ls hret
    refine ownerId_eq_some.2 ⟨?_, ?_⟩
    · obtain ⟨e, he, -, -, hpost, -⟩ := h.committed htasks ht hopened
      have hpost' : (e.post.get ⟨.sessions, ls.session.sessionToken⟩).map SessionRow.userId =
          some ls.user.webServicesUserId := by rw [hpost, hrow, Option.map_some, hu]
      exact h.lasts_entry
        (fun db => (db.get ⟨.sessions, ls.session.sessionToken⟩).map SessionRow.userId =
        some ls.user.webServicesUserId) (fun e he => (h.change htasks he).userId) he hpost'
    · have hstay : ∀ e ∈ es, (e.pre.get ⟨.users, ls.user.webServicesUserId⟩).isSome →
          (e.post.get ⟨.users, ls.user.webServicesUserId⟩).isSome :=
            fun e he => (h.change htasks he).users
      rcases hseen with ⟨tag, v, hread, huser⟩ | ⟨pre', post', hcommitted, huser⟩
      · exact h.lasts_read (fun db => (db.get ⟨.users, _⟩).isSome) hstay htasks ht hread huser
      · obtain ⟨e, he, -, -, hpost', -⟩ := h.committed htasks ht hcommitted
        exact h.lasts_entry (fun db => (db.get ⟨.users, _⟩).isSome) hstay he (hpost' ▸ huser)
  · intro i k t t' ls ls' hi hk hret hret' hsession
    have hopened := (hended t (List.mem_of_getElem? hi) ls hret).opened
    have hopened' := (hended t' (List.mem_of_getElem? hk) ls' hret').opened
    rw [← hsession] at hopened'
    exact eq_of_sum_le_one
      (h.openings_le_one htasks ls.session.sessionToken) hi hk hopened.openings_pos
      hopened'.openings_pos

/-- The connection is of the user. -/
def isOf (u : Uuid) : Answer → Bool
  | .ok ls => ls.user.webServicesUserId = u
  | .error _ => false

namespace Sample

def server : Env where
  opConfigured := true
  dbErrorText _ := "error"
  uuidText _ := "invalid"

/-- The plugin of a version that may log in. -/
def plugin : String := "Version:0.5.1\n"

/-- What the service knows: `secret` is of user 1. -/
def Knows (token : String) (resp : TokenResp) : Prop :=
  token = "secret" ∧ resp.accountId = "00000000000000000000000000000001"

instance (token : String) (resp : TokenResp) : Decidable (Knows token resp) :=
  inferInstanceAs (Decidable (token = "secret" ∧
    resp.accountId = "00000000000000000000000000000001"))

instance : DecidablePred (told Knows).event := fun ev =>
  inferInstanceAs (Decidable (∀ p ∈ claim ev, Knows p.1 p.2))

def answers (n : Nat) : (q : Ask) → q.Ans
  | .now => n
  | .newUuid => n
  | .opAuth token =>
      if token = "secret" then .ok (some ⟨"00000000000000000000000000000001", "a", 0⟩)
        else .status 401

def login : Job := ⟨"::1", .authenticate "secret" plugin⟩

def resume : Job := ⟨"::1", .resumeSession (Uuid.text 7) plugin⟩

end Sample

/-- Two connections log in with the same token, the second by the cache, and a third goes on with
the session of the first. -/
theorem identities_shown_resumed : ∃ (s₀ : System) (es : List Commit) (s : System),
    ((∃ t ∈ s.tasks, t.job = Sample.login ∧ t.prog.result.any (isOf 1) = true) ∧
      ∃ t ∈ s.tasks, t.job = Sample.resume ∧ t.prog.result.any (isOf 1) = true) ∧
    IdentitiesShown Sample.Knows s₀ es s := by
  obtain ⟨s, hs, hended⟩ : ∃ s : System, ReachBy shared (Job.body Sample.server)
      (fun s m => (told Sample.Knows).Answers s m) { db := .empty, mem := emptyCache } s ∧
      ((∃ t ∈ s.tasks, t.job = Sample.login ∧ t.prog.result.any (isOf 1) = true) ∧
        ∃ t ∈ s.tasks, t.job = Sample.resume ∧ t.prog.result.any (isOf 1) = true) :=
    ReachBy.scriptedBy [
      .start Sample.login, .go 0 40 (Sample.answers 7), .start Sample.login,
        .go 1 40 (Sample.answers 8),
      .start Sample.resume, .go 2 40 (Sample.answers 9)] (by decide +kernel)
  obtain ⟨es, hes⟩ := hs.chronicle
  exact ⟨_, es, s, hended, identities_shown Sample.server rfl rfl hes⟩

end Dd2Server.Handshake
