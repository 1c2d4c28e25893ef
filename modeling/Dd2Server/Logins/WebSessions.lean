import Dd2Server.Logins.History
import Dd2Server.ReadCommitted.Chronicle
import Dd2Server.ReadCommitted.Confined
import Dd2Server.ReadCommitted.Evidence

/-!
# The sessions of the web pages

`oauth_start` saves a state and gives it to the browser as a cookie.  The callback takes the state
that its query and the cookie agree on, and only then asks who the user is and opens a session for
that user.  Every other request reads its user from the session that its cookie names, and `logout`
removes that session.

A state that was saved can be taken once, whatever callbacks run at the same time, and a callback
opens one session for the state it took.  So no more sessions are opened with a state than it was
saved.
-/

namespace Dd2Server.Logins

open ReadCommitted

variable {env : Env} {ε ε' α β : Type} {state : String} {log : Log} {pre post : Db} {sid : Uuid}

/-! ## Visits and logouts -/

def getWebSession (sessionId : Uuid) : Query DbError (Option (Uuid × String)) := do
  let now ← askQ Ask.now
  ExceptT.mk (.read (.named "get_web_session")
    (fun db =>
      .ret (.ok (((db.get ⟨.webSessions, sessionId⟩).filter fun s => now < s.expiresAt).map
      fun s => (s.userId, s.displayName))))
    (.ret (.error .database)))

def sessionUser (cookie : Option String) : Query ε (Option (Uuid × String)) :=
  match Moderation.sessionId cookie with
  | none => return none
  | some sid => do
      let r ← attempt (getWebSession sid)
      return r.toOption.join

def deleteWebSession (sessionId : Uuid) : Query DbError Unit :=
  autocommit fun _ => {
    tag := .named "delete_web_session"
    run := fun v =>
      match v.get ⟨.webSessions, sessionId⟩ with
      | some _ => some ({ writes := [⟨⟨.webSessions, sessionId⟩, none⟩] }, ())
      | none => some ({}, ()) }

/-- The session that `handle_logout` finds in the cookies: the first part that begins with the name
and `=`. -/
def logoutSession (cookie : Option String) : Option Uuid :=
  cookie.bind fun header =>
    ((header.toList.splitOn ';').findSome? fun part =>
      Text.stripPrefix (Moderation.sessionCookie ++ "=").toList
        (Text.trimChars part)).bind Uuid.parse

/-- The reply, and the cookie it sets. -/
def handleLogout (cookie : Option String) : Query ε (Moderation.Reply × String) := do
  let _ ← attempt (match logoutSession cookie with
    | none => pure ()
    | some id => deleteWebSession id)
  return (Moderation.okTrue, Moderation.sessionCookie ++ "=; Path=/; HttpOnly; Max-Age=0")

/-- A login, a logout, or a visit: what a request does first. -/
inductive WebJob
  | login (j : Job)
  | logout (cookie : Option String)
  | visit (cookie : Option String)
  deriving DecidableEq

inductive WebAnswer
  | login (a : Answer)
  | loggedOut (r : Moderation.Reply) (setCookie : String)
  | visitor (user : Option (Uuid × String))

/-- A handler that always comes to its reply. -/
def served (x : Query Empty α) (f : α → WebAnswer) : Server WebAnswer :=
  x.run.bind fun r => .ret (match r with | .ok a => f a | .error e => e.elim)

def WebJob.body (env : Env) : WebJob → Server WebAnswer
  | .login j => (j.body env).bind fun a => .ret (.login a)
  | .logout cookie => served (handleLogout cookie) fun r => .loggedOut r.1 r.2
  | .visit cookie => served (sessionUser cookie) .visitor

theorem splitOnce_eq_stripPrefix (name : List Char) (hname : '=' ∉ name) (cs : List Char) :
    ((Moderation.splitOnce '=' cs).bind fun p => if p.1 = name then some p.2 else none) =
      Text.stripPrefix (name ++ ['=']) cs := by
  induction name generalizing cs with
  | nil =>
      cases cs with
      | nil => rfl
      | cons c cs =>
          by_cases hc : c = '='
          · simp [Moderation.splitOnce, Text.stripPrefix, hc]
          · cases h : Moderation.splitOnce '=' cs <;> simp [Moderation.splitOnce, Text.stripPrefix,
              hc, h, Ne.symm hc]
  | cons a name ih =>
      obtain ⟨ha, hname⟩ := not_or.1 (List.mem_cons.not.1 hname)
      cases cs with
      | nil => rfl
      | cons c cs =>
          rw [List.cons_append, Text.stripPrefix, ← ih hname cs]
          by_cases hc : c = '='
          · subst hc
            simp [Moderation.splitOnce, Ne.symm ha]
          · cases h : Moderation.splitOnce '=' cs with
            | none => simp [Moderation.splitOnce, hc, h]
            | some p => by_cases hac : a = c <;> simp [Moderation.splitOnce, hc, h, hac, eq_comm]

/-- A logout finds the session that a visit finds. -/
theorem logoutSession_eq (cookie : Option String) :
    logoutSession cookie = Moderation.sessionId cookie := by
  have hname : (Moderation.sessionCookie ++ "=").toList =
      Moderation.sessionCookie.toList ++ ['='] := by decide
  have hpart := splitOnce_eq_stripPrefix Moderation.sessionCookie.toList (by decide)
  simp only [logoutSession, Moderation.sessionId, Moderation.cookieValue, hname, hpart]

/-! ## What the commits do -/

abbrev Commit := Entry Table.Key Table.Row Tag Ask.Ans Act.Out WebJob

/-- How often the state waits to be taken. -/
def waiting (state : String) (db : Db) : Nat :=
  if (db.get ⟨.oauthStates, state⟩).isSome then 1 else 0

/-- From `pre` to `post` the state comes. -/
def saves (state : String) (pre post : Db) : Bool :=
  (pre.get ⟨.oauthStates, state⟩).isNone && (post.get ⟨.oauthStates, state⟩).isSome

/-- From `pre` to `post` the state goes. -/
def takes (state : String) (pre post : Db) : Bool := saves state post pre

/-- From `pre` to `post` some session comes. -/
def opens (pre post : Db) : Bool :=
  (post.rows .webSessions).any fun r => (pre.get ⟨.webSessions, r.1⟩).isNone

/-- The state that a callback comes with. -/
def WebJob.brings : WebJob → Option String
  | .login (.oauthCallback q _) => q.state
  | _ => none

/-- How many commits saved the state. -/
def saved (state : String) (es : List Commit) : Nat :=
  (es.map fun e => (saves state e.pre e.post).toNat).sum

/-- How many commits of callbacks with the state opened a session. -/
def opened (state : String) (es : List Commit) : Nat :=
  (es.map fun e => (opens e.pre e.post && e.job.brings == some state).toNat).sum

/-- How many sessions the task may still open with the state. -/
def owed (state : String) : Log → Nat
  | [] => 0
  | .committed pre post :: log =>
      owed state log + (takes state pre post).toNat - (opens pre post).toNat
  | _ :: log => owed state log

/-- The task has taken the state, which the browser came with. -/
inductive Took (q : OauthCallbackQuery) (cookie : Option String) (state : String) (log : Log) : Prop
  | mk (hquery : q.state = some state)
      (hcookie : (cookie.bind fun header => Moderation.cookieValue header oauthStateCookie) =
        some state.toList)
      (pre post : Db) (now expiresAt : Time) (hnow : .answered .now now ∈ log)
      (hrow : pre.get ⟨.oauthStates, state⟩ = some expiresAt) (hfresh : now < expiresAt)
      (hgone : post.get ⟨.oauthStates, state⟩ = none) (htaken : .committed pre post ∈ log)

/-- The task has asked who the user is, with the code that the browser came with. -/
inductive Identified (q : OauthCallbackQuery) (userId : Uuid) (displayName : String) (log : Log) :
    Prop
  | mk (code : String) (token : TokenResponse) (accountId : String) (hcode : q.code = some code)
      (htoken : .answered (.exchangeCode code) (.ok token) ∈ log)
      (huser : .answered (.fetchUser token.accessToken) (.ok ⟨accountId, displayName⟩) ∈ log)
      (haccount : Uuid.parse accountId.toList = some userId)

/-- What a task did that opens the session. -/
inductive SignedIn (j : WebJob) (log : Log) (sid : Uuid) (row : Moderation.WebSession) : Prop
  | mk (q : OauthCallbackQuery) (cookie : Option String) (state : String) (now : Time)
      (hjob : j = .login (.oauthCallback q cookie)) (htook : Took q cookie state log)
      (huser : Identified q row.userId row.displayName log) (hid : .answered .newUuid sid ∈ log)
      (hnow : .answered .utcNow now ∈ log)
        (hexpires : row.expiresAt = now + minutes (14 * 24 * 60))

/-- The task has saved the state. -/
def Saved (state : String) (log : Log) : Prop :=
  ∃ pre post, .committed pre post ∈ log ∧ saves state pre post = true

/-- What a commit may do. -/
inductive WebChange (j : WebJob) (log : Log) (pre post : Db) : Prop
  | other (hstates : post .oauthStates = pre .oauthStates)
    (hsessions : post .webSessions = pre .webSessions)
  | saved (id : Uuid) (now : Time) (hjob : j = .login .oauthStart)
    (hid : .answered .newUuid id ∈ log)
      (hnow : .answered .utcNow now ∈ log) (hnew : pre.get ⟨.oauthStates, id.text⟩ = none)
      (hpost : post = pre.put ⟨⟨.oauthStates, id.text⟩, some (now + minutes 10)⟩)
  | taken (state : String) (hstate : j.brings = some state)
    (hrow : (pre.get ⟨.oauthStates, state⟩).isSome)
      (hpost : post = pre.put ⟨⟨.oauthStates, state⟩, none⟩)
  | opened (sid : Uuid) (row : Moderation.WebSession) (hin : SignedIn j log sid row)
      (howed : ∀ state, j.brings = some state → 1 ≤ owed state log)
      (hnew : pre.get ⟨.webSessions, sid⟩ = none)
        (hpost : post = pre.put ⟨⟨.webSessions, sid⟩, some row⟩)
  | closed (cookie : Option String) (sid : Uuid) (hjob : j = .logout cookie)
      (hsid : Moderation.sessionId cookie = some sid)
        (hpost : post = pre.put ⟨⟨.webSessions, sid⟩, none⟩)

theorem get_of_table {t : Table} (h : post t = pre t) (k : t.Key) :
    post.get ⟨t, k⟩ = pre.get ⟨t, k⟩ := by
  simp only [Store.get, h]

theorem opens_iff : opens pre post = true ↔
    ∃ sid row, pre.get ⟨.webSessions, sid⟩ = none ∧
    post.get ⟨.webSessions, sid⟩ = some row := by
  rw [opens, List.any_eq_true]
  constructor
  · rintro ⟨⟨sid, row⟩, hmem, hnone⟩
    exact ⟨sid, row, Option.isNone_iff_eq_none.1 hnone, Store.mem_rows.1 hmem⟩
  · rintro ⟨sid, row, hnone, hrow⟩
    exact ⟨(sid, row), Store.mem_rows.2 hrow, Option.isNone_iff_eq_none.2 hnone⟩

theorem opens_eq_false (h : ∀ sid, pre.get ⟨.webSessions, sid⟩ = none →
      post.get ⟨.webSessions, sid⟩ = none) : opens pre post = false := by
  rw [Bool.eq_false_iff]
  intro hopens
  obtain ⟨sid, row, hnone, hrow⟩ := opens_iff.1 hopens
  rw [h sid hnone] at hrow
  cases hrow

/-- A write to another table than the one of the row. -/
theorem get_put_other {k k' : DbKey} {o : Option (Table.Row k.table)} (h : k.table ≠ k'.table) :
    (pre.put ⟨k, o⟩).get k' = pre.get k' :=
  Store.get_put_of_ne fun he => h (congrArg RowKey.table he)

namespace WebChange

variable {j : WebJob}

theorem owed_le (h : WebChange j log pre post) (state : String) :
    owed state (.committed pre post :: log) + (opens pre post && j.brings == some state).toNat ≤
      owed state log + (takes state pre post).toNat := by
  rw [owed]
  cases h with
  | other hstates hsessions =>
      have hno : opens pre post = false := opens_eq_false fun sid hs => by
        rw [get_of_table hsessions, hs]
      simp [hno]
  | saved id now hjob hid hnow hnew hpost =>
      have hno : opens pre post = false := opens_eq_false fun sid hs => by
        rw [hpost, get_put_other (by simp), hs]
      simp [hno]
  | taken state' hstate hrow hpost =>
      have hno : opens pre post = false := opens_eq_false fun sid hs => by
        rw [hpost, get_put_other (by simp), hs]
      simp [hno]
  | opened sid row hin howed hnew hpost =>
      have hyes : opens pre post = true :=
        opens_iff.2 ⟨sid, row, hnew, by rw [hpost, Store.get_put_self]⟩
      by_cases hstate : j.brings = some state
      · have := howed state hstate
        simp [hyes, hstate]
        omega
      · have hbeq : (j.brings == some state) = false := by simpa using hstate
        simp [hyes, hbeq]
  | closed cookie sid hjob hsid hpost =>
      have hno : opens pre post = false := opens_eq_false fun sid' hs => by
        by_cases he : sid = sid'
        · rw [hpost, he, Store.get_put_self]
        · rw [hpost, Store.get_put_of_ne (by simpa using he), hs]
      simp [hno]

end WebChange

/-! ## What the requests know -/

/-- The states and the sessions stay. -/
abbrev Calm (pre post : Db) : Prop :=
  post .oauthStates = pre .oauthStates ∧ post .webSessions = pre .webSessions

/-- From `P` the query comes to `Q` of its result, or to an error. -/
abbrev WebLeads (j : WebJob) (P : Log → Prop) (x : Query ε α)
    (Q : α → Log → Prop) : Prop :=
  Tells { commit := WebChange j } (fun _ => True) P x Q

variable {j : WebJob} {P : Log → Prop} {q : OauthCallbackQuery}
  {cookie : Option String} {userId : Uuid} {displayName : String}

theorem took_abides (q : OauthCallbackQuery) (cookie : Option String) (state : String) :
    Abides Calm (Took q cookie state) := by
  apply Abides.of_cons
  rintro ev log ⟨hquery, hcookie, pre, post, now, expiresAt, hnow, hrow, hfresh, hgone, htaken⟩
  exact ⟨hquery, hcookie, pre, post, now, expiresAt, List.mem_cons_of_mem _ hnow,
    hrow, hfresh, hgone, List.mem_cons_of_mem _ htaken⟩

theorem identified_abides (q : OauthCallbackQuery) (userId : Uuid) (displayName : String) :
    Abides Calm (Identified q userId displayName) := by
  apply Abides.of_cons
  rintro ev log ⟨code, token, accountId, hcode, htoken, huser, haccount⟩
  exact ⟨code, token, accountId, hcode, List.mem_cons_of_mem _ htoken,
    List.mem_cons_of_mem _ huser, haccount⟩

theorem owed_abides (state : String) (n : Nat) : Abides Calm fun log => n ≤ owed state log where
  skip ev log hev h := by
    cases ev with
    | committed pre post => exact absurd rfl (hev pre post)
    | _ => exact h
  commit pre post log hcalm h := by
    have hno : opens pre post = false := opens_eq_false fun sid hs => by
      rw [get_of_table hcalm.2, hs]
    have hkept : takes state pre post = false := by simp [takes, saves, get_of_table hcalm.1]
    rw [owed, hno, hkept]
    exact h

theorem ask_web {a : Ask} (hP : Abides Calm P) :
    WebLeads j P (askQ a : Query ε a.Ans) fun o log => P log ∧ .answered a o ∈ log :=
  Tells.ask hP

/-- What the world outside answered. -/
theorem answered_web {f : ε' → Page} {r : Except ε' α} {Q : α → Log → Prop}
    (h : ∀ a, r = .ok a → ∀ log, P log → Q a log) : WebLeads j P (answered f r) Q := by
  cases r with
  | ok a => exact .pure (h a rfl)
  | error e => exact .throw fun _ _ => trivial

/-- A statement on its own. -/
theorem autocommit_web {s : Time → Sql α} {Q : α → Log → Prop} (hP : Abides Calm P)
    (hs : ∀ now v e a, (s now).run v = some (e, a) → ∀ log pre, P log →
      .answered .now now ∈ log → (∀ w ∈ e.writes, pre.get w.row = v.get w.row) →
      WebChange j log pre (Store.view e.writes pre) ∧ Q a
      (.committed pre (Store.view e.writes pre) :: log)) : WebLeads j P (autocommit s) Q :=
  .asking hP (fun _ _ => trivial) fun now v e a hrun log pre h hnow _ hrows =>
    hs now v e a hrun log pre h hnow hrows

/-! ## The requests -/

/-- A statement on its own that leaves the states and the sessions alone. -/
theorem elsewhere_web {s : Time → Sql α} (hP : Abides Calm P)
    (hs : ∀ now v e a, (s now).run v = some (e, a) →
      ∀ w ∈ e.writes, w.row.table ≠ .oauthStates ∧ w.row.table ≠ .webSessions) :
    WebLeads j P (autocommit s) fun _ => P := by
  apply autocommit_web hP
  intro now v e a hrun log pre hlog _ _
  have htable : ∀ t, (∀ w ∈ e.writes, w.row.table ≠ t) →
      Store.view e.writes pre t = pre t := fun t ht =>
    Among.view_table (W := fun t' => t' ≠ t) ht pre (by simp)
  have hstates := htable .oauthStates fun w hw => (hs now v e a hrun w hw).1
  have hsessions := htable .webSessions fun w hw => (hs now v e a hrun w hw).2
  exact ⟨.other hstates hsessions, hP.commit _ _ _ ⟨hstates, hsessions⟩ hlog⟩

theorem upsert_elsewhere {t : Table} {k : t.Key} {r : t.Row} {v : Db} {e : DbEffect} {b b' : β}
    (ht : t ≠ .oauthStates ∧ t ≠ .webSessions)
    (h : (constraints.upsertRow t k r v).map (fun e => (e, b)) = some (e, b')) :
    ∀ w ∈ e.writes, w.row.table ≠ .oauthStates ∧ w.row.table ≠ .webSessions := by
  obtain ⟨e', he, hb⟩ := Option.map_eq_some_iff.1 h
  cases hb
  rw [Constraints.upsertRow_writes he]
  exact fun w hw => List.mem_singleton.1 hw ▸ ht

theorem registerOrLogin_web (accountId : Uuid) (displayName : String) :
    WebLeads j (fun _ => True) (registerOrLogin accountId displayName) fun _ _ => True := by
  have hfind : WebLeads j (fun _ => True) (sql (findUserStmt accountId displayName))
      fun _ _ => True :=
    Pool.read (fun v => ⟨_, rfl⟩) (fun _ _ _ _ => trivial) fun _ _ _ _ _ _ _ _ _ _ => trivial
  have hstore : ∀ user, WebLeads j (fun _ => True) (accounts.storeUser accountId displayName user)
      fun _ _ => True := by
    intro user
    cases user with
    | none =>
        refine .bind (elsewhere_web .true fun now v e a hrun => ?_) fun _ => .pure
          fun _ _ => trivial
        rw [(Constraints.insertRow_spec (Accounts.insertUserStmt_run hrun).1).2]
        simp
    | some user =>
        refine .bind (elsewhere_web .true fun now v e a hrun => ?_) fun _ => .pure
          fun _ _ => trivial
        rcases Accounts.updateUserStmt_run hrun with rfl | he
        · simp
        · rw [Constraints.upsertRow_writes he]
          simp
  refine .bind (.attempt hfind fun _ _ _ => trivial) fun user => ?_
  refine .bind (.pre (hstore _) fun _ _ => trivial) fun r => ?_
  obtain ⟨user, insertName⟩ := r
  cases insertName with
  | false => exact .pure fun _ _ => trivial
  | true =>
      refine .bind (elsewhere_web .true fun now v e a hrun => ?_) fun _ => .pure fun _ _ => trivial
      rw [(Constraints.insertRow_spec (Accounts.insertDisplayNameStmt_run hrun)).2]
      simp

theorem saveOauthState_web (id : Uuid) (now : Time) (hj : j = .login .oauthStart) :
    WebLeads j (fun log => (True ∧ .answered .newUuid id ∈ log) ∧
      .answered .utcNow now ∈ log) (saveOauthState id.text (now + minutes 10)) fun _ =>
        Saved id.text := by
  apply autocommit_web ((Abides.true.and (.mem _)).and (.mem _))
  rintro now' v e a hrun log pre ⟨⟨-, hid⟩, hnow⟩ - hrows
  obtain ⟨e', he, hb⟩ := Option.map_eq_some_iff.1 hrun
  cases hb
  obtain ⟨hnone, hwrites⟩ := Constraints.insertRow_spec he
  rw [hwrites] at hrows ⊢
  have hpre : pre.get ⟨.oauthStates, id.text⟩ = none :=
    (hrows _ (List.mem_singleton.2 rfl)).trans hnone
  refine ⟨.saved id now hj hid hnow hpre rfl, pre, _, List.mem_cons_self, ?_⟩
  rw [saves, hpre, Store.view_cons, Store.view_nil, Store.get_put_self]
  rfl

/-- The browser is sent away with a state that was saved. -/
theorem handleOauthStart_web (env : Env) (hj : j = .login .oauthStart) :
    WebLeads j (fun _ => True) (handleOauthStart env) fun page log => ∃ oauth id cookies,
      env.oauth = some oauth ∧ page = .found (oauth.authorizeUrl (Uuid.text id)) cookies ∧
      Saved id.text log := by
  rw [handleOauthStart]
  split
  case h_1 => exact .throw fun _ _ => trivial
  case h_2 oauth hoauth =>
  refine .bind (ask_web .true) fun id => .bind (ask_web (Abides.true.and (.mem _))) fun now => ?_
  exact .bind (.adapt _ (saveOauthState_web id now hj)) fun _ =>
    .pure fun log hsaved => ⟨oauth, id, _, hoauth, rfl, hsaved⟩

theorem takeOauthState_web (hj : j.brings = some state) (hquery : q.state = some state)
    (hcookie : (cookie.bind fun header => Moderation.cookieValue header oauthStateCookie) =
      some state.toList) :
    WebLeads j (fun _ => True) (takeOauthState state) fun taken log =>
      taken = true → Took q cookie state log ∧ 1 ≤ owed state log := by
  apply autocommit_web .true
  intro now v e a hrun log pre _ hnow hrows
  simp only at hrun
  split at hrun
  case isFalse =>
    cases hrun
    exact ⟨.other rfl rfl, by simp⟩
  case isTrue hany =>
    cases hrun
    obtain ⟨expiresAt, hrow, hfresh⟩ := (Option.any_eq_true _ _).1 hany
    have hpre : pre.get ⟨.oauthStates, state⟩ = some expiresAt :=
      (hrows _ (List.mem_singleton.2 rfl)).trans hrow
    have hgone : (pre.put ⟨⟨.oauthStates, state⟩, none⟩).get ⟨.oauthStates, state⟩ =
        none := Store.get_put_self _ _ _
    refine ⟨.taken state hj (by simp [hpre]) rfl, fun _ =>
      ⟨⟨hquery, hcookie, pre, _, now, expiresAt,
      List.mem_cons_of_mem _ hnow, hpre, of_decide_eq_true hfresh, hgone, List.mem_cons_self⟩,
        ?_⟩⟩
    have htakes : takes state pre (pre.put ⟨⟨.oauthStates, state⟩, none⟩) = true := by
      simp [takes, saves, hgone, hpre]
    have hno : opens pre (pre.put ⟨⟨.oauthStates, state⟩, none⟩) = false :=
      opens_eq_false fun sid hs => by
      rw [get_put_other (by simp), hs]
    show 1 ≤ owed state (.committed pre (pre.put ⟨⟨.oauthStates, state⟩, none⟩) :: log)
    rw [owed, htakes, hno]
    exact Nat.le_add_left 1 _

theorem ensureUser_web (hP : Abides Calm P) (userId : Uuid) (displayName : String) :
    WebLeads j P (ensureUser userId displayName) fun _ => P :=
  elsewhere_web hP fun _ _ _ _ hrun => upsert_elsewhere (by simp) hrun

/-- What is known of a callback once it knows its user. -/
def Ready (q : OauthCallbackQuery) (cookie : Option String) (state : String) (userId : Uuid)
    (displayName : String) (log : Log) : Prop :=
  (Took q cookie state log ∧ 1 ≤ owed state log) ∧ Identified q userId displayName log

theorem Ready.abides (q : OauthCallbackQuery) (cookie : Option String)
    (state : String) (userId : Uuid) (displayName : String) :
    Abides Calm (Ready q cookie state userId displayName) :=
  ((took_abides q cookie state).and (owed_abides state 1)).and
    (identified_abides q userId displayName)

theorem createWebSession_web (hj : j = .login (.oauthCallback q cookie)) (now : Time) :
    WebLeads j (fun log => (Ready q cookie state userId displayName log ∧
        .answered .newUuid sid ∈ log) ∧ .answered .utcNow now ∈ log)
      (createWebSession sid userId displayName (now + minutes (14 * 24 * 60))) fun _ _ => True := by
  apply autocommit_web (((Ready.abides _ _ _ _ _).and (.mem _)).and (.mem _))
  rintro now' v e a hrun log pre ⟨⟨⟨⟨htook, howed⟩, huser⟩, hid⟩, hnow⟩ - hrows
  obtain ⟨e', he, hb⟩ := Option.map_eq_some_iff.1 hrun
  cases hb
  obtain ⟨hnone, hwrites⟩ := Constraints.insertRow_spec he
  rw [hwrites] at hrows ⊢
  refine ⟨.opened sid ⟨userId, displayName, now + minutes (14 * 24 * 60)⟩
    ⟨q, cookie, state, now, hj, htook, huser, hid, hnow, rfl⟩ ?_
    ((hrows _ (List.mem_singleton.2 rfl)).trans hnone) rfl, trivial⟩
  intro state' hstate'
  obtain ⟨hquery, -⟩ := htook
  rw [hj] at hstate'
  obtain rfl : state = state' := Option.some.inj (hquery.symm.trans hstate')
  exact howed

theorem finishOauth_web (oauth : TmOauthConfig) {code : String}
    (hj : j = .login (.oauthCallback q cookie)) (hcode : q.code = some code)
    (hquery : q.state = some state)
    (hcookie : (cookie.bind fun header => Moderation.cookieValue header oauthStateCookie) =
      some state.toList) :
    WebLeads j (fun _ => True) (finishOauth env oauth code state) fun _ _ => True := by
  rw [finishOauth]
  have hbrings : j.brings = some state := by rw [hj]; exact hquery
  refine .bind (.adapt _ (takeOauthState_web hbrings hquery hcookie)) fun taken => ?_
  cases taken with
  | false => exact .throw fun _ _ => trivial
  | true =>
    have htook := (took_abides q cookie state).and (owed_abides state 1)
    refine .bind (.pre (ask_web htook) fun log h => h rfl) fun rtoken => ?_
    refine .bind (M := fun token log => (Took q cookie state log ∧ 1 ≤ owed state log) ∧
      .answered (.exchangeCode code) (.ok token) ∈ log)
        (answered_web fun token he log h => he ▸ h) fun token => ?_
    refine .bind (ask_web (htook.and (.mem _))) fun ruser => ?_
    refine .bind (M := fun user log => ((Took q cookie state log ∧ 1 ≤ owed state log) ∧
      .answered (.exchangeCode code) (.ok token) ∈ log) ∧
        .answered (.fetchUser token.accessToken) (.ok user) ∈ log)
      (answered_web fun user he log h => he ▸ h) fun user => ?_
    split
    · exact .throw fun _ _ => trivial
    · next userId haccount =>
      have hready := Ready.abides q cookie state userId user.displayName
      refine .bind (.adapt _ (.pre (ensureUser_web hready userId user.displayName) ?_)) fun _ => ?_
      · rintro log ⟨⟨htook, htoken⟩, huser⟩
        exact ⟨htook, code, token, user.accountId, hcode, htoken, huser, haccount⟩
      refine .bind (ask_web hready) fun sessionId =>
        .bind (ask_web (hready.and (.mem _))) fun now => ?_
      exact .bind (.adapt _ (createWebSession_web hj now)) fun _ => .pure fun _ _ => trivial

theorem handleOauthCallback_web (hj : j = .login (.oauthCallback q cookie)) :
    WebLeads j (fun _ => True) (handleOauthCallback env q cookie) fun _ _ => True := by
  rw [handleOauthCallback]
  split
  · exact .throw fun _ _ => trivial
  split
  · exact .throw fun _ _ => trivial
  split
  · next oauth _ _ _ code state hcode hstate =>
    split
    · next hcookie => exact finishOauth_web oauth hj hcode hstate hcookie
    · exact .throw fun _ _ => trivial
  · exact .throw fun _ _ => trivial

theorem handleLogout_web (hj : j = .logout cookie) :
    WebLeads j (fun _ => True) (handleLogout cookie : Query ε _) fun _ _ => True := by
  have hdelete : ∀ id, logoutSession cookie = some id →
      WebLeads j (fun _ => True) (deleteWebSession id) fun _ _ => True := by
    intro id hid
    apply autocommit_web .true
    intro now v e a hrun log pre _ _ _
    simp only at hrun
    split at hrun
    · cases hrun
      exact ⟨.closed cookie id hj (by rw [← logoutSession_eq, hid]) rfl, trivial⟩
    · cases hrun
      exact ⟨.other rfl rfl, trivial⟩
  refine .bind (.attempt (Q := fun _ _ => True) ?_ fun _ _ _ => trivial) fun _ => .pure
    fun _ _ => trivial
  cases hid : logoutSession cookie with
  | none => exact .pure fun _ _ => trivial
  | some id => exact hdelete id hid

/-- The visit has read a session that was not over. -/
inductive Visited (cookie : Option String) (userId : Uuid) (displayName : String) (log : Log) : Prop
  | mk (sid : Uuid) (row : Moderation.WebSession) (now : Time) (v : Db)
      (hsid : Moderation.sessionId cookie = some sid) (huser : row.userId = userId)
      (hname : row.displayName = displayName) (hnow : .answered .now now ∈ log)
        (hopen : now < row.expiresAt)
      (hrow : v.get ⟨.webSessions, sid⟩ = some row)
        (hread : .read (.named "get_web_session") v ∈ log)

theorem sessionUser_web :
    WebLeads j (fun _ => True) (sessionUser cookie : Query ε _) fun user log =>
      ∀ userId displayName, user = some (userId, displayName) →
      Visited cookie userId displayName log := by
  rw [sessionUser]
  split
  · exact .pure fun _ _ _ _ he => by cases he
  · next sid hsid =>
    have hget : WebLeads j (fun _ => True) (getWebSession sid) fun user log =>
        ∀ userId displayName, user = some (userId, displayName) →
          Visited cookie userId displayName log := by
      refine .bind (ask_web .true) fun now => ?_
      refine Pool.readCommitted (fun _ _ _ _ => trivial)
        fun log v _ hlog _ _ _ userId displayName hu => ?_
      obtain ⟨row, hrow, he⟩ := Option.map_eq_some_iff.1 hu
      obtain ⟨hrow, hopen⟩ := Option.filter_eq_some_iff.1 hrow
      cases he
      exact ⟨sid, row, now, v, hsid, rfl, rfl, List.mem_cons_of_mem _ hlog.2,
        of_decide_eq_true hopen, hrow, List.mem_cons_self⟩
    refine .bind (.attempt hget fun _ _ _ => trivial) fun r =>
      .pure fun log h userId displayName he => ?_
    cases r with
    | error e => cases he
    | ok user => exact h.2 user rfl userId displayName he

/-! ## Every run -/

abbrev WebSystem := Sys Table.Key Table.Row Tag Ask.Ans Act.Out Unit WebJob WebAnswer

/-- A run, with its commits. -/
abbrev WebRun (env : Env) (s₀ : WebSystem) (es : List Commit) (s : WebSystem) : Prop :=
  Chronicle shared (WebJob.body env) (fun _ _ => True) s₀ es s

/-- A visit that knows its user has read it. -/
def Noticed (j : WebJob) (a : WebAnswer) (log : Log) : Prop :=
  ∀ cookie userId displayName, j = .visit cookie → a = .visitor (some (userId, displayName)) →
    Visited cookie userId displayName log

theorem page_web {j : Job} {x : Query Page Page}
    (hx : WebLeads (.login j) (fun _ => True) x fun _ _ => True) (db : Db) :
    Safe .free (fun _ _ => True) { commit := WebChange (.login j) } (fun _ _ _ => True)
      (page x) {} db :=
  (hx {} db trivial rfl rfl fun _ _ => trivial).bind (fun _ _ _ _ _ _ _ => trivial) trivial

theorem login_web (env : Env) (j : Job) (db : Db) :
    Safe .free (fun _ _ => True) { commit := WebChange (.login j) } (fun _ _ _ => True)
      (j.body env) {} db := by
  cases j with
  | plugin accountId displayName =>
      exact (registerOrLogin_web accountId displayName {} db trivial rfl rfl
        fun _ _ => trivial).bind
        (fun _ _ _ _ _ _ _ => trivial) trivial
  | oauthStart =>
      exact page_web (.weaken (handleOauthStart_web env rfl) (fun _ h => h)
        (fun _ h => h) fun _ _ _ => trivial) db
  | oauthCallback q cookie => exact page_web (handleOauthCallback_web rfl) db

theorem served_web {j : WebJob} {x : Query Empty α} {f : α → WebAnswer}
    {Q : α → Log → Prop} (hx : WebLeads j (fun _ => True) x Q)
    (hf : ∀ a log, Q a log → Noticed j (f a) log) (db : Db) :
    Safe .free (fun _ _ => True) { commit := WebChange j } (fun a l _ => Noticed j a l.log)
      (served x f) {} db := by
  refine (hx {} db trivial rfl rfl fun _ _ => trivial).bind ?_ trivial
  rintro r l db' - ⟨-, -, hres⟩ db'' hr
  cases r with
  | ok a => exact hf a l.log (hres db'' hr.nil)
  | error e => exact e.elim

theorem WebJob.safe (env : Env) (j : WebJob) (db : Db) :
    Safe .free (fun _ _ => True) { commit := WebChange j } (fun a l _ => Noticed j a l.log)
      (j.body env) {} db := by
  cases j with
  | login j =>
      exact (login_web env j db).bind
        (fun a l db' _ _ db'' _ cookie userId displayName hj => by cases hj) trivial
  | logout cookie => exact served_web (handleLogout_web rfl) (fun _ _ _ _ _ _ hj => by cases hj) db
  | visit cookie =>
      refine served_web (x := sessionUser cookie) sessionUser_web
        (fun user log h cookie' userId displayName hj ha => ?_) db
      cases hj
      exact h userId displayName (by cases ha; rfl)

/-- What comes waits, what goes waited. -/
theorem waiting_step (state : String) (pre post : Db) :
    waiting state post + (takes state pre post).toNat =
      waiting state pre + (saves state pre post).toNat := by
  cases hpre : pre.get ⟨.oauthStates, state⟩
    <;> cases hpost : post.get ⟨.oauthStates, state⟩ <;>
    simp [waiting, takes, saves, hpre, hpost]

namespace WebChange

variable {j : WebJob} {row : Moderation.WebSession}

theorem started (h : WebChange j log pre post) (hs : saves state pre post = true) :
    j = .login .oauthStart := by
  obtain ⟨hpre, hpost'⟩ := Bool.and_eq_true_iff.1 hs
  cases h with
  | saved id now hjob => exact hjob
  | other hstates hsessions =>
      rw [get_of_table hstates, Option.isNone_iff_eq_none.1 hpre] at hpost'
      cases hpost'
  | taken state' hstate hrow hpost =>
      by_cases he : state' = state
      · rw [hpost, he, Store.get_put_self] at hpost'
        cases hpost'
      · rw [hpost, Store.get_put_of_ne (by simpa using he), Option.isNone_iff_eq_none.1 hpre]
          at hpost'
        cases hpost'
  | opened sid row hin howed hnew hpost =>
      rw [hpost, get_put_other (by simp), Option.isNone_iff_eq_none.1 hpre] at hpost'
      cases hpost'
  | closed cookie sid hjob hsid hpost =>
      rw [hpost, get_put_other (by simp), Option.isNone_iff_eq_none.1 hpre] at hpost'
      cases hpost'

/-- What a commit does to one session. -/
theorem session (h : WebChange j log pre post) (sid : Uuid) :
    post.get ⟨.webSessions, sid⟩ = pre.get ⟨.webSessions, sid⟩ ∨
      (∃ row, pre.get ⟨.webSessions, sid⟩ = none ∧
        post.get ⟨.webSessions, sid⟩ = some row ∧ SignedIn j log sid row) ∨
      post.get ⟨.webSessions, sid⟩ = none ∧ ∃ cookie, j = .logout cookie ∧
      Moderation.sessionId cookie = some sid := by
  cases h with
  | other hstates hsessions => exact .inl (get_of_table hsessions sid)
  | saved id now hjob hid hnow hnew hpost =>
      rw [hpost]
      exact .inl (get_put_other (by simp))
  | taken state' hstate hrow hpost =>
      rw [hpost]
      exact .inl (get_put_other (by simp))
  | opened sid' row hin howed hnew hpost =>
      by_cases he : sid' = sid
      · subst he
        exact .inr (.inl ⟨row, hnew, by rw [hpost, Store.get_put_self], hin⟩)
      · rw [hpost]
        exact .inl (Store.get_put_of_ne (by simpa using he))
  | closed cookie sid' hjob hsid hpost =>
      by_cases he : sid' = sid
      · subst he
        exact .inr (.inr ⟨by rw [hpost, Store.get_put_self], cookie, hjob, hsid⟩)
      · rw [hpost]
        exact .inl (Store.get_put_of_ne (by simpa using he))

end WebChange

/-- What is known of the sessions after a run. -/
structure SessionsEarned (s₀ : WebSystem) (es : List Commit) (s : WebSystem) : Prop where
  /-- No more sessions are opened with a state than it was saved, by `oauth_start`. -/
  once : ∀ state, opened state es + waiting state s.db ≤ waiting state s₀.db + saved state es
  started : ∀ e ∈ es, ∀ state, saves state e.pre e.post = true → e.job = .login .oauthStart
  signedIn : ∀ e ∈ es, ∀ sid row, e.pre.get ⟨.webSessions, sid⟩ = none →
    e.post.get ⟨.webSessions, sid⟩ = some row → SignedIn e.job e.log sid row
  /-- A session stays as it is until a logout that names it. -/
  kept : ∀ e ∈ es, ∀ sid row, e.pre.get ⟨.webSessions, sid⟩ = some row →
    e.post.get ⟨.webSessions, sid⟩ = some row ∨
      e.post.get ⟨.webSessions, sid⟩ = none ∧ ∃ cookie, e.job = .logout cookie ∧
        Moderation.sessionId cookie = some sid
  /-- A visit is somebody's whose session its cookie names, and that session was opened and is not
  over. -/
  visited : ∀ t ∈ s.tasks, ∀ cookie userId displayName, t.job = .visit cookie →
    t.prog = .ret (.visitor (some (userId, displayName))) →
    ∃ sid row, Moderation.sessionId cookie = some sid ∧ row.userId = userId ∧
      row.displayName = displayName ∧
      (∃ now, .answered .now now ∈ t.loc.log ∧ now < row.expiresAt) ∧
      (s₀.db.get ⟨.webSessions, sid⟩ = some row ∨
        ∃ e ∈ es, e.pre.get ⟨.webSessions, sid⟩ = none ∧
          e.post.get ⟨.webSessions, sid⟩ = some row)

/-- In every run each session of the web pages was opened by a callback that took a state its
browser had, for the user that the code of that browser is of, and every saved state opens one
session at most. -/
theorem sessions_earned (env : Env) {s₀ s : WebSystem} {es : List Commit}
    (htasks : s₀.tasks = []) (h : WebRun env s₀ es s) : SessionsEarned s₀ es s := by
  have hchange : ∀ e ∈ es, WebChange e.job e.log e.pre e.post := fun e he =>
    (h.promised (fun j db _ => WebJob.safe env j db)
      (fun s _ _ => s.admits_true) trivial htasks e he).2
  refine ⟨fun state => ?_, fun e he state hs => (hchange e he).started hs, ?_, ?_, ?_⟩
  · have hspent : (s.tasks.map fun t => owed state t.loc.log).sum + opened state es ≤
        (es.map fun e => (takes state e.pre e.post).toNat).sum :=
      h.spent_le (fun _ => owed state) _ _ (fun _ => rfl)
        (fun _ ev log hev => by cases ev with
          | committed pre post => exact absurd rfl (hev pre post)
          | _ => rfl)
        htasks fun e he => (hchange e he).owed_le state
    have hstock : waiting state s.db + (es.map fun e => (takes state e.pre e.post).toNat).sum =
        waiting state s₀.db + saved state es :=
      h.stock (waiting state) _ _ fun e _ => waiting_step state e.pre e.post
    omega
  · intro e he sid row hnone hrow
    rcases (hchange e he).session sid with hsame | ⟨row', -, hrow', hin⟩ | ⟨hgone, -⟩
    · rw [hrow, hnone] at hsame
      cases hsame
    · obtain rfl : row' = row := Option.some.inj (hrow'.symm.trans hrow)
      exact hin
    · rw [hrow] at hgone
      cases hgone
  · intro e he sid row hrow
    rcases (hchange e he).session sid with hsame | ⟨row', hnone, -⟩ | hgone
    · exact .inl (hsame.trans hrow)
    · rw [hrow] at hnone
      cases hnone
    · exact .inr hgone
  · intro t ht cookie userId displayName hjob hret
    have hsound := (h.reachBy.reach fun s _ _ => s.admits_true).sound
      (fun j db _ => WebJob.safe env j db) trivial htasks
    obtain ⟨sid, row, now, v, hsid, huser, hname, hnow, hopen, hrow, hread⟩ :=
      hsound.ended ht hret cookie userId displayName hjob rfl
    refine ⟨sid, row, hsid, huser, hname, ⟨now, hnow, hopen⟩, ?_⟩
    obtain ⟨es', s', hsuf, hrun', rfl⟩ := h.read htasks ht hread
    refine (hrun'.origin (fun db => db.get ⟨.webSessions, sid⟩ = some row) hrow).imp id ?_
    rintro ⟨e, he, hpre, hpost⟩
    refine ⟨e, hsuf.mem he, ?_, hpost⟩
    rcases (hchange e (hsuf.mem he)).session sid with hsame | ⟨row', hnone, -⟩ | ⟨hgone, -⟩
    · exact absurd (hsame.symm.trans hpost) hpre
    · exact hnone
    · rw [hpost] at hgone
      cases hgone

/-- The answer is that the visitor is the user. -/
def WebAnswer.isOf (userId : Uuid) : WebAnswer → Bool
  | .visitor (some (u, _)) => u = userId
  | _ => false

namespace Sample

def visit : WebJob := .visit (some (Moderation.sessionCookie ++ "=" ++ Uuid.text 7))

end Sample

/-- User 1 signs in and visits the pages. -/
theorem sessions_earned_visit : ∃ (s₀ : WebSystem) (es : List Commit) (s : WebSystem),
    (∃ t ∈ s.tasks, t.job = Sample.visit ∧ t.prog.result.any (WebAnswer.isOf 1) = true) ∧
    SessionsEarned s₀ es s := by
  obtain ⟨s, hs, hvisit⟩ : ∃ s : WebSystem, Reach shared (WebJob.body Sample.web)
      (fun _ _ => True)
      { db := .empty, mem := () } s ∧
      ∃ t ∈ s.tasks, t.job = Sample.visit ∧ t.prog.result.any (WebAnswer.isOf 1) = true :=
    Reach.scripted [
      .start (.login .oauthStart), .go 0 20 (Sample.answers 0), .start (.login Sample.callback),
      .go 1 40 (Sample.answers 1), .start Sample.visit, .go 2 20 (Sample.answers 2)] (by
        decide +kernel)
  obtain ⟨es, hes⟩ := (hs.reachBy.mono (fun _ _ _ => trivial)).chronicle
  exact ⟨_, es, s, hvisit, sessions_earned Sample.web rfl hes⟩

end Dd2Server.Logins
