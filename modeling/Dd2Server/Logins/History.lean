import Dd2Server.Logins.Handlers
import Dd2Server.ReadCommitted.Alone
import Dd2Server.ReadCommitted.Conduct

/-!
# The history of display names

`register_or_login` adds a name to the history when it is not the name the account has.  The account
has a name the history lacks once the web login has set it, after a login of the plugin failed
between its two statements, and while such a login is between them.  Every login that does not meet
such an account leaves its name in the history.
-/

namespace Dd2Server.Logins

open ReadCommitted

variable {env : Env} {db db' : Db} {userId accountId : Uuid} {name displayName : String}
  {s₀ s s' : System} {ε ε' α β : Type}

/-! ## What is recorded -/

/-- The history has the name for the user. -/
def Recorded (db : Db) (userId : Uuid) (name : String) : Prop :=
  ∃ at_, db.get ⟨.displayNames, (userId, at_)⟩ = some name

theorem recorded_iff :
    Recorded db userId name ↔ ∃ p ∈ db.rows .displayNames, p.1.1 = userId ∧ p.2 = name := by
  constructor
  · rintro ⟨at_, h⟩
    exact ⟨((userId, at_), name), Store.mem_rows.2 h, rfl, rfl⟩
  · rintro ⟨⟨⟨u, at_⟩, r⟩, hp, rfl, rfl⟩
    exact ⟨at_, Store.mem_rows.1 hp⟩

instance : Decidable (Recorded db userId name) := decidable_of_iff' _ recorded_iff

/-- No row of the history is lost or changed. -/
def Lasting (db db' : Db) : Prop :=
  ∀ k name, db.get ⟨.displayNames, k⟩ = some name →
    db'.get ⟨.displayNames, k⟩ = some name

theorem Lasting.refl (db : Db) : Lasting db db := fun _ _ h => h

theorem Lasting.trans {a b c : Db} (h : Lasting a b) (h' : Lasting b c) : Lasting a c :=
  fun k name hk => h' k name (h k name hk)

theorem Recorded.lasting (h : Recorded db userId name) (hl : Lasting db db') :
    Recorded db' userId name := by
  obtain ⟨at_, hat⟩ := h
  exact ⟨at_, hl _ _ hat⟩

/-- The search of `register_or_login` does not find its own name on an account whose history lacks
it. -/
def FoundRecorded : Tag → Db → Prop
  | .findUser accountId displayName, v =>
      ∀ r, v.get ⟨.users, accountId⟩ = some r → r.displayName = displayName →
        Recorded v accountId displayName
  | .named _, _ => True

instance : ∀ tag v, Decidable (FoundRecorded tag v)
  | .findUser accountId displayName, v =>
      decidable_of_iff
        (((v.get ⟨.users, accountId⟩).all fun r =>
          r.displayName ≠ displayName || decide (Recorded v accountId displayName)) = true)
        ((Option.all_eq_true _ _).trans (by simp [FoundRecorded, imp_iff_not_or]))
  | .named _, _ => .isTrue trivial

/-! ## Every login keeps the history -/

/-- The logins leave each other the history. -/
def historyProtocol : Protocol Table.Key Table.Row where
  Inv _ := True
  stay := Lasting
  keep _ _ _ := True
  stay_refl := .refl
  stay_trans h h' := h.trans h'
  keep_refl _ _ := trivial
  keep_trans _ _ := trivial

/-- Nothing is known of the log. -/
abbrev setting : Setting Table.Key Table.Row Tag Ask.Ans Act.Out where
  P := historyProtocol
  C := FoundRecorded
  G := { commit := fun _ _ _ => True }
  plain _ := True

/-- From `A` the query comes to `B` of its result, or to an error. -/
abbrev Leads (A : Db → Prop) (x : Query ε α) (B : α → Db → Prop) : Prop :=
  Pool setting (fun _ _ _ => True) (fun _ db => A db) x fun a _ db => B a db

theorem Leads.pre {A A' : Db → Prop} {x : Query ε α} {B : α → Db → Prop} (h : Leads A x B)
    (hA : ∀ db, A' db → A db) : Leads A' x B :=
  Pool.weaken h (fun _ db _ => hA db) (fun _ _ _ _ => trivial) fun _ _ _ hB => hB

/-- What is known besides the rows. -/
theorem Leads.fact {p : Prop} {x : Query ε α} {B : α → Db → Prop}
    (h : p → Leads (fun _ => True) x B) : Leads (fun _ => p) x B :=
  fun l db hinv hw hl hA => h (hA db (.refl hinv)) l db hinv hw hl fun _ _ => trivial

/-- Where nothing is known before nothing is known after. -/
abbrev Keeps (x : Query ε α) : Prop := Leads (fun _ => True) x fun _ _ => True

/-- The statement adds to the history at most. -/
def Adds (s : Sql β) : Prop :=
  ∀ v e b, s.run v = some (e, b) → ∀ w ∈ e.writes, ∀ k, w.row = ⟨.displayNames, k⟩ →
    v.get ⟨.displayNames, k⟩ = none

theorem lasting_view {ws : List (Write Table.Key Table.Row)}
    (h : ∀ w ∈ ws, ∀ k, w.row = ⟨.displayNames, k⟩ →
      db.get ⟨.displayNames, k⟩ = none) : Lasting db (Store.view ws db) := by
  intro k name hk
  rw [Store.view_get_of_notMem db, hk]
  intro w hw he
  rw [h w hw k he] at hk
  cases hk

/-- A statement on its own.  A row it adds to the history stays free until the commit, by its
lock. -/
theorem autocommit_leads {A : Db → Prop} {B : β → Db → Prop} {s : Time → Sql β}
    (hadds : ∀ now, Adds (s now))
    (hB : ∀ now v e b, (s now).run v = some (e, b) → A v → ∀ db, A db →
      B b (Store.view e.writes db))
    (hlast : ∀ b db db', Lasting db db' → B b db → B b db') : Leads A (autocommit s) B := by
  apply Pool.transaction
  intro since db₀ _ hA₀
  apply Ends.ask
  intro log now _
  refine Ends.query (fun _ _ _ _ => trivial) (fun _ _ _ _ _ => trivial)
    fun log₁ ws db e b _ _ hA _ hrun => ?_
  obtain ⟨hv, hA⟩ := hA
  rw [hv] at hrun ⊢
  refine ⟨[], fun db v => Lasting db v ∧ B b v, by simp, fun db' hr hA' => ?_, ?_⟩
  · rw [hA'.1]
    refine ⟨lasting_view fun w hw k hk => ?_, hB now db e b hrun hA db' hA'.2⟩
    have hlock : w.lock db ∈ e.allLocks db ++ [] :=
      List.mem_append_left _ (List.mem_append_left _ (List.mem_map_of_mem hw))
    have hrow := hr.row (w.lock db) hlock (Mode.ne_keyShare (w.lock_exclusive db))
    rw [show (w.lock db).row = ⟨.displayNames, k⟩ from hk] at hrow
    exact hrow.trans (hadds now db e b hrun w hw k hk)
  · refine Ends.commit (fun _ _ _ _ => trivial) ?_ (fun _ _ _ _ _ _ => trivial) ?_
    · exact fun db v _ h => ⟨trivial, h.1, fun _ => .inr trivial⟩
    · exact fun _ db v _ _ h db' hr => hlast b v db' hr.stay h.2

theorem Leads.bind {A : Db → Prop} {x : Query ε β} {f : β → Query ε α}
    {B : β → Db → Prop} {B' : α → Db → Prop} (hx : Leads A x B)
    (hf : ∀ b, Leads (B b) (f b) B') : Leads A (x >>= f) B' :=
  Pool.bind _ hx hf

theorem Leads.adapt {A : Db → Prop} {x : Query ε' α} {B : α → Db → Prop} (f : ε' → ε)
    (h : Leads A x B) : Leads A (x.adapt f) B := Pool.adapt h

theorem Leads.pure {A : Db → Prop} {B : α → Db → Prop} {a : α}
    (h : ∀ db, A db → B a db) :
    Leads A (Pure.pure a : Query ε α) B := Pool.pure fun _ db _ => h db

theorem Leads.throw {A : Db → Prop} {B : α → Db → Prop} (e : ε) :
    Leads A (MonadExcept.throw e : Query ε α) B := Pool.throw fun _ _ _ _ => trivial

theorem Keeps.ask (q : Ask) : Keeps (askQ q : Query ε q.Ans) := Pool.ask fun _ _ _ _ _ => trivial

/-- A statement on its own that leaves the history alone. -/
theorem Keeps.autocommit {s : Time → Sql β}
    (h : ∀ now v e b, (s now).run v = some (e, b) →
      ∀ w ∈ e.writes, w.row.table ≠ .displayNames) : Keeps (autocommit s) :=
  autocommit_leads (fun now v e b hrun w hw _ hk => absurd (congrArg RowKey.table hk)
    (h now v e b hrun w hw))
    (fun _ _ _ _ _ _ _ _ => trivial) fun _ _ _ _ _ => trivial

/-! ## The plugin -/

/-- What is known of the account once it was looked for. -/
def Looked (accountId : Uuid) (displayName : String) (user : Option User) (db : Db) : Prop :=
  ∀ u, user = some u → u.webServicesUserId = accountId ∧
    (u.displayName = displayName → Recorded db accountId displayName)

/-- What is known once the account is stored. -/
def Stored (accountId : Uuid) (displayName : String) (r : User × Bool) (db : Db) : Prop :=
  r.1.webServicesUserId = accountId ∧ (r.2 = false → Recorded db accountId displayName)

theorem findUser_leads :
    Leads (fun _ => True)
      (attempt (sql (findUserStmt accountId displayName)) : Query ε (Except DbError (Option User)))
      fun r => Looked accountId displayName r.toOption.join := by
  have hread : Pool setting (fun _ _ _ => True) (fun _ _ => True)
      (sql (findUserStmt accountId displayName)) fun user _ =>
        Looked accountId displayName user := by
    refine Pool.read (fun v => ⟨_, rfl⟩) (fun _ _ _ _ => trivial) ?_
    intro log db user _ _ hC hrun db' hr _ u hu
    cases hrun
    obtain ⟨r, hrow, rfl⟩ := Option.map_eq_some_iff.1 hu
    exact ⟨rfl, fun hname => (hC r hrow hname).lasting hr.stay⟩
  refine Pool.weaken (Pool.attempt hread) (fun _ _ _ h => h) (fun _ _ _ h => h) fun r log db h => ?_
  cases r with
  | ok user => exact h
  | error e => exact fun u hu => nomatch hu

theorem upsert_adds {t : Table} {k : t.Key} {r : t.Row} {v : Db} {e : DbEffect} {b b' : β}
    (ht : t ≠ .displayNames)
    (h : (constraints.upsertRow t k r v).map (fun e => (e, b)) = some (e, b')) :
    ∀ w ∈ e.writes, w.row.table ≠ .displayNames := by
  obtain ⟨e', he, hb⟩ := Option.map_eq_some_iff.1 h
  cases hb
  rw [Constraints.upsertRow_writes he]
  exact fun w hw => List.mem_singleton.1 hw ▸ ht

theorem insert_adds {t : Table} {k : t.Key} {r : t.Row} {v : Db} {e : DbEffect} {b b' : β}
    (ht : t ≠ .displayNames)
    (h : (constraints.insertRow t k r v).map (fun e => (e, b)) = some (e, b')) :
    ∀ w ∈ e.writes, w.row.table ≠ .displayNames := by
  obtain ⟨e', he, hb⟩ := Option.map_eq_some_iff.1 h
  cases hb
  rw [(Constraints.insertRow_spec he).2]
  exact fun w hw => List.mem_singleton.1 hw ▸ ht

theorem updateUser_adds {now : Time} {v : Db} {e : DbEffect} {b : Unit}
    (h : (accounts.updateUserStmt accountId displayName now).run v = some (e, b)) :
    ∀ w ∈ e.writes, w.row.table ≠ .displayNames := by
  rcases Accounts.updateUserStmt_run h with rfl | he
  · exact fun w hw => nomatch hw
  · rw [Constraints.upsertRow_writes he]
    exact fun w hw => List.mem_singleton.1 hw ▸ (by simp)

theorem insertUser_adds {now : Time} {v : Db} {e : DbEffect} {user : User}
    (h : (accounts.insertUserStmt accountId displayName now).run v = some (e, user)) :
    ∀ w ∈ e.writes, w.row.table ≠ .displayNames := by
  rw [(Constraints.insertRow_spec (Accounts.insertUserStmt_run h).1).2]
  simp

theorem storeUser_leads (user : Option User) :
    Leads (Looked accountId displayName user) (accounts.storeUser accountId displayName user)
      (Stored accountId displayName) := by
  cases user with
  | some u =>
      refine Leads.bind (B := fun _ => Looked accountId displayName (some u)) ?_ fun _ => ?_
      · refine autocommit_leads ?_ ?_ ?_
        · exact fun now v e b h w hw k hk => absurd (congrArg RowKey.table hk)
            (updateUser_adds h w hw)
        · intro now v e b h _ db hA u' hu
          refine ⟨(hA u' hu).1, fun hname => ((hA u' hu).2 hname).lasting
            (lasting_view fun w hw k hk => ?_)⟩
          exact absurd (congrArg RowKey.table hk) (updateUser_adds h w hw)
        · exact fun _ db db' hl h u' hu =>
            ⟨(h u' hu).1, fun hname => ((h u' hu).2 hname).lasting hl⟩
      · refine Leads.pure fun db h => ⟨(h u rfl).1, fun hnew => (h u rfl).2 ?_⟩
        simpa using hnew
  | none =>
      refine Leads.bind (B := fun u _ => u.webServicesUserId = accountId) ?_ fun u => ?_
      · refine autocommit_leads ?_ ?_ fun _ _ _ _ h => h
        · exact fun now v e b h w hw k hk => absurd (congrArg RowKey.table hk)
            (insertUser_adds h w hw)
        · intro now v e b h _ db _
          rw [(Accounts.insertUserStmt_run h).2]
      · exact Leads.pure fun db h => ⟨h, fun hno => nomatch hno⟩

theorem insertDisplayName_leads :
    Leads (fun _ => True) (autocommit (accounts.insertDisplayNameStmt displayName userId))
      fun _ db => Recorded db userId displayName := by
  refine autocommit_leads ?_ ?_ fun _ _ _ hl h => h.lasting hl
  · intro now v e b h w hw k hk
    obtain ⟨hfree, hwrites⟩ := Constraints.insertRow_spec (Accounts.insertDisplayNameStmt_run h)
    rw [hwrites] at hw
    obtain rfl := List.mem_singleton.1 hw
    cases hk
    exact hfree
  · intro now v e b h _ db _
    refine ⟨now, ?_⟩
    rw [(Constraints.insertRow_spec (Accounts.insertDisplayNameStmt_run h)).2]
    exact Store.get_put_self db ⟨.displayNames, (userId, now)⟩ (some displayName)

theorem registerOrLogin_leads :
    Leads (fun _ => True) (registerOrLogin accountId displayName)
      fun _ db => Recorded db accountId displayName := by
  refine Leads.bind findUser_leads fun found => Leads.bind (storeUser_leads _) fun r => ?_
  obtain ⟨user, insertName⟩ := r
  cases insertName with
  | true =>
      have hinsert : user.webServicesUserId = accountId → Leads (fun _ => True)
          (do
            autocommit (accounts.insertDisplayNameStmt displayName user.webServicesUserId)
            return user)
          fun _ db => Recorded db accountId displayName := by
        rintro rfl
        exact insertDisplayName_leads.bind fun _ => Leads.pure fun _ h => h
      exact (Leads.fact hinsert).pre fun _ h => h.1
  | false => exact Leads.pure fun db h => h.2 rfl

/-! ## The web pages -/

theorem Keeps.bind {x : Query ε β} {f : β → Query ε α} (hx : Keeps x)
    (hf : ∀ b, Keeps (f b)) :
    Keeps (x >>= f) := Leads.bind hx hf

theorem Keeps.pure (a : α) : Keeps (Pure.pure a : Query ε α) := Leads.pure fun _ _ => trivial

theorem Keeps.throw (e : ε) : Keeps (MonadExcept.throw e : Query ε α) := Leads.throw e

theorem answered_keeps {f : ε → Page} (r : Except ε α) : Keeps (answered f r) := by
  cases r with
  | ok a => exact .pure a
  | error e => exact .throw (f e)

theorem saveOauthState_keeps (state : String) (expiresAt : Time) :
    Keeps (saveOauthState state expiresAt) :=
  .autocommit fun _ _ _ _ h => insert_adds (by decide) h

theorem takeOauthState_keeps (state : String) : Keeps (takeOauthState state) := by
  refine .autocommit fun now v e b h => ?_
  dsimp only at h
  split at h
  · cases h
    intro w hw
    rw [List.mem_singleton.1 hw]
    exact fun he => nomatch he
  · cases h
    exact fun w hw => nomatch hw

theorem ensureUser_keeps (userId : Uuid) (displayName : String) :
    Keeps (ensureUser userId displayName) :=
  .autocommit fun _ _ _ _ h => upsert_adds (by decide) h

theorem createWebSession_keeps (sessionId userId : Uuid) (displayName : String) (expiresAt : Time) :
    Keeps (createWebSession sessionId userId displayName expiresAt) :=
  .autocommit fun _ _ _ _ h => insert_adds (by decide) h

theorem handleOauthStart_keeps (env : Env) : Keeps (handleOauthStart env) := by
  rw [handleOauthStart]
  split
  · exact .throw _
  · exact (Keeps.ask .newUuid).bind fun id => (Keeps.ask .utcNow).bind fun now =>
      ((saveOauthState_keeps _ _).adapt _).bind fun _ => Keeps.pure _

theorem finishOauth_keeps (env : Env) (oauth : TmOauthConfig) (code state : String) :
    Keeps (finishOauth env oauth code state) := by
  refine ((takeOauthState_keeps state).adapt _).bind fun taken => ?_
  split
  case isFalse => exact .throw _
  case isTrue =>
    refine (Keeps.ask (.exchangeCode code)).bind fun r => (answered_keeps r).bind fun token => ?_
    refine (Keeps.ask (.fetchUser token.accessToken)).bind fun r =>
      (answered_keeps r).bind fun user => ?_
    split
    · exact .throw _
    · exact ((ensureUser_keeps _ _).adapt _).bind fun _ => (Keeps.ask .newUuid).bind fun id =>
        (Keeps.ask .utcNow).bind fun now => ((createWebSession_keeps _ _ _ _).adapt _).bind
          fun _ => Keeps.pure _

theorem handleOauthCallback_keeps (env : Env) (q : OauthCallbackQuery) (cookie : Option String) :
    Keeps (handleOauthCallback env q cookie) := by
  rw [handleOauthCallback]
  split
  · exact .throw _
  split
  · exact .throw _
  split
  · split
    · exact finishOauth_keeps _ _ _ _
    · exact .throw _
  · exact .throw _

/-! ## Every run -/

/-- A login of the plugin that returned left its name in the history. -/
def Finished (j : Job) (a : Answer) (db : Db) : Prop :=
  ∀ accountId displayName user, j = .plugin accountId displayName → a = .user (.ok user) →
    Recorded db accountId displayName

/-- The states of the interleavings whose statements meet `C`. -/
abbrev RunOf (env : Env) (C : Tag → Db → Prop) (s s' : System) : Prop :=
  Reach shared (Job.body env) C s s'

/-- The states of all interleavings. -/
abbrev Run (env : Env) (s s' : System) : Prop := RunOf env (fun _ _ => True) s s'

theorem page_safe {x : Query Page Page} {j : Job} (hx : Keeps x) (hj : ∀ u n, j ≠ .plugin u n)
    (db : Db) :
    Safe historyProtocol FoundRecorded { commit := fun _ _ _ => True }
      (fun a _ db => Finished j a db) (page x) {} db := by
  refine (hx {} db trivial rfl rfl fun _ _ => trivial).bind ?_ trivial
  exact fun r l db' _ _ db'' _ u n user he => absurd he (hj u n)

theorem Job.safe (env : Env) (j : Job) (db : Db) :
    Safe historyProtocol FoundRecorded { commit := fun _ _ _ => True }
      (fun a _ db => Finished j a db) (j.body env) {} db := by
  cases j with
  | plugin accountId displayName =>
      refine (registerOrLogin_leads {} db trivial rfl rfl fun _ _ => trivial).bind ?_ trivial
      rintro r l db' - ⟨-, -, hres⟩ db'' hr u n user hj ha
      cases hj
      cases ha
      exact hres db'' hr.nil
  | oauthStart => exact page_safe (handleOauthStart_keeps env) (by simp) db
  | oauthCallback q cookie => exact page_safe (handleOauthCallback_keeps env q cookie) (by simp) db

def Answer.isOk : Answer → Bool
  | .user (.ok _) => true
  | _ => false

/-- A login of the plugin under the name has returned `Ok`. -/
def Returned (s : System) (accountId : Uuid) (displayName : String) : Prop :=
  ∃ t ∈ s.tasks, t.job = .plugin accountId displayName ∧ t.prog.result.any Answer.isOk = true

instance : Decidable (Returned s accountId displayName) :=
  inferInstanceAs (Decidable (∃ t ∈ s.tasks,
    t.job = .plugin accountId displayName ∧ t.prog.result.any Answer.isOk = true))

/-- Every name under which a login of the plugin has returned is in the history from then on. -/
def KeepsNames (env : Env) (C : Tag → Db → Prop) (db₀ : Db) : Prop :=
  ∀ s s', RunOf env C (.on db₀) s → RunOf env C s s' → ∀ accountId displayName,
    Returned s accountId displayName → Recorded s'.db accountId displayName

theorem keepsNames (env : Env) (db₀ : Db) : KeepsNames env FoundRecorded db₀ := by
  rintro s s' h h' accountId displayName ⟨t, ht, hjob, hret⟩
  have hsound := h.sound (fun j db _ => Job.safe env j db) trivial rfl
  cases hr : t.prog.result with
  | none => simp [hr] at hret
  | some a =>
      rw [hr] at hret
      cases a with
      | page p => cases hret
      | user r =>
          cases r with
          | error e => cases hret
          | ok user =>
              have hnow : Recorded s.db accountId displayName :=
                hsound.ended ht (Prog.result_eq_some.1 hr) _ _ user hjob rfl
              exact hnow.lasting (h'.stays (fun j db _ => Job.safe env j db) hsound).2

/-! ## A name the history lacks -/

/-- A statement on its own, when nobody else is there. -/
theorem autocommit_alone {f : (q : Ask) → q.Ans} {s : Time → Sql β} {e : DbEffect} {b : β}
    (h : (s (f .now)).run db = some (e, b)) :
    (autocommit s).run.alone f [] db = some (.ok b, [], Store.view e.writes db) := by
  have hrun : (autocommit s).run.alone f [] db =
      ((query .database (s (f .now)) >>= fun r =>
        (do commitQ; return r : Query DbError β)).run.bind fun r =>
        .rollback (.ret r)).alone f [] db := rfl
  rw [hrun, Prog.alone_bind, Prog.alone_seq (Prog.alone_query h), List.append_nil]
  rfl

theorem login_alone {r : UserRow} (f : (q : Ask) → q.Ans)
    (h : db.get ⟨.users, accountId⟩ = some r) (hlen : r.displayName.length ≤ 75) :
    ((Job.plugin accountId r.displayName).body env).alone f [] db =
      some (.user (.ok ⟨accountId, r.displayName⟩), [],
        db.put ⟨⟨.users, accountId⟩, some ⟨r.displayName, f .now⟩⟩) := by
  have hfind : (attempt (sql (findUserStmt accountId r.displayName)) : Query DbError _).run.alone f
      [] db =
      some (.ok (.ok (some ⟨accountId, r.displayName⟩)), [], db) := by
    have hrow : (some ⟨accountId, r.displayName⟩ : Option User) =
        (db.get ⟨.users, accountId⟩).map fun r => ⟨accountId, r.displayName⟩ := by
          rw [h]; rfl
    rw [hrow]
    rfl
  have hupdate : (accounts.updateUserStmt accountId r.displayName (f .now)).run db =
      some ({ writes := [⟨⟨.users, accountId⟩, some ⟨r.displayName, f .now⟩⟩] },
        ()) := by
    simp [Accounts.updateUserStmt, accounts, h, Constraints.upsertRow, constraints, Table.check,
      Table.parents, hlen]
  have hstore : (accounts.storeUser accountId r.displayName
      (some ⟨accountId, r.displayName⟩)).run.alone f [] db =
      some (.ok (⟨accountId, r.displayName⟩, false), [],
        db.put ⟨⟨.users, accountId⟩, some ⟨r.displayName, f .now⟩⟩) := by
    have halone : (accounts.autocommit (accounts.updateUserStmt accountId r.displayName)).run.alone
        f [] db =
        some (.ok (), [], db.put ⟨⟨.users, accountId⟩, some ⟨r.displayName, f .now⟩⟩) :=
          autocommit_alone hupdate
    rw [Accounts.storeUser, Prog.alone_seq halone, decide_eq_false (by simp)]
    rfl
  have hlogin : (registerOrLogin accountId r.displayName).run.alone f [] db =
      some (.ok ⟨accountId, r.displayName⟩, [],
        db.put ⟨⟨.users, accountId⟩, some ⟨r.displayName, f .now⟩⟩) := by
    rw [registerOrLogin, Accounts.registerOrLogin]
    exact (Prog.alone_seq hfind _).trans (Prog.alone_seq hstore _)
  rw [Job.body, Prog.alone_bind, hlogin]
  rfl

/-- A world outside that answers nothing of use. -/
def silent : (q : Ask) → q.Ans
  | .now => 0
  | .utcNow => 0
  | .newUuid => 0
  | .exchangeCode _ => .error ""
  | .fetchUser _ => .error ""

/-- Where the history lacks the name of an account, a login under that name returns and leaves it
so. -/
theorem not_keepsNames {r : UserRow} (hrow : db.get ⟨.users, accountId⟩ = some r)
    (hlen : r.displayName.length ≤ 75) (hno : ¬Recorded db accountId r.displayName) :
    ¬KeepsNames env (fun _ _ => True) db := by
  intro hall
  have hstart : Run env (.on db) (Sys.solo db () (.plugin accountId r.displayName)
      ((Job.plugin accountId r.displayName).body env) {}) :=
    Reach.step (m := .start (.plugin accountId r.displayName)) .init trivial rfl
  obtain ⟨n, l, hgo⟩ : ∃ n l, (Sys.solo db () (.plugin accountId r.displayName)
      ((Job.plugin accountId r.displayName).body env) {}).go shared (Job.body env) silent 0 n =
        some (Sys.solo _ () (.plugin accountId r.displayName)
          (.ret (.user (.ok ⟨accountId, r.displayName⟩))) l) :=
    Sys.go_alone (login_alone silent hrow hlen)
  have hrun := hstart.go hgo
  obtain ⟨at_, hat⟩ := hall _ _ hrun .init accountId r.displayName
    ⟨_, List.mem_singleton.2 rfl, rfl, rfl⟩
  refine hno ⟨at_, ?_⟩
  rw [← hat]
  exact (Store.get_put_of_ne (by simp)).symm

/-- The account has a name the history lacks. -/
def Unrecorded (db : Db) : Prop :=
  ∃ accountId r, db.get ⟨.users, accountId⟩ = some r ∧ r.displayName.length ≤ 75 ∧
    ¬Recorded db accountId r.displayName

/-- Where no search finds its own name on an account whose history lacks it, every name under which
a login returned is recorded.  From a database with such an account one login leaves a name out. -/
theorem display_names_recorded (env : Env) (db₀ : Db) :
    KeepsNames env FoundRecorded db₀ ∧
    (Unrecorded db₀ → ¬KeepsNames env (fun _ _ => True) db₀) :=
  ⟨keepsNames env db₀, fun ⟨_, _, hrow, hlen, hno⟩ => not_keepsNames hrow hlen hno⟩

namespace Sample

def web : Env where
  oauth := some { clientId := "c", redirectUri := "https://example.test/api/mod/oauth/callback" }
  sqlxText _ := "error"
  uuidText _ := "invalid"

/-- The world outside: the web login is of user 1, whose name is `a`. -/
def answers (now : Time) : (q : Ask) → q.Ans
  | .now => now
  | .utcNow => now
  | .newUuid => 7
  | .exchangeCode _ => .ok ⟨"token"⟩
  | .fetchUser _ => .ok ⟨"00000000000000000000000000000001", "a"⟩

/-- The browser comes back with its state. -/
def callback : Job :=
  .oauthCallback { code := some "code", state := some (Uuid.text 7), error := none }
    (some (oauthStateCookie ++ "=" ++ Uuid.text 7))

end Sample

/-- A user is renamed and logs in once more. -/
theorem display_names_recorded_renamed :
    ∃ s, RunOf Sample.web FoundRecorded (.on .empty) s ∧ Returned s 1 "b" ∧
    Recorded s.db 1 "b" := by
  have hrun : ∃ s, ReachBy shared (Job.body Sample.web) (fun s m => s.Admits FoundRecorded m)
      (System.on .empty) s ∧ Returned s 1 "b" :=
    ReachBy.scriptedBy [
      .start (.plugin 1 "a"), .go 0 20 (Sample.answers 0), .start (.plugin 1 "b"),
      .go 1 20 (Sample.answers 1), .start (.plugin 1 "b"), .go 2 20 (Sample.answers 2)] (by
        decide +kernel)
  obtain ⟨s, hs, hret⟩ := hrun
  have hreach := hs.reach fun _ _ h => h
  exact ⟨s, hreach, hret,
    (display_names_recorded Sample.web .empty).1 s s hreach .init 1 "b" hret⟩

/-- A user comes by the web pages first, and by the plugin after that. -/
theorem web_login_unrecorded : ¬∀ env db₀, KeepsNames env (fun _ _ => True) db₀ := by
  intro hall
  obtain ⟨s, hs, hret, hno⟩ : ∃ s, Run Sample.web (.on .empty) s ∧ Returned s 1 "a" ∧
      ¬Recorded s.db 1 "a" :=
    Reach.scripted [
      .start .oauthStart, .go 0 20 (Sample.answers 0), .start Sample.callback,
      .go 1 40 (Sample.answers 1), .start (.plugin 1 "a"), .go 2 20 (Sample.answers 2)] (by
        decide +kernel)
  exact hno (hall Sample.web .empty s s hs .init 1 "a" hret)

end Dd2Server.Logins
