import Dd2Server.Moderation.Changes

/-!
# Every request commits what it may

By the rules for programs outside of transactions, with a fact about the log that lasts: what a
handler has read before it writes.
-/

namespace Dd2Server.Moderation

open ReadCommitted

variable {env : Env} {j : Job} {m : String} {u : Uuid} {ε ε' α β : Type} {P : Log → Prop}

/-- What a request owes, and the events the rules forget. -/
abbrev setting (j : Job) : Setting Table.Key Table.Row Tag Ask.Ans Act.Out where
  P := .free
  C _ _ := True
  G := { commit := Change j }
  plain := Plain

/-- A fact about the log alone. -/
abbrev Holds (P : Log → Prop) : Known := fun log _ => P log

/-- From `P` the query comes to `Q` of its result, and to an error where nothing is known. -/
abbrev Leads (j : Job) (P : Log → Prop) (x : Query ε α) (Q : α → Log → Prop) : Prop :=
  Pool (setting j) (fun _ => Holds fun _ => True) (Holds P) x fun a => Holds (Q a)

/-- From `P` the query comes back to `P`, with a result or an error. -/
def Keeps (j : Job) (P : Log → Prop) (x : Query ε α) : Prop :=
  Pool (setting j) (fun _ => Holds P) (Holds P) x fun _ => Holds P

theorem Keeps.leads {x : Query ε α} (h : Keeps j P x) : Leads j P x fun _ => P :=
  Pool.weaken h (fun _ _ _ hA => hA) (fun _ _ _ _ => trivial) fun _ _ _ hB => hB

theorem Leads.adapt {x : Query ε' α} {Q : α → Log → Prop} (f : ε' → ε)
    (h : Leads j P x Q) :
    Leads j P (x.adapt f) Q := Pool.adapt h

theorem Leads.bind {x : Query ε β} {f : β → Query ε α} {Q : β → Log → Prop}
    {R : α → Log → Prop} (hx : Leads j P x Q) (hf : ∀ b, Leads j (Q b) (f b) R) :
    Leads j P (x >>= f) R :=
  Pool.bind _ hx hf

theorem Leads.pre {x : Query ε α} {R : Log → Prop} {Q : α → Log → Prop} (h : Leads j R x Q)
    (hP : ∀ log, P log → R log) : Leads j P x Q :=
  Pool.weaken h (fun log _ _ hA => hP log hA) (fun _ _ _ hE => hE) fun _ _ _ hB => hB

/-- What is known besides the log. -/
theorem Leads.fact {p : Prop} {x : Query ε α} {Q : α → Log → Prop}
    (h : p → Leads j (fun _ => True) x Q) : Leads j (fun _ => p) x Q :=
  fun l db hinv hw hl hA => h (hA db (.refl hinv)) l db hinv hw hl fun _ _ => trivial

theorem Keeps.pure (a : α) : Keeps j P (Pure.pure a : Query ε α) := Pool.pure fun _ _ _ h => h

theorem Keeps.throw (e : ε) : Keeps j P (MonadExcept.throw e : Query ε α) :=
  Pool.throw fun _ _ _ h => h

theorem Keeps.bind {x : Query ε β} {f : β → Query ε α} (hx : Keeps j P x)
    (hf : ∀ b, Keeps j P (f b)) : Keeps j P (x >>= f) := Pool.bind _ hx hf

theorem Keeps.adapt {x : Query ε' α} (f : ε' → ε) (h : Keeps j P x) : Keeps j P (x.adapt f) :=
  Pool.adapt h

theorem Keeps.result (r : Except ε α) : Keeps j P (ExceptT.mk (.ret r) : Query ε α) :=
  Pool.ofExcept fun _ _ _ h => by cases r <;> exact h

theorem Keeps.attempt {x : Query ε' α} (h : Keeps j P x) :
    Keeps j P (attempt x : Query ε (Except ε' α)) :=
  Pool.weaken (Pool.attempt h) (fun _ _ _ hA => hA) (fun _ _ _ hE => hE) fun r _ _ hB => by
    cases r <;> exact hB

theorem Keeps.ask (hP : Lasting P) (q : Ask) : Keeps j P (askQ q : Query ε q.Ans) :=
  Pool.ask fun _ log _ _ h => hP.plain _ log trivial h

theorem Keeps.clock (hP : Lasting P) (a : Act) : Keeps j P (actQ a : Query ε a.Out) :=
  Pool.act (fun _ _ _ _ => trivial) fun o log _ _ h => hP.acted a o log h

theorem Keeps.read (hP : Lasting P) (tag : Tag) (f : Db → α) : Keeps j P (poolRead tag f) :=
  Pool.readCommitted (fun log _ _ h => hP.plain _ log trivial h)
    fun log _ _ _ _ _ h => hP.plain _ log trivial h

/-- A read, with what it saw. -/
theorem read_leads {tag : Tag} {f : Db → α} {Q : α → Log → Prop}
    (h : ∀ log db, P log → Q (f db) (.read tag db :: log)) : Leads j P (poolRead tag f) Q :=
  Pool.readCommitted (fun _ _ _ _ => trivial) fun log db _ hP _ _ _ => h log db hP

/-- A statement on its own: what it writes is a change, and its commit leads from `P` to `Q`. -/
theorem autocommit_pool {Q : Log → Prop} {s : Time → Sql β} (hP : Lasting P)
    (hs : ∀ now v e b, (s now).run v = some (e, b) → ∀ log pre, P log →
      Change j log pre (Store.view e.writes pre))
    (hQ : ∀ now pre post log, P log → lastSaw log = some (s now).tag →
      Q (.committed pre post :: log)) :
    Pool (setting j) (fun _ => Holds P) (Holds P) (autocommit s) fun _ => Holds Q := by
  apply Pool.transaction
  intro since db₀ hinv₀ hsince
  apply Ends.act fun _ _ => trivial
  intro log now hq
  have hlog : P (.acted .clock now :: log) := hP.acted .clock now log (hP.quiet hq hsince)
  refine Ends.query (fun log₁ db hq₁ _ => hP.plain _ log₁ trivial (hP.quiet hq₁ hlog))
    (fun log₁ v db hq₁ _ => hP.plain _ log₁ trivial (hP.quiet hq₁ hlog))
    fun log₁ ws db e b hq₁ hinv hA _ hrun => ?_
  have hlog₁ : P (.saw (s now).tag (Store.view ws db) :: log₁) :=
    hP.saw _ _ log₁ (hP.quiet hq₁ hlog)
  refine ⟨[], fun db v => v = Store.view e.writes db, by simp, fun db' _ hA' => by rw [hA'.1],
    ?_⟩
  refine Ends.commit (fun log₂ db' hq₂ _ => hP.plain _ log₂ trivial
    (hP.quiet hq₂ hlog₁)) ?_ ?_ ?_
  · exact fun db' v _ _ => .free _ _ _
  · rintro log₂ db' v hq₂ hinv' rfl
    exact hs now _ e b hrun log₂ db' (hP.quiet hq₂ hlog₁)
  · rintro log₂ db' v hq₂ hinv' rfl db'' -
    exact hQ now db' _ log₂ (hP.quiet hq₂ hlog₁) (Quiet.lastSaw hq₂)

/-- A statement that closes no window. -/
theorem Keeps.autocommit {s : Time → Sql β} (hP : Lasting P)
    (hfinal : ∀ now, (s now).tag.final = false)
    (hs : ∀ now v e b, (s now).run v = some (e, b) → ∀ log pre,
      Change j log pre (Store.view e.writes pre)) : Keeps j P (autocommit s) := by
  apply autocommit_pool hP (fun now v e b h log pre _ => hs now v e b h log pre)
  intro now pre post log h hsaw
  apply hP.commit pre post log _ h
  rw [hsaw]
  exact hfinal now

/-! ## The queries -/

theorem ensureUserReference_keeps (hP : Lasting P) (displayName : Option String) :
    Keeps j P (ensureUserReference u displayName) := by
  apply Keeps.autocommit hP fun _ => rfl
  intro now v e b h log pre
  obtain ⟨e', he, hr⟩ := Option.map_eq_some_iff.1 h
  cases hr
  rcases insertRow_writes he with hw | hw
  · rw [hw]
    exact .nothing
  · rw [hw]
    exact .user u _

theorem insertAuditEvent_keeps (hP : Lasting P) (actor : Uuid) (action : String)
    (mapUid : Option String) (target : Option Uuid) (detail : Value) :
    Keeps j P (insertAuditEvent actor action mapUid target detail) := by
  refine Keeps.bind (.ask hP _) fun id => ?_
  apply Keeps.autocommit hP fun _ => rfl
  intro now v e b h log pre
  obtain ⟨e', he, hr⟩ := Option.map_eq_some_iff.1 h
  cases hr
  rw [(Constraints.insertRow_spec he).2]
  exact .audit id _

theorem getWebSession_keeps (hP : Lasting P) (sid : Uuid) : Keeps j P (getWebSession sid) :=
  Keeps.bind (.clock hP _) fun _ => .read hP _ _

theorem sessionUser_keeps (hP : Lasting P) (cookie : Option String) :
    Keeps j P (sessionUser cookie : Query ε _) := by
  rw [sessionUser]
  split
  · exact .pure _
  · exact Keeps.bind (.attempt (getWebSession_keeps hP _)) fun _ => .pure _

theorem upsertMapMeta_keeps (hP : Lasting P) (author : Uuid) (name thumbnail : Option String) :
    Keeps j P (upsertMapMeta m author name thumbnail) := by
  apply Keeps.autocommit hP fun _ => rfl
  intro now v e b h log pre
  obtain ⟨e', he, hr⟩ := Option.map_eq_some_iff.1 h
  cases hr
  rw [Constraints.upsertRow_writes he]
  exact .metadata m _

theorem fetchMapMeta_keeps (hP : Lasting P) : Keeps j P (fetchMapMeta env m) := by
  rw [fetchMapMeta]
  split
  · refine Keeps.bind ?_ fun r => .adapt _ (upsertMapMeta_keeps hP _ _ _)
    exact Keeps.bind (.ask hP _) fun _ => Keeps.bind (.result _) fun _ =>
      Keeps.bind (.result _) fun _ => .pure _
  · refine Keeps.bind (.adapt _ (.read hP _ _)) fun row => ?_
    cases row with
    | some m => exact .pure _
    | none => exact .throw _

theorem ensureMapMeta_keeps (hP : Lasting P) : Keeps j P (ensureMapMeta env m) := by
  refine Keeps.bind (.adapt _ (.read hP _ _)) fun row => ?_
  cases row with
  | none => exact fetchMapMeta_keeps hP
  | some r =>
      refine Keeps.bind (.ask hP .utcNow) fun now => ?_
      split
      · exact .pure _
      · exact fetchMapMeta_keeps hP

theorem canModerateMap_keeps (hP : Lasting P) : Keeps j P (canModerateMap m u) := by
  refine Keeps.bind (.read hP _ _) fun isSm => ?_
  split
  · exact .pure _
  refine Keeps.bind (.read hP _ _) fun isAuthor => ?_
  split
  · exact .pure _
  · exact .read hP _ _

theorem requireModerator_keeps (hP : Lasting P) (cookie : Option String) :
    Keeps j P (requireModerator env m cookie) := by
  refine Keeps.bind (sessionUser_keeps hP _) fun user => ?_
  cases user with
  | none => exact .throw _
  | some r =>
      refine Keeps.bind (.attempt (ensureMapMeta_keeps hP)) fun _ =>
        Keeps.bind (.adapt _ (canModerateMap_keeps hP)) fun moderates => ?_
      split
      · exact .pure _
      · exact .throw _

theorem requireSuperMod_keeps (hP : Lasting P) (cookie : Option String) :
    Keeps j P (requireSuperMod env cookie) := by
  refine Keeps.bind (sessionUser_keeps hP _) fun user => ?_
  cases user with
  | none => exact .throw _
  | some r =>
      refine Keeps.bind (.adapt _ (.read hP _ _)) fun isSm => ?_
      split
      · exact .pure _
      · exact .throw _

theorem parseTarget_keeps (userId : String) : Keeps j P (parseTarget userId) := by
  rw [parseTarget]
  split
  · exact .pure _
  · exact .throw _

/-- The id of a request that is one. -/
theorem parseTarget_leads (userId : String) : Leads j (fun _ => True) (parseTarget userId)
    fun u _ => Uuid.parse userId.toList = some u := by
  rw [parseTarget]
  cases hu : Uuid.parse userId.toList with
  | some u => exact Pool.pure fun _ _ _ _ => rfl
  | none => exact Pool.throw fun _ _ _ h => h

theorem findTarget_keeps (hP : Lasting P) (notFound : String) (userId displayName : Option String) :
    Keeps j P (findTarget env notFound userId displayName) := by
  rw [findTarget.eq_def]
  split
  · exact parseTarget_keeps _
  · refine Keeps.bind (.adapt _ (.read hP _ _)) fun found => ?_
    cases found with
    | some u => exact .pure _
    | none => exact .throw _
  · exact .throw _

theorem runsMap_keeps (hP : Lasting P) : Keeps j P (runsMap m u : Query ε Bool) :=
  Keeps.bind (.attempt (.read hP _ _)) fun _ => Keeps.bind (.attempt (.read hP _ _))
    fun _ => .pure _

theorem parseBanExpiresAt_keeps (hP : Lasting P) (raw : Option String) :
    Keeps j P (parseBanExpiresAt env raw) := by
  rw [parseBanExpiresAt]
  split
  · exact .pure _
  split
  · exact .throw _
  refine Keeps.bind (.ask hP .utcNow) fun now => ?_
  split
  · exact .throw _
  · exact .pure _

/-! ## The writes the checks are made for -/

theorem isProtectedFromMapBan_leads : Leads j (fun _ => True) (isProtectedFromMapBan m u)
    fun r log => r = false → ∀ kind, opened (cleared kind m u) log = true := by
  refine Pool.bind (fun r => Holds fun log => r = false →
    opened (cleared .superMod m u) log = true) (read_leads fun log db _ hr => ?_) fun isSm => ?_
  · simp only [opened, cleared, Protection.covers, hr]
    simp
  split
  case isTrue h => exact Pool.pure fun _ _ _ _ hr => by cases hr
  case isFalse h =>
  have hsm := Bool.eq_false_iff.2 h
  refine Pool.bind (fun r => Holds fun log => r = false →
    opened (cleared .superMod m u) log = true ∧ opened (cleared .author m u) log = true)
    (read_leads fun log db hlog hr => ⟨?_, ?_⟩) fun isAuthor => ?_
  · simp [opened, hlog hsm]
  · simp only [opened, cleared, Protection.covers, hr]
    simp
  split
  case isTrue h => exact Pool.pure fun _ _ _ _ hr => by cases hr
  case isFalse h =>
  have hauthor := Bool.eq_false_iff.2 h
  refine read_leads fun log db hlog hr kind => ?_
  cases kind with
  | superMod => simp [opened, (hlog hauthor).1]
  | author => simp [opened, (hlog hauthor).2]
  | delegate =>
      simp only [opened, cleared, Protection.covers, hr]
      simp

theorem applyMapBan_leads {cookie : Option String} {body : CreateBanBody}
    (hj : j = .createBan m cookie body) (actor : Uuid) (reason message : String)
    (expiresAt : Option Time) :
    Leads j (fun log => ∀ kind, opened (cleared kind m u) log = true)
      (applyMapBan m u actor reason message expiresAt) fun _ _ => True := by
  have hP : Lasting fun log => ∀ kind, opened (cleared kind m u) log = true :=
    .forall fun kind => .opened _
  apply Pool.transaction
  intro since db₀ _ hsince
  apply Ends.act fun _ _ => trivial
  intro log now hq
  have hlog := hP.acted .clock now log (hP.quiet hq hsince)
  refine Ends.query (fun _ _ _ _ => trivial) (fun _ _ _ _ _ => trivial)
    fun log₁ ws db e b hq₁ _ _ _ hrun => ?_
  obtain ⟨e', he, hr⟩ := Option.map_eq_some_iff.1 hrun
  cases hr
  refine ⟨[], fun db v => v = db.put ⟨⟨.mapBans, (m, u)⟩,
    some (newBan actor reason message expiresAt now)⟩, by simp, fun db' _ hA' => ?_, ?_⟩
  · rw [hA'.1, Constraints.upsertRow_writes he]
    rfl
  have hlog₁ := hP.saw (.named "apply_map_ban") (Store.view ws db) log₁ (hP.quiet hq₁ hlog)
  refine Ends.query (fun _ _ _ _ => trivial) (fun _ _ _ _ _ => trivial)
    fun log₂ ws₂ db₂ e₂ b₂ hq₂ _ _ _ hrun₂ => ?_
  obtain ⟨e₂', he₂, hr⟩ := Option.map_eq_some_iff.1 hrun₂
  cases hr
  refine ⟨[], fun db v => v = (db.put ⟨⟨.mapBans, (m, u)⟩,
    some (newBan actor reason message expiresAt now)⟩).put ⟨⟨.mapUnofficial, (m, u)⟩,
    some { source := "ban", updatedAt := now, updatedBy := some actor }⟩, by simp,
    fun db' _ hA' => ?_, ?_⟩
  · rw [hA', Constraints.upsertRow_writes he₂]
    rfl
  have hlog₂ := hP.saw .markUnofficial (Store.view ws₂ db₂) log₂ (hP.quiet hq₂ hlog₁)
  refine Ends.commit (fun _ _ _ _ => trivial) ?_ ?_ fun _ _ _ _ _ _ _ _ => trivial
  · exact fun db' v _ _ => .free _ _ _
  · rintro log₃ db' v hq₃ hinv rfl
    exact .banned m u cookie body _ _ hj rfl (hP.quiet hq₃ hlog₂)

/-- The lift of an active ban, once its statements ran. -/
theorem lifted_commits {userId : String} {cookie : Option String} {keep c : Bool} {a : Uuid}
    {now : Time} {b : MapBan} {since : Log} {L : List (Lock Table.Key)}
    (hj : j = .liftBan m userId cookie keep) (hclears : c = true → keep = false)
    (hu : Uuid.parse userId.toList = some u) (hclock : lastClock since = some now)
    (hactive : b.isActive now = true) :
    Ends (setting j) since (fun _ _ _ => True) L
      (fun db v => db.get ⟨.mapBans, (m, u)⟩ = some b ∧
        v = Store.view (liftWrites m u (b.lifted a now) c) db)
      (do commitQ; return true) fun _ _ _ => True := by
  refine Ends.commit (fun _ _ _ _ => trivial) (fun db' v _ _ => .free _ _ _) ?_
    fun _ _ _ _ _ _ _ _ => trivial
  rintro log db v hq hinv ⟨hget, rfl⟩
  exact .lifted m userId u a cookie keep c b now hj hclears hu
    ((Quiet.lastClock hq).trans hclock) hget hactive

/-- The same when the mark is still to be cleared, if there is one. -/
theorem cleared_commits {userId : String} {cookie : Option String} {actor : Uuid} {now : Time}
    {b : MapBan} {since : Log} {L : List (Lock Table.Key)} (hj : j = .liftBan m userId cookie false)
    (hu : Uuid.parse userId.toList = some u) (hclock : lastClock since = some now)
    (hactive : b.isActive now = true) :
    Ends (setting j) since (fun _ _ _ => True) L
      (fun db v => db.get ⟨.mapBans, (m, u)⟩ = some b ∧
        v = Store.view (liftWrites m u (b.lifted actor now) false) db)
      (do sql (clearMarkStmt m u); commitQ; return true) fun _ _ _ => True := by
  refine Ends.query (fun _ _ _ _ => trivial) (fun _ _ _ _ _ => trivial)
    fun log ws db e _ hq _ _ _ hrun => ?_
  cases hrun
  have hclock' := (Quiet.lastClock hq).trans hclock
  rcases deleteRow_writes .mapUnofficial (m, u) (Store.view ws db) with hw | hw
  · refine ⟨L, _, fun x hx => List.mem_append_right _ hx, fun db' hrely hA' => ?_,
      lifted_commits (a := actor) (c := false) hj (by simp) hu hclock' hactive⟩
    rw [hw]
    exact hA'
  · refine ⟨L, _, fun x hx => List.mem_append_right _ hx, fun db' hrely hA' => ?_,
      lifted_commits (a := actor) (c := true) hj (fun _ => rfl) hu hclock' hactive⟩
    rw [hw, hA'.2]
    exact ⟨hA'.1, rfl⟩

theorem liftMapBan_leads {userId : String} {cookie : Option String} {keep : Bool}
    (hj : j = .liftBan m userId cookie keep) (hu : Uuid.parse userId.toList = some u)
    (actor : Uuid) : Leads j (fun _ => True) (liftMapBan m u actor keep) fun _ _ => True := by
  apply Pool.transaction
  intro since db₀ _ _
  apply Ends.act fun _ _ => trivial
  intro log now _
  refine Ends.query (fun _ _ _ _ => trivial) (fun _ _ _ _ _ => trivial)
    fun log₁ ws db e lifted hq₁ hinv hA _ hrun => ?_
  have hclock : lastClock log₁ = some now := Quiet.lastClock hq₁
  rw [hA.1] at hrun ⊢
  simp only [liftStmt] at hrun
  cases hban : liftable db m u now with
  | none =>
      -- no row to update: what is committed is what was there
      rw [hban] at hrun
      cases hrun
      refine ⟨[], fun db v => v = db, by simp, fun db' _ hA' => hA'.1, ?_⟩
      refine Ends.commit (fun _ _ _ _ => trivial) ?_ ?_ fun _ _ _ _ _ _ _ _ => trivial
      · exact fun db' v _ _ => .free _ _ _
      · rintro log₂ db' v hq₂ hinv' rfl
        exact .nothing
  | some b =>
      rw [hban] at hrun
      obtain ⟨e', he, hr⟩ := Option.map_eq_some_iff.1 hrun
      cases hr
      obtain ⟨hget, hactive⟩ := Option.filter_eq_some_iff.1 hban
      have hwrites := Constraints.upsertRow_writes he
      -- the `UPDATE` holds the row until the commit
      have hlock : ∃ x ∈ e.allLocks db, x.row = ⟨.mapBans, (m, u)⟩ ∧
          x.mode.exclusive = true :=
        ⟨_, List.mem_append_left _ (by rw [hwrites]; exact List.mem_cons_self), rfl,
          Write.lock_exclusive _ _⟩
      obtain ⟨x, hx, hrow, hmode⟩ := hlock
      refine ⟨[x], fun db v => db.get ⟨.mapBans, (m, u)⟩ = some b ∧
        v = Store.view (liftWrites m u (b.lifted actor now) false) db, ?_,
          fun db' hr hA' => ?_, ?_⟩
      · simpa using hx
      · obtain ⟨hA', -⟩ := hA'
        refine ⟨?_, by rw [hA', hwrites]; rfl⟩
        have hkeep := hr.row x (List.mem_append_left _ hx)
          (by rintro he; rw [he] at hmode; cases hmode)
        rw [hrow] at hkeep
        exact hkeep.trans hget
      · cases keep with
        | true => exact lifted_commits hj (by simp) hu hclock hactive
        | false => exact cleared_commits hj hu hclock hactive

theorem getActiveBan_leads : Leads j (fun _ => True) (getActiveBan m u)
    fun r log => r = none → opened (unbanned m u) log = true := by
  apply Pool.bind (fun now => Holds fun log => ∃ older, log = .acted .clock now :: older)
  · exact Pool.act (fun _ _ _ _ => trivial) fun now log _ _ _ => ⟨log, rfl⟩
  intro now
  refine read_leads fun log db hlog hr => ?_
  obtain ⟨older, rfl⟩ := hlog
  have hno : isBanned db now m u = false := by
    rw [isBanned, Option.any_eq_false]
    intro b hb
    rw [Option.filter_eq_none_iff] at hr
    exact Bool.eq_false_iff.2 (hr b hb)
  simp [opened, unbanned, hno]

theorem addDelegate_leads (actor : Uuid) :
    Leads j (fun log => opened (unbanned m u) log = true) (addDelegate m u actor)
    fun _ _ => True := by
  refine Pool.weaken (autocommit_pool (Q := fun _ => True) (.opened (unbanned m u)) ?_
    fun _ _ _ _ _ _ => trivial) (fun _ _ _ h => h) (fun _ _ _ _ => trivial) fun _ _ _ h => h
  intro now v e b h log pre hlog
  obtain ⟨e', he, hr⟩ := Option.map_eq_some_iff.1 h
  cases hr
  rcases insertRow_writes he with hw | hw
  · rw [hw]
    exact .nothing
  · rw [hw]
    exact .delegated m u _ hlog

theorem removeDelegate_leads : Leads j (fun _ => True) (removeDelegate m u) fun _ _ => True := by
  refine Keeps.leads (Keeps.autocommit .true (fun _ => rfl) ?_)
  intro now v e b h log pre
  cases h
  rcases deleteRow_writes .mapDelegates (m, u) v with hw | hw
  · rw [hw]
    exact .nothing
  · rw [hw]
    exact .undelegated m u

theorem addSuperMod_leads (actor : Uuid) :
    Leads j (fun _ => True) (addSuperMod u actor) fun _ _ => True := by
  refine Keeps.leads (Keeps.autocommit .true (fun _ => rfl) ?_)
  intro now v e b h log pre
  obtain ⟨e', he, hr⟩ := Option.map_eq_some_iff.1 h
  cases hr
  rcases insertRow_writes he with hw | hw
  · rw [hw]
    exact .nothing
  · rw [hw]
    exact .promoted u _

theorem countSuperMods_leads : Leads j (fun _ => True) countSuperMods
    fun n log => 2 ≤ n → opened counted log = true :=
  read_leads fun log db _ hn => by simp [opened, counted, hn]

theorem removeSuperMod_leads (hj : j.demotes = some u) :
    Leads j (fun log => opened counted log = true) (removeSuperMod u) fun _ _ => True := by
  refine Pool.weaken (autocommit_pool (Q := fun _ => True) (.opened counted) ?_
    fun _ _ _ _ _ _ => trivial) (fun _ _ _ h => h) (fun _ _ _ _ => trivial) fun _ _ _ h => h
  intro now v e b h log pre hlog
  cases h
  rcases deleteRow_writes .superMods u v with hw | hw
  · rw [hw]
    exact .nothing
  · rw [hw]
    exact .demoted u hj hlog

/-! ## The requests -/

theorem Leads.audit (actor : Uuid) (action : String) (mapUid : Option String)
    (target : Option Uuid) (detail : Value) :
    Leads j (fun _ => True) (do
      let _ ← attempt (insertAuditEvent actor action mapUid target detail)
      return okTrue : Query Reply Reply) fun _ _ => True :=
  Keeps.leads (Keeps.bind (.attempt (insertAuditEvent_keeps .true _ _ _ _ _)) fun _ => .pure _)

theorem banTarget_leads {cookie : Option String} {body : CreateBanBody}
    (hj : j = .createBan m cookie body) (actor : Uuid) (expiresAt : Option Time) (target : Uuid) :
    Leads j (fun _ => True) (banTarget env m body actor expiresAt target) fun _ _ => True := by
  refine Leads.bind (.adapt _ isProtectedFromMapBan_leads) fun isProtected => ?_
  split
  case isTrue => exact Leads.pre (Keeps.leads (.throw _)) fun _ _ => trivial
  case isFalse hclear =>
  have hP : Lasting fun log => ∀ kind, opened (cleared kind m target) log = true :=
    .forall fun kind => .opened _
  refine Leads.pre (R := fun log => ∀ kind, opened (cleared kind m target) log = true) ?_
    fun log h => h (Bool.eq_false_iff.2 hclear)
  refine Leads.bind (Keeps.leads (.adapt _ (ensureUserReference_keeps hP _))) fun _ => ?_
  exact Leads.bind (.adapt _ (applyMapBan_leads hj _ _ _ _)) fun _ => .audit _ _ _ _ _

theorem handleCreateBan_leads {cookie : Option String} {body : CreateBanBody}
    (hj : j = .createBan m cookie body) :
    Leads j (fun _ => True) (handleCreateBan env m cookie body) fun _ _ => True := by
  refine Leads.bind (Keeps.leads (requireModerator_keeps .true _)) fun actor => ?_
  split
  case isTrue => exact Keeps.leads (.throw _)
  case isFalse =>
  refine Leads.bind (Keeps.leads (.adapt _ (parseBanExpiresAt_keeps .true _))) fun expiresAt => ?_
  refine Leads.bind (Keeps.leads (findTarget_keeps .true _ _ _)) fun target => ?_
  exact banTarget_leads hj actor expiresAt target

theorem handleLiftBan_leads {userId : String} {cookie : Option String} {keep : Bool}
    (hj : j = .liftBan m userId cookie keep) :
    Leads j (fun _ => True) (handleLiftBan env m userId cookie keep) fun _ _ => True := by
  refine Leads.bind (Keeps.leads (requireModerator_keeps .true _)) fun actor => ?_
  refine Leads.bind (parseTarget_leads userId) fun target => Leads.fact fun hu => ?_
  refine Leads.bind (.adapt _ (liftMapBan_leads hj hu actor)) fun lifted => ?_
  split
  · exact .audit _ _ _ _ _
  · exact Keeps.leads (.throw _)

theorem delegateTarget_leads (displayName : Option String) (actor target : Uuid) :
    Leads j (fun _ => True) (delegateTarget env m displayName actor target) fun _ _ => True := by
  refine Leads.bind (.adapt _ getActiveBan_leads) fun ban => ?_
  cases ban with
  | some b => exact Leads.pre (Keeps.leads (.throw _)) fun _ _ => trivial
  | none =>
      refine Leads.pre (R := fun log => opened (unbanned m target) log = true) ?_ fun log h => h rfl
      refine Leads.bind (Keeps.leads (.adapt _ (ensureUserReference_keeps (.opened _) _)))
        fun _ => ?_
      exact Leads.bind (.adapt _ (addDelegate_leads _)) fun _ => .audit _ _ _ _ _

theorem handleAddDelegate_leads (cookie userId displayName : Option String) :
    Leads j (fun _ => True) (handleAddDelegate env m cookie userId displayName)
    fun _ _ => True := by
  refine Leads.bind (Keeps.leads (requireModerator_keeps .true _)) fun actor => ?_
  refine Leads.bind (Keeps.leads (runsMap_keeps .true)) fun runs => ?_
  split
  · refine Leads.bind (Keeps.leads (findTarget_keeps .true _ _ _)) fun target => ?_
    exact delegateTarget_leads _ _ _
  · exact Keeps.leads (.throw _)

theorem handleRemoveDelegate_leads (userId : String) (cookie : Option String) :
    Leads j (fun _ => True) (handleRemoveDelegate env m userId cookie) fun _ _ => True := by
  refine Leads.bind (Keeps.leads (requireModerator_keeps .true _)) fun actor => ?_
  refine Leads.bind (Keeps.leads (runsMap_keeps .true)) fun runs => ?_
  split
  · refine Leads.bind (Keeps.leads (parseTarget_keeps userId)) fun target => ?_
    exact Leads.bind (.adapt _ removeDelegate_leads) fun _ => .audit _ _ _ _ _
  · exact Keeps.leads (.throw _)

theorem handleAddSuperMod_leads (cookie userId displayName : Option String) :
    Leads j (fun _ => True) (handleAddSuperMod env cookie userId displayName) fun _ _ => True := by
  refine Leads.bind (Keeps.leads (requireSuperMod_keeps .true _)) fun actor => ?_
  refine Leads.bind (Keeps.leads (findTarget_keeps .true _ _ _)) fun target => ?_
  refine Leads.bind (Keeps.leads (.adapt _ (ensureUserReference_keeps .true _))) fun _ => ?_
  exact Leads.bind (.adapt _ (addSuperMod_leads _)) fun _ => .audit _ _ _ _ _

theorem handleRemoveSuperMod_leads {userId : String} {cookie : Option String}
    (hj : j = .removeSuperMod userId cookie) :
    Leads j (fun _ => True) (handleRemoveSuperMod env userId cookie) fun _ _ => True := by
  refine Leads.bind (Keeps.leads (requireSuperMod_keeps .true _)) fun actor => ?_
  refine Leads.bind (parseTarget_leads userId) fun target => Leads.fact fun hu => ?_
  refine Leads.bind (.adapt _ countSuperMods_leads) fun count => ?_
  split
  case isTrue => exact Leads.pre (Keeps.leads (.throw _)) fun _ _ => trivial
  case isFalse hcount =>
  refine Leads.pre (R := fun log => opened counted log = true) ?_ fun log h => h (by omega)
  refine Leads.bind (.adapt _ (removeSuperMod_leads (by rw [hj]; exact hu))) fun removed => ?_
  split
  · exact .audit _ _ _ _ _
  · exact Keeps.leads (.throw _)

/-! ## Every interleaving -/

/-- Nothing is asked of a request that ended. -/
theorem reply_safe {x : Query Reply Reply} (h : Leads j (fun _ => True) x fun _ _ => True)
    (db : Db) :
    Safe .free (fun _ _ => True) { commit := Change j } (fun _ _ _ => True) (reply x) {} db :=
  (h {} db trivial rfl rfl fun _ _ => trivial).bind (fun _ _ _ _ _ _ _ => trivial) trivial

theorem Job.safe (env : Env) (j : Job) (db : Db) :
    Safe .free (fun _ _ => True) { commit := Change j } (fun _ _ _ => True) (j.body env) {} db := by
  cases j with
  | createBan mapUid cookie body => exact reply_safe (handleCreateBan_leads rfl) db
  | liftBan mapUid userId cookie keep => exact reply_safe (handleLiftBan_leads rfl) db
  | addDelegate mapUid cookie userId name => exact reply_safe (handleAddDelegate_leads _ _ _) db
  | removeDelegate mapUid userId cookie => exact reply_safe (handleRemoveDelegate_leads _ _) db
  | addSuperMod cookie userId name => exact reply_safe (handleAddSuperMod_leads _ _ _) db
  | removeSuperMod userId cookie => exact reply_safe (handleRemoveSuperMod_leads rfl) db
  | timePasses d => exact fun _ _ => ⟨trivial, fun _ _ _ => trivial⟩

end Dd2Server.Moderation
