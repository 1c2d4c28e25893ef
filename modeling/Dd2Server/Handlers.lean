import Dd2Server.AuthoritativeBind
import Dd2Server.CommentBind
import Dd2Server.HatTransactions
import Dd2Server.SpecTransactions

/-!
# Request tasks as programs

What each job promises at its commits, and what is known of a task that ended: `Job.Promised` and
`Job.Ended`.  `Job.safe` collects the rules of the transactions into one statement about all bodies.
-/

namespace Dd2Server

open ReadCommitted

/-! ## What the others are told -/

/-- The others were told of each hat that came off. -/
def Announced (m : String) (newer : Log) (pre post : Db) : Prop :=
  ∀ u e, pre.get ⟨.hatEquipped, (u, m)⟩ = some e →
    post.get ⟨.hatEquipped, (u, m)⟩ = none →
    ∃ hats, .acted (.broadcastToMap m hats) () ∈ newer ∧
      ∃ x ∈ hats, x.wsid = u.text ∧ x.slug = ""

/-- Nobody was told anything. -/
def Silent (newer : Log) : Prop := ∀ m hats, .acted (.broadcastToMap m hats) () ∉ newer

/-- The log has one commit, with `newer` after it. -/
structure OneCommit (newer : Log) (pre post : Db) (older : Log) (log : Log) : Prop where
  log_eq : log = newer ++ .committed pre post :: older
  before : Uncommitted older
  after : Uncommitted newer

theorem OneCommit.cons {newer older log : Log} {pre post : Db} {ev : LogEvent}
    (h : OneCommit newer pre post older log) (hev : ∀ pre post, ev ≠ .committed pre post) :
    OneCommit (ev :: newer) pre post older (ev :: log) :=
  ⟨by rw [h.log_eq]; rfl, h.before, h.after.cons fun pre post he => absurd he (hev pre post)⟩

/-- An author-present bind that ended well: it did nothing, or committed and told the others. -/
def BindReply (m : String) : Known Table.Key Table.Row Tag Ask.Ans Act.Out := fun log _ =>
  Uncommitted log ∨ ∃ newer pre post older, OneCommit newer pre post older log ∧
    Announced m newer pre post

/-- A request 81 that failed. -/
def ReportFailed (pg : Pg) (w : Scope) (u : Uuid) (m : String) (specId : Int) :
    ApiError → Known Table.Key Table.Row Tag Ask.Ans Act.Out
  | .db => fun log _ => Uncommitted log
  | .str e => AuthoritativeFailed pg w u m specId e

/-- A bind by comment that committed: the others were told when the locked binding named another
spec, and of nothing else. -/
def CommentCommitted (m : String) (told : Bool) (log : Log) : Prop :=
  ∃ newer pre post older specId v, OneCommit newer pre post older log ∧
    resolved older = some specId ∧ lastLocked m older = some v ∧
    (rebinds v m specId = true → told = true → Announced m newer pre post) ∧
    (rebinds v m specId = false ∨ told = false → Silent newer)

/-- Where a bind by comment ends; `told` says whether the task tells the others. -/
def CommentReply (m : String) (told : Bool) :
    CommentBindOutcome → Known Table.Key Table.Row Tag Ask.Ans Act.Out
  | .bound .. => fun log _ => CommentCommitted m told log
  | _ => fun log _ => Uncommitted log

section

variable {pg : Pg} {w : Scope} {C : Tag → Db → Prop}
  {G : Promise Table.Key Table.Row Tag Ask.Ans Act.Out} {ε α : Type} {m : String} {specId : Int}
  {u : Uuid} {A₀ : Known Table.Key Table.Row Tag Ask.Ans Act.Out}

theorem AuthoritativeFailed.cons {e : BindSpecError} {log : Log} {db : Db} {ev : LogEvent}
    (h : AuthoritativeFailed pg w u m specId e log db)
    (hev : ∀ pre post, ev ≠ .committed pre post) :
    AuthoritativeFailed pg w u m specId e (ev :: log) db := by
  refine ⟨h.1.cons fun pre post he => absurd he (hev pre post), ?_⟩
  have h₂ := h.2
  cases e with
  | authorMismatch =>
      obtain ⟨a, ha, hs⟩ := h₂
      exact ⟨a, List.mem_cons_of_mem _ ha, hs⟩
  | authorVerification msg =>
      obtain ⟨e, he⟩ := h₂
      exact ⟨e, List.mem_cons_of_mem _ he⟩
  | database =>
      obtain ⟨ev', hm, ht⟩ := h₂
      exact ⟨ev', List.mem_cons_of_mem _ hm, ht⟩
  | _ => exact h₂

/-- The rule of the operation lock. -/
theorem underMapLock_pool {E : ε → Known Table.Key Table.Row Tag Ask.Ans Act.Out}
    {B : α → Known Table.Key Table.Row Tag Ask.Ans Act.Out} {x : Query ε α}
    (A₁ : Known Table.Key Table.Row Tag Ask.Ans Act.Out)
    (E₁ : ε → Known Table.Key Table.Row Tag Ask.Ans Act.Out)
    (B₁ : α → Known Table.Key Table.Row Tag Ask.Ans Act.Out)
    (hx : Pool (setting pg w C G) E₁ A₁ x B₁)
    (hA : ∀ log db, A₀ log db → G.act log (.lockMap m) ∧
      A₁ (.acted (.lockMap m) () :: log) db)
    (hE : ∀ e log db, E₁ e log db → G.act log (.unlockMap m) ∧
      E e (.acted (.unlockMap m) () :: log) db)
    (hB : ∀ a log db, B₁ a log db → G.act log (.unlockMap m) ∧
      B a (.acted (.unlockMap m) () :: log) db) :
    Pool (setting pg w C G) E A₀ (underMapLock m x) B := by
  refine Pool.bind (fun _ => A₁) (.act (fun log db _ h => (hA log db h).1)
    fun _ log db _ h => (hA log db h).2) fun _ => ?_
  refine Pool.bind (Either E₁ B₁) (.attempt hx) fun r => ?_
  refine Pool.bind (fun _ => Either E B r) (.act (fun log db _ h => ?_) fun _ log db _ h => ?_)
    fun _ => .ofExcept fun log db _ h => h
  · cases r with
    | error e => exact (hE e log db h).1
    | ok a => exact (hB a log db h).1
  · cases r with
    | error e => exact (hE e log db h).2
    | ok a => exact (hB a log db h).2

theorem broadcastRemoved_pool {E : ε → Known Table.Key Table.Row Tag Ask.Ans Act.Out}
    {removed : List HatOnMapPlayer} {B : Unit → Known Table.Key Table.Row Tag Ask.Ans Act.Out}
    (hnone : removed = [] → ∀ log db, A₀ log db → B () log db)
    (hsome : removed ≠ [] → ∀ log db, A₀ log db →
      G.act log (.broadcastToMap m removed) ∧ B ()
      (.acted (.broadcastToMap m removed) () :: log) db) :
    Pool (setting pg w C G) E A₀ (broadcastRemoved m removed) B := by
  rw [broadcastRemoved]
  split
  case isTrue he => exact .pure fun log db _ hA => hnone (List.isEmpty_iff.1 he) log db hA
  case isFalse he =>
    have hne : removed ≠ [] := fun hnil => he (List.isEmpty_iff.2 hnil)
    exact .act (fun log db _ hA => (hsome hne log db hA).1)
      fun _ log db _ hA => (hsome hne log db hA).2

/-- The entries of the commit just made, sent or empty. -/
theorem announced_of_listed {removed : List HatOnMapPlayer} {pre post : Db}
    (h : Listed m pre post removed) :
    Announced m [.acted (.broadcastToMap m removed) ()] pre post := by
  intro v e he hgone
  obtain ⟨x, hx, hx'⟩ := h v e he hgone
  exact ⟨removed, List.mem_singleton_self _, x, hx, hx'⟩

theorem announced_of_nil {pre post : Db} (h : Listed m pre post []) : Announced m [] pre post := by
  intro v e he hgone
  obtain ⟨x, hx, -⟩ := h v e he hgone
  cases hx

theorem Announced.mono {newer newer' : Log} {pre post : Db} (h : Announced m newer pre post)
    (hn : ∀ ev ∈ newer, ev ∈ newer') : Announced m newer' pre post := by
  intro v e he hgone
  obtain ⟨hats, hm, hx⟩ := h v e he hgone
  exact ⟨hats, hn _ hm, hx⟩

/-! ## Request 81 -/

theorem BindReply.unlocked {log : Log} {db : Db} (h : BindReply m log db) :
    BindReply m (.acted (.unlockMap m) () :: log) db := by
  rcases h with hU | ⟨newer, pre, post, older, hone, hann⟩
  · exact .inl (hU.cons (by simp))
  · exact .inr ⟨_, pre, post, older, hone.cons (by simp),
      hann.mono fun ev => List.mem_cons_of_mem _⟩

theorem reportMinigameMapWithVerifier_pool (hact : ∀ log a, G.act log a)
    (hG : ∀ log pre post, AuthoritativeBind pg u m specId log pre post → G log pre post) :
    Pool (setting pg w C G) (ReportFailed pg w u m specId) (fun log _ => Uncommitted log)
      (reportMinigameMapWithVerifier pg u m specId) (fun _ => BindReply m) := by
  rw [reportMinigameMapWithVerifier]
  split
  case isTrue => exact Pool.pure fun log db _ hU => .inl hU
  case isFalse =>
  refine Pool.bind (Prepared u m) (.adapt prepareAuthoritativeBind_pool) fun prepared => ?_
  refine underMapLock_pool (Prepared u m prepared) (ReportFailed pg w u m specId)
    (fun _ => BindReply m) ?_ (fun log db hA => ⟨hact _ _, hA.1.cons (by simp), ?_⟩)
    (fun e log db h => ⟨hact _ _, ?_⟩) fun _ log db h => ⟨hact _ _, h.unlocked⟩
  · refine Pool.bind (BindDone m) (.adapt (commitAuthoritativeBind_pool hG)) fun r =>
      broadcastRemoved_pool ?_ ?_
    · rintro hnil log db ⟨pre, post, older, rfl, hU, hlist, -⟩
      rw [hnil] at hlist
      exact .inr ⟨[], pre, post, older, ⟨rfl, hU, .nil⟩, announced_of_nil hlist⟩
    · rintro - log db ⟨pre, post, older, rfl, hU, hlist, -⟩
      exact ⟨hact _ _, .inr ⟨[_], pre, post, older, ⟨rfl, hU, Commits.nil.cons (by simp)⟩,
        announced_of_listed hlist⟩⟩
  · have h₂ := hA.2
    cases hp : prepared.verifiedAuthor with
    | none =>
        rw [hp] at h₂
        exact h₂
    | some a =>
        rw [hp] at h₂
        exact ⟨h₂.1, List.mem_cons_of_mem _ h₂.2⟩
  · cases e with
    | db => exact h.cons (by simp)
    | str e => exact AuthoritativeFailed.cons h (by simp)

theorem reportMinigameMapDeferring_pool (hact : ∀ log a, G.act log a)
    (hG : ∀ log pre post, AuthoritativeBind pg u m specId log pre post → G log pre post) :
    Pool (setting pg w C G) (ReportFailed pg w u m specId) (fun log _ => Uncommitted log)
      (reportMinigameMapDeferring pg u m specId) (fun _ => BindReply m) := by
  rw [reportMinigameMapDeferring]
  split
  case isTrue => exact Pool.pure fun log db _ hU => .inl hU
  case isFalse =>
  refine Pool.bind (fun _ log _ => Uncommitted log) (.adapt ?_) fun asks => ?_
  · refine Pool.bind (fun _ log _ => Uncommitted log)
      (plain_pool (select_pool (fun log db hU => uncommitted_failed hU)
        fun log db _ hU db' _ _ => hU.cons (by simp))) fun r => Pool.pure fun log db _ hU => hU
  · split
    case isTrue => exact Pool.pure fun log db _ hU => .inl hU
    case isFalse => exact reportMinigameMapWithVerifier_pool hact hG

theorem bindAuthoritativeSpec_pool
    (hG : ∀ log pre post, AuthoritativeBind pg u m specId log pre post → G log pre post) :
    Pool (setting pg w C G) (AuthoritativeFailed pg w u m specId) (fun log _ => Uncommitted log)
      (ListedMaps.bindAuthoritativeSpec pg u m specId) (BindDone m) :=
  Pool.bind (Prepared u m) prepareAuthoritativeBind_pool fun _ => commitAuthoritativeBind_pool hG

/-! ## The published comment -/

/-- The bind a comment led to, before anybody is told. -/
def CommentTried (m : String) (r : CommentBindOutcome × List HatOnMapPlayer) :
    Known Table.Key Table.Row Tag Ask.Ans Act.Out :=
  match r.1 with
  | .bound specId materialized replacedPrevious =>
      CommentDone m { specId, removedHatWearers := r.2, materialized, replacedPrevious }
  | _ => fun log _ => Uncommitted log

theorem tryCommentBind_pool {E : ε → Known Table.Key Table.Row Tag Ask.Ans Act.Out}
    (hG : ∀ log pre post, CommentBind pg m log pre post → G log pre post) :
    Pool (setting pg w C G) E (fun log _ => Uncommitted log) (tryCommentBind pg m)
      (CommentTried m) := by
  rw [tryCommentBind]
  refine Pool.bind (fun _ log _ => Uncommitted log)
    (askQ_pool fun a log db hU => hU.cons (by simp)) fun answer => ?_
  cases answer with
  | error e => exact Pool.pure fun log db _ hU => hU
  | ok published =>
      cases published with
      | notOnNadeo => exact Pool.pure fun log db _ hU => hU
      | comment text =>
          cases text with
          | none => exact Pool.pure fun log db _ hU => hU
          | some comment =>
              dsimp only
              cases parseDppCommentUrl comment with
              | none => exact Pool.pure fun log db _ hU => hU
              | some url =>
                  refine Pool.bind (Either CommentFailed (CommentDone m))
                    (.attempt (bindFromResolvedComment_pool hG)) fun r => ?_
                  cases r with
                  | ok b => exact Pool.pure fun log db _ h => h
                  | error e => cases e <;> exact Pool.pure fun log db _ h => h

theorem CommentCommitted.unlocked {told : Bool} {log : Log} (h : CommentCommitted m told log) :
    CommentCommitted m told (.acted (.unlockMap m) () :: log) := by
  obtain ⟨newer, pre, post, older, specId, v, hone, hres, hlast, hyes, hno⟩ := h
  refine ⟨_, pre, post, older, specId, v, hone.cons (by simp), hres, hlast, fun hre htold =>
    (hyes hre htold).mono fun ev => List.mem_cons_of_mem _, fun hre m' hats hm => ?_⟩
  rcases List.mem_cons.1 hm with he | hm
  · cases he
  · exact hno hre m' hats hm

theorem observeMapForCommentBind_pool {E : ε → Known Table.Key Table.Row Tag Ask.Ans Act.Out}
    (hact : ∀ log a, G.act log a)
    (hG : ∀ log pre post, CommentBind pg m log pre post → G log pre post)
    (hE : ∀ e log db, E e log db → E e (.acted (.unlockMap m) () :: log) db) :
    Pool (setting pg w C G) E (fun log _ => Uncommitted log) (observeMapForCommentBind pg m)
      (CommentReply m true) := by
  refine underMapLock_pool (fun log _ => Uncommitted log) E (CommentReply m true)
    ?_ (fun log db hU => ⟨hact _ _, hU.cons (by simp)⟩)
      (fun e log db h => ⟨hact _ _, hE e log db h⟩)
    fun o log db h => ⟨hact _ _, ?_⟩
  · refine Pool.bind (CommentTried m) (tryCommentBind_pool hG) fun r => ?_
    obtain ⟨outcome, removed⟩ := r
    cases outcome with
    | bound specId mat replaced =>
        refine Pool.bind (fun _ => CommentReply m true (.bound specId mat replaced))
          (broadcastRemoved_pool ?_ ?_) fun _ => Pool.pure fun log db _ h => h
        · rintro hnil log db ⟨pre, post, older, v, rfl, hU, hres, hlast, hlist, -⟩
          refine ⟨[], pre, post, older, specId, v, ⟨rfl, hU, .nil⟩, hres, hlast,
            fun hre _ => ?_, fun _ _ _ hm => (nomatch hm)⟩
          have hl := hlist hre
          dsimp only at hl
          rw [hnil] at hl
          exact announced_of_nil hl
        · rintro hsome log db ⟨pre, post, older, v, rfl, hU, hres, hlast, hlist, hnil, -⟩
          refine ⟨hact _ _, [_], pre, post, older, specId, v,
            ⟨rfl, hU, Commits.nil.cons (by simp)⟩,
            hres, hlast, fun hre _ => announced_of_listed (hlist hre), fun hre => ?_⟩
          rcases hre with hre | hf
          · exact absurd (hnil hre) hsome
          · cases hf
    | _ => exact Pool.pure fun log db _ h => h
  · cases o with
    | bound specId mat replaced => exact CommentCommitted.unlocked h
    | _ => exact Commits.cons h (by simp)

theorem handleRecheckBind_pool {E : ε → Known Table.Key Table.Row Tag Ask.Ans Act.Out}
    (hG : ∀ log pre post, CommentBind pg m log pre post → G log pre post) :
    Pool (setting pg w C G) E (fun log _ => Uncommitted log) (handleRecheckBind pg m)
      (fun o => o.elim (fun log _ => Uncommitted log) (CommentReply m false)) := by
  rw [handleRecheckBind]
  split
  case isTrue => exact Pool.pure fun log db _ hU => hU
  case isFalse =>
  refine Pool.bind (CommentTried m) (tryCommentBind_pool hG) fun r => ?_
  obtain ⟨outcome, removed⟩ := r
  refine Pool.pure fun log db _ h => ?_
  cases outcome with
  | bound specId mat replaced =>
      obtain ⟨pre, post, older, v, rfl, hU, hres, hlast, -, -⟩ := h
      exact ⟨[], pre, post, older, specId, v, ⟨rfl, hU, .nil⟩, hres, hlast,
        fun _ hf => (by cases hf), fun _ _ _ hm => by cases hm⟩
  | _ => exact h

/-! ## Request 85 -/

/-- An equip that ended well: nothing, or its one commit. -/
def EquipReply : Known Table.Key Table.Row Tag Ask.Ans Act.Out := fun log _ =>
  Uncommitted log ∨ ∃ newer pre post older, OneCommit newer pre post older log

theorem reportHatEquip_pool {slug : String} (hact : ∀ log a, G.act log a)
    (hG : ∀ log pre post, EquipCommit u m slug log pre post → G log pre post) :
    Pool (setting pg w C G) (fun _ log _ => Uncommitted log) (fun log _ => Uncommitted log)
      (reportHatEquip pg u m slug) (fun _ => EquipReply) := by
  rw [reportHatEquip]
  split
  case isTrue => exact Pool.pure fun log db _ hU => .inl hU
  case isFalse =>
  refine underMapLock_pool (fun log _ => Uncommitted log) (fun _ log _ => Uncommitted log)
    (fun _ => EquipReply) ?_ (fun log db hU => ⟨hact _ _, hU.cons (by simp)⟩)
    (fun _ log db hU => ⟨hact _ _, hU.cons (by simp)⟩) fun _ log db h => ⟨hact _ _, ?_⟩
  · refine Pool.bind (EquipDone u slug) (.adapt (reportEquip_pool hG)) fun entry => ?_
    cases entry with
    | none =>
        refine Pool.pure fun log db _ h => ?_
        rcases h with ⟨_, hf, -⟩ | ⟨-, hU⟩
        · cases hf
        · exact .inl hU
    | some entry =>
        refine .act (fun _ _ _ _ => hact _ _) fun _ log db _ h => ?_
        rcases h with ⟨_, -, -, -, pre, post, older, rfl, hU⟩ | ⟨hf, -⟩
        · exact .inr ⟨[_], pre, post, older, rfl, hU, Commits.nil.cons (by simp)⟩
        · cases hf
  · rcases h with hU | ⟨newer, pre, post, older, h⟩
    · exact .inl (hU.cons (by simp))
    · exact .inr ⟨_, pre, post, older, h.cons (by simp)⟩

end

/-! ## Jobs -/

section

variable (pg : Pg) (w : Scope)

/-- What a job promises at its commits. -/
def Job.Promised : Job → Log → Db → Db → Prop
  | .login _ _ => fun _ => LoggedIn
  | .upload u n spec => fun _ => UploadCommit pg w.strict u n spec
  | .deleteSpec u n => fun _ => DeleteCommit w.strict u n
  | .reportMap u m specId => AuthoritativeBind pg u m specId
  | .deferredBind u m specId => AuthoritativeBind pg u m specId
  | .commentBind m => CommentBind pg m
  | .recheckBind m => CommentBind pg m
  | .hatUnlock u m slug specId => UnlockCommit pg u m slug specId
  | .hatEquip u m slug => EquipCommit u m slug
  | .authoritativeBind u m specId => AuthoritativeBind pg u m specId
  | .equip u m slug => EquipCommit u m slug

/-- What is known of a job that ended. -/
def Job.Ended : Job → Reply → Known Table.Key Table.Row Tag Ask.Ans Act.Out
  | .login _ _, .login r => Either (fun _ log _ => Commits LoggedIn log)
      (fun _ log _ => Commits LoggedIn log) r
  | .upload u n spec, .spec r => Either UploadFailed
      (fun _ log _ => Commits (UploadCommit pg w.strict u n spec) log) r
  | .deleteSpec u n, .spec r => Either (fun _ log _ => Commits (DeleteCommit w.strict u n) log)
      (fun _ log _ => Commits (DeleteCommit w.strict u n) log) r
  | .reportMap u m specId, .bind r => Either (ReportFailed pg w u m specId) (fun _ => BindReply m) r
  | .deferredBind u m specId, .bind r =>
      Either (ReportFailed pg w u m specId) (fun _ => BindReply m) r
  | .commentBind m, .comment r => Either (fun _ _ _ => False) (CommentReply m true) r
  | .recheckBind m, .recheck r => Either (fun _ _ _ => False)
      (fun o => o.elim (fun log _ => Uncommitted log) (CommentReply m false)) r
  | .hatUnlock u _ _ _, .unlock r => Either HatFailed (UnlockReply u) r
  | .hatEquip _ _ _, .equip r => Either (fun _ log _ => Uncommitted log) (fun _ => EquipReply) r
  | .authoritativeBind u m specId, .bound r =>
      Either (AuthoritativeFailed pg w u m specId) (BindDone m) r
  | .equip u _ slug, .worn r => Either HatFailed (EquipDone u slug) r
  | _, _ => fun _ _ => False

end

section

variable {pg : Pg} {w : Scope} {C : Tag → Db → Prop}

/-- A query as a task that starts. -/
theorem task_safe {ε α : Type} {G : Promise Table.Key Table.Row Tag Ask.Ans Act.Out}
    {E : ε → Known Table.Key Table.Row Tag Ask.Ans Act.Out}
    {B : α → Known Table.Key Table.Row Tag Ask.Ans Act.Out} {x : Query ε α}
    {reply : Except ε α → Reply} {Q : Reply → Known Table.Key Table.Row Tag Ask.Ans Act.Out}
    (h : Pool (setting pg w C G) E (fun log _ => Uncommitted log) x B)
    (hQ : ∀ r log db, Either E B r log db → Q (reply r) log db) {db : Db}
    (hinv : Inv pg w.strict db) :
    Safe (protocol pg w) C G (fun r l db => Q r l.log db) (Query.task reply x) {} db := by
  refine (h {} db hinv rfl rfl fun _ _ => Commits.nil).bind ?_ hinv
  rintro r l db' hinv' ⟨-, -, hr⟩ db'' hr''
  have hres := hr db'' hr''.nil
  cases r <;> exact hQ _ _ _ hres

/-- The job leaves the specs alone. -/
def Job.keepsSpecs : Job → Prop
  | .upload _ _ _ => False
  | .deleteSpec _ _ => False
  | _ => True

/-- Every job keeps the protocol and its promise, and ends as said. -/
theorem Job.safe (hC : Admitted pg w.strict C) (j : Job) (hj : ¬w.frozen ∨ j.keepsSpecs)
    {db : Db} (hinv : Inv pg w.strict db) :
    Safe (protocol pg w) C { commit := Job.Promised pg w j }
      (fun r l db => Job.Ended pg w j r l.log db) (j.body pg) {} db := by
  cases j with
  | login u name =>
      exact task_safe (registerOrLogin_pool fun _ _ _ h => h) (fun _ _ _ h => h) hinv
  | upload u n spec =>
      exact task_safe (upsertCustomMapAuxSpec_pool (hj.resolve_right id) hC fun _ _ _ h => h)
        (fun _ _ _ h => h) hinv
  | deleteSpec u n =>
      exact task_safe (deleteCustomMapAuxSpecInner_pool (hj.resolve_right id) hC fun _ _ _ h => h)
        (fun _ _ _ h => h) hinv
  | reportMap u m specId =>
      exact task_safe (reportMinigameMapDeferring_pool (fun _ _ => trivial) fun _ _ _ h => h)
        (fun _ _ _ h => h) hinv
  | deferredBind u m specId =>
      exact task_safe (reportMinigameMapWithVerifier_pool (fun _ _ => trivial) fun _ _ _ h => h)
        (fun _ _ _ h => h) hinv
  | commentBind m =>
      exact task_safe (observeMapForCommentBind_pool (E := fun _ _ _ => False) (fun _ _ => trivial)
        (fun _ _ _ h => h)
        fun _ _ _ h => h) (fun _ _ _ h => h) hinv
  | recheckBind m =>
      exact task_safe (handleRecheckBind_pool (E := fun _ _ _ => False) fun _ _ _ h => h)
        (fun _ _ _ h => h) hinv
  | hatUnlock u m slug specId =>
      exact task_safe (reportUnlock_pool fun _ _ _ h => h) (fun _ _ _ h => h) hinv
  | hatEquip u m slug =>
      exact task_safe (reportHatEquip_pool (fun _ _ => trivial) fun _ _ _ h => h)
        (fun _ _ _ h => h) hinv
  | authoritativeBind u m specId =>
      exact task_safe (bindAuthoritativeSpec_pool fun _ _ _ h => h) (fun _ _ _ h => h) hinv
  | equip u m slug => exact task_safe (reportEquip_pool fun _ _ _ h => h) (fun _ _ _ h => h) hinv

/-! ## From promises to steps -/

theorem AuthoritativeBind.commit {u : Uuid} {m : String} {specId : Int} {log : Log} {pre post : Db}
    (h : AuthoritativeBind pg u m specId log pre post) : Commit pg w.strict pre post := by
  rcases h with ⟨h, -⟩ | ⟨s, c, t, purge, h, -⟩
  · exact .same h
  · exact .bound h

theorem CommentBind.commit {m : String} {log : Log} {pre post : Db}
    (h : CommentBind pg m log pre post) : Commit pg w.strict pre post := by
  obtain ⟨specId, v, -, -, ⟨h, -⟩ | ⟨s, c, t, h, -⟩⟩ := h
  · exact .same h
  · exact .bound h

theorem UploadCommit.commit {u : Uuid} {n : String} {spec : Value} {pre post : Db}
    (h : UploadCommit pg w.strict u n spec pre post) : Commit pg w.strict pre post := by
  rcases h with h | ⟨id, s, c, h, hround⟩
  · exact .hit h
  · exact .upserted h hround

theorem DeleteCommit.commit {u : Uuid} {n : String} {pre post : Db}
    (h : DeleteCommit w.strict u n pre post) : Commit pg w.strict pre post := by
  rcases h with h | ⟨id, h⟩ | ⟨t, h⟩
  · exact .hit h
  · exact .deleted h
  · exact .catalog h

theorem UnlockCommit.commit {u : Uuid} {m slug : String} {specId : Int} {log : Log} {pre post : Db}
    (h : UnlockCommit pg u m slug specId log pre post) : Commit pg w.strict pre post := by
  obtain ⟨row, -, -, -, -, h | h⟩ := h
  · exact .same h
  · exact .unlocked h

theorem EquipCommit.commit {u : Uuid} {m slug : String} (log : Log) {pre post : Db}
    (h : EquipCommit u m slug log pre post) : Commit pg w.strict pre post := by
  rcases h with ⟨-, h⟩ | ⟨e, -, h⟩
  · exact .unequipped h
  · exact .equipped h

/-- Every commit of every job is one of the steps. -/
theorem Job.Promised.commit {j : Job} {log : Log} {pre post : Db}
    (h : Job.Promised pg w j log pre post) : Commit pg w.strict pre post := by
  cases j with
  | login u name => exact .login h
  | upload u n spec => exact UploadCommit.commit h
  | deleteSpec u n => exact DeleteCommit.commit h
  | reportMap u m specId => exact AuthoritativeBind.commit h
  | deferredBind u m specId => exact AuthoritativeBind.commit h
  | commentBind m => exact CommentBind.commit h
  | recheckBind m => exact CommentBind.commit h
  | hatUnlock u m slug specId => exact UnlockCommit.commit h
  | hatEquip u m slug => exact EquipCommit.commit log h
  | authoritativeBind u m specId => exact AuthoritativeBind.commit h
  | equip u m slug => exact EquipCommit.commit log h

end

end Dd2Server
