import Dd2Server.Server2.ReadLoop
import Dd2Server.ReadCommitted.Owners

/-!
# What every task of a server process promises

The validations, the binds left to tasks of their own, the manager and the jobs that only touch the
database.  `Job.safe` says of every job that it keeps its promise, and `RunFrom.sound` of every run.
-/

namespace Dd2Server

namespace Server2

open ReadCommitted

/-! ## Promises -/

/-- The map a validation drained with its release, which was its last operation. -/
def drained : Log → Option (Nat × String)
  | [] => none
  | .acted (.releaseUnlock c m _) d :: _ => if d = true then some (c, m) else none
  | .acted _ _ :: _ => none
  | _ :: log => drained log

theorem drained_ofActs : OfActs drained := by
  intro log
  induction log with
  | nil => rfl
  | cons ev log ih =>
      cases ev with
      | acted a o => cases a <;> simp [drained]
      | _ => exact ih

/-- The commit of an unlock. -/
def UnlockStep (pg : Pg) (u : Uuid) (m slug : String) (pre post : Db) : Prop :=
  Commit pg False pre post ∧ (∀ m', SameWorn m' pre post) ∧
    ∃ h, pre.get ⟨.hatOnMap, (m, slug)⟩ = some h ∧
      (post = pre ∨ Unlocked u h.hatKey pre post)

/-- What a validation promises. -/
def validating (pg : Pg) (c : Nat) (u : Uuid) (m slug : String) (specId : Int) :
    Promise Table.Key Table.Row Tag Ask.Ans Act.Out where
  commit log pre post := heldUnlocks log = [(c, m, slug)] ∧ UnlockStep pg u m slug pre post
  act log
    | .begun task => log = [] ∧ task = .unlockValidation c u m slug specId
    | .acquirePermit _ => True
    | .dropPermit _ => True
    | .releaseUnlock c' m' slug' =>
        (c', m', slug') = (c, m, slug) ∧ heldUnlocks log = [(c, m, slug)]
    | .send c' r =>
        c' = c ∧ drained log = some (c, m) ∧ ∃ equipped db, anchor log = some db ∧
        r = .hatsMine m equipped (Hats.mineItems pg db u m)
    | _ => False

/-- What a bind of this map promises that was left to a task. -/
def binding (pg : Pg) (m : String) (task : Spawned) :
    Promise Table.Key Table.Row Tag Ask.Ans Act.Out where
  commit log pre post := heldMaps log = [m] ∧ BindStep pg m pre post
  act log
    | .begun task' => log = [] ∧ task' = task
    | .lockMap _ => True
    | .unlockMap m' => m' ∈ heldMaps log
    | .broadcastToMap m' hats =>
        m' ∈ heldMaps log ∧ Telling m' hats log ∧ ∀ x ∈ hats, x.slug = ""
    | _ => False

/-- The message was offered to the first players. -/
def offers (m : String) (hats : List HatOnMapPlayer) : Nat → Log
  | 0 => []
  | n + 1 => .acted (.offer n m hats) () :: offers m hats n

/-- What the manager promises. -/
def delivering : Promise Table.Key Table.Row Tag Ask.Ans Act.Out where
  commit _ _ _ := False
  act log
    | .nextMessage => log = []
    | .offer c m hats =>
        ∃ n, c < n ∧ log = offers m hats c ++ [.acted .nextMessage ((m, hats), n)]
    | .delivered => ∃ m hats n, log = offers m hats n ++ [.acted .nextMessage ((m, hats), n)]
    | _ => False

/-- A task that leaves the shared memory and the worn hats alone. -/
def aside (pg : Pg) : Promise Table.Key Table.Row Tag Ask.Ans Act.Out :=
  querying fun pre post => Commit pg False pre post ∧ ∀ m, SameWorn m pre post

def Job.promise (pg : Pg) : Job → Promise Table.Key Table.Row Tag Ask.Ans Act.Out
  | .connection userId _ _ => connected pg userId
  | .spawned (.deferredBind u m specId) => binding pg m (.deferredBind u m specId)
  | .spawned (.commentBind m) => binding pg m (.commentBind m)
  | .spawned (.unlockValidation c u m slug specId) => validating pg c u m slug specId
  | .deliver => delivering
  | .relay c => { commit := fun _ _ _ => False, act := fun log a => log = [] ∧ a = .relay c }
  | .recheckBind _ => querying (Commit pg False)
  | _ => aside pg

/-- Where a validation ends: it sent nothing before its release, and where that drained the map, a
push of `HatsMine` of the map to the user is all that followed. -/
def Validated (pg : Pg) (c : Nat) (u : Uuid) (m slug : String) (log : Log) : Prop :=
  heldUnlocks log = [] ∧ ∃ newer d older, log = newer ++ .acted
    (.releaseUnlock c m slug) d :: older ∧
    (∀ c' r, .acted (.send c' r) () ∉ older) ∧ (d = true → Attempted pg c u m newer) ∧
    (d = false → newer = [])

/-- What is known of a task that ended. -/
def Job.Ended (pg : Pg) : Job → Log → Prop
  | .connection userId _ _, log => ∃ c tracked request, Stands userId c tracked request [] log
  | .spawned (.unlockValidation c u m slug _), log => Validated pg c u m slug log
  | _, _ => True

section

variable {pg : Pg} {w : Scope} {C : Tag → Db → Prop} {ε α : Type} {u : Uuid} {c : Nat}
  {m slug : String} {specId : Int} {pre post : Db}

/-! ## The database alone -/

theorem SameWorn.of_frame {ts : List Table} (h : Frame ts pre post) (hts : Table.hatEquipped ∉ ts)
    (m : String) : SameWorn m pre post := fun _ => h.get _ hts

theorem HitCounted.sameWorn (h : HitCounted pre post) (m : String) : SameWorn m pre post :=
  .of_frame h.others (by decide) m

theorem aside_login (h : LoggedIn pre post) :
    Commit pg False pre post ∧ ∀ m, SameWorn m pre post :=
  ⟨.login h, .of_frame h.others (by decide)⟩

theorem aside_upload {n : String} {spec : Value} (h : UploadCommit pg False u n spec pre post) :
    Commit pg False pre post ∧ ∀ m, SameWorn m pre post := by
  refine ⟨UploadCommit.commit (w := .any) h, ?_⟩
  rcases h with h | ⟨id, s, c, h, -⟩
  · exact HitCounted.sameWorn h
  · exact .of_frame h.others (by decide)

theorem aside_delete {n : String} (h : DeleteCommit False u n pre post) :
    Commit pg False pre post ∧ ∀ m, SameWorn m pre post := by
  refine ⟨DeleteCommit.commit (w := .any) h, ?_⟩
  rcases h with h | ⟨id, h⟩ | ⟨t, h⟩
  · exact HitCounted.sameWorn h
  · exact .of_frame h.others (by decide)
  · refine .of_frame h.others fun hm => ?_
    rw [← List.mem_singleton.1 hm] at h
    exact absurd h.catalog (by decide)

theorem UnlockStep.of_commit {log : Log} (h : UnlockCommit pg u m slug specId log pre post) :
    UnlockStep pg u m slug pre post := by
  refine ⟨UnlockCommit.commit (w := .any) h, ?_⟩
  obtain ⟨row, -, -, -, ⟨-, r, hr, hrow⟩, h⟩ := h
  have hkey : row.hatKey = r.hatKey := by rw [← hrow]; rfl
  rw [hkey] at h
  refine ⟨fun m' v => ?_, r, hr, h⟩
  rcases h with rfl | h
  · rfl
  · exact h.rest _ (by simp)

/-! ## Tasks that were left behind -/

/-- A query as a task of its own. -/
theorem joined_pool {ε' : Type} {G : Promise Table.Key Table.Row Tag Ask.Ans Act.Out}
    {E : ε → Known Table.Key Table.Row Tag Ask.Ans Act.Out}
    {E' : ε' → Known Table.Key Table.Row Tag Ask.Ans Act.Out}
    {A₀ : Known Table.Key Table.Row Tag Ask.Ans Act.Out}
    {B : α → Known Table.Key Table.Row Tag Ask.Ans Act.Out} {x : Query ε' α}
    {panics : Option Nat} (h : Pool (setting pg w C G) E' A₀ x B) :
    Pool (setting pg w C G) E A₀ (joined panics x) (fun _ _ _ => True) := by
  intro l db hinv hw hl hA
  have hx := h l db hinv hw hl hA
  cases panics with
  | none =>
      apply hx.bind _ hinv
      rintro r l' db' - ⟨hw', hl', -⟩ db'' -
      exact ⟨hw', hl', fun _ _ => trivial⟩
  | some n =>
      apply (hx.cut (n := n)).bind _ hinv
      rintro r l' db' - hr db'' -
      cases r with
      | none => exact ⟨hr.1, hr.2, fun _ _ => trivial⟩
      | some a => exact ⟨hr.1, hr.2.1, fun _ _ => trivial⟩

theorem notMem_of_acts_nil {new : Log} (h : acts new = []) (a : Act) (o : a.Out) :
    .acted a o ∉ new := by
  intro hin
  have hmem : .acted a o ∈ acts new := List.mem_filter.2 ⟨hin, rfl⟩
  rw [h] at hmem
  cases hmem

/-- The validation is not over: it holds its entry, and has sent nothing. -/
structure Owing (c : Nat) (m slug : String) (log : Log) : Prop where
  held : heldUnlocks log = [(c, m, slug)]
  silent : ∀ c' r, .acted (.send c' r) () ∉ log

theorem Owing.quiet {n log : Log} (h : Owing c m slug log) (hn : acts n = []) :
    Owing c m slug (n ++ log) where
  held := (heldUnlocks_ofActs.quiet hn log).trans h.held
  silent c' r hin := (List.mem_append.1 hin).elim (notMem_of_acts_nil hn _ _) (h.silent c' r)

/-- An operation that is no release and sends nothing. -/
theorem Owing.acted {a : Act} {o : a.Out} {log : Log} (h : Owing c m slug log)
    (hheld : heldUnlocks (.acted a o :: log) = heldUnlocks log) (ha : ∀ c' r, a ≠ .send c' r) :
    Owing c m slug (.acted a o :: log) where
  held := hheld.trans h.held
  silent c' r hin := by
    rcases List.mem_cons.1 hin with he | hin
    · cases he
      exact ha c' r rfl
    · exact h.silent c' r hin

/-- The push of a release that drained its map. -/
theorem pushHatsMine_validated {older : Log} (ho : Owing c m slug older) :
    Pool (setting pg w C (validating pg c u m slug specId))
      (fun _ log _ => Validated pg c u m slug log)
      (fun log _ => log = .acted (.releaseUnlock c m slug) true :: older)
      (pushHatsMine pg c u m) (fun _ log _ => Validated pg c u m slug log) := by
  let Old : Log → Prop := fun log => log = .acted (.releaseUnlock c m slug) true :: older
  have hheld : heldUnlocks (.acted (.releaseUnlock c m slug) true :: older) = [] := by
    rw [heldUnlocks, ho.held, List.erase_cons_head]
  have hval : ∀ {new : Log}, acts new = [] → Attempted pg c u m new →
      Validated pg c u m slug (new ++ .acted (.releaseUnlock c m slug) true :: older) := by
    intro new hn hnew
    exact ⟨(heldUnlocks_ofActs.quiet hn _).trans hheld, new, true, older, rfl, ho.silent,
      fun _ => hnew, fun hf => by cases hf⟩
  rw [pushHatsMine]
  apply Pool.bind (fun r => After Old (fun log _ => MineRead pg u m (.ok r) log))
  · apply Pool.adapt
    apply Pool.weaken (Pool.within (R := fun _ _ => False) getHatsMine_reads
      fun _ _ _ _ _ _ hf => hf.elim)
    · exact fun log db _ h => h
    · rintro e log db ⟨new, old, rfl, hn, rfl, hread⟩
      exact hval hn (.failed hread)
    · exact fun a log db h => h
  intro mine
  cases mine with
  | none =>
      apply Pool.pure
      rintro log db - ⟨new, old, rfl, hn, rfl, hread⟩
      exact hval hn (.unbound hread)
  | some r =>
      obtain ⟨equipped, items⟩ := r
      apply Pool.act
      · rintro log db - ⟨new, old, rfl, hn, rfl, hread⟩
        obtain ⟨db', hdb, hitems⟩ := hread.anchor
        exact ⟨rfl, drained_ofActs.quiet hn _, equipped, db',
          anchor_append hdb _, by rw [hitems]⟩
      · rintro o log db - ⟨new, old, rfl, hn, rfl, hread⟩
        exact ⟨(heldUnlocks_ofActs.quiet hn _).trans hheld, _ :: new, true, older, rfl, ho.silent,
          fun _ => .sent hread, fun hf => by cases hf⟩

theorem hatUnlockValidation_pool :
    Pool (setting pg w C (validating pg c u m slug specId))
      (fun (_ : ε) log _ => Validated pg c u m slug log) (fun log _ => Owing c m slug log)
      (hatUnlockValidation pg c u m slug specId)
      (fun _ log _ => Validated pg c u m slug log) := by
  rw [hatUnlockValidation]
  apply Pool.bind (fun _ log _ => Owing c m slug log)
  · exact Pool.act (fun _ _ _ _ => trivial) fun _ _ _ _ h => h.acted rfl (by simp)
  intro _
  apply Pool.bind (fun _ log _ => Owing c m slug log)
  · exact askQ_pool fun a log db h => h.quiet (n := [.answered _ a]) rfl
  intro panics
  apply Pool.bind (fun _ log _ => Owing c m slug log)
  · have hunlock : Pool (setting pg w C (querying (UnlockStep pg u m slug))) HatFailed
        (fun log _ => log = []) (Hats.reportUnlock pg u m slug specId) (UnlockReply u) := by
      apply Pool.weaken (reportUnlock_pool fun _ _ _ h => UnlockStep.of_commit h)
      · rintro log db - rfl
        exact Commits.nil
      · exact fun e log db h => h
      · exact fun a log db h => h
    apply Pool.weaken (Pool.within (G := validating pg c u m slug specId) (O := Owing c m slug)
      (E := fun _ _ _ => False) (joined_pool hunlock)
      fun new old pre post hn ho hr => ⟨(ho.quiet hn).held, hr⟩)
    · exact fun log db _ h => h
    · rintro e log db ⟨new, old, rfl, hn, ho, hf⟩
      exact hf.elim
    · rintro a log db ⟨new, old, rfl, hn, ho, -⟩
      exact ho.quiet hn
  intro _
  apply Pool.bind (fun _ log _ => Owing c m slug log)
  · exact Pool.act (fun _ _ _ _ => trivial) fun _ _ _ _ h => h.acted rfl (by simp)
  intro _
  apply Pool.bind (fun (d : Bool) log _ => ∃ older,
    log = .acted (.releaseUnlock c m slug) d :: older ∧ Owing c m slug older)
  · exact Pool.act (fun log db _ h => ⟨rfl, h.held⟩) fun d log db _ h => ⟨log, rfl, h⟩
  intro d
  cases d with
  | false =>
      apply Pool.pure
      rintro log db - ⟨older, rfl, ho⟩
      refine ⟨?_, [], false, older, rfl, ho.silent, fun hf => (by cases hf), fun _ => rfl⟩
      rw [heldUnlocks, ho.held, List.erase_cons_head]
  | true =>
      apply Pool.bind (fun _ log _ => Validated pg c u m slug log)
      · intro l db hinv hw hl hA
        obtain ⟨older, hlog, ho⟩ := hA db (.refl hinv)
        apply (Pool.attempt (E := fun (_ : ε) log _ => Validated pg c u m slug log)
          (pushHatsMine_validated ho) l db hinv hw hl fun _ _ => hlog).post
        rintro r l' db' ⟨hw', hl', hr⟩
        refine ⟨hw', hl', fun db'' hr'' => ?_⟩
        have hres := hr db'' hr''
        cases r with
        | error e => exact hres
        | ok a => cases a <;> exact hres
      · exact fun _ => Pool.pure fun log db _ h => h

/-- A bind that runs as a task of its own. -/
theorem binding_pool {task : Spawned} {ε' : Type} {x : Query ε' α}
    (h : Pool (setting pg w C (operation m (BindStep pg m) (Bare m) True))
      (fun _ log _ => Complete m (Bare m) log) (fun log _ => log = []) x
      (fun _ log _ => Complete m (Bare m) log)) :
    Pool (setting pg w C (binding pg m task)) (fun _ _ _ => True)
      (fun log _ => log = [.acted (.begun task) ()]) x (fun _ _ _ => True) := by
  have hheld : heldMaps [.acted (.begun task) ()] = [] := rfl
  apply ReadCommitted.Pool.after h
  · rintro new old pre post - rfl ⟨hacts, hr⟩
    refine ⟨?_, hr⟩
    rw [heldMaps_ofActs.append, hacts]
    rfl
  · rintro new old a hk rfl ha
    cases a with
    | lockMap m' => trivial
    | broadcastToMap m' hats =>
        obtain ⟨rfl, hacts, db, hanchor, ht⟩ := ha
        refine ⟨?_, ⟨db, anchor_append hanchor _, fun x hx => Bareheaded.reflects ht hx⟩,
          fun x hx => (ht x hx).1⟩
        rw [heldMaps_ofActs.append, hacts]
        exact List.mem_cons_self
    | unlockMap m' =>
        obtain ⟨rfl, -, hacts⟩ := ha
        show m' ∈ heldMaps _
        rw [heldMaps_ofActs.append]
        rcases hacts with hn | ⟨hats, hn⟩ <;> rw [hn] <;> exact List.mem_cons_self
    | _ => exact ha.elim
  · exact fun _ _ _ _ _ _ _ => trivial
  · exact fun _ _ _ _ _ _ _ => trivial

/-! ## The manager -/

/-- By induction on the players that are still to come. -/
theorem offerEach_pool {p : Pg} {E : Type} {m : String} {h : List HatOnMapPlayer}
    {n : Nat} (k i : Nat) (hk : i + k = n) :
    Pool (setting p w C delivering) (fun (_ : E) _ _ => True)
      (fun log _ => log = offers m h i ++ [.acted .nextMessage ((m, h), n)])
      (offerEach m h (List.range' i k))
      (fun _ log _ => log = offers m h n ++ [.acted .nextMessage ((m, h), n)]) := by
  induction k generalizing i with
  | zero =>
      obtain rfl : i = n := hk
      exact Pool.pure fun log db _ h => h
  | succ k ih =>
      rw [List.range'_succ, offerEach]
      apply Pool.bind (fun _ log _ => log =
        offers m h (i + 1) ++ [.acted .nextMessage ((m, h), n)])
      · apply Pool.act
        · rintro log db - rfl
          exact ⟨n, by omega, rfl⟩
        · rintro o log db - rfl
          rfl
      · exact fun _ => ih (i + 1) (by omega)

theorem deliver_pool :
    Pool (setting pg w C delivering) (fun (_ : ε) _ _ => True) (fun log _ => log = [])
      deliverPlayerMgrMessage (fun _ _ _ => True) := by
  rw [deliverPlayerMgrMessage]
  apply Pool.bind (fun (r : (String × List HatOnMapPlayer) × Nat) log _ =>
    log = [.acted .nextMessage r])
  · apply Pool.act
    · exact fun log db _ h => h
    · rintro o log db - rfl
      rfl
  rintro ⟨⟨m, hats⟩, n⟩
  apply Pool.bind (fun _ log _ => log = offers m hats n ++ [.acted .nextMessage ((m, hats), n)])
  · have h := offerEach_pool (p := pg) (w := w) (C := C) (E := ε) (m := m) (h := hats) n 0
      (Nat.zero_add n)
    rw [← List.range_eq_range'] at h
    exact h
  · intro _
    apply Pool.act
    · exact fun log db _ h => ⟨m, hats, n, h⟩
    · exact fun _ _ _ _ _ => trivial

/-! ## Jobs -/

/-- A query as a task that starts. -/
theorem detached_safe {G : Promise Table.Key Table.Row Tag Ask.Ans Act.Out} {x : Query ε α}
    {E : ε → Known Table.Key Table.Row Tag Ask.Ans Act.Out}
    {B : α → Known Table.Key Table.Row Tag Ask.Ans Act.Out} {Q : Log → Prop}
    (h : Pool (setting pg w C G) E (fun log _ => log = []) x B)
    (hE : ∀ e log db, E e log db → Q log) (hB : ∀ a log db, B a log db → Q log) {db : Db}
    (hinv : Inv pg w.strict db) :
    Safe (protocol pg w) C G (fun _ l _ => Q l.log) (detached x) {} db := by
  apply (h {} db hinv rfl rfl fun _ _ => rfl).bind _ hinv
  rintro r l db' hinv' ⟨-, -, hr⟩ db'' hr''
  have hres := hr db'' hr''.nil
  cases r with
  | error e => exact hE e l.log db'' hres
  | ok a => exact hB a l.log db'' hres

theorem aside_pool {R : Db → Db → Prop}
    {E : ε → Known Table.Key Table.Row Tag Ask.Ans Act.Out}
    {B : α → Known Table.Key Table.Row Tag Ask.Ans Act.Out} {x : Query ε α}
    (h : Pool (setting pg w C (querying R)) E (fun log _ => Uncommitted log) x B) :
    Pool (setting pg w C (querying R)) E (fun log _ => log = []) x B := by
  apply Pool.weaken h
  · rintro log db - rfl
    exact Commits.nil
  · exact fun e log db h => h
  · exact fun a log db h => h

/-- A task that was left behind starts. -/
theorem begun_safe {task : Spawned} {G : Promise Table.Key Table.Row Tag Ask.Ans Act.Out}
    {Q : Log → Prop} (hG : G.act [] (.begun task))
    (h : Pool (setting pg w C G) (fun (_ : Empty) log _ => Q log)
      (fun log _ => log = [.acted (.begun task) ()]) (spawned pg task) (fun _ log _ => Q log))
    {db : Db} (hinv : Inv pg w.strict db) :
    Safe (protocol pg w) C G (fun _ l _ => Q l.log)
      (detached (begunTask pg task : Query Empty Unit)) {} db := by
  refine detached_safe (Pool.bind (fun _ log _ => log = [.acted (.begun task) ()]) ?_ fun _ => h)
    (fun _ _ _ hq => hq) (fun _ _ _ hq => hq) hinv
  apply Pool.act
  · rintro log db - rfl
    exact hG
  · rintro o log db - rfl
    rfl

/-- Every job keeps its promise and ends as said. -/
theorem Job.safe (j : Job) {db : Db} (hinv : Inv pg False db) :
    Safe (protocol pg .any) (fun _ _ => True) (Job.promise pg j) (fun _ l _ => Job.Ended pg j l.log)
      (j.body pg) {} db := by
  cases j with
  | connection u name requests =>
      exact detached_safe (E := fun _ _ _ => False) (connection_pool requests)
        (fun e => nomatch e) (fun _ _ _ h => h) hinv
  | spawned task =>
      cases task with
      | deferredBind u m specId =>
          refine begun_safe (G := binding pg m _) (Q := fun _ => True) ⟨rfl, rfl⟩ ?_ hinv
          apply Pool.bind (fun _ _ _ => True)
          · apply Pool.weaken (Pool.attempt (E := fun _ _ _ => True) (binding_pool bind_operation))
            · exact fun log db _ h => h
            · exact fun e log db h => h
            · exact fun _ _ _ _ => trivial
          · exact fun _ => Pool.pure fun _ _ _ _ => trivial
      | commentBind m =>
          refine begun_safe (G := binding pg m _) (Q := fun _ => True) ⟨rfl, rfl⟩ ?_ hinv
          apply Pool.bind (fun _ _ _ => True) (binding_pool commentBind_operation)
          exact fun _ => Pool.pure fun _ _ _ _ => trivial
      | unlockValidation c u m slug specId =>
          refine begun_safe (G := validating pg c u m slug specId) (Q := Validated pg c u m slug)
            ⟨rfl, rfl⟩ ?_ hinv
          apply Pool.weaken hatUnlockValidation_pool
          · rintro log db - rfl
            exact ⟨rfl, by simp⟩
          · exact fun e log db h => h
          · exact fun a log db h => h
  | deliver =>
      exact detached_safe deliver_pool (fun _ _ _ _ => trivial) (fun _ _ _ _ => trivial) hinv
  | relay c =>
      apply detached_safe (E := fun _ _ _ => True) (B := fun _ _ _ => True) _
        (fun _ _ _ _ => trivial) (fun _ _ _ _ => trivial) hinv
      exact Pool.act (fun log db _ h => ⟨h, rfl⟩) fun _ _ _ _ _ => trivial
  | login u name =>
      exact detached_safe (aside_pool (registerOrLogin_pool fun _ _ _ h => aside_login h))
        (fun _ _ _ _ => trivial) (fun _ _ _ _ => trivial) hinv
  | upload u n spec =>
      exact detached_safe (aside_pool (upsertCustomMapAuxSpec_pool id admitted_any
        fun _ _ _ h => aside_upload h)) (fun _ _ _ _ => trivial) (fun _ _ _ _ => trivial) hinv
  | deleteSpec u n =>
      exact detached_safe (aside_pool (deleteCustomMapAuxSpecInner_pool id admitted_any
        fun _ _ _ h => aside_delete h)) (fun _ _ _ _ => trivial) (fun _ _ _ _ => trivial) hinv
  | recheckBind m =>
      exact detached_safe (E := fun _ _ _ => False)
        (aside_pool (handleRecheckBind_pool fun _ _ _ h => CommentBind.commit (w := .any) h))
        (fun e => nomatch e) (fun _ _ _ _ => trivial) hinv

end

/-! ## What all jobs have in common -/

/-- What the log of any task shows when it performs the operation. -/
def Orderly (log : Log) : Act → Prop
  | .openConnection => log = []
  | .setTracked c _ => opened log = some c
  | .unlockMap m => m ∈ heldMaps log
  | .broadcastToMap m hats =>
      m ∈ heldMaps log ∧ ((∃ u, Leaving u m hats log) ∨ Telling m hats log)
  | .beginUnlock c _ _ => opened log = some c
  | .spawn (.unlockValidation c _ m slug _) => (c, m, slug) ∈ heldUnlocks log
  | .releaseUnlock c m slug => (c, m, slug) ∈ heldUnlocks log
  | .send c (.hatsMine m _ _) =>
      opened log = some c ∧ clearMap log = some m ∨ drained log = some (c, m)
  | .nextMessage => log = []
  | .offer c m hats => delivering.act log (.offer c m hats)
  | .delivered => delivering.act log .delivered
  | _ => True

theorem Job.orderly {pg : Pg} {j : Job} {log : Log} {a : Act} (h : (Job.promise pg j).act log a) :
    Orderly log a := by
  cases j with
  | connection u name requests =>
      cases a with
      | openConnection => exact h
      | setTracked c next => exact h.1
      | unlockMap m => exact h.1
      | broadcastToMap m hats => exact ⟨h.1, h.2.2.1.imp (fun hl => ⟨u, hl⟩) id⟩
      | beginUnlock c m slug => exact h
      | spawn task =>
          cases task with
          | unlockValidation c v m slug specId => exact h.2.2
          | _ => trivial
      | send c r =>
          cases r with
          | hatsMine m equipped items => exact .inl ⟨h.1, h.2.1⟩
          | _ => trivial
      | releaseUnlock c m slug => exact h.elim
      | nextMessage => exact h.elim
      | offer c m hats => exact h.elim
      | delivered => exact h.elim
      | _ => trivial
  | spawned task =>
      cases task with
      | unlockValidation c u m slug specId =>
          cases a with
          | releaseUnlock c' m' slug' =>
              show (c', m', slug') ∈ heldUnlocks log
              rw [h.2, h.1]
              exact List.mem_cons_self
          | send c' r =>
              obtain ⟨rfl, hd, equipped, db, -, rfl⟩ := h
              exact .inr hd
          | begun task => trivial
          | acquirePermit c' => trivial
          | dropPermit c' => trivial
          | _ => exact h.elim
      | deferredBind u m specId =>
          cases a with
          | unlockMap m' => exact h
          | broadcastToMap m' hats => exact ⟨h.1, .inr h.2.1⟩
          | begun task => trivial
          | lockMap m' => trivial
          | _ => exact h.elim
      | commentBind m =>
          cases a with
          | unlockMap m' => exact h
          | broadcastToMap m' hats => exact ⟨h.1, .inr h.2.1⟩
          | begun task => trivial
          | lockMap m' => trivial
          | _ => exact h.elim
  | deliver =>
      cases a with
      | nextMessage => exact h
      | offer c m hats => exact h
      | delivered => exact h
      | _ => exact h.elim
  | relay c =>
      obtain ⟨-, rfl⟩ := h
      trivial
  | _ => exact h.elim

/-- The worn hats of a map change only while the task holds its operation lock. -/
theorem Job.locked {pg : Pg} {j : Job} {log : Log} {pre post : Db} {m : String}
    (h : (Job.promise pg j).commit log pre post) (hj : ∀ m', j ≠ .recheckBind m')
    (hm : m ∉ heldMaps log) : SameWorn m pre post := by
  cases j with
  | connection u name requests =>
      obtain ⟨-, m', hheld, honly, -⟩ := h
      exact honly m fun he => hm (by simp [hheld, he])
  | spawned task =>
      cases task with
      | unlockValidation c u m' slug specId => exact h.2.2.1 m
      | deferredBind u m' specId =>
          obtain ⟨hheld, -, honly⟩ := h
          exact honly m fun he => hm (by simp [hheld, he])
      | commentBind m' =>
          obtain ⟨hheld, -, honly⟩ := h
          exact honly m fun he => hm (by simp [hheld, he])
  | deliver => exact h.elim
  | relay c => exact h.elim
  | recheckBind m' => exact absurd rfl (hj m')
  | _ => exact h.2 m

theorem Job.commit {pg : Pg} {j : Job} {log : Log} {pre post : Db}
    (h : (Job.promise pg j).commit log pre post) : Commit pg False pre post := by
  cases j with
  | connection u name requests => exact h.1
  | spawned task =>
      cases task with
      | unlockValidation c u m slug specId => exact h.2.1
      | deferredBind u m specId => exact h.2.1
      | commentBind m => exact h.2.1
  | deliver => exact h.elim
  | relay c => exact h.elim
  | recheckBind m => exact h
  | _ => exact h.1

/-! ## Runs -/

/-- A server process with its database. -/
abbrev System := Sys Table.Key Table.Row Tag Ask.Ans Act.Out Mem Job Unit

/-- A task of it. -/
abbrev ServerTask := Task Table.Key Table.Row Tag Ask.Ans Act.Out Job Unit

/-- A database, and no task. -/
def System.on (db : Db) : System where
  db := db
  mem := {}

/-- The states of all interleavings on a database. -/
def RunFrom (pg : Pg) (db : Db) (s : System) : Prop :=
  Reach shared (Job.body pg) (fun _ _ => True) (System.on db) s

/-- What is known of every state of a run. -/
abbrev Sane (pg : Pg) (s : System) : Prop :=
  Sound (protocol pg .any) (fun _ _ => True) (Job.promise pg)
    (fun j _ l _ => Job.Ended pg j l.log) s

theorem RunFrom.sane {pg : Pg} {db₀ : Db} {s : System} (h : RunFrom pg db₀ s)
    (hinv : Inv pg False db₀) : Sane pg s := by
  have hinv' : (protocol pg .any).Inv (System.on db₀).db := hinv
  exact Reach.sound (fun j _ hinv => j.safe hinv) hinv' rfl h

theorem Sane.move {pg : Pg} {s s' : System} {m : Move Ask.Ans Job} (h : Sane pg s)
    (hm : s.move shared (Job.body pg) m = some s') : Sane pg s' :=
  (Sound.move h (fun j _ _ hinv => j.safe hinv) s.admits_true hm).1

/-- The committed rows stay, or a task commits. -/
theorem Sane.moved {pg : Pg} {s s' : System} {m : Move Ask.Ans Job} (h : Sane pg s)
    (hm : s.move shared (Job.body pg) m = some s') :
    s'.db = s.db ∨ Stays s.db s'.db ∧ Commit pg False s.db s'.db := by
  rcases (Sound.move h (fun j _ _ hinv => j.safe hinv) s.admits_true hm).2 with he | ⟨hstay, hc⟩
  · exact .inl he
  · obtain ⟨i, t, t', -, hG⟩ := hc
    exact .inr ⟨hstay.1, Job.commit hG⟩

theorem Sane.orderly {pg : Pg} {s : System} (h : Sane pg s) {t : ServerTask} (ht : t ∈ s.tasks)
    {a : Act} {next : a.Out → Server Unit} (hp : t.prog = .act a next) : Orderly t.loc.log a :=
  Job.orderly (Sound.act h ht hp)

/-! ## One player on one map -/

namespace Sample

/-- The author of a map binds it to a spec. -/
def mapBound : List (ReadCommitted.Cue Ask.Ans Job) :=
  [.start (.login 1 "Author"), .go 0 20 (Sample.answers 7 none),
   .start (.upload 1 "climb" Sample.spec), .go 1 40 (Sample.answers 7 none),
   .start (.connection 1 "Author" [.reportMinigameMap Sample.mapUid 7]),
   .go 2 60 (Sample.answers 7 none),
   .start (.spawned (.deferredBind 1 Sample.mapUid 7)), .go 3 80 (Sample.answers 7 none)]

/-- The author finishes the map, and puts on its hat. -/
def hatEquipped : List (ReadCommitted.Cue Ask.Ans Job) := mapBound ++
  [.start (.connection 1 "Author" [.reportHatUnlock Sample.mapUid "Hat-1" 7]),
   .go 4 60 (Sample.answers 7 none),
   .start (.spawned (.unlockValidation 1 1 Sample.mapUid "Hat-1" 7)),
     .go 5 80 (Sample.answers 7 none),
   .start (.connection 1 "Author" [.getHatsMine Sample.mapUid,
     .reportHatEquip Sample.mapUid "Hat-1"]),
   .go 6 80 (Sample.answers 7 none)]

end Sample

end Server2

end Dd2Server
