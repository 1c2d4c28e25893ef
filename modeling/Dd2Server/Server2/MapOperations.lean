import Dd2Server.Server2.Standing
import Dd2Server.Runs

/-!
# What takes place under the operation lock of a map

A bind or an equip takes the lock, commits at most once, tells the players on the map about it and
frees the lock.  `operation` is what it promises from an empty log; `operation_after` puts it into a
task that did something before.
-/

namespace Dd2Server

namespace Server2

open ReadCommitted

/-! ## Worn hats -/

/-- The hat a user wears on a map, empty for none. -/
def wornSlug (db : Db) (u : Uuid) (m : String) : String :=
  ((db.get ⟨.hatEquipped, (u, m)⟩).map HatEquippedRow.slug).getD ""

/-- The worn hats of a map are the same. -/
def SameWorn (m : String) (pre post : Db) : Prop :=
  ∀ u, post.get ⟨.hatEquipped, (u, m)⟩ = pre.get ⟨.hatEquipped, (u, m)⟩

/-- Only worn hats of this map are not the same. -/
def OnlyAt (m : String) (pre post : Db) : Prop := ∀ m', m' ≠ m → SameWorn m' pre post

/-- Only the hat this user wears on this map is not the same. -/
def OnlyOf (u : Uuid) (m : String) (pre post : Db) : Prop :=
  ∀ v m', (v, m') ≠ (u, m) → post.get ⟨.hatEquipped, (v, m')⟩ = pre.get
    ⟨.hatEquipped, (v, m')⟩

/-- The entry tells what its user wears on the map. -/
def Reflects (db : Db) (m : String) (x : HatOnMapPlayer) : Prop :=
  ∃ u : Uuid, x.wsid = u.text ∧ x.slug = wornSlug db u m

section

variable {pre post db : Db} {m : String} {u : Uuid}

theorem SameWorn.trans {a b c : Db} (h : SameWorn m a b) (h' : SameWorn m b c) : SameWorn m a c :=
  fun u => (h' u).trans (h u)

theorem SameWorn.slug (h : SameWorn m pre post) : wornSlug post u m = wornSlug pre u m := by
  rw [wornSlug, h u, wornSlug]

theorem SameWorn.reflects (h : SameWorn m pre post) {x : HatOnMapPlayer} (hx : Reflects pre m x) :
    Reflects post m x := by
  obtain ⟨u, hu, hs⟩ := hx
  exact ⟨u, hu, hs.trans h.slug.symm⟩

theorem OnlyOf.onlyAt (h : OnlyOf u m pre post) : OnlyAt m pre post :=
  fun _ hm v => h v _ fun he => hm (Prod.ext_iff.1 he).2

theorem OnlyAt.of_bound {pg : Pg} {specId : Int} {s : SpecRow} {c : Parsed}
    {t : Time} {purge : Bool} (h : Bound pg m specId s c t purge pre post) : OnlyAt m pre post := by
  intro m' hm v
  apply Option.ext
  intro e
  rw [h.equipped]
  exact ⟨fun he => he.1, fun he => ⟨he, fun hm' => absurd hm' hm⟩⟩

theorem Bareheaded.reflects {hats : List HatOnMapPlayer} (h : Bareheaded m db hats)
    {x : HatOnMapPlayer} (hx : x ∈ hats) : Reflects db m x := by
  obtain ⟨hslug, v, hv, hnone⟩ := h x hx
  refine ⟨v, hv, hslug.trans ?_⟩
  rw [wornSlug, hnone]
  rfl

theorem EquipCommit.onlyOf {slug : String} (log : Log) (h : EquipCommit u m slug log pre post) :
    OnlyOf u m pre post ∧ wornSlug post u m = slug := by
  have hne : ∀ {v : Uuid} {m' : String}, (v, m') ≠ (u, m) →
      (⟨.hatEquipped, (v, m')⟩ : DbKey) ≠ ⟨.hatEquipped, (u, m)⟩ := by
    rintro v m' hvm he
    cases he
    exact hvm rfl
  rcases h with ⟨hslug, h⟩ | ⟨e, hslug, h⟩
  · refine ⟨fun v m' hvm => h.others _ (hne hvm), ?_⟩
    rw [wornSlug, h.gone, hslug]
    rfl
  · refine ⟨fun v m' hvm => h.put.others _ (hne hvm), ?_⟩
    rw [wornSlug, h.put.row]
    exact hslug

end

/-! ## Queries between operations -/

section

variable {pg : Pg} {w : Scope} {C : Tag → Db → Prop}
  {G : Promise Table.Key Table.Row Tag Ask.Ans Act.Out} {ε α : Type}

/-- The query does not touch the shared memory, and its commits are of this kind. -/
abbrev querying (R : Db → Db → Prop) : Promise Table.Key Table.Row Tag Ask.Ans Act.Out where
  commit _ := R
  act _ _ := False

/-- The operations so far, and the kind of the commits. -/
def Within (A : Log) (R : Db → Db → Prop) (log : Log) : Prop := acts log = A ∧ Commits R log

theorem Pool.aside {R : Db → Db → Prop} {A : Log}
    {E : ε → Known Table.Key Table.Row Tag Ask.Ans Act.Out}
    {A₀ : Known Table.Key Table.Row Tag Ask.Ans Act.Out}
    {B : α → Known Table.Key Table.Row Tag Ask.Ans Act.Out} {x : Query ε α}
    (h : Pool (setting pg w C (querying R)) E A₀ x B)
    (hG : ∀ log pre post, acts log = A → R pre post → G log pre post) :
    Pool (setting pg w C G) (fun e log db => E e log db ∧ Within A R log)
      (fun log db => A₀ log db ∧ Within A R log) x (fun a log db => B a log db ∧
        Within A R log) := by
  apply ReadCommitted.Pool.keeping h (fun _ _ hf => hf)
  · intro ev log hl hev hc
    exact ⟨(acts_cons hev log).trans hl.1, hl.2.cons hc⟩
  · exact fun log pre post hl hr => hG log pre post hl.1 hr

/-- What is known of a query that started after `old`. -/
def After (Old : Log → Prop) (B : Known Table.Key Table.Row Tag Ask.Ans Act.Out) :
    Known Table.Key Table.Row Tag Ask.Ans Act.Out := fun log db =>
  ∃ new old, log = new ++ old ∧ acts new = [] ∧ Old old ∧ B new db

theorem acts_eq_nil {R : Db → Db → Prop} {log : Log} (h : Kept (querying R) log) :
    acts log = [] := by
  induction log with
  | nil => rfl
  | cons ev log ih =>
      have hlog : acts log = [] := ih h.tail
      cases ev with
      | acted a o => exact (h.act [] a o log rfl).elim
      | _ => exact hlog

theorem Pool.within {R : Db → Db → Prop} {O : Log → Prop}
    {E : ε → Known Table.Key Table.Row Tag Ask.Ans Act.Out}
    {B : α → Known Table.Key Table.Row Tag Ask.Ans Act.Out} {x : Query ε α}
    (h : Pool (setting pg w C (querying R)) E (fun log _ => log = []) x B)
    (hG : ∀ new old pre post, acts new = [] → O old → R pre post →
      G (new ++ old) pre post) :
    Pool (setting pg w C G) (fun e => After O (E e)) (fun log _ => O log) x
      (fun a => After O (B a)) := by
  apply ReadCommitted.Pool.after h
  · exact fun new old pre post hk ho hr => hG new old pre post (acts_eq_nil hk) ho hr
  · exact fun _ _ _ _ _ hf => hf.elim
  · exact fun e new old db hk ho he => ⟨new, old, rfl, acts_eq_nil hk, ho, he⟩
  · exact fun a new old db hk ho hb => ⟨new, old, rfl, acts_eq_nil hk, ho, hb⟩

end

/-! ## Operations -/

/-- What an operation on a map promises from an empty log: its commits are `R`, what it tells is `T`
of its commit, and unless it is `mute` it tells about every commit. -/
def operation (m : String) (R : Db → Db → Prop) (T : List HatOnMapPlayer → Db → Prop)
    (mute : Prop) : Promise Table.Key Table.Row Tag Ask.Ans Act.Out where
  commit log pre post := acts log = [.acted (.lockMap m) ()] ∧ R pre post
  act log
    | .lockMap m' => m' = m ∧ acts log = []
    | .broadcastToMap m' hats => m' = m ∧ acts log = [.acted (.lockMap m) ()] ∧
        ∃ db, anchor log = some db ∧ T hats db
    | .unlockMap m' => m' = m ∧ (mute ∨ change log = none) ∧
        (acts log = [.acted (.lockMap m) ()] ∨
          ∃ hats, acts log = [.acted (.broadcastToMap m hats) (), .acted (.lockMap m) ()])
    | _ => False

/-- The operation is over, or did not start. -/
def Complete (m : String) (T : List HatOnMapPlayer → Db → Prop) (log : Log) : Prop :=
  acts log = [] ∨ acts log = [.acted (.unlockMap m) (), .acted (.lockMap m) ()] ∨
    ∃ hats db, T hats db ∧ acts log =
      [.acted (.unlockMap m) (), .acted (.broadcastToMap m hats) (), .acted (.lockMap m) ()]

/-- The lock is held, and the players were told or need not be. -/
def Finished (m : String) (T : List HatOnMapPlayer → Db → Prop) (mute : Prop)
    (log : Log) : Prop :=
  (mute ∨ change log = none) ∧ (acts log = [.acted (.lockMap m) ()] ∨
    ∃ hats db, T hats db ∧
      acts log = [.acted (.broadcastToMap m hats) (), .acted (.lockMap m) ()])

section

variable {pg : Pg} {w : Scope} {C : Tag → Db → Prop} {ε α β : Type} {m : String} {u : Uuid}
  {R : Db → Db → Prop} {T : List HatOnMapPlayer → Db → Prop} {mute : Prop} {log : Log}

theorem change_uncommitted (h : Uncommitted log) : change log = none := by
  induction log with
  | nil => rfl
  | cons ev log ih =>
      have hlog : Uncommitted log := fun pre post hm => h pre post (List.mem_cons_of_mem _ hm)
      cases ev with
      | committed pre post => exact (h pre post List.mem_cons_self).elim
      | acted a o => rfl
      | _ => exact ih hlog

theorem Finished.unlocked (h : Finished m T mute log) :
    (operation m R T mute).act log (.unlockMap m) ∧
      Complete m T (.acted (.unlockMap m) () :: log) := by
  obtain ⟨hmute, hacts | ⟨hats, db, ht, hacts⟩⟩ := h
  · refine ⟨⟨rfl, hmute, .inl hacts⟩, .inr (.inl ?_)⟩
    rw [acts_acted, hacts]
  · refine ⟨⟨rfl, hmute, .inr ⟨hats, hacts⟩⟩, .inr (.inr ⟨hats, db, ht, ?_⟩)⟩
    rw [acts_acted, hacts]

theorem Finished.told {hats : List HatOnMapPlayer} {db : Db}
    (h : acts log = [.acted (.lockMap m) ()]) (ha : anchor log = some db) (ht : T hats db) :
    (operation m R T mute).act log (.broadcastToMap m hats) ∧
      Finished m T mute (.acted (.broadcastToMap m hats) () :: log) := by
  refine ⟨⟨rfl, h, db, ha, ht⟩, .inr rfl, .inr ⟨hats, db, ht, ?_⟩⟩
  rw [acts_acted, h]

/-- The rule of an operation: what comes between lock and unlock. -/
theorem operation_pool {A : Known Table.Key Table.Row Tag Ask.Ans Act.Out} {x : Query ε α}
    (h : Pool (setting pg w C (operation m R T mute)) (fun _ log _ => Finished m T mute log)
      (fun log db => A log db ∧ Within [.acted (.lockMap m) ()] R log) x
      (fun _ log _ => Finished m T mute log))
    (hA : ∀ log db, A log db → A (.acted (.lockMap m) () :: log) db) :
    Pool (setting pg w C (operation m R T mute)) (fun _ log _ => Complete m T log)
      (fun log db => A log db ∧ Within [] R log) (underMapLock m x)
      (fun _ log _ => Complete m T log) := by
  apply underMapLock_pool _ _ _ h
  · rintro log db ⟨hold, hacts, hc⟩
    exact ⟨⟨rfl, hacts⟩, hA log db hold, by rw [acts_acted, hacts], hc.cons (by simp)⟩
  · exact fun e log db hf => hf.unlocked
  · exact fun a log db hf => hf.unlocked

/-- Entries that say of each user there that no hat is worn. -/
def Bare (m : String) (hats : List HatOnMapPlayer) (db : Db) : Prop := Bareheaded m db hats

/-- One entry, about this user. -/
def About (u : Uuid) (m : String) (hats : List HatOnMapPlayer) (db : Db) : Prop :=
  ∃ x, hats = [x] ∧ x.wsid = u.text ∧ x.slug = wornSlug db u m

/-- The commit of a bind. -/
def BindStep (pg : Pg) (m : String) (pre post : Db) : Prop :=
  Commit pg False pre post ∧ OnlyAt m pre post

/-- The commit of an equip. -/
def EquipStep (pg : Pg) (u : Uuid) (m : String) (pre post : Db) : Prop :=
  Commit pg False pre post ∧ OnlyOf u m pre post

theorem BindStep.of_authoritative {specId : Int} {log : Log} {pre post : Db}
    (h : AuthoritativeBind pg u m specId log pre post) : BindStep pg m pre post := by
  refine ⟨AuthoritativeBind.commit (w := .any) h, ?_⟩
  rcases h with ⟨rfl, -⟩ | ⟨s, c, t, purge, h, -⟩
  · exact fun _ _ _ => rfl
  · exact .of_bound h

theorem BindStep.of_comment {log : Log} {pre post : Db} (h : CommentBind pg m log pre post) :
    BindStep pg m pre post := by
  refine ⟨CommentBind.commit (w := .any) h, ?_⟩
  obtain ⟨specId, v, -, -, ⟨rfl, -⟩ | ⟨s, c, t, h, -⟩⟩ := h
  · exact fun _ _ _ => rfl
  · exact .of_bound h

/-- The removed wearers are told, if there are any. -/
theorem broadcastRemoved_finished {removed : List HatOnMapPlayer}
    {E : ε → Known Table.Key Table.Row Tag Ask.Ans Act.Out} :
    Pool (setting pg w C (operation m R (Bare m) True)) E
      (fun log _ => acts log = [.acted (.lockMap m) ()] ∧ ∃ pre post older,
        log = .committed pre post :: older ∧ Bareheaded m post removed)
      (broadcastRemoved m removed) (fun _ log _ => Finished m (Bare m) True log) := by
  apply broadcastRemoved_pool
  · rintro - log db ⟨hacts, -⟩
    exact ⟨.inl trivial, .inl hacts⟩
  · rintro - log db ⟨hacts, pre, post, older, rfl, hbare⟩
    exact Finished.told hacts rfl hbare

/-- A query before the lock, which commits nothing. -/
theorem before_lock {A₀ : Known Table.Key Table.Row Tag Ask.Ans Act.Out}
    {E : ε → Known Table.Key Table.Row Tag Ask.Ans Act.Out}
    {B : α → Known Table.Key Table.Row Tag Ask.Ans Act.Out} {x : Query ε α}
    (h : Pool (setting pg w C (querying fun _ _ => False)) E A₀ x B) (hA : ∀ db, A₀ [] db) :
    Pool (setting pg w C (operation m R T mute)) (fun _ log _ => Complete m T log)
      (fun log _ => log = []) x (fun a log db => B a log db ∧ Within [] R log) := by
  apply Pool.weaken (Pool.aside (A := []) h fun log pre post _ hf => hf.elim)
  · rintro log db - rfl
    exact ⟨hA db, rfl, Commits.nil⟩
  · exact fun e log db he => .inl he.2.1
  · exact fun a log db hb => ⟨hb.1, hb.2.1, hb.2.2.mono fun _ _ hf => hf.elim⟩

/-- A transaction under the lock. -/
theorem under_lock {R' : Db → Db → Prop} {A₀ : Known Table.Key Table.Row Tag Ask.Ans Act.Out}
    {E : ε → Known Table.Key Table.Row Tag Ask.Ans Act.Out}
    {B : α → Known Table.Key Table.Row Tag Ask.Ans Act.Out} {x : Query ε α}
    (h : Pool (setting pg w C (querying R')) E A₀ x B)
    (hR : ∀ pre post, R' pre post → R pre post)
    (hA : ∀ log db, A₀ log db → Uncommitted log) (hE : ∀ e log db, E e log db → mute ∨
      Uncommitted log) :
    Pool (setting pg w C (operation m R T mute)) (fun _ log _ => Finished m T mute log)
      (fun log db => A₀ log db ∧ Within [.acted (.lockMap m) ()] R log) x
      (fun a log db => B a log db ∧ Within [.acted (.lockMap m) ()] R' log) := by
  apply Pool.weaken (Pool.aside (G := operation m R T mute) (A := [.acted (.lockMap m) ()]) h
    fun log pre post ha hr => ⟨ha, hR pre post hr⟩)
  · exact fun log db _ ⟨hA₀, hacts, _⟩ =>
      ⟨hA₀, hacts, (hA log db hA₀).mono fun _ _ hf => hf.elim⟩
  · exact fun e log db he => ⟨(hE e log db he.1).imp id change_uncommitted, .inl he.2.1⟩
  · exact fun a log db hb => hb

theorem bind_operation {specId : Int} :
    Pool (setting pg w C (operation m (BindStep pg m) (Bare m) True))
      (fun _ log _ => Complete m (Bare m) log) (fun log _ => log = [])
      (reportMinigameMapWithVerifier pg u m specId) (fun _ log _ => Complete m (Bare m) log) := by
  rw [reportMinigameMapWithVerifier]
  split
  case isTrue =>
    apply Pool.pure
    rintro log db - rfl
    exact .inl rfl
  case isFalse =>
  apply Pool.bind (fun prepared log db => Prepared u m prepared log db ∧
    Within [] (BindStep pg m) log)
  · exact .adapt (before_lock prepareAuthoritativeBind_pool fun _ => Commits.nil)
  intro prepared
  apply operation_pool
  · apply Pool.bind (fun r log db => BindDone m r log db ∧
      Within [.acted (.lockMap m) ()] (BindStep pg m) log)
    · exact .adapt (under_lock (commitAuthoritativeBind_pool fun _ _ _ h =>
        BindStep.of_authoritative h) (fun _ _ h => h) (fun _ _ h => h.1)
          fun _ _ _ _ => .inl trivial)
    · intro r
      apply Pool.weaken broadcastRemoved_finished
      · rintro log db - ⟨⟨pre, post, older, hlog, -, -, hbare⟩, hacts, -⟩
        exact ⟨hacts, pre, post, older, hlog, hbare⟩
      · exact fun e log db h => h
      · exact fun a log db h => h
  · rintro log db ⟨hU, hp⟩
    refine ⟨hU.cons (by simp), ?_⟩
    cases ha : prepared.verifiedAuthor with
    | none =>
        rw [ha] at hp
        exact hp
    | some a =>
        rw [ha] at hp
        exact ⟨hp.1, List.mem_cons_of_mem _ hp.2⟩

theorem commentBind_operation :
    Pool (setting pg w C (operation m (BindStep pg m) (Bare m) True))
      (fun (_ : ε) log _ => Complete m (Bare m) log) (fun log _ => log = [])
      (Dd2Server.observeMapForCommentBind pg m) (fun _ log _ => Complete m (Bare m) log) := by
  rw [Dd2Server.observeMapForCommentBind]
  apply Pool.weaken (operation_pool (A := fun log _ => Uncommitted log) ?_
    fun log db hU => hU.cons (by simp))
  · rintro log db - rfl
    exact ⟨Commits.nil, rfl, Commits.nil⟩
  · exact fun e log db h => h
  · exact fun a log db h => h
  apply Pool.bind (fun r log db => CommentTried m r log db ∧
    Within [.acted (.lockMap m) ()] (BindStep pg m) log)
  · exact under_lock (E := fun _ _ _ => True)
      (tryCommentBind_pool fun _ _ _ h => BindStep.of_comment h) (fun _ _ h => h) (fun _ _ h => h)
      fun _ _ _ _ => .inl trivial
  rintro ⟨outcome, removed⟩
  cases outcome with
  | bound specId materialized replacedPrevious =>
      apply Pool.bind (fun _ log _ => Finished m (Bare m) True log)
      · apply Pool.weaken broadcastRemoved_finished
        · rintro log db - ⟨⟨pre, post, older, v, hlog, -, -, -, -, -, hbare⟩, hacts, -⟩
          exact ⟨hacts, pre, post, older, hlog, hbare⟩
        · exact fun e log db h => h
        · exact fun a log db h => h
      · exact fun _ => Pool.pure fun log db _ h => h
  | _ => exact Pool.pure fun log db _ h => ⟨.inl trivial, .inl h.2.1⟩

theorem equip_operation {slug : String} :
    Pool (setting pg w C (operation m (EquipStep pg u m) (About u m) False))
      (fun _ log _ => Complete m (About u m) log) (fun log _ => log = [])
      (Dd2Server.reportHatEquip pg u m slug) (fun _ log _ => Complete m (About u m) log) := by
  rw [Dd2Server.reportHatEquip]
  split
  case isTrue =>
    apply Pool.pure
    rintro log db - rfl
    exact .inl rfl
  case isFalse =>
  let R' : Db → Db → Prop :=
    fun pre post => EquipStep pg u m pre post ∧ wornSlug post u m = slug
  have hR : ∀ log pre post, EquipCommit u m slug log pre post → R' pre post := by
    intro log pre post h
    obtain ⟨honly, hslug⟩ := EquipCommit.onlyOf log h
    exact ⟨⟨EquipCommit.commit (w := .any) log h, honly⟩, hslug⟩
  apply Pool.weaken (operation_pool (A := fun log _ => Uncommitted log) ?_
    fun log db hU => hU.cons (by simp))
  · rintro log db - rfl
    exact ⟨Commits.nil, rfl, Commits.nil⟩
  · exact fun e log db h => h
  · exact fun a log db h => h
  apply Pool.bind (fun r log db => EquipDone u slug r log db ∧
    Within [.acted (.lockMap m) ()] R' log)
  · exact .adapt (under_lock (reportEquip_pool (G := querying R') hR) (fun _ _ h => h.1)
      (fun _ _ h => h) fun _ _ _ h => .inr h)
  intro entry
  cases entry with
  | none =>
      apply Pool.pure
      rintro log db - ⟨⟨_, hf, -⟩ | ⟨-, hU⟩, hacts, -⟩
      · cases hf
      · exact ⟨.inr (change_uncommitted hU), .inl hacts⟩
  | some entry =>
      have htold : ∀ log db, EquipDone u slug (some entry) log db ∧
          Within [.acted (.lockMap m) ()] R' log →
          acts log = [.acted (.lockMap m) ()] ∧ ∃ db', anchor log = some db' ∧
            About u m [entry] db' := by
        rintro log db ⟨⟨_, he, hwsid, hslug, pre, post, older, rfl, -⟩ |
          ⟨hf, -⟩, hacts, hc⟩
        · cases he
          exact ⟨hacts, post, rfl, entry, rfl, hwsid,
            hslug.trans (hc pre post List.mem_cons_self).2.symm⟩
        · cases hf
      apply Pool.act
      · intro log db _ h
        obtain ⟨hacts, db', ha, ht⟩ := htold log db h
        exact (Finished.told hacts ha ht).1
      · intro o log db _ h
        obtain ⟨hacts, db', ha, ht⟩ := htold log db h
        exact (Finished.told (R := EquipStep pg u m) hacts ha ht).2

end

end Server2

end Dd2Server
