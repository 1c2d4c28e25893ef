import Dd2Server.Moderation.Handlers

/-!
# What the requests commit

A request commits rows of one of the kinds of `Change`, each with what stands in the log of the task
before it: the reads a ban, a delegate or a removal of a super-mod is preceded by.  Such a read
opens a window, which the commit of the write it was made for closes (`opened`).

An unlifted ban comes with its mark: all commits keep that (`Marked.change`).
-/

namespace Dd2Server.Moderation

open ReadCommitted

variable {pre post : Db} {log : Log} {j : Job} {m : String} {u : Uuid}

/-! ## Windows -/

/-- The statement that ran last. -/
def lastSaw : Log → Option Tag
  | [] => none
  | .saw tag _ :: _ => some tag
  | _ :: log => lastSaw log

/-- The statement writes what a read was made for. -/
def Tag.final : Tag → Bool
  | .markUnofficial => true
  | .addDelegate => true
  | .removeSuperMod => true
  | _ => false

/-- A read that `p` tells, of the rows it saw and the events before it, has been made, and what it
was made for is not committed. -/
def opened (p : Tag → Db → Log → Bool) : Log → Bool
  | [] => false
  | .read tag v :: log => p tag v log || opened p log
  | .committed _ _ :: log => !(lastSaw log).any Tag.final && opened p log
  | _ :: log => opened p log

/-- The user is banned on the map. -/
def isBanned (db : Db) (now : Time) (m : String) (u : Uuid) : Bool :=
  (db.get ⟨.mapBans, (m, u)⟩).any fun b => b.isActive now

theorem isBanned_iff {db : Db} {now : Time} :
    isBanned db now m u = true ↔
      ∃ b, db.get ⟨.mapBans, (m, u)⟩ = some b ∧ b.isActive now = true := by
  rw [isBanned, Option.any_eq_true]

/-- `is_protected_from_map_ban` did not find this protection. -/
def cleared (kind : Protection) (m : String) (u : Uuid) : Tag → Db → Log → Bool
  | .vets kind' m' u', v, _ => kind' = kind && m' = m && u' = u && !kind.covers v m u
  | _, _, _ => false

/-- `get_active_ban` did not find a ban. -/
def unbanned (m : String) (u : Uuid) : Tag → Db → Log → Bool
  | .activeBan m' u', v, .acted .clock now :: _ => m' = m && u' = u && !isBanned v now m u
  | _, _, _ => false

/-- `count_super_mods` counted two at least. -/
def counted : Tag → Db → Log → Bool
  | .countSuperMods, v, _ => 2 ≤ (superMods v).length
  | _, _, _ => false

/-- `NOW()` of the transaction that is open. -/
def lastClock : Log → Option Time
  | [] => none
  | .acted .clock now :: _ => some now
  | _ :: log => lastClock log

/-- The events that tell nothing of statements, of commits and of the clock. -/
def Plain : LogEvent → Prop
  | .committed _ _ => False
  | .saw _ _ => False
  | .acted _ _ => False
  | _ => True

theorem Plain.lastSaw {ev : LogEvent} (h : Plain ev) (log : Log) :
    Moderation.lastSaw (ev :: log) = Moderation.lastSaw log := by
  cases ev with
  | committed pre post => exact h.elim
  | saw tag v => exact h.elim
  | _ => rfl

theorem Plain.lastClock {ev : LogEvent} (h : Plain ev) (log : Log) :
    Moderation.lastClock (ev :: log) = Moderation.lastClock log := by
  cases ev with
  | acted a o => exact h.elim
  | _ => rfl

/-- What is known of a log and outlasts statements, reads, and commits of what opens no window. -/
structure Lasting (P : Log → Prop) : Prop where
  plain : ∀ ev log, Plain ev → P log → P (ev :: log)
  acted : ∀ a o log, P log → P (.acted a o :: log)
  saw : ∀ tag v log, P log → P (.saw tag v :: log)
  commit : ∀ pre post log, (lastSaw log).any Tag.final = false → P log →
    P (.committed pre post :: log)

theorem Lasting.true : Lasting fun _ => True := ⟨by simp, by simp, by simp, by simp⟩

theorem Lasting.opened (p : Tag → Db → Log → Bool) :
    Lasting fun log => Moderation.opened p log = Bool.true where
  plain ev log hev h := by
    cases ev with
    | committed pre post => exact hev.elim
    | saw tag v => exact hev.elim
    | read tag v => simp [Moderation.opened, h]
    | _ => exact h
  acted a o log h := h
  saw tag v log h := h
  commit pre post log hfinal h := by simp [Moderation.opened, hfinal, h]

theorem Lasting.forall {ι : Type} {P : ι → Log → Prop} (h : ∀ i, Lasting (P i)) :
    Lasting fun log => ∀ i, P i log where
  plain ev log hev hP i := (h i).plain ev log hev (hP i)
  acted a o log hP i := (h i).acted a o log (hP i)
  saw tag v log hP i := (h i).saw tag v log (hP i)
  commit pre post log hfinal hP i := (h i).commit pre post log hfinal (hP i)

theorem Lasting.quiet {P : Log → Prop} (hP : Lasting P) {since : Log} (hq : Quiet Plain since log)
    (h : P since) : P log := by
  obtain ⟨new, rfl, hnew⟩ := hq
  induction new with
  | nil => exact h
  | cons ev new ih =>
      have hold : P (new ++ since) := ih fun e he => hnew e (List.mem_cons_of_mem _ he)
      exact hP.plain ev _ (hnew ev List.mem_cons_self) hold

theorem Quiet.lastSaw {since : Log} (hq : Quiet Plain since log) :
    Moderation.lastSaw log = Moderation.lastSaw since := by
  obtain ⟨new, rfl, hnew⟩ := hq
  induction new with
  | nil => rfl
  | cons ev new ih =>
      have hold := ih fun e he => hnew e (List.mem_cons_of_mem _ he)
      exact ((hnew ev List.mem_cons_self).lastSaw _).trans hold

theorem Quiet.lastClock {since : Log} (hq : Quiet Plain since log) :
    Moderation.lastClock log = Moderation.lastClock since := by
  obtain ⟨new, rfl, hnew⟩ := hq
  induction new with
  | nil => rfl
  | cons ev new ih =>
      have hold := ih fun e he => hnew e (List.mem_cons_of_mem _ he)
      exact ((hnew ev List.mem_cons_self).lastClock _).trans hold

/-! ## Changes -/

/-- The user a removal of a super-mod is about. -/
def Job.demotes : Job → Option Uuid
  | .removeSuperMod userId _ => Uuid.parse userId.toList
  | _ => none

/-- The rows a lift writes; `clears` says that the mark was there to be cleared. -/
def liftWrites (m : String) (u : Uuid) (b : MapBan) (clears : Bool) :
    List (Write Table.Key Table.Row) :=
  (if clears then [⟨⟨.mapUnofficial, (m, u)⟩, none⟩] else []) ++
    [⟨⟨.mapBans, (m, u)⟩, some b⟩]

/-- What a commit of a request does, given the log of its task. -/
inductive Change (j : Job) (log : Log) (pre : Db) : Db → Prop
  | nothing : Change j log pre pre
  | user (u : Uuid) (r : UserRow) : Change j log pre (pre.put ⟨⟨.users, u⟩, some r⟩)
  | audit (id : Int) (r : AuditEvent) : Change j log pre
    (pre.put ⟨⟨.auditEvents, id⟩, some r⟩)
  | metadata (m : String) (r : MapMeta) : Change j log pre (pre.put ⟨⟨.mapMeta, m⟩, some r⟩)
  | promoted (u : Uuid) (r : SuperModRow) : Change j log pre
    (pre.put ⟨⟨.superMods, u⟩, some r⟩)
  | demoted (u : Uuid) (hj : j.demotes = some u) (hlog : opened counted log = true) :
      Change j log pre (pre.put ⟨⟨.superMods, u⟩, none⟩)
  | delegated (m : String) (u : Uuid) (r : MapDelegate) (hlog : opened (unbanned m u) log = true) :
      Change j log pre (pre.put ⟨⟨.mapDelegates, (m, u)⟩, some r⟩)
  | undelegated (m : String) (u : Uuid) :
      Change j log pre (pre.put ⟨⟨.mapDelegates, (m, u)⟩, none⟩)
  | banned (m : String) (u : Uuid) (cookie : Option String) (body : CreateBanBody) (b : MapBan)
      (r : UnofficialRow) (hj : j = .createBan m cookie body) (hb : b.liftedAt = none)
      (hlog : ∀ kind, opened (cleared kind m u) log = true) :
      Change j log pre ((pre.put ⟨⟨.mapBans, (m, u)⟩, some b⟩).put
        ⟨⟨.mapUnofficial, (m, u)⟩, some r⟩)
  | lifted (m userId : String) (u liftedBy : Uuid) (cookie : Option String)
      (keepUnofficial clears : Bool) (b : MapBan) (now : Time)
      (hj : j = .liftBan m userId cookie keepUnofficial)
      (hclears : clears = true → keepUnofficial = false) (hu : Uuid.parse userId.toList = some u)
      (hclock : lastClock log = some now) (hb : pre.get ⟨.mapBans, (m, u)⟩ = some b)
      (hactive : b.isActive now = true) :
      Change j log pre (Store.view (liftWrites m u (b.lifted liftedBy now) clears) pre)

/-- An unlifted ban comes with its mark. -/
def Marked (db : Db) : Prop :=
  ∀ m u b, db.get ⟨.mapBans, (m, u)⟩ = some b → b.liftedAt = none →
    (db.get ⟨.mapUnofficial, (m, u)⟩).isSome = true

/-- A row of another table was written. -/
theorem Marked.put (h : Marked pre) {w : Write Table.Key Table.Row} (hb : w.row.table ≠ .mapBans)
    (hm : w.row.table ≠ .mapUnofficial) : Marked (pre.put w) := by
  intro m u b hget hlift
  rw [Store.get_put_of_ne fun he => hb (congrArg RowKey.table he)] at hget
  rw [Store.get_put_of_ne fun he => hm (congrArg RowKey.table he)]
  exact h m u b hget hlift

/-- The rows of one ban and its mark were written, and if the ban is not lifted then the mark is
there. -/
theorem Marked.of_one (h : Marked pre)
    (hbans : ∀ k, k ≠ (m, u) → post.get ⟨.mapBans, k⟩ = pre.get ⟨.mapBans, k⟩)
    (hmarks : ∀ k, k ≠ (m, u) →
      post.get ⟨.mapUnofficial, k⟩ = pre.get ⟨.mapUnofficial, k⟩)
    (hone : ∀ b, post.get ⟨.mapBans, (m, u)⟩ = some b → b.liftedAt = none →
      (post.get ⟨.mapUnofficial, (m, u)⟩).isSome = true) : Marked post := by
  intro m' u' b hget hlift
  by_cases hk : (m', u') = (m, u)
  · cases hk
    exact hone b hget hlift
  · rw [hbans _ hk] at hget
    rw [hmarks _ hk]
    exact h m' u' b hget hlift

theorem liftWrites_bans (b : MapBan) (clears : Bool) (k : String × Uuid) :
    (Store.view (liftWrites m u b clears) pre).get ⟨.mapBans, k⟩ =
      if k = (m, u) then some b else pre.get ⟨.mapBans, k⟩ := by
  have hput : (pre.put ⟨⟨.mapBans, (m, u)⟩, some b⟩).get ⟨.mapBans, k⟩ =
      if k = (m, u) then some b else pre.get ⟨.mapBans, k⟩ := by
    split
    case isTrue h =>
      subst h
      exact Store.get_put_self pre ⟨.mapBans, (m, u)⟩ (some b)
    case isFalse h => exact Store.get_put_of_ne (by simpa using Ne.symm h)
  cases clears with
  | false => exact hput
  | true => exact (Store.get_put_of_ne (by simp)).trans hput

theorem liftWrites_marks (b : MapBan) (clears : Bool) (k : String × Uuid) :
    (Store.view (liftWrites m u b clears) pre).get ⟨.mapUnofficial, k⟩ =
      if k = (m, u) ∧ clears = true then none else pre.get ⟨.mapUnofficial, k⟩ := by
  have hput : (pre.put ⟨⟨.mapBans, (m, u)⟩, some b⟩).get ⟨.mapUnofficial, k⟩ =
      pre.get ⟨.mapUnofficial, k⟩ := Store.get_put_of_ne (by simp)
  cases clears with
  | false => simpa [liftWrites] using hput
  | true =>
      simp only [liftWrites, if_true, List.singleton_append, Store.view_cons,
        Store.view_nil, and_true]
      split
      case isTrue h =>
        subst h
        exact Store.get_put_self _ _ _
      case isFalse h => exact (Store.get_put_of_ne (by simpa using Ne.symm h)).trans hput

/-- A lift touches no other table. -/
theorem liftWrites_others (b : MapBan) (clears : Bool) {k : DbKey}
    (hb : k.table ≠ Table.mapBans) (hm : k.table ≠ Table.mapUnofficial) :
    (Store.view (liftWrites m u b clears) pre).get k = pre.get k := by
  apply Store.view_get_of_notMem
  intro w hw he
  subst he
  rcases List.mem_append.1 hw with hw | hw
  · split at hw
    · rw [List.mem_singleton.1 hw] at hm
      exact hm rfl
    · cases hw
  · rw [List.mem_singleton.1 hw] at hb
    exact hb rfl

/-! ## Bans and marks -/

/-- The kinds of changes, as far as bans and marks go. -/
inductive Standing (j : Job) (log : Log) (pre post : Db) : Prop
  | same (hbans : ∀ k, post.get ⟨.mapBans, k⟩ = pre.get ⟨.mapBans, k⟩)
      (hmarks : ∀ k, post.get ⟨.mapUnofficial, k⟩ = pre.get ⟨.mapUnofficial, k⟩)
  | banned (m : String) (u : Uuid) (cookie : Option String) (body : CreateBanBody) (b : MapBan)
      (r : UnofficialRow) (hj : j = .createBan m cookie body) (hb : b.liftedAt = none)
      (hlog : ∀ kind, opened (cleared kind m u) log = true)
      (hbans : ∀ k, post.get ⟨.mapBans, k⟩ = if k = (m, u) then some b else pre.get
        ⟨.mapBans, k⟩)
      (hmarks : ∀ k, post.get ⟨.mapUnofficial, k⟩ =
        if k = (m, u) then some r else pre.get ⟨.mapUnofficial, k⟩)
  | lifted (m userId : String) (u liftedBy : Uuid) (cookie : Option String)
      (keepUnofficial clears : Bool) (b : MapBan) (now : Time)
      (hj : j = .liftBan m userId cookie keepUnofficial)
      (hclears : clears = true → keepUnofficial = false) (hu : Uuid.parse userId.toList = some u)
        (hclock : lastClock log = some now)
      (hb : pre.get ⟨.mapBans, (m, u)⟩ = some b) (hactive : b.isActive now = true)
      (hbans : ∀ k, post.get ⟨.mapBans, k⟩ =
        if k = (m, u) then some (b.lifted liftedBy now) else pre.get ⟨.mapBans, k⟩)
      (hmarks : ∀ k, post.get ⟨.mapUnofficial, k⟩ =
        if k = (m, u) ∧ clears = true then none else pre.get ⟨.mapUnofficial, k⟩)

/-- A row of another table was written. -/
theorem Standing.put {w : Write Table.Key Table.Row} (hb : w.row.table ≠ .mapBans)
    (hm : w.row.table ≠ .mapUnofficial) : Standing j log pre (pre.put w) :=
  .same (fun _ => Store.get_put_of_ne fun he => hb (congrArg RowKey.table he))
    fun _ => Store.get_put_of_ne fun he => hm (congrArg RowKey.table he)

theorem Change.standing (h : Change j log pre post) : Standing j log pre post := by
  cases h with
  | nothing => exact .same (fun _ => rfl) fun _ => rfl
  | user u r => exact .put (by simp) (by simp)
  | audit id r => exact .put (by simp) (by simp)
  | metadata m r => exact .put (by simp) (by simp)
  | promoted u r => exact .put (by simp) (by simp)
  | demoted u hj hlog => exact .put (by simp) (by simp)
  | delegated m u r hlog => exact .put (by simp) (by simp)
  | undelegated m u => exact .put (by simp) (by simp)
  | banned m u cookie body b r hj hb hlog =>
      refine .banned m u cookie body b r hj hb hlog (fun k => ?_) fun k => ?_
      · rw [Store.get_put_of_ne (by simp)]
        split
        case isTrue hk =>
          subst hk
          exact Store.get_put_self pre ⟨.mapBans, (m, u)⟩ (some b)
        case isFalse hk => exact Store.get_put_of_ne (by simpa using Ne.symm hk)
      · split
        case isTrue hk =>
          subst hk
          exact Store.get_put_self _ _ _
        case isFalse hk =>
          rw [Store.get_put_of_ne (by simpa using Ne.symm hk), Store.get_put_of_ne (by simp)]
  | lifted m userId u liftedBy cookie keep clears b now hj hclears hu hclock hb hactive =>
      exact .lifted m userId u liftedBy cookie keep clears b now hj hclears hu hclock hb hactive
        (liftWrites_bans _ _) (liftWrites_marks _ _)

theorem Marked.change (h : Marked pre) (hc : Change j log pre post) : Marked post := by
  cases hc with
  | nothing => exact h
  | user u r => exact h.put (by simp) (by simp)
  | audit id r => exact h.put (by simp) (by simp)
  | metadata m r => exact h.put (by simp) (by simp)
  | promoted u r => exact h.put (by simp) (by simp)
  | demoted u hj hlog => exact h.put (by simp) (by simp)
  | delegated m u r hlog => exact h.put (by simp) (by simp)
  | undelegated m u => exact h.put (by simp) (by simp)
  | banned m u cookie body b r hj hb hlog =>
      refine h.of_one (m := m) (u := u) (fun k hk => ?_) (fun k hk => ?_) fun _ _ _ => by simp
      · rw [Store.get_put_of_ne (by simp), Store.get_put_of_ne (by simpa using Ne.symm hk)]
      · rw [Store.get_put_of_ne (by simpa using Ne.symm hk), Store.get_put_of_ne (by simp)]
  | lifted m userId u liftedBy cookie keep clears b now hj hclears hu hclock hb hactive =>
      refine h.of_one (m := m) (u := u) (fun k hk => ?_) (fun k hk => ?_) fun b' hget hlift => ?_
      · rw [liftWrites_bans, if_neg hk]
      · rw [liftWrites_marks, if_neg fun h => hk h.1]
      · rw [liftWrites_bans, if_pos rfl] at hget
        cases hget
        cases hlift

/-- An active ban is not lifted. -/
theorem MapBan.isActive.unlifted {b : MapBan} {now : Time} (h : b.isActive now = true) :
    b.liftedAt = none := by
  rw [MapBan.isActive, Bool.and_eq_true] at h
  exact Option.isNone_iff_eq_none.1 h.1

theorem Marked.of_banned {db : Db} {now : Time} (h : Marked db) (hb : isBanned db now m u = true) :
    (db.get ⟨.mapUnofficial, (m, u)⟩).isSome = true := by
  obtain ⟨b, hget, hactive⟩ := isBanned_iff.1 hb
  exact h m u b hget (MapBan.isActive.unlifted hactive)

end Dd2Server.Moderation
