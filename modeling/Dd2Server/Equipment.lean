import Dd2Server.Runs

/-!
# Worn hats are unlocked and on the map

An equip writes a row only for a hat that the user has and that the map has, under share locks of
both.  A bind takes off what its new catalog does not have, and nothing else removes a hat from a
map or an unlock from a user.
-/

namespace Dd2Server

open ReadCommitted

/-- Every worn hat is unlocked by its wearer, and on the map under its slug and key. -/
def WornAreUnlocked (db : Db) : Prop :=
  ∀ u m e, db.get ⟨.hatEquipped, (u, m)⟩ = some e → MayWear u m e.slug e.hatKey db

/-- The tables of the hats. -/
def hatTables : List Table := [.hatCatalog, .hatOnMap, .hatUnlock, .hatEquipped]

/-- The request was answered with an error, or the bind by comment did not take place. -/
def Reply.failed : Reply → Bool
  | .login r => !r.isOk
  | .spec r => !r.isOk
  | .bind r => !r.isOk
  | .comment (.ok (.bound ..)) => false
  | .comment _ => true
  | .recheck (.ok (some (.bound ..))) => false
  | .recheck _ => true
  | .unlock r => !r.isOk
  | .equip r => !r.isOk
  | .bound r => !r.isOk
  | .worn r => !r.isOk

section

variable {pg : Pg} {pre post : Db} {u : Uuid} {m : String}

/-! ## One step -/

theorem MayWear.frame {ts : List Table} {slug key : String} (h : MayWear u m slug key pre)
    (hf : Frame ts pre post) (hts : ∀ t ∈ [Table.hatUnlock, .hatOnMap], t ∉ ts) :
    MayWear u m slug key post := by
  obtain ⟨⟨r, hr⟩, x, hx, hkey⟩ := h
  exact ⟨⟨r, (hf ⟨.hatUnlock, (u, key)⟩ (hts .hatUnlock (by decide))).trans hr⟩, x,
    (hf ⟨.hatOnMap, (m, slug)⟩ (hts .hatOnMap (by decide))).trans hx, hkey⟩

/-- A step away from the hats on maps and the unlocks that puts on no hat. -/
theorem WornAreUnlocked.of_shrink {ts : List Table} (h : WornAreUnlocked pre)
    (hf : Frame ts pre post) (hts : ∀ t ∈ [Table.hatUnlock, .hatOnMap], t ∉ ts)
    (hshrink : ∀ k e, post.get ⟨.hatEquipped, k⟩ = some e →
      pre.get ⟨.hatEquipped, k⟩ = some e) : WornAreUnlocked post :=
  fun u m e he => (h u m e (hshrink _ e he)).frame hf hts

theorem WornAreUnlocked.aside {ts : List Table} (h : WornAreUnlocked pre) (hf : Frame ts pre post)
    (hts : ∀ t ∈ [Table.hatUnlock, .hatOnMap, .hatEquipped], t ∉ ts) :
    WornAreUnlocked post := by
  refine h.of_shrink hf (fun t ht => hts t (by simp only [List.mem_cons] at ht ⊢; tauto))
    fun k e he => ?_
  rwa [hf ⟨.hatEquipped, k⟩ (hts .hatEquipped (by decide))] at he

/-- What fits a catalog is on a map that has its copies. -/
theorem fits_onMap {specId : Int} {s : SpecRow} {c : Parsed} {e : HatEquippedRow}
    (hcop : CopiesReplaced pg m specId s c pre post) (hfits : c.fits pg m e = true) :
    ∃ h, post.get ⟨.hatOnMap, (m, e.slug)⟩ = some h ∧ h.hatKey = e.hatKey := by
  obtain ⟨x, hx, hok⟩ := List.any_eq_true.1 hfits
  simp only [Bool.and_eq_true, decide_eq_true_eq] at hok
  obtain ⟨hslug, hkey⟩ := hok
  refine ⟨Hats.onMapRow pg m (specId, x.slug) (Hats.catalogRow s.userId s.nameId x),
    (hcop.hats _ _).2 (.inl (List.mem_map.2 ⟨_, List.mem_map.2 ⟨x, hx, rfl⟩, ?_⟩)), hkey⟩
  rw [← hslug]

theorem WornAreUnlocked.bound {specId : Int} {s : SpecRow} {c : Parsed} {t : Time} {purge : Bool}
    (h : WornAreUnlocked pre) (hb : Bound pg m specId s c t purge pre post) :
    WornAreUnlocked post := by
  intro v m' e he
  obtain ⟨he, hfits⟩ := (hb.equipped _ e).1 he
  obtain ⟨⟨r, hr⟩, x, hx, hkey⟩ := h v m' e he
  refine ⟨⟨r, (hb.others.get _ (by decide)).trans hr⟩, ?_⟩
  rcases eq_or_ne m' m with rfl | hm
  · exact fits_onMap hb.copies (hfits rfl).2
  · exact ⟨x, (hb.copies.hats _ _).2 (.inr ⟨hx, hm⟩), hkey⟩

theorem WornAreUnlocked.unlocked {key : String} (h : WornAreUnlocked pre)
    (hun : Unlocked u key pre post) : WornAreUnlocked post := by
  intro v m' e he
  rw [hun.frame.get _ (by decide)] at he
  obtain ⟨⟨r, hr⟩, x, hx, hkey⟩ := h v m' e he
  refine ⟨?_, x, (hun.frame.get _ (by decide)).trans hx, hkey⟩
  rcases eq_or_ne (v, e.hatKey) (u, key) with hk | hk
  · rw [hk]
    exact hun.unlock
  · exact ⟨r, (hun.rest _ (by simpa using hk)).trans hr⟩

theorem WornAreUnlocked.equipped {e : HatEquippedRow} (h : WornAreUnlocked pre)
    (heq : Equipped u m e pre post) : WornAreUnlocked post := by
  intro v m' e' he
  rcases eq_or_ne (v, m') (u, m) with hk | hk
  · cases hk
    rw [heq.put.row] at he
    cases he
    have hmay : MayWear u m e.slug e.hatKey pre := ⟨heq.unlock, heq.onMap⟩
    exact hmay.frame heq.put.frame (by simp)
  · rw [heq.put.others _ (by simpa using hk)] at he
    exact (h v m' e' he).frame heq.put.frame (by simp)

/-- Every commit keeps the invariant. -/
theorem WornAreUnlocked.step (h : WornAreUnlocked pre) (hstep : Commit pg False pre post) :
    WornAreUnlocked post := by
  cases hstep with
  | same he => rwa [he]
  | hit hit => exact h.aside hit.others (by decide)
  | upserted hup => exact h.aside hup.others (by decide)
  | deleted hdel => exact h.aside hdel.others (by decide)
  | catalog hcat => exact h.aside (CatalogDeleted.frame (w := .any) hcat) (by decide)
  | bound hb => exact h.bound hb
  | unlocked hun => exact h.unlocked hun
  | equipped heq => exact h.equipped heq
  | unequipped hun => exact h.of_shrink hun.frame (by decide) fun _ _ => hun.shrinks
  | login hlog => exact h.aside hlog.others (by decide)

/-! ## Failed requests -/

/-- The commit left the hats alone. -/
def HatsKept (pre post : Db) : Prop :=
  ∀ k : DbKey, k.table ∈ hatTables → post.get k = pre.get k

theorem HatsKept.of_frame {ts : List Table} (hf : Frame ts pre post)
    (hts : ∀ t ∈ hatTables, t ∉ ts) :
    HatsKept pre post := fun k hk => hf k (hts _ hk)

theorem Uncommitted.hatsKept {log : Log} (h : Uncommitted log) : Commits HatsKept log :=
  h.mono fun _ _ hf => absurd hf id

theorem commentReply_failed {told : Bool} {o : CommentBindOutcome} {log : Log} {db : Db}
    (h : CommentReply m told o log db)
    (ho : ∀ specId mat replaced, o ≠ .bound specId mat replaced) : Commits HatsKept log := by
  cases o with
  | bound specId mat replaced => exact absurd rfl (ho specId mat replaced)
  | _ => exact Uncommitted.hatsKept h

/-- The commits of a request that failed, if any, leave the hats alone. -/
theorem Job.Ended.failed {w : Scope} {j : Job} {r : Reply} {log : Log} {db : Db}
    (h : Job.Ended pg w j r log db) (hr : r.failed = true) (hj : ∀ u n, j ≠ .deleteSpec u n) :
    Commits HatsKept log := by
  cases j with
  | deleteSpec u n => exact absurd rfl (hj u n)
  | login u name =>
      cases r with
      | login r => cases r <;> exact Commits.mono h fun _ _ hl => .of_frame hl.others (by decide)
      | _ => exact h.elim
  | upload u n spec =>
      cases r with
      | spec r =>
          cases r with
          | error e => exact Commits.mono h fun _ _ hl => .of_frame hl.others (by decide)
          | ok _ => cases hr
      | _ => exact h.elim
  | reportMap u m specId | deferredBind u m specId =>
      cases r with
      | bind r =>
          cases r with
          | error e =>
              cases e with
              | db => exact Uncommitted.hatsKept h
              | str e => exact Uncommitted.hatsKept h.1
          | ok _ => cases hr
      | _ => exact h.elim
  | commentBind m =>
      cases r with
      | comment r =>
          cases r with
          | error e => exact h.elim
          | ok o => exact commentReply_failed h fun _ _ _ he => by rw [he] at hr; cases hr
      | _ => exact h.elim
  | recheckBind m =>
      cases r with
      | recheck r =>
          cases r with
          | error e => exact h.elim
          | ok o =>
              cases o with
              | none => exact Uncommitted.hatsKept h
              | some o => exact commentReply_failed h fun _ _ _ he => by rw [he] at hr; cases hr
      | _ => exact h.elim
  | hatUnlock u m slug specId =>
      cases r with
      | unlock r =>
          cases r with
          | error e => exact Uncommitted.hatsKept h
          | ok _ => cases hr
      | _ => exact h.elim
  | hatEquip u m slug =>
      cases r with
      | equip r =>
          cases r with
          | error e => exact Uncommitted.hatsKept h
          | ok _ => cases hr
      | _ => exact h.elim
  | authoritativeBind u m specId =>
      cases r with
      | bound r =>
          cases r with
          | error e => exact Uncommitted.hatsKept h.1
          | ok _ => cases hr
      | _ => exact h.elim
  | equip u m slug =>
      cases r with
      | worn r =>
          cases r with
          | error e => exact Uncommitted.hatsKept h
          | ok _ => cases hr
      | _ => exact h.elim

end

/-! ## All runs -/

theorem wornAreUnlocked_empty : WornAreUnlocked Store.empty := fun u m e he => by simp at he

/-- In every reachable state worn hats are unlocked and on the map, one for each user and map, and a
failed request has left the hats as they were. -/
theorem equipment_invariant {pg : Pg} {s : System} (hrun : Run pg s) :
    WornAreUnlocked s.db ∧ ((s.db.rows .hatEquipped).map Prod.fst).Nodup ∧
      ∀ t ∈ s.tasks, ∀ r, t.prog = .ret r → r.failed = true →
        (∀ u n, t.job ≠ .deleteSpec u n) → Commits HatsKept t.loc.log := by
  refine ⟨?_, Store.rows_nodup _ _, fun t ht r hr hf hj => ?_⟩
  · exact hrun.invariant (inv_empty pg False) wornAreUnlocked_empty
      fun _ _ _ hstep h => h.step hstep
  · exact (hrun.ended (inv_empty pg False) ht hr).failed hf hj

/-- The author of the bound map puts on its hat. -/
theorem equipment_invariant_worn : ∃ s : System, Run Sample.pg s ∧
    (s.db.get ⟨.hatEquipped, (1, Sample.mapUid)⟩).isSome = true ∧ WornAreUnlocked s.db ∧
      ((s.db.rows .hatEquipped).map Prod.fst).Nodup := by
  obtain ⟨s, hrun, hworn⟩ : ∃ s, RunFrom Sample.pg Store.empty s ∧
      (s.db.get ⟨.hatEquipped, (1, Sample.mapUid)⟩).isSome = true :=
    RunFrom.scripted (Sample.bound ++
      [.start (.hatUnlock 1 Sample.mapUid "Hat-1" 7), .go 3 40 (Sample.answers 7 none),
       .start (.hatEquip 1 Sample.mapUid "Hat-1"), .go 4 40 (Sample.answers 7 none)])
      (by decide +kernel)
  obtain ⟨hhats, hkeys, -⟩ := equipment_invariant hrun
  exact ⟨s, hrun, hworn, hhats, hkeys⟩

end Dd2Server
