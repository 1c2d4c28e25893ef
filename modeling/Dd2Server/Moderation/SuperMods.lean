import Dd2Server.Moderation.Runs
import Dd2Server.ReadCommitted.Conduct

/-!
# The last super-mod

`remove_super_mod` counts the super-mods in one statement and removes one of them in another.  Two
removals that both have counted before either commits may leave nobody.  Where no removal commits
while another that has counted is about the only other super-mod, one always remains.
-/

namespace Dd2Server.Moderation

open ReadCommitted

variable {env : Env} {s₀ s s' : System} {pre post : Db} {log : Log} {j : Job} {x y z : Uuid}
  {move : Move Ask.Ans Job}

def IsSuperMod (db : Db) (u : Uuid) : Prop := (db.get ⟨.superMods, u⟩).isSome = true

instance (db : Db) (u : Uuid) : Decidable (IsSuperMod db u) :=
  inferInstanceAs (Decidable ((db.get ⟨.superMods, u⟩).isSome = true))

theorem mem_superMods {db : Db} : x ∈ superMods db ↔ IsSuperMod db x := by
  rw [superMods, List.mem_map, IsSuperMod, Option.isSome_iff_exists]
  constructor
  · rintro ⟨⟨x, r⟩, hmem, rfl⟩
    exact ⟨r, Store.mem_rows.1 hmem⟩
  · rintro ⟨r, hr⟩
    exact ⟨(x, r), Store.mem_rows.2 hr, rfl⟩

theorem superMods_ne_nil {db : Db} : superMods db ≠ [] ↔ ∃ x, IsSuperMod db x := by
  constructor
  · intro h
    obtain ⟨x, hx⟩ := List.exists_mem_of_ne_nil _ h
    exact ⟨x, mem_superMods.1 hx⟩
  · rintro ⟨x, hx⟩
    exact List.ne_nil_of_mem (mem_superMods.2 hx)

/-- Of two super-mods one is not `y`. -/
theorem exists_other {db : Db} (h : 2 ≤ (superMods db).length) (y : Uuid) :
    ∃ x, x ≠ y ∧ IsSuperMod db x := by
  have hnodup : (superMods db).Nodup := Store.rows_nodup db .superMods
  have hcard : 1 < (superMods db).toFinset.card := by
    rw [List.toFinset_card_of_nodup hnodup]
    exact h
  obtain ⟨x, hx, hne⟩ := Finset.exists_mem_ne hcard y
  exact ⟨x, hne, mem_superMods.1 (List.mem_toFinset.1 hx)⟩

/-! ## Removals -/

/-- The task is a removal of `y` that has counted two super-mods at least and is not over. -/
def Removing (t : Task) (y : Uuid) : Prop :=
  Within counted t ∧ t.job.demotes = some y

/-- The move does not commit a removal while another one is about the only other super-mod. -/
def NotBothRemoved (s : System) : Move Ask.Ans Job → Prop
  | .run i _ => ∀ t next fail y, s.tasks[i]? = some t → t.prog = .commit next fail →
      Removing t y → IsSuperMod s.db y → ¬IsSuperMod (Store.view t.loc.writes s.db) y →
      ∀ t' ∈ s.tasks, ∀ z, Removing t' z → z ≠ y → IsSuperMod s.db z →
        ∃ x, x ≠ y ∧ x ≠ z ∧ IsSuperMod s.db x
  | _ => True

/-- What a commit does to the super-mods. -/
theorem Change.superMods_cases (h : Change j log pre post) :
    (∀ x, IsSuperMod pre x → IsSuperMod post x) ∨
      ∃ y, j.demotes = some y ∧ opened counted log = true ∧ ¬IsSuperMod post y ∧
        ∀ x, x ≠ y → (IsSuperMod post x ↔ IsSuperMod pre x) := by
  have hput : ∀ {w : Write Table.Key Table.Row}, w.row.table ≠ .superMods →
      ∀ {db : Db} x, (db.put w).get ⟨.superMods, x⟩ = db.get ⟨.superMods, x⟩ :=
    fun hw _ _ => Store.get_put_of_ne fun he => hw (congrArg RowKey.table he)
  have hsame : (∀ x, post.get ⟨.superMods, x⟩ = pre.get ⟨.superMods, x⟩) →
      ∀ x, IsSuperMod pre x → IsSuperMod post x := fun h x hx => by
    rw [IsSuperMod, h]
    exact hx
  cases h with
  | nothing => exact .inl fun _ h => h
  | user u r => exact .inl (hsame (hput (by simp)))
  | audit id r => exact .inl (hsame (hput (by simp)))
  | metadata m r => exact .inl (hsame (hput (by simp)))
  | delegated m u r hlog => exact .inl (hsame (hput (by simp)))
  | undelegated m u => exact .inl (hsame (hput (by simp)))
  | banned m u cookie body b r hj hb hlog =>
      exact .inl (hsame fun x => (hput (by simp) x).trans (hput (by simp) x))
  | lifted m userId u liftedBy cookie keep clears b now hj hclears hu hclock hb hactive =>
      exact .inl (hsame fun x => liftWrites_others _ _ (by simp) (by simp))
  | promoted u r =>
      refine .inl fun x hx => ?_
      by_cases hxu : u = x
      · subst hxu
        simp [IsSuperMod]
      · rw [IsSuperMod, Store.get_put_of_ne (by simpa using hxu)]
        exact hx
  | demoted u hj hlog =>
      refine .inr ⟨u, hj, hlog, by simp [IsSuperMod], fun x hne => ?_⟩
      rw [IsSuperMod, IsSuperMod, Store.get_put_of_ne (by simpa using Ne.symm hne)]

/-! ## The invariant -/

/-- There is a super-mod, and for each removal that has counted there is another than its own. -/
structure Remaining (s : System) : Prop where
  nonempty : ∃ x, IsSuperMod s.db x
  others : ∀ t ∈ s.tasks, ∀ y, Removing t y → ∃ x, x ≠ y ∧ IsSuperMod s.db x

/-- A removal that is under way after a move of its task. -/
theorem Removing.advance {held : List (Lock Table.Key)} {t t' : Task} {c : Choice Ask.Ans}
    {db' : Db} {mem' : Time} (hjob : t'.job = t.job)
    (hadv : ReadCommitted.advance shared held s.db s.mem t.prog t.loc c =
      some (db', mem', t'.prog, t'.loc)) (h : Removing t' y) :
    Removing t y ∨ 2 ≤ (superMods s.db).length := by
  obtain ⟨hwithin, hj⟩ := h
  rw [hjob] at hj
  rcases hwithin.advance hadv with hold | ⟨tag, hread⟩
  · exact .inl ⟨hold, hj⟩
  · cases tag <;> simp [counted] at hread
    exact .inr hread

/-- The invariant over more super-mods. -/
theorem Remaining.mono {db : Db} {tasks : List Task} (hsome : ∃ x, IsSuperMod db x)
    (hothers : ∀ t ∈ tasks, ∀ y, Removing t y → ∃ x, x ≠ y ∧ IsSuperMod db x)
    (hmono : ∀ x, IsSuperMod db x → IsSuperMod s.db x) (htasks : s.tasks = tasks) :
    Remaining s where
  nonempty := hsome.imp hmono
  others t ht y hy := by
    rw [htasks] at ht
    obtain ⟨x, hne, hx⟩ := hothers t ht y hy
    exact ⟨x, hne, hmono x hx⟩

/-- A removal commits. -/
theorem Remaining.removal (h : Remaining s) {i : Nat} {c : Choice Ask.Ans} {t t' : Task}
    (hok : NotBothRemoved s (.run i c)) (ht : s.tasks[i]? = some t)
    (hjob : t'.job = t.job) (htasks : s'.tasks = s.tasks.set i t')
    {next fail : Server (Option Reply)} (hp : t.prog = .commit next fail)
    (hdb : s'.db = Store.view t.loc.writes s.db) (hy : Removing t y) (hsuper : IsSuperMod s.db y)
    (hgone : ¬IsSuperMod s'.db y)
    (hsame : ∀ x, x ≠ y → (IsSuperMod s'.db x ↔ IsSuperMod s.db x)) : Remaining s' := by
  obtain ⟨x, hxy, hx⟩ := h.others t (List.mem_of_getElem? ht) y hy
  refine ⟨⟨x, (hsame x hxy).2 hx⟩, fun t₂ ht₂ z hz => ?_⟩
  by_cases hzy : z = y
  · subst hzy
    exact ⟨x, hxy, (hsame x hxy).2 hx⟩
  rw [htasks] at ht₂
  rcases List.mem_or_eq_of_mem_set ht₂ with ht₂ | rfl
  · by_cases hzs : IsSuperMod s.db z
    · rw [hdb] at hgone
      obtain ⟨x', hx'y, hx'z, hx'⟩ :=
        hok t next fail y ht hp hy hsuper hgone t₂ ht₂ z hz hzy hzs
      exact ⟨x', hx'z, (hsame x' hx'y).2 hx'⟩
    · refine ⟨x, ?_, (hsame x hxy).2 hx⟩
      rintro rfl
      exact hzs hx
  · -- the task that committed was about `y`
    have hjz := hz.2
    rw [hjob, hy.2] at hjz
    exact absurd (Option.some.inj hjz).symm hzy

theorem Remaining.step (h : Remaining s) (horderly : Orderly s) (hok : NotBothRemoved s move)
    (hstep : Step env s move s') : Remaining s' := by
  cases Sys.move_cases hstep with
  | started j hdb hmem htasks =>
      refine Remaining.mono h.nonempty ?_ (fun x hx => by rw [hdb]; exact hx) htasks
      intro t ht y hy
      rcases List.mem_append.1 ht with ht | ht
      · exact h.others t ht y hy
      · rw [List.mem_singleton.1 ht] at hy
        cases hy.1.2
  | dropped i t₁ ht₁ hdb hmem htasks =>
      refine Remaining.mono h.nonempty ?_ (fun x hx => by rw [hdb]; exact hx) htasks
      exact fun t ht => h.others t (List.mem_of_mem_eraseIdx ht)
  | ran i c t t' ht hjob htasks hadv =>
      have hothers : ∀ t₂ ∈ s.tasks.set i t', ∀ y, Removing t₂ y → ∃ x, x ≠ y ∧
          IsSuperMod s.db x := by
        intro t₂ ht₂ y hy
        rcases List.mem_or_eq_of_mem_set ht₂ with ht₂ | rfl
        · exact h.others t₂ ht₂ y hy
        · rcases Removing.advance hjob hadv hy with hy | htwo
          · exact h.others t (List.mem_of_getElem? ht) y hy
          · exact exists_other htwo y
      rcases (horderly.run ht s.admits_true hstep).2 with hdb | ⟨-, hchange, -⟩
      · exact .mono h.nonempty hothers (fun x hx => by rw [hdb]; exact hx) htasks
      rcases advance_commit hadv with hdb | ⟨next, fail, hp, hdb⟩
      · exact .mono h.nonempty hothers (fun x hx => by rw [hdb]; exact hx) htasks
      rcases Change.superMods_cases hchange with hmono | ⟨y, hj, hlog, hgone, hsame⟩
      · exact .mono h.nonempty hothers hmono htasks
      by_cases hsuper : IsSuperMod s.db y
      · have hy : Removing t y := ⟨⟨by rw [hp]; rfl, hlog⟩, hj⟩
        exact h.removal hok ht hjob htasks hp hdb hy hsuper hgone hsame
      · refine .mono h.nonempty hothers (fun x hx => (hsame x ?_).2 hx) htasks
        rintro rfl
        exact hsuper hx

/-- In every run in which no removal commits while another is about the only other super-mod, a
super-mod remains. -/
theorem super_mod_remains (htasks : s₀.tasks = []) (hsome : superMods s₀.db ≠ [])
    (hrun : ReachBy shared (Job.body env) NotBothRemoved s₀ s) : superMods s.db ≠ [] := by
  have hinv : Remaining s := by
    induction hrun with
    | init => exact ⟨superMods_ne_nil.1 hsome, by simp [htasks]⟩
    | step hs hok hstep ih =>
        have hreach : Run env s₀ _ := hs.reach fun s _ _ => s.admits_true
        exact ih.step (hreach.orderly htasks) hok hstep
  exact superMods_ne_nil.2 hinv.nonempty

/-! ## Two removals -/

namespace Sample

def one : String := "00000000000000000000000000000001"

/-- Users 1 and 2 are super-mods. -/
def twoSuperMods : System := { db := db.put ⟨⟨.superMods, 2⟩, some superMod⟩, mem := 100 }

end Sample

/-- Both removals count two super-mods, and each removes one. -/
theorem super_mods_gone :
    Sample.twoSuperMods.tasks = [] ∧ superMods Sample.twoSuperMods.db ≠ [] ∧
      ∃ s, Run Sample.env Sample.twoSuperMods s ∧ superMods s.db = [] :=
  ⟨rfl, by decide +kernel, Reach.scripted [
    .start (.removeSuperMod Sample.two Sample.cookie),
      .start (.removeSuperMod Sample.one Sample.cookie),
    .go 0 4 (Sample.answers 1), .go 1 40 (Sample.answers 2), .go 0 40 (Sample.answers 3)]
    (by decide +kernel)⟩

/-- No other task than the one that moves is past its count. -/
def Alone (s : System) : Move Ask.Ans Job → Prop
  | .run i _ =>
      ∀ k < s.tasks.length, k ≠ i →
        (s.tasks[k]?).all (fun t => !opened counted t.loc.log) = true
  | _ => True

instance : ∀ (s : System) (move : Move Ask.Ans Job), Decidable (Alone s move)
  | _, .start _ => .isTrue trivial
  | _, .drop _ => .isTrue trivial
  | s, .run i _ => inferInstanceAs (Decidable (∀ k < s.tasks.length, k ≠ i →
      (s.tasks[k]?).all (fun t => !opened counted t.loc.log) = true))

theorem Alone.notBothRemoved (h : Alone s move) : NotBothRemoved s move := by
  cases move with
  | start j => trivial
  | drop i => trivial
  | run i c =>
      intro t next fail y ht hp hy hsuper hgone t' ht' z hz hzy hzs
      obtain ⟨k, hk⟩ := List.getElem?_of_mem ht'
      by_cases hki : k = i
      · subst hki
        obtain rfl : t = t' := Option.some.inj (ht.symm.trans hk)
        exact absurd (Option.some.inj (hz.2.symm.trans hy.2)) hzy
      · have hno := h k (List.getElem?_eq_some_iff.1 hk).1 hki
        rw [hk, Option.all_some, hz.1.2] at hno
        cases hno

/-- One of two super-mods is removed, and the other cannot remove itself. -/
theorem super_mod_remains_one :
    ∃ s, ReachBy shared (Job.body Sample.env) NotBothRemoved Sample.twoSuperMods s ∧
      s.tasks.length = 2 ∧ superMods s.db ≠ [] := by
  have hrun : ∃ s, ReachBy shared (Job.body Sample.env) Alone Sample.twoSuperMods s ∧
      s.tasks.length = 2 ∧ superMods s.db = [1] :=
    ReachBy.scriptedBy [
      .start (.removeSuperMod Sample.two Sample.cookie), .go 0 40 (Sample.answers 1),
      .start (.removeSuperMod Sample.one Sample.cookie), .go 1 40 (Sample.answers 2)]
      (by decide +kernel)
  obtain ⟨s, hs, hlen, -⟩ := hrun
  have hs' := hs.mono fun _ _ h => Alone.notBothRemoved h
  exact ⟨s, hs', hlen, super_mod_remains rfl (by decide +kernel) hs'⟩

end Dd2Server.Moderation
