import Dd2Server.RowLocks.Catalogs
import Dd2Server.SpecTransactions

/-!
# The upload

The statement of an upload finds the spec of its owner and name, and locks it, or makes one: then it
locks the name in the unique index and a spec that nobody else knows of.  Which of the two it is may
change while the statement waits.
-/

namespace Dd2Server

open ReadCommitted

section

variable {pg : Pg} {since : Log} {u : Uuid} {n : String} {nextId : Int}

/-- What an upload may take before its statement runs. -/
def MayUpsert (u : Uuid) (n : String) (nextId : Int) (db : Db) (x : RowLock) : Prop :=
  x.row.table = .users ∨
    x.mode.exclusive = true ∧
      (x.row = ⟨.specNames, (u, n)⟩ ∧ db.get ⟨.specNames, (u, n)⟩ = none ∨
        ∃ id, x.row = ⟨.specs, id⟩ ∧
          (db.get ⟨.specNames, (u, n)⟩ = some id ∨ id = nextId ∧
            db.get ⟨.specs, id⟩ = none))

theorem mayUpsert_lasting (had : List RowLock) :
    Lasting namesProtocol had (MayUpsert u n nextId) := by
  intro held db db' x hx _ hr h
  rcases h with hu | ⟨hex, ⟨hrow, hnone⟩ | ⟨id, hrow, hid⟩⟩
  · exact .inl hu
  · refine .inr ⟨hex, .inl ⟨hrow, ?_⟩⟩
    rw [← hnone, ← hrow]
    exact hr.row x hx (Mode.ne_keyShare hex)
  · refine .inr ⟨hex, .inr ⟨id, hrow, ?_⟩⟩
    rcases hid with hid | ⟨rfl, hnone⟩
    · exact .inl (hr.stay _ id hid)
    · refine .inr ⟨rfl, ?_⟩
      rw [← hnone, ← hrow]
      exact hr.row x hx (Mode.ne_keyShare hex)

theorem mayUpsert_below (db : Db) (x : RowLock) (h : MayUpsert u n nextId db x) : Below 3 x := by
  rcases h with hu | ⟨-, ⟨hrow, -⟩ | ⟨id, hrow, -⟩⟩
  · rw [Below, level_of_users hu]
    decide
  · rw [Below, hrow]
    exact Nat.lt_succ_self 2
  · rw [Below, hrow]
    exact Nat.lt_succ_of_lt (Nat.lt_succ_self 1)

/-! ## The spec that stands -/

theorem existing_inOrder {held : List RowLock} {log : Log} {db : Db} {id : Int} {x : RowLock}
    (hheld : ∀ x ∈ held, MayUpsert u n nextId db x) (hdrew : Drew log nextId)
    (hname : db.get ⟨.specNames, (u, n)⟩ = some id) (hrow : x.row = ⟨.specs, id⟩) :
    Ordered held log db x := by
  intro _ hnew _ y hy hpriv
  rcases hheld y hy with hu | ⟨hex, ⟨-, hnone⟩ | ⟨id', hrow', hid'⟩⟩
  · rw [level_of_users hu, hrow]
    exact .inl (Nat.lt_succ_self 0)
  · rw [hname] at hnone
    cases hnone
  · rcases hid' with hid' | ⟨rfl, hnone⟩
    · rw [hname] at hid'
      cases hid'
      exact absurd ⟨y, hy, hrow'.trans hrow.symm, .inr hex⟩ hnew
    · exact absurd ⟨id', hrow', hdrew, hnone⟩ hpriv

/-- A new revision of a spec under the same name. -/
theorem Sure.revised {L : List RowLock} {db : Db} {id : Int} {r r' : SpecRow}
    (hnamed : WellNamed db) (hname : db.get ⟨.specNames, (u, n)⟩ = some id)
    (hr : db.get ⟨.specs, id⟩ = some r) (huser : r'.userId = r.userId)
    (hnameId : r'.nameId = r.nameId) :
    Sure L id u n db (db.put ⟨⟨.specs, id⟩, some r'⟩) := by
  have hother : ∀ k : DbKey, k.table ≠ .specs →
      (db.put ⟨⟨.specs, id⟩, some r'⟩).get k = db.get k :=
    fun k hk => Store.get_put_of_ne fun he => hk (by rw [← he])
  refine ⟨⟨⟨fun id' s hs => ?_, fun u' n' slug g id' hg hid' => ?_⟩, fun k id' hk => ?_⟩,
    ?_, fun k hk => ?_⟩
  · rw [hother _ (by simp)]
    rcases eq_or_ne id' id with rfl | hne
    · rw [Store.get_put_self] at hs
      cases hs
      rw [huser, hnameId]
      exact hnamed.indexed id' r hr
    · rw [Store.get_put_of_ne (by simpa using Ne.symm hne)] at hs
      exact hnamed.indexed id' s hs
  · rw [hother _ (by simp)] at hg ⊢
    exact hnamed.games u' n' slug g id' hg hid'
  · rw [hother _ (by simp)]
    exact hk
  · rw [hother _ (by simp)]
    exact hname
  · rw [hother _ (by simp)] at hk
    exact .inl hk

/-! ## A new spec -/

theorem name_inOrder {held : List RowLock} {log : Log} {db : Db} {x : RowLock}
    (hheld : ∀ x ∈ held, MayUpsert u n nextId db x) (hrow : x.row = ⟨.specNames, (u, n)⟩) :
    Ordered held log db x := by
  intro _ hnew _ y hy _
  rw [hrow]
  rcases hheld y hy with hu | ⟨hex, ⟨hrow', -⟩ | ⟨id', hrow', -⟩⟩
  · rw [level_of_users hu]
    exact .inl (Nat.zero_lt_succ 1)
  · exact absurd ⟨y, hy, hrow'.trans hrow.symm, .inr hex⟩ hnew
  · rw [hrow']
    exact .inl (Nat.lt_succ_self 1)

theorem created_locks {db : Db} {r : SpecRow} (x : RowLock)
    (hx : x ∈ Effect.allLocks db
      { writes := [⟨⟨.specNames, (u, n)⟩, some nextId⟩, ⟨⟨.specs, nextId⟩, some r⟩]
        locks := [⟨⟨.specs, nextId⟩, .noKeyUpdate⟩, ⟨⟨.users, u⟩, .keyShare⟩] }) :
    x.mode.exclusive = true ∧ (x.row = ⟨.specNames, (u, n)⟩ ∨
      x.row = ⟨.specs, nextId⟩) ∨ x = ⟨⟨.users, u⟩, .keyShare⟩ := by
  simp only [Effect.allLocks, List.map_cons, List.map_nil, List.cons_append,
    List.nil_append, List.mem_cons, List.not_mem_nil, or_false] at hx
  rcases hx with rfl | rfl | rfl | rfl
  · exact .inl ⟨Write.lock_exclusive _ _, .inl rfl⟩
  · exact .inl ⟨Write.lock_exclusive _ _, .inr rfl⟩
  · exact .inl ⟨rfl, .inr rfl⟩
  · exact .inr rfl

/-- A new spec under a name that is free. -/
theorem Sure.created {L : List RowLock} {db : Db} {r : SpecRow} (hu : r.userId = u)
    (hn : r.nameId = n) (hnamed : WellNamed db)
    (hL : Holds L ⟨.specNames, (u, n)⟩)
    (hfree : db.get ⟨.specNames, (u, n)⟩ = none) :
    Sure L nextId u n db
      ((db.put ⟨⟨.specs, nextId⟩, some r⟩).put ⟨⟨.specNames, (u, n)⟩,
        some nextId⟩) := by
  have hspecs : ∀ id, ((db.put ⟨⟨.specs, nextId⟩, some r⟩).put
      ⟨⟨.specNames, (u, n)⟩, some nextId⟩).get ⟨.specs, id⟩ =
        (db.put ⟨⟨.specs, nextId⟩, some r⟩).get ⟨.specs, id⟩ :=
          fun id => Store.get_put_of_ne (by simp)
  have hnames : ∀ k, k ≠ (u, n) → ((db.put ⟨⟨.specs, nextId⟩, some r⟩).put
      ⟨⟨.specNames, (u, n)⟩, some nextId⟩).get ⟨.specNames, k⟩ = db.get
        ⟨.specNames, k⟩ := by
    intro k hk
    rw [Store.get_put_of_ne (by simpa using Ne.symm hk), Store.get_put_of_ne (by simp)]
  have hkept : ∀ k id, db.get ⟨.specNames, k⟩ = some id →
      ((db.put ⟨⟨.specs, nextId⟩, some r⟩).put
      ⟨⟨.specNames, (u, n)⟩, some nextId⟩).get ⟨.specNames, k⟩ = some id := by
    intro k id hk
    rw [hnames k, hk]
    rintro rfl
    rw [hfree] at hk
    cases hk
  refine ⟨⟨⟨fun id s hs => ?_, fun u' n' slug g id hg hid => ?_⟩, hkept⟩,
    Store.get_put_self _ _ _, fun k hk => ?_⟩
  · rw [hspecs] at hs
    rcases eq_or_ne id nextId with rfl | hne
    · rw [Store.get_put_self] at hs
      cases hs
      rw [hu, hn]
      exact Store.get_put_self _ _ _
    · rw [Store.get_put_of_ne (by simpa using Ne.symm hne)] at hs
      exact hkept _ id (hnamed.indexed id s hs)
  · rw [Store.get_put_of_ne (by simp), Store.get_put_of_ne (by simp)] at hg
    exact hkept _ id (hnamed.games u' n' slug g id hg hid)
  · rcases eq_or_ne k (u, n) with rfl | hne
    · exact .inr hL
    · rw [hnames k hne] at hk
      exact .inl hk

/-! ## The upload -/

theorem upsertSpec_rest {α : Type} {now : Time} {spec : Value} {threshold : Int}
    {f : Int → Query DbError α} (hdrew : (.answered .nextSpecId nextId : LogEvent) ∈ since)
    (hf : ∀ id L, Holds L ⟨.specs, id⟩ →
      Rest rowLocks since L (Below 3) (Sure L id u n) (f id)) :
    Rest rowLocks since [] (fun _ => False) (fun db v => v = db)
      (sql (CustomMapAuxSpecs.upsertSpecStmt pg nextId now u n spec threshold) >>= f) := by
  refine Rest.query (MayUpsert u n nextId) (fun had _ => mayUpsert_lasting had)
    (fun _ hx => hx.elim)
    mayUpsert_below fun ws db held log e id hinv hv _ hheld hsince he => ?_
  have hbound : ∀ x ∈ held, MayUpsert u n nextId db x :=
    fun x hx => (hheld x hx).resolve_left fun h => h
  rw [hv] at he ⊢
  simp only [CustomMapAuxSpecs.upsertSpecStmt] at he
  split at he
  case h_1 id r hfind =>
    simp only [Option.ite_none_right_eq_some, Option.some.injEq, Prod.mk.injEq] at he
    obtain ⟨-, rfl, rfl⟩ := he
    obtain ⟨hname, hr⟩ := find_eq_some.1 hfind
    have hlock : (⟨⟨.specs, id⟩, .noKeyUpdate⟩ : RowLock) ∈
        [(⟨⟨.specs, id⟩, .noKeyUpdate⟩ : RowLock)] :=
      List.mem_singleton.2 rfl
    refine ⟨fun x hx => ?_, [⟨⟨.specs, id⟩, .noKeyUpdate⟩], Sure _ id u n,
      fun x hx => List.mem_append_left _ (List.mem_append_right _ hx), fun db' hr' hv' => ?_,
      hf id _ ⟨_, hlock, rfl, rfl⟩⟩
    · have hrow : x.row = ⟨.specs, id⟩ ∧ x.mode.exclusive = true := by
        rcases List.mem_append.1 hx with hx | hx
        · rw [List.map_cons, List.map_nil, List.mem_singleton] at hx
          rw [hx]
          exact ⟨rfl, Write.lock_exclusive _ _⟩
        · rw [List.mem_singleton.1 hx]
          exact ⟨rfl, rfl⟩
      refine ⟨.inr ⟨hrow.2, .inr ⟨id, hrow.1, .inl hname⟩⟩, ?_,
        existing_inOrder hbound (hsince _ hdrew) hname hrow.1⟩
      show Backed held log db x.mode x.row
      rw [hrow.1]
      exact ⟨fun hk => absurd hk (Mode.ne_keyShare hrow.2), fun _ => .inl ⟨r, hr⟩⟩
    · rw [hv']
      have hr'' : db'.get ⟨.specs, id⟩ = some r := by
        rw [← hr]
        exact hr'.row ⟨⟨.specs, id⟩, .noKeyUpdate⟩
          (List.mem_append_left _ (List.mem_append_right _ hlock)) Mode.noConfusion
      exact Sure.revised hr'.inv (hr'.stay _ id hname) hr'' rfl rfl
  case h_2 hfind =>
    split at he
    case isFalse => cases he
    case isTrue hfree =>
      obtain ⟨e', he', hpair⟩ := Option.map_eq_some_iff.1 he
      cases hpair
      obtain ⟨hins, rfl⟩ := insertRow_eq_some.1 he'
      rw [Option.isNone_iff_eq_none] at hfree
      have hnew : db.get ⟨.specs, nextId⟩ = none := free_of_insertable hins
      refine ⟨fun x hx => ?_, [Write.lock db ⟨⟨.specNames, (u, n)⟩, some nextId⟩,
        ⟨⟨.specs, nextId⟩, .noKeyUpdate⟩],
        Sure _ nextId u n, fun x hx => ?_, fun db' hr' hv' => ?_,
        hf nextId _ ⟨_, List.mem_cons_of_mem _ (List.mem_singleton.2 rfl), rfl, rfl⟩⟩
      · rcases created_locks x hx with ⟨hex, hrow | hrow⟩ | rfl
        · refine ⟨.inr ⟨hex, .inl ⟨hrow, hfree⟩⟩, ?_, name_inOrder hbound hrow⟩
          show Backed held log db x.mode x.row
          rw [hrow]
          exact ⟨Mode.ne_keyShare hex, hfree⟩
        · refine ⟨.inr ⟨hex, .inr ⟨nextId, hrow, .inr ⟨rfl, hnew⟩⟩⟩, ?_,
            fun _ _ hpriv => absurd ⟨nextId, hrow, hsince _ hdrew, hnew⟩ hpriv⟩
          show Backed held log db x.mode x.row
          rw [hrow]
          exact ⟨fun hk => absurd hk (Mode.ne_keyShare hex), fun _ => .inr (hsince _ hdrew)⟩
        · exact ⟨.inl rfl, rfl, .guarded rfl⟩
      · rcases List.mem_cons.1 hx with rfl | hx
        · exact List.mem_append_left _ (List.mem_append_left _ List.mem_cons_self)
        · rw [List.mem_singleton.1 hx]
          exact List.mem_append_left _ (List.mem_append_right _ List.mem_cons_self)
      · rw [hv']
        have hfree' : db'.get ⟨.specNames, (u, n)⟩ = none := by
          rw [← hfree]
          exact hr'.row (Write.lock db ⟨⟨.specNames, (u, n)⟩, some nextId⟩)
            (List.mem_append_left _ (List.mem_append_left _ List.mem_cons_self))
            (Mode.ne_keyShare (Write.lock_exclusive _ _))
        exact Sure.created rfl rfl hr'.inv ⟨_, List.mem_cons_self, rfl,
          Write.lock_exclusive _ _⟩ hfree'

theorem upsertSpecAndCatalogs_rest {spec : Value} :
    Rest rowLocks since [] (fun _ => False) (fun db v => v = db)
      (CustomMapAuxSpecs.upsertSpecAndCatalogs pg u n spec) := by
  refine Rest.ofExcept fun games => Rest.ofExcept fun collectibles => Rest.ofExcept fun hats => ?_
  refine .adapt (.transaction (.ask fun now =>
    .ask fun nextId => upsertSpec_rest List.mem_cons_self ?_))
  intro id L hid
  have hlow : ∀ x : RowLock, x.row.table.level < 3 → Below 3 x := fun _ hx => hx
  refine Rest.bind (replaceGames_course hlow hid games) fun _ =>
    Rest.bind (replaceCollectibles_course hlow hid collectibles) fun _ =>
    Rest.bind (replaceHats_course hlow hid hats) fun _ => ?_
  exact .commitPure fun _ _ _ h => h.toTidy.guarantee

end

end Dd2Server
