import Dd2Server.RowLocks.Statements

/-!
# Uploads and binds

What the transactions lock that rewrite catalogs: the spec exclusively, for a bind the binding, then
the rows that these two guard, and at last the worn hats of the map.
-/

namespace Dd2Server

open ReadCommitted

section

variable {since : Log} {L : List RowLock} {B : RowLock → Prop} {A : Assertion Table.Key Table.Row}
  {t : Table} {tag : Tag}

theorem Agree.removals (ht : t ∉ indexTables) (ks : List t.Key) (v : Db) :
    Agree v (Store.view (Store.removals t ks) v) := by
  refine Agree.writes (fun w hw hin => ht ?_) v
  obtain ⟨k, -, hrow⟩ := Store.removals_row hw
  rwa [hrow] at hin

theorem Agree.put (ht : t ∉ indexTables) (k : t.Key) (c : Option t.Row) (v : Db) :
    Agree v (v.put ⟨⟨t, k⟩, c⟩) := by
  have hone : ∀ w ∈ ([⟨⟨t, k⟩, c⟩] : List DbWrite), w.row.table ∉ indexTables := by
    intro w hw hin
    rw [List.mem_singleton.1 hw] at hin
    exact ht hin
  exact Agree.writes hone v

/-! ## Guarded rows -/

/-- The lock is on a guarded row, or it is the foreign key of one. -/
def Guarded (held : List RowLock) (log : Log) (db : Db) (x : RowLock) : Prop :=
  x.row.table.level = 0 ∧ Backed held log db x.mode x.row ∨
    ∃ id, x = ⟨⟨.specs, id⟩, .keyShare⟩ ∧ Holds held ⟨.specs, id⟩

theorem Guarded.inOrder {held : List RowLock} {log : Log} {db v : Db} {e : DbEffect}
    (hB : ∀ x : RowLock, x.row.table.level < 3 → B x)
    (h : ∀ x ∈ e.allLocks v, Guarded held log db x) : InOrder B held log db e v := by
  intro x hx
  rcases h x hx with ⟨hlevel, hback⟩ | ⟨id, rfl, hid⟩
  · refine ⟨hB x ?_, hback, .guarded hlevel⟩
    rw [hlevel]
    decide
  · exact ⟨hB _ (Nat.lt_succ_of_lt (Nat.lt_succ_self 1)),
      ⟨fun _ => hid, fun h => absurd rfl h⟩, .keyShare hid⟩

theorem delete_course {p : t.Key → t.Row → Bool} (hlevel : t.level = 0)
    (hB : ∀ x : RowLock, x.row.table.level < 3 → B x)
    (hback : ∀ db v held log k r mode, A db v → (∀ x ∈ L, x ∈ held) →
      v.get ⟨t, k⟩ = some r → p k r = true → Backed held log db mode ⟨t, k⟩)
    (hA : ∀ db v ks, A db v → A db (Store.view (Store.removals t ks) v)) :
    Course rowLocks since L B A (sql (deleteStmt tag t p)) (fun _ => L) B (fun _ => A) := by
  refine Course.stmt (fun _ hx => hx) fun ws db held log e b _ hAv hheld _ he => ?_
  cases he
  refine ⟨Guarded.inOrder hB fun x hx => .inl ?_, fun x hx => List.mem_append_right _ hx,
    fun db' _ hA' => hA db' _ _ hA'⟩
  simp only [Effect.allLocks, List.append_nil, List.mem_map] at hx
  obtain ⟨w, hw, rfl⟩ := hx
  obtain ⟨k, r, hrow, hk, hp⟩ := deleteWhere_row hw
  show w.row.table.level = 0 ∧ Backed held log db _ w.row
  rw [hrow]
  exact ⟨hlevel, hback db _ held log k r _ hAv hheld hk hp⟩

theorem insert_course {k : t.Key} {r : t.Row} (hlevel : t.level = 0)
    (hB : ∀ x : RowLock, x.row.table.level < 3 → B x)
    (hback : ∀ db v held log mode, A db v → (∀ x ∈ L, x ∈ held) →
      Backed held log db mode ⟨t, k⟩)
    (hparents : ∀ p ∈ t.parents k r, p.table = .users ∨ ∃ id, p = ⟨.specs, id⟩ ∧
      Holds L ⟨.specs, id⟩)
    (hA : ∀ db v, A db v → A db (v.put ⟨⟨t, k⟩, some r⟩)) :
    Course rowLocks since L B A (sql (insertStmt tag t k r)) (fun _ => L) B (fun _ => A) := by
  refine Course.stmt (fun _ hx => hx) fun ws db held log e b _ hAv hheld _ he => ?_
  obtain ⟨-, rfl⟩ := insertRow_eq_some.1 (insertStmt_run.1 he)
  refine ⟨Guarded.inOrder hB fun x hx => ?_, fun x hx => List.mem_append_right _ hx,
    fun db' _ hA' => hA db' _ hA'⟩
  rcases List.mem_append.1 hx with hx | hx
  · rw [List.map_cons, List.map_nil, List.mem_singleton] at hx
    rw [hx]
    exact .inl ⟨hlevel, hback db _ held log _ hAv hheld⟩
  · obtain ⟨p, hp, rfl⟩ := List.mem_map.1 hx
    rcases hparents p hp with hu | ⟨id, rfl, hid⟩
    · exact .inl ⟨level_of_users hu, Backed.ofUsers hu rfl⟩
    · exact .inr ⟨id, rfl, hid.mono hheld⟩

theorem insertSelect_course {rows : Db → List (t.Key × t.Row)} (hlevel : t.level = 0)
    (ht : t ∉ indexTables) (hB : ∀ x : RowLock, x.row.table.level < 3 → B x)
    (hback : ∀ db v held log p mode, A db v → (∀ x ∈ L, x ∈ held) → p ∈ rows v →
      Backed held log db mode ⟨t, p.1⟩)
    (hparents : ∀ v, ∀ p ∈ rows v, ∀ q ∈ t.parents p.1 p.2, q.table = .users)
    (hA : Carries A) :
    Course rowLocks since L B A (sql (insertSelectStmt tag t rows)) (fun _ => L) B
      (fun _ => A) := by
  refine Course.stmt (fun _ hx => hx) fun ws db held log e b _ hAv hheld _ he => ?_
  obtain ⟨-, rfl⟩ := insertRows_eq_some.1 (insertSelectStmt_run.1 he).1
  refine ⟨Guarded.inOrder hB fun x hx => .inl ?_, fun x hx => List.mem_append_right _ hx,
    fun db' _ hA' => hA db' _ _ (Agree.writes (fun w hw hin => ?_) _) hA'⟩
  · rcases List.mem_append.1 hx with hx | hx
    · obtain ⟨w, hw, rfl⟩ := List.mem_map.1 hx
      obtain ⟨p, hp, hrow⟩ := Store.insertions_row hw
      show w.row.table.level = 0 ∧ Backed held log db _ w.row
      rw [hrow]
      exact ⟨hlevel, hback db _ held log p _ hAv hheld hp⟩
    · obtain ⟨p, hp, hq⟩ := List.mem_flatMap.1 hx
      obtain ⟨q, hq', rfl⟩ := List.mem_map.1 hq
      have hu := hparents _ p hp q hq'
      exact ⟨level_of_users hu, Backed.ofUsers hu rfl⟩
  · obtain ⟨p, -, hrow⟩ := Store.insertions_row hw
    rw [hrow] at hin
    exact ht hin

/-! ## Catalogs -/

section

variable {id : Int} {u : Uuid} {n : String}

theorem Sure.putGame {db v : Db} {key : Table.minigameCatalog.Key} {c : Option MinigameCatalogRow}
    (h : Sure L id u n db v) (hc : ∀ r, c = some r → key.1 = u ∧ key.2.1 = n ∧
      r.specId = some id) : Sure L id u n db (v.put ⟨⟨.minigameCatalog, key⟩, c⟩) := by
  have hother : ∀ k : DbKey, k.table ≠ .minigameCatalog →
      (v.put ⟨⟨.minigameCatalog, key⟩, c⟩).get k = v.get k :=
    fun k hk => Store.get_put_of_ne fun he => hk (by rw [← he])
  refine ⟨⟨⟨fun id' s hs => ?_, fun u' n' slug r id' hr hid' => ?_⟩, fun k id' hk => ?_⟩,
    ?_, fun k hk => ?_⟩
  · rw [hother _ (by simp)] at hs ⊢
    exact h.named.indexed id' s hs
  · rw [hother _ (by simp)]
    by_cases hkey : key = (u', n', slug)
    · subst hkey
      rw [Store.get_put_self] at hr
      obtain ⟨hu, hn, hid⟩ := hc r hr
      cases hu
      cases hn
      rw [hid'] at hid
      cases hid
      exact h.name
    · rw [Store.get_put_of_ne (by simpa using hkey)] at hr
      exact h.named.games u' n' slug r id' hr hid'
  · rw [hother _ (by simp)]
    exact h.names k id' hk
  · rw [hother _ (by simp)]
    exact h.name
  · rw [hother _ (by simp)] at hk
    exact h.known k hk

theorem Sure.removeGames {db v : Db} (ks : List Table.minigameCatalog.Key)
    (h : Sure L id u n db v) :
    Sure L id u n db (Store.view (Store.removals .minigameCatalog ks) v) := by
  induction ks with
  | nil => exact h
  | cons k ks ih => exact ih.putGame fun r hr => nomatch hr

/-- A row under a name of the spec is guarded by its lock. -/
theorem Sure.backed {db v : Db} {held : List RowLock} {log : Log} {mode : Mode} {u' : Uuid}
    {n' slug : String} (h : Sure L id u n db v) (hid : Holds held ⟨.specs, id⟩)
    (hheld : ∀ x ∈ L, x ∈ held) (hk : v.get ⟨.specNames, (u', n')⟩ = some id) :
    Backed held log db mode ⟨.minigameCatalog, (u', n', slug)⟩ :=
  ⟨id, hid, (h.known (u', n') hk).imp_right fun hx => hx.mono hheld⟩

variable (hB : ∀ x : RowLock, x.row.table.level < 3 → B x) (hid : Holds L ⟨.specs, id⟩)

include hB hid

theorem replaceGames_course (games : List CatalogGame) :
    Course rowLocks since L B (Sure L id u n) (Minigames.replaceCatalogInTx id u n games)
      (fun _ => L) B (fun _ => Sure L id u n) := by
  refine Course.bind (delete_course rfl hB ?_ fun _ _ ks h => h.removeGames ks) fun _ =>
    Course.forM (fun g => insert_course rfl hB ?_ ?_ ?_) games
  · rintro db v held log ⟨u', n', slug⟩ r mode hA hheld hk hp
    exact hA.backed (hid.mono hheld) hheld
      (hA.named.games u' n' slug r id hk (of_decide_eq_true hp))
  · intro db v held log mode hA hheld
    exact hA.backed (hid.mono hheld) hheld hA.name
  · intro p hp
    rcases List.mem_cons.1 hp with rfl | hp
    · exact .inl rfl
    · rw [List.mem_singleton.1 hp]
      exact .inr ⟨id, rfl, hid⟩
  · intro db v hA
    refine hA.putGame fun r hr => ?_
    cases hr
    exact ⟨rfl, rfl, rfl⟩

theorem replaceCollectibles_course (items : List CatalogCollectible) :
    Course rowLocks since L B (Sure L id u n) (Collectibles.replaceCatalogInTx id u n items)
      (fun _ => L) B (fun _ => Sure L id u n) := by
  refine Course.bind (delete_course rfl hB ?_ fun db v ks hA =>
    Sure.carries db v _ (.removals (by decide) ks v) hA)
    fun _ => Course.forM (fun c => insert_course rfl hB ?_ ?_ ?_) items
  · rintro db v held log ⟨id', slug⟩ r mode hA hheld hk hp
    obtain rfl : id' = id := of_decide_eq_true hp
    exact hid.mono hheld
  · intro db v held log mode hA hheld
    exact hid.mono hheld
  · intro p hp
    rcases List.mem_cons.1 hp with rfl | hp
    · exact .inr ⟨id, rfl, hid⟩
    · rw [List.mem_singleton.1 hp]
      exact .inl rfl
  · exact fun db v hA => Sure.carries db v _ (.put (by decide) _ _ v) hA

theorem replaceHats_course (items : List CatalogHat) :
    Course rowLocks since L B (Sure L id u n) (Hats.replaceCatalogInTx id u n items) (fun _ => L) B
      (fun _ => Sure L id u n) := by
  refine Course.bind (delete_course rfl hB ?_ fun db v ks hA =>
    Sure.carries db v _ (.removals (by decide) ks v) hA)
    fun _ => Course.forM (fun c => insert_course rfl hB ?_ ?_ ?_) items
  · rintro db v held log ⟨id', slug⟩ r mode hA hheld hk hp
    obtain rfl : id' = id := of_decide_eq_true hp
    exact hid.mono hheld
  · intro db v held log mode hA hheld
    exact hid.mono hheld
  · intro p hp
    rcases List.mem_cons.1 hp with rfl | hp
    · exact .inr ⟨id, rfl, hid⟩
    · rw [List.mem_singleton.1 hp]
      exact .inl rfl
  · exact fun db v hA => Sure.carries db v _ (.put (by decide) _ _ v) hA

end

/-! ## Copies on a map -/

section

variable {pg : Pg} {m : String} {id : Int} (hB : ∀ x : RowLock, x.row.table.level < 3 → B x)
  (hm : Holds L ⟨.mapListingBind, m⟩) (hA : Carries A)

include hB hm hA

theorem bindGames_course :
    Course rowLocks since L B A (Minigames.bindMapFromCatalogInTx pg m id) (fun _ => L) B
      (fun _ => A) := by
  refine Course.bind
    (delete_course rfl hB ?_ fun db v ks hAv => hA db v _ (.removals (by decide) ks v) hAv)
    fun _ => insertSelect_course rfl (by decide) hB ?_ ?_ hA
  · rintro db v held log ⟨m', slug⟩ r mode hAv hheld hk hp
    obtain rfl : m' = m := of_decide_eq_true hp
    exact .inl (hm.mono hheld)
  · intro db v held log p mode hAv hheld hp
    obtain ⟨e, -, rfl⟩ := List.mem_map.1 hp
    exact .inl (hm.mono hheld)
  · intro v p hp q hq
    obtain ⟨e, -, rfl⟩ := List.mem_map.1 hp
    rw [List.mem_singleton.1 hq]

theorem bindCollectibles_course :
    Course rowLocks since L B A (Collectibles.bindMapFromCatalogInTx pg m id) (fun _ => L) B
      (fun _ => A) := by
  refine Course.bind
    (delete_course rfl hB ?_ fun db v ks hAv => hA db v _ (.removals (by decide) ks v) hAv)
    fun _ => insertSelect_course rfl (by decide) hB ?_ ?_ hA
  · rintro db v held log ⟨m', slug⟩ r mode hAv hheld hk hp
    obtain rfl : m' = m := of_decide_eq_true hp
    exact .inl (hm.mono hheld)
  · intro db v held log p mode hAv hheld hp
    obtain ⟨e, -, rfl⟩ := List.mem_map.1 hp
    exact .inl (hm.mono hheld)
  · intro v p hp q hq
    obtain ⟨e, -, rfl⟩ := List.mem_map.1 hp
    rw [List.mem_singleton.1 hq]

end

/-- The bound of a bind: the binding exclusively, and worn hats of the map. -/
def UpToSweep (m : String) (x : RowLock) : Prop :=
  UpTo ⟨.mapListingBind, m⟩ x ∨ ∃ u, x.row = ⟨.hatEquipped, (u, m)⟩

theorem UpToSweep.low {m : String} (x : RowLock) (hx : x.row.table.level < 3) :
    UpToSweep m x := .inl (.inl hx)

theorem takeOff_course {m fn : String}
    {p : Db → Table.hatEquipped.Key → HatEquippedRow → Bool}
    (hm : Holds L ⟨.mapListingBind, m⟩) (hA : Carries A) :
    Course rowLocks since L (UpToSweep m) A (sql (Hats.takeOffStmt fn m p))
      (fun _ => L) (UpToSweep m) (fun _ => A) := by
  refine Course.stmt (fun _ hx => hx) fun ws db held log e b _ hAv hheld hbound he => ?_
  cases he
  refine ⟨fun x hx => ?_, fun x hx => List.mem_append_right _ hx,
    fun db' _ hA' => hA db' _ _ (.removals (by decide) _ _) hA'⟩
  simp only [Effect.allLocks, List.append_nil, List.mem_map] at hx
  obtain ⟨w, hw, rfl⟩ := hx
  obtain ⟨⟨u, m'⟩, r, hrow, -, hp⟩ := deleteWhere_row hw
  have hrow' : (w.lock (Store.view ws db)).row = ⟨.hatEquipped, (u, m)⟩ := by
    simp only [Bool.and_eq_true, decide_eq_true_eq] at hp
    rw [← hp.1]
    exact hrow
  have hex := Write.lock_exclusive (Store.view ws db) w
  have hlevel : Table.mapListingBind.level < Table.hatEquipped.level := by decide
  refine ⟨.inr ⟨u, hrow'⟩, ?_, fun _ _ _ x hx _ => ?_⟩
  · show Backed held log db _ _
    rw [hrow']
    exact Backed.ofPlayer hlevel hex
  · rw [hrow']
    rcases hbound x hx with hx | ⟨u', hu'⟩
    · exact .inl (UpTo.below hlevel x hx)
    · exact .inr ⟨m, ⟨⟨u', hu'⟩, hm.mono hheld⟩, ⟨u, hrow'⟩, hm.mono hheld⟩

theorem bindHats_course {pg : Pg} {m : String} {id : Int} (hm : Holds L ⟨.mapListingBind, m⟩)
    (hA : Carries A) :
    Course rowLocks since L (UpToSweep m) A (Hats.bindMapFromCatalogInTx pg m id)
      (fun _ => L) (UpToSweep m) (fun _ => A) := by
  refine Course.bind (delete_course rfl UpToSweep.low ?_ fun db v ks hAv =>
    hA db v _ (.removals (by decide) ks v) hAv)
    fun _ => Course.bind (insertSelect_course rfl (by decide) UpToSweep.low ?_ ?_ hA) fun bound =>
      Course.bind (takeOff_course hm hA) fun removed =>
        .pure (fun _ hx => hx) (fun _ hx => hx) fun _ _ _ hA => hA
  · rintro db v held log ⟨m', slug⟩ r mode hAv hheld hk hp
    obtain rfl : m' = m := of_decide_eq_true hp
    exact .inl (hm.mono hheld)
  · intro db v held log p mode hAv hheld hp
    obtain ⟨e, -, rfl⟩ := List.mem_map.1 hp
    exact .inl (hm.mono hheld)
  · intro v p hp q hq
    obtain ⟨e, -, rfl⟩ := List.mem_map.1 hp
    rw [List.mem_singleton.1 hq]

/-! ## The binding -/

/-- The statement locks the binding exclusively, and the spec for its foreign key. -/
def OnBinding {β : Type} (s : Sql β) (m : String) (specId : Int) : Prop :=
  ∀ v e b, s.run v = some (e, b) →
    (∀ x ∈ e.allLocks v, x.row = ⟨.mapListingBind, m⟩ ∧ x.mode.exclusive = true ∨
      x = ⟨⟨.specs, specId⟩, .keyShare⟩) ∧
        ∀ w ∈ e.writes, w.row = ⟨.mapListingBind, m⟩

theorem binding_course {β : Type} {s : Sql β} {m : String} {specId : Int}
    {L' : β → List RowLock} (hs : OnBinding s m specId) (hspec : Holds L ⟨.specs, specId⟩)
    (hA : Carries A) (hL : ∀ v e b, s.run v = some (e, b) →
      ∀ x ∈ L' b, x ∈ e.allLocks v ++ L) :
    Course rowLocks since L (UpTo ⟨.mapListingBind, m⟩) A (sql s) L' (UpTo ⟨.mapListingBind,
      m⟩) (fun _ => A) := by
  refine stmt_course (fun _ hx => hx) hA ?_ ?_ hL
  · intro v db held log e b _ hheld hbound he x hx
    rcases (hs v e b he).1 x hx with ⟨hrow, hex⟩ | rfl
    · refine ⟨.inr ⟨hrow, hex⟩, ?_, .upTo hbound hrow⟩
      rw [hrow]
      exact fun hk => by rw [hk] at hex; cases hex
    · exact ⟨.inl (Nat.lt_succ_of_lt (Nat.lt_succ_self 1)),
        ⟨fun _ => hspec.mono hheld, fun h => absurd rfl h⟩, .keyShare (hspec.mono hheld)⟩
  · intro v e b he w hw hin
    have hbind : Table.mapListingBind ∈ indexTables := by
      rw [(hs v e b he).2 w hw] at hin
      exact hin
    exact absurd hbind (by decide)

end

end Dd2Server
