import Dd2Server.Binds

/-!
# Uploads, deletes and logins as tasks

A read of a spec, the delete of a spec and the delete of a catalog are transactions of one statement
each; the upload replaces the spec and its three catalogs in one.
-/

namespace Dd2Server

open ReadCommitted

section

variable {pg : Pg} {w : Scope} {C : Tag → Db → Prop}
  {G : Promise Table.Key Table.Row Tag Ask.Ans Act.Out} {since : Log} {α β : Type}
  {E : DbError → Known Table.Key Table.Row Tag Ask.Ans Act.Out}
  {B : α → Known Table.Key Table.Row Tag Ask.Ans Act.Out} {L : List (Lock Table.Key)}
  {A : Assertion Table.Key Table.Row} {u : Uuid} {n : String}

/-- What the strict runs ask of the statements: an uploaded JSON reads back with the same catalogs,
and no catalog of a stored spec is deleted. -/
structure Admitted (pg : Pg) (strict : Prop) (C : Tag → Db → Prop) : Prop where
  upload : strict → ∀ u n spec v, C (.upsertSpec u n spec) v →
    parseCatalogs (pg.value (pg.jsonb spec)) = parseCatalogs spec
  delete : strict → ∀ t u n v, C (.deleteCatalog t u n) v →
    ∀ s, CustomMapAuxSpecs.find v u n = some s →
    ∀ k r, v.get ⟨t, k⟩ = some r → specOf t k r ≠ some s.1

/-! ## One statement on its own -/

/-- The commit of a statement on its own, from what the statement found. -/
theorem autocommit_pool {r r' : Db → Db → Prop} {s : Time → Sql β}
    (hG : ∀ log pre post, r pre post → G log pre post)
    (hr : ∀ pre post, r pre post → r' pre post) (hstep : ∀ now db e b, Inv pg w.strict db →
      C (s now).tag db → (s now).run db = some (e, b) → ∀ db', Rely (protocol pg w)
        (e.allLocks db) db db' → Guarantee (protocol pg w) (e.allLocks db) db'
          (Store.view e.writes db') ∧ r db' (Store.view e.writes db')) :
    Pool (setting pg w C G) (fun _ log _ => Commits r' log) (fun log _ => Commits r' log)
      (autocommit s) (fun _ log _ => Commits r' log) := by
  have hquiet : ∀ {since log : Log}, Quiet Plain since log → Commits r' since →
      Commits r' log :=
    fun hq h => hq.commits (fun _ _ hp => hp) h
  refine Pool.transaction fun since₀ db₀ _ hc₀ => Ends.ask fun log now hq => ?_
  have hc : Commits r' (.answered .now now :: log : Log) := (hquiet hq hc₀).cons (by simp)
  refine Ends.query (fun log₁ db hq₁ _ => (hquiet hq₁ hc).cons (by simp))
    (fun log₁ v db hq₁ _ => (hquiet hq₁ hc).cons (by simp))
    fun log₁ ws db e b hq₁ hinv hA hC hrun => ?_
  have hv : Store.view ws db = db := hA.1
  rw [hv] at hC hrun
  rw [hv]
  refine ⟨e.allLocks db, fun db' v => Guarantee (protocol pg w) (e.allLocks db) db' v ∧ r db' v,
    fun x hx => List.mem_append_left _ hx, fun db' hrely hA' => ?_, ?_⟩
  · have hv' : Store.view ws db' = db' := hA'.1
    rw [hv']
    exact hstep now db e b hinv hC hrun db' (hrely.mono fun x hx => List.mem_append_left _ hx)
  · have hc₁ : Commits r' (.saw (s now).tag db :: log₁ : Log) :=
      (hquiet hq₁ hc).cons (by simp)
    refine Ends.commit (fun log₂ db hq₂ _ => (hquiet hq₂ hc₁).cons (by simp))
      (fun db v _ hA => hA.1) (fun log₂ db v _ _ hA => hG _ _ _ hA.2)
      (fun log₂ pre post hq₂ _ hA db' _ => (hquiet hq₂ hc₁).cons fun pre' post' he => ?_)
    cases he
    exact hr pre post hA.2

/-! ## The read of a spec -/

theorem find_eq_some {v : Db} {id : Int} {s : SpecRow} :
    CustomMapAuxSpecs.find v u n = some (id, s) ↔
      v.get ⟨.specNames, (u, n)⟩ = some id ∧ v.get ⟨.specs, id⟩ = some s := by
  simp only [CustomMapAuxSpecs.find, Option.bind_eq_some_iff, Option.map_eq_some_iff, Prod.mk.injEq]
  constructor
  · rintro ⟨id', hi, s', hs, rfl, rfl⟩
    exact ⟨hi, hs⟩
  · rintro ⟨hi, hs⟩
    exact ⟨id, hi, s, hs, rfl, rfl⟩

theorem HitCounted.refl (db : Db) : HitCounted db db := ⟨fun _ => rfl, fun _ _ => rfl⟩

theorem getSpec_pool {r : Db → Db → Prop} (hw : ¬w.frozen)
    (hG : ∀ log pre post, HitCounted pre post → G log pre post)
    (hr : ∀ pre post, HitCounted pre post → r pre post) :
    Pool (setting pg w C G) (fun _ log _ => Commits r log) (fun log _ => Commits r log)
      (CustomMapAuxSpecs.getSpec u n) (fun _ log _ => Commits r log) := by
  refine autocommit_pool hG hr fun now db e b hinv _ hrun db' hrely => ?_
  simp only [CustomMapAuxSpecs.getSpecStmt] at hrun
  cases hf : CustomMapAuxSpecs.find db u n with
  | none =>
      simp only [hf] at hrun
      cases hrun
      exact ⟨.refl hrely.inv, .refl db'⟩
  | some x =>
      obtain ⟨id, s⟩ := x
      simp only [hf] at hrun
      cases hrun
      have hs := (find_eq_some.1 hf).2
      have hs' : db'.get ⟨.specs, id⟩ = some s := by
        rw [← hs]
        exact hrely.row (Write.lock db ⟨⟨.specs, id⟩,
          some { s with hitCounter := s.hitCounter + 1 }⟩)
          List.mem_cons_self (by simp [Write.lock, hs])
      have hhit : HitCounted db'
          (Store.view [⟨⟨.specs, id⟩, some { s with hitCounter := s.hitCounter + 1 }⟩]
          db') := by
        refine ⟨fun id' => ?_, fun k hk => ?_⟩
        · rcases eq_or_ne id' id with rfl | hne
          · rw [Store.view_cons, Store.view_nil, Store.get_put_self _ (⟨.specs, id'⟩ : DbKey),
              hs']
            rfl
          · rw [Store.view_cons, Store.view_nil, Store.get_put_of_ne (by simpa using Ne.symm hne)]
        · refine Store.get_put_of_ne fun he => hk ?_
          rw [← he]
          exact List.mem_singleton_self _
      exact ⟨hhit.guarantee hrely.inv hw _, hhit⟩

/-! ## The upload -/

/-- A spec is stored, its catalogs not yet. -/
structure SpecStored (u : Uuid) (n : String) (id : Int) (s : SpecRow) (db v : Db) : Prop where
  row : v.get ⟨.specs, id⟩ = some s
  index : v.get ⟨.specNames, (u, n)⟩ = some id
  before : db.get ⟨.specNames, (u, n)⟩ = some id ∨
    db.get ⟨.specNames, (u, n)⟩ = none ∧ db.get ⟨.specs, id⟩ = none
  otherSpecs : ∀ id', id' ≠ id → v.get ⟨.specs, id'⟩ = db.get ⟨.specs, id'⟩
  otherNames : ∀ k, k ≠ (u, n) → v.get ⟨.specNames, k⟩ = db.get ⟨.specNames, k⟩
  others : Frame [.specs, .specNames] db v

theorem SpecStored.upserted {spec : Value} {id : Int} {s : SpecRow} {c : Parsed} {db v₁ v : Db}
    (h : SpecStored u n id s db v₁) (hp : parseCatalogs (stripInjectedSpecId spec) = .ok c)
    (ho : s.userId = u ∧ s.nameId = n) (hs : s.spec = pg.jsonb (stripInjectedSpecId spec))
    (hcat : CatalogsReplaced id s c v₁ v) (hf : Frame catalogTables v₁ v) :
    SpecUpserted pg u n spec id s c db v where
  parsed := hp
  owner := ho
  stored := hs
  row := (hf.get _ (by decide)).trans h.row
  index := (hf.get _ (by decide)).trans h.index
  before := h.before
  otherSpecs id' hne := (hf.get _ (by decide)).trans (h.otherSpecs id' hne)
  otherNames k hne := (hf.get _ (by decide)).trans (h.otherNames k hne)
  catalogs := by
    refine ⟨fun k r => ?_, fun k r => ?_, fun k r => ?_⟩
    · rw [hcat.games, h.others.get _ (by decide)]
    · rw [hcat.collectibles, h.others.get _ (by decide)]
    · rw [hcat.hats, h.others.get _ (by decide)]
  others := (h.others.trans hf).mono fun _ ht => ht

theorem upsertSpec_ends {id₀ : Int} {now : Time} {spec : Value} {threshold : Int}
    {k : Int → Query DbError α} (hE : OnTrouble (setting pg w C G) since E .database)
    (hview : ∀ db v, A db v → v = db)
    (hk : ∀ id s log L' v, s.userId = u → s.nameId = n → s.spec = pg.jsonb spec →
      Holds L' ⟨.specs, id⟩ → Quiet Plain since log → C (.upsertSpec u n spec) v →
      Ends (setting pg w C G) log E L' (SpecStored u n id s) (k id) B) :
    Ends (setting pg w C G) since E L A
      (sql (CustomMapAuxSpecs.upsertSpecStmt pg id₀ now u n spec threshold) >>= k) B := by
  refine query_ends hE fun log ws db e id hq hinv hA hC hrun => ?_
  have hv := hview db _ hA
  have hq₁ : Quiet Plain since (.saw (.upsertSpec u n spec) (Store.view ws db) :: log) :=
    hq.cons trivial
  simp only [CustomMapAuxSpecs.upsertSpecStmt, hv] at hrun
  cases hf : CustomMapAuxSpecs.find db u n with
  | some y =>
      obtain ⟨id', r⟩ := y
      simp only [hf] at hrun
      split at hrun
      case isFalse => cases hrun
      case isTrue =>
        cases hrun
        obtain ⟨hi, hr⟩ := find_eq_some.1 hf
        obtain ⟨s', hs', hu, hn⟩ := hinv.index u n id hi
        obtain rfl : s' = r := Option.some.inj (hs'.symm.trans hr)
        refine ⟨[⟨⟨.specs, id⟩, .noKeyUpdate⟩], _, fun y hy => ?_,
          fun db' hrely hA' => ?_,
          hk id { s' with spec := pg.jsonb spec, listingThreshold := threshold, updatedAt := now } _
            _ _
            hu hn rfl ⟨_, List.mem_cons_self, rfl, rfl⟩ hq₁ hC⟩
        · rw [List.mem_singleton.1 hy]
          exact List.mem_append_left _ (List.mem_append_right _ List.mem_cons_self)
        · rw [hview db' _ hA']
          have hr' : db'.get ⟨.specs, id⟩ = some s' := by
            rw [← hr]
            exact hrely.row ⟨⟨.specs, id⟩, .noKeyUpdate⟩
              (List.mem_append_left _ (List.mem_append_right _ List.mem_cons_self)) (by simp)
          have hi' := hrely.inv.indexed id s' hr'
          rw [hu, hn] at hi'
          refine ⟨Store.get_put_self _ (⟨.specs, id⟩ : DbKey) _,
            (Store.get_put_of_ne (by simp)).trans hi', .inl hi', fun id₁ hne => ?_, fun k _ => ?_,
            fun k hk => ?_⟩
          · exact Store.get_put_of_ne (by simpa using Ne.symm hne)
          · exact Store.get_put_of_ne (by simp)
          · refine Store.get_put_of_ne fun he => hk ?_
            rw [← he]
            exact List.mem_cons_self
  | none =>
      simp only [hf] at hrun
      split at hrun
      case isFalse => cases hrun
      case isTrue hfree =>
        obtain ⟨e', he', hpair⟩ := Option.map_eq_some_iff.1 hrun
        cases hpair
        obtain ⟨hins, rfl⟩ := insertRow_eq_some.1 he'
        have hname : db.get ⟨.specNames, (u, n)⟩ = none := Option.isNone_iff_eq_none.1 hfree
        have hspec : db.get ⟨.specs, id₀⟩ = none := free_of_insertable hins
        refine ⟨[⟨⟨.specs, id₀⟩, .noKeyUpdate⟩], _, fun y hy => ?_,
          fun db' hrely hA' => ?_,
          hk id₀ ⟨u, n, pg.jsonb spec, 0, now, now, threshold⟩ _ _ _ rfl rfl rfl
            ⟨_, List.mem_cons_self, rfl, rfl⟩ hq₁ hC⟩
        · rw [List.mem_singleton.1 hy]
          exact List.mem_append_left _ (List.mem_append_right _ List.mem_cons_self)
        · rw [hview db' _ hA']
          have hname' : db'.get ⟨.specNames, (u, n)⟩ = none := by
            rw [← hname]
            refine hrely.row (Write.lock (Store.view ws db) ⟨⟨.specNames, (u, n)⟩,
              some id₀⟩) ?_ ?_
            · exact List.mem_append_left _ (List.mem_append_left _ List.mem_cons_self)
            · simp [Write.lock, hv, hname]
          have hspec' : db'.get ⟨.specs, id₀⟩ = none := by
            rw [← hspec]
            exact hrely.row ⟨⟨.specs, id₀⟩, .noKeyUpdate⟩
              (List.mem_append_left _ (List.mem_append_right _ List.mem_cons_self)) (by simp)
          refine ⟨?_, Store.get_put_self _ (⟨.specNames, (u, n)⟩ : DbKey) _,
            .inr ⟨hname', hspec'⟩, fun id' hne => ?_, fun k hne => ?_, fun k hk => ?_⟩
          · rw [Store.view_cons, Store.get_put_of_ne (by simp)]
            exact Store.get_put_self _ (⟨.specs, id₀⟩ : DbKey) _
          · rw [Store.view_cons, Store.get_put_of_ne (by simp)]
            exact Store.get_put_of_ne (by simpa using Ne.symm hne)
          · rw [Store.view_cons, Store.get_put_of_ne (by simpa using Ne.symm hne)]
            exact Store.get_put_of_ne (by simp)
          · simp only [List.mem_cons, List.not_mem_nil, or_false, not_or] at hk
            rw [Store.view_cons, Store.get_put_of_ne fun he => hk.2 (by rw [← he])]
            exact Store.get_put_of_ne fun he => hk.1 (by rw [← he])

/-- The commits of an upload. -/
def UploadCommit (pg : Pg) (strict : Prop) (u : Uuid) (n : String) (spec : Value)
    (pre post : Db) : Prop :=
  HitCounted pre post ∨ ∃ id s c, SpecUpserted pg u n spec id s c pre post ∧
    (strict → parseCatalogs (pg.value s.spec) = .ok c)

/-- A failed upload only read. -/
def UploadFailed {ε : Type} (_ : ε) : Known Table.Key Table.Row Tag Ask.Ans Act.Out :=
  fun log _ => Commits HitCounted log

theorem Quiet.hits {since log : Log} (h : Quiet Plain since log) (hc : Commits HitCounted since) :
    Commits HitCounted log := h.commits (fun _ _ hp => hp) hc

theorem UploadFailed.onTrouble (hc : Commits HitCounted since) :
    OnTrouble (setting pg w C G) since UploadFailed DbError.database := by
  intro ev log db htr hq
  refine (Quiet.hits hq hc).cons fun pre post he => ?_
  rw [he] at htr
  exact absurd htr id

theorem upsertSpecAndCatalogs_pool {spec : Value} (hw : ¬w.frozen) (hC : Admitted pg w.strict C)
    (hG : ∀ log pre post, UploadCommit pg w.strict u n spec pre post → G log pre post) :
    Pool (setting pg w C G) UploadFailed (fun log _ => Commits HitCounted log)
      (CustomMapAuxSpecs.upsertSpecAndCatalogs pg u n spec)
      (fun _ log _ => Commits (UploadCommit pg w.strict u n spec) log) := by
  rw [CustomMapAuxSpecs.upsertSpecAndCatalogs]
  generalize hspec : stripInjectedSpecId spec = spec'
  have hbad : ∀ {γ : Type} (e : UpsertWayfinderSpecError),
      Pool (setting pg w C G) UploadFailed (fun log _ => Commits HitCounted log)
        (MonadExcept.throw e : Query UpsertWayfinderSpecError γ)
        (fun _ log _ => Commits (UploadCommit pg w.strict u n spec) log) :=
    fun e => Pool.throw fun log db _ hc => hc
  cases hg : parseCatalogGames spec' with
  | error e => exact hbad (.validation e)
  | ok games =>
  cases hi : parseCatalogCollectibles spec' with
  | error e => exact hbad (.validation e)
  | ok items =>
  cases hh : parseCatalogHats spec' with
  | error e => exact hbad (.validation e)
  | ok hats =>
  have hp : parseCatalogs spec' = .ok ⟨games, items, hats⟩ := by
    have hparse : parseCatalogs spec' = (parseCatalogGames spec').bind fun games =>
        (parseCatalogCollectibles spec').bind fun collectibles =>
          (parseCatalogHats spec').bind fun hats => .ok { games, collectibles, hats } := rfl
    rw [hparse, hg, hi, hh]
    rfl
  refine Pool.adapt (Pool.transaction fun since₀ db₀ _ hc₀ => Ends.ask fun log now hq =>
    Ends.ask fun log₁ id₀ hq₁ => ?_)
  have hc : Commits HitCounted (.answered .nextSpecId id₀ :: log₁ : Log) :=
    (Quiet.hits hq₁ ((Quiet.hits hq hc₀).cons (by simp))).cons (by simp)
  refine upsertSpec_ends (UploadFailed.onTrouble hc) (fun db v hA => hA.1)
    fun id s log₂ L₂ v₂ hu hn hs hL hq₂ hCv => ?_
  have hc₂ := Quiet.hits hq₂ hc
  have hup : ∀ db v, (∃ v₁, SpecStored u n id s db v₁ ∧
      CatalogsReplaced id s ⟨games, items, hats⟩ v₁ v ∧ Frame catalogTables v₁ v) →
      SpecUpserted pg u n spec id s ⟨games, items, hats⟩ db v := by
    rintro db v ⟨v₁, h₁, hcat, hf⟩
    exact h₁.upserted (by rw [hspec]; exact hp) ⟨hu, hn⟩ (by rw [hspec]; exact hs) hcat hf
  have hround : w.strict → parseCatalogs (pg.value s.spec) = .ok ⟨games, items, hats⟩ := by
    intro hst
    rw [hs, hC.upload hst u n spec' v₂ hCv]
    exact hp
  have hE₂ : OnTrouble (setting pg w C G) log₂ UploadFailed DbError.database :=
    UploadFailed.onTrouble hc₂
  obtain rfl := hu
  obtain rfl := hn
  refine Ends.bind (replaceGames_triple (c := ⟨games, items, hats⟩) hE₂ hL) fun _ =>
    Ends.bind (replaceCollectibles_triple (c := ⟨games, items, hats⟩) hE₂ hL) fun _ =>
    Ends.bind (replaceHats_triple (c := ⟨games, items, hats⟩) hE₂ hL) fun _ =>
    Ends.commit (fun log₃ db hq₃ _ => hE₂ _ _ db trivial hq₃) (fun db v hinv hA => ?_)
      (fun log₃ db v _ _ hA => ?_) (fun log₃ pre post hq₃ _ hA db' _ => ?_)
  all_goals
    obtain ⟨v₂, ⟨v₁, ⟨v₀, hA, hgames⟩, hitems⟩, hhats⟩ := hA
    have hdone := hup _ _ ⟨v₀, hA, CatalogsReplaced.of_steps hgames hitems hhats⟩
  · exact hdone.guarantee hinv hw hround hL
  · exact hG _ _ _ (.inr ⟨id, s, _, hdone, hround⟩)
  · refine ((Quiet.hits hq₃ hc₂).mono fun _ _ h => .inl h).cons fun pre' post' he => ?_
    cases he
    exact .inr ⟨id, s, _, hdone, hround⟩

theorem upsertCustomMapAuxSpec_pool {spec : Value} (hw : ¬w.frozen) (hC : Admitted pg w.strict C)
    (hG : ∀ log pre post, UploadCommit pg w.strict u n spec pre post → G log pre post) :
    Pool (setting pg w C G) UploadFailed (fun log _ => Uncommitted log)
      (upsertCustomMapAuxSpec pg u n spec)
      (fun _ log _ => Commits (UploadCommit pg w.strict u n spec) log) := by
  have hnone : ∀ {log : Log}, Uncommitted log → Commits HitCounted log :=
    fun h => h.mono fun _ _ hf => absurd hf id
  rw [upsertCustomMapAuxSpec]
  split
  case isFalse => exact Pool.throw fun log db _ hU => hnone hU
  case isTrue =>
  refine Pool.bind (fun _ log _ => Commits HitCounted log)
    (Pool.adapt ((getSpec_pool (r := HitCounted) hw (fun log pre post h => hG _ _ _ (.inl h))
      fun _ _ h => h).weaken (fun log db _ hU => hnone hU) (fun _ log db h => h)
        fun _ log db h => h)) fun existing => ?_
  refine Pool.bind (fun _ log _ => Commits HitCounted log)
    (askQ_pool fun a log db hc => hc.cons (by simp)) fun now => ?_
  split
  case isTrue => exact Pool.throw fun log db _ hc => hc
  case isFalse =>
  exact Pool.bind _ (Pool.adapt ((upsertSpecAndCatalogs_pool hw hC hG).weaken
    (fun log db _ hc => hc) (fun _ log db h => h) fun _ log db h => h)) fun _ =>
    Pool.pure fun log db _ hc => hc

/-! ## The delete request -/

/-- The commits of a delete request. -/
def DeleteCommit (strict : Prop) (u : Uuid) (n : String) (pre post : Db) : Prop :=
  HitCounted pre post ∨ (∃ id, SpecDeleted u n id pre post) ∨
    ∃ t, CatalogDeleted strict t pre post

/-- Writes of other tables do not matter. -/
theorem get_view_among {a b ws : List DbWrite} {k : DbKey} (db : Db)
    (ha : ∀ x ∈ a, x.row.table ≠ k.table) (hb : ∀ x ∈ b, x.row.table ≠ k.table) :
    (Store.view (a ++ (ws ++ b)) db).get k = (Store.view ws db).get k := by
  rw [Store.view_append, Store.view_append, Store.view_get_of_notMem _ fun x hx he =>
    ha x hx (by rw [he])]
  exact Store.view_get_congr (Store.view_get_of_notMem _ fun x hx he => hb x hx (by rw [he]))

theorem deleteWhere_table {t : Table} {p : t.Key → t.Row → Bool} {v : Db} {x : DbWrite}
    (h : x ∈ deleteWhere t p v) : x.row.table = t := by
  obtain ⟨k, r, he, -⟩ := deleteWhere_row h
  rw [he]

/-- One table among those a statement deletes from. -/
theorem deleted_rows {P : Protocol Table.Key Table.Row} (t : Table) (p : t.Key → t.Row → Bool)
    {W a b : List DbWrite} {db db' : Db} (hW : W = a ++ (deleteWhere t p db ++ b))
    (hother : ∀ x ∈ a ++ b, x.row.table ≠ t)
    (hrely : Rely P (Effect.allLocks db ({ writes := W } : DbEffect)) db db')
    (hshrink : ∀ k r, p k r = true → db'.get ⟨t, k⟩ = some r → db.get ⟨t, k⟩ = some r)
    (k : t.Key) (r : t.Row) :
    (Store.view W db').get ⟨t, k⟩ = some r ↔ db'.get ⟨t, k⟩ = some r ∧
    p k r = false := by
  have hR : Replaced t p [] db' (Store.view (deleteWhere t p db) db') := by
    refine @deleteWhere_replaced _ _ _ [] _ _ [] (hrely.mono fun x hx => ?_) hshrink
    rcases List.mem_append.1 hx with hx | hx
    · rcases List.mem_append.1 hx with hx | hx
      · obtain ⟨y, hy, rfl⟩ := List.mem_map.1 hx
        refine List.mem_append_left _ (List.mem_map.2 ⟨y, ?_, rfl⟩)
        rw [hW]
        exact List.mem_append_right _ (List.mem_append_left _ hy)
      · cases hx
    · cases hx
  rw [hW, get_view_among db' (fun x hx => hother x (List.mem_append_left _ hx))
    (fun x hx => hother x (List.mem_append_right _ hx)), hR.rows]
  simp

/-- What the delete of a spec writes. -/
def cascade (u : Uuid) (n : String) (id : Int) (db : Db) : List DbWrite :=
  deleteWhere .minigameCatalog (fun _ r => r.specId = some id) db ++
    deleteWhere .collectibleCatalog (fun k _ => k.1 = id) db ++
    deleteWhere .hatCatalog (fun k _ => k.1 = id) db ++
    [⟨⟨.specNames, (u, n)⟩, none⟩, ⟨⟨.specs, id⟩, none⟩]

theorem get_cascade {id : Int} (db db' : Db) {k : DbKey} (hk : k.table ∉ catalogTables) :
    (Store.view (cascade u n id db) db').get k =
      (Store.view [⟨⟨.specNames, (u, n)⟩, none⟩, ⟨⟨.specs, id⟩, none⟩] db').get
        k := by
  rw [cascade, ← List.append_nil [_, _]]
  refine get_view_among db' (fun x hx he => hk ?_) (by simp)
  rw [← he]
  simp only [List.mem_append] at hx
  rcases hx with (hx | hx) | hx
  · rw [deleteWhere_table hx]
    decide
  · rw [deleteWhere_table hx]
    decide
  · rw [deleteWhere_table hx]
    decide

/-- The delete of a spec with what cascades. -/
theorem cascade_deleted {id : Int} {s : SpecRow} {db db' : Db} (hinv : Inv pg w.strict db)
    (hi : db.get ⟨.specNames, (u, n)⟩ = some id) (hs : db.get ⟨.specs, id⟩ = some s)
    (hfree : (CustomMapAuxSpecs.boundMaps db id).isEmpty = true)
    (hL : Holds (Effect.allLocks db ({ writes := cascade u n id db } : DbEffect)) ⟨.specs, id⟩)
    (hrely : Rely (protocol pg w)
      (Effect.allLocks db ({ writes := cascade u n id db } : DbEffect)) db db') :
    SpecDeleted u n id db' (Store.view (cascade u n id db) db') := by
  have hkeep : KeepsSpec id db db' := hL.keeps hrely
  obtain ⟨s₁, hs₁, hu, hn⟩ := hinv.index u n id hi
  obtain rfl : s₁ = s := Option.some.inj (hs₁.symm.trans hs)
  refine ⟨?_, fun m b hb he => ?_, ?_, ?_, fun id' hne => ?_, fun k hne => ?_, fun k r => ?_,
    fun k r => ?_, fun k r => ?_, fun k hk => ?_⟩
  · have h := hrely.inv.indexed id s₁ ((hL.row hrely).trans hs)
    rwa [hu, hn] at h
  · obtain ⟨b₀, hb₀, he₀⟩ := hkeep.binds m b hb he
    have hm : m ∈ CustomMapAuxSpecs.boundMaps db id :=
      List.mem_map.2 ⟨(m, b₀), mem_selectWhere.2 ⟨hb₀, by simpa using he₀⟩, rfl⟩
    rw [List.isEmpty_iff.1 hfree] at hm
    cases hm
  · rw [get_cascade db db' (by simp [catalogTables]), Store.view_cons,
      Store.get_put_of_ne (by simp)]
    exact Store.get_put_self _ (⟨.specs, id⟩ : DbKey) _
  · rw [get_cascade db db' (by simp [catalogTables])]
    exact Store.get_put_self _ (⟨.specNames, (u, n)⟩ : DbKey) _
  · rw [get_cascade db db' (by simp [catalogTables]), Store.view_cons,
      Store.get_put_of_ne (by simp)]
    exact Store.get_put_of_ne (by simpa using Ne.symm hne)
  · rw [get_cascade db db' (by simp [catalogTables]), Store.view_cons,
      Store.get_put_of_ne (by simpa using Ne.symm hne)]
    exact Store.get_put_of_ne (by simp)
  · rw [deleted_rows .minigameCatalog (fun _ r => decide (r.specId = some id)) (a := [])
      (by rw [cascade, List.append_assoc, List.append_assoc, List.nil_append])
        (fun x hx => ?_) hrely
      (fun k r hp => hkeep.games k r (by simpa using hp)), decide_eq_false_iff_not]
    simp only [List.nil_append, List.mem_append, List.mem_cons, List.not_mem_nil, or_false] at hx
    rcases hx with hx | hx | rfl | rfl
    · rw [deleteWhere_table hx]; decide
    · rw [deleteWhere_table hx]; decide
    · simp
    · simp
  · rw [deleted_rows .collectibleCatalog (fun k _ => decide (k.1 = id))
      (by rw [cascade, List.append_assoc, List.append_assoc]) (fun x hx => ?_) hrely
      (fun k r hp => hkeep.collectibles k r (by simpa using hp)), decide_eq_false_iff_not]
    simp only [List.mem_append, List.mem_cons, List.not_mem_nil, or_false] at hx
    rcases hx with hx | hx | rfl | rfl
    · rw [deleteWhere_table hx]; decide
    · rw [deleteWhere_table hx]; decide
    · simp
    · simp
  · rw [deleted_rows .hatCatalog (fun k _ => decide (k.1 = id))
      (by rw [cascade, List.append_assoc]) (fun x hx => ?_) hrely
      (fun k r hp => hkeep.hats k r (by simpa using hp)), decide_eq_false_iff_not]
    simp only [List.mem_append, List.mem_cons, List.not_mem_nil, or_false] at hx
    rcases hx with (hx | hx) | rfl | rfl
    · rw [deleteWhere_table hx]; decide
    · rw [deleteWhere_table hx]; decide
    · simp
    · simp
  · simp only [List.mem_cons, not_or] at hk
    rw [get_cascade db db' hk.2.2, Store.view_cons, Store.get_put_of_ne fun he => hk.2.1
      (by rw [← he])]
    exact Store.get_put_of_ne fun he => hk.1 (by rw [← he])

theorem deleteSpec_pool (hw : ¬w.frozen)
    (hG : ∀ log pre post, DeleteCommit w.strict u n pre post → G log pre post) :
    Pool (setting pg w C G) (fun _ log _ => Commits (DeleteCommit w.strict u n) log)
      (fun log _ => Commits (DeleteCommit w.strict u n) log) (CustomMapAuxSpecs.deleteSpec u n)
      (fun _ log _ => Commits (DeleteCommit w.strict u n) log) := by
  refine autocommit_pool hG (fun _ _ h => h) fun now db e b hinv _ hrun db' hrely => ?_
  simp only [CustomMapAuxSpecs.deleteSpecStmt] at hrun
  cases hf : CustomMapAuxSpecs.find db u n with
  | none =>
      simp only [hf] at hrun
      cases hrun
      exact ⟨.refl hrely.inv, .inl (.refl db')⟩
  | some y =>
      obtain ⟨id, s⟩ := y
      simp only [hf] at hrun
      split at hrun
      case isFalse => cases hrun
      case isTrue hfree =>
        cases hrun
        obtain ⟨hi, hs⟩ := find_eq_some.1 hf
        have hL : Holds (Effect.allLocks db ({ writes := cascade u n id db } : DbEffect))
            ⟨.specs, id⟩ := by
          refine ⟨Write.lock db ⟨⟨.specs, id⟩, none⟩, ?_, rfl, Write.lock_exclusive _ _⟩
          exact List.mem_append_left _ (List.mem_map.2 ⟨_, by simp [cascade], rfl⟩)
        have hdel := cascade_deleted hinv hi hs hfree hL hrely
        exact ⟨hdel.guarantee hrely.inv hw hL, .inr (.inl ⟨id, hdel⟩)⟩

/-- The delete of one catalog by owner and name. -/
theorem deleteCatalog_pool {t : Table} {p : t.Key → t.Row → Bool} (hC : Admitted pg w.strict C)
    (hG : ∀ log pre post, DeleteCommit w.strict u n pre post → G log pre post)
    (ht : t ∈ catalogTables)
    (howned : ∀ db, Inv pg w.strict db → ∀ k r, db.get ⟨t, k⟩ = some r →
      p k r = true → ∀ id, specOf t k r = some id →
      ∃ s, CustomMapAuxSpecs.find db u n = some (id, s)) :
    Pool (setting pg w C G) (fun _ log _ => Commits (DeleteCommit w.strict u n) log)
      (fun log _ => Commits (DeleteCommit w.strict u n) log)
      (autocommit fun _ => deleteStmt (.deleteCatalog t u n) t p)
      (fun _ log _ => Commits (DeleteCommit w.strict u n) log) := by
  refine autocommit_pool hG (fun _ _ h => h) fun now db e b hinv hadm hrun db' hrely => ?_
  cases hrun
  have hdel : CatalogDeleted w.strict t db' (Store.view (deleteWhere t p db) db') := by
    refine ⟨ht, fun k r hk => ?_, fun hst k r hk hs => ?_, fun k hk => ?_⟩
    · rw [get_deleteWhere] at hk
      split at hk
      · cases hk
      · exact hk
    · rw [get_deleteWhere]
      split
      case isFalse => exact hk
      case isTrue hgone =>
        obtain ⟨r₁, hr₁, hp⟩ := hgone
        have hlock : db'.get ⟨t, k⟩ = db.get ⟨t, k⟩ := by
          refine hrely.row (Write.lock db ⟨⟨t, k⟩, none⟩) ?_ (by simp [Write.lock])
          refine List.mem_append_left _ (List.mem_map.2 ⟨_, ?_, rfl⟩)
          exact List.mem_map.2
            ⟨k, List.mem_map.2 ⟨(k, r₁), mem_selectWhere.2 ⟨hr₁, hp⟩, rfl⟩, rfl⟩
        obtain rfl : r₁ = r := Option.some.inj (hr₁.symm.trans (hlock.symm.trans hk))
        obtain ⟨id, hid⟩ := Option.isSome_iff_exists.1 hs
        obtain ⟨s, hf⟩ := howned db hinv k r₁ hr₁ hp id hid
        exact absurd hid (hC.delete hst t u n db hadm _ hf k r₁ hr₁)
    · refine Store.view_get_of_notMem _ fun x hx he => hk ?_
      rw [← he, deleteWhere_table hx]
      exact List.mem_singleton_self _
  exact ⟨hdel.guarantee hrely.inv _, .inr (.inr ⟨t, hdel⟩)⟩

/-- An owner and a name have one spec. -/
theorem Inv.find {db : Db} {id : Int} {s : SpecRow} (hinv : Inv pg w.strict db)
    (hs : db.get ⟨.specs, id⟩ = some s) (hu : s.userId = u) (hn : s.nameId = n) :
    ∃ s, CustomMapAuxSpecs.find db u n = some (id, s) := by
  have hi := hinv.indexed id s hs
  rw [hu, hn] at hi
  exact ⟨s, find_eq_some.2 ⟨hi, hs⟩⟩

theorem deleteCustomMapAuxSpecInner_pool (hw : ¬w.frozen) (hC : Admitted pg w.strict C)
    (hG : ∀ log pre post, DeleteCommit w.strict u n pre post → G log pre post) :
    Pool (setting pg w C G) (fun _ log _ => Commits (DeleteCommit w.strict u n) log)
      (fun log _ => Uncommitted log) (deleteCustomMapAuxSpecInner u n)
      (fun _ log _ => Commits (DeleteCommit w.strict u n) log) := by
  rw [deleteCustomMapAuxSpecInner]
  refine Pool.bind (fun _ log _ => Commits (DeleteCommit w.strict u n) log)
    (Pool.adapt ((getSpec_pool hw (fun log pre post h => hG _ _ _ (.inl h))
      fun _ _ h => .inl h).weaken (fun log db _ hU => hU.mono fun _ _ hf => absurd hf id)
        (fun _ log db h => h) fun _ log db h => h)) fun existing => ?_
  refine Pool.bind (fun _ log _ => Commits (DeleteCommit w.strict u n) log)
    (askQ_pool fun a log db hc => hc.cons (by simp)) fun now => ?_
  split
  case isTrue => exact Pool.throw fun log db _ hc => hc
  case isFalse =>
  refine Pool.bind (fun _ log _ => Commits (DeleteCommit w.strict u n) log)
    (select_pool (fun log db hc => hc.cons (by simp))
      fun log db _ hc db' _ _ => hc.cons (by simp)) fun bound => ?_
  cases bound with
  | some m => exact Pool.throw fun log db _ hc => hc
  | none =>
      refine Pool.bind (fun _ log _ => Commits (DeleteCommit w.strict u n) log)
        (Pool.adapt (deleteSpec_pool hw hG)) fun _ => ?_
      refine Pool.bind (fun _ log _ => Commits (DeleteCommit w.strict u n) log)
        (Pool.adapt (deleteCatalog_pool hC hG (by decide) ?_)) fun _ => ?_
      · rintro db hinv ⟨u', n', slug⟩ r hk hp id hid
        simp only [Bool.decide_and, Bool.and_eq_true, decide_eq_true_eq] at hp
        obtain ⟨s, hs, hu, hn⟩ := hinv.games u' n' slug r id hk hid
        exact hinv.find hs (hu.trans hp.1) (hn.trans hp.2)
      refine Pool.bind (fun _ log _ => Commits (DeleteCommit w.strict u n) log)
        (Pool.adapt (deleteCatalog_pool hC hG (by decide) ?_)) fun _ => ?_
      · intro db hinv k r hk hp id hid
        simp only [Bool.decide_and, Bool.and_eq_true, decide_eq_true_eq] at hp
        obtain ⟨s, hs, hu, hn⟩ := hinv.collectibles k r hk
        cases hid
        exact hinv.find hs (hu.trans hp.1) (hn.trans hp.2)
      refine Pool.adapt (deleteCatalog_pool hC hG (by decide) ?_)
      · intro db hinv k r hk hp id hid
        simp only [Bool.decide_and, Bool.and_eq_true, decide_eq_true_eq] at hp
        obtain ⟨s, hs, hu, hn⟩ := hinv.hats k r hk
        cases hid
        exact hinv.find hs (hu.trans hp.1) (hn.trans hp.2)

/-! ## Logins -/

/-- One row of the accounts or of the names is set. -/
theorem LoggedIn.of_put {k : DbKey} {r : k.table.Row} {db : Db}
    (hk : k.table ∈ [Table.users, .displayNames]) : LoggedIn db (db.put ⟨k, some r⟩) := by
  refine ⟨fun v r' hv => ?_, fun k' hk' => Store.get_put_of_ne fun he => hk' (he ▸ hk)⟩
  rcases eq_or_ne k (⟨.users, v⟩ : DbKey) with rfl | hne
  · exact ⟨r, Store.get_put_self _ (⟨.users, v⟩ : DbKey) _⟩
  · exact ⟨r', (Store.get_put_of_ne hne).trans hv⟩

theorem LoggedIn.refl (db : Db) : LoggedIn db db := ⟨fun _ r h => ⟨r, h⟩, fun _ _ => rfl⟩

/-- The statements of a login write at most one row of the accounts or of the names. -/
theorem accounts_pool {s : Time → Sql β}
    (hG : ∀ log pre post, LoggedIn pre post → G log pre post)
      (hs : ∀ now v e b, (s now).run v = some (e, b) → e.writes = [] ∨
        ∃ k : DbKey, k.table ∈ [Table.users, .displayNames] ∧
        ∃ r, e.writes = [⟨k, some r⟩]) :
    Pool (setting pg w C G) (fun _ log _ => Commits LoggedIn log)
      (fun log _ => Commits LoggedIn log) (autocommit s) (fun _ log _ => Commits LoggedIn log) := by
  refine autocommit_pool hG (fun _ _ h => h) fun now db e b _ _ hrun db' hrely => ?_
  rcases hs now db e b hrun with hw | ⟨k, hk, r, hw⟩
  · rw [hw]
    exact ⟨.refl hrely.inv, .refl db'⟩
  · rw [hw]
    have hlog : LoggedIn db' (db'.put ⟨k, some r⟩) := .of_put hk
    exact ⟨hlog.guarantee hrely.inv _, hlog⟩

theorem updateUser_writes {now : Time} {name : String} {v : Db} {e : DbEffect} {b : Unit}
    (h : (accounts.updateUserStmt u name now).run v = some (e, b)) :
    e.writes = [] ∨ e.writes = [⟨⟨.users, u⟩, some ⟨name, now⟩⟩] := by
  rcases Accounts.updateUserStmt_run h with rfl | he
  · exact .inl rfl
  · simp only [accounts] at he
    split at he
    case isFalse => cases he
    case isTrue =>
      cases he
      exact .inr rfl

theorem registerOrLogin_pool {name : String}
    (hG : ∀ log pre post, LoggedIn pre post → G log pre post) :
    Pool (setting pg w C G) (fun _ log _ => Commits LoggedIn log) (fun log _ => Uncommitted log)
      (registerOrLogin u name) (fun _ log _ => Commits LoggedIn log) := by
  have hinsert : ∀ {t : Table} {k : t.Key} {r : t.Row} {v : Db} {e : DbEffect},
      t ∈ [Table.users, .displayNames] → insertRow t k r v = some e →
      ∃ k : DbKey, k.table ∈ [Table.users, .displayNames] ∧
        ∃ r, e.writes = [⟨k, some r⟩] := by
    intro t k r v e ht he
    obtain ⟨-, rfl⟩ := insertRow_eq_some.1 he
    exact ⟨⟨t, k⟩, ht, r, rfl⟩
  have hname : ∀ userId, Pool (setting pg w C G) (fun _ log _ => Commits LoggedIn log)
      (fun log _ => Commits LoggedIn log) (autocommit (accounts.insertDisplayNameStmt name userId))
      (fun _ log _ => Commits LoggedIn log) := fun userId =>
    accounts_pool hG fun now v e b h =>
      .inr (hinsert (by decide) (Accounts.insertDisplayNameStmt_run h))
  refine Pool.bind (fun _ log _ => Commits LoggedIn log) ?_ fun found => ?_
  · have hread : Pool (setting pg w C G) (fun _ log _ => Commits LoggedIn log)
        (fun log _ => Commits LoggedIn log) (accounts.findUser u name)
        (fun _ log _ => Commits LoggedIn log) :=
      plain_pool (select_pool (fun log db hc => hc.cons (by simp))
        fun log db _ hc db' _ _ => hc.cons (by simp))
    refine hread.attempt.weaken
      (fun log db _ hU => hU.mono fun _ _ hf => absurd hf id) (fun e log db h => h)
      fun r log db h => ?_
    cases r <;> exact h
  refine Pool.bind (fun _ log _ => Commits LoggedIn log) ?_ fun r => ?_
  · cases found.toOption.join with
    | none =>
        refine Pool.bind _ (accounts_pool hG fun now v e b h => .inr ?_) fun _ => Pool.pure
          fun _ _ _ hc => hc
        exact hinsert (by decide) (Accounts.insertUserStmt_run h).1
    | some user =>
        refine Pool.bind _ (accounts_pool hG fun now v e b h => ?_) fun _ => Pool.pure
          fun _ _ _ hc => hc
        exact (updateUser_writes h).imp_right fun hw => ⟨⟨.users, u⟩, by simp, _, hw⟩
  · obtain ⟨user, insertName⟩ := r
    cases insertName with
    | false => exact Pool.pure fun _ _ _ hc => hc
    | true => exact Pool.bind _ (hname _) fun _ => Pool.pure fun _ _ _ hc => hc

end

end Dd2Server
