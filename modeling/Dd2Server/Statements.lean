import Dd2Server.Protocol

/-!
# What the statements do inside a transaction

Each rule says how the view after a statement comes from the view before it, whatever the other
tasks commit meanwhile.  `Replaced` is the shape they share: in one table the rows that `p` picks
are gone, some rows came, and nothing else changed.
-/

namespace Dd2Server

open ReadCommitted

/-- A statement or a commit failed, or a statement violated a constraint. -/
def Trouble : LogEvent → Prop
  | .failed => True
  | .rejected _ _ => True
  | _ => False

def Troubled (log : Log) : Prop := ∃ ev ∈ log, Trouble ev

/-- `E` is what holds after a failed statement of the transaction. -/
def OnTrouble {ε : Type} (σ : Setting Table.Key Table.Row Tag Ask.Ans Act.Out) (since : Log)
    (E : ε → Known Table.Key Table.Row Tag Ask.Ans Act.Out) (e : ε) : Prop :=
  ∀ ev log db, Trouble ev → Quiet σ.plain since log → E e (ev :: log) db

theorem OnTrouble.later {ε : Type} {σ : Setting Table.Key Table.Row Tag Ask.Ans Act.Out}
    {since since' : Log} {E : ε → Known Table.Key Table.Row Tag Ask.Ans Act.Out} {e : ε}
    (h : OnTrouble σ since E e) (hq : Quiet σ.plain since since') : OnTrouble σ since' E e :=
  fun ev log db htr hq' => h ev log db htr (hq.trans hq')

/-- Outside of the tables `ts` nothing changed. -/
def Frame (ts : List Table) (v₀ v : Db) : Prop :=
  ∀ k : DbKey, k.table ∉ ts → v.get k = v₀.get k

theorem Frame.get {ts : List Table} {v₀ v : Db} (h : Frame ts v₀ v) {t : Table} (k : t.Key)
    (ht : t ∉ ts) : v.get ⟨t, k⟩ = v₀.get ⟨t, k⟩ := h ⟨t, k⟩ ht

theorem Frame.trans {ts ts' : List Table} {a b c : Db} (h : Frame ts a b) (h' : Frame ts' b c) :
    Frame (ts ++ ts') a c := by
  intro k hk
  rw [List.mem_append, not_or] at hk
  rw [h' k hk.2, h k hk.1]

theorem Frame.mono {ts ts' : List Table} {a b : Db} (h : Frame ts a b)
    (hs : ∀ t ∈ ts, t ∈ ts') : Frame ts' a b := fun k hk => h k fun hm => hk (hs _ hm)

/-- In the table `t` the rows that `p` picks are gone and the rows `rs` came. -/
structure Replaced (t : Table) (p : t.Key → t.Row → Bool) (rs : List (t.Key × t.Row))
    (v₀ v : Db) : Prop where
  rows : ∀ k r, v.get ⟨t, k⟩ = some r ↔ (k, r) ∈ rs ∨ v₀.get ⟨t, k⟩ = some r ∧
    p k r = false
  others : ∀ k : DbKey, k.table ≠ t → v.get k = v₀.get k

theorem Replaced.trans {t : Table} {p : t.Key → t.Row → Bool} {rs rs' : List (t.Key × t.Row)}
    {v₀ v₁ v₂ : Db} (h : Replaced t p rs v₀ v₁)
    (h' : Replaced t (fun _ _ => false) rs' v₁ v₂) : Replaced t p (rs' ++ rs) v₀ v₂ where
  rows k r := by
    rw [h'.rows k r, h.rows k r, List.mem_append]
    constructor
    · rintro (hr | ⟨hr | hr, -⟩)
      · exact .inl (.inl hr)
      · exact .inl (.inr hr)
      · exact .inr hr
    · rintro ((hr | hr) | hr)
      · exact .inl hr
      · exact .inr ⟨.inl hr, rfl⟩
      · exact .inr ⟨.inr hr, rfl⟩
  others k hk := (h'.others k hk).trans (h.others k hk)

theorem Replaced.refl (t : Table) (v : Db) : Replaced t (fun _ _ => false) [] v v where
  rows k r := by simp
  others _ _ := rfl

section

variable {σ : Setting Table.Key Table.Row Tag Ask.Ans Act.Out} {since : Log}
  {E : DbError → Known Table.Key Table.Row Tag Ask.Ans Act.Out} {L : List (Lock Table.Key)}
  {A : Assertion Table.Key Table.Row}

/-- A statement whose failures only leave trouble in the log. -/
theorem sql_triple {β : Type} {s : Sql β} {L' : β → List (Lock Table.Key)}
    {A' : β → Assertion Table.Key Table.Row} (hplain : ∀ v, σ.plain (.saw s.tag v))
    (hE : OnTrouble σ since E .database)
    (hrun : ∀ ws db e a, σ.P.Inv db → A db (Store.view ws db) →
      σ.C s.tag (Store.view ws db) → s.run (Store.view ws db) = some (e, a) →
      (∀ x ∈ L' a, x ∈ e.allLocks (Store.view ws db) ++ L) ∧
      ∀ db', Rely σ.P (e.allLocks (Store.view ws db) ++ L) db db' → A db'
        (Store.view ws db') → A' a db' (Store.view e.writes (Store.view ws db'))) :
    Triple σ since E L A (sql s) L' A' :=
  .query hplain (fun log db hq _ => hE .failed log db trivial hq)
    (fun log _ _ hq _ _ _ _ db' _ => hE (.rejected _ _) log db' trivial hq) hrun

/-- The writes of a `DELETE`, over the views they are read through later. -/
theorem deleteWhere_replaced {P : Protocol Table.Key Table.Row} {t : Table}
    {p : t.Key → t.Row → Bool} {ws : List DbWrite} {db db' : Db} {ls : List (Lock Table.Key)}
    (hr : Rely P (Effect.allLocks (Store.view ws db)
      { writes := deleteWhere t p (Store.view ws db) } ++ ls) db db')
    (hshrink : ∀ k r, p k r = true → db'.get ⟨t, k⟩ = some r →
      db.get ⟨t, k⟩ = some r) :
    Replaced t p [] (Store.view ws db')
      (Store.view (deleteWhere t p (Store.view ws db)) (Store.view ws db')) := by
  have hlocked : ∀ k r, (Store.view ws db).get ⟨t, k⟩ = some r → p k r = true →
      db'.get ⟨t, k⟩ = db.get ⟨t, k⟩ := by
    intro k r hk hp
    refine hr.row (Write.lock (Store.view ws db) ⟨⟨t, k⟩, none⟩) ?_ (by simp [Write.lock])
    refine List.mem_append_left _ (List.mem_append_left _ (List.mem_map.2 ⟨_, ?_, rfl⟩))
    exact List.mem_map.2 ⟨k, List.mem_map.2 ⟨(k, r), mem_selectWhere.2 ⟨hk, hp⟩, rfl⟩,
      rfl⟩
  constructor
  · intro k r
    rw [get_deleteWhere]
    have hiff : (∃ r₁, (Store.view ws db).get ⟨t, k⟩ = some r₁ ∧ p k r₁ = true) ↔
        ∃ r₁, (Store.view ws db').get ⟨t, k⟩ = some r₁ ∧ p k r₁ = true := by
      constructor
      · rintro ⟨r₁, hk, hp⟩
        exact ⟨r₁, (Store.view_get_congr (hlocked k r₁ hk hp)).trans hk, hp⟩
      · rintro ⟨r₁, hk, hp⟩
        exact ⟨r₁, Store.view_get_shrink (hshrink k r₁ hp) hk, hp⟩
    split
    · obtain ⟨r₁, hk, hp⟩ := hiff.1 (by assumption)
      refine ⟨fun hf => (by cases hf), ?_⟩
      rintro (hf | ⟨hr, hp'⟩)
      · cases hf
      · rw [hk] at hr
        cases hr
        rw [hp] at hp'
        cases hp'
    · refine ⟨fun hk => .inr ⟨hk, ?_⟩, ?_⟩
      · cases hp : p k r with
        | false => rfl
        | true => exact absurd (hiff.2 ⟨r, hk, hp⟩) (by assumption)
      · rintro (hf | ⟨hk, -⟩)
        · cases hf
        · exact hk
  · intro k hk
    refine Store.view_get_of_notMem _ fun w hw he => ?_
    obtain ⟨k', r, hrow, -⟩ := deleteWhere_row hw
    rw [he] at hrow
    rw [hrow] at hk
    exact hk rfl

/-- `DELETE`, where nobody adds rows that `p` picks. -/
theorem delete_triple {tag : Tag} {t : Table} {p : t.Key → t.Row → Bool}
    (hplain : ∀ v, σ.plain (.saw tag v)) (hE : OnTrouble σ since E .database)
    (hshrink : ∀ db db', σ.P.Inv db → Rely σ.P L db db' → ∀ k r, p k r = true →
      db'.get ⟨t, k⟩ = some r → db.get ⟨t, k⟩ = some r) :
    Triple σ since E L A (sql (deleteStmt tag t p)) (fun _ => L)
      (fun _ db v => ∃ v₀, A db v₀ ∧ Replaced t p [] v₀ v) := by
  refine sql_triple hplain hE fun ws db e a hinv hA _ hrun => ?_
  cases hrun
  refine ⟨fun x hx => List.mem_append_right _ hx, fun db' hr hA' => ⟨_, hA', ?_⟩⟩
  exact deleteWhere_replaced hr
    (hshrink db db' hinv (hr.mono fun x hx => List.mem_append_right _ hx))

/-- `INSERT` of rows that do not depend on what others may still change. -/
theorem insertSelect_triple {tag : Tag} {t : Table} {rows : Db → List (t.Key × t.Row)}
    (rs : List (t.Key × t.Row)) (hplain : ∀ v, σ.plain (.saw tag v))
    (hE : OnTrouble σ since E .database)
    (hrows : ∀ ws db, σ.P.Inv db → A db (Store.view ws db) →
      ∀ x, x ∈ rows (Store.view ws db) ↔ x ∈ rs) :
    Triple σ since E L A (sql (insertSelectStmt tag t rows)) (fun _ => L)
      (fun _ db v => ∃ v₀, A db v₀ ∧ Replaced t (fun _ _ => false) rs v₀ v) := by
  refine sql_triple hplain hE fun ws db e a hinv hA _ hrun => ?_
  obtain ⟨⟨hnd, hins⟩, rfl⟩ := insertRows_eq_some.1 (insertSelectStmt_run.1 hrun).1
  refine ⟨fun x hx => List.mem_append_right _ hx, fun db' hr hA' => ⟨_, hA', ?_⟩⟩
  have hfree : ∀ k r, (k, r) ∈ rs → (Store.view ws db').get ⟨t, k⟩ = none := by
    intro k r hm
    have hm' := (hrows ws db hinv hA (k, r)).2 hm
    have hi := free_of_insertable (List.all_eq_true.1 hins _ hm')
    have hdb : db'.get ⟨t, k⟩ = db.get ⟨t, k⟩ := by
      refine hr.row (Write.lock (Store.view ws db) ⟨⟨t, k⟩, some r⟩) ?_ ?_
      · refine List.mem_append_left _ (List.mem_append_left _ (List.mem_map.2 ⟨_, ?_, rfl⟩))
        exact List.mem_map.2 ⟨(k, r), hm', rfl⟩
      · simp only [Write.lock]
        split <;> simp
    exact (Store.view_get_congr hdb).trans hi
  constructor
  · intro k r
    rw [Store.get_view_insertions _ hnd, hrows ws db hinv hA (k, r)]
    constructor
    · rintro (hm | ⟨-, hk⟩)
      · exact .inl hm
      · exact .inr ⟨hk, rfl⟩
    · rintro (hm | ⟨hk, -⟩)
      · exact .inl hm
      · refine .inr ⟨fun hm => ?_, hk⟩
        obtain ⟨⟨k', r'⟩, hm', rfl⟩ := List.mem_map.1 hm
        rw [hfree k' r' ((hrows ws db hinv hA _).1 hm')] at hk
        cases hk
  · intro k hk
    refine Store.view_get_of_notMem _ fun w hw he => ?_
    obtain ⟨p, -, hrow⟩ := Store.insertions_row hw
    rw [he] at hrow
    rw [hrow] at hk
    exact hk rfl

/-- `INSERT` of one row. -/
theorem insert_triple {tag : Tag} {t : Table} {k : t.Key} {r : t.Row}
    (hplain : ∀ v, σ.plain (.saw tag v)) (hE : OnTrouble σ since E .database) :
    Triple σ since E L A (sql (insertStmt tag t k r)) (fun _ => L)
      (fun _ db v => ∃ v₀, A db v₀ ∧ Replaced t (fun _ _ => false) [(k, r)] v₀ v) := by
  refine sql_triple hplain hE fun ws db e a hinv hA _ hrun => ?_
  obtain ⟨hins, rfl⟩ := insertRow_eq_some.1 (insertStmt_run.1 hrun)
  refine ⟨fun x hx => List.mem_append_right _ hx, fun db' hr hA' => ⟨_, hA', ?_⟩⟩
  have hfree : (Store.view ws db').get ⟨t, k⟩ = none := by
    have hdb : db'.get ⟨t, k⟩ = db.get ⟨t, k⟩ := by
      refine hr.row (Write.lock (Store.view ws db) ⟨⟨t, k⟩, some r⟩) ?_ ?_
      · exact List.mem_append_left _ (List.mem_append_left _ List.mem_cons_self)
      · simp only [Write.lock]
        split <;> simp
    exact (Store.view_get_congr hdb).trans (free_of_insertable hins)
  constructor
  · intro k' r'
    rcases eq_or_ne k' k with rfl | hne
    · simp [hfree, eq_comm]
    · rw [Store.view_cons, Store.view_nil, Store.get_put_of_ne (by simpa using Ne.symm hne)]
      simp [hne]
  · intro k' hk'
    refine Store.get_put_of_ne fun he => hk' ?_
    rw [← he]

/-- A loop of `INSERT`s. -/
theorem insertAll_triple {α : Type} {tag : Tag} {t : Table} {key : α → t.Key}
    {row : α → t.Row} (hplain : ∀ v, σ.plain (.saw tag v))
    (hE : OnTrouble σ since E .database) (xs : List α) :
    Triple σ since E L A (xs.forM fun x => sql (insertStmt tag t (key x) (row x))) (fun _ => L)
      (fun _ db v => ∃ v₀, A db v₀ ∧
        ∃ rs, (∀ y, y ∈ rs ↔ y ∈ xs.map fun x => (key x, row x)) ∧
          Replaced t (fun _ _ => false) rs v₀ v) := by
  induction xs generalizing A with
  | nil => exact .pure (fun db v _ hA => ⟨v, hA, [], by simp, .refl t v⟩) fun x hx => hx
  | cons x xs ih =>
      refine Triple.bind (insert_triple hplain hE) fun _ => (ih).weaken (fun x hx => hx)
        (fun _ _ _ hA => hA) (fun _ x hx => hx) ?_
      rintro - db v - ⟨v₁, ⟨v₀, hA, h₁⟩, rs, hrs, h₂⟩
      refine ⟨v₀, hA, rs ++ [(key x, row x)], fun y => ?_, h₁.trans h₂⟩
      rw [List.mem_append, hrs y, List.mem_singleton, List.map_cons, List.mem_cons, or_comm]

/-- `Replaced` only looks at which rows came. -/
theorem Replaced.congr {t : Table} {p : t.Key → t.Row → Bool} {rs rs' : List (t.Key × t.Row)}
    {v₀ v : Db} (h : Replaced t p rs v₀ v) (hrs : ∀ y, y ∈ rs ↔ y ∈ rs') :
    Replaced t p rs' v₀ v where
  rows k r := by rw [h.rows k r, hrs]
  others := h.others

/-- `DELETE`, then a loop of `INSERT`s. -/
theorem deleteInsertAll_triple {α : Type} {tag tag' : Tag} {t : Table}
    {p : t.Key → t.Row → Bool} {key : α → t.Key} {row : α → t.Row} {xs : List α}
    (hplain : ∀ v, σ.plain (.saw tag v)) (hplain' : ∀ v, σ.plain (.saw tag' v))
    (hE : OnTrouble σ since E .database)
      (hshrink : ∀ db db', σ.P.Inv db → Rely σ.P L db db' → ∀ k r, p k r = true →
        db'.get ⟨t, k⟩ = some r → db.get ⟨t, k⟩ = some r) :
    Triple σ since E L A
      (do sql (deleteStmt tag t p); xs.forM fun x => sql (insertStmt tag' t (key x) (row x)))
      (fun _ => L)
      (fun _ db v => ∃ v₀, A db v₀ ∧
        Replaced t p (xs.map fun x => (key x, row x)) v₀ v) := by
  refine Triple.bind (delete_triple hplain hE hshrink) fun _ =>
    (insertAll_triple hplain' hE xs).weaken
    (fun x hx => hx) (fun _ _ _ hA => hA) (fun _ x hx => hx) ?_
  rintro - db v - ⟨v₁, ⟨v₀, hA, h₁⟩, rs, hrs, h₂⟩
  exact ⟨v₀, hA, (h₁.trans h₂).congr (by simpa using hrs)⟩

/-- `DELETE`, then `INSERT … SELECT`. -/
theorem deleteInsertSelect_triple {tag tag' : Tag} {t : Table} {p : t.Key → t.Row → Bool}
    {rows : Db → List (t.Key × t.Row)} {rs : List (t.Key × t.Row)}
    (hplain : ∀ v, σ.plain (.saw tag v)) (hplain' : ∀ v, σ.plain (.saw tag' v))
    (hE : OnTrouble σ since E .database)
    (hshrink : ∀ db db', σ.P.Inv db → Rely σ.P L db db' → ∀ k r, p k r = true →
      db'.get ⟨t, k⟩ = some r → db.get ⟨t, k⟩ = some r)
    (hrows : ∀ db v₀ v, A db v₀ → Replaced t p [] v₀ v →
      ∀ x, x ∈ rows v ↔ x ∈ rs) :
    Triple σ since E L A
      (do sql (deleteStmt tag t p); sql (insertSelectStmt tag' t rows)) (fun _ => L)
      (fun _ db v => ∃ v₀, A db v₀ ∧ Replaced t p rs v₀ v) := by
  refine Triple.bind (delete_triple hplain hE hshrink) fun _ =>
    Triple.post (insertSelect_triple rs hplain' hE ?_) ?_
  · rintro ws db - ⟨v₀, hA, h⟩
    exact hrows db v₀ _ hA h
  · rintro - db v - ⟨v₁, ⟨v₀, hA, h₁⟩, h₂⟩
    exact ⟨v₀, hA, (h₁.trans h₂).congr (by simp)⟩

/-! ## Statements at the head of a transaction -/

theorem adapt_sql {ε β : Type} (f : DbError → ε) (s : Sql β) :
    ExceptT.adapt f (sql s : Query DbError β) = query (f .database) s := adapt_query f .database s

theorem adapt_commitQ {ε : Type} (f : DbError → ε) :
    ExceptT.adapt f (commitQ : Query DbError Unit) = commit (f .database) := rfl

/-- A statement whose failures are the driver's. -/
theorem query_ends {ε α β : Type} {E : ε → Known Table.Key Table.Row Tag Ask.Ans Act.Out}
    {B : α → Known Table.Key Table.Row Tag Ask.Ans Act.Out} {e : ε} {s : Sql β}
    {f : β → Query ε α} (hE : OnTrouble σ since E e)
    (hrun : ∀ log ws db e b, Quiet σ.plain since log → σ.P.Inv db →
      A db (Store.view ws db) → σ.C s.tag (Store.view ws db) → s.run
      (Store.view ws db) = some (e, b) →
        ∃ L₁ A₁, (∀ x ∈ L₁, x ∈ e.allLocks (Store.view ws db) ++ L) ∧
          (∀ db', Rely σ.P (e.allLocks (Store.view ws db) ++ L) db db' →
          A db' (Store.view ws db') → A₁ db' (Store.view e.writes (Store.view ws db'))) ∧
        Ends σ (.saw s.tag (Store.view ws db) :: log) E L₁ A₁ (f b) B) :
    Ends σ since E L A (query e s >>= f) B :=
  .query (fun log db hq _ => hE .failed log db trivial hq)
    (fun log _ db hq _ => hE (.rejected _ _) log db trivial hq) hrun

theorem sql_ends {ε α β : Type} {E : ε → Known Table.Key Table.Row Tag Ask.Ans Act.Out}
    {B : α → Known Table.Key Table.Row Tag Ask.Ans Act.Out} {g : DbError → ε} {s : Sql β}
    {f : β → Query ε α} (hE : OnTrouble σ since E (g .database))
    (hrun : ∀ log ws db e b, Quiet σ.plain since log → σ.P.Inv db →
      A db (Store.view ws db) → σ.C s.tag (Store.view ws db) → s.run
      (Store.view ws db) = some (e, b) →
        ∃ L₁ A₁, (∀ x ∈ L₁, x ∈ e.allLocks (Store.view ws db) ++ L) ∧
          (∀ db', Rely σ.P (e.allLocks (Store.view ws db) ++ L) db db' →
          A db' (Store.view ws db') → A₁ db' (Store.view e.writes (Store.view ws db'))) ∧
        Ends σ (.saw s.tag (Store.view ws db) :: log) E L₁ A₁ (f b) B) :
    Ends σ since E L A (ExceptT.adapt g (sql s) >>= f) B := by
  rw [adapt_sql]
  exact query_ends hE hrun

/-- The rules for converted errors serve where none is converted. -/
theorem plain_ends {α β : Type} {E : DbError → Known Table.Key Table.Row Tag Ask.Ans Act.Out}
    {B : α → Known Table.Key Table.Row Tag Ask.Ans Act.Out} {s : Sql β}
    {f : β → Query DbError α} (h : Ends σ since E L A (ExceptT.adapt id (sql s) >>= f) B) :
    Ends σ since E L A (sql s >>= f) B := by
  rw [adapt_sql] at h
  exact h

theorem plain_pool {β : Type} {E : DbError → Known Table.Key Table.Row Tag Ask.Ans Act.Out}
    {A₀ : Known Table.Key Table.Row Tag Ask.Ans Act.Out}
    {B : β → Known Table.Key Table.Row Tag Ask.Ans Act.Out} {s : Sql β}
    (h : Pool σ E A₀ (ExceptT.adapt id (sql s)) B) : Pool σ E A₀ (sql s) B := by
  rw [adapt_sql] at h
  exact h

/-- A statement that neither writes nor locks. -/
theorem select_ends {ε α β : Type} {E : ε → Known Table.Key Table.Row Tag Ask.Ans Act.Out}
    {B : α → Known Table.Key Table.Row Tag Ask.Ans Act.Out} {g : DbError → ε} {fn : String}
    {q : Db → β} {f : β → Query ε α} (hE : OnTrouble σ since E (g .database))
    (hrun : ∀ log ws db, Quiet σ.plain since log → σ.P.Inv db → A db (Store.view ws db) →
      Ends σ (.saw (.named fn) (Store.view ws db) :: log) E L A (f (q (Store.view ws db))) B) :
    Ends σ since E L A (ExceptT.adapt g (sql (select fn q)) >>= f) B := by
  refine sql_ends hE fun log ws db e b hq hinv hA _ hs => ?_
  cases hs
  exact ⟨L, A, fun x hx => hx, fun db' _ hA' => hA', hrun log ws db hq hinv hA⟩

/-- A parsed catalog, or its error. -/
theorem liftE_ends {ε ε' α β : Type} {E : ε → Known Table.Key Table.Row Tag Ask.Ans Act.Out}
    {B : α → Known Table.Key Table.Row Tag Ask.Ans Act.Out} {g : ε' → ε} {r : Except ε' β}
    {f : β → Query ε α} (hok : ∀ b, r = .ok b → Ends σ since E L A (f b) B)
    (herr : ∀ e, r = .error e → ∀ log db v, Quiet σ.plain since log →
      σ.P.Inv db → A db v → ∀ db', Rely σ.P [] db db' → E (g e) log db') :
    Ends σ since E L A (liftE g r >>= f) B := by
  cases r with
  | ok b => exact hok b rfl
  | error e => exact Ends.throw (herr e rfl)

/-! ## Outside of transactions -/

/-- A read on its own: its answer is the one of the committed rows at that time. -/
theorem select_pool {ε β : Type} {E : ε → Known Table.Key Table.Row Tag Ask.Ans Act.Out}
    {A₀ : Known Table.Key Table.Row Tag Ask.Ans Act.Out}
    {B : β → Known Table.Key Table.Row Tag Ask.Ans Act.Out} {g : DbError → ε} {tag : Tag}
    {q : Db → β} (hE : ∀ log db, A₀ log db → E (g .database) (.failed :: log) db)
    (h : ∀ log db, σ.P.Inv db → A₀ log db → ∀ db', Rely σ.P [] db db' →
      A₀ log db' → B (q db) (.saw tag db :: log) db') :
    Pool σ E A₀ (ExceptT.adapt g (sql (selectAs tag q))) B := by
  rw [adapt_sql]
  refine .read (fun v => ⟨q v, rfl⟩) (fun log db _ hA => hE log db hA) ?_
  intro log db a hinv hA _ hrun db' hr hA'
  cases hrun
  exact h log db hinv hA db' hr hA'

/-- The answer of the world, with the question and the answer in the log. -/
theorem askQ_pool {ε : Type} {E : ε → Known Table.Key Table.Row Tag Ask.Ans Act.Out}
    {A₀ : Known Table.Key Table.Row Tag Ask.Ans Act.Out} {q : Ask}
    {B : q.Ans → Known Table.Key Table.Row Tag Ask.Ans Act.Out}
    (h : ∀ a log db, A₀ log db → B a (.answered q a :: log) db) :
    Pool σ E A₀ (askQ q) B := .ask fun a log db _ hA => h a log db hA

end

end Dd2Server
