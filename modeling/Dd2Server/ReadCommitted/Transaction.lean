import Dd2Server.ReadCommitted.Logic

/-!
# Rules for transactions

Inside a transaction an assertion speaks about two states: the committed rows and the view on top of
them.  `InTx` says that an assertion holds now and stays true while the others move, that certain
locks are held, and that only plain events came since a given point of the log.  A `Triple` takes
one `InTx` to another over a program that may stop with an error.

The rule for a statement (`Triple.query`) asks for its effect on every view the statement's rows may
be read through later, not only on the view it ran on: this is where the locks count.
-/

namespace ReadCommitted

variable {T : Type} {K R : T → Type}
  {Tag Ask Act α β ε ε' : Type} {Ans : Ask → Type} {Out : Act → Type}

/-- Only plain events since the log was `since`. -/
def Quiet (plain : Event K R Tag Ans Out → Prop)
    (since log : List (Event K R Tag Ans Out)) : Prop :=
  ∃ new, log = new ++ since ∧ ∀ ev ∈ new, plain ev

variable {plain : Event K R Tag Ans Out → Prop}

theorem Quiet.refl (log : List (Event K R Tag Ans Out)) : Quiet plain log log :=
  ⟨[], rfl, by simp⟩

theorem Quiet.cons {since log : List (Event K R Tag Ans Out)} {ev : Event K R Tag Ans Out}
    (h : Quiet plain since log) (hev : plain ev) : Quiet plain since (ev :: log) := by
  obtain ⟨new, rfl, hnew⟩ := h
  refine ⟨ev :: new, rfl, fun ev' hm => ?_⟩
  rcases List.mem_cons.1 hm with rfl | hm
  · exact hev
  · exact hnew ev' hm

theorem Quiet.trans {a b c : List (Event K R Tag Ans Out)} (h : Quiet plain a b)
    (h' : Quiet plain b c) : Quiet plain a c := by
  obtain ⟨new, rfl, hnew⟩ := h
  obtain ⟨new', rfl, hnew'⟩ := h'
  refine ⟨new' ++ new, (List.append_assoc new' new a).symm, fun ev hm => ?_⟩
  rcases List.mem_append.1 hm with hm | hm
  · exact hnew' ev hm
  · exact hnew ev hm

theorem Quiet.mem {since log : List (Event K R Tag Ans Out)} (h : Quiet plain since log)
    {ev : Event K R Tag Ans Out} (hev : ev ∈ since) : ev ∈ log := by
  obtain ⟨new, rfl, -⟩ := h
  exact List.mem_append_right new hev

/-- Every commit of the log is one of `r`. -/
def Commits (r : Store K R → Store K R → Prop) (log : List (Event K R Tag Ans Out)) : Prop :=
  ∀ pre post, .committed pre post ∈ log → r pre post

theorem Commits.nil {r : Store K R → Store K R → Prop} :
    Commits r ([] : List (Event K R Tag Ans Out)) := fun _ _ h => (nomatch h)

theorem Commits.mono {r r' : Store K R → Store K R → Prop} {log : List (Event K R Tag Ans Out)}
    (h : Commits r log) (hr : ∀ pre post, r pre post → r' pre post) : Commits r' log :=
  fun pre post hm => hr pre post (h pre post hm)

theorem Commits.cons {r : Store K R → Store K R → Prop} {log : List (Event K R Tag Ans Out)}
    {ev : Event K R Tag Ans Out} (h : Commits r log)
    (hev : ∀ pre post, ev = .committed pre post → r pre post) : Commits r (ev :: log) := by
  intro pre post hm
  rcases List.mem_cons.1 hm with he | hm
  · exact hev pre post he.symm
  · exact h pre post hm

theorem Quiet.commits {r : Store K R → Store K R → Prop}
    {since log : List (Event K R Tag Ans Out)} (h : Quiet plain since log)
    (hplain : ∀ pre post, ¬plain (.committed pre post)) (hs : Commits r since) :
    Commits r log := by
  obtain ⟨new, rfl, hnew⟩ := h
  intro pre post hm
  rcases List.mem_append.1 hm with hm | hm
  · exact absurd (hnew _ hm) (hplain pre post)
  · exact hs pre post hm

/-- The task committed nothing. -/
abbrev Uncommitted (log : List (Event K R Tag Ans Out)) : Prop := Commits (fun _ _ => False) log

/-- An assertion about the committed rows and the view. -/
abbrev Assertion (K R : T → Type) := Store K R → Store K R → Prop

/-- What surrounds a program: the protocol, the admitted statements, what its commits promise, and
the events the rules forget. -/
structure Setting (K R : T → Type) (Tag : Type) (Ans : Ask → Type) (Out : Act → Type) where
  P : Protocol K R
  C : Tag → Store K R → Prop
  G : Promise K R Tag Ans Out
  plain : Event K R Tag Ans Out → Prop

/-- An assertion about the log of a task and the committed rows. -/
abbrev Known (K R : T → Type) (Tag : Type) (Ans : Ask → Type) (Out : Act → Type) :=
  List (Event K R Tag Ans Out) → Store K R → Prop

/-- A statement sent to the driver, with `dbError` when it fails. -/
def query (dbError : ε) (s : Stmt K R Tag β) : ExceptT ε (Prog K R Tag Ans Out) β :=
  ExceptT.mk (s.exec.bind fun r => .ret (r.elim (.error dbError) .ok))

theorem adapt_query (f : ε' → ε) (e : ε') (s : Stmt K R Tag β) :
    (query e s : ExceptT ε' (Prog K R Tag Ans Out) β).adapt f = query (f e) s := by
  have hrun : ((query e s : ExceptT ε' (Prog K R Tag Ans Out) β).adapt f).run =
      s.exec.bind fun r => (Prog.ret (r.elim (Except.error e) Except.ok)).bind fun r' =>
        .ret (r'.mapError f) := by
    rw [← Prog.bind_assoc]
    rfl
  refine hrun.trans (congrArg (Prog.bind s.exec) (funext fun r => ?_))
  cases r <;> rfl

variable [∀ t, DecidableEq (K t)]

theorem Rely.nil {P : Protocol K R} {ls : List (Lock K)} {db db' : Store K R}
    (h : Rely P ls db db') : Rely P [] db db' := h.mono (by simp)

variable [DecidableEq T]

/-- Inside a transaction whose log was `since`: the locks `L` are held, only plain events came, and
`A` holds now and under interference. -/
structure InTx (σ : Setting K R Tag Ans Out) (since : List (Event K R Tag Ans Out))
    (L : List (Lock K)) (A : Assertion K R) (l : Local K R Tag Ans Out)
    (db : Store K R) : Prop where
  locks : ∀ x ∈ L, x ∈ l.locks
  quiet : Quiet σ.plain since l.log
  holds : ∀ db', Rely σ.P l.locks db db' → A db' (Store.view l.writes db')

/-- What holds where a program inside a transaction ends: `E` of an error once the transaction is
over, `InTx` of a result. -/
def Outcome (σ : Setting K R Tag Ans Out) (since : List (Event K R Tag Ans Out))
    (E : ε → Known K R Tag Ans Out) (L : α → List (Lock K)) (A : α → Assertion K R) :
    Except ε α → Local K R Tag Ans Out → Store K R → Prop
  | .error e, l, db => ∀ db', Rely σ.P [] db db' → E e l.log db'
  | .ok a, l, db => InTx σ since (L a) (A a) l db

/-- From `L` and `A` the program ends in `L'` and `A'`, or in an error of which `E` holds. -/
def Triple (σ : Setting K R Tag Ans Out) (since : List (Event K R Tag Ans Out))
    (E : ε → Known K R Tag Ans Out) (L : List (Lock K)) (A : Assertion K R)
    (x : ExceptT ε (Prog K R Tag Ans Out) α) (L' : α → List (Lock K))
    (A' : α → Assertion K R) : Prop :=
  ∀ l db, σ.P.Inv db → InTx σ since L A l db →
    Safe σ.P σ.C σ.G (Outcome σ since E L' A') x.run l db

variable {σ : Setting K R Tag Ans Out} {since : List (Event K R Tag Ans Out)}
  {E : ε → Known K R Tag Ans Out}
  {L : List (Lock K)} {A : Assertion K R} {L' : α → List (Lock K)} {A' : α → Assertion K R}

theorem InTx.rely {l : Local K R Tag Ans Out} {db db' : Store K R} (h : InTx σ since L A l db)
    (hr : Rely σ.P l.locks db db') : InTx σ since L A l db' :=
  ⟨h.locks, h.quiet, fun db'' hr' => h.holds db'' (hr.trans hr')⟩

theorem InTx.now {l : Local K R Tag Ans Out} {db : Store K R} (h : InTx σ since L A l db)
    (hinv : σ.P.Inv db) : A db (Store.view l.writes db) := h.holds db (.refl hinv)

theorem InTx.mono {L₁ : List (Lock K)} {A₁ : Assertion K R} {l : Local K R Tag Ans Out}
    {db : Store K R} (h : InTx σ since L A l db) (hL : ∀ x ∈ L₁, x ∈ L)
    (hA : ∀ db v, σ.P.Inv db → A db v → A₁ db v) : InTx σ since L₁ A₁ l db :=
  ⟨fun x hx => h.locks x (hL x hx), h.quiet, fun db' hr => hA _ _ hr.inv (h.holds db' hr)⟩

theorem Outcome.rely {r : Except ε α} {l : Local K R Tag Ans Out} {db db' : Store K R}
    (h : Outcome σ since E L' A' r l db) (hr : Rely σ.P l.locks db db') :
    Outcome σ since E L' A' r l db' := by
  cases r with
  | error e => exact fun db'' hr' => h db'' (hr.nil.trans hr')
  | ok a => exact InTx.rely h hr

/-! ## Structural rules -/

theorem Triple.pure {a : α} (h : ∀ db v, σ.P.Inv db → A db v → A' a db v)
    (hL : ∀ x ∈ L' a, x ∈ L) : Triple σ since E L A (Pure.pure a) L' A' :=
  fun _ _ _ hl _ hr => (hl.rely hr).mono hL fun db v hi hA => h db v hi hA

theorem Triple.bind {x : ExceptT ε (Prog K R Tag Ans Out) β}
    {f : β → ExceptT ε (Prog K R Tag Ans Out) α} {L₁ : β → List (Lock K)}
    {A₁ : β → Assertion K R} (hx : Triple σ since E L A x L₁ A₁)
    (hf : ∀ b, Triple σ since E (L₁ b) (A₁ b) (f b) L' A') :
    Triple σ since E L A (x >>= f) L' A' := by
  intro l db hinv hl
  have hrun : (x >>= f).run = x.run.bind (ExceptT.bindCont f) := rfl
  rw [hrun]
  refine (hx l db hinv hl).bind ?_ hinv
  intro r l' db' hinv' hr
  cases r with
  | ok b => exact hf b l' db' hinv' hr
  | error e => exact fun db'' hr' => Outcome.rely (r := .error e) hr hr'

theorem Triple.weaken {x : ExceptT ε (Prog K R Tag Ans Out) α} {L₁ : List (Lock K)}
    {A₁ : Assertion K R} {L₂ : α → List (Lock K)} {A₂ : α → Assertion K R}
    (h : Triple σ since E L₁ A₁ x L₂ A₂) (hL : ∀ x ∈ L₁, x ∈ L)
    (hA : ∀ db v, σ.P.Inv db → A db v → A₁ db v)
    (hL' : ∀ a, ∀ x ∈ L' a, x ∈ L₂ a) (hA' : ∀ a db v, σ.P.Inv db → A₂ a db v →
      A' a db v) : Triple σ since E L A x L' A' := by
  intro l db hinv hl
  refine (h l db hinv (hl.mono hL hA)).post ?_
  intro r l' db' hr
  cases r with
  | error e => exact hr
  | ok a => exact hr.mono (hL' a) (hA' a)

theorem Triple.pre {x : ExceptT ε (Prog K R Tag Ans Out) α} {A₁ : Assertion K R}
    (h : Triple σ since E L A₁ x L' A') (hA : ∀ db v, σ.P.Inv db → A db v → A₁ db v) :
    Triple σ since E L A x L' A' :=
  h.weaken (fun _ hx => hx) hA (fun _ _ hx => hx) (fun _ _ _ _ hA' => hA')

theorem Triple.post {x : ExceptT ε (Prog K R Tag Ans Out) α} {A₂ : α → Assertion K R}
    (h : Triple σ since E L A x L' A₂)
    (hA' : ∀ a db v, σ.P.Inv db → A₂ a db v → A' a db v) : Triple σ since E L A x L' A' :=
  h.weaken (fun _ hx => hx) (fun _ _ _ hA => hA) (fun _ _ hx => hx) hA'

/-- Another error type, as `?` converts it. -/
theorem Triple.adapt {f : ε' → ε} {x : ExceptT ε' (Prog K R Tag Ans Out) α}
    (h : Triple σ since (fun e => E (f e)) L A x L' A') :
    Triple σ since E L A (x.adapt f) L' A' := by
  intro l db hinv hl
  have hrun : (x.adapt f).run = x.run.bind fun r => .ret (r.mapError f) := rfl
  rw [hrun]
  refine (h l db hinv hl).bind ?_ hinv
  intro r l' db' hinv' hr
  cases r with
  | ok a => exact fun db'' hr' => InTx.rely hr hr'
  | error e => exact fun db'' hr' db₃ hr₃ => hr db₃ (hr'.nil.trans hr₃)

/-! ## Statements and questions -/

/-- The rule of a statement.  Its effect `e` is computed on the view at one time; the assertion
after it must hold of `e` over every view the same writes have later. -/
theorem Triple.query {dbError : ε} {s : Stmt K R Tag α} (hplain : ∀ v, σ.plain (.saw s.tag v))
    (hfail : ∀ log db, Quiet σ.plain since log → σ.P.Inv db → E dbError (.failed :: log) db)
    (hrej : ∀ log ws db, Quiet σ.plain since log → σ.P.Inv db → A db (Store.view ws db) →
      σ.C s.tag (Store.view ws db) → s.run (Store.view ws db) = none →
      ∀ db', Rely σ.P [] db db' → E dbError (.rejected s.tag (Store.view ws db) :: log) db')
    (hrun : ∀ ws db e a, σ.P.Inv db → A db (Store.view ws db) →
      σ.C s.tag (Store.view ws db) → s.run (Store.view ws db) = some (e, a) →
      (∀ x ∈ L' a, x ∈ e.allLocks (Store.view ws db) ++ L) ∧
      ∀ db', Rely σ.P (e.allLocks (Store.view ws db) ++ L) db db' → A db'
        (Store.view ws db') → A' a db' (Store.view e.writes (Store.view ws db'))) :
    Triple σ since E L A (query dbError s) L' A' := by
  intro l db hinv hl db' hr
  have hl' := hl.rely hr
  have hA : A db' (Store.view l.writes db') := hl'.now hr.inv
  refine ⟨fun db'' hr'' db₃ hr₃ => hfail l.log db₃ hl.quiet hr₃.inv, fun hC => ?_⟩
  cases he : s.run (Store.view l.writes db') with
  | none =>
      simp only [he, Option.map_none]
      exact fun db'' hr'' db₃ hr₃ =>
        hrej l.log l.writes db' hl.quiet hr.inv hA hC he db₃ (hr''.nil.trans hr₃)
  | some r =>
      obtain ⟨e, a⟩ := r
      obtain ⟨hL, hpost⟩ := hrun l.writes db' e a hr.inv hA hC he
      simp only [he, Option.map_some]
      intro db'' hr''
      have hlocks : ∀ x ∈ e.allLocks (Store.view l.writes db') ++ L,
          x ∈ (l.ran s.tag (Store.view l.writes db') e).locks := by
        intro x hx
        rcases List.mem_append.1 hx with hx | hx
        · exact List.mem_append_left _ hx
        · exact List.mem_append_right _ (hl.locks x hx)
      have hout : Outcome σ since E L' A' (.ok a)
          (l.ran s.tag (Store.view l.writes db') e) db' := by
        refine ⟨fun x hx => hlocks x (hL x hx), hl.quiet.cons (hplain _), fun db₃ hr₃ => ?_⟩
        have h := hpost db₃ (hr₃.mono hlocks)
          (hl'.holds db₃ (hr₃.mono fun x hx => List.mem_append_right _ hx))
        rw [← Store.view_append] at h
        exact h
      exact hout.rely hr''

/-! ## Whole transactions -/

/-- `COMMIT`, with `dbError` when it fails. -/
def commit (dbError : ε) : ExceptT ε (Prog K R Tag Ans Out) Unit :=
  ExceptT.mk (.commit (.ret (.ok ())) (.ret (.error dbError)))

/-- A transaction: what is left open at its end is rolled back. -/
def transaction (x : ExceptT ε (Prog K R Tag Ans Out) α) : ExceptT ε (Prog K R Tag Ans Out) α :=
  ExceptT.mk (x.run.bind fun r => .rollback (.ret r))

/-- What is known where a program outside of transactions ends. -/
def Result (σ : Setting K R Tag Ans Out) (E : ε → Known K R Tag Ans Out)
    (A : α → Known K R Tag Ans Out) (r : Except ε α) (log : List (Event K R Tag Ans Out))
    (db : Store K R) : Prop :=
  ∀ db', Rely σ.P [] db db' →
    match r with
    | .error e => E e log db'
    | .ok a => A a log db'

/-- From `L` and `A` the rest of a transaction ends, committed or not, with `A'` of its result or
`E` of its error. -/
def Ends (σ : Setting K R Tag Ans Out) (since : List (Event K R Tag Ans Out))
    (E : ε → Known K R Tag Ans Out) (L : List (Lock K)) (A : Assertion K R)
    (x : ExceptT ε (Prog K R Tag Ans Out) α) (A' : α → Known K R Tag Ans Out) : Prop :=
  ∀ l db, σ.P.Inv db → InTx σ since L A l db →
    Safe σ.P σ.C σ.G (fun r l' db' => Result σ E A' r l'.log db') x.run l db

variable {B : α → Known K R Tag Ans Out}

section

omit [DecidableEq T]

theorem Result.rely {r : Except ε α} {log : List (Event K R Tag Ans Out)} {db db' : Store K R}
    {ls : List (Lock K)} (h : Result σ E B r log db) (hr : Rely σ.P ls db db') :
    Result σ E B r log db' := fun db'' hr' => h db'' (hr.nil.trans hr')

end

theorem Ends.bind {x : ExceptT ε (Prog K R Tag Ans Out) β}
    {f : β → ExceptT ε (Prog K R Tag Ans Out) α} {L₁ : β → List (Lock K)}
    {A₁ : β → Assertion K R} (hx : Triple σ since E L A x L₁ A₁)
    (hf : ∀ b, Ends σ since E (L₁ b) (A₁ b) (f b) B) : Ends σ since E L A (x >>= f) B := by
  intro l db hinv hl
  have hrun : (x >>= f).run = x.run.bind (ExceptT.bindCont f) := rfl
  rw [hrun]
  refine (hx l db hinv hl).bind ?_ hinv
  intro r l' db' hinv' hr
  cases r with
  | ok b => exact hf b l' db' hinv' hr
  | error e => exact fun db'' hr' db₃ hr₃ => hr db₃ (hr'.nil.trans hr₃)

/-- The rule of a statement at the head of a transaction.  The rest may use the view the statement
ran on: its rows, and that the log has it. -/
theorem Ends.stmt {dbError : ε} {s : Stmt K R Tag β}
    {f : β → ExceptT ε (Prog K R Tag Ans Out) α}
    (hfail : ∀ log ws db, Quiet σ.plain since log → σ.P.Inv db → A db (Store.view ws db) →
      ∀ db', Rely σ.P [] db db' → E dbError (.failed :: log) db')
    (hrej : ∀ log ws db, Quiet σ.plain since log → σ.P.Inv db → A db (Store.view ws db) →
      σ.C s.tag (Store.view ws db) → s.run (Store.view ws db) = none →
      ∀ db', Rely σ.P [] db db' → E dbError (.rejected s.tag (Store.view ws db) :: log) db')
    (hrun : ∀ log ws db e b, Quiet σ.plain since log → σ.P.Inv db →
      A db (Store.view ws db) → σ.C s.tag (Store.view ws db) → s.run
      (Store.view ws db) = some (e, b) →
        ∃ L₁ A₁, (∀ x ∈ L₁, x ∈ e.allLocks (Store.view ws db) ++ L) ∧
          (∀ db', Rely σ.P (e.allLocks (Store.view ws db) ++ L) db db' →
          A db' (Store.view ws db') → A₁ db' (Store.view e.writes (Store.view ws db'))) ∧
        Ends σ (.saw s.tag (Store.view ws db) :: log) E L₁ A₁ (f b) B) :
    Ends σ since E L A (ReadCommitted.query dbError s >>= f) B := by
  intro l db hinv hl
  have hrun' : (ReadCommitted.query dbError s >>= f).run = s.exec.bind fun r =>
      (Prog.ret (r.elim (.error dbError) .ok)).bind (ExceptT.bindCont f) := by
    rw [← Prog.bind_assoc]
    rfl
  rw [hrun']
  intro db' hr
  have hl' := hl.rely hr
  have hA : A db' (Store.view l.writes db') := hl'.now hr.inv
  refine ⟨fun db'' hr'' db₃ hr₃ =>
    hfail l.log l.writes db' hl.quiet hr.inv hA db₃ (hr''.nil.trans hr₃), fun hC => ?_⟩
  cases he : s.run (Store.view l.writes db') with
  | none =>
      simp only [he, Option.map_none]
      exact fun db'' hr'' db₃ hr₃ =>
        hrej l.log l.writes db' hl.quiet hr.inv hA hC he db₃ (hr''.nil.trans hr₃)
  | some r =>
      obtain ⟨e, b⟩ := r
      obtain ⟨L₁, A₁, hL, hpost, hf⟩ := hrun l.log l.writes db' e b hl.quiet hr.inv hA hC he
      simp only [he, Option.map_some]
      have hlocks : ∀ x ∈ e.allLocks (Store.view l.writes db') ++ L,
          x ∈ (l.ran s.tag (Store.view l.writes db') e).locks := by
        intro x hx
        rcases List.mem_append.1 hx with hx | hx
        · exact List.mem_append_left _ hx
        · exact List.mem_append_right _ (hl.locks x hx)
      refine hf _ db' hr.inv ⟨fun x hx => hlocks x (hL x hx), .refl _, fun db₃ hr₃ => ?_⟩
      have h := hpost db₃ (hr₃.mono hlocks)
        (hl'.holds db₃ (hr₃.mono fun x hx => List.mem_append_right _ hx))
      rw [← Store.view_append] at h
      exact h

/-- The same where a rejection is an error like another. -/
theorem Ends.query {dbError : ε} {s : Stmt K R Tag β}
    {f : β → ExceptT ε (Prog K R Tag Ans Out) α}
    (hfail : ∀ log db, Quiet σ.plain since log → σ.P.Inv db → E dbError (.failed :: log) db)
    (hrej : ∀ log v db, Quiet σ.plain since log → σ.P.Inv db →
      E dbError (.rejected s.tag v :: log) db)
    (hrun : ∀ log ws db e b, Quiet σ.plain since log → σ.P.Inv db →
      A db (Store.view ws db) → σ.C s.tag (Store.view ws db) → s.run
      (Store.view ws db) = some (e, b) →
        ∃ L₁ A₁, (∀ x ∈ L₁, x ∈ e.allLocks (Store.view ws db) ++ L) ∧
          (∀ db', Rely σ.P (e.allLocks (Store.view ws db) ++ L) db db' →
          A db' (Store.view ws db') → A₁ db' (Store.view e.writes (Store.view ws db'))) ∧
        Ends σ (.saw s.tag (Store.view ws db) :: log) E L₁ A₁ (f b) B) :
    Ends σ since E L A (ReadCommitted.query dbError s >>= f) B :=
  Ends.stmt (fun log _ _ hq _ _ db' hr => hfail log db' hq hr.inv)
    (fun log _ _ hq _ _ _ _ db' hr => hrej log _ db' hq hr.inv) hrun

/-- The rule of a question inside a transaction, with the answer in the log. -/
theorem Ends.ask {q : Ask} {f : Ans q → ExceptT ε (Prog K R Tag Ans Out) α}
    (h : ∀ log a, Quiet σ.plain since log → Ends σ (.answered q a :: log) E L A (f a) B) :
    Ends σ since E L A
      ((ExceptT.lift (.ask q .ret) : ExceptT ε (Prog K R Tag Ans Out) (Ans q)) >>= f) B := by
  intro l db hinv hl db' hr a
  have hl' := hl.rely hr
  exact h l.log a hl.quiet _ db' hr.inv ⟨hl'.locks, .refl _, hl'.holds⟩

/-- The rule of an operation inside a transaction, with its outcome in the log. -/
theorem Ends.act {a : Act} {f : Out a → ExceptT ε (Prog K R Tag Ans Out) α}
    (hact : ∀ log, Quiet σ.plain since log → σ.G.act log a)
    (h : ∀ log o, Quiet σ.plain since log → Ends σ (.acted a o :: log) E L A (f o) B) :
    Ends σ since E L A
      ((ExceptT.lift (.act a .ret) : ExceptT ε (Prog K R Tag Ans Out) (Out a)) >>= f) B := by
  intro l db hinv hl db' hr
  have hl' := hl.rely hr
  refine ⟨hact l.log hl.quiet, fun o => ?_⟩
  exact h l.log o hl.quiet _ db' hr.inv ⟨hl'.locks, .refl _, hl'.holds⟩

/-- The end without a commit. -/
theorem Ends.pure {a : α}
    (h : ∀ log db v, Quiet σ.plain since log → σ.P.Inv db → A db v →
      ∀ db', Rely σ.P [] db db' → B a log db') : Ends σ since E L A (Pure.pure a) B :=
  fun l _ _ hl db' hr db'' hr' => h l.log db' _ hl.quiet hr.inv (hl.holds db' hr) db'' hr'

theorem Ends.throw {e : ε}
    (h : ∀ log db v, Quiet σ.plain since log → σ.P.Inv db → A db v →
      ∀ db', Rely σ.P [] db db' → E e log db') :
    Ends σ since E L A (MonadExcept.throw e : ExceptT ε (Prog K R Tag Ans Out) α) B :=
  fun l _ _ hl db' hr db'' hr' => h l.log db' _ hl.quiet hr.inv (hl.holds db' hr) db'' hr'

/-- The end by a commit: the commit keeps the protocol and its promise. -/
theorem Ends.commitWith {dbError : ε} {a : α}
    (hfail : ∀ log db v, Quiet σ.plain since log → σ.P.Inv db → A db v →
      ∀ db', Rely σ.P [] db db' → E dbError (.failed :: log) db')
    (hguar : ∀ db v, σ.P.Inv db → A db v → Guarantee σ.P L db v)
    (hG : ∀ log db v, Quiet σ.plain since log → σ.P.Inv db → A db v → σ.G log db v)
    (h : ∀ log db v, Quiet σ.plain since log → σ.P.Inv db → A db v →
      ∀ db', Rely σ.P [] v db' → B a (.committed db v :: log) db') :
    Ends σ since E L A (do commit dbError; Pure.pure a) B := by
  intro l db hinv hl db' hr
  have hA := (hl.rely hr).now hr.inv
  have hg := hguar db' _ hr.inv hA
  refine ⟨fun db'' hr'' db₃ hr₃ =>
    hfail l.log db' _ hl.quiet hr.inv hA db₃ (hr''.nil.trans hr₃), ⟨hg.inv, hg.stay, ?_⟩,
    hG l.log db' _ hl.quiet hr.inv hA, ?_⟩
  · intro k
    rcases hg.keep k with ⟨x, hx, hk⟩ | hk
    · exact .inl ⟨x, hl.locks x hx, hk⟩
    · exact .inr hk
  · exact fun db'' hr'' db₃ hr₃ =>
      h l.log db' _ hl.quiet hr.inv hA db₃ (hr''.nil.trans hr₃)

/-- The same where nothing but the quiet log is known of a failed commit. -/
theorem Ends.commit {dbError : ε} {a : α}
    (hfail : ∀ log db, Quiet σ.plain since log → σ.P.Inv db → E dbError (.failed :: log) db)
    (hguar : ∀ db v, σ.P.Inv db → A db v → Guarantee σ.P L db v)
    (hG : ∀ log db v, Quiet σ.plain since log → σ.P.Inv db → A db v → σ.G log db v)
    (h : ∀ log db v, Quiet σ.plain since log → σ.P.Inv db → A db v →
      ∀ db', Rely σ.P [] v db' → B a (.committed db v :: log) db') :
    Ends σ since E L A (do commit dbError; Pure.pure a) B :=
  Ends.commitWith (fun log _ _ hq _ _ db' hr => hfail log db' hq hr.inv) hguar hG h

theorem Ends.weaken {x : ExceptT ε (Prog K R Tag Ans Out) α} {L₁ : List (Lock K)}
    {A₁ : Assertion K R} {E₁ : ε → Known K R Tag Ans Out}
    {B₁ : α → Known K R Tag Ans Out} (h : Ends σ since E₁ L₁ A₁ x B₁)
    (hL : ∀ x ∈ L₁, x ∈ L) (hA : ∀ db v, σ.P.Inv db → A db v → A₁ db v)
    (hE : ∀ e log db, E₁ e log db → E e log db)
    (hB : ∀ a log db, B₁ a log db → B a log db) : Ends σ since E L A x B := by
  intro l db hinv hl
  refine (h l db hinv (hl.mono hL hA)).post ?_
  intro r l' db' hr db'' hr''
  cases r with
  | error e => exact hE e _ _ (hr db'' hr'')
  | ok a => exact hB a _ _ (hr db'' hr'')

theorem Ends.pre {x : ExceptT ε (Prog K R Tag Ans Out) α} {A₁ : Assertion K R}
    (h : Ends σ since E L A₁ x B) (hA : ∀ db v, σ.P.Inv db → A db v → A₁ db v) :
    Ends σ since E L A x B :=
  h.weaken (fun _ hx => hx) hA (fun _ _ _ hE => hE) (fun _ _ _ hB => hB)

/-! ## Programs outside of transactions -/

/-- Outside of transactions: from what is known the program goes to `B` of its result or to `E` of
its error. -/
def Pool (σ : Setting K R Tag Ans Out) (E : ε → Known K R Tag Ans Out)
    (A : Known K R Tag Ans Out) (x : ExceptT ε (Prog K R Tag Ans Out) α)
    (B : α → Known K R Tag Ans Out) : Prop :=
  ∀ l db, σ.P.Inv db → l.writes = [] → l.locks = [] →
    (∀ db', Rely σ.P [] db db' → A l.log db') →
    Safe σ.P σ.C σ.G
      (fun r l' db' => l'.writes = [] ∧ l'.locks = [] ∧ Result σ E B r l'.log db') x.run l db

variable {A₀ : Known K R Tag Ans Out}

theorem Pool.pure {a : α} (h : ∀ log db, σ.P.Inv db → A₀ log db → B a log db) :
    Pool σ E A₀ (Pure.pure a) B :=
  fun l _ _ hw hl hA _ hr =>
    ⟨hw, hl, fun db'' hr' => h l.log db'' hr'.inv (hA db'' (hr.nil.trans hr'))⟩

theorem Pool.throw {e : ε} (h : ∀ log db, σ.P.Inv db → A₀ log db → E e log db) :
    Pool σ E A₀ (MonadExcept.throw e : ExceptT ε (Prog K R Tag Ans Out) α) B :=
  fun l _ _ hw hl hA _ hr =>
    ⟨hw, hl, fun db'' hr' => h l.log db'' hr'.inv (hA db'' (hr.nil.trans hr'))⟩

theorem Pool.bind {x : ExceptT ε (Prog K R Tag Ans Out) β}
    {f : β → ExceptT ε (Prog K R Tag Ans Out) α} (B₁ : β → Known K R Tag Ans Out)
    (hx : Pool σ E A₀ x B₁) (hf : ∀ b, Pool σ E (B₁ b) (f b) B) :
    Pool σ E A₀ (x >>= f) B := by
  intro l db hinv hw hl hA
  have hrun : (x >>= f).run = x.run.bind (ExceptT.bindCont f) := rfl
  rw [hrun]
  refine (hx l db hinv hw hl hA).bind ?_ hinv
  rintro r l' db' hinv' ⟨hw', hl', hr⟩
  cases r with
  | ok b => exact hf b l' db' hinv' hw' hl' hr
  | error e =>
      exact fun db'' hr' => ⟨hw', hl', fun db₃ hr₃ => hr db₃ (hr'.nil.trans hr₃)⟩

theorem Pool.weaken {x : ExceptT ε (Prog K R Tag Ans Out) α} {A₁ : Known K R Tag Ans Out}
    {E₁ : ε → Known K R Tag Ans Out} {B₁ : α → Known K R Tag Ans Out}
    (h : Pool σ E₁ A₁ x B₁) (hA : ∀ log db, σ.P.Inv db → A₀ log db → A₁ log db)
    (hE : ∀ e log db, E₁ e log db → E e log db)
    (hB : ∀ a log db, B₁ a log db → B a log db) : Pool σ E A₀ x B := by
  intro l db hinv hw hl hA₀
  refine (h l db hinv hw hl fun db' hr => hA _ _ hr.inv (hA₀ db' hr)).post ?_
  rintro r l' db' ⟨hw', hl', hr⟩
  refine ⟨hw', hl', fun db'' hr'' => ?_⟩
  cases r with
  | error e => exact hE e _ _ (hr db'' hr'')
  | ok a => exact hB a _ _ (hr db'' hr'')

theorem Pool.adapt {f : ε' → ε} {x : ExceptT ε' (Prog K R Tag Ans Out) α}
    (h : Pool σ (fun e => E (f e)) A₀ x B) : Pool σ E A₀ (x.adapt f) B := by
  intro l db hinv hw hl hA
  have hrun : (x.adapt f).run = x.run.bind fun r => .ret (r.mapError f) := rfl
  rw [hrun]
  refine (h l db hinv hw hl hA).bind ?_ hinv
  rintro r l' db' hinv' ⟨hw', hl', hr⟩
  cases r with
  | ok a => exact fun db'' hr' => ⟨hw', hl', fun db₃ hr₃ => hr db₃ (hr'.nil.trans hr₃)⟩
  | error e =>
      exact fun db'' hr' => ⟨hw', hl', fun db₃ hr₃ => hr db₃ (hr'.nil.trans hr₃)⟩

/-- The error is a value, and the program goes on. -/
def attempt (x : ExceptT ε' (Prog K R Tag Ans Out) α) :
    ExceptT ε (Prog K R Tag Ans Out) (Except ε' α) :=
  ExceptT.mk (x.run.bind fun r => .ret (.ok r))

/-- What is known of a result or an error that is a value. -/
def Either (E : ε' → Known K R Tag Ans Out) (A : α → Known K R Tag Ans Out) :
    Except ε' α → Known K R Tag Ans Out
  | .error e => E e
  | .ok a => A a

theorem Pool.attempt {E' : ε' → Known K R Tag Ans Out}
    {x : ExceptT ε' (Prog K R Tag Ans Out) α} (h : Pool σ E' A₀ x B) :
    Pool σ E A₀ (attempt x) (Either E' B) := by
  intro l db hinv hw hl hA
  refine (h l db hinv hw hl hA).bind ?_ hinv
  rintro r l' db' hinv' ⟨hw', hl', hr⟩ db'' hr''
  refine ⟨hw', hl', fun db₃ hr₃ => ?_⟩
  have hres := hr db₃ (hr''.nil.trans hr₃)
  cases r <;> exact hres

/-- A result or an error that was a value. -/
theorem Pool.ofExcept {r : Except ε α}
    (h : ∀ log db, σ.P.Inv db → A₀ log db → Either E B r log db) :
    Pool σ E A₀ (ExceptT.mk (.ret r)) B := by
  intro l db hinv hw hl hA db' hr
  refine ⟨hw, hl, fun db'' hr'' => ?_⟩
  have hres := h l.log db'' hr''.inv (hA db'' (hr.nil.trans hr''))
  cases r <;> exact hres

/-- A transaction, seen from outside. -/
theorem Pool.transaction {x : ExceptT ε (Prog K R Tag Ans Out) α}
    (h : ∀ since db₀, σ.P.Inv db₀ → A₀ since db₀ →
      Ends σ since E [] (fun db v => v = db ∧ A₀ since db) x B) :
    Pool σ E A₀ (transaction x) B := by
  intro l db hinv hw hl hA
  have hin : InTx σ l.log [] (fun db v => v = db ∧ A₀ l.log db) l db := by
    refine ⟨by simp, .refl _, fun db' hr => ?_⟩
    rw [hw]
    exact ⟨rfl, hA db' hr.nil⟩
  refine (h l.log db hinv (hA db (.refl hinv)) l db hinv hin).bind ?_ hinv
  intro r l' db' hinv' hr db'' hr'' db₃ hr₃
  exact ⟨rfl, rfl, (hr.rely hr'').rely hr₃⟩

/-- A statement on its own, which neither writes nor locks. -/
theorem Pool.read {dbError : ε} {s : Stmt K R Tag α}
    (hnone : ∀ v, ∃ a, s.run v = some ({}, a))
    (hfail : ∀ log db, σ.P.Inv db → A₀ log db → E dbError (.failed :: log) db)
    (hrun : ∀ log db a, σ.P.Inv db → A₀ log db → σ.C s.tag db →
      s.run db = some ({}, a) → ∀ db', Rely σ.P [] db db' → A₀ log db' → B a
      (.saw s.tag db :: log) db') : Pool σ E A₀ (query dbError s) B := by
  intro l db hinv hw hl hA db' hr
  rw [hl] at hr
  rw [hw, Store.view_nil]
  refine ⟨fun db'' hr'' => ⟨rfl, rfl, fun db₃ hr₃ => ?_⟩, fun hC => ?_⟩
  · exact hfail l.log db₃ hr₃.inv (hA db₃ ((hr.trans hr''.nil).trans hr₃))
  · obtain ⟨a, ha⟩ := hnone db'
    simp only [ha, Option.map_some]
    intro db'' hr''
    refine ⟨by simp [Local.ran, hw], by simp [Local.ran, hl, Effect.allLocks],
      fun db₃ hr₃ => ?_⟩
    exact hrun l.log db' a hr.inv (hA db' hr) hC ha db₃ (hr''.nil.trans hr₃)
      (hA db₃ ((hr.trans hr''.nil).trans hr₃))

/-- A read on a connection of its own saw the rows that were committed then. -/
theorem Pool.readCommitted {tag : Tag} {dbError : ε} {f : Store K R → α}
    (hfail : ∀ log db, σ.P.Inv db → A₀ log db → E dbError (.failed :: log) db)
    (hrun : ∀ log db, σ.P.Inv db → A₀ log db → ∀ db', Rely σ.P [] db db' →
      A₀ log db' → B (f db) (.read tag db :: log) db') :
    Pool σ E A₀ (ExceptT.mk (.read tag (fun db => .ret (.ok (f db))) (.ret (.error dbError))))
      B := by
  intro l db hinv hw hl hA db' hr
  rw [hl] at hr
  refine ⟨fun db'' hr'' => ⟨hw, hl, fun db₃ hr₃ => ?_⟩,
    fun db'' hr'' => ⟨hw, hl, fun db₃ hr₃ => ?_⟩⟩
  · exact hfail l.log db₃ hr₃.inv (hA db₃ ((hr.trans hr''.nil).trans hr₃))
  · exact hrun l.log db' hr.inv (hA db' hr) db₃ (hr''.nil.trans hr₃)
      (hA db₃ ((hr.trans hr''.nil).trans hr₃))

/-- A program that leaves the shared memory alone keeps what such programs keep. -/
theorem Pool.keeping {G : Promise K R Tag Ans Out} {x : ExceptT ε (Prog K R Tag Ans Out) α}
    {I : List (Event K R Tag Ans Out) → Prop} (h : Pool ⟨σ.P, σ.C, G, σ.plain⟩ E A₀ x B)
    (hact : ∀ log a, ¬G.act log a)
    (hI : ∀ ev log, I log → (∀ a o, ev ≠ .acted a o) →
      (∀ pre post, ev = .committed pre post → G log pre post) → I (ev :: log))
    (hG : ∀ log pre post, I log → G log pre post → σ.G log pre post) :
    Pool σ (fun e log db => E e log db ∧ I log) (fun log db => A₀ log db ∧ I log) x
      (fun a log db => B a log db ∧ I log) := by
  intro l db hinv hw hl hA
  refine (Safe.keeping hact hI hG (hA db (.refl hinv)).2
    (h l db hinv hw hl fun db' hr => (hA db' hr).1)).post ?_
  rintro r l' db' ⟨⟨hw', hl', hr⟩, hi⟩
  refine ⟨hw', hl', fun db'' hr'' => ?_⟩
  have hres := hr db'' hr''
  cases r with
  | error e => exact ⟨hres, hi⟩
  | ok a => exact ⟨hres, hi⟩

/-- What is known of a program from an empty log is known of it after an older one. -/
theorem Pool.after {G : Promise K R Tag Ans Out} {E₁ : ε → Known K R Tag Ans Out}
    {x : ExceptT ε (Prog K R Tag Ans Out) α} {B₁ : α → Known K R Tag Ans Out}
    {Old : List (Event K R Tag Ans Out) → Prop}
    (h : Pool ⟨σ.P, σ.C, G, σ.plain⟩ E₁ (fun log _ => log = []) x B₁)
    (hG : ∀ new old pre post, Kept G new → Old old → G new pre post →
      σ.G (new ++ old) pre post)
    (hact : ∀ new old a, Kept G new → Old old → G.act new a → σ.G.act (new ++ old) a)
    (hE : ∀ e new old db, Kept G new → Old old → E₁ e new db → E e (new ++ old) db)
    (hB : ∀ a new old db, Kept G new → Old old → B₁ a new db → B a (new ++ old) db) :
    Pool σ E (fun log _ => Old log) x B := by
  intro l db hinv hw hl hA
  have hold : Old l.log := hA db (.refl hinv)
  have hrun := h { l with log := [] } db hinv hw hl fun _ _ => rfl
  refine Safe.after (G := G) (l := { l with log := [] }) (fun new pre post hk =>
    hG new l.log pre post hk hold) (fun new a hk => hact new l.log a hk hold) ?_ .nil hrun
  rintro r l' db' hk ⟨hw', hl', hr⟩
  refine ⟨hw', hl', fun db'' hr'' => ?_⟩
  have hres := hr db'' hr''
  cases r with
  | error e => exact hE e l'.log l.log db'' hk hold hres
  | ok a => exact hB a l'.log l.log db'' hk hold hres

theorem Pool.ask {q : Ask} {B : Ans q → Known K R Tag Ans Out}
    (h : ∀ a log db, σ.P.Inv db → A₀ log db → B a (.answered q a :: log) db) :
    Pool σ E A₀ (ExceptT.lift (.ask q .ret) : ExceptT ε (Prog K R Tag Ans Out) (Ans q)) B :=
  fun l _ _ hw hl hA db' hr a db'' hr' => by
    rw [hl] at hr
    exact ⟨hw, hl, fun db₃ hr₃ => h a l.log db₃ hr₃.inv
      (hA db₃ ((hr.trans hr'.nil).trans hr₃))⟩

theorem Pool.act {a : Act} {B : Out a → Known K R Tag Ans Out}
    (hact : ∀ log db, σ.P.Inv db → A₀ log db → σ.G.act log a)
    (h : ∀ o log db, σ.P.Inv db → A₀ log db → B o (.acted a o :: log) db) :
    Pool σ E A₀ (ExceptT.lift (.act a .ret) : ExceptT ε (Prog K R Tag Ans Out) (Out a)) B :=
  fun l _ _ hw hl hA db' hr => by
    rw [hl] at hr
    refine ⟨hact l.log db' hr.inv (hA db' hr), fun o db'' hr' => ?_⟩
    exact ⟨hw, hl, fun db₃ hr₃ => h o l.log db₃ hr₃.inv
      (hA db₃ ((hr.trans hr'.nil).trans hr₃))⟩

end ReadCommitted
