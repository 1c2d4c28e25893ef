import Dd2Server.ReadCommitted.LockOrder

/-!
# Rules for orderly transactions

The counterpart of the triples for a discipline.  `Inside` says which locks a transaction surely
holds, a bound of all that it may hold, which events its log has, and an assertion that stays true
while the others move.  A `Course` takes one `Inside` to another, a `Rest` goes to the end of the
transaction.

The rule for a statement (`Inside.query`) asks of each lock of the statement that it is backed and
in order, whatever part of these locks is taken by then.
-/

namespace ReadCommitted

variable {T : Type} {K R : T → Type} [DecidableEq T] [∀ t, DecidableEq (K t)]
  {Tag Ask Act α β ε ε' : Type} {Ans : Ask → Type} {Out : Act → Type}

/-- Inside a transaction: the locks `L` are held and no others than `B` allows, the events `since`
are in the log, and `A` holds now and under interference. -/
structure Inside (δ : Discipline K R Tag Ans Out) (since : List (Event K R Tag Ans Out))
    (L : List (Lock K)) (B : Lock K → Prop) (A : Assertion K R) (l : Local K R Tag Ans Out)
    (db : Store K R) : Prop where
  locks : ∀ x ∈ L, x ∈ l.locks
  bound : ∀ x ∈ l.locks, B x
  log : ∀ ev ∈ since, ev ∈ l.log
  holds : ∀ db', Rely δ.P l.locks db db' → A db' (Store.view l.writes db')

/-- From `L`, `B` and `A` the program goes in order to `L'`, `B'` and `A'` of its result, or to an
error. -/
def Course (δ : Discipline K R Tag Ans Out) (since : List (Event K R Tag Ans Out))
    (L : List (Lock K)) (B : Lock K → Prop) (A : Assertion K R)
    (x : ExceptT ε (Prog K R Tag Ans Out) α) (L' : α → List (Lock K)) (B' : Lock K → Prop)
    (A' : α → Assertion K R) : Prop :=
  ∀ l db, δ.P.Inv db → Inside δ since L B A l db →
    Orderly δ (fun r l' db' => ∀ a, r = .ok a →
      Inside δ since (L' a) B' (A' a) l' db') x.run l db

/-- From `L`, `B` and `A` the program goes in order to its end. -/
def Rest (δ : Discipline K R Tag Ans Out) (since : List (Event K R Tag Ans Out))
    (L : List (Lock K)) (B : Lock K → Prop) (A : Assertion K R)
    (x : ExceptT ε (Prog K R Tag Ans Out) α) : Prop :=
  ∀ l db, δ.P.Inv db → Inside δ since L B A l db → Orderly δ (fun _ _ _ => True) x.run l db

variable {δ : Discipline K R Tag Ans Out} {since : List (Event K R Tag Ans Out)}
  {L : List (Lock K)} {B : Lock K → Prop} {A : Assertion K R} {L' : α → List (Lock K)}
  {B' : Lock K → Prop} {A' : α → Assertion K R}

theorem Inside.rely {l : Local K R Tag Ans Out} {db db' : Store K R}
    (h : Inside δ since L B A l db) (hr : Rely δ.P l.locks db db') :
    Inside δ since L B A l db' :=
  ⟨h.locks, h.bound, h.log, fun db'' hr' => h.holds db'' (hr.trans hr')⟩

theorem Inside.now {l : Local K R Tag Ans Out} {db : Store K R} (h : Inside δ since L B A l db)
    (hinv : δ.P.Inv db) : A db (Store.view l.writes db) := h.holds db (.refl hinv)

theorem Inside.mono {L₁ : List (Lock K)} {B₁ : Lock K → Prop} {A₁ : Assertion K R}
    {l : Local K R Tag Ans Out} {db : Store K R} (h : Inside δ since L B A l db)
    (hL : ∀ x ∈ L₁, x ∈ L) (hB : ∀ x, B x → B₁ x)
    (hA : ∀ db v, δ.P.Inv db → A db v → A₁ db v) : Inside δ since L₁ B₁ A₁ l db :=
  ⟨fun x hx => h.locks x (hL x hx), fun x hx => hB x (h.bound x hx), h.log,
    fun db' hr => hA _ _ hr.inv (h.holds db' hr)⟩

theorem Inside.noted {l : Local K R Tag Ans Out} {db : Store K R} (h : Inside δ since L B A l db)
    (ev : Event K R Tag Ans Out) : Inside δ (ev :: since) L B A (l.noted ev) db where
  locks := h.locks
  bound := h.bound
  log ev' hev := by
    rcases List.mem_cons.1 hev with rfl | hev
    · exact List.mem_cons_self
    · exact List.mem_cons_of_mem _ (h.log ev' hev)
  holds := h.holds

theorem Inside.forget {l : Local K R Tag Ans Out} {db : Store K R} {ev : Event K R Tag Ans Out}
    (h : Inside δ (ev :: since) L B A l db) : Inside δ since L B A l db :=
  ⟨h.locks, h.bound, fun ev' hev => h.log ev' (List.mem_cons_of_mem _ hev), h.holds⟩

/-- A weaker postcondition. -/
theorem Orderly.post {Q Q' : α → Local K R Tag Ans Out → Store K R → Prop}
    {p : Prog K R Tag Ans Out α} {l : Local K R Tag Ans Out} {db : Store K R}
    (h : Orderly δ Q p l db) (hQ : ∀ a l db, Q a l db → Q' a l db) : Orderly δ Q' p l db := by
  induction p generalizing l db with
  | ret a => exact fun db' hr => hQ a l db' (h db' hr)
  | stmt tag run next fail ihn ihf =>
      obtain ⟨may, hlasting, h⟩ := h
      refine ⟨may, hlasting, fun db' taken hr htaken => ?_⟩
      obtain ⟨hf, hs⟩ := h db' taken hr htaken
      refine ⟨ihf hf, ?_⟩
      cases he : run (Store.view l.writes db') with
      | none =>
          simp only [he] at hs ⊢
          exact ihf hs
      | some e =>
          simp only [he] at hs ⊢
          exact ⟨hs.1, ihn _ hs.2⟩
  | read tag next fail ihn ihf => exact fun db' hr => ⟨ihf (h db' hr).1, ihn _ (h db' hr).2⟩
  | commit next fail ihn ihf =>
      intro db' hr
      obtain ⟨hf, hg, hn⟩ := h db' hr
      exact ⟨ihf hf, hg, ihn hn⟩
  | rollback next ih => exact fun db' hr => ih (h db' hr)
  | ask q next ih => exact fun db' hr a => ih a (h db' hr a)
  | act a next ih => exact fun db' hr o => ih o (h db' hr o)

/-! ## Structural rules -/

theorem Course.pure {a : α} (hL : ∀ x ∈ L' a, x ∈ L) (hB : ∀ x, B x → B' x)
    (hA : ∀ db v, δ.P.Inv db → A db v → A' a db v) :
    Course δ since L B A (Pure.pure a : ExceptT ε _ α) L' B' A' := by
  intro l db _ hl db' hr b hb
  cases hb
  exact (hl.rely hr).mono hL hB hA

theorem Course.throw {e : ε} :
    Course δ since L B A (MonadExcept.throw e : ExceptT ε (Prog K R Tag Ans Out) α) L' B' A' :=
  fun _ _ _ _ _ _ _ ha => nomatch ha

theorem Course.bind {x : ExceptT ε (Prog K R Tag Ans Out) β}
    {f : β → ExceptT ε (Prog K R Tag Ans Out) α} {L₁ : β → List (Lock K)}
    {B₁ : Lock K → Prop} {A₁ : β → Assertion K R}
    (hx : Course δ since L B A x L₁ B₁ A₁)
    (hf : ∀ b, Course δ since (L₁ b) B₁ (A₁ b) (f b) L' B' A') :
    Course δ since L B A (x >>= f) L' B' A' := by
  intro l db hinv hl
  have hrun : (x >>= f).run = x.run.bind (ExceptT.bindCont f) := rfl
  rw [hrun]
  refine (hx l db hinv hl).bind (fun r l' db' hinv' hr => ?_) hinv
  cases r with
  | ok b => exact hf b l' db' hinv' (hr b rfl)
  | error e =>
      intro db'' _ a ha
      cases ha

theorem Course.weaken {x : ExceptT ε (Prog K R Tag Ans Out) α} {L₁ : List (Lock K)}
    {B₁ : Lock K → Prop} {A₁ : Assertion K R} {L₂ : α → List (Lock K)}
    {B₂ : Lock K → Prop} {A₂ : α → Assertion K R}
    (h : Course δ since L₁ B₁ A₁ x L₂ B₂ A₂) (hL : ∀ x ∈ L₁, x ∈ L)
    (hB : ∀ x, B x → B₁ x) (hA : ∀ db v, δ.P.Inv db → A db v → A₁ db v)
    (hL' : ∀ a, ∀ x ∈ L' a, x ∈ L₂ a) (hB' : ∀ x, B₂ x → B' x)
    (hA' : ∀ a db v, δ.P.Inv db → A₂ a db v → A' a db v) :
    Course δ since L B A x L' B' A' := by
  intro l db hinv hl
  refine (h l db hinv (hl.mono hL hB hA)).post fun r l' db' hr a ha => ?_
  exact (hr a ha).mono (hL' a) hB' (hA' a)

theorem Course.pre {x : ExceptT ε (Prog K R Tag Ans Out) α} {B₁ : Lock K → Prop}
    {A₁ : Assertion K R} (h : Course δ since L B₁ A₁ x L' B' A') (hB : ∀ x, B x → B₁ x)
    (hA : ∀ db v, δ.P.Inv db → A db v → A₁ db v) : Course δ since L B A x L' B' A' :=
  h.weaken (fun _ hx => hx) hB hA (fun _ _ hx => hx) (fun _ hx => hx) (fun _ _ _ _ hA' => hA')

theorem Course.forM {γ : Type} {f : γ → ExceptT ε (Prog K R Tag Ans Out) PUnit}
    (h : ∀ x, Course δ since L B A (f x) (fun _ => L) B (fun _ => A)) (xs : List γ) :
    Course δ since L B A (xs.forM f) (fun _ => L) B (fun _ => A) := by
  induction xs with
  | nil => exact .pure (fun _ hx => hx) (fun _ hx => hx) fun _ _ _ hA => hA
  | cons x xs ih => exact Course.bind (h x) fun _ => ih

/-- Another error type, as `?` converts it. -/
theorem Course.adapt {f : ε' → ε} {x : ExceptT ε' (Prog K R Tag Ans Out) α}
    (h : Course δ since L B A x L' B' A') : Course δ since L B A (x.adapt f) L' B' A' := by
  intro l db hinv hl
  have hrun : (x.adapt f).run = x.run.bind fun r => .ret (r.mapError f) := rfl
  rw [hrun]
  refine (h l db hinv hl).bind (fun r l' db' hinv' hr => ?_) hinv
  intro db'' hr'' a ha
  cases r with
  | ok b =>
      cases ha
      exact (hr a rfl).rely hr''
  | error e => cases ha

/-- A question whose answer the rest does not need. -/
theorem Course.ask {q : Ask} {L' : Ans q → List (Lock K)} {A' : Ans q → Assertion K R}
    (hL : ∀ a, ∀ x ∈ L' a, x ∈ L) (hB : ∀ x, B x → B' x)
    (hA : ∀ a db v, δ.P.Inv db → A db v → A' a db v) :
    Course δ since L B A (ExceptT.lift (.ask q .ret) : ExceptT ε (Prog K R Tag Ans Out)
      (Ans q)) L' B' A' := by
  intro l db _ hl db' hr a db'' hr'' b hb
  cases hb
  exact (((hl.rely hr).noted (.answered q a)).forget.rely hr'').mono (hL a) hB (hA a)

/-! ## Statements -/

/-- A statement and what follows it.  The locks in `may` may be taken before it runs; what is held
and what holds after it may depend on the rows it saw. -/
theorem Inside.query {dbError : ε} {s : Stmt K R Tag β}
    {Q : α → Local K R Tag Ans Out → Store K R → Prop}
    {k : Except ε β → Prog K R Tag Ans Out α} {l : Local K R Tag Ans Out} {db : Store K R}
    (hl : Inside δ since L B A l db) (may : Store K R → Lock K → Prop)
    (hlasting : Lasting δ.P l.locks may) (hB : ∀ x, B x → B' x)
    (hmay : ∀ db x, may db x → B' x)
    (hfail : ∀ l' db', Orderly δ Q (k (.error dbError)) l' db')
      (hrun : ∀ db' held e b, δ.P.Inv db' → A db' (Store.view l.writes db') →
      (∀ x ∈ L, x ∈ held) → (∀ x ∈ held, B x ∨ may db' x) → s.run
      (Store.view l.writes db') = some (e, b) → (∀ x ∈ e.allLocks (Store.view l.writes db'),
        may db' x ∧ δ.backed held l.log db' x ∧ δ.ordered held l.log db' x) ∧
      ∃ L₁ A₁, (∀ x ∈ L₁, x ∈ e.allLocks (Store.view l.writes db') ++ L) ∧
        (∀ db'', Rely δ.P (e.allLocks (Store.view l.writes db') ++ L) db' db'' →
          A db'' (Store.view l.writes db'') → A₁ db''
          (Store.view e.writes (Store.view l.writes db''))) ∧
        ∀ l' db'', δ.P.Inv db'' → Inside δ since L₁ B' A₁ l' db'' → Orderly δ Q
        (k (.ok b)) l' db'') : Orderly δ Q ((ReadCommitted.query dbError s).run.bind k) l db := by
  have hquery : (ReadCommitted.query dbError s).run.bind k = s.exec.bind fun r =>
      (Prog.ret (r.elim (.error dbError) .ok)).bind k := by
    rw [← Prog.bind_assoc]
    rfl
  rw [hquery]
  refine ⟨may, hlasting, fun db' taken hr htaken => ⟨hfail _ db', ?_⟩⟩
  have hl' := hl.rely hr
  have hA := hl'.now hr.inv
  cases he : s.run (Store.view l.writes db') with
  | none =>
      simp only [he, Option.map_none]
      exact hfail _ db'
  | some r =>
      obtain ⟨e, b⟩ := r
      have hheld : ∀ x ∈ taken ++ l.locks, B x ∨ may db' x := by
        intro x hx
        rcases List.mem_append.1 hx with hx | hx
        · exact .inr (htaken x hx)
        · exact .inl (hl.bound x hx)
      obtain ⟨hlocks, L₁, A₁, hL, hpost, hnext⟩ := hrun db' (taken ++ l.locks) e b hr.inv hA
        (fun x hx => List.mem_append_right _ (hl.locks x hx)) hheld he
      simp only [he, Option.map_some]
      have hmem : ∀ x ∈ e.allLocks (Store.view l.writes db') ++ L,
          x ∈ ((l.taking taken).ran s.tag (Store.view l.writes db') e).locks := by
        intro x hx
        rcases List.mem_append.1 hx with hx | hx
        · exact List.mem_append_left _ hx
        · exact List.mem_append_right _ (List.mem_append_right _ (hl.locks x hx))
      refine ⟨hlocks, hnext _ db' hr.inv ⟨fun x hx => hmem x (hL x hx), fun x hx => ?_,
        fun ev hev => List.mem_cons_of_mem _ (hl.log ev hev), fun db₃ hr₃ => ?_⟩⟩
      · rcases List.mem_append.1 hx with hx | hx
        · exact hmay db' x (hlocks x hx).1
        · rcases hheld x hx with hx | hx
          · exact hB x hx
          · exact hmay db' x hx
      · have h := hpost db₃ (hr₃.mono hmem) (hl'.holds db₃ (hr₃.mono fun x hx =>
          List.mem_append_right _ (List.mem_append_right _ hx)))
        rw [← Store.view_append] at h
        exact h

/-- The rule of a statement. -/
theorem Course.stmt {dbError : ε} {s : Stmt K R Tag α} (hB : ∀ x, B x → B' x)
    (hrun : ∀ ws db held log e a, δ.P.Inv db → A db (Store.view ws db) →
      (∀ x ∈ L, x ∈ held) → (∀ x ∈ held, B' x) → s.run
      (Store.view ws db) = some (e, a) → (∀ b ∈ e.allLocks (Store.view ws db), B' b ∧
        δ.backed held log db b ∧ δ.ordered held log db b) ∧
      (∀ x ∈ L' a, x ∈ e.allLocks (Store.view ws db) ++ L) ∧
      ∀ db', Rely δ.P (e.allLocks (Store.view ws db) ++ L) db db' → A db'
        (Store.view ws db') → A' a db' (Store.view e.writes (Store.view ws db'))) :
    Course δ since L B A (ReadCommitted.query dbError s) L' B' A' := by
  intro l db hinv hl
  rw [← (ReadCommitted.query dbError s).run.bind_ret]
  refine hl.query (fun _ => B') (fun _ _ _ _ _ _ _ hx => hx) hB (fun _ _ hx => hx)
    (fun l' db' _ _ a ha => (nomatch ha)) fun db' held e a hinv' hA hL hheld he => ?_
  obtain ⟨hlocks, hL', hpost⟩ := hrun l.writes db' held l.log e a hinv' hA hL
    (fun x hx => (hheld x hx).elim (hB x) id) he
  refine ⟨hlocks, L' a, A' a, hL', hpost, fun l' db'' _ hl' db₃ hr b hb => ?_⟩
  cases hb
  exact hl'.rely hr

/-! ## The rest of a transaction -/

theorem Rest.bind {x : ExceptT ε (Prog K R Tag Ans Out) β}
    {f : β → ExceptT ε (Prog K R Tag Ans Out) α} {L₁ : β → List (Lock K)}
    {B₁ : Lock K → Prop} {A₁ : β → Assertion K R}
    (hx : Course δ since L B A x L₁ B₁ A₁)
    (hf : ∀ b, Rest δ since (L₁ b) B₁ (A₁ b) (f b)) : Rest δ since L B A (x >>= f) := by
  intro l db hinv hl
  have hrun : (x >>= f).run = x.run.bind (ExceptT.bindCont f) := rfl
  rw [hrun]
  refine (hx l db hinv hl).bind (fun r l' db' hinv' hr => ?_) hinv
  cases r with
  | ok b => exact hf b l' db' hinv' (hr b rfl)
  | error e => exact fun _ _ => trivial

/-- The rule of a statement where what it may take and what holds after it depend on the rows. -/
theorem Rest.query {dbError : ε} {s : Stmt K R Tag β}
    {f : β → ExceptT ε (Prog K R Tag Ans Out) α} (may : Store K R → Lock K → Prop)
    (hlasting : ∀ had, (∀ x ∈ L, x ∈ had) → Lasting δ.P had may)
    (hB : ∀ x, B x → B' x) (hmay : ∀ db x, may db x → B' x)
      (hrun : ∀ ws db held log e b, δ.P.Inv db → A db (Store.view ws db) →
      (∀ x ∈ L, x ∈ held) → (∀ x ∈ held, B x ∨ may db x) →
      (∀ ev ∈ since, ev ∈ log) → s.run (Store.view ws db) = some (e, b) →
      (∀ x ∈ e.allLocks (Store.view ws db), may db x ∧ δ.backed held log db x ∧
        δ.ordered held log db x) ∧
      ∃ L₁ A₁, (∀ x ∈ L₁, x ∈ e.allLocks (Store.view ws db) ++ L) ∧
        (∀ db', Rely δ.P (e.allLocks (Store.view ws db) ++ L) db db' →
          A db' (Store.view ws db') → A₁ db' (Store.view e.writes (Store.view ws db'))) ∧
        Rest δ since L₁ B' A₁ (f b)) :
    Rest δ since L B A (ReadCommitted.query dbError s >>= f) := by
  intro l db hinv hl
  have hbind : (ReadCommitted.query dbError s >>= f).run =
      (ReadCommitted.query dbError s : ExceptT ε (Prog K R Tag Ans Out) β).run.bind
        (ExceptT.bindCont f) := rfl
  rw [hbind]
  exact hl.query may (hlasting l.locks hl.locks) hB hmay (fun _ _ _ _ => trivial)
    fun db' held e b hinv' hA hL hheld he =>
      hrun l.writes db' held l.log e b hinv' hA hL hheld hl.log he

theorem Rest.pure {a : α} : Rest δ since L B A (Pure.pure a : ExceptT ε _ α) :=
  fun _ _ _ _ _ _ => trivial

theorem Rest.throw {e : ε} :
    Rest δ since L B A (MonadExcept.throw e : ExceptT ε (Prog K R Tag Ans Out) α) :=
  fun _ _ _ _ _ _ => trivial

/-- The rule of a question, with the answer in the log. -/
theorem Rest.ask {q : Ask} {f : Ans q → ExceptT ε (Prog K R Tag Ans Out) α}
    (h : ∀ a, Rest δ (.answered q a :: since) L B A (f a)) :
    Rest δ since L B A
      ((ExceptT.lift (.ask q .ret) : ExceptT ε (Prog K R Tag Ans Out) (Ans q)) >>= f) :=
  fun _ _ _ hl db' hr a => h a _ db' hr.inv ((hl.rely hr).noted _)

/-- A pure result that may be an error. -/
theorem Rest.ofExcept {r : Except ε β} {f : β → ExceptT ε (Prog K R Tag Ans Out) α}
    (h : ∀ b, Rest δ since L B A (f b)) : Rest δ since L B A (ExceptT.mk (.ret r) >>= f) := by
  intro l db hinv hl
  cases r with
  | ok b => exact h b l db hinv hl
  | error e => exact fun _ _ => trivial

theorem Rest.adapt {f : ε' → ε} {x : ExceptT ε' (Prog K R Tag Ans Out) α}
    (h : Rest δ since L B A x) : Rest δ since L B A (x.adapt f) := by
  intro l db hinv hl
  have hrun : (x.adapt f).run = x.run.bind fun r => .ret (r.mapError f) := rfl
  rw [hrun]
  exact (h l db hinv hl).bind (fun _ _ _ _ _ _ _ => trivial) hinv

theorem Rest.transaction {x : ExceptT ε (Prog K R Tag Ans Out) α} (h : Rest δ since L B A x) :
    Rest δ since L B A (transaction x) :=
  fun l db hinv hl => (h l db hinv hl).bind (fun _ _ _ _ _ _ _ _ _ => trivial) hinv

theorem Rest.pre {x : ExceptT ε (Prog K R Tag Ans Out) α} {L₁ : List (Lock K)}
    {B₁ : Lock K → Prop} {A₁ : Assertion K R} (h : Rest δ since L₁ B₁ A₁ x)
    (hL : ∀ x ∈ L₁, x ∈ L) (hB : ∀ x, B x → B₁ x)
    (hA : ∀ db v, δ.P.Inv db → A db v → A₁ db v) : Rest δ since L B A x :=
  fun l db hinv hl => h l db hinv (hl.mono hL hB hA)

/-- The end by a commit. -/
theorem Rest.commit {dbError : ε} (hguar : ∀ db v, δ.P.Inv db → A db v →
      Guarantee δ.P L db v) :
    Rest δ since L B A (commit dbError : ExceptT ε (Prog K R Tag Ans Out) Unit) := by
  intro l db _ hl db' hr
  have hg := hguar db' _ hr.inv ((hl.rely hr).now hr.inv)
  refine ⟨fun _ _ => trivial, ⟨hg.inv, hg.stay, fun k => ?_⟩, fun _ _ => trivial⟩
  rcases hg.keep k with ⟨x, hx, hk⟩ | hk
  · exact .inl ⟨x, hl.locks x hx, hk⟩
  · exact .inr hk

/-- The end by a commit, with a result. -/
theorem Rest.commitPure {dbError : ε} {a : α}
    (hguar : ∀ db v, δ.P.Inv db → A db v → Guarantee δ.P L db v) :
    Rest δ since L B A (do ReadCommitted.commit dbError; Pure.pure a) := by
  intro l db hinv hl
  have hrun : (do ReadCommitted.commit dbError; Pure.pure a : ExceptT ε (Prog K R Tag
      Ans Out) α).run =
      (ReadCommitted.commit dbError : ExceptT ε (Prog K R Tag Ans Out) Unit).run.bind
        (ExceptT.bindCont fun _ => Pure.pure a) := rfl
  rw [hrun]
  refine (Rest.commit (B := B) hguar l db hinv hl).bind (fun r _ _ _ _ => ?_) hinv
  cases r <;> exact fun _ _ => trivial

/-- A task that starts with a program is orderly. -/
theorem Rest.orderly {x : ExceptT ε (Prog K R Tag Ans Out) α}
    (h : Rest δ [] [] (fun _ => False) (fun db v => v = db) x) {db : Store K R}
    (hinv : δ.P.Inv db) : Orderly δ (fun _ _ _ => True) x.run {} db :=
  h {} db hinv ⟨by simp, by simp, by simp, fun _ _ => rfl⟩

end ReadCommitted
