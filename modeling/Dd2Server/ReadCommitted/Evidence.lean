import Dd2Server.ReadCommitted.Vocabulary

/-!
# What a log tells for good

A commit may be owed to what its task did before: it asked, it read, it committed something else.
Such facts are about the log alone.  A fact that `Abides` outlasts every event but some commits, and
`Tells` follows one from a program's start to its result, outside of transactions, with what each
commit and each operation on the shared memory owes.

The protocol is the free one: the tasks leave each other nothing but the rows they lock.  What a
statement wrote is at its commit over the rows that it saw, by these locks (`Tells.committing`).
-/

namespace ReadCommitted

variable {T : Type} {K R : T → Type}
  {Tag Ask Act α β ε ε' : Type} {Ans : Ask → Type} {Out : Act → Type}

/-- A fact about the log that lasts, but for commits that are not calm. -/
structure Abides (calm : Store K R → Store K R → Prop)
    (P : List (Event K R Tag Ans Out) → Prop) : Prop where
  skip : ∀ ev log, (∀ pre post, ev ≠ .committed pre post) → P log → P (ev :: log)
  commit : ∀ pre post log, calm pre post → P log → P (.committed pre post :: log)

/-- The tasks owe each other what they promise and no more. -/
abbrev owing (G : Promise K R Tag Ans Out) : Setting K R Tag Ans Out where
  P := .free
  C _ _ := True
  G := G
  plain ev := ∀ pre post, ev ≠ .committed pre post

variable {calm : Store K R → Store K R → Prop} {E P P' : List (Event K R Tag Ans Out) → Prop}
  {G : Promise K R Tag Ans Out}

namespace Abides

theorem true : Abides calm fun _ : List (Event K R Tag Ans Out) => True :=
  ⟨fun _ _ _ _ => trivial, fun _ _ _ _ _ => trivial⟩

theorem and (h : Abides calm P) (h' : Abides calm P') :
    Abides calm fun log => P log ∧ P' log where
  skip ev log hev hP := ⟨h.skip ev log hev hP.1, h'.skip ev log hev hP.2⟩
  commit pre post log hcalm hP :=
    ⟨h.commit pre post log hcalm hP.1, h'.commit pre post log hcalm hP.2⟩

theorem or (h : Abides calm P) (h' : Abides calm P') : Abides calm fun log => P log ∨ P' log where
  skip ev log hev := Or.imp (h.skip ev log hev) (h'.skip ev log hev)
  commit pre post log hcalm := Or.imp (h.commit pre post log hcalm) (h'.commit pre post log hcalm)

theorem given (p : Prop) (h : Abides calm P) : Abides calm fun log => p → P log where
  skip ev log hev hP hp := h.skip ev log hev (hP hp)
  commit pre post log hcalm hP hp := h.commit pre post log hcalm (hP hp)

theorem any {ι : Type} {P : ι → List (Event K R Tag Ans Out) → Prop}
    (h : ∀ i, Abides calm (P i)) : Abides calm fun log => ∃ i, P i log where
  skip ev log hev hP := hP.imp fun i => (h i).skip ev log hev
  commit pre post log hcalm hP := hP.imp fun i => (h i).commit pre post log hcalm

/-- A fact about what the log has. -/
theorem of_cons (h : ∀ ev log, P log → P (ev :: log)) : Abides calm P :=
  ⟨fun ev log _ => h ev log, fun _ _ log _ => h _ log⟩

theorem mem (ev : Event K R Tag Ans Out) : Abides calm (ev ∈ ·) :=
  of_cons fun _ _ => List.mem_cons_of_mem _

theorem quiet (h : Abides calm P) {since log : List (Event K R Tag Ans Out)}
    (hq : Quiet (owing G).plain since log) (hP : P since) : P log := by
  obtain ⟨new, rfl, hnew⟩ := hq
  induction new with
  | nil => exact hP
  | cons ev new ih =>
      exact h.skip ev _ (hnew ev List.mem_cons_self)
        (ih fun ev' hm => hnew ev' (List.mem_cons_of_mem _ hm))

end Abides

variable [DecidableEq T] [∀ t, DecidableEq (K t)]

/-- From a log of which `P` holds the program comes to a result and a log of which `Q` holds, or to
an error and a log of which `E` holds. -/
abbrev Tells (G : Promise K R Tag Ans Out) (E P : List (Event K R Tag Ans Out) → Prop)
    (x : ExceptT ε (Prog K R Tag Ans Out) α) (Q : α → List (Event K R Tag Ans Out) → Prop) :
    Prop :=
  Pool (owing G) (fun _ log _ => E log) (fun log _ => P log) x fun a log _ => Q a log

namespace Tells

variable {Q : α → List (Event K R Tag Ans Out) → Prop}
    {M : β → List (Event K R Tag Ans Out) → Prop}

theorem bind {x : ExceptT ε (Prog K R Tag Ans Out) β}
    {f : β → ExceptT ε (Prog K R Tag Ans Out) α} (hx : Tells G E P x M)
    (hf : ∀ b, Tells G E (M b) (f b) Q) : Tells G E P (x >>= f) Q := Pool.bind _ hx hf

theorem weaken {x : ExceptT ε (Prog K R Tag Ans Out) α}
    {E' : List (Event K R Tag Ans Out) → Prop} {Q' : α → List (Event K R Tag Ans Out) → Prop}
    (h : Tells G E' P' x Q') (hP : ∀ log, P log → P' log) (hE : ∀ log, E' log → E log)
    (hQ : ∀ a log, Q' a log → Q a log) : Tells G E P x Q :=
  Pool.weaken h (fun log _ _ => hP log) (fun _ log _ => hE log) fun a log _ => hQ a log

theorem pre {A : List (Event K R Tag Ans Out) → Prop} {x : ExceptT ε (Prog K R Tag Ans Out) α}
    (h : Tells G E A x Q) (hP : ∀ log, P log → A log) : Tells G E P x Q :=
  weaken h hP (fun _ h => h) fun _ _ h => h

/-- What is known besides the log. -/
theorem fact {p : Prop} {x : ExceptT ε (Prog K R Tag Ans Out) α} (h : p → Tells G E P x Q) :
    Tells G E (fun log => P log ∧ p) x Q :=
  fun l db hinv hw hl hA => h (hA db (.refl hinv)).2 l db hinv hw hl fun db' hr => (hA db' hr).1

theorem adapt {x : ExceptT ε' (Prog K R Tag Ans Out) α} (f : ε' → ε) (h : Tells G E P x Q) :
    Tells G E P (x.adapt f) Q := Pool.adapt h

theorem pure {a : α} (h : ∀ log, P log → Q a log) :
    Tells G E P (Pure.pure a : ExceptT ε (Prog K R Tag Ans Out) α) Q :=
  Pool.pure fun log _ _ => h log

theorem throw {e : ε} (h : ∀ log, P log → E log) :
    Tells G E P (MonadExcept.throw e : ExceptT ε (Prog K R Tag Ans Out) α) Q :=
  Pool.throw fun log _ _ => h log

/-- A result that is there. -/
theorem result {r : Except ε α} (hE : ∀ log, P log → E log)
    (h : ∀ a, r = .ok a → ∀ log, P log → Q a log) :
    Tells G E P (ExceptT.mk (.ret r) : ExceptT ε (Prog K R Tag Ans Out) α) Q := by
  cases r with
  | ok a => exact .pure (h a rfl)
  | error e => exact .throw hE

theorem ask {q : Ask} (hP : Abides calm P) :
    Tells G E P (ExceptT.lift (.ask q .ret) : ExceptT ε (Prog K R Tag Ans Out) (Ans q))
      fun a log => P log ∧ .answered q a ∈ log :=
  Pool.ask fun _ log _ _ h => ⟨hP.skip _ log (by simp) h, List.mem_cons_self⟩

theorem act {a : Act} (hP : Abides calm P) (hact : ∀ log, P log → G.act log a) :
    Tells G E P (ExceptT.lift (.act a .ret) : ExceptT ε (Prog K R Tag Ans Out) (Out a))
      fun o log => P log ∧ .acted a o ∈ log :=
  Pool.act (fun log _ _ h => hact log h) fun _ log _ _ h =>
    ⟨hP.skip _ log (by simp) h, List.mem_cons_self⟩

/-- A read on a connection of its own, with what it saw. -/
theorem read {tag : Tag} {e : ε} {f : Store K R → α} (hP : Abides calm P)
    (hE : ∀ log, P log → E log) :
    Tells G E P (ExceptT.mk (.read tag (fun db => .ret (.ok (f db))) (.ret (.error e))))
      fun a log => P log ∧ ∃ db, .read tag db ∈ log ∧ f db = a :=
  Pool.readCommitted (fun log _ _ h => hE _ (hP.skip _ log (by simp) h)) fun log db _ h _ _ _ =>
    ⟨hP.skip _ log (by simp) h, db, List.mem_cons_self, rfl⟩

/-- What is known before is known after, whatever the outcome. -/
theorem attempt {x : ExceptT ε' (Prog K R Tag Ans Out) α} (h : Tells G P P x Q)
    (hQ : ∀ a log, Q a log → P log) :
    Tells G E P (attempt x : ExceptT ε (Prog K R Tag Ans Out) (Except ε' α))
      fun r log => P log ∧ ∀ a, r = .ok a → Q a log := by
  refine Pool.weaken (Pool.attempt h) (fun _ _ _ hA => hA) (fun _ _ _ hE => hE) fun r log _ hB => ?_
  cases r with
  | ok a => exact ⟨hQ a log hB, fun _ he => Except.ok.inj he ▸ hB⟩
  | error e => exact ⟨hB, fun _ he => by cases he⟩

/-- A statement and the commit of it, from where the transaction began.  The rows that it writes are
at the commit what it saw them to be, by its locks. -/
theorem committing {dbError : ε} {s : Stmt K R Tag α} {since : List (Event K R Tag Ans Out)}
    (hP : Abides calm P) (hsince : P since) (hE : ∀ log, P log → E log)
    (hs : ∀ v e a, s.run v = some (e, a) → ∀ log pre, P log → .saw s.tag v ∈ log →
      (∀ w ∈ e.writes, pre.get w.row = v.get w.row) →
      G.commit log pre (Store.view e.writes pre) ∧ Q a
      (.committed pre (Store.view e.writes pre) :: log)) :
    Ends (owing G) since (fun _ log _ => E log) [] (fun db v => v = db)
      (do let a ← query dbError s; commit dbError; return a) fun a log _ => Q a log := by
  refine Ends.query (fun log _ hq _ => hE _ (hP.skip _ log (by simp) (hP.quiet hq hsince)))
    (fun log _ _ hq _ => hE _ (hP.skip _ log (by simp) (hP.quiet hq hsince)))
      fun log ws db e a hq _ hA _ hrun => ?_
  have hlog : P (.saw s.tag (Store.view ws db) :: log) :=
    hP.skip _ log (by simp) (hP.quiet hq hsince)
  refine ⟨[], fun db' v => v = Store.view e.writes db' ∧
    ∀ w ∈ e.writes, db'.get w.row = db.get w.row, by simp,
    fun db' hr hA' => ⟨by rw [hA'], fun w hw => ?_⟩, ?_⟩
  · have hlock : w.lock (Store.view ws db) ∈ e.allLocks (Store.view ws db) ++ [] :=
      List.mem_append_left _ (List.mem_append_left _ (List.mem_map_of_mem hw))
    exact hr.row _ hlock (Mode.ne_keyShare (w.lock_exclusive _))
  · rw [hA] at hrun hlog ⊢
    have hdone : ∀ log₂ db' v, Quiet (owing G).plain (.saw s.tag db :: log) log₂ →
        (v = Store.view e.writes db' ∧ ∀ w ∈ e.writes, db'.get w.row = db.get w.row) →
        G.commit log₂ db' v ∧ Q a (.committed db' v :: log₂) := by
      rintro log₂ db' v hq₂ ⟨rfl, hrows⟩
      have hsaw : .saw s.tag db ∈ log₂ := by
        obtain ⟨new, rfl, -⟩ := hq₂
        exact List.mem_append_right new List.mem_cons_self
      exact hs db e a hrun log₂ db' (hP.quiet hq₂ hlog) hsaw hrows
    refine Ends.commit (fun log₂ _ hq₂ _ =>
      hE _ (hP.skip _ log₂ (by simp) (hP.quiet hq₂ hlog)))
      (fun _ _ _ _ => .free _ _ _) ?_ ?_
    · exact fun log₂ db' v hq₂ _ hv => (hdone log₂ db' v hq₂ hv).1
    · exact fun log₂ db' v hq₂ _ hv _ _ => (hdone log₂ db' v hq₂ hv).2

/-- A statement on its own, with the answer to a question. -/
theorem asking {dbError : ε} {q : Ask} {s : Ans q → Stmt K R Tag α} (hP : Abides calm P)
    (hE : ∀ log, P log → E log)
    (hs : ∀ o v e a, (s o).run v = some (e, a) → ∀ log pre, P log →
      .answered q o ∈ log → .saw (s o).tag v ∈ log →
      (∀ w ∈ e.writes, pre.get w.row = v.get w.row) → G.commit log pre
      (Store.view e.writes pre) ∧ Q a (.committed pre (Store.view e.writes pre) :: log)) :
    Tells G E P (single dbError (askQ q) fun o => query dbError (s o)) Q := by
  apply Pool.transaction
  intro since db₀ _ hsince
  apply Ends.ask
  intro log o hq
  have hlog := hP.skip (.answered q o) log (by simp) (hP.quiet hq hsince)
  refine Ends.pre (committing (hP.and (.mem (.answered q o))) ⟨hlog, List.mem_cons_self⟩
    (fun log h => hE log h.1) fun v e a hrun log' pre h hsaw hrows => ?_) fun _ _ _ h => h.1
  exact hs o v e a hrun log' pre h.1 h.2 hsaw hrows

/-- A statement on its own, with what an operation on the shared memory returned. -/
theorem acting {dbError : ε} {act : Act} {s : Out act → Stmt K R Tag α} (hP : Abides calm P)
    (hE : ∀ log, P log → E log) (hact : ∀ log, G.act log act)
    (hs : ∀ o v e a, (s o).run v = some (e, a) → ∀ log pre, P log → .acted act o ∈ log →
      .saw (s o).tag v ∈ log → (∀ w ∈ e.writes, pre.get w.row = v.get w.row) →
      G.commit log pre (Store.view e.writes pre) ∧ Q a
      (.committed pre (Store.view e.writes pre) :: log)) :
    Tells G E P (single dbError (actQ act) fun o => query dbError (s o)) Q := by
  apply Pool.transaction
  intro since db₀ _ hsince
  apply Ends.act fun log _ => hact log
  intro log o hq
  have hlog := hP.skip (.acted act o) log (by simp) (hP.quiet hq hsince)
  refine Ends.pre (committing (hP.and (.mem (.acted act o))) ⟨hlog, List.mem_cons_self⟩
    (fun log h => hE log h.1) fun v e a hrun log' pre h hsaw hrows => ?_) fun _ _ _ h => h.1
  exact hs o v e a hrun log' pre h.1 h.2 hsaw hrows

end Tells

end ReadCommitted
