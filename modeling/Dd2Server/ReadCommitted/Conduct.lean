import Dd2Server.ReadCommitted.Moves
import Dd2Server.ReadCommitted.Transaction

/-!
# What a task does, whatever the others do

A `Conduct` says of each statement and of each question of a program where it may stand, by what the
task did before.  `Behaves` follows the branches of one program: nothing is known of the rows it
sees and of the answers it gets.  An operation on the shared memory may be assumed to take place
only where the conduct says so, which is how a run without certain moves is described.
-/

namespace ReadCommitted

variable {T : Type} {K R : T → Type} [DecidableEq T] [∀ t, DecidableEq (K t)]
  {Tag Ask Act Mem Job ρ α β ε ε' : Type} {Ans : Ask → Type} {Out : Act → Type}

structure Conduct (K R : T → Type) (Tag : Type) (Ans : Ask → Type) (Out : Act → Type) where
  /-- The statement may run here. -/
  stmt : Local K R Tag Ans Out → Tag → Prop := fun _ _ => True
  /-- The question may be asked here. -/
  ask : Local K R Tag Ans Out → Ask → Prop := fun _ _ => True
  /-- The operation takes place here. -/
  act : Local K R Tag Ans Out → Act → Prop := fun _ _ => True

variable (D : Conduct K R Tag Ans Out)

/-- The program keeps to the conduct from here on and ends in `Q`. -/
def Behaves (Q : α → Local K R Tag Ans Out → Prop) :
    Prog K R Tag Ans Out α → Local K R Tag Ans Out → Prop
  | .ret a, l => Q a l
  | .stmt tag run next fail, l =>
      D.stmt l tag ∧ Behaves Q fail (l.ended .failed) ∧ ∀ v,
        match run v with
        | some e => Behaves Q (next v) (l.ran tag v e)
        | none => Behaves Q fail (l.ended (.rejected tag v))
  | .read tag next fail, l =>
      Behaves Q fail (l.noted .failed) ∧ ∀ v, Behaves Q (next v) (l.noted (.read tag v))
  | .commit next fail, l =>
      Behaves Q fail (l.ended .failed) ∧
        ∀ pre post, Behaves Q next (l.ended (.committed pre post))
  | .rollback next, l => Behaves Q next l.rolledBack
  | .ask q next, l => D.ask l q ∧ ∀ a, Behaves Q (next a) (l.noted (.answered q a))
  | .act a next, l => D.act l a → ∀ o, Behaves Q (next o) (l.noted (.acted a o))

variable {D} {Q : α → Local K R Tag Ans Out → Prop}

theorem Behaves.bind {Q' : β → Local K R Tag Ans Out → Prop} {p : Prog K R Tag Ans Out β}
    {k : β → Prog K R Tag Ans Out α} {l : Local K R Tag Ans Out} (h : Behaves D Q' p l)
    (hk : ∀ b l', Q' b l' → Behaves D Q (k b) l') : Behaves D Q (p.bind k) l := by
  induction p generalizing l with
  | ret b => exact hk b l h
  | stmt tag run next fail ihn ihf =>
      obtain ⟨hstmt, hfail, hrun⟩ := h
      refine ⟨hstmt, ihf hfail, fun v => ?_⟩
      have hv := hrun v
      cases he : run v with
      | some e =>
          simp only [he] at hv ⊢
          exact ihn v hv
      | none =>
          simp only [he] at hv ⊢
          exact ihf hv
  | read tag next fail ihn ihf => exact ⟨ihf h.1, fun v => ihn v (h.2 v)⟩
  | commit next fail ihn ihf => exact ⟨ihf h.1, fun pre post => ihn (h.2 pre post)⟩
  | rollback next ih => exact ih h
  | ask q next ih => exact ⟨h.1, fun a => ih a (h.2 a)⟩
  | act a next ih => exact fun ha o => ih o (h ha o)

/-- Nothing is asked of the program. -/
theorem Behaves.any (p : Prog K R Tag Ans Out α) (l : Local K R Tag Ans Out) :
    Behaves {} (fun _ _ => True) p l := by
  induction p generalizing l with
  | ret a => trivial
  | stmt tag run next fail ihn ihf =>
      refine ⟨trivial, ihf _, fun v => ?_⟩
      cases run v with
      | some e => exact ihn v _
      | none => exact ihf _
  | read tag next fail ihn ihf => exact ⟨ihf _, fun v => ihn v _⟩
  | commit next fail ihn ihf => exact ⟨ihf _, fun _ _ => ihn _⟩
  | rollback next ih => exact ih _
  | ask q next ih => exact ⟨trivial, fun a => ih a _⟩
  | act a next ih => exact fun _ o => ih o _

/-! ## Every interleaving -/

/-- One move of a task that behaves. -/
theorem Behaves.advance {sh : Shared K R Tag Ans Out Mem} {held : List (Lock K)}
    {db db' : Store K R} {mem mem' : Mem} {p p' : Prog K R Tag Ans Out α}
    {l l' : Local K R Tag Ans Out} {c : Choice Ans} (h : Behaves D Q p l)
    (hact : ∀ a next, p = .act a next → D.act l a)
    (ha : advance sh held db mem p l c = some (db', mem', p', l')) : Behaves D Q p' l' := by
  cases p with
  | ret a => cases c <;> simp [ReadCommitted.advance] at ha
  | stmt tag run next fail =>
      obtain ⟨-, hfail, hrun⟩ := h
      have hv := hrun (Store.view l.writes db)
      cases c with
      | answer f => simp [ReadCommitted.advance] at ha
      | fail =>
          cases ha
          exact hfail
      | proceed =>
          cases he : run (Store.view l.writes db) with
          | some e =>
              simp only [ReadCommitted.advance, he] at ha hv
              split at ha
              case isFalse => cases ha
              case isTrue =>
                cases ha
                exact hv
          | none =>
              simp only [ReadCommitted.advance, he] at ha hv
              cases ha
              exact hv
  | read tag next fail =>
      cases c with
      | answer f => simp [ReadCommitted.advance] at ha
      | fail =>
          cases ha
          exact h.1
      | proceed =>
          cases ha
          exact h.2 db
  | commit next fail =>
      cases c with
      | answer f => simp [ReadCommitted.advance] at ha
      | fail =>
          cases ha
          exact h.1
      | proceed =>
          cases ha
          exact h.2 db _
  | rollback next =>
      cases c with
      | proceed =>
          cases ha
          exact h
      | fail => simp [ReadCommitted.advance] at ha
      | answer f => simp [ReadCommitted.advance] at ha
  | ask q next =>
      cases c with
      | answer f =>
          cases ha
          exact h.2 (f q)
      | fail => simp [ReadCommitted.advance] at ha
      | proceed => simp [ReadCommitted.advance] at ha
  | act a next =>
      cases c with
      | proceed =>
          simp only [ReadCommitted.advance, Option.map_eq_some_iff, Prod.mk.injEq] at ha
          obtain ⟨⟨m, o⟩, -, -, -, rfl, rfl⟩ := ha
          exact h (hact a next rfl) o
      | fail => simp [ReadCommitted.advance] at ha
      | answer f => simp [ReadCommitted.advance] at ha

section

variable {sh : Shared K R Tag Ans Out Mem} {body : Job → Prog K R Tag Ans Out ρ}
  {E : Job → Conduct K R Tag Ans Out} {Q : Job → ρ → Local K R Tag Ans Out → Prop}
  {s₀ s s' : Sys K R Tag Ans Out Mem Job ρ}

/-- Every task behaves. -/
def Sys.Behaved (E : Job → Conduct K R Tag Ans Out)
    (Q : Job → ρ → Local K R Tag Ans Out → Prop)
    (s : Sys K R Tag Ans Out Mem Job ρ) : Prop :=
  ∀ t ∈ s.tasks, Behaves (E t.job) (Q t.job) t.prog t.loc

/-- An operation the move carries out is one the conduct allows for. -/
def Sys.Allows (E : Job → Conduct K R Tag Ans Out) (s : Sys K R Tag Ans Out Mem Job ρ) :
    Move Ans Job → Prop
  | .run i _ =>
      ∀ t a next, s.tasks[i]? = some t → t.prog = .act a next → (E t.job).act t.loc a
  | _ => True

theorem Sys.Behaved.move {m : Move Ans Job} (h : s.Behaved E Q)
    (hbody : ∀ j, Behaves (E j) (Q j) (body j) {}) (hok : s.Allows E m)
    (hm : s.move sh body m = some s') : s'.Behaved E Q := by
  cases Sys.move_cases hm with
  | started j hdb hmem htasks =>
      intro t ht
      rw [htasks] at ht
      rcases List.mem_append.1 ht with ht | ht
      · exact h t ht
      · rw [List.mem_singleton.1 ht]
        exact hbody j
  | dropped i u hu hdb hmem htasks =>
      intro t ht
      rw [htasks] at ht
      exact h t (List.mem_of_mem_eraseIdx ht)
  | ran i c u u' hu hjob htasks hadv =>
      intro t ht
      rw [htasks] at ht
      rcases List.mem_or_eq_of_mem_set ht with ht | rfl
      · exact h t ht
      · rw [hjob]
        exact (h u (List.mem_of_getElem? hu)).advance (fun a next hp => hok u a next hu hp) hadv

/-- In every run whose moves the conduct allows for, every task behaves. -/
theorem ReachBy.behaved {ok : Sys K R Tag Ans Out Mem Job ρ → Move Ans Job → Prop}
    (hbody : ∀ j, Behaves (E j) (Q j) (body j) {}) (hok : ∀ s m, ok s m → s.Allows E m)
    (htasks : s₀.tasks = []) (h : ReachBy sh body ok s₀ s) : s.Behaved E Q := by
  induction h with
  | init =>
      intro t ht
      rw [htasks] at ht
      cases ht
  | step _ hm hmove ih => exact ih.move hbody (hok _ _ hm) hmove

/-- A question that is about to be asked. -/
theorem Sys.Behaved.ask (h : s.Behaved E Q) {t : Task K R Tag Ans Out Job ρ} (ht : t ∈ s.tasks)
    {q : Ask} {next : Ans q → Prog K R Tag Ans Out ρ} (hp : t.prog = .ask q next) :
    (E t.job).ask t.loc q := by
  have hb := h t ht
  rw [hp] at hb
  exact hb.1

end

/-! ## Queries -/

/-- From `I` the query keeps to the conduct and comes back to `I`, with a result or an error. -/
def Steady (D : Conduct K R Tag Ans Out) (I : Local K R Tag Ans Out → Prop)
    (x : ExceptT ε (Prog K R Tag Ans Out) α) : Prop :=
  ∀ l, I l → Behaves D (fun _ l' => I l') x.run l

variable {I : Local K R Tag Ans Out → Prop} {x : ExceptT ε (Prog K R Tag Ans Out) α}

theorem Steady.pure (a : α) : Steady D I (Pure.pure a : ExceptT ε (Prog K R Tag Ans Out) α) :=
  fun _ hl => hl

theorem Steady.throw (e : ε) :
    Steady D I (MonadExcept.throw e : ExceptT ε (Prog K R Tag Ans Out) α) := fun _ hl => hl

theorem Steady.result (r : Except ε α) :
    Steady D I (ExceptT.mk (.ret r) : ExceptT ε (Prog K R Tag Ans Out) α) := fun _ hl => hl

/-- A query after one that ends in `M`. -/
theorem Behaves.seq {x : ExceptT ε (Prog K R Tag Ans Out) β}
    {f : β → ExceptT ε (Prog K R Tag Ans Out) α} {l : Local K R Tag Ans Out}
    {M : Except ε β → Local K R Tag Ans Out → Prop}
    {Q : Except ε α → Local K R Tag Ans Out → Prop} (hx : Behaves D M x.run l)
    (herr : ∀ e l', M (.error e) l' → Q (.error e) l')
    (hf : ∀ b l', M (.ok b) l' → Behaves D Q (f b).run l') : Behaves D Q (x >>= f).run l := by
  have hrun : (x >>= f).run = x.run.bind (ExceptT.bindCont f) := rfl
  rw [hrun]
  refine hx.bind fun r l' hr => ?_
  cases r with
  | ok b => exact hf b l' hr
  | error e => exact herr e l' hr

theorem Steady.bind {x : ExceptT ε (Prog K R Tag Ans Out) β}
    {f : β → ExceptT ε (Prog K R Tag Ans Out) α} (hx : Steady D I x)
    (hf : ∀ b, Steady D I (f b)) : Steady D I (x >>= f) :=
  fun l hl => (hx l hl).seq (fun _ _ h => h) fun b l' hl' => hf b l' hl'

theorem Behaves.adapt {x : ExceptT ε' (Prog K R Tag Ans Out) α} {l : Local K R Tag Ans Out}
    {Q' : Except ε' α → Local K R Tag Ans Out → Prop}
    {Q : Except ε α → Local K R Tag Ans Out → Prop} {f : ε' → ε}
    (hx : Behaves D Q' x.run l) (hQ : ∀ r l', Q' r l' → Q (r.mapError f) l') :
    Behaves D Q (x.adapt f).run l := hx.bind fun r l' hr => hQ r l' hr

theorem Steady.adapt {x : ExceptT ε' (Prog K R Tag Ans Out) α} (f : ε' → ε)
    (hx : Steady D I x) :
    Steady D I (x.adapt f) := fun l hl => (hx l hl).adapt fun _ _ hl' => hl'

/-- An attempt has a result, the error among them. -/
theorem Behaves.attempt {x : ExceptT ε' (Prog K R Tag Ans Out) α} {l : Local K R Tag Ans Out}
    {Q : Except ε' α → Local K R Tag Ans Out → Prop} (hx : Behaves D Q x.run l) :
    Behaves D (fun r l' => ∃ r', r = .ok r' ∧ Q r' l')
      (attempt x : ExceptT ε (Prog K R Tag Ans Out) (Except ε' α)).run l :=
  hx.bind fun r _ hr => ⟨r, rfl, hr⟩

theorem Steady.attempt {x : ExceptT ε' (Prog K R Tag Ans Out) α} (hx : Steady D I x) :
    Steady D I (attempt x : ExceptT ε (Prog K R Tag Ans Out) (Except ε' α)) :=
  fun l hl => (hx l hl).bind fun _ _ hl' => hl'

theorem Steady.forM {γ : Type} {f : γ → ExceptT ε (Prog K R Tag Ans Out) PUnit}
    (hf : ∀ c, Steady D I (f c)) (cs : List γ) : Steady D I (cs.forM f) := by
  induction cs with
  | nil => exact .pure _
  | cons c cs ih =>
      exact (hf c).bind fun _ => ih

/-- A statement, by what it may do to the state of the task. -/
theorem Behaves.query {s : Stmt K R Tag β} {e : ε} {l : Local K R Tag Ans Out}
    {Q : Except ε β → Local K R Tag Ans Out → Prop} (hstmt : D.stmt l s.tag)
    (hfail : Q (.error e) (l.ended .failed))
    (hrej : ∀ v, Q (.error e) (l.ended (.rejected s.tag v)))
    (hrun : ∀ v eff b, s.run v = some (eff, b) → Q (.ok b) (l.ran s.tag v eff)) :
    Behaves D Q (query e s : ExceptT ε (Prog K R Tag Ans Out) β).run l := by
  refine ⟨hstmt, hfail, fun v => ?_⟩
  show match (s.run v).map Prod.fst with
    | some eff => Behaves D Q ((Prog.ret ((s.run v).map Prod.snd)).bind fun r =>
        .ret (r.elim (.error e) .ok)) (l.ran s.tag v eff)
    | none => Q (.error e) (l.ended (.rejected s.tag v))
  cases he : s.run v with
  | none => exact hrej v
  | some r => exact hrun v r.1 r.2 he

/-- A transaction, from one kind of standing to the other. -/
theorem Steady.transaction {J : Local K R Tag Ans Out → Prop} (hx : Steady D J x)
    (hin : ∀ l, I l → J l) (hout : ∀ l, J l → I l.rolledBack) :
    Steady D I (transaction x) :=
  fun l hl => (hx l (hin l hl)).bind fun _ l' hl' => hout l' hl'

/-! ## Scripts with a condition on each move -/

section

variable (sh : Shared K R Tag Ans Out Mem) (body : Job → Prog K R Tag Ans Out ρ)
  (ok : Sys K R Tag Ans Out Mem Job ρ → Move Ans Job → Prop) [∀ s m, Decidable (ok s m)]

/-- One move, if it is allowed. -/
def Sys.moveBy (s : Sys K R Tag Ans Out Mem Job ρ) (m : Move Ans Job) :
    Option (Sys K R Tag Ans Out Mem Job ρ) := if ok s m then s.move sh body m else none

/-- Task `i` makes at most so many allowed moves. -/
def Sys.goBy (f : (q : Ask) → Ans q) (i : Nat) : Nat → Sys K R Tag Ans Out Mem Job ρ →
    Option (Sys K R Tag Ans Out Mem Job ρ)
  | 0, s => some s
  | n + 1, s => (s.tasks[i]?).bind fun t =>
      match t.prog with
      | .ret _ => some s
      | p => (s.moveBy sh body ok (.run i (p.onward f))).bind (Sys.goBy f i n)

def Sys.cueBy (s : Sys K R Tag Ans Out Mem Job ρ) :
    Cue Ans Job → Option (Sys K R Tag Ans Out Mem Job ρ)
  | .start j => s.moveBy sh body ok (.start j)
  | .go i n answers => s.goBy sh body ok answers i n

/-- The system after a script of allowed moves. -/
def Sys.scriptBy (s : Sys K R Tag Ans Out Mem Job ρ) (cues : List (Cue Ans Job)) :
    Option (Sys K R Tag Ans Out Mem Job ρ) := cues.foldlM (Sys.cueBy sh body ok) s

variable {sh body ok} {s₀ s s' : Sys K R Tag Ans Out Mem Job ρ}

theorem ReachBy.moveBy {m : Move Ans Job} (hs : ReachBy sh body ok s₀ s)
    (h : s.moveBy sh body ok m = some s') : ReachBy sh body ok s₀ s' := by
  rw [Sys.moveBy] at h
  split at h
  case isFalse => cases h
  case isTrue hok => exact .step hs hok h

theorem ReachBy.goBy {f : (q : Ask) → Ans q} {i n : Nat} (hs : ReachBy sh body ok s₀ s)
    (h : s.goBy sh body ok f i n = some s') : ReachBy sh body ok s₀ s' := by
  induction n generalizing s with
  | zero =>
      cases h
      exact hs
  | succ n ih =>
      obtain ⟨t, -, h⟩ := Option.bind_eq_some_iff.1 h
      split at h
      · cases h
        exact hs
      · obtain ⟨s₁, hm, h⟩ := Option.bind_eq_some_iff.1 h
        exact ih (hs.moveBy hm) h

theorem ReachBy.scriptBy {cues : List (Cue Ans Job)} (hs : ReachBy sh body ok s₀ s)
    (h : s.scriptBy sh body ok cues = some s') : ReachBy sh body ok s₀ s' := by
  induction cues generalizing s with
  | nil =>
      cases h
      exact hs
  | cons cue cues ih =>
      obtain ⟨s₁, h₁, h⟩ := Option.bind_eq_some_iff.1 h
      refine ih ?_ h
      cases cue with
      | start j => exact hs.moveBy h₁
      | go i n answers => exact hs.goBy h₁

/-- A state a script of allowed moves leads to, with what can be read off it. -/
theorem ReachBy.scriptedBy (cues : List (Cue Ans Job)) {P : Sys K R Tag Ans Out Mem Job ρ → Prop}
    [DecidablePred P] (h : ((s₀.scriptBy sh body ok cues).any fun s => decide (P s)) = true) :
    ∃ s, ReachBy sh body ok s₀ s ∧ P s := by
  obtain ⟨s, hs, hP⟩ := (Option.any_eq_true _ _).1 h
  exact ⟨s, ReachBy.scriptBy .init hs, of_decide_eq_true hP⟩

end

end ReadCommitted
