import Dd2Server.ReadCommitted.Moves
import Dd2Server.ReadCommitted.Transaction

/-!
# Programs whose commit is the last thing they do

After the `COMMIT` of such a program nothing is left but to return a good result.  A task of it that
ended in another result, or that was dropped before it had one, has therefore committed nothing.
-/

namespace ReadCommitted

variable {T : Type} {K R : T → Type}
  {Tag Ask Act Mem Job ρ α β ε ε' : Type} {Ans : Ask → Type} {Out : Act → Type}

namespace Prog

/-- Nothing is left but to return a good result. -/
def Ending (good : α → Prop) : Prog K R Tag Ans Out α → Prop
  | .ret a => good a
  | .rollback next => next.Ending good
  | _ => False

/-- After a commit nothing is left but to return a good result. -/
def CommitsLast (good : α → Prop) : Prog K R Tag Ans Out α → Prop
  | .ret _ => True
  | .stmt _ _ next fail => (∀ v, (next v).CommitsLast good) ∧ fail.CommitsLast good
  | .read _ next fail => (∀ v, (next v).CommitsLast good) ∧ fail.CommitsLast good
  | .commit next fail => next.Ending good ∧ fail.CommitsLast good
  | .rollback next => next.CommitsLast good
  | .ask _ next => ∀ a, (next a).CommitsLast good
  | .act _ next => ∀ o, (next o).CommitsLast good

variable {good : α → Prop} {good' : β → Prop} {p : Prog K R Tag Ans Out α}
  {k : α → Prog K R Tag Ans Out β}

theorem Ending.bind (hp : p.Ending good) (hk : ∀ a, good a → (k a).Ending good') :
    (p.bind k).Ending good' := by
  induction p with
  | ret a => exact hk a hp
  | rollback next ih => exact ih hp
  | _ => exact hp.elim

theorem CommitsLast.bind (hp : p.CommitsLast good) (hk : ∀ a, (k a).CommitsLast good')
    (hgood : ∀ a, good a → (k a).Ending good') : (p.bind k).CommitsLast good' := by
  induction p with
  | ret a => exact hk a
  | stmt tag run next fail ihn ihf => exact ⟨fun v => ihn v (hp.1 v), ihf hp.2⟩
  | read tag next fail ihn ihf => exact ⟨fun v => ihn v (hp.1 v), ihf hp.2⟩
  | commit next fail ihn ihf => exact ⟨hp.1.bind hgood, ihf hp.2⟩
  | rollback next ih => exact ih hp
  | ask q next ih => exact fun a => ih a (hp a)
  | act a next ih => exact fun o => ih o (hp o)

end Prog

/-! ## Programs that may stop with an error -/

/-- The program is all or nothing: once it committed it returns a result. -/
def AllOrNothing (x : ExceptT ε (Prog K R Tag Ans Out) α) : Prop :=
  x.run.CommitsLast fun r => r.isOk = true

/-- The program does not commit. -/
def CommitsNever (x : ExceptT ε (Prog K R Tag Ans Out) α) : Prop :=
  x.run.CommitsLast fun _ => False

namespace CommitsNever

theorem query {dbError : ε} {s : Stmt K R Tag α} :
    CommitsNever (ReadCommitted.query dbError s : ExceptT ε (Prog K R Tag Ans Out) α) :=
  ⟨fun _ => trivial, trivial⟩

theorem ask {q : Ask} :
    CommitsNever (ExceptT.lift (.ask q .ret) : ExceptT ε (Prog K R Tag Ans Out) (Ans q)) :=
  fun _ => trivial

theorem pure {a : α} : CommitsNever (Pure.pure a : ExceptT ε (Prog K R Tag Ans Out) α) := trivial

theorem bind {x : ExceptT ε (Prog K R Tag Ans Out) β}
    {f : β → ExceptT ε (Prog K R Tag Ans Out) α} (hx : CommitsNever x)
    (hf : ∀ b, CommitsNever (f b)) : CommitsNever (x >>= f) := by
  refine Prog.CommitsLast.bind hx (fun r => ?_) (fun _ h => h.elim)
  cases r with
  | ok b => exact hf b
  | error e => trivial

end CommitsNever

namespace AllOrNothing

theorem pure {a : α} : AllOrNothing (Pure.pure a : ExceptT ε (Prog K R Tag Ans Out) α) := trivial

/-- The rule of sequential composition, where only the last part commits. -/
theorem bind {x : ExceptT ε (Prog K R Tag Ans Out) β}
    {f : β → ExceptT ε (Prog K R Tag Ans Out) α} (hx : CommitsNever x)
    (hf : ∀ b, AllOrNothing (f b)) : AllOrNothing (x >>= f) := by
  refine Prog.CommitsLast.bind hx (fun r => ?_) (fun _ h => h.elim)
  cases r with
  | ok b => exact hf b
  | error e => trivial

theorem commit {dbError : ε} :
    AllOrNothing (ReadCommitted.commit dbError : ExceptT ε (Prog K R Tag Ans Out) Unit) :=
  ⟨rfl, trivial⟩

theorem transaction {x : ExceptT ε (Prog K R Tag Ans Out) α} (h : AllOrNothing x) :
    AllOrNothing (ReadCommitted.transaction x) :=
  Prog.CommitsLast.bind h (fun _ => trivial) (fun _ hr => hr)

end AllOrNothing

variable [DecidableEq T] [∀ t, DecidableEq (K t)]

/-! ## Every interleaving -/

/-- The task committed nothing, or nothing is left but to return a good result. -/
def Undecided (good : ρ → Prop) (p : Prog K R Tag Ans Out ρ)
    (l : Local K R Tag Ans Out) : Prop :=
  Uncommitted l.log ∧ p.CommitsLast good ∨ p.Ending good

variable {sh : Shared K R Tag Ans Out Mem} {body : Job → Prog K R Tag Ans Out ρ}

theorem Undecided.advance {good : ρ → Prop} {held : List (Lock K)} {db db' : Store K R}
    {mem mem' : Mem} {p p' : Prog K R Tag Ans Out ρ} {l l' : Local K R Tag Ans Out}
    {c : Choice Ans} (h : Undecided good p l)
    (ha : advance sh held db mem p l c = some (db', mem', p', l')) : Undecided good p' l' := by
  have hcons : ∀ {ev : Event K R Tag Ans Out}, (∀ pre post, ev ≠ .committed pre post) →
      Uncommitted l.log → Uncommitted (ev :: l.log) :=
    fun hev hl => hl.cons fun pre post he => hev pre post he
  rcases h with ⟨hl, hp⟩ | hp
  case inr =>
    cases p with
    | rollback next =>
        cases c <;> simp only [ReadCommitted.advance, Option.some.injEq, Prod.mk.injEq,
          reduceCtorEq] at ha
        obtain ⟨-, -, rfl, -⟩ := ha
        exact .inr hp
    | ret a => cases c <;> simp [ReadCommitted.advance] at ha
    | _ => exact hp.elim
  case inl =>
    cases p with
    | ret a => cases c <;> simp [ReadCommitted.advance] at ha
    | stmt tag run next fail =>
        cases c with
        | answer f => simp [ReadCommitted.advance] at ha
        | fail =>
            cases ha
            exact .inl ⟨hcons (by simp) hl, hp.2⟩
        | proceed =>
            simp only [ReadCommitted.advance] at ha
            split at ha
            · split at ha
              case isFalse => cases ha
              case isTrue =>
                cases ha
                exact .inl ⟨hcons (by simp) hl, hp.1 _⟩
            · cases ha
              exact .inl ⟨hcons (by simp) hl, hp.2⟩
    | read tag next fail =>
        cases c with
        | answer f => simp [ReadCommitted.advance] at ha
        | fail =>
            cases ha
            exact .inl ⟨hcons (by simp) hl, hp.2⟩
        | proceed =>
            cases ha
            exact .inl ⟨hcons (by simp) hl, hp.1 _⟩
    | commit next fail =>
        cases c with
        | answer f => simp [ReadCommitted.advance] at ha
        | fail =>
            cases ha
            exact .inl ⟨hcons (by simp) hl, hp.2⟩
        | proceed =>
            cases ha
            exact .inr hp.1
    | rollback next =>
        cases c <;> simp only [ReadCommitted.advance, Option.some.injEq, Prod.mk.injEq,
          reduceCtorEq] at ha
        obtain ⟨-, -, rfl, rfl⟩ := ha
        exact .inl ⟨hl, hp⟩
    | ask q next =>
        cases c <;> simp only [ReadCommitted.advance, Option.some.injEq, Prod.mk.injEq,
          reduceCtorEq] at ha
        obtain ⟨-, -, rfl, rfl⟩ := ha
        exact .inl ⟨hcons (by simp) hl, hp _⟩
    | act a next =>
        cases c <;> simp only [ReadCommitted.advance, Option.map_eq_some_iff, Prod.mk.injEq,
          reduceCtorEq] at ha
        obtain ⟨r, -, -, -, rfl, rfl⟩ := ha
        exact .inl ⟨hcons (by simp) hl, hp _⟩

variable {C : Tag → Store K R → Prop} {s₀ s s' : Sys K R Tag Ans Out Mem Job ρ}
    {m : Move Ans Job}

/-- A task of a job that commits last has committed nothing, or it returns a good result. -/
theorem Reach.undecided {J : Job → Prop} {good : ρ → Prop}
    (hbody : ∀ j, J j → (body j).CommitsLast good) (htasks : s₀.tasks = [])
    (h : Reach sh body C s₀ s) : ∀ t ∈ s.tasks, J t.job → Undecided good t.prog t.loc := by
  induction h with
  | init =>
      intro t ht
      rw [htasks] at ht
      cases ht
  | step _ _ hm ih =>
      intro t ht hj
      cases Sys.move_cases hm with
      | started j hdb hmem htasks' =>
          rw [htasks'] at ht
          rcases List.mem_append.1 ht with ht | ht
          · exact ih t ht hj
          · obtain rfl := List.mem_singleton.1 ht
            exact .inl ⟨.nil, hbody j hj⟩
      | dropped i u hu hdb hmem htasks' =>
          rw [htasks'] at ht
          exact ih t (List.mem_of_mem_eraseIdx ht) hj
      | ran i c u u' hu hjob htasks' hadv =>
          rw [htasks'] at ht
          rcases List.mem_or_eq_of_mem_set ht with ht | rfl
          · exact ih t ht hj
          · exact (ih u (List.mem_of_getElem? hu) (hjob ▸ hj)).advance hadv

/-- Committed rows move by the commit of a task that runs, and its log keeps it. -/
theorem Sys.moved_committed (hm : s.move sh body m = some s') :
    s'.db = s.db ∨ ∃ i c t t', m = .run i c ∧ s.CommittedBy s' i t t' := by
  cases Sys.move_cases hm with
  | started j hdb hmem htasks => exact .inl hdb
  | dropped i t ht hdb hmem htasks => exact .inl hdb
  | ran i c t t' ht hjob htasks hadv =>
      rcases advance_commits hadv with hlog | ⟨hdb, -⟩
      · have hlen : i < s.tasks.length := (List.getElem?_eq_some_iff.1 ht).1
        refine .inr ⟨i, c, t, t', rfl, ht, ?_, hjob, hlog⟩
        rw [htasks]
        exact List.getElem?_set_self hlen
      · exact .inl hdb

end ReadCommitted
