import Mathlib.Control.Basic
import Mathlib.Logic.Basic

/-!
# Coroutines

An `async fn` runs from one question to the world outside to the next, and may panic in between.  A
coroutine is the tree of its questions: below each there is one branch for every answer, and every
branch is finite.  `Ends` are the ends of the branches.  `Ensures` says of all of them that they are
no panic and that the result is of a kind; it is computed along the tree, and is what the proofs
about handlers go by.
-/

namespace Machine

universe u

/-- A coroutine with questions of the family `Q`, which is indexed by the type of the answer. -/
inductive Coroutine (Q : Type → Type u) (α : Type) : Type (max 1 u)
  /-- It has ended. -/
  | done (a : α)
  | panics
  /-- It asks and goes on with the answer. -/
  | wait {β : Type} (q : Q β) (next : β → Coroutine Q α)

namespace Coroutine

variable {Q : Type → Type u} {ε ε' α β : Type}

def bind : Coroutine Q α → (α → Coroutine Q β) → Coroutine Q β
  | .done a, k => k a
  | .panics, _ => .panics
  | .wait q next, k => .wait q fun b => (next b).bind k

instance : Monad (Coroutine Q) where
  pure := .done
  bind := .bind

theorem bind_done (c : Coroutine Q α) : c.bind .done = c := by
  induction c with
  | done a => rfl
  | panics => rfl
  | wait q next ih => exact congrArg (Coroutine.wait q) (funext ih)

theorem bind_assoc {γ : Type} (c : Coroutine Q α) (k : α → Coroutine Q β)
    (k' : β → Coroutine Q γ) : (c.bind k).bind k' = c.bind fun a => (k a).bind k' := by
  induction c with
  | done a => rfl
  | panics => rfl
  | wait q next ih => exact congrArg (Coroutine.wait q) (funext ih)

instance : LawfulMonad (Coroutine Q) :=
  LawfulMonad.mk' (Coroutine Q) bind_done (fun _ _ => rfl) bind_assoc

/-- One question. -/
def ask (q : Q α) : Coroutine Q α := .wait q .done

/-- A value that is there, or a panic. -/
def unwrap : Option α → Coroutine Q α
  | some a => .done a
  | none => .panics

/-! ## Ends -/

/-- The coroutine may end so: with a result, or in a panic. -/
inductive Ends : Coroutine Q α → Option α → Prop
  | done (a : α) : Ends (.done a) (some a)
  | panics : Ends .panics none
  | wait {β : Type} {q : Q β} {next : β → Coroutine Q α} {o : Option α} (b : β)
    (h : Ends (next b) o) :
      Ends (.wait q next) o

/-- However the world answers, the coroutine does not end in a panic. -/
def Finishes (c : Coroutine Q α) : Prop := ∀ o, c.Ends o → ∃ a, o = some a

/-- However the world answers, the coroutine ends with a result of which `P` holds. -/
def Ensures : Coroutine Q α → (α → Prop) → Prop
  | .done a, P => P a
  | .panics, _ => False
  | .wait _ next, P => ∀ b, (next b).Ensures P

variable {c : Coroutine Q α} {P P' : α → Prop}

/-- `Ensures` is about the ends. -/
theorem ensures_iff : c.Ensures P ↔ ∀ o, c.Ends o → ∃ a, o = some a ∧ P a := by
  induction c with
  | done a =>
      constructor
      · rintro h o (_ | _)
        exact ⟨a, rfl, h⟩
      · intro h
        obtain ⟨a', ha, hP⟩ := h _ (.done a)
        obtain rfl := Option.some.inj ha
        exact hP
  | panics =>
      refine iff_of_false (fun h => h) fun h => ?_
      obtain ⟨a, ha, -⟩ := h none .panics
      cases ha
  | wait q next ih =>
      constructor
      · rintro h o (_ | _ | ⟨b, ho⟩)
        exact (ih b).1 (h b) o ho
      · intro h b
        exact (ih b).2 fun o ho => h o (.wait b ho)

theorem finishes_iff : c.Finishes ↔ c.Ensures fun _ => True := by
  rw [ensures_iff]
  simp only [and_true]
  rfl

@[simp] theorem ensures_pure {a : α} : (pure a : Coroutine Q α).Ensures P ↔ P a := Iff.rfl

@[simp] theorem ensures_panics : (panics : Coroutine Q α).Ensures P ↔ False := Iff.rfl

@[simp] theorem ensures_ask {q : Q α} : (ask q).Ensures P ↔ ∀ a, P a := Iff.rfl

@[simp] theorem ensures_unwrap {o : Option α} :
    (unwrap o : Coroutine Q α).Ensures P ↔ ∃ a, o = some a ∧ P a := by
  cases o with
  | none => simp [unwrap]
  | some a =>
      constructor
      · exact fun h => ⟨a, rfl, h⟩
      · rintro ⟨a', ha, h⟩
        obtain rfl := Option.some.inj ha
        exact h

@[simp] theorem ensures_bind {k : α → Coroutine Q β} {P : β → Prop} :
    (c >>= k).Ensures P ↔ c.Ensures fun a => (k a).Ensures P := by
  show (c.bind k).Ensures P ↔ _
  induction c with
  | done a => exact Iff.rfl
  | panics => exact Iff.rfl
  | wait q next ih => exact forall_congr' ih

@[simp] theorem ensures_map {f : α → β} {P : β → Prop} :
    (f <$> c).Ensures P ↔ c.Ensures fun a => P (f a) := by
  rw [← bind_pure_comp, ensures_bind]
  exact Iff.rfl

theorem Ensures.mono (h : c.Ensures P) (hP : ∀ a, P a → P' a) : c.Ensures P' := by
  induction c with
  | done a => exact hP a h
  | panics => exact h
  | wait q next ih => exact fun b => ih b (h b)

theorem ensures_congr (hP : ∀ a, P a ↔ P' a) : c.Ensures P ↔ c.Ensures P' :=
  ⟨fun h => h.mono fun a => (hP a).1, fun h => h.mono fun a => (hP a).2⟩

/-! ## Handlers -/

/-- An `async fn` that returns a `Result`. -/
abbrev Fallible (Q : Type → Type u) (ε α : Type) := ExceptT ε (Coroutine Q) α

/-- One question, whose answer may be an error. -/
def request (q : Q (Except ε α)) : Fallible Q ε α := ExceptT.mk (ask q)

/-- The handler finishes, with a result or an error. -/
def Calm (x : Fallible Q ε α) : Prop := x.run.Ensures fun _ => True

variable {x : Fallible Q ε α} {k : α → Fallible Q ε β}

theorem calm_bind_iff : Calm (x >>= k) ↔ x.run.Ensures fun r => ∀ a, r = .ok a →
    Calm (k a) := by
  unfold Calm
  rw [ExceptT.run_bind, ensures_bind]
  refine ensures_congr fun r => ?_
  cases r with
  | ok a => simp
  | error e => simp

@[simp] theorem calm_pure {a : α} : Calm (pure a : Fallible Q ε α) := trivial

@[simp] theorem calm_throw {e : ε} : Calm (throw e : Fallible Q ε α) := trivial

@[simp] theorem calm_request {q : Q (Except ε α)} : Calm (request q) := fun _ => trivial

@[simp] theorem calm_request_bind {q : Q (Except ε α)} :
    Calm (request q >>= k) ↔ ∀ a, Calm (k a) := by
  rw [calm_bind_iff]
  constructor
  · intro h a
    exact h (.ok a) a rfl
  · rintro h r a rfl
    exact h a

@[simp] theorem calm_lift_bind {c : Coroutine Q α} :
    Calm ((ExceptT.lift c : Fallible Q ε α) >>= k) ↔ c.Ensures fun a => Calm (k a) := by
  rw [calm_bind_iff]
  rw [ExceptT.run_lift]
  simp

@[simp] theorem calm_ask_bind {q : Q α} :
    Calm ((ExceptT.lift (ask q) : Fallible Q ε α) >>= k) ↔ ∀ a, Calm (k a) :=
  calm_lift_bind

/-- A value that is there makes no difference to what panics. -/
theorem calm_unwrap_bind {o : Option α} {p : Prop} (ho : o.isSome) (hk : ∀ a, Calm (k a) ↔ p) :
    Calm ((ExceptT.lift (unwrap o) : Fallible Q ε α) >>= k) ↔ p := by
  obtain ⟨a, rfl⟩ := Option.isSome_iff_exists.1 ho
  rw [calm_lift_bind]
  exact hk a

/-- Where what follows does not panic, only the first part may. -/
theorem calm_bind_of (hk : ∀ a, Calm (k a)) : Calm (x >>= k) ↔ Calm x := by
  rw [calm_bind_iff]
  exact ensures_congr fun r => iff_of_true (fun a _ => hk a) trivial

theorem Calm.bind (h : Calm x) (hk : ∀ a, Calm (k a)) : Calm (x >>= k) := (calm_bind_of hk).2 h

theorem Calm.ite {p : Prop} [Decidable p] {y : Fallible Q ε α} (hx : Calm x) (hy : Calm y) :
    Calm (if p then x else y) := by
  split
  · exact hx
  · exact hy

@[simp] theorem calm_adapt {f : ε → ε'} : Calm (x.adapt f : Fallible Q ε' α) ↔ Calm x := by
  show (x.run >>= fun r => pure (r.mapError f)).Ensures _ ↔ _
  rw [ensures_bind]
  exact Iff.rfl

end Coroutine

end Machine
