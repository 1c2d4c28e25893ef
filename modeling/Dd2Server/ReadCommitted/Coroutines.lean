import Dd2Server.Machine.Coroutine
import Dd2Server.ReadCommitted.Program

/-!
# Programs as coroutines

A program over a READ COMMITTED database is a coroutine that waits at each of its moves.  It never
panics.
-/

namespace ReadCommitted

open Machine

universe u

variable {T : Type} {K R : T → Type} {Tag Ask Act α : Type} {Ans : Ask → Type}
    {Out : Act → Type}

/-- What a program waits for, indexed by what it then goes on with. -/
inductive Awaited (K R : T → Type) (Tag : Type) (Ans : Ask → Type) (Out : Act → Type) :
    Type → Type
  /-- The view that the statement ran on, unless it failed. -/
  | stmt (tag : Tag) (run : Store K R → Option (Effect K R)) : Awaited K R Tag Ans Out
    (Option (Store K R))
  /-- The rows that a read on a connection of its own saw, unless it failed. -/
  | read (tag : Tag) : Awaited K R Tag Ans Out (Option (Store K R))
  /-- The `COMMIT` went through. -/
  | commit : Awaited K R Tag Ans Out Bool
  | rollback : Awaited K R Tag Ans Out Unit
  | ask (q : Ask) : Awaited K R Tag Ans Out (Ans q)
  | act (a : Act) : Awaited K R Tag Ans Out (Out a)

section

variable {Q : Type → Type u}

/-- The program among the other questions of a coroutine. -/
def Prog.coroutine (lift : ∀ {β : Type}, Awaited K R Tag Ans Out β → Q β) :
    Prog K R Tag Ans Out α → Coroutine Q α
  | .ret a => .done a
  | .stmt tag run next fail => .wait (lift (.stmt tag run)) fun v =>
      match v with
      | some v => (next v).coroutine lift
      | none => fail.coroutine lift
  | .read tag next fail => .wait (lift (.read tag)) fun v =>
      match v with
      | some v => (next v).coroutine lift
      | none => fail.coroutine lift
  | .commit next fail =>
      .wait (lift .commit) fun ok => if ok then next.coroutine lift else fail.coroutine lift
  | .rollback next => .wait (lift .rollback) fun _ => next.coroutine lift
  | .ask q next => .wait (lift (.ask q)) fun a => (next a).coroutine lift
  | .act a next => .wait (lift (.act a)) fun o => (next o).coroutine lift

theorem Prog.ensures_coroutine {lift : ∀ {β : Type}, Awaited K R Tag Ans Out β → Q β}
    (p : Prog K R Tag Ans Out α) : (p.coroutine lift).Ensures fun _ => True := by
  induction p with
  | ret a => trivial
  | stmt tag run next fail ihn ihf =>
      rw [coroutine]
      intro v
      cases v with
      | some v => exact ihn v
      | none => exact ihf
  | read tag next fail ihn ihf =>
      rw [coroutine]
      intro v
      cases v with
      | some v => exact ihn v
      | none => exact ihf
  | commit next fail ihn ihf =>
      refine fun ok => ?_
      cases ok with
      | true => exact ihn
      | false => exact ihf
  | rollback next ih => exact fun _ => ih
  | ask q next ih => exact ih
  | act a next ih => exact ih

end

end ReadCommitted
