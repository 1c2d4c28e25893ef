import Dd2Server.ReadCommitted.Transaction

/-!
# What programs speak of

The tables of a database, the names of its statements, what its tasks ask the world outside and what
they do to the memory they share make a `Vocabulary`.  The types of the programs over it, and the
programs of one step, are here.
-/

namespace ReadCommitted

/-- The types that programs over one database speak of. -/
structure Vocabulary where
  {Table : Type}
  Key : Table → Type
  Row : Table → Type
  Tag : Type
  {Ask : Type}
  Ans : Ask → Type
  {Act : Type}
  Out : Act → Type

namespace Vocabulary

variable (V : Vocabulary)

abbrev Server (α : Type) := Prog V.Key V.Row V.Tag V.Ans V.Out α

/-- An `async fn` that returns a `Result`. -/
abbrev Query (ε α : Type) := ExceptT ε (Prog V.Key V.Row V.Tag V.Ans V.Out) α

abbrev Sql (β : Type) := Stmt V.Key V.Row V.Tag β

end Vocabulary

variable {T : Type} {K R : T → Type} {Tag Ask Act α β ε : Type} {Ans : Ask → Type}
    {Out : Act → Type}

/-- The answer to a question. -/
def askQ (q : Ask) : ExceptT ε (Prog K R Tag Ans Out) (Ans q) := ExceptT.lift (.ask q .ret)

/-- The outcome of an operation on the shared memory. -/
def actQ (a : Act) : ExceptT ε (Prog K R Tag Ans Out) (Out a) := ExceptT.lift (.act a .ret)

/-- A `SELECT` without locks. -/
def selectAs (tag : Tag) (f : Store K R → β) : Stmt K R Tag β where
  tag := tag
  run v := some ({}, f v)

/-- A read on a connection of its own: it sees the committed rows. -/
def readPool (dbError : ε) (tag : Tag) (f : Store K R → β) :
    ExceptT ε (Prog K R Tag Ans Out) β :=
  ExceptT.mk (.read tag (fun db => .ret (.ok (f db))) (.ret (.error dbError)))

/-- What reads the clock and writes, in a transaction of its own. -/
def single (dbError : ε) (clock : ExceptT ε (Prog K R Tag Ans Out) α)
    (x : α → ExceptT ε (Prog K R Tag Ans Out) β) : ExceptT ε (Prog K R Tag Ans Out) β :=
  transaction do
    let now ← clock
    let r ← x now
    commit dbError
    return r

end ReadCommitted
