import Dd2Server.ReadCommitted.Vocabulary

/-!
# The driver

The error of the driver says nothing of what failed.
-/

namespace Dd2Server

open ReadCommitted

variable {T : Type} {K R : T → Type} {Tag Ask Act β : Type} {Ans : Ask → Type}
    {Out : Act → Type}

/-- An error of the driver. -/
inductive DbError
  | database
  deriving DecidableEq

/-- A statement sent to the driver. -/
def sql (s : Stmt K R Tag β) : ExceptT DbError (Prog K R Tag Ans Out) β := query .database s

/-- A `SELECT` on the pool: it sees the committed rows. -/
def poolRead (tag : Tag) (f : Store K R → β) : ExceptT DbError (Prog K R Tag Ans Out) β :=
  readPool .database tag f

def commitQ : ExceptT DbError (Prog K R Tag Ans Out) Unit := commit .database

end Dd2Server
