import Dd2Server.ReadCommitted.Store

/-!
# Programs over a READ COMMITTED database

A `Prog` is a task of a server process: SQL statements, `COMMIT` and `ROLLBACK`,
questions to the world outside (the clock, a sequence, a remote service) and
atomic operations on the memory the tasks of one process share.  A statement is
given by what it does on the view it executes on: the row locks it takes and the
rows it writes, or nothing when it violates a constraint.

A system is the committed database, the shared memory and the tasks in flight.
One move runs one statement of one task.  The statement sees the rows committed
by then under the task's own writes, and it runs only when no other task holds a
conflicting lock on a row it locks or writes: before that it waits.  `COMMIT`
publishes the writes and releases the locks.  Any statement and any `COMMIT` may
also fail, which rolls the transaction back, and a task may be dropped between
two of its moves.

Each task carries a log of what it saw, asked, did and committed, newest first.
The log is a history variable: no program reads it.
-/

namespace ReadCommitted

/-- The strength of a row lock: `FOR KEY SHARE` (a foreign key looks at its parent), `FOR SHARE`,
`FOR NO KEY UPDATE` (an `UPDATE`), `FOR UPDATE` (a `DELETE`, a new row). -/
inductive Mode
  | keyShare
  | share
  | noKeyUpdate
  | update
  deriving DecidableEq

/-- The two do not go together on one row. -/
def Mode.conflicts : Mode → Mode → Bool
  | .update, _ => true
  | _, .update => true
  | .noKeyUpdate, .keyShare => false
  | .keyShare, .noKeyUpdate => false
  | .noKeyUpdate, _ => true
  | _, .noKeyUpdate => true
  | _, _ => false

/-- The mode allows writing the row. -/
def Mode.exclusive : Mode → Bool
  | .noKeyUpdate => true
  | .update => true
  | _ => false

variable {T : Type} {K R : T → Type} {Tag Ask Act Mem Job ρ α β : Type}
  {Ans : Ask → Type} {Out : Act → Type}

/-- A lock on one row. -/
structure Lock (K : T → Type) where
  /-- The row. -/
  row : RowKey K
  /-- The strength. -/
  mode : Mode

/-- What a statement does on the view it executes on. -/
structure Effect (K R : T → Type) where
  /-- The rows it locks besides those it writes. -/
  locks : List (Lock K) := []
  /-- The rows it writes, newest first. -/
  writes : List (Write K R) := []

section

variable [DecidableEq T] [∀ t, DecidableEq (K t)]

/-- The lock a write takes: a new content for a row that is there leaves its key alone. -/
def Write.lock (v : Store K R) (w : Write K R) : Lock K :=
  ⟨w.row, if (v.get w.row).isSome && w.content.isSome then .noKeyUpdate else .update⟩

/-- The locks of a statement that runs on the view `v`. -/
def Effect.allLocks (v : Store K R) (e : Effect K R) : List (Lock K) :=
  e.writes.map (Write.lock v) ++ e.locks

end

/-- A program of one task with result `α`. -/
inductive Prog (K R : T → Type) (Tag : Type) (Ans : Ask → Type) (Out : Act → Type) (α : Type)
  /-- The task has ended. -/
  | ret (a : α)
  /-- A statement: its effect on the view, or `none` for a violated constraint. -/
  | stmt (tag : Tag) (run : Store K R → Option (Effect K R)) (next : Store K R →
    Prog K R Tag Ans Out α)
      (fail : Prog K R Tag Ans Out α)
  /-- A read on a connection of its own, besides the transaction that may be open. -/
  | read (tag : Tag) (next : Store K R → Prog K R Tag Ans Out α) (fail : Prog K R Tag Ans Out α)
  /-- `COMMIT`. -/
  | commit (next fail : Prog K R Tag Ans Out α)
  /-- `ROLLBACK`, or the drop of an open transaction. -/
  | rollback (next : Prog K R Tag Ans Out α)
  /-- A question to the world outside. -/
  | ask (q : Ask) (next : Ans q → Prog K R Tag Ans Out α)
  /-- An atomic operation on the shared memory. -/
  | act (a : Act) (next : Out a → Prog K R Tag Ans Out α)

namespace Prog

/-- Sequential composition. -/
def bind : Prog K R Tag Ans Out α → (α → Prog K R Tag Ans Out β) → Prog K R Tag Ans Out β
  | .ret a, k => k a
  | .stmt tag run next fail, k => .stmt tag run (fun v => (next v).bind k) (fail.bind k)
  | .read tag next fail, k => .read tag (fun v => (next v).bind k) (fail.bind k)
  | .commit next fail, k => .commit (next.bind k) (fail.bind k)
  | .rollback next, k => .rollback (next.bind k)
  | .ask q next, k => .ask q fun a => (next a).bind k
  | .act a next, k => .act a fun o => (next o).bind k

instance : Monad (Prog K R Tag Ans Out) where
  pure := .ret
  bind := .bind

@[simp] theorem pure_eq (a : α) : (pure a : Prog K R Tag Ans Out α) = .ret a := rfl

@[simp] theorem bind_eq (p : Prog K R Tag Ans Out α) (k : α → Prog K R Tag Ans Out β) :
    p >>= k = p.bind k := rfl

theorem bind_assoc {γ : Type} (p : Prog K R Tag Ans Out α) (k : α → Prog K R Tag Ans Out β)
    (k' : β → Prog K R Tag Ans Out γ) : (p.bind k).bind k' = p.bind fun a => (k a).bind k' := by
  induction p with
  | ret a => rfl
  | stmt tag run next fail ihn ihf => simp only [bind, ihn, ihf]
  | read tag next fail ihn ihf => simp only [bind, ihn, ihf]
  | commit next fail ihn ihf => simp only [bind, ihn, ihf]
  | rollback next ih => simp only [bind, ih]
  | ask q next ih => simp only [bind, ih]
  | act a next ih => simp only [bind, ih]

theorem bind_ret (p : Prog K R Tag Ans Out α) : p.bind .ret = p := by
  induction p with
  | ret a => rfl
  | stmt tag run next fail ihn ihf => simp only [bind, ihn, ihf]
  | read tag next fail ihn ihf => simp only [bind, ihn, ihf]
  | commit next fail ihn ihf => simp only [bind, ihn, ihf]
  | rollback next ih => simp only [bind, ih]
  | ask q next ih => simp only [bind, ih]
  | act a next ih => simp only [bind, ih]

instance : LawfulMonad (Prog K R Tag Ans Out) :=
  .mk' _ bind_ret (fun _ _ => rfl) bind_assoc

/-- The program as a task of its own that panics after so many steps: its transaction is dropped. -/
def cut : Prog K R Tag Ans Out α → Nat → Prog K R Tag Ans Out (Option α)
  | .ret a, _ => .ret (some a)
  | _, 0 => .rollback (.ret none)
  | .stmt tag run next fail, n + 1 => .stmt tag run (fun v => (next v).cut n) (fail.cut n)
  | .read tag next fail, n + 1 => .read tag (fun v => (next v).cut n) (fail.cut n)
  | .commit next fail, n + 1 => .commit (next.cut n) (fail.cut n)
  | .rollback next, n + 1 => .rollback (next.cut n)
  | .ask q next, n + 1 => .ask q fun a => (next a).cut n
  | .act a next, n + 1 => .act a fun o => (next o).cut n

/-- The result of a program that has ended. -/
def result : Prog K R Tag Ans Out α → Option α
  | .ret a => some a
  | _ => none

theorem result_eq_some {p : Prog K R Tag Ans Out α} {a : α} :
    p.result = some a ↔ p = .ret a := by
  cases p <;> simp [result]

end Prog

/-! ## Statements -/

/-- A statement with a result: its effect and its rows on the view it executes on, or `none` when
it violates a constraint. -/
structure Stmt (K R : T → Type) (Tag β : Type) where
  /-- The name of the statement, for the log. -/
  tag : Tag
  /-- What it does and returns. -/
  run : Store K R → Option (Effect K R × β)

/-- A statement sent to the driver, which answers with its rows, or with an error when the
statement violates a constraint or the connection fails. -/
def Stmt.exec (s : Stmt K R Tag β) : Prog K R Tag Ans Out (Option β) :=
  .stmt s.tag (fun v => (s.run v).map Prod.fst) (fun v => .ret ((s.run v).map Prod.snd)) (.ret none)

/-! ## Tasks and systems -/

/-- What a task did, as its log keeps it. -/
inductive Event (K R : T → Type) (Tag : Type) (Ans : Ask → Type) (Out : Act → Type)
  /-- A statement ran on the view `v`. -/
  | saw (tag : Tag) (v : Store K R)
  /-- A statement violated a constraint. -/
  | rejected (tag : Tag) (v : Store K R)
  /-- A read on a connection of its own saw the committed rows. -/
  | read (tag : Tag) (db : Store K R)
  /-- A statement or a `COMMIT` failed for a reason outside the model. -/
  | failed
  /-- The world outside answered. -/
  | answered (q : Ask) (a : Ans q)
  /-- An operation on the shared memory took place. -/
  | acted (a : Act) (o : Out a)
  /-- A `COMMIT` took the committed rows from `pre` to `post`. -/
  | committed (pre post : Store K R)

/-- The state of a task besides its program. -/
structure Local (K R : T → Type) (Tag : Type) (Ans : Ask → Type) (Out : Act → Type) where
  /-- The writes of the open transaction. -/
  writes : List (Write K R) := []
  /-- The locks it holds. -/
  locks : List (Lock K) := []
  /-- What the task did so far, newest first. -/
  log : List (Event K R Tag Ans Out) := []

namespace Local

variable (l : Local K R Tag Ans Out)

/-- A statement ran. -/
def ran [DecidableEq T] [∀ t, DecidableEq (K t)] (tag : Tag) (v : Store K R) (e : Effect K R) :
    Local K R Tag Ans Out where
  writes := e.writes ++ l.writes
  locks := e.allLocks v ++ l.locks
  log := .saw tag v :: l.log

/-- The transaction is over and the event says how. -/
def ended (ev : Event K R Tag Ans Out) : Local K R Tag Ans Out where
  log := ev :: l.log

/-- The transaction was rolled back. -/
def rolledBack : Local K R Tag Ans Out where
  log := l.log

/-- The event happened outside the database. -/
def noted (ev : Event K R Tag Ans Out) : Local K R Tag Ans Out := { l with log := ev :: l.log }

end Local

/-- A task in flight: the job it was started for, what is left of it, and its state. -/
structure Task (K R : T → Type) (Tag : Type) (Ans : Ask → Type) (Out : Act → Type)
    (Job ρ : Type) where
  /-- The job. -/
  job : Job
  /-- What is left to run. -/
  prog : Prog K R Tag Ans Out ρ
  /-- Its state. -/
  loc : Local K R Tag Ans Out := {}

/-- A system: the committed rows, the shared memory, and every task started so far. -/
structure Sys (K R : T → Type) (Tag : Type) (Ans : Ask → Type) (Out : Act → Type)
    (Mem Job ρ : Type) where
  /-- The committed rows. -/
  db : Store K R
  /-- The memory the tasks share. -/
  mem : Mem
  /-- The tasks, oldest first. -/
  tasks : List (Task K R Tag Ans Out Job ρ) := []

/-- The memory the tasks share: what an operation does there, `none` while it has to wait, and what
the drop of a task releases, given what the task did. -/
structure Shared (K R : T → Type) (Tag : Type) (Ans : Ask → Type) (Out : Act → Type)
    (Mem : Type) where
  perform : (a : Act) → Mem → Option (Mem × Out a)
  abandon : List (Event K R Tag Ans Out) → Mem → Mem

/-- How one task moves. -/
inductive Choice (Ans : Ask → Type)
  /-- The next operation takes place. -/
  | proceed
  /-- The next statement or `COMMIT` fails. -/
  | fail
  /-- The question is answered. -/
  | answer (f : (q : Ask) → Ans q)

/-- A move of the system. -/
inductive Move (Ans : Ask → Type) (Job : Type)
  /-- A new task starts. -/
  | start (j : Job)
  /-- Task `i` moves. -/
  | run (i : Nat) (c : Choice Ans)
  /-- Task `i` is dropped: its transaction rolls back and the memory is told. -/
  | drop (i : Nat)

variable [DecidableEq T] [∀ t, DecidableEq (K t)]

/-- Two locks of different tasks go together unless they conflict on one row. -/
def Lock.compatible (a b : Lock K) : Bool := a.row ≠ b.row || !a.mode.conflicts b.mode

/-- Every lock asked for goes with every lock held by others. -/
def grants (held asked : List (Lock K)) : Bool :=
  asked.all fun a => held.all fun b => a.compatible b

section

variable (sh : Shared K R Tag Ans Out Mem)

/-- One move of one task, given the locks the other tasks hold. -/
def advance (held : List (Lock K)) (db : Store K R) (mem : Mem) (p : Prog K R Tag Ans Out ρ)
    (l : Local K R Tag Ans Out) :
    Choice Ans → Option (Store K R × Mem × Prog K R Tag Ans Out ρ × Local K R Tag Ans Out) :=
  fun c =>
    match p, c with
    | .stmt tag run next fail, .proceed =>
        let v := Store.view l.writes db
        match run v with
        | some e =>
            if grants held (e.allLocks v) then some (db, mem, next v, l.ran tag v e) else none
        | none => some (db, mem, fail, l.ended (.rejected tag v))
    | .stmt _ _ _ fail, .fail => some (db, mem, fail, l.ended .failed)
    | .read tag next _, .proceed => some (db, mem, next db, l.noted (.read tag db))
    | .read _ _ fail, .fail => some (db, mem, fail, l.noted .failed)
    | .commit next _, .proceed =>
        let v := Store.view l.writes db
        some (v, mem, next, l.ended (.committed db v))
    | .commit _ fail, .fail => some (db, mem, fail, l.ended .failed)
    | .rollback next, .proceed => some (db, mem, next, l.rolledBack)
    | .ask q next, .answer f => some (db, mem, next (f q), l.noted (.answered q (f q)))
    | .act a next, .proceed =>
        (sh.perform a mem).map fun r => (db, r.1, next r.2, l.noted (.acted a r.2))
    | _, _ => none

variable (body : Job → Prog K R Tag Ans Out ρ)

/-- The locks held by every task but `i`. -/
def Sys.heldByOthers (s : Sys K R Tag Ans Out Mem Job ρ) (i : Nat) : List (Lock K) :=
  (s.tasks.eraseIdx i).flatMap fun t => t.loc.locks

/-- One move of the system, `none` when it is not enabled. -/
def Sys.move (s : Sys K R Tag Ans Out Mem Job ρ) :
    Move Ans Job → Option (Sys K R Tag Ans Out Mem Job ρ)
  | .start j => some { s with tasks := s.tasks ++ [{ job := j, prog := body j }] }
  | .run i c => do
      let t ← s.tasks[i]?
      let (db, mem, p, l) ← advance sh (s.heldByOthers i) s.db s.mem t.prog t.loc c
      return { db := db, mem := mem, tasks := s.tasks.set i { t with prog := p, loc := l } }
  | .drop i => do
      let t ← s.tasks[i]?
      return { s with mem := sh.abandon t.loc.log s.mem, tasks := s.tasks.eraseIdx i }

/-- A move is admitted when the statement it runs, if any, meets `C` on its view. -/
def Sys.Admits (C : Tag → Store K R → Prop) (s : Sys K R Tag Ans Out Mem Job ρ) :
    Move Ans Job → Prop
  | .run i _ =>
      ∀ t tag run next fail, s.tasks[i]? = some t → t.prog = .stmt tag run next fail →
      C tag (Store.view t.loc.writes s.db)
  | _ => True

/-- The states reached from `s₀` by admitted moves. -/
inductive Reach (C : Tag → Store K R → Prop) (s₀ : Sys K R Tag Ans Out Mem Job ρ) :
    Sys K R Tag Ans Out Mem Job ρ → Prop
  | init : Reach C s₀ s₀
  | step {s s' : Sys K R Tag Ans Out Mem Job ρ} {m : Move Ans Job} :
      Reach C s₀ s → s.Admits C m → s.move sh body m = some s' → Reach C s₀ s'

/-- The states reached from `s₀` by moves that `ok` allows where they are made. -/
inductive ReachBy (ok : Sys K R Tag Ans Out Mem Job ρ → Move Ans Job → Prop)
    (s₀ : Sys K R Tag Ans Out Mem Job ρ) : Sys K R Tag Ans Out Mem Job ρ → Prop
  | init : ReachBy ok s₀ s₀
  | step {s s' : Sys K R Tag Ans Out Mem Job ρ} {m : Move Ans Job} :
      ReachBy ok s₀ s → ok s m → s.move sh body m = some s' → ReachBy ok s₀ s'

/-- The choice by which a program goes on, with what it asks answered by `f`. -/
def Prog.onward (f : (q : Ask) → Ans q) : Prog K R Tag Ans Out α → Choice Ans
  | .ask _ _ => .answer f
  | _ => .proceed

/-- Task `i` makes at most so many moves, fewer when it ends before. -/
def Sys.go (f : (q : Ask) → Ans q) (i : Nat) : Nat → Sys K R Tag Ans Out Mem Job ρ →
    Option (Sys K R Tag Ans Out Mem Job ρ)
  | 0, s => some s
  | n + 1, s => (s.tasks[i]?).bind fun t =>
      match t.prog with
      | .ret _ => some s
      | p => (s.move sh body (.run i (p.onward f))).bind (Sys.go f i n)

/-- The system after a list of moves, `none` when one of them is not enabled. -/
def Sys.play (s : Sys K R Tag Ans Out Mem Job ρ) :
    List (Move Ans Job) → Option (Sys K R Tag Ans Out Mem Job ρ)
  | [] => some s
  | m :: ms => (s.move sh body m).bind fun s' => s'.play ms

/-- A line of a script: a job starts, or a task goes on. -/
inductive Cue (Ans : Ask → Type) (Job : Type)
  | start (j : Job)
  | go (i n : Nat) (answers : (q : Ask) → Ans q)

def Sys.cue (s : Sys K R Tag Ans Out Mem Job ρ) :
    Cue Ans Job → Option (Sys K R Tag Ans Out Mem Job ρ)
  | .start j => s.move sh body (.start j)
  | .go i n answers => s.go sh body answers i n

/-- The system after a script. -/
def Sys.script (s : Sys K R Tag Ans Out Mem Job ρ) (cues : List (Cue Ans Job)) :
    Option (Sys K R Tag Ans Out Mem Job ρ) :=
  cues.foldlM (Sys.cue sh body) s

/-- The same with a condition on each move. -/
def Sys.playBy (ok : Sys K R Tag Ans Out Mem Job ρ → Move Ans Job → Prop)
    [∀ s m, Decidable (ok s m)] (s : Sys K R Tag Ans Out Mem Job ρ) :
    List (Move Ans Job) → Option (Sys K R Tag Ans Out Mem Job ρ)
  | [] => some s
  | m :: ms => if ok s m then (s.move sh body m).bind fun s' => s'.playBy ok ms else none

variable {sh body}

theorem Sys.admits_true (s : Sys K R Tag Ans Out Mem Job ρ) {m : Move Ans Job} :
    s.Admits (fun _ _ => True) m := by
  cases m <;> simp [Sys.Admits]

theorem Sys.Admits.mono {C C' : Tag → Store K R → Prop} (hC : ∀ tag v, C tag v → C' tag v)
    {s : Sys K R Tag Ans Out Mem Job ρ} {m : Move Ans Job} (h : s.Admits C m) : s.Admits C' m := by
  cases m with
  | run i c => exact fun t tag run next fail ht hp => hC _ _ (h t tag run next fail ht hp)
  | start j => trivial
  | drop i => trivial

theorem ReachBy.reach {C : Tag → Store K R → Prop}
    {ok : Sys K R Tag Ans Out Mem Job ρ → Move Ans Job → Prop}
    {s₀ s : Sys K R Tag Ans Out Mem Job ρ} (h : ReachBy sh body ok s₀ s)
    (hok : ∀ s m, ok s m → s.Admits C m) : Reach sh body C s₀ s := by
  induction h with
  | init => exact .init
  | step _ hm hmove ih => exact .step ih (hok _ _ hm) hmove

theorem Reach.reachBy {C : Tag → Store K R → Prop} {s₀ s : Sys K R Tag Ans Out Mem Job ρ}
    (h : Reach sh body C s₀ s) : ReachBy sh body (fun s m => s.Admits C m) s₀ s := by
  induction h with
  | init => exact .init
  | step _ hadm hmove ih => exact .step ih hadm hmove

theorem ReachBy.mono {ok ok' : Sys K R Tag Ans Out Mem Job ρ → Move Ans Job → Prop}
    {s₀ s : Sys K R Tag Ans Out Mem Job ρ} (h : ReachBy sh body ok s₀ s)
    (hok : ∀ s m, ok s m → ok' s m) : ReachBy sh body ok' s₀ s := by
  induction h with
  | init => exact .init
  | step _ hm hmove ih => exact .step ih (hok _ _ hm) hmove

theorem ReachBy.playBy {ok : Sys K R Tag Ans Out Mem Job ρ → Move Ans Job → Prop}
    [∀ s m, Decidable (ok s m)] {s₀ s s' : Sys K R Tag Ans Out Mem Job ρ}
    {ms : List (Move Ans Job)} (hs : ReachBy sh body ok s₀ s)
    (h : s.playBy sh body ok ms = some s') : ReachBy sh body ok s₀ s' := by
  induction ms generalizing s with
  | nil =>
      cases h
      exact hs
  | cons m ms ih =>
      simp only [Sys.playBy] at h
      split at h
      case isFalse => cases h
      case isTrue hok =>
        obtain ⟨s₁, hm, h⟩ := Option.bind_eq_some_iff.1 h
        exact ih (.step hs hok hm) h

theorem ReachBy.played {ok : Sys K R Tag Ans Out Mem Job ρ → Move Ans Job → Prop}
    [∀ s m, Decidable (ok s m)] {s₀ : Sys K R Tag Ans Out Mem Job ρ} (ms : List (Move Ans Job))
    {P : Sys K R Tag Ans Out Mem Job ρ → Prop} [DecidablePred P]
    (h : ((s₀.playBy sh body ok ms).any fun s => decide (P s)) = true) :
    ∃ s, ReachBy sh body ok s₀ s ∧ P s := by
  obtain ⟨s, hs, hP⟩ := (Option.any_eq_true _ _).1 h
  exact ⟨s, ReachBy.playBy .init hs, of_decide_eq_true hP⟩

theorem Reach.play {s₀ s s' : Sys K R Tag Ans Out Mem Job ρ} {ms : List (Move Ans Job)}
    (hs : Reach sh body (fun _ _ => True) s₀ s) (h : s.play sh body ms = some s') :
    Reach sh body (fun _ _ => True) s₀ s' := by
  induction ms generalizing s with
  | nil =>
      cases h
      exact hs
  | cons m ms ih =>
      simp only [Sys.play] at h
      cases hm : s.move sh body m with
      | none => simp [hm] at h
      | some s₁ =>
          rw [hm] at h
          exact ih (.step hs s.admits_true hm) h

/-- A state that moves lead to, with what can be read off it. -/
theorem Reach.played {s₀ : Sys K R Tag Ans Out Mem Job ρ} (ms : List (Move Ans Job))
    {P : Sys K R Tag Ans Out Mem Job ρ → Prop} [DecidablePred P]
    (h : ((s₀.play sh body ms).any fun s => decide (P s)) = true) :
    ∃ s, Reach sh body (fun _ _ => True) s₀ s ∧ P s := by
  obtain ⟨s, hs, hP⟩ := (Option.any_eq_true _ _).1 h
  exact ⟨s, Reach.play .init hs, of_decide_eq_true hP⟩

section

omit [DecidableEq T] [∀ t, DecidableEq (K t)]

/-- Where every task has a result, all have returned. -/
theorem Sys.returned_of_map {s : Sys K R Tag Ans Out Mem Job ρ} {jobs : List (Job × ρ)}
    (h : s.tasks.map (fun t => (t.job, t.prog.result)) = jobs.map fun p => (p.1, some p.2)) :
    ∀ t ∈ s.tasks, ∃ r, t.prog = .ret r := by
  intro t ht
  have hmem : (t.job, t.prog.result) ∈ jobs.map fun p => (p.1, some p.2) :=
    h ▸ List.mem_map_of_mem (f := fun t => (t.job, t.prog.result)) ht
  obtain ⟨p, -, he⟩ := List.mem_map.1 hmem
  exact ⟨p.2, Prog.result_eq_some.1 (Prod.mk.inj he).2.symm⟩

end

theorem ReachBy.go {ok : Sys K R Tag Ans Out Mem Job ρ → Move Ans Job → Prop}
    (hrun : ∀ s i c, ok s (.run i c)) {s₀ s s' : Sys K R Tag Ans Out Mem Job ρ}
    {f : (q : Ask) → Ans q} {i n : Nat} (hs : ReachBy sh body ok s₀ s)
    (h : s.go sh body f i n = some s') : ReachBy sh body ok s₀ s' := by
  induction n generalizing s with
  | zero =>
      cases h
      exact hs
  | succ n ih =>
      obtain ⟨t, -, h⟩ := Option.bind_eq_some_iff.1 h
      split at h
      · cases h
        exact hs
      · obtain ⟨s₁, hm, h⟩ := Option.bind_eq_some_iff.1 h
        exact ih (.step hs (hrun s i _) hm) h

/-- A script whose starts are allowed. -/
theorem ReachBy.script {ok : Sys K R Tag Ans Out Mem Job ρ → Move Ans Job → Prop}
    (hrun : ∀ s i c, ok s (.run i c)) {s₀ s s' : Sys K R Tag Ans Out Mem Job ρ}
    {cues : List (Cue Ans Job)} (hstart : ∀ j, .start j ∈ cues → ∀ s, ok s (.start j))
    (hs : ReachBy sh body ok s₀ s) (h : s.script sh body cues = some s') :
    ReachBy sh body ok s₀ s' := by
  induction cues generalizing s with
  | nil =>
      cases h
      exact hs
  | cons cue cues ih =>
      obtain ⟨s₁, h₁, h⟩ := Option.bind_eq_some_iff.1 h
      refine ih (fun j hj => hstart j (List.mem_cons_of_mem _ hj)) ?_ h
      cases cue with
      | start j => exact .step hs (hstart j List.mem_cons_self s) h₁
      | go i n answers => exact hs.go hrun h₁

theorem ReachBy.scripted {ok : Sys K R Tag Ans Out Mem Job ρ → Move Ans Job → Prop}
    (hrun : ∀ s i c, ok s (.run i c)) {s₀ : Sys K R Tag Ans Out Mem Job ρ}
    (cues : List (Cue Ans Job)) (hstart : ∀ j, .start j ∈ cues → ∀ s, ok s (.start j))
    {P : Sys K R Tag Ans Out Mem Job ρ → Prop} [DecidablePred P]
    (h : ((s₀.script sh body cues).any fun s => decide (P s)) = true) :
    ∃ s, ReachBy sh body ok s₀ s ∧ P s := by
  obtain ⟨s, hs, hP⟩ := (Option.any_eq_true _ _).1 h
  exact ⟨s, ReachBy.script hrun hstart .init hs, of_decide_eq_true hP⟩

theorem Reach.go {s₀ s s' : Sys K R Tag Ans Out Mem Job ρ} {f : (q : Ask) → Ans q} {i n : Nat}
    (hs : Reach sh body (fun _ _ => True) s₀ s) (h : s.go sh body f i n = some s') :
    Reach sh body (fun _ _ => True) s₀ s' :=
  (ReachBy.go (fun s _ _ => s.admits_true) hs.reachBy h).reach fun _ _ hm => hm

theorem Reach.script {s₀ s s' : Sys K R Tag Ans Out Mem Job ρ} {cues : List (Cue Ans Job)}
    (hs : Reach sh body (fun _ _ => True) s₀ s) (h : s.script sh body cues = some s') :
    Reach sh body (fun _ _ => True) s₀ s' :=
  (ReachBy.script (fun s _ _ => s.admits_true) (fun _ _ s => s.admits_true) hs.reachBy h).reach
    fun _ _ hm => hm

/-- A state a script leads to, with what can be read off it. -/
theorem Reach.scripted {s₀ : Sys K R Tag Ans Out Mem Job ρ} (cues : List (Cue Ans Job))
    {P : Sys K R Tag Ans Out Mem Job ρ → Prop} [DecidablePred P]
    (h : ((s₀.script sh body cues).any fun s => decide (P s)) = true) :
    ∃ s, Reach sh body (fun _ _ => True) s₀ s ∧ P s := by
  obtain ⟨s, hs, hP⟩ := (Option.any_eq_true _ _).1 h
  exact ⟨s, Reach.script .init hs, of_decide_eq_true hP⟩

end

end ReadCommitted
