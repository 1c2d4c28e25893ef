import Dd2Server.ReadCommitted.Transaction

/-!
# A program on a database of its own

`Prog.alone` is what a program answers when nobody else is there and nothing fails.  It is where the
one task of a system ends (`Sys.go_alone`), and it is computed along the sequential composition.
-/

namespace ReadCommitted

variable {T : Type} {K R : T → Type} [DecidableEq T] [∀ t, DecidableEq (K t)]
  {Tag Ask Act Mem Job ρ α β ε ε' : Type} {Ans : Ask → Type} {Out : Act → Type}

/-- The answer of the program after the writes `ws` of its transaction, with those writes and the
committed rows it leaves; `none` where it would use the shared memory. -/
def Prog.alone (f : (q : Ask) → Ans q) :
    Prog K R Tag Ans Out α → List (Write K R) → Store K R →
    Option (α × List (Write K R) × Store K R)
  | .ret a, ws, db => some (a, ws, db)
  | .stmt _ run next fail, ws, db =>
      match run (Store.view ws db) with
      | some e => (next (Store.view ws db)).alone f (e.writes ++ ws) db
      | none => fail.alone f [] db
  | .read _ next _, ws, db => (next db).alone f ws db
  | .commit next _, ws, db => next.alone f [] (Store.view ws db)
  | .rollback next, _, db => next.alone f [] db
  | .ask q next, ws, db => (next (f q)).alone f ws db
  | .act _ _, _, _ => none

section

variable {f : (q : Ask) → Ans q} {ws : List (Write K R)} {db : Store K R}

theorem Prog.alone_bind (p : Prog K R Tag Ans Out β) (k : β → Prog K R Tag Ans Out α) :
    (p.bind k).alone f ws db =
      (p.alone f ws db).bind fun x => (k x.1).alone f x.2.1 x.2.2 := by
  induction p generalizing ws db with
  | ret a => rfl
  | stmt tag run next fail ihn ihf =>
      simp only [Prog.bind, Prog.alone]
      cases run (Store.view ws db) with
      | some e => exact ihn _
      | none => exact ihf
  | read tag next fail ihn ihf => exact ihn _
  | commit next fail ihn ihf => exact ihn
  | rollback next ih => exact ih
  | ask q next ih => exact ih _
  | act a next ih => rfl

/-! ## The one task of a system -/

theorem grants_nil (asked : List (Lock K)) : grants [] asked = true := by
  simp [grants]

/-- A system whose one task has come so far. -/
def Sys.solo (db : Store K R) (mem : Mem) (j : Job) (p : Prog K R Tag Ans Out ρ)
    (l : Local K R Tag Ans Out) : Sys K R Tag Ans Out Mem Job ρ where
  db := db
  mem := mem
  tasks := [{ job := j, prog := p, loc := l }]

theorem Sys.solo_move {sh : Shared K R Tag Ans Out Mem} {body : Job → Prog K R Tag Ans Out ρ}
    {db db' : Store K R} {mem mem' : Mem} {j : Job} {p p' : Prog K R Tag Ans Out ρ}
    {l l' : Local K R Tag Ans Out} {c : Choice Ans}
    (h : advance sh [] db mem p l c = some (db', mem', p', l')) :
    (Sys.solo db mem j p l).move sh body (.run 0 c) = some (Sys.solo db' mem' j p' l') := by
  have hothers : (Sys.solo db mem j p l).heldByOthers 0 = [] := rfl
  have htask : (Sys.solo db mem j p l).tasks[0]? = some { job := j, prog := p, loc := l } := rfl
  simp only [Sys.move, htask, hothers, Option.bind_eq_bind, Option.bind_some]
  rw [show advance sh [] (Sys.solo db mem j p l).db (Sys.solo db mem j p l).mem p l c =
    some (db', mem', p', l') from h]
  rfl

theorem Sys.solo_go {sh : Shared K R Tag Ans Out Mem} {body : Job → Prog K R Tag Ans Out ρ}
    {db db' : Store K R} {mem mem' : Mem} {j : Job} {p p' : Prog K R Tag Ans Out ρ}
    {l l' : Local K R Tag Ans Out} {n : Nat} (hp : p.result = none)
    (h : advance sh [] db mem p l (p.onward f) = some (db', mem', p', l')) :
    (Sys.solo db mem j p l).go sh body f 0 (n + 1) =
      (Sys.solo db' mem' j p' l').go sh body f 0 n := by
  have hmove : (Sys.solo db mem j p l).move sh body (.run 0 (p.onward f)) = _ := Sys.solo_move h
  have hgo : (Sys.solo db mem j p l).go sh body f 0 (n + 1) =
      ((Sys.solo db mem j p l).move sh body (.run 0 (p.onward f))).bind (Sys.go sh body f 0 n) := by
    cases p with
    | ret b => cases hp
    | stmt tag run next fail => rfl
    | read tag next fail => rfl
    | commit next fail => rfl
    | rollback next => rfl
    | ask q next => rfl
    | act a next => rfl
  rw [hgo, hmove]
  rfl

/-- The one task of a system ends with that answer. -/
theorem Sys.go_alone {sh : Shared K R Tag Ans Out Mem} {body : Job → Prog K R Tag Ans Out ρ}
    {mem : Mem} {j : Job} {p : Prog K R Tag Ans Out ρ} {l : Local K R Tag Ans Out}
    {a : ρ} {ws : List (Write K R)} {db' : Store K R}
    (h : p.alone f l.writes db = some (a, ws, db')) :
    ∃ n l', (Sys.solo db mem j p l).go sh body f 0 n = some (Sys.solo db' mem j (.ret a) l') := by
  induction p generalizing l db with
  | ret b =>
      cases h
      exact ⟨0, l, rfl⟩
  | stmt tag run next fail ihn ihf =>
      simp only [Prog.alone] at h
      cases he : run (Store.view l.writes db) with
      | some e =>
          rw [he] at h
          obtain ⟨n, l', hgo⟩ := ihn _ (l := l.ran tag (Store.view l.writes db) e) h
          refine ⟨n + 1, l', (Sys.solo_go rfl ?_).trans hgo⟩
          simp only [advance, Prog.onward, he, grants_nil, if_true]
      | none =>
          rw [he] at h
          obtain ⟨n, l', hgo⟩ := ihf (l := l.ended (.rejected tag (Store.view l.writes db))) h
          refine ⟨n + 1, l', (Sys.solo_go rfl ?_).trans hgo⟩
          simp only [advance, Prog.onward, he]
  | read tag next fail ihn ihf =>
      obtain ⟨n, l', hgo⟩ := ihn db (l := l.noted _) h
      exact ⟨n + 1, l', (Sys.solo_go rfl rfl).trans hgo⟩
  | commit next fail ihn ihf =>
      obtain ⟨n, l', hgo⟩ := ihn (l := l.ended _) h
      exact ⟨n + 1, l', (Sys.solo_go rfl rfl).trans hgo⟩
  | rollback next ih =>
      obtain ⟨n, l', hgo⟩ := ih (l := l.rolledBack) h
      exact ⟨n + 1, l', (Sys.solo_go rfl rfl).trans hgo⟩
  | ask q next ih =>
      obtain ⟨n, l', hgo⟩ := ih (f q) (l := l.noted _) h
      exact ⟨n + 1, l', (Sys.solo_go rfl rfl).trans hgo⟩
  | act a next ih => cases h

end

/-! ## Queries -/

/-- A query goes on from the result of the one before it. -/
theorem Prog.alone_seq {f : (q : Ask) → Ans q} {ws ws' : List (Write K R)} {db db' : Store K R}
    {x : ExceptT ε (Prog K R Tag Ans Out) β} {b : β}
    (h : x.run.alone f ws db = some (.ok b, ws', db'))
    (k : β → ExceptT ε (Prog K R Tag Ans Out) α) :
    (x >>= k).run.alone f ws db = (k b).run.alone f ws' db' := by
  have hrun : (x >>= k).run = x.run.bind (ExceptT.bindCont k) := rfl
  rw [hrun, Prog.alone_bind, h]
  rfl

/-- A statement leaves its writes to the transaction. -/
theorem Prog.alone_query {f : (q : Ask) → Ans q} {ws : List (Write K R)}
    {db : Store K R} {dbError : ε} {s : Stmt K R Tag β} {e : Effect K R} {b : β}
    (h : s.run (Store.view ws db) = some (e, b)) :
    (query dbError s : ExceptT ε (Prog K R Tag Ans Out) β).run.alone f ws db =
      some (.ok b, e.writes ++ ws, db) := by
  simp only [query, ExceptT.run, ExceptT.mk, Stmt.exec, Prog.bind, Prog.alone, h, Option.map_some]
  rfl

/-- The answer of a query on a database, when nobody else is there and nothing fails. -/
def answer (f : (q : Ask) → Ans q) (x : ExceptT ε (Prog K R Tag Ans Out) α) (db : Store K R) :
    Option (Except ε α) := (x.run.alone f [] db).map Prod.fst

end ReadCommitted
