import Dd2Server.ReadCommitted.Transaction

/-!
# Programs that write to few tables

A program is confined to tables when its statements write to no other.  Such a program keeps every
protocol that speaks of other tables only: what it does need not be looked at.
-/

namespace ReadCommitted

variable {T : Type} {K R : T → Type}
  {Tag Ask Act α β ε ε' : Type} {Ans : Ask → Type} {Out : Act → Type} {W : T → Prop}

/-- Every write is to one of the tables. -/
def Among (W : T → Prop) (ws : List (Write K R)) : Prop := ∀ w ∈ ws, W w.row.table

theorem Among.nil : Among W ([] : List (Write K R)) := fun _ h => nomatch h

theorem Among.append {ws ws' : List (Write K R)} (h : Among W ws) (h' : Among W ws') :
    Among W (ws ++ ws') := by
  intro w hw
  rcases List.mem_append.1 hw with hw | hw
  · exact h w hw
  · exact h' w hw

namespace Prog

/-- Every statement of the program writes to the tables only, whatever it sees. -/
def Confined (W : T → Prop) : Prog K R Tag Ans Out α → Prop
  | .ret _ => True
  | .stmt _ run next fail =>
      (∀ v e, run v = some e → Among W e.writes) ∧ (∀ v, (next v).Confined W) ∧
        fail.Confined W
  | .read _ next fail => (∀ v, (next v).Confined W) ∧ fail.Confined W
  | .commit next fail => next.Confined W ∧ fail.Confined W
  | .rollback next => next.Confined W
  | .ask _ next => ∀ a, (next a).Confined W
  | .act _ next => ∀ o, (next o).Confined W

theorem Confined.bind {p : Prog K R Tag Ans Out α} {k : α → Prog K R Tag Ans Out β}
    (hp : p.Confined W) (hk : ∀ a, (k a).Confined W) : (p.bind k).Confined W := by
  induction p with
  | ret a => exact hk a
  | stmt tag run next fail ihn ihf => exact ⟨hp.1, fun v => ihn v (hp.2.1 v), ihf hp.2.2⟩
  | read tag next fail ihn ihf => exact ⟨fun v => ihn v (hp.1 v), ihf hp.2⟩
  | commit next fail ihn ihf => exact ⟨ihn hp.1, ihf hp.2⟩
  | rollback next ih => exact ih hp
  | ask q next ih => exact fun a => ih a (hp a)
  | act a next ih => exact fun o => ih o (hp o)

end Prog

/-! ## Confined programs that may stop with an error -/

/-- The program writes to the tables only. -/
def WritesTo (W : T → Prop) (x : ExceptT ε (Prog K R Tag Ans Out) α) : Prop := x.run.Confined W

namespace WritesTo

theorem pure {a : α} : WritesTo W (Pure.pure a : ExceptT ε (Prog K R Tag Ans Out) α) := trivial

theorem throw {e : ε} :
    WritesTo W (MonadExcept.throw e : ExceptT ε (Prog K R Tag Ans Out) α) := trivial

theorem result {r : Except ε α} :
    WritesTo W (ExceptT.mk (.ret r) : ExceptT ε (Prog K R Tag Ans Out) α) := trivial

theorem bind {x : ExceptT ε (Prog K R Tag Ans Out) β}
    {f : β → ExceptT ε (Prog K R Tag Ans Out) α} (hx : WritesTo W x)
    (hf : ∀ b, WritesTo W (f b)) : WritesTo W (x >>= f) := by
  have hrun : (x >>= f).run = x.run.bind (ExceptT.bindCont f) := rfl
  unfold WritesTo
  rw [hrun]
  refine Prog.Confined.bind hx fun r => ?_
  cases r with
  | ok b => exact hf b
  | error e => trivial

theorem adapt {f : ε' → ε} {x : ExceptT ε' (Prog K R Tag Ans Out) α} (h : WritesTo W x) :
    WritesTo W (x.adapt f) :=
  Prog.Confined.bind h fun _ => trivial

theorem query {dbError : ε} {s : Stmt K R Tag α}
    (h : ∀ v e a, s.run v = some (e, a) → Among W e.writes) :
    WritesTo W (ReadCommitted.query dbError s : ExceptT ε (Prog K R Tag Ans Out) α) := by
  refine ⟨fun v e he => ?_, fun _ => trivial, trivial⟩
  obtain ⟨⟨e', a⟩, hrun, rfl⟩ := Option.map_eq_some_iff.1 he
  exact h v e' a hrun

theorem ask {q : Ask} :
    WritesTo W (ExceptT.lift (.ask q .ret) : ExceptT ε (Prog K R Tag Ans Out) (Ans q)) :=
  fun _ => trivial

theorem commit {dbError : ε} :
    WritesTo W (ReadCommitted.commit dbError : ExceptT ε (Prog K R Tag Ans Out) Unit) :=
  ⟨trivial, trivial⟩

theorem transaction {x : ExceptT ε (Prog K R Tag Ans Out) α} (h : WritesTo W x) :
    WritesTo W (ReadCommitted.transaction x) :=
  Prog.Confined.bind h fun _ => trivial

theorem forM {γ : Type} {f : γ → ExceptT ε (Prog K R Tag Ans Out) PUnit}
    (hf : ∀ c, WritesTo W (f c)) (cs : List γ) : WritesTo W (cs.forM f) := by
  induction cs with
  | nil => exact pure
  | cons c cs ih => exact bind (hf c) fun _ => ih

end WritesTo

/-! ## Every protocol about other tables is kept -/

variable [DecidableEq T] [∀ t, DecidableEq (K t)]

theorem Among.view_table {ws : List (Write K R)} (h : Among W ws) (db : Store K R) {t : T}
    (ht : ¬W t) : Store.view ws db t = db t := by
  induction ws with
  | nil => rfl
  | cons w ws ih =>
      have hne : t ≠ w.row.table := by
        rintro rfl
        exact ht (h w List.mem_cons_self)
      rw [Store.view_cons, Store.put, Function.update_of_ne hne]
      exact ih fun w' hw => h w' (List.mem_cons_of_mem w hw)

variable {P : Protocol K R} {C : Tag → Store K R → Prop} {G : Promise K R Tag Ans Out}

/-- The protocol does not look at the tables. -/
structure Protocol.Ignores (P : Protocol K R) (W : T → Prop) : Prop where
  inv : ∀ {db db' : Store K R}, (∀ t, ¬W t → db' t = db t) → P.Inv db → P.Inv db'
  stay : ∀ {db db' : Store K R}, (∀ t, ¬W t → db' t = db t) → P.stay db db'
  keep : ∀ {db db' : Store K R} (k : RowKey K), (∀ t, ¬W t → db' t = db t) →
    P.keep k db db'

theorem Protocol.Ignores.guarantee (hP : P.Ignores W) {ls : List (Lock K)} {db : Store K R}
    {ws : List (Write K R)} (hinv : P.Inv db) (hws : Among W ws) :
    Guarantee P ls db (Store.view ws db) where
  inv := hP.inv (fun _ ht => hws.view_table db ht) hinv
  stay := hP.stay fun _ ht => hws.view_table db ht
  keep k := .inr (hP.keep k fun _ ht => hws.view_table db ht)

/-- A program that is confined to tables the protocol ignores is safe.  Of a commit it owes only
what holds of every pair of states that agree on the other tables. -/
theorem Prog.Confined.safe (hP : P.Ignores W)
    (hG : ∀ log db db', P.Inv db → (∀ t, ¬W t → db' t = db t) → G log db db')
    (hact : ∀ log a, G.act log a) {p : Prog K R Tag Ans Out α} {l : Local K R Tag Ans Out}
    {db : Store K R} (hp : p.Confined W) (hl : Among W l.writes) :
    Safe P C G (fun _ _ _ => True) p l db := by
  induction p generalizing l db with
  | ret a => exact fun _ _ => trivial
  | stmt tag run next fail ihn ihf =>
      intro db' hr
      refine ⟨ihf hp.2.2 .nil, fun _ => ?_⟩
      cases he : run (Store.view l.writes db') with
      | none => exact ihf hp.2.2 .nil
      | some e => exact ihn _ (hp.2.1 _) ((hp.1 _ e he).append hl)
  | read tag next fail ihn ihf => exact fun _ _ => ⟨ihf hp.2 hl, ihn _ (hp.1 _) hl⟩
  | commit next fail ihn ihf =>
      intro db' hr
      exact ⟨ihf hp.2 .nil, hP.guarantee hr.inv hl,
        hG _ _ _ hr.inv fun _ ht => hl.view_table db' ht, ihn hp.1 .nil⟩
  | rollback next ih => exact fun _ _ => ih hp .nil
  | ask q next ih => exact fun _ _ a => ih a (hp a) hl
  | act a next ih => exact fun _ _ => ⟨hact _ a, fun o => ih o (hp o) hl⟩

end ReadCommitted
