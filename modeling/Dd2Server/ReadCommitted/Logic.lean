import Dd2Server.ReadCommitted.Program

/-!
# Rely and guarantee for READ COMMITTED programs

A `Protocol` says what the commits of one task leave to the others: an invariant of the committed
rows, a relation `stay` every commit respects, and for each row a relation `keep` that nobody
breaks while somebody else holds the row exclusively.  Such a lock thereby protects more than its
own row, as the lock of a parent row does for its children.

`Safe` is the weakest precondition of a program under interference: at every point the committed
rows may first move as `Rely` allows, and every `COMMIT` must give what `Rely` promises to the
others and fulfil a predicate `G` on the task's own log.  `Reach.sound` turns it into an invariant
of every interleaving.
-/

namespace ReadCommitted

variable {T : Type} {K R : T → Type}
  {Tag Ask Act Mem Job ρ α β : Type} {Ans : Ask → Type} {Out : Act → Type}

/-! ## What a task owes -/

/-- What a task owes, given its log: of each commit, and of each operation on the shared memory. -/
structure Promise (K R : T → Type) (Tag : Type) (Ans : Ask → Type) (Out : Act → Type) where
  commit : List (Event K R Tag Ans Out) → Store K R → Store K R → Prop
  act : List (Event K R Tag Ans Out) → Act → Prop := fun _ _ => True

instance : CoeFun (Promise K R Tag Ans Out) fun _ =>
    List (Event K R Tag Ans Out) → Store K R → Store K R → Prop := ⟨Promise.commit⟩

variable {G : Promise K R Tag Ans Out}

/-- Every commit and every operation in the log fulfilled the promise when it took place. -/
structure Kept (G : Promise K R Tag Ans Out) (log : List (Event K R Tag Ans Out)) : Prop where
  commit : ∀ newer pre post older, log = newer ++ .committed pre post :: older →
    G older pre post
  act : ∀ newer a o older, log = newer ++ .acted a o :: older → G.act older a

theorem Kept.nil : Kept G [] where
  commit newer pre post older h := by cases newer <;> cases h
  act newer a o older h := by cases newer <;> cases h

theorem Kept.cons {log : List (Event K R Tag Ans Out)} {ev : Event K R Tag Ans Out}
    (h : Kept G log) (hev : ∀ pre post, ev = .committed pre post → G log pre post)
    (hact : ∀ a o, ev = .acted a o → G.act log a) : Kept G (ev :: log) where
  commit newer pre post older he := by
    cases newer with
    | nil =>
        obtain ⟨rfl, rfl⟩ := List.cons.inj he
        exact hev pre post rfl
    | cons e newer => exact h.commit newer pre post older (List.cons.inj he).2
  act newer a o older he := by
    cases newer with
    | nil =>
        obtain ⟨rfl, rfl⟩ := List.cons.inj he
        exact hact a o rfl
    | cons e newer => exact h.act newer a o older (List.cons.inj he).2

theorem Kept.tail {log : List (Event K R Tag Ans Out)} {ev : Event K R Tag Ans Out}
    (h : Kept G (ev :: log)) : Kept G log where
  commit newer pre post older he := h.commit (ev :: newer) pre post older (congrArg (ev :: ·) he)
  act newer a o older he := h.act (ev :: newer) a o older (congrArg (ev :: ·) he)

theorem Kept.older {newer older : List (Event K R Tag Ans Out)} (h : Kept G (newer ++ older)) :
    Kept G older := by
  induction newer with
  | nil => exact h
  | cons ev newer ih => exact ih h.tail

/-- Every written row is locked exclusively. -/
def Local.Covered (l : Local K R Tag Ans Out) : Prop :=
  ∀ w ∈ l.writes, ∃ x ∈ l.locks, x.row = w.row ∧ x.mode.exclusive = true

theorem Local.Covered.of_nil {l : Local K R Tag Ans Out} (h : l.writes = []) : l.Covered := by
  intro w hw
  rw [h] at hw
  cases hw

/-! ## What tasks leave each other -/

/-- What the commits of a task leave to the others. -/
structure Protocol (K R : T → Type) where
  /-- Holds of the committed rows at all times. -/
  Inv : Store K R → Prop
  /-- Holds between two committed states, the earlier first. -/
  stay : Store K R → Store K R → Prop
  /-- Holds besides while somebody else holds the row exclusively. -/
  keep : RowKey K → Store K R → Store K R → Prop
  stay_refl : ∀ db, stay db db
  stay_trans : ∀ {a b c}, stay a b → stay b c → stay a c
  keep_refl : ∀ k db, keep k db db
  keep_trans : ∀ {k a b c}, keep k a b → keep k b c → keep k a c

variable (P : Protocol K R)

/-- What a commit that holds the locks `ls` leaves to the others. -/
structure Guarantee (ls : List (Lock K)) (db db' : Store K R) : Prop where
  inv : P.Inv db'
  stay : P.stay db db'
  keep : ∀ k, (∃ x ∈ ls, x.row = k ∧ x.mode ≠ .keyShare) ∨ P.keep k db db'

/-- The protocol of tasks that leave each other nothing but the rows they lock. -/
def Protocol.free : Protocol K R where
  Inv _ := True
  stay _ _ := True
  keep _ _ _ := True
  stay_refl _ := trivial
  stay_trans _ _ := trivial
  keep_refl _ _ := trivial
  keep_trans _ _ := trivial

variable {P}

theorem Guarantee.refl {ls : List (Lock K)} {db : Store K R} (h : P.Inv db) :
    Guarantee P ls db db :=
  ⟨h, P.stay_refl db, fun k => .inr (P.keep_refl k db)⟩

theorem Guarantee.free (ls : List (Lock K)) (db db' : Store K R) :
    Guarantee .free ls db db' := ⟨trivial, trivial, fun _ => .inr trivial⟩

variable (P) [∀ t, DecidableEq (K t)]

/-- How the committed rows may move while a task holds the locks `ls`. -/
structure Rely (ls : List (Lock K)) (db db' : Store K R) : Prop where
  inv : P.Inv db'
  stay : P.stay db db'
  row : ∀ x ∈ ls, x.mode ≠ .keyShare → db'.get x.row = db.get x.row
  keep : ∀ x ∈ ls, x.mode.exclusive = true → P.keep x.row db db'

variable {P}

theorem Rely.refl {ls : List (Lock K)} {db : Store K R} (h : P.Inv db) : Rely P ls db db :=
  ⟨h, P.stay_refl db, fun _ _ _ => rfl, fun x _ _ => P.keep_refl x.row db⟩

theorem Rely.trans {ls : List (Lock K)} {a b c : Store K R} (h : Rely P ls a b)
    (h' : Rely P ls b c) : Rely P ls a c where
  inv := h'.inv
  stay := P.stay_trans h.stay h'.stay
  row x hx hm := (h'.row x hx hm).trans (h.row x hx hm)
  keep x hx hm := P.keep_trans (h.keep x hx hm) (h'.keep x hx hm)

/-- More locks, less interference. -/
theorem Rely.mono {ls ls' : List (Lock K)} {a b : Store K R} (h : Rely P ls' a b)
    (hs : ∀ x ∈ ls, x ∈ ls') : Rely P ls a b where
  inv := h.inv
  stay := h.stay
  row x hx hm := h.row x (hs x hx) hm
  keep x hx hm := h.keep x (hs x hx) hm

theorem Write.lock_exclusive (v : Store K R) (w : Write K R) :
    (w.lock v).mode.exclusive = true := by
  simp only [Write.lock]
  split <;> rfl

/-! ## Safe programs -/

variable (P) [DecidableEq T]

/-- The program keeps the protocol from here on, fulfils `G` at each commit and ends in `Q`. -/
def Safe (C : Tag → Store K R → Prop) (G : Promise K R Tag Ans Out)
    (Q : α → Local K R Tag Ans Out → Store K R → Prop) :
    Prog K R Tag Ans Out α → Local K R Tag Ans Out → Store K R → Prop
  | .ret a, l, db => ∀ db', Rely P l.locks db db' → Q a l db'
  | .stmt tag run next fail, l, db => ∀ db', Rely P l.locks db db' →
      Safe C G Q fail (l.ended .failed) db' ∧
      (C tag (Store.view l.writes db') →
        match run (Store.view l.writes db') with
        | none => Safe C G Q fail (l.ended (.rejected tag (Store.view l.writes db'))) db'
        | some e => Safe C G Q (next (Store.view l.writes db'))
            (l.ran tag (Store.view l.writes db') e) db')
  | .read tag next fail, l, db => ∀ db', Rely P l.locks db db' →
      Safe C G Q fail (l.noted .failed) db' ∧ Safe C G Q (next db') (l.noted (.read tag db')) db'
  | .commit next fail, l, db => ∀ db', Rely P l.locks db db' →
      Safe C G Q fail (l.ended .failed) db' ∧
      Guarantee P l.locks db' (Store.view l.writes db') ∧
      G l.log db' (Store.view l.writes db') ∧
      Safe C G Q next (l.ended (.committed db' (Store.view l.writes db')))
        (Store.view l.writes db')
  | .rollback next, l, db => ∀ db', Rely P l.locks db db' → Safe C G Q next l.rolledBack db'
  | .ask q next, l, db => ∀ db', Rely P l.locks db db' →
      ∀ a, Safe C G Q (next a) (l.noted (.answered q a)) db'
  | .act a next, l, db => ∀ db', Rely P l.locks db db' →
      G.act l.log a ∧ ∀ o, Safe C G Q (next o) (l.noted (.acted a o)) db'

variable {P} {C : Tag → Store K R → Prop}
  {Q : α → Local K R Tag Ans Out → Store K R → Prop}

/-- A safe program stays safe under interference. -/
theorem Safe.rely {p : Prog K R Tag Ans Out α} {l : Local K R Tag Ans Out} {db db' : Store K R}
    (h : Safe P C G Q p l db) (hr : Rely P l.locks db db') : Safe P C G Q p l db' := by
  cases p <;> exact fun db'' hr' => h db'' (hr.trans hr')

/-- The rule of sequential composition. -/
theorem Safe.bind {Q' : β → Local K R Tag Ans Out → Store K R → Prop}
    {p : Prog K R Tag Ans Out β} {k : β → Prog K R Tag Ans Out α} {l : Local K R Tag Ans Out}
    {db : Store K R} (h : Safe P C G Q' p l db)
    (hk : ∀ b l' db', P.Inv db' → Q' b l' db' → Safe P C G Q (k b) l' db')
    (hinv : P.Inv db) : Safe P C G Q (p.bind k) l db := by
  induction p generalizing l db with
  | ret b => exact hk b l db hinv (h db (.refl hinv))
  | stmt tag run next fail ihn ihf =>
      intro db' hr
      obtain ⟨hf, hs⟩ := h db' hr
      refine ⟨ihf hf hr.inv, fun hC => ?_⟩
      have hs' := hs hC
      cases he : run (Store.view l.writes db') with
      | none =>
          simp only [he] at hs' ⊢
          exact ihf hs' hr.inv
      | some e =>
          simp only [he] at hs' ⊢
          exact ihn _ hs' hr.inv
  | read tag next fail ihn ihf =>
      intro db' hr
      obtain ⟨hf, hn⟩ := h db' hr
      exact ⟨ihf hf hr.inv, ihn _ hn hr.inv⟩
  | commit next fail ihn ihf =>
      intro db' hr
      obtain ⟨hf, hg, hG, hn⟩ := h db' hr
      exact ⟨ihf hf hr.inv, hg, hG, ihn hn hg.inv⟩
  | rollback next ih => exact fun db' hr => ih (h db' hr) hr.inv
  | ask q next ih => exact fun db' hr a => ih a (h db' hr a) hr.inv
  | act a next ih => exact fun db' hr => ⟨(h db' hr).1, fun o => ih o ((h db' hr).2 o) hr.inv⟩

/-- A weaker postcondition and weaker promises. -/
theorem Safe.mono {G' : Promise K R Tag Ans Out}
    {Q' : α → Local K R Tag Ans Out → Store K R → Prop}
    (hG : ∀ log pre post, G log pre post → G' log pre post)
    (hact : ∀ log a, G.act log a → G'.act log a)
    (hQ : ∀ a l db, Q a l db → Q' a l db) {p : Prog K R Tag Ans Out α}
    {l : Local K R Tag Ans Out} {db : Store K R} (h : Safe P C G Q p l db) :
    Safe P C G' Q' p l db := by
  induction p generalizing l db with
  | ret a => exact fun db' hr => hQ a l db' (h db' hr)
  | stmt tag run next fail ihn ihf =>
      intro db' hr
      obtain ⟨hf, hs⟩ := h db' hr
      refine ⟨ihf hf, fun hC => ?_⟩
      have hs' := hs hC
      cases he : run (Store.view l.writes db') with
      | none =>
          simp only [he] at hs' ⊢
          exact ihf hs'
      | some e =>
          simp only [he] at hs' ⊢
          exact ihn _ hs'
  | read tag next fail ihn ihf =>
      intro db' hr
      obtain ⟨hf, hn⟩ := h db' hr
      exact ⟨ihf hf, ihn _ hn⟩
  | commit next fail ihn ihf =>
      intro db' hr
      obtain ⟨hf, hg, hG', hn⟩ := h db' hr
      exact ⟨ihf hf, hg, hG _ _ _ hG', ihn hn⟩
  | rollback next ih => exact fun db' hr => ih (h db' hr)
  | ask q next ih => exact fun db' hr a => ih a (h db' hr a)
  | act a next ih =>
      exact fun db' hr => ⟨hact _ _ (h db' hr).1, fun o => ih o ((h db' hr).2 o)⟩

/-- A weaker postcondition. -/
theorem Safe.post {Q' : α → Local K R Tag Ans Out → Store K R → Prop}
    (hQ : ∀ a l db, Q a l db → Q' a l db) {p : Prog K R Tag Ans Out α}
    {l : Local K R Tag Ans Out} {db : Store K R} (h : Safe P C G Q p l db) : Safe P C G Q' p l db :=
  h.mono (fun _ _ _ hG => hG) (fun _ _ hact => hact) hQ

/-! ## Soundness -/

/-- A program that leaves the shared memory alone keeps what such programs keep. -/
theorem Safe.keeping {G' : Promise K R Tag Ans Out} {I : List (Event K R Tag Ans Out) → Prop}
    (hact : ∀ log a, ¬G.act log a)
    (hI : ∀ ev log, I log → (∀ a o, ev ≠ .acted a o) →
      (∀ pre post, ev = .committed pre post → G log pre post) → I (ev :: log))
    (hG : ∀ log pre post, I log → G log pre post → G' log pre post)
    {p : Prog K R Tag Ans Out α} {l : Local K R Tag Ans Out} {db : Store K R} (hl : I l.log)
    (h : Safe P C G Q p l db) : Safe P C G' (fun a l db => Q a l db ∧ I l.log) p l db := by
  induction p generalizing l db with
  | ret a => exact fun db' hr => ⟨h db' hr, hl⟩
  | stmt tag run next fail ihn ihf =>
      intro db' hr
      obtain ⟨hf, hs⟩ := h db' hr
      refine ⟨ihf (hI _ _ hl (by simp) (by simp)) hf, fun hC => ?_⟩
      have hs' := hs hC
      cases he : run (Store.view l.writes db') with
      | none =>
          simp only [he] at hs' ⊢
          exact ihf (hI _ _ hl (by simp) (by simp)) hs'
      | some e =>
          simp only [he] at hs' ⊢
          exact ihn _ (hI _ _ hl (by simp) (by simp)) hs'
  | read tag next fail ihn ihf =>
      intro db' hr
      obtain ⟨hf, hn⟩ := h db' hr
      exact ⟨ihf (hI _ _ hl (by simp) (by simp)) hf, ihn _ (hI _ _ hl (by simp) (by simp)) hn⟩
  | commit next fail ihn ihf =>
      intro db' hr
      obtain ⟨hf, hg, hG', hn⟩ := h db' hr
      refine ⟨ihf (hI _ _ hl (by simp) (by simp)) hf, hg, hG _ _ _ hl hG',
        ihn (hI _ _ hl (by simp) ?_) hn⟩
      intro pre post he
      cases he
      exact hG'
  | rollback next ih => exact fun db' hr => ih hl (h db' hr)
  | ask q next ih => exact fun db' hr a => ih a (hI _ _ hl (by simp) (by simp)) (h db' hr a)
  | act a next ih => exact fun db' hr => absurd (h db' hr).1 (hact _ _)

/-- What holds from an empty log holds after an older one. -/
theorem Safe.after {G' : Promise K R Tag Ans Out}
    {Q' : α → Local K R Tag Ans Out → Store K R → Prop} {old : List (Event K R Tag Ans Out)}
    (hG : ∀ new pre post, Kept G new → G new pre post → G' (new ++ old) pre post)
    (hact : ∀ new a, Kept G new → G.act new a → G'.act (new ++ old) a)
    (hQ : ∀ a l db, Kept G l.log → Q a l db → Q' a { l with log := l.log ++ old } db)
    {p : Prog K R Tag Ans Out α} {l : Local K R Tag Ans Out} {db : Store K R} (hl : Kept G l.log)
    (h : Safe P C G Q p l db) : Safe P C G' Q' p { l with log := l.log ++ old } db := by
  induction p generalizing l db with
  | ret a => exact fun db' hr => hQ a l db' hl (h db' hr)
  | stmt tag run next fail ihn ihf =>
      intro db' hr
      obtain ⟨hf, hs⟩ := h db' hr
      refine ⟨ihf (l := l.ended .failed) (hl.cons (by simp) (by simp)) hf, fun hC => ?_⟩
      have hs' := hs hC
      cases he : run (Store.view l.writes db') with
      | none =>
          simp only [he] at hs' ⊢
          exact ihf (l := l.ended _) (hl.cons (by simp) (by simp)) hs'
      | some e =>
          simp only [he] at hs' ⊢
          exact ihn _ (l := l.ran tag _ e) (hl.cons (by simp) (by simp)) hs'
  | read tag next fail ihn ihf =>
      intro db' hr
      obtain ⟨hf, hn⟩ := h db' hr
      exact ⟨ihf (l := l.noted .failed) (hl.cons (by simp) (by simp)) hf,
        ihn _ (l := l.noted _) (hl.cons (by simp) (by simp)) hn⟩
  | commit next fail ihn ihf =>
      intro db' hr
      obtain ⟨hf, hg, hG', hn⟩ := h db' hr
      refine ⟨ihf (l := l.ended .failed) (hl.cons (by simp) (by simp)) hf, hg, hG _ _ _ hl hG',
        ihn (l := l.ended _) (hl.cons ?_ (by simp)) hn⟩
      intro pre post he
      cases he
      exact hG'
  | rollback next ih => exact fun db' hr => ih (l := l.rolledBack) hl (h db' hr)
  | ask q next ih =>
      exact fun db' hr a => ih a (l := l.noted _) (hl.cons (by simp) (by simp)) (h db' hr a)
  | act a next ih =>
      intro db' hr
      obtain ⟨ha, hn⟩ := h db' hr
      refine ⟨hact _ _ hl ha, fun o => ih o (l := l.noted _) (hl.cons (by simp) ?_) (hn o)⟩
      intro a' o' he
      cases he
      exact ha

/-- A task that panics leaves its transaction. -/
theorem Safe.cut {n : Nat} {p : Prog K R Tag Ans Out α} {l : Local K R Tag Ans Out}
    {db : Store K R} (h : Safe P C G Q p l db) :
    Safe P C G (fun r l' db' => match r with
      | some a => Q a l' db'
      | none => l'.writes = [] ∧ l'.locks = []) (p.cut n) l db := by
  induction p generalizing l db n with
  | ret a => exact h
  | stmt tag run next fail ihn ihf =>
      cases n with
      | zero => exact fun _ _ _ _ => ⟨rfl, rfl⟩
      | succ n =>
          intro db' hr
          obtain ⟨hf, hs⟩ := h db' hr
          refine ⟨ihf hf, fun hC => ?_⟩
          have hs' := hs hC
          cases he : run (Store.view l.writes db') with
          | none =>
              simp only [he] at hs' ⊢
              exact ihf hs'
          | some e =>
              simp only [he] at hs' ⊢
              exact ihn _ hs'
  | read tag next fail ihn ihf =>
      cases n with
      | zero => exact fun _ _ _ _ => ⟨rfl, rfl⟩
      | succ n => exact fun db' hr => ⟨ihf (h db' hr).1, ihn _ (h db' hr).2⟩
  | commit next fail ihn ihf =>
      cases n with
      | zero => exact fun _ _ _ _ => ⟨rfl, rfl⟩
      | succ n =>
          intro db' hr
          obtain ⟨hf, hg, hG, hn⟩ := h db' hr
          exact ⟨ihf hf, hg, hG, ihn hn⟩
  | rollback next ih =>
      cases n with
      | zero => exact fun _ _ _ _ => ⟨rfl, rfl⟩
      | succ n => exact fun db' hr => ih (h db' hr)
  | ask q next ih =>
      cases n with
      | zero => exact fun _ _ _ _ => ⟨rfl, rfl⟩
      | succ n => exact fun db' hr a => ih a (h db' hr a)
  | act a next ih =>
      cases n with
      | zero => exact fun _ _ _ _ => ⟨rfl, rfl⟩
      | succ n => exact fun db' hr => ⟨(h db' hr).1, fun o => ih o ((h db' hr).2 o)⟩

theorem Local.Covered.ran {l : Local K R Tag Ans Out} (h : l.Covered) (tag : Tag)
    (v : Store K R) (e : Effect K R) : (l.ran tag v e).Covered := by
  intro w hw
  rcases List.mem_append.1 hw with hw | hw
  · exact ⟨w.lock v,
      List.mem_append_left _ (List.mem_append_left _ (List.mem_map.2 ⟨w, hw, rfl⟩)),
      rfl, w.lock_exclusive v⟩
  · obtain ⟨x, hx, hrow⟩ := h w hw
    exact ⟨x, List.mem_append_right _ hx, hrow⟩

/-- What one move of a safe task does: it stays safe, its new locks were granted, and the committed
rows changed only by a commit that fulfilled its promise. -/
structure Advanced (P : Protocol K R) (C : Tag → Store K R → Prop) (G : Promise K R Tag Ans Out)
    (Q : α → Local K R Tag Ans Out → Store K R → Prop) (held : List (Lock K))
    (db : Store K R) (l : Local K R Tag Ans Out) (db' : Store K R) (p' : Prog K R Tag Ans Out α)
    (l' : Local K R Tag Ans Out) : Prop where
  safe : Safe P C G Q p' l' db'
  covered : l'.Covered
  kept : Kept G l'.log
  locks : ∀ x ∈ l'.locks, x ∈ l.locks ∨ ∀ y ∈ held, x.compatible y = true
  change : db' = db ∨ Guarantee P l.locks db db' ∧ db' = Store.view l.writes db ∧
    G l.log db db' ∧ l'.log = .committed db db' :: l.log

section

variable {sh : Shared K R Tag Ans Out Mem}

theorem Mode.conflicts_comm (a b : Mode) : a.conflicts b = b.conflicts a := by
  cases a <;> cases b <;> rfl

theorem Mode.exclusive_conflicts {a b : Mode} (ha : a.exclusive = true) (hb : b ≠ .keyShare) :
    a.conflicts b = true := by
  cases a <;> cases b <;> simp_all [Mode.conflicts, Mode.exclusive]

theorem Mode.ne_keyShare {m : Mode} (h : m.exclusive = true) : m ≠ .keyShare := by
  rintro rfl
  cases h

theorem Lock.compatible_comm (x y : Lock K) : x.compatible y = y.compatible x := by
  simp only [Lock.compatible, ne_eq, eq_comm, Mode.conflicts_comm]

theorem Lock.compatible_eq_false {x y : Lock K} (h : x.row = y.row)
    (hm : x.mode.conflicts y.mode = true) : x.compatible y = false := by
  simp [Lock.compatible, h, hm]

theorem grants_iff {held asked : List (Lock K)} :
    grants held asked = true ↔ ∀ x ∈ asked, ∀ y ∈ held, x.compatible y = true := by
  simp [grants]

theorem Safe.advance {held : List (Lock K)} {db db' : Store K R} {mem mem' : Mem}
    {p p' : Prog K R Tag Ans Out α} {l l' : Local K R Tag Ans Out} {c : Choice Ans}
    (h : Safe P C G Q p l db) (hinv : P.Inv db) (hl : l.Covered) (hlog : Kept G l.log)
    (hC : ∀ tag run next fail, p = .stmt tag run next fail → C tag (Store.view l.writes db))
    (ha : advance sh held db mem p l c = some (db', mem', p', l')) :
    Advanced P C G Q held db l db' p' l' := by
  have hrefl : Rely P l.locks db db := .refl hinv
  cases p with
  | ret a => cases c <;> simp [ReadCommitted.advance] at ha
  | stmt tag run next fail =>
      obtain ⟨hf, hs⟩ := h db hrefl
      have hs' := hs (hC tag run next fail rfl)
      cases c with
      | answer f => simp [ReadCommitted.advance] at ha
      | fail =>
          simp only [ReadCommitted.advance, Option.some.injEq, Prod.mk.injEq] at ha
          obtain ⟨rfl, rfl, rfl, rfl⟩ := ha
          exact ⟨hf, .of_nil rfl, hlog.cons (by simp) (by simp), by simp [Local.ended],
            .inl rfl⟩
      | proceed =>
          cases he : run (Store.view l.writes db) with
          | none =>
              simp only [ReadCommitted.advance, he, Option.some.injEq, Prod.mk.injEq] at ha hs'
              obtain ⟨rfl, rfl, rfl, rfl⟩ := ha
              exact ⟨hs', .of_nil rfl, hlog.cons (by simp) (by simp), by simp [Local.ended],
                .inl rfl⟩
          | some e =>
              simp only [ReadCommitted.advance, he] at ha hs'
              split at ha
              case isFalse => cases ha
              case isTrue hg =>
                simp only [Option.some.injEq, Prod.mk.injEq] at ha
                obtain ⟨rfl, rfl, rfl, rfl⟩ := ha
                refine ⟨hs', hl.ran tag _ e, hlog.cons (by simp) (by simp), ?_, .inl rfl⟩
                intro x hx
                rcases List.mem_append.1 hx with hx | hx
                · exact .inr (grants_iff.1 hg x hx)
                · exact .inl hx
  | read tag next fail =>
      obtain ⟨hf, hn⟩ := h db hrefl
      cases c with
      | answer f => simp [ReadCommitted.advance] at ha
      | fail =>
          simp only [ReadCommitted.advance, Option.some.injEq, Prod.mk.injEq] at ha
          obtain ⟨rfl, rfl, rfl, rfl⟩ := ha
          exact ⟨hf, hl, hlog.cons (by simp) (by simp), fun x hx => .inl hx, .inl rfl⟩
      | proceed =>
          simp only [ReadCommitted.advance, Option.some.injEq, Prod.mk.injEq] at ha
          obtain ⟨rfl, rfl, rfl, rfl⟩ := ha
          exact ⟨hn, hl, hlog.cons (by simp) (by simp), fun x hx => .inl hx, .inl rfl⟩
  | commit next fail =>
      obtain ⟨hf, hg, hG, hn⟩ := h db hrefl
      cases c with
      | answer f => simp [ReadCommitted.advance] at ha
      | fail =>
          simp only [ReadCommitted.advance, Option.some.injEq, Prod.mk.injEq] at ha
          obtain ⟨rfl, rfl, rfl, rfl⟩ := ha
          exact ⟨hf, .of_nil rfl, hlog.cons (by simp) (by simp), by simp [Local.ended],
            .inl rfl⟩
      | proceed =>
          simp only [ReadCommitted.advance, Option.some.injEq, Prod.mk.injEq] at ha
          obtain ⟨rfl, rfl, rfl, rfl⟩ := ha
          refine ⟨hn, .of_nil rfl, hlog.cons ?_ (by simp), by simp [Local.ended],
            .inr ⟨hg, rfl, hG, rfl⟩⟩
          intro pre post he
          cases he
          exact hG
  | rollback next =>
      cases c with
      | answer f => simp [ReadCommitted.advance] at ha
      | fail => simp [ReadCommitted.advance] at ha
      | proceed =>
          simp only [ReadCommitted.advance, Option.some.injEq, Prod.mk.injEq] at ha
          obtain ⟨rfl, rfl, rfl, rfl⟩ := ha
          exact ⟨h db hrefl, .of_nil rfl, hlog, by simp [Local.rolledBack], .inl rfl⟩
  | ask q next =>
      cases c with
      | proceed => simp [ReadCommitted.advance] at ha
      | fail => simp [ReadCommitted.advance] at ha
      | answer f =>
          simp only [ReadCommitted.advance, Option.some.injEq, Prod.mk.injEq] at ha
          obtain ⟨rfl, rfl, rfl, rfl⟩ := ha
          exact ⟨h db hrefl (f q), hl, hlog.cons (by simp) (by simp),
            fun x hx => .inl hx, .inl rfl⟩
  | act a next =>
      cases c with
      | answer f => simp [ReadCommitted.advance] at ha
      | fail => simp [ReadCommitted.advance] at ha
      | proceed =>
          cases hp : sh.perform a mem with
          | none => simp [ReadCommitted.advance, hp] at ha
          | some r =>
              simp only [ReadCommitted.advance, hp, Option.map_some, Option.some.injEq,
                Prod.mk.injEq] at ha
              obtain ⟨rfl, rfl, rfl, rfl⟩ := ha
              obtain ⟨hact, hn⟩ := h db hrefl
              refine ⟨hn r.2, hl, hlog.cons (by simp) ?_, fun x hx => .inl hx, .inl rfl⟩
              intro a' o he
              cases he
              exact hact

/-- The commit of one task, as the others see it. -/
theorem Guarantee.rely {mine others : List (Lock K)} {ws : List (Write K R)} {db : Store K R}
    (h : Guarantee P mine db (Store.view ws db))
    (hcov : ∀ w ∈ ws, ∃ x ∈ mine, x.row = w.row ∧ x.mode.exclusive = true)
    (happ : ∀ x ∈ mine, ∀ y ∈ others, x.compatible y = true) :
    Rely P others db (Store.view ws db) where
  inv := h.inv
  stay := h.stay
  row x hx hm := by
    refine Store.view_get_of_notMem db fun w hw e => ?_
    obtain ⟨y, hy, hrow, hex⟩ := hcov w hw
    have hc := happ y hy x hx
    rw [Lock.compatible_eq_false (hrow.trans e) (Mode.exclusive_conflicts hex hm)] at hc
    cases hc
  keep x hx hm := by
    rcases h.keep x.row with ⟨y, hy, hrow, hk⟩ | hk
    · have hc := happ y hy x hx
      rw [Lock.compatible_comm, Lock.compatible_eq_false hrow.symm
        (Mode.exclusive_conflicts hm hk)] at hc
      cases hc
    · exact hk

/-- The invariant of every interleaving of safe tasks. -/
structure Sound (P : Protocol K R) (C : Tag → Store K R → Prop)
    (G : Job → Promise K R Tag Ans Out)
    (Q : Job → ρ → Local K R Tag Ans Out → Store K R → Prop)
    (s : Sys K R Tag Ans Out Mem Job ρ) : Prop where
  inv : P.Inv s.db
  apart : ∀ (i j : Nat) (t u : Task K R Tag Ans Out Job ρ), i ≠ j → s.tasks[i]? = some t →
    s.tasks[j]? = some u → ∀ x ∈ t.loc.locks, ∀ y ∈ u.loc.locks, x.compatible y = true
  covered : ∀ t ∈ s.tasks, t.loc.Covered
  kept : ∀ t ∈ s.tasks, Kept (G t.job) t.loc.log
  safe : ∀ t ∈ s.tasks, Safe P C (G t.job) (Q t.job) t.prog t.loc s.db

variable {body : Job → Prog K R Tag Ans Out ρ} {G : Job → Promise K R Tag Ans Out}
  {Q : Job → ρ → Local K R Tag Ans Out → Store K R → Prop}
  {s₀ s s' : Sys K R Tag Ans Out Mem Job ρ}

section

omit [DecidableEq T] [∀ t, DecidableEq (K t)]

theorem Sys.mem_heldByOthers {i j : Nat} {u : Task K R Tag Ans Out Job ρ} {y : Lock K}
    (hj : s.tasks[j]? = some u) (hne : j ≠ i) (hy : y ∈ u.loc.locks) : y ∈ s.heldByOthers i :=
  List.mem_flatMap.2 ⟨u, List.mem_eraseIdx_iff_getElem?.2 ⟨j, hne, hj⟩, hy⟩

end

/-- A task that runs moved the committed rows, or left them. -/
def Sys.CommittedBy (s s' : Sys K R Tag Ans Out Mem Job ρ) (i : Nat)
    (t t' : Task K R Tag Ans Out Job ρ) : Prop :=
  s.tasks[i]? = some t ∧ s'.tasks[i]? = some t' ∧ t'.job = t.job ∧
    t'.loc.log = .committed s.db s'.db :: t.loc.log

theorem Sound.start (h : Sound P C G Q s) (j : Job)
    (hbody : ∀ db, P.Inv db → Safe P C (G j) (Q j) (body j) {} db) :
    Sound P C G Q { s with tasks := s.tasks ++ [{ job := j, prog := body j }] } := by
  have hold : ∀ {k : Nat} {v : Task K R Tag Ans Out Job ρ},
      (s.tasks ++ [({ job := j, prog := body j } : Task K R Tag Ans Out Job ρ)])[k]? = some v →
      s.tasks[k]? = some v ∨ v = { job := j, prog := body j } := by
    intro k v hk
    rw [List.getElem?_append] at hk
    split at hk
    · exact .inl hk
    · exact .inr (List.mem_singleton.1 (List.mem_of_getElem? hk))
  have hmem : ∀ {v : Task K R Tag Ans Out Job ρ},
      v ∈ s.tasks ++ [({ job := j, prog := body j } : Task K R Tag Ans Out Job ρ)] →
      v ∈ s.tasks ∨ v = { job := j, prog := body j } := by
    intro v hv
    simpa using hv
  refine ⟨h.inv, ?_, ?_, ?_, ?_⟩
  · intro a b t u hab ha hb x hx y hy
    rcases hold ha with ha | rfl
    · rcases hold hb with hb | rfl
      · exact h.apart a b t u hab ha hb x hx y hy
      · cases hy
    · cases hx
  · intro t ht
    rcases hmem ht with ht | rfl
    · exact h.covered t ht
    · exact .of_nil rfl
  · intro t ht
    rcases hmem ht with ht | rfl
    · exact h.kept t ht
    · exact .nil
  · intro t ht
    rcases hmem ht with ht | rfl
    · exact h.safe t ht
    · exact hbody s.db h.inv

theorem Sound.drop (h : Sound P C G Q s) (i : Nat) (mem : Mem) :
    Sound P C G Q { s with mem := mem, tasks := s.tasks.eraseIdx i } := by
  have hmem : ∀ t ∈ s.tasks.eraseIdx i, t ∈ s.tasks := fun t => List.mem_of_mem_eraseIdx
  refine ⟨h.inv, ?_, fun t ht => h.covered t (hmem t ht), fun t ht => h.kept t (hmem t ht),
    fun t ht => h.safe t (hmem t ht)⟩
  intro a b t u hab ha hb
  simp only [List.getElem?_eraseIdx] at ha hb
  split at ha <;> split at hb
  · exact h.apart a b t u hab ha hb
  · exact h.apart a (b + 1) t u (by omega) ha hb
  · exact h.apart (a + 1) b t u (by omega) ha hb
  · exact h.apart (a + 1) (b + 1) t u (by omega) ha hb

/-- Every other task sees the move of task `i` as interference. -/
theorem Sound.others (h : Sound P C G Q s) {i : Nat} {t : Task K R Tag Ans Out Job ρ}
    (ht : s.tasks[i]? = some t) {db' : Store K R} {p' : Prog K R Tag Ans Out ρ}
    {l' : Local K R Tag Ans Out}
    (hadv : Advanced P C (G t.job) (Q t.job) (s.heldByOthers i) s.db t.loc db' p' l') {j : Nat}
    {u : Task K R Tag Ans Out Job ρ} (hj : j ≠ i) (hu : s.tasks[j]? = some u) :
    Rely P u.loc.locks s.db db' := by
  rcases hadv.change with rfl | ⟨hg, rfl, -⟩
  · exact .refl h.inv
  · exact hg.rely (h.covered t (List.mem_of_getElem? ht))
      fun x hx y hy => h.apart i j t u (Ne.symm hj) ht hu x hx y hy

/-- The move of task `i` to `p'` and `l'`. -/
theorem Sound.advanced (h : Sound P C G Q s) {i : Nat} {t : Task K R Tag Ans Out Job ρ}
    (ht : s.tasks[i]? = some t) {db' : Store K R} {mem' : Mem} {p' : Prog K R Tag Ans Out ρ}
    {l' : Local K R Tag Ans Out}
    (hadv : Advanced P C (G t.job) (Q t.job) (s.heldByOthers i) s.db t.loc db' p' l') :
    Sound P C G Q
      { db := db', mem := mem', tasks := s.tasks.set i { t with prog := p', loc := l' } } := by
  have htm := List.mem_of_getElem? ht
  have hlen : i < s.tasks.length := (List.getElem?_eq_some_iff.1 ht).1
  have hset : ∀ {k : Nat} {v : Task K R Tag Ans Out Job ρ},
      (s.tasks.set i { t with prog := p', loc := l' })[k]? = some v →
      (k = i ∧ v = { t with prog := p', loc := l' }) ∨ (k ≠ i ∧ s.tasks[k]? = some v) := by
    intro k v hk
    rcases Nat.decEq k i with hne | rfl
    · rw [List.getElem?_set_ne (Ne.symm hne)] at hk
      exact .inr ⟨hne, hk⟩
    · rw [List.getElem?_set_self hlen] at hk
      exact .inl ⟨rfl, (Option.some.inj hk).symm⟩
  have hnew : ∀ j u, j ≠ i → s.tasks[j]? = some u →
      ∀ x ∈ l'.locks, ∀ y ∈ u.loc.locks,
      x.compatible y = true := by
    intro j u hj hu x hx y hy
    rcases hadv.locks x hx with hx | hx
    · exact h.apart i j t u (Ne.symm hj) ht hu x hx y hy
    · exact hx y (Sys.mem_heldByOthers hu hj hy)
  refine ⟨?_, ?_, ?_, ?_, ?_⟩
  · rcases hadv.change with rfl | ⟨hg, -⟩
    · exact h.inv
    · exact hg.inv
  · intro a b v u hab hv hu x hx y hy
    rcases hset hv with ⟨rfl, rfl⟩ | ⟨hai, hva⟩
    · rcases hset hu with ⟨rfl, rfl⟩ | ⟨hbi, hub⟩
      · exact absurd rfl hab
      · exact hnew b u hbi hub x hx y hy
    · rcases hset hu with ⟨rfl, rfl⟩ | ⟨hbi, hub⟩
      · rw [Lock.compatible_comm]
        exact hnew a v hai hva y hy x hx
      · exact h.apart a b v u hab hva hub x hx y hy
  · intro v hv
    obtain ⟨k, hk⟩ := List.getElem?_of_mem hv
    rcases hset hk with ⟨-, rfl⟩ | ⟨-, hk⟩
    · exact hadv.covered
    · exact h.covered v (List.mem_of_getElem? hk)
  · intro v hv
    obtain ⟨k, hk⟩ := List.getElem?_of_mem hv
    rcases hset hk with ⟨-, rfl⟩ | ⟨-, hk⟩
    · exact hadv.kept
    · exact h.kept v (List.mem_of_getElem? hk)
  · intro v hv
    obtain ⟨k, hk⟩ := List.getElem?_of_mem hv
    rcases hset hk with ⟨-, rfl⟩ | ⟨hki, hk⟩
    · exact hadv.safe
    · exact (h.safe v (List.mem_of_getElem? hk)).rely (h.others ht hadv hki hk)

/-- A move of one task keeps the invariant, and moves committed rows only by a commit that keeps its
promise. -/
theorem Sound.run {i : Nat} {c : Choice Ans} {t : Task K R Tag Ans Out Job ρ} (h : Sound P C G Q s)
    (ht : s.tasks[i]? = some t) (hadm : s.Admits C (.run i c : Move Ans Job))
    (hm : s.move sh body (.run i c) = some s') :
    Sound P C G Q s' ∧ (s'.db = s.db ∨
      P.stay s.db s'.db ∧ G t.job t.loc.log s.db s'.db ∧ ∃ t', s.CommittedBy s' i t t') := by
  simp only [Sys.move, Option.bind_eq_bind, Option.bind_eq_some_iff, Option.pure_def,
    Option.some.injEq] at hm
  obtain ⟨t₁, ht₁, ⟨db', mem', p', l'⟩, ha, rfl⟩ := hm
  obtain rfl : t₁ = t := Option.some.inj (ht₁.symm.trans ht)
  have htm := List.mem_of_getElem? ht
  have hadv : Advanced P C (G t₁.job) (Q t₁.job) (s.heldByOthers i) s.db t₁.loc db' p' l' :=
    (h.safe t₁ htm).advance h.inv (h.covered t₁ htm) (h.kept t₁ htm)
      (fun tag run next fail hp => hadm t₁ tag run next fail ht hp) ha
  refine ⟨h.advanced ht hadv, ?_⟩
  rcases hadv.change with he | ⟨hg, -, hG, hlog⟩
  · exact .inl he
  · have hlen : i < s.tasks.length := (List.getElem?_eq_some_iff.1 ht).1
    exact .inr ⟨hg.stay, hG, _, ht, List.getElem?_set_self hlen, rfl, hlog⟩

/-- One move keeps the invariant, and committed rows move only by a commit that keeps its
promise. -/
theorem Sound.move {m : Move Ans Job} (h : Sound P C G Q s)
    (hbody : ∀ j, m = .start j → ∀ db, P.Inv db → Safe P C (G j) (Q j) (body j) {} db)
    (hadm : s.Admits C m)
    (hm : s.move sh body m = some s') :
    Sound P C G Q s' ∧ (s'.db = s.db ∨
      P.stay s.db s'.db ∧ ∃ i t t', s.CommittedBy s' i t t' ∧
      G t.job t.loc.log s.db s'.db) := by
  cases m with
  | start j =>
      simp only [Sys.move, Option.some.injEq] at hm
      subst hm
      exact ⟨h.start j (hbody j rfl), .inl rfl⟩
  | drop i =>
      simp only [Sys.move, Option.bind_eq_bind, Option.bind_eq_some_iff, Option.pure_def,
        Option.some.injEq] at hm
      obtain ⟨t, -, rfl⟩ := hm
      exact ⟨h.drop i _, .inl rfl⟩
  | run i c =>
      cases ht : s.tasks[i]? with
      | none => simp [Sys.move, ht] at hm
      | some t =>
          obtain ⟨hs, hch⟩ := h.run ht hadm hm
          exact ⟨hs, hch.imp id fun ⟨hstay, hG, t', hc⟩ => ⟨hstay, i, t, t', hc, hG⟩⟩

/-- Every interleaving of safe programs keeps the protocol. -/
theorem Reach.sound (hbody : ∀ j db, P.Inv db → Safe P C (G j) (Q j) (body j) {} db)
    (hinv : P.Inv s₀.db) (htasks : s₀.tasks = []) (h : Reach sh body C s₀ s) :
    Sound P C G Q s := by
  induction h with
  | init => exact ⟨hinv, by simp [htasks], by simp [htasks], by simp [htasks], by simp [htasks]⟩
  | step hs hadm hm ih => exact (ih.move (fun j _ => hbody j) hadm hm).1

/-- A system of safe tasks that have not run yet. -/
theorem Sound.fresh (hinv : P.Inv s.db)
    (h : ∀ t ∈ s.tasks, t.loc = {} ∧ Safe P C (G t.job) (Q t.job) t.prog {} s.db) :
    Sound P C G Q s where
  inv := hinv
  apart i j t u _ hi _ x hx := by
    rw [(h t (List.mem_of_getElem? hi)).1] at hx
    cases hx
  covered t ht := .of_nil (by rw [(h t ht).1])
  kept t ht := by
    rw [(h t ht).1]
    exact .nil
  safe t ht := by
    rw [(h t ht).1]
    exact (h t ht).2

/-- What is known of a task that ended. -/
theorem Sound.ended (h : Sound P C G Q s) {t : Task K R Tag Ans Out Job ρ}
    (ht : t ∈ s.tasks) {r : ρ} (hr : t.prog = .ret r) : Q t.job r t.loc s.db := by
  have hs := h.safe t ht
  rw [hr] at hs
  exact hs s.db (.refl h.inv)

/-- What every commit keeps holds of the committed rows of every run. -/
theorem Reach.holds {J : Store K R → Prop}
    (hbody : ∀ j db, P.Inv db → Safe P C (G j) (Q j) (body j) {} db)
    (hinv : P.Inv s₀.db) (htasks : s₀.tasks = []) (hJ : J s₀.db)
    (hstep : ∀ j log pre post, P.Inv pre → G j log pre post → J pre → J post)
    (h : Reach sh body C s₀ s) : J s.db := by
  induction h with
  | init => exact hJ
  | @step s s' m hs hadm hm ih =>
      have hsound := hs.sound (Q := Q) hbody hinv htasks
      rcases (hsound.move (fun j _ => hbody j) hadm hm).2 with he | ⟨-, i, t, t', -, hG⟩
      · rw [he]
        exact ih
      · exact hstep t.job _ _ _ hsound.inv hG ih

end

end ReadCommitted
