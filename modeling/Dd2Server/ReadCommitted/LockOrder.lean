import Dd2Server.ReadCommitted.Transaction
import Mathlib.Logic.Relation

/-!
# Locks taken one at a time

A statement that locks several rows takes them one after the other, in an order nobody knows, and
waits in between with those it has.  `Piecemeal` adds these steps to the moves of a system: before a
statement runs, any lock it asks for on its present view may be taken.  A lock that it does not need
when it runs stays with the transaction.

A `Discipline` says what a task must be able to say of the locks it holds (`backed`) and of those it
asks for (`ordered`).  `Orderly` is the weakest precondition for this, and `Piecemeal.disciplined`
turns it into an invariant of every interleaving.  A cycle of waiting tasks is excluded by a rank
that grows from each to the next (`acyclic_of_rank`).
-/

namespace ReadCommitted

variable {T : Type} {K R : T → Type} [DecidableEq T] [∀ t, DecidableEq (K t)]
  {Tag Ask Act Mem Job ρ α β ε ε' : Type} {Ans : Ask → Type} {Out : Act → Type}

/-! ## Waiting -/

/-- The locks the next statement of a program asks for, on the view it would run on. -/
def Prog.asked (p : Prog K R Tag Ans Out α) (v : Store K R) : List (Lock K) :=
  match p with
  | .stmt _ run _ _ => (run v).elim [] fun e => e.allLocks v
  | _ => []

/-- The locks a task asks for. -/
def Task.asked (db : Store K R) (t : Task K R Tag Ans Out Job ρ) : List (Lock K) :=
  t.prog.asked (Store.view t.loc.writes db)

/-- More locks, the same transaction. -/
def Local.taking (l : Local K R Tag Ans Out) (taken : List (Lock K)) : Local K R Tag Ans Out :=
  { l with locks := taken ++ l.locks }

/-- Task `i`, which is `t`, has taken one more lock. -/
def Sys.took (s : Sys K R Tag Ans Out Mem Job ρ) (i : Nat) (t : Task K R Tag Ans Out Job ρ)
    (a : Lock K) : Sys K R Tag Ans Out Mem Job ρ :=
  { s with tasks := s.tasks.set i { t with loc := t.loc.taking [a] } }

/-- The states reached from `s₀` by allowed moves and by locks taken one at a time. -/
inductive Piecemeal (sh : Shared K R Tag Ans Out Mem) (body : Job → Prog K R Tag Ans Out ρ)
    (ok : Sys K R Tag Ans Out Mem Job ρ → Move Ans Job → Prop)
    (s₀ : Sys K R Tag Ans Out Mem Job ρ) :
    Sys K R Tag Ans Out Mem Job ρ → Prop
  | init : Piecemeal sh body ok s₀ s₀
  | step {s s' : Sys K R Tag Ans Out Mem Job ρ} {m : Move Ans Job} :
      Piecemeal sh body ok s₀ s → ok s m → s.move sh body m = some s' →
        Piecemeal sh body ok s₀ s'
  | take {s : Sys K R Tag Ans Out Mem Job ρ} {i : Nat} {t : Task K R Tag Ans Out Job ρ}
    {a : Lock K} :
      Piecemeal sh body ok s₀ s → s.tasks[i]? = some t → a ∈ t.asked s.db →
      grants (s.heldByOthers i) [a] = true → Piecemeal sh body ok s₀ (s.took i t a)

theorem ReachBy.piecemeal {sh : Shared K R Tag Ans Out Mem} {body : Job → Prog K R Tag Ans Out ρ}
    {ok : Sys K R Tag Ans Out Mem Job ρ → Move Ans Job → Prop}
    {s₀ s : Sys K R Tag Ans Out Mem Job ρ} (h : ReachBy sh body ok s₀ s) :
    Piecemeal sh body ok s₀ s := by
  induction h with
  | init => exact .init
  | step _ hok hm ih => exact .step ih hok hm

/-- Task `i` asks for the lock `a`, which does not go with one that task `j` holds. -/
def Sys.WaitsOn (s : Sys K R Tag Ans Out Mem Job ρ) (i : Nat) (a : Lock K) (j : Nat) : Prop :=
  ∃ t u, s.tasks[i]? = some t ∧ s.tasks[j]? = some u ∧ i ≠ j ∧ a ∈ t.asked s.db ∧
    ∃ b ∈ u.loc.locks, a.compatible b = false

/-- Task `i` waits for task `j`. -/
def Sys.Waits (s : Sys K R Tag Ans Out Mem Job ρ) (i j : Nat) : Prop := ∃ a, s.WaitsOn i a j

/-- Where the rank grows from each edge to the next, there is no cycle. -/
theorem acyclic_of_rank {ι κ : Type} {W : ι → κ → ι → Prop} (rank : ι → κ → Nat)
    (h : ∀ i a j b k, W i a j → W j b k → rank i a < rank j b) (i : ι) :
    ¬Relation.TransGen (fun i j => ∃ a, W i a j) i i := by
  -- a path has a first and a last edge, and the first one ranks no higher
  have hpath : ∀ {j}, Relation.TransGen (fun i j => ∃ a, W i a j) i j →
      ∃ a i' k b, W i a i' ∧ W k b j ∧ rank i a ≤ rank k b := by
    intro j hj
    induction hj with
    | single hedge =>
        obtain ⟨a, ha⟩ := hedge
        exact ⟨a, _, i, a, ha, ha, Nat.le_refl _⟩
    | tail _ hedge ih =>
        obtain ⟨a, i', k, b, hfirst, hlast, hle⟩ := ih
        obtain ⟨c, hc⟩ := hedge
        exact ⟨a, i', _, c, hfirst, hc,
          Nat.le_of_lt (Nat.lt_of_le_of_lt hle (h _ _ _ _ _ hlast hc))⟩
  intro hcycle
  obtain ⟨a, i', k, b, hfirst, hlast, hle⟩ := hpath hcycle
  exact absurd hle (Nat.not_le.2 (h _ _ _ _ _ hlast hfirst))

/-! ## Disciplines -/

/-- What a task must be able to say of its locks, given those it holds, its log and the committed
rows. -/
structure Discipline (K R : T → Type) [DecidableEq T] [∀ t, DecidableEq (K t)] (Tag : Type)
    (Ans : Ask → Type) (Out : Act → Type) where
  P : Protocol K R
  /-- Of each lock it holds or asks for. -/
  backed : List (Lock K) → List (Event K R Tag Ans Out) → Store K R → Lock K → Prop
  /-- Of each lock it asks for. -/
  ordered : List (Lock K) → List (Event K R Tag Ans Out) → Store K R → Lock K → Prop
  mono : ∀ {held held' log db a}, (∀ x ∈ held, x ∈ held') → backed held log db a →
    backed held' log db a
  later : ∀ {held log ev db a}, backed held log db a → backed held (ev :: log) db a
  stable : ∀ {held log db db' a}, a ∈ held → Rely P held db db' → backed held log db a →
    backed held log db' a

variable (δ : Discipline K R Tag Ans Out)

/-- What a statement may take stays so while the locks that the task had and those taken are
held. -/
def Lasting (P : Protocol K R) (had : List (Lock K)) (may : Store K R → Lock K → Prop) : Prop :=
  ∀ held db db' x, x ∈ held → (∀ y ∈ had, y ∈ held) → Rely P held db db' →
    may db x → may db' x

/-- The program keeps the protocol and the discipline from here on and ends in `Q`.  The locks in
`taken` are those that a statement took before it ran. -/
def Orderly (Q : α → Local K R Tag Ans Out → Store K R → Prop) :
    Prog K R Tag Ans Out α → Local K R Tag Ans Out → Store K R → Prop
  | .ret a, l, db => ∀ db', Rely δ.P l.locks db db' → Q a l db'
  | .stmt tag run next fail, l, db => ∃ may, Lasting δ.P l.locks may ∧
      ∀ db' taken, Rely δ.P l.locks db db' → (∀ x ∈ taken, may db' x) →
        Orderly Q fail (l.ended .failed) db' ∧
        match run (Store.view l.writes db') with
        | none => Orderly Q fail (l.ended (.rejected tag (Store.view l.writes db'))) db'
        | some e =>
            (∀ a ∈ e.allLocks (Store.view l.writes db'), may db' a ∧
              δ.backed (taken ++ l.locks) l.log db' a ∧
                δ.ordered (taken ++ l.locks) l.log db' a) ∧
            Orderly Q (next (Store.view l.writes db'))
              ((l.taking taken).ran tag (Store.view l.writes db') e) db'
  | .read tag next fail, l, db => ∀ db', Rely δ.P l.locks db db' →
      Orderly Q fail (l.noted .failed) db' ∧ Orderly Q (next db') (l.noted (.read tag db')) db'
  | .commit next fail, l, db => ∀ db', Rely δ.P l.locks db db' →
      Orderly Q fail (l.ended .failed) db' ∧
      Guarantee δ.P l.locks db' (Store.view l.writes db') ∧
      Orderly Q next (l.ended (.committed db' (Store.view l.writes db'))) (Store.view l.writes db')
  | .rollback next, l, db => ∀ db', Rely δ.P l.locks db db' → Orderly Q next l.rolledBack db'
  | .ask q next, l, db => ∀ db', Rely δ.P l.locks db db' →
      ∀ a, Orderly Q (next a) (l.noted (.answered q a)) db'
  | .act a next, l, db => ∀ db', Rely δ.P l.locks db db' →
      ∀ o, Orderly Q (next o) (l.noted (.acted a o)) db'

variable {δ} {Q : α → Local K R Tag Ans Out → Store K R → Prop}

theorem Orderly.rely {p : Prog K R Tag Ans Out α} {l : Local K R Tag Ans Out} {db db' : Store K R}
    (h : Orderly δ Q p l db) (hr : Rely δ.P l.locks db db') : Orderly δ Q p l db' := by
  cases p with
  | stmt tag run next fail =>
      obtain ⟨may, hlasting, h⟩ := h
      exact ⟨may, hlasting, fun db'' taken hr' => h db'' taken (hr.trans hr')⟩
  | _ => exact fun db'' hr' => h db'' (hr.trans hr')

/-- The rule of sequential composition. -/
theorem Orderly.bind {Q' : β → Local K R Tag Ans Out → Store K R → Prop}
    {p : Prog K R Tag Ans Out β} {k : β → Prog K R Tag Ans Out α} {l : Local K R Tag Ans Out}
    {db : Store K R} (h : Orderly δ Q' p l db)
    (hk : ∀ b l' db', δ.P.Inv db' → Q' b l' db' → Orderly δ Q (k b) l' db')
    (hinv : δ.P.Inv db) : Orderly δ Q (p.bind k) l db := by
  induction p generalizing l db with
  | ret b => exact hk b l db hinv (h db (.refl hinv))
  | stmt tag run next fail ihn ihf =>
      obtain ⟨may, hlasting, h⟩ := h
      refine ⟨may, hlasting, fun db' taken hr htaken => ?_⟩
      obtain ⟨hf, hs⟩ := h db' taken hr htaken
      refine ⟨ihf hf hr.inv, ?_⟩
      cases he : run (Store.view l.writes db') with
      | none =>
          simp only [he] at hs ⊢
          exact ihf hs hr.inv
      | some e =>
          simp only [he] at hs ⊢
          exact ⟨hs.1, ihn _ hs.2 hr.inv⟩
  | read tag next fail ihn ihf =>
      intro db' hr
      obtain ⟨hf, hn⟩ := h db' hr
      exact ⟨ihf hf hr.inv, ihn _ hn hr.inv⟩
  | commit next fail ihn ihf =>
      intro db' hr
      obtain ⟨hf, hg, hn⟩ := h db' hr
      exact ⟨ihf hf hr.inv, hg, ihn hn hg.inv⟩
  | rollback next ih => exact fun db' hr => ih (h db' hr) hr.inv
  | ask q next ih => exact fun db' hr a => ih a (h db' hr a) hr.inv
  | act a next ih => exact fun db' hr o => ih o (h db' hr o) hr.inv

section

omit [DecidableEq T] [∀ t, DecidableEq (K t)]

theorem Local.taking_taking (l : Local K R Tag Ans Out) (taken taken' : List (Lock K)) :
    (l.taking taken).taking taken' = l.taking (taken' ++ taken) := by
  simp only [Local.taking, List.append_assoc]

end

section

omit [DecidableEq T]

theorem Prog.mem_asked {tag : Tag} {run : Store K R → Option (Effect K R)}
    {next : Store K R → Prog K R Tag Ans Out α} {fail : Prog K R Tag Ans Out α} {v : Store K R}
    {a : Lock K} (h : a ∈ (Prog.stmt tag run next fail).asked v) :
    ∃ e, run v = some e ∧ a ∈ e.allLocks v := by
  simp only [Prog.asked] at h
  cases he : run v with
  | none => simp [he] at h
  | some e =>
      rw [he] at h
      exact ⟨e, rfl, h⟩

end

/-- What is known of a lock that the program asks for. -/
theorem Orderly.asked {p : Prog K R Tag Ans Out α} {l : Local K R Tag Ans Out}
    {db : Store K R} {a : Lock K} (h : Orderly δ Q p l db) (hinv : δ.P.Inv db)
    (ha : a ∈ p.asked (Store.view l.writes db)) :
    δ.backed l.locks l.log db a ∧ δ.ordered l.locks l.log db a := by
  cases p with
  | stmt tag run next fail =>
      obtain ⟨may, -, h⟩ := h
      obtain ⟨e, he, ha⟩ := Prog.mem_asked ha
      have hs := (h db [] (.refl hinv) (by simp)).2
      simp only [he] at hs
      exact (hs.1 a ha).2
  | _ => cases ha

/-- The program stays orderly when it takes a lock that it asks for. -/
theorem Orderly.take {p : Prog K R Tag Ans Out α} {l : Local K R Tag Ans Out}
    {db : Store K R} {a : Lock K} (h : Orderly δ Q p l db) (hinv : δ.P.Inv db)
    (ha : a ∈ p.asked (Store.view l.writes db)) : Orderly δ Q p (l.taking [a]) db := by
  cases p with
  | stmt tag run next fail =>
      obtain ⟨may, hlasting, h⟩ := h
      obtain ⟨e, he, ha⟩ := Prog.mem_asked ha
      have hmay : may db a := by
        have hs := (h db [] (.refl hinv) (by simp)).2
        simp only [he] at hs
        exact (hs.1 a ha).1
      refine ⟨may, fun held db' db'' x hx hhad hr => hlasting held db' db'' x hx
        (fun y hy => hhad y (List.mem_cons_of_mem _ hy)) hr, fun db' taken hr htaken => ?_⟩
      have hmay' : may db' a :=
        hlasting _ db db' a List.mem_cons_self (fun y hy => List.mem_cons_of_mem _ hy) hr hmay
      have hall : ∀ x ∈ taken ++ [a], may db' x := by
        intro x hx
        rcases List.mem_append.1 hx with hx | hx
        · exact htaken x hx
        · rw [List.mem_singleton.1 hx]
          exact hmay'
      have hnext := h db' (taken ++ [a]) (hr.mono fun y hy => List.mem_cons_of_mem _ hy) hall
      have hlocks : (taken ++ [a]) ++ l.locks = taken ++ (l.taking [a]).locks :=
        List.append_assoc taken [a] _
      rw [hlocks, ← Local.taking_taking] at hnext
      exact hnext
  | _ => cases ha

/-- Nothing is promised. -/
def Promise.none : Promise K R Tag Ans Out where
  commit _ _ _ := True

/-- An orderly program is safe. -/
theorem Orderly.safe {p : Prog K R Tag Ans Out α} {l : Local K R Tag Ans Out} {db : Store K R}
    (h : Orderly δ Q p l db) : Safe δ.P (fun _ _ => True) .none Q p l db := by
  induction p generalizing l db with
  | ret a => exact h
  | stmt tag run next fail ihn ihf =>
      obtain ⟨may, -, h⟩ := h
      intro db' hr
      obtain ⟨hf, hs⟩ := h db' [] hr (by simp)
      refine ⟨ihf hf, fun _ => ?_⟩
      cases he : run (Store.view l.writes db') with
      | none =>
          simp only [he] at hs ⊢
          exact ihf hs
      | some e =>
          simp only [he] at hs ⊢
          exact ihn _ hs.2
  | read tag next fail ihn ihf => exact fun db' hr => ⟨ihf (h db' hr).1, ihn _ (h db' hr).2⟩
  | commit next fail ihn ihf =>
      intro db' hr
      obtain ⟨hf, hg, hn⟩ := h db' hr
      exact ⟨ihf hf, hg, trivial, ihn hn⟩
  | rollback next ih => exact fun db' hr => ih (h db' hr)
  | ask q next ih => exact fun db' hr a => ih a (h db' hr a)
  | act a next ih => exact fun db' hr => ⟨trivial, fun o => ih o (h db' hr o)⟩

/-! ## Interleavings -/

/-- All that a task holds is backed. -/
def Local.Backed (δ : Discipline K R Tag Ans Out) (l : Local K R Tag Ans Out)
    (db : Store K R) : Prop :=
  ∀ x ∈ l.locks, δ.backed l.locks l.log db x

theorem Local.Backed.rely {l : Local K R Tag Ans Out} {db db' : Store K R} (h : l.Backed δ db)
    (hr : Rely δ.P l.locks db db') : l.Backed δ db' :=
  fun x hx => δ.stable hx hr (h x hx)

theorem Local.Backed.noted {l : Local K R Tag Ans Out} {db : Store K R} (h : l.Backed δ db)
    (ev : Event K R Tag Ans Out) : (l.noted ev).Backed δ db :=
  fun x hx => δ.later (h x hx)

theorem Local.Backed.of_nil {l : Local K R Tag Ans Out} {db : Store K R} (h : l.locks = []) :
    l.Backed δ db := by
  intro x hx
  rw [h] at hx
  cases hx

theorem Local.Backed.take {l : Local K R Tag Ans Out} {db : Store K R} {a : Lock K}
    (h : l.Backed δ db) (ha : δ.backed l.locks l.log db a) : (l.taking [a]).Backed δ db := by
  intro x hx
  have hmono : ∀ y ∈ l.locks, y ∈ (l.taking [a]).locks :=
    fun y hy => List.mem_cons_of_mem _ hy
  rcases List.mem_cons.1 hx with rfl | hx
  · exact δ.mono hmono ha
  · exact δ.mono hmono (h x hx)

section

variable {sh : Shared K R Tag Ans Out Mem}

/-- One move of an orderly task. -/
theorem Orderly.advance {held : List (Lock K)} {db db' : Store K R} {mem mem' : Mem}
    {p p' : Prog K R Tag Ans Out α} {l l' : Local K R Tag Ans Out} {c : Choice Ans}
    (h : Orderly δ Q p l db) (hinv : δ.P.Inv db) (hback : l.Backed δ db)
    (ha : advance sh held db mem p l c = some (db', mem', p', l')) :
    Orderly δ Q p' l' db' ∧ l'.Backed δ db' := by
  have hrefl : Rely δ.P l.locks db db := .refl hinv
  cases p with
  | ret a => cases c <;> simp [ReadCommitted.advance] at ha
  | stmt tag run next fail =>
      obtain ⟨may, -, h⟩ := h
      obtain ⟨hf, hs⟩ := h db [] hrefl (by simp)
      cases c with
      | answer f => simp [ReadCommitted.advance] at ha
      | fail =>
          simp only [ReadCommitted.advance, Option.some.injEq, Prod.mk.injEq] at ha
          obtain ⟨rfl, rfl, rfl, rfl⟩ := ha
          exact ⟨hf, .of_nil rfl⟩
      | proceed =>
          cases he : run (Store.view l.writes db) with
          | none =>
              simp only [ReadCommitted.advance, he, Option.some.injEq, Prod.mk.injEq] at ha hs
              obtain ⟨rfl, rfl, rfl, rfl⟩ := ha
              exact ⟨hs, .of_nil rfl⟩
          | some e =>
              simp only [ReadCommitted.advance, he] at ha hs
              split at ha
              case isFalse => cases ha
              case isTrue hg =>
                simp only [Option.some.injEq, Prod.mk.injEq] at ha
                obtain ⟨rfl, rfl, rfl, rfl⟩ := ha
                refine ⟨hs.2, fun x hx => δ.later ?_⟩
                have hmono : ∀ y ∈ l.locks,
                    y ∈ (l.ran tag (Store.view l.writes db) e).locks :=
                  fun y hy => List.mem_append_right _ hy
                rcases List.mem_append.1 hx with hx | hx
                · exact δ.mono hmono (hs.1 x hx).2.1
                · exact δ.mono hmono (hback x hx)
  | read tag next fail =>
      obtain ⟨hf, hn⟩ := h db hrefl
      cases c with
      | answer f => simp [ReadCommitted.advance] at ha
      | fail =>
          simp only [ReadCommitted.advance, Option.some.injEq, Prod.mk.injEq] at ha
          obtain ⟨rfl, rfl, rfl, rfl⟩ := ha
          exact ⟨hf, hback.noted _⟩
      | proceed =>
          simp only [ReadCommitted.advance, Option.some.injEq, Prod.mk.injEq] at ha
          obtain ⟨rfl, rfl, rfl, rfl⟩ := ha
          exact ⟨hn, hback.noted _⟩
  | commit next fail =>
      obtain ⟨hf, hg, hn⟩ := h db hrefl
      cases c with
      | answer f => simp [ReadCommitted.advance] at ha
      | fail =>
          simp only [ReadCommitted.advance, Option.some.injEq, Prod.mk.injEq] at ha
          obtain ⟨rfl, rfl, rfl, rfl⟩ := ha
          exact ⟨hf, .of_nil rfl⟩
      | proceed =>
          simp only [ReadCommitted.advance, Option.some.injEq, Prod.mk.injEq] at ha
          obtain ⟨rfl, rfl, rfl, rfl⟩ := ha
          exact ⟨hn, .of_nil rfl⟩
  | rollback next =>
      cases c with
      | answer f => simp [ReadCommitted.advance] at ha
      | fail => simp [ReadCommitted.advance] at ha
      | proceed =>
          simp only [ReadCommitted.advance, Option.some.injEq, Prod.mk.injEq] at ha
          obtain ⟨rfl, rfl, rfl, rfl⟩ := ha
          exact ⟨h db hrefl, .of_nil rfl⟩
  | ask q next =>
      cases c with
      | proceed => simp [ReadCommitted.advance] at ha
      | fail => simp [ReadCommitted.advance] at ha
      | answer f =>
          simp only [ReadCommitted.advance, Option.some.injEq, Prod.mk.injEq] at ha
          obtain ⟨rfl, rfl, rfl, rfl⟩ := ha
          exact ⟨h db hrefl (f q), hback.noted _⟩
  | act a next =>
      cases c with
      | answer f => simp [ReadCommitted.advance] at ha
      | fail => simp [ReadCommitted.advance] at ha
      | proceed =>
          cases hp : sh.perform a mem with
          | none => simp [ReadCommitted.advance, hp] at ha
          | some r =>
              simp only [ReadCommitted.advance, hp, Option.map_some, Option.some.injEq,
                Prod.mk.injEq] at ha
              obtain ⟨rfl, rfl, rfl, rfl⟩ := ha
              exact ⟨h db hrefl r.2, hback.noted _⟩

variable (δ) in
/-- The invariant of every interleaving of orderly tasks. -/
structure Disciplined (s : Sys K R Tag Ans Out Mem Job ρ) : Prop where
  sound : Sound δ.P (fun _ _ => True) (fun _ => .none) (fun _ _ _ _ => True) s
  orderly : ∀ t ∈ s.tasks, Orderly δ (fun _ _ _ => True) t.prog t.loc s.db
  backed : ∀ t ∈ s.tasks, t.loc.Backed δ s.db

variable {body : Job → Prog K R Tag Ans Out ρ}
  {ok : Sys K R Tag Ans Out Mem Job ρ → Move Ans Job → Prop}
  {s₀ s s' : Sys K R Tag Ans Out Mem Job ρ}

theorem Disciplined.start (h : Disciplined δ s) (j : Job)
    (hbody : ∀ db, δ.P.Inv db → Orderly δ (fun _ _ _ => True) (body j) {} db) :
    Disciplined δ { s with tasks := s.tasks ++ [{ job := j, prog := body j }] } where
  sound := h.sound.start j fun db hinv => (hbody db hinv).safe
  orderly t ht := by
    rcases List.mem_append.1 ht with ht | ht
    · exact h.orderly t ht
    · rw [List.mem_singleton.1 ht]
      exact hbody s.db h.sound.inv
  backed t ht := by
    rcases List.mem_append.1 ht with ht | ht
    · exact h.backed t ht
    · rw [List.mem_singleton.1 ht]
      exact .of_nil rfl

theorem Disciplined.drop (h : Disciplined δ s) (i : Nat) (mem : Mem) :
    Disciplined δ { s with mem := mem, tasks := s.tasks.eraseIdx i } where
  sound := h.sound.drop i mem
  orderly t ht := h.orderly t (List.mem_of_mem_eraseIdx ht)
  backed t ht := h.backed t (List.mem_of_mem_eraseIdx ht)

section

omit [DecidableEq T] [∀ t, DecidableEq (K t)]

/-- The tasks after one of them changed. -/
theorem mem_set_cases {tasks : List (Task K R Tag Ans Out Job ρ)} {i : Nat}
    {t' u : Task K R Tag Ans Out Job ρ} (hu : u ∈ tasks.set i t') :
    u = t' ∨ ∃ j, j ≠ i ∧ tasks[j]? = some u := by
  obtain ⟨k, hk⟩ := List.getElem?_of_mem hu
  rw [List.getElem?_set] at hk
  split at hk
  · split at hk
    · exact .inl (Option.some.inj hk).symm
    · cases hk
  · exact .inr ⟨k, Ne.symm (by assumption), hk⟩

end

theorem Disciplined.run {i : Nat} {c : Choice Ans} (h : Disciplined δ s)
    (hm : s.move sh body (.run i c) = some s') : Disciplined δ s' := by
  have hmove := hm
  simp only [Sys.move, Option.bind_eq_bind, Option.bind_eq_some_iff, Option.pure_def,
    Option.some.injEq] at hm
  obtain ⟨t, ht, ⟨db', mem', p', l'⟩, ha, rfl⟩ := hm
  have htm := List.mem_of_getElem? ht
  have hadv := (h.sound.safe t htm).advance h.sound.inv (h.sound.covered t htm) (h.sound.kept t htm)
    (fun _ _ _ _ _ => trivial) ha
  obtain ⟨horderly, hbacked⟩ := (h.orderly t htm).advance h.sound.inv (h.backed t htm) ha
  refine ⟨(h.sound.run ht s.admits_true hmove).1, fun u hu => ?_, fun u hu => ?_⟩
  · rcases mem_set_cases hu with rfl | ⟨j, hj, hu⟩
    · exact horderly
    · exact (h.orderly u (List.mem_of_getElem? hu)).rely (h.sound.others ht hadv hj hu)
  · rcases mem_set_cases hu with rfl | ⟨j, hj, hu⟩
    · exact hbacked
    · exact (h.backed u (List.mem_of_getElem? hu)).rely (h.sound.others ht hadv hj hu)

theorem Disciplined.took {i : Nat} {t : Task K R Tag Ans Out Job ρ} {a : Lock K}
    (h : Disciplined δ s) (ht : s.tasks[i]? = some t) (ha : a ∈ t.asked s.db)
    (hg : grants (s.heldByOthers i) [a] = true) : Disciplined δ (s.took i t a) := by
  have htm := List.mem_of_getElem? ht
  have horderly := (h.orderly t htm).take h.sound.inv ha
  have hbacked := (h.backed t htm).take ((h.orderly t htm).asked h.sound.inv ha).1
  have hadv : Advanced δ.P (fun _ _ => True) .none (fun _ _ _ => True)
      (s.heldByOthers i) s.db t.loc s.db
      t.prog (t.loc.taking [a]) := by
    refine ⟨horderly.safe, fun w hw => ?_, h.sound.kept t htm, fun x hx => ?_, .inl rfl⟩
    · obtain ⟨x, hx, hrow⟩ := h.sound.covered t htm w hw
      exact ⟨x, List.mem_cons_of_mem _ hx, hrow⟩
    · rcases List.mem_cons.1 hx with rfl | hx
      · exact .inr (grants_iff.1 hg x List.mem_cons_self)
      · exact .inl hx
  refine ⟨h.sound.advanced ht hadv, fun u hu => ?_, fun u hu => ?_⟩
  · rcases mem_set_cases hu with rfl | ⟨j, hj, hu⟩
    · exact horderly
    · exact h.orderly u (List.mem_of_getElem? hu)
  · rcases mem_set_cases hu with rfl | ⟨j, hj, hu⟩
    · exact hbacked
    · exact h.backed u (List.mem_of_getElem? hu)

/-- Every interleaving of orderly tasks is disciplined, lock by lock. -/
theorem Piecemeal.disciplined
    (hbody : ∀ j db, δ.P.Inv db → Orderly δ (fun _ _ _ => True) (body j) {} db)
    (hinv : δ.P.Inv s₀.db) (htasks : s₀.tasks = []) (h : Piecemeal sh body ok s₀ s) :
    Disciplined δ s := by
  induction h with
  | init =>
      refine ⟨.fresh hinv ?_, ?_, ?_⟩ <;> simp [htasks]
  | @step s s' m _ _ hm ih =>
      cases m with
      | start j =>
          cases hm
          exact ih.start j (hbody j)
      | drop i =>
          simp only [Sys.move, Option.bind_eq_bind, Option.bind_eq_some_iff, Option.pure_def,
            Option.some.injEq] at hm
          obtain ⟨t, -, rfl⟩ := hm
          exact ih.drop i _
      | run i c => exact ih.run hm
  | take _ ht ha hg ih => exact ih.took ht ha hg

end

end ReadCommitted
