import Dd2Server.ReadCommitted.Moves

/-!
# What reads outside of transactions see

A statement of a task that has written nothing sees the committed rows.  A relation that leads from
what such statements saw to the committed rows, and that no move breaks, holds between any two of
them in the order they ran.
-/

namespace ReadCommitted

variable {T : Type} {K R : T → Type} [DecidableEq T] [∀ t, DecidableEq (K t)]
  {Tag Ask Act Mem Job ρ : Type} {Ans : Ask → Type} {Out : Act → Type}
  {sh : Shared K R Tag Ans Out Mem} {body : Job → Prog K R Tag Ans Out ρ}
  {ok : Sys K R Tag Ans Out Mem Job ρ → Move Ans Job → Prop}
  {s₀ s s' : Sys K R Tag Ans Out Mem Job ρ}

/-- One move of a task runs a statement, or it adds no sighting to its log. -/
theorem advance_saw {held : List (Lock K)} {db db' : Store K R} {mem mem' : Mem}
    {p p' : Prog K R Tag Ans Out ρ} {l l' : Local K R Tag Ans Out} {c : Choice Ans}
    (h : advance sh held db mem p l c = some (db', mem', p', l')) :
    (∃ tag run next fail, p = .stmt tag run next fail ∧ db' = db ∧
        l'.log = .saw tag (Store.view l.writes db) :: l.log) ∨
      ∃ new, l'.log = new ++ l.log ∧ ∀ tag v, .saw tag v ∉ new := by
  cases p with
  | ret a => cases c <;> simp [advance] at h
  | stmt tag run next fail =>
      cases c with
      | answer f => simp [advance] at h
      | fail =>
          cases h
          exact .inr ⟨[.failed], rfl, by simp⟩
      | proceed =>
          cases he : run (Store.view l.writes db) with
          | none =>
              simp only [advance, he] at h
              cases h
              exact .inr ⟨[.rejected tag _], rfl, by simp⟩
          | some e =>
              simp only [advance, he] at h
              split at h
              case isFalse => cases h
              case isTrue =>
                cases h
                exact .inl ⟨tag, run, next, fail, rfl, rfl, rfl⟩
  | read tag next fail =>
      cases c with
      | proceed => cases h; exact .inr ⟨[.read tag db], rfl, by simp⟩
      | fail => cases h; exact .inr ⟨[.failed], rfl, by simp⟩
      | answer f => simp [advance] at h
  | commit next fail =>
      cases c with
      | proceed => cases h; exact .inr ⟨[.committed db _], rfl, by simp⟩
      | fail => cases h; exact .inr ⟨[.failed], rfl, by simp⟩
      | answer f => simp [advance] at h
  | rollback next =>
      cases c with
      | proceed => cases h; exact .inr ⟨[], rfl, by simp⟩
      | fail => simp [advance] at h
      | answer f => simp [advance] at h
  | ask q next =>
      cases c with
      | proceed => simp [advance] at h
      | fail => simp [advance] at h
      | answer f => cases h; exact .inr ⟨[.answered q (f q)], rfl, by simp⟩
  | act a next =>
      cases advance_cases h with
      | acted a o next hp hperf hdb hp' hlog => exact .inr ⟨[_], hlog, by simp⟩
      | looked tag hdb hmem hlog => exact .inr ⟨[_], hlog, by simp⟩
      | committed hmem hlog => exact .inr ⟨[_], hlog, by simp⟩
      | passed new hdb hmem hlog hnew =>
          cases c with
          | proceed =>
              simp only [advance, Option.map_eq_some_iff, Prod.mk.injEq] at h
              obtain ⟨⟨m, o⟩, -, -, -, -, rfl⟩ := h
              exact .inr ⟨[.acted a o], rfl, by simp⟩
          | fail => simp [advance] at h
          | answer f => simp [advance] at h

/-- `Rel` leads from each sighting of these statements to the later ones and to the committed
rows. -/
def Sighted (P : Tag → Bool) (Rel : Store K R → Store K R → Prop)
    (log : List (Event K R Tag Ans Out)) (db : Store K R) : Prop :=
  (∀ tag v, P tag = true → .saw tag v ∈ log → Rel v db) ∧
    ∀ newer tag v older, log = newer ++ .saw tag v :: older → P tag = true →
      ∀ tag' v', P tag' = true → .saw tag' v' ∈ older → Rel v' v

section

variable {P : Tag → Bool} {Rel : Store K R → Store K R → Prop}
  {log : List (Event K R Tag Ans Out)} {db db' : Store K R}

section

omit [DecidableEq T] [∀ t, DecidableEq (K t)]

theorem Sighted.later (h : Sighted P Rel log db)
    (hR : ∀ tag v, P tag = true → .saw tag v ∈ log → Rel v db → Rel v db') :
    Sighted P Rel log db' := ⟨fun tag v hP hm => hR tag v hP hm (h.1 tag v hP hm), h.2⟩

theorem Sighted.append (h : Sighted P Rel log db) {new : List (Event K R Tag Ans Out)}
    (hnew : ∀ tag v, .saw tag v ∉ new) : Sighted P Rel (new ++ log) db := by
  refine ⟨fun tag v hP hm => ?_, fun newer tag v older he hP tag' v' hP' hm => ?_⟩
  · rcases List.mem_append.1 hm with hm | hm
    · exact absurd hm (hnew tag v)
    · exact h.1 tag v hP hm
  · induction new generalizing newer with
    | nil => exact h.2 newer tag v older he hP tag' v' hP' hm
    | cons ev new ih =>
        cases newer with
        | nil =>
            obtain ⟨rfl, -⟩ := List.cons.inj he
            exact absurd List.mem_cons_self (hnew tag v)
        | cons ev' newer =>
            exact ih (fun tag v hm => hnew tag v (List.mem_cons_of_mem _ hm)) newer
              (List.cons.inj he).2

theorem Sighted.saw (h : Sighted P Rel log db) (hrefl : Rel db db) {tag : Tag} {v : Store K R}
    (hv : P tag = true → v = db) : Sighted P Rel (.saw tag v :: log) db := by
  refine ⟨fun tag' v' hP hm => ?_, fun newer tag' v' older he hP tag'' v'' hP' hm => ?_⟩
  · rcases List.mem_cons.1 hm with he | hm
    · cases he
      rw [hv hP]
      exact hrefl
    · exact h.1 tag' v' hP hm
  · cases newer with
    | nil =>
        obtain ⟨he, rfl⟩ := List.cons.inj he
        cases he
        rw [hv hP]
        exact h.1 tag'' v'' hP' hm
    | cons ev newer => exact h.2 newer tag' v' older (List.cons.inj he).2 hP tag'' v'' hP' hm

end

/-- In a run where such statements run without writes and no move breaks the relation, it holds
between the sightings of one task. -/
theorem ReachBy.sighted {J : Job → Prop} (hrefl : ∀ db, Rel db db) (htasks : s₀.tasks = [])
    (hclean : ∀ s, ReachBy sh body ok s₀ s → ∀ t ∈ s.tasks, J t.job →
      ∀ tag run next fail, t.prog = .stmt tag run next fail → P tag = true →
      t.loc.writes = [])
    (hmove : ∀ s s' m, ReachBy sh body ok s₀ s → ok s m → s.move sh body m = some s' →
      ∀ t ∈ s.tasks, J t.job → ∀ tag v, P tag = true → .saw tag v ∈ t.loc.log →
        Rel v s.db → Rel v s'.db)
    (h : ReachBy sh body ok s₀ s) :
    ∀ t ∈ s.tasks, J t.job → Sighted P Rel t.loc.log s.db := by
  induction h with
  | init =>
      intro t ht
      rw [htasks] at ht
      cases ht
  | @step s s' m hs hok hm ih =>
      have hold : ∀ t ∈ s.tasks, J t.job → Sighted P Rel t.loc.log s'.db := fun t ht hj =>
        (ih t ht hj).later (hmove s s' m hs hok hm t ht hj)
      intro t ht hj
      cases Sys.move_cases hm with
      | started j hdb hmem htasks' =>
          rw [htasks'] at ht
          rcases List.mem_append.1 ht with ht | ht
          · exact hold t ht hj
          · rw [List.mem_singleton.1 ht]
            refine ⟨fun tag v _ hmem' => (nomatch hmem'), fun newer tag v older he => ?_⟩
            cases newer <;> cases he
      | dropped i u hu hdb hmem htasks' =>
          rw [htasks'] at ht
          exact hold t (List.mem_of_mem_eraseIdx ht) hj
      | ran i c u u' hu hjob htasks' hadv =>
          rw [htasks'] at ht
          rcases List.mem_or_eq_of_mem_set ht with ht | rfl
          · exact hold t ht hj
          · have hu' : u ∈ s.tasks := List.mem_of_getElem? hu
            rw [hjob] at hj
            rcases advance_saw hadv with ⟨tag, run, next, fail, hp, hdb, hlog⟩ |
              ⟨new, hlog, hnew⟩
            · rw [hlog]
              refine (hold u hu' hj).saw (hrefl _) fun hP => ?_
              rw [hclean s hs u hu' hj tag run next fail hp hP, hdb]
              rfl
            · rw [hlog]
              exact (hold u hu' hj).append hnew

end

end ReadCommitted
