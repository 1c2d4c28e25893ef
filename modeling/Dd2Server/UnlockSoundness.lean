import Dd2Server.Runs

/-!
# Inserted unlocks are earned

The validation of an unlock runs before the transaction, against the row that was on the map then.
What carries it over to the insert are the share locks of the transaction and the comparison of the
locked row with the one that was validated.
-/

namespace Dd2Server

open ReadCommitted

/-- The insert of an unlock was earned: the row that was looked at was validated, and the map was
bound to the spec, materialized and had that row, when the insert ran and when it was committed. -/
structure Earned (pg : Pg) (u : Uuid) (m slug : String) (specId : Int) (row : Hats.OnMapRow)
    (older : Log) (pre : Db) : Prop where
  lookedAt : LookedAt m slug row older
  validated : Validated u m row older
  inserted : ∃ v, .saw (.named "report_unlock") v ∈ older ∧ Offers pg m slug specId row v
  committed : Offers pg m slug specId row pre

/-- The committed rows do not offer what the log has looked at. -/
def Withdrawn (pg : Pg) (m slug : String) (specId : Int) (log : Log) (db : Db) : Prop :=
  ∀ row, LookedAt m slug row log → ¬Offers pg m slug specId row db

section

variable {pg : Pg} {u : Uuid} {m slug : String} {specId : Int} {pre post : Db}
    {log newer older : Log}

/-- The only unlock a commit of the call inserts is the one of the row. -/
theorem UnlockCommit.earned (h : UnlockCommit pg u m slug specId older pre post)
    {k : Uuid × String} (hnew : post.get ⟨.hatUnlock, k⟩ ≠ pre.get ⟨.hatUnlock, k⟩) :
    ∃ row, k = (u, row.hatKey) ∧ Earned pg u m slug specId row older pre := by
  obtain ⟨row, hlook, hval, hins, hoff, rfl | hun⟩ := h
  · exact absurd rfl hnew
  · refine ⟨row, ?_, hlook, hval, hins, hoff⟩
    by_contra hk
    exact hnew (hun.rest ⟨.hatUnlock, k⟩ (by simpa using hk))

theorem UnlockCommit.not_withdrawn (h : UnlockCommit pg u m slug specId log pre post) :
    ¬Withdrawn pg m slug specId log pre := by
  obtain ⟨row, hlook, -, -, hoff, -⟩ := h
  exact fun hgone => hgone row hlook hoff

theorem JustCommitted.mem (h : JustCommitted log) : ∃ pre post, .committed pre post ∈ log := by
  obtain ⟨pre, post, older, rfl, -⟩ := h
  exact ⟨pre, post, List.mem_cons_self⟩

/-- A call says yes when it committed or found the hat unlocked, and else no. -/
theorem UnlockReply.ok_iff {yes : Bool} {db : Db} (h : UnlockReply u yes log db) :
    (¬Uncommitted log → yes = true) ∧ (yes = true → ¬Uncommitted log ∨
      AlreadyUnlocked u log) := by
  rcases h with ⟨rfl, hcase⟩ | ⟨rfl, hU⟩
  · refine ⟨fun _ => rfl, fun _ => hcase.imp (fun hc hU => ?_) And.right⟩
    obtain ⟨pre, post, hm⟩ := hc.mem
    exact hU pre post hm
  · exact ⟨fun hnot => absurd hU hnot, fun hf => nomatch hf⟩

end

/-- Every unlock that a call of `report_unlock` inserted was earned.  While the committed rows do
not offer the hat as the call looked at it, no move of the call changes a row.  A call that inserted
nothing answers with an error or no, unless it found the hat unlocked. -/
theorem inserted_unlocks_earned {pg : Pg} {db₀ : Db} {s : System} (hrun : RunFrom pg db₀ s)
    (hinv : Inv pg False db₀) {i : Nat} {t : ServerTask} (hi : s.tasks[i]? = some t) {u : Uuid}
    {m slug : String} {specId : Int} (hjob : t.job = .hatUnlock u m slug specId) :
    (∀ newer pre post older, t.loc.log = newer ++ .committed pre post :: older →
      ∀ k, post.get ⟨.hatUnlock, k⟩ ≠ pre.get ⟨.hatUnlock, k⟩ →
        ∃ row, k = (u, row.hatKey) ∧ Earned pg u m slug specId row older pre) ∧
    (Withdrawn pg m slug specId t.loc.log s.db → ∀ c s',
      s.move shared (Job.body pg) (.run i c) = some s' → s'.db = s.db) ∧
    ∀ r, t.prog = .ret r → ∃ res, r = .unlock res ∧
      ((∃ e, res = .error e) → Uncommitted t.loc.log) ∧
      (res = .ok false → Uncommitted t.loc.log) ∧
      (res = .ok true → ¬Uncommitted t.loc.log ∨ AlreadyUnlocked u t.loc.log) := by
  have ht : t ∈ s.tasks := List.mem_of_getElem? hi
  refine ⟨fun newer pre post older hlog k hnew => ?_, fun hgone c s' hm => ?_, fun r hr => ?_⟩
  · have hkept := hrun.promised hinv ht hlog
    rw [hjob] at hkept
    exact UnlockCommit.earned hkept hnew
  · obtain ⟨-, hsame | ⟨-, hkept, -⟩⟩ :=
      (hrun.sound hinv).run hi (fun _ _ _ _ _ _ _ => trivial) hm
    · exact hsame
    · rw [hjob] at hkept
      exact absurd hgone (UnlockCommit.not_withdrawn hkept)
  · have hended := hrun.ended hinv ht hr
    rw [hjob] at hended
    cases r with
    | unlock res =>
        refine ⟨res, rfl, ?_, ?_, ?_⟩
        · rintro ⟨e, rfl⟩
          exact hended
        · rintro rfl
          have hreply : UnlockReply u false t.loc.log s.db := hended
          by_contra hnot
          cases hreply.ok_iff.1 hnot
        · rintro rfl
          have hreply : UnlockReply u true t.loc.log s.db := hended
          exact hreply.ok_iff.2 rfl
    | _ => exact hended.elim

/-- The hat of the map, as the author unlocks it. -/
def Sample.unlock : Uuid × String := (1, Hats.hatKey Sample.pg Sample.mapUid "Hat-1")

/-- The author of the bound map unlocks its hat, and the verifier has answered for the finish. -/
theorem inserted_unlocks_earned_author : ∃ (s : System) (t : ServerTask) (row : Hats.OnMapRow)
    (older : Log) (pre : Db), Run Sample.pg s ∧ t ∈ s.tasks ∧
      s.db.get ⟨.hatUnlock, (1, row.hatKey)⟩ ≠ none ∧
        Earned Sample.pg 1 Sample.mapUid "Hat-1" 7 row older pre := by
  obtain ⟨s, hrun, hs⟩ : ∃ s, RunFrom Sample.pg Store.empty s ∧
      ((s.tasks[3]?.bind fun t => (lastCommit t.loc.log).map fun x => (t, x)).any fun x =>
        (match x.1.job with
          | .hatUnlock u m slug specId =>
              decide (u = 1 ∧ m = Sample.mapUid ∧ slug = "Hat-1" ∧ specId = 7)
          | _ => false) &&
        (x.2.2.1.get ⟨.hatUnlock, Sample.unlock⟩).isNone &&
        (x.2.2.2.1.get ⟨.hatUnlock, Sample.unlock⟩).isSome &&
        (s.db.get ⟨.hatUnlock, Sample.unlock⟩).isSome) = true :=
    RunFrom.scripted (Sample.bound ++ [.start (.hatUnlock 1 Sample.mapUid "Hat-1" 7),
      .go 3 40 (Sample.answers 7 none)]) (by decide +kernel)
  obtain ⟨⟨t, newer, pre, post, older⟩, hx, hok⟩ := (Option.any_eq_true _ _).1 hs
  obtain ⟨t', ht, hx⟩ := Option.bind_eq_some_iff.1 hx
  obtain ⟨x, hlast, he⟩ := Option.map_eq_some_iff.1 hx
  cases he
  simp only [Bool.and_eq_true] at hok
  obtain ⟨⟨⟨hjob, hpre⟩, hpost⟩, hnow⟩ := hok
  cases hj : t.job with
  | hatUnlock u m slug specId =>
      rw [hj] at hjob
      obtain ⟨rfl, rfl, rfl, rfl⟩ := of_decide_eq_true hjob
      obtain ⟨hearned, -⟩ := inserted_unlocks_earned hrun (inv_empty Sample.pg False) ht hj
      have hnew : post.get ⟨.hatUnlock, Sample.unlock⟩ ≠ pre.get
          ⟨.hatUnlock, Sample.unlock⟩ := by
        intro he
        rw [he, Option.isNone_iff_eq_none.1 hpre] at hpost
        cases hpost
      obtain ⟨row, hk, hrow⟩ := hearned newer pre post older (lastCommit_eq hlast) _ hnew
      refine ⟨s, t, row, older, pre, hrun, List.mem_of_getElem? ht, fun hnone => ?_, hrow⟩
      have hkey : row.hatKey = Hats.hatKey Sample.pg Sample.mapUid "Hat-1" :=
        (congrArg Prod.snd hk).symm
      rw [hkey] at hnone
      exact absurd hnow (by rw [Sample.unlock, hnone]; simp)
  | _ =>
      rw [hj] at hjob
      cases hjob

end Dd2Server
