import Dd2Server.Reports.Calls

/-!
# Rules for reports

What a report proves of its statements: each goes to an assertion about the committed rows and the
view, and of an error nothing is asked.  A run of reports is all or nothing, call by call.
-/

namespace Dd2Server

open ReadCommitted

namespace Reports

abbrev setting (P : Protocol Table.Key Table.Row) (C : Tag → Db → Prop)
    (G : Promise Table.Key Table.Row Tag Ask.Ans Act.Out) :
    Setting Table.Key Table.Row Tag Ask.Ans Act.Out := ⟨P, C, G, fun _ => True⟩

abbrev anyError {ε : Type} : ε → Known Table.Key Table.Row Tag Ask.Ans Act.Out :=
  fun _ _ _ => True

abbrev anyResult {α : Type} : α → Known Table.Key Table.Row Tag Ask.Ans Act.Out :=
  fun _ _ _ => True

section

variable {P : Protocol Table.Key Table.Row} {C : Tag → Db → Prop}
  {G : Promise Table.Key Table.Row Tag Ask.Ans Act.Out} {since : Log} {L : List (Lock Table.Key)}
  {A : Assertion Table.Key Table.Row} {pg : Pg} {mapUid : String} {specId : Int}

/-- The rule of a statement, whatever it does to the view. -/
theorem stmt_triple {β : Type} {s : Sql β} {L' : β → List (Lock Table.Key)}
    {A' : β → Assertion Table.Key Table.Row}
    (hrun : ∀ ws db e b, P.Inv db → A db (Store.view ws db) → C s.tag (Store.view ws db) →
      s.run (Store.view ws db) = some (e, b) →
      (∀ x ∈ L' b, x ∈ e.allLocks (Store.view ws db) ++ L) ∧
      ∀ db', Rely P (e.allLocks (Store.view ws db) ++ L) db db' → A db' (Store.view ws db') →
        A' b db' (Store.view e.writes (Store.view ws db'))) :
    Triple (setting P C G) since anyError L A (sql s) L' A' :=
  .query (fun _ => trivial) (fun _ _ _ _ => trivial) (fun _ _ _ _ _ _ _ _ _ _ => trivial) hrun

/-- A statement that only looks leaves the assertion as it was. -/
theorem looks_triple {β : Type} {s : Sql β} (h : Looks s) :
    Triple (setting P C G) since anyError L A (sql s) (fun _ => L) (fun _ => A) := by
  refine stmt_triple fun ws db e b _ _ _ he => ⟨fun x hx => List.mem_append_right _ hx,
    fun db' _ hA' => ?_⟩
  rw [h _ e b he]
  exact hA'

theorem lockMaterializedSpec_triple :
    Triple (setting P C G) since anyError L A (ListedMaps.lockMaterializedSpec pg mapUid specId)
      (fun _ => L) (fun _ => A) := by
  refine Triple.bind (looks_triple looks_lockSpec) fun source => ?_
  cases source with
  | none => exact .pure (fun _ _ _ hA => hA) fun _ hx => hx
  | some source =>
      exact Triple.bind (looks_triple looks_shareBinding) fun binding =>
        .pure (fun _ _ _ hA => hA) fun _ hx => hx

/-- The commit at the end of a report. -/
theorem commitQ_ends (hguar : ∀ db v, P.Inv db → A db v → Guarantee P L db v)
    (hG : ∀ log db v, P.Inv db → A db v → G log db v) :
    Ends (setting P C G) since anyError L A commitQ anyResult := by
  have hret : (commitQ : Query DbError Unit) = (do commitQ; return ()) := (bind_pure _).symm
  rw [hret]
  exact .commit (fun _ _ _ _ => trivial) hguar (fun log db v _ => hG log db v)
    fun _ _ _ _ _ _ _ _ => trivial

/-- A report gives up without a commit. -/
theorem giveUp_ends {α : Type} {a : α} :
    Ends (setting P C G) since anyError L A (pure a : Query DbError α) anyResult :=
  .pure fun _ _ _ _ _ _ _ _ => trivial

/-- What the assertion says of neither state may be used at once. -/
theorem fact_ends {α ε : Type} {x : Query ε α} {φ : Prop} (hφ : ∀ db v, A db v → φ)
    (h : φ → Ends (setting P C G) since anyError L A x anyResult) :
    Ends (setting P C G) since anyError L A x anyResult :=
  fun l db hinv hl => h (hφ _ _ (hl.now hinv)) l db hinv hl

/-- A report is one transaction, in which `v = db` at first. -/
theorem report_pool {α : Type} {x : Query DbError α}
    (h : ∀ since, Ends (setting P C G) since anyError [] (fun db v => v = db) x anyResult) :
    Pool (setting P C G) anyError (fun _ _ => True) (transaction x) anyResult :=
  Pool.transaction fun since _ _ _ => (h since).pre fun _ _ _ hA => hA.1

theorem toCall_safe {ε α : Type} {x : Query ε α} {db : Db} (hdb : P.Inv db)
    (h : Pool (setting P C G) anyError (fun _ _ => True) x anyResult) :
    Safe P C G (fun _ _ _ => True) (Query.toCall x) {} db :=
  (h {} db hdb rfl rfl fun _ _ => trivial).bind (fun _ _ _ _ _ _ _ => trivial) hdb

end

/-! ## All or nothing -/

variable {pg : Pg} {C : Tag → Db → Prop} {s₀ s : CallSystem}

/-- A report that fails or is dropped has changed nothing: rows change by a commit, which the log of
its task keeps, and a report that committed has nothing left but to return `Ok`. -/
structure Atomic (pg : Pg) (s : CallSystem) : Prop where
  changed : ∀ m s', s.move shared (WayfinderJob.call pg) m = some s' →
    s'.db = s.db ∨ ∃ i c t t', m = .run i c ∧ s.CommittedBy s' i t t'
  failed : ∀ t ∈ s.tasks, t.job.Reports → t.prog.result = some false → Uncommitted t.loc.log
  unfinished : ∀ t ∈ s.tasks, t.job.Reports → Uncommitted t.loc.log ∨
    t.prog.Ending fun ok => ok = true

theorem atomic (htasks : s₀.tasks = []) (h : Reach shared (WayfinderJob.call pg) C s₀ s) :
    Atomic pg s := by
  have hundecided := h.undecided (fun j hj => WayfinderJob.Reports.commitsLast (j := j) hj) htasks
  refine ⟨fun m s' hm => Sys.moved_committed hm, fun t ht hj hr => ?_, fun t ht hj => ?_⟩
  · rcases hundecided t ht hj with ⟨hlog, -⟩ | hend
    · exact hlog
    · rw [Prog.result_eq_some.1 hr] at hend
      cases hend
  · exact (hundecided t ht hj).imp_left And.left

end Reports

end Dd2Server
