import Dd2Server.Linked.Chain
import Dd2Server.Runtime

/-!
# The contexts of a session

A client reports the context that it is in, and the server links it to the one before: the new row
names its predecessor, and a second statement makes the predecessor name its successor.  Nothing
holds the statements together.  After an error the session goes on from the context before, which
the next report then names as predecessor again.
-/

namespace Dd2Server.Contexts

open Linked

/-- What becomes of a statement. -/
inductive Fate
  | done
  /-- It writes nothing. -/
  | failed
  /-- It writes, and its answer is lost. -/
  | lost
  deriving DecidableEq

structure ContextRow where
  contextId : Uuid
  predecessor : Option Uuid
  successor : Option Uuid
  terminated : Bool
  deriving DecidableEq

/-- The contexts of a session, and what the read loop remembers of them. -/
structure SessionContexts where
  contexts : List ContextRow
  ctxId : Option Uuid
  previousCtx : Option Uuid

/-- A report, with the id drawn for its row and the fate of each statement; there is one for the map
if the report names one. -/
structure ContextReport where
  contextId : Uuid
  map : Option Fate
  insert : Fate
  mark : Fate
  deriving DecidableEq

def getOrInsertMap (fate : Option Fate) : Bool := fate.all (· = .done)

/-- The row, unless its id is taken; and whether the caller hears of it. -/
def insertContext (contexts : List ContextRow) (contextId : Uuid)
    (predecessor : Option Uuid) (fate : Fate) : Bool × List ContextRow :=
  if fate = .failed ∨ contextId ∈ contexts.map (·.contextId) then (false, contexts)
  else (fate = .done,
    contexts ++ [{ contextId, predecessor, successor := none, terminated := false }])

def contextMarkSucceeded (contexts : List ContextRow) (prior successor : Uuid) (fate : Fate) :
    Bool × List ContextRow :=
  if fate = .failed then (false, contexts)
  else
    (fate = .done, contexts.map fun r =>
      if r.contextId = prior then { r with successor := some successor, terminated := true } else r)

/-- The context that a new one succeeds. -/
def SessionContexts.prior (s : SessionContexts) : Option Uuid := s.ctxId <|> s.previousCtx

def updateContext (s : SessionContexts) (r : ContextReport) :
    Except DbError Unit × SessionContexts :=
  let s := { s with previousCtx := s.prior }
  if !getOrInsertMap r.map then (.error .database, s)
  else
    match insertContext s.contexts r.contextId s.previousCtx r.insert with
    | (false, contexts) => (.error .database, { s with contexts })
    | (true, contexts) =>
        match s.previousCtx with
        | none => (.ok (), { s with contexts, ctxId := some r.contextId })
        | some prior =>
            match contextMarkSucceeded contexts prior r.contextId r.mark with
            | (false, contexts) => (.error .database, { s with contexts })
            | (true, contexts) => (.ok (), { s with contexts, ctxId := some r.contextId })

/-! ## What a report does -/

def ContextRow.node (r : ContextRow) : Node Uuid := ⟨r.contextId, r.predecessor, r.successor⟩

def SessionContexts.nodes (s : SessionContexts) : List (Node Uuid) := s.contexts.map ContextRow.node

/-- The report writes its row. -/
def Writes (s : SessionContexts) (r : ContextReport) : Prop :=
  getOrInsertMap r.map = true ∧ r.insert ≠ .failed ∧ r.contextId ∉ s.nodes.map Node.id

instance (s : SessionContexts) (r : ContextReport) : Decidable (Writes s r) :=
  inferInstanceAs (Decidable (_ ∧ _))

/-- The context before is not made to name the new one. -/
def LeavesOpen (s : SessionContexts) (r : ContextReport) : Prop :=
  s.prior ≠ none ∧ (r.insert = .lost ∨ r.mark = .failed)

instance (s : SessionContexts) (r : ContextReport) : Decidable (LeavesOpen s r) :=
  inferInstanceAs (Decidable (_ ∧ _))

/-- The session does not go on from the new context. -/
def Forgets (s : SessionContexts) (r : ContextReport) : Prop :=
  r.insert = .lost ∨ s.prior ≠ none ∧ r.mark ≠ .done

instance (s : SessionContexts) (r : ContextReport) : Decidable (Forgets s r) :=
  inferInstanceAs (Decidable (_ ∨ _))

variable {s : SessionContexts} {r : ContextReport}

theorem ids_nodes (s : SessionContexts) : s.nodes.map Node.id = s.contexts.map (·.contextId) := by
  rw [SessionContexts.nodes, List.map_map]
  rfl

theorem updateContext_of_not_writes (h : ¬Writes s r) :
    (updateContext s r).2 = { s with previousCtx := s.prior } := by
  rw [Writes, ids_nodes] at h
  unfold updateContext
  cases hmap : getOrInsertMap r.map with
  | false => rfl
  | true =>
      have hinsert : insertContext s.contexts r.contextId s.prior r.insert =
          (false, s.contexts) := by
        rw [insertContext, if_pos]
        by_contra hno
        exact h ⟨hmap, fun hf => hno (.inl hf), fun hm => hno (.inr hm)⟩
      simp only [Bool.not_true, Bool.false_eq_true, if_false, hinsert]

theorem nodes_mark (contexts : List ContextRow) (a b : Uuid) :
    (contexts.map fun r =>
      if r.contextId = a then { r with successor := some b, terminated := true }
      else r).map ContextRow.node = relink a b (contexts.map ContextRow.node) := by
  rw [relink, List.map_map, List.map_map]
  refine List.map_congr_left fun x _ => ?_
  show ContextRow.node (if x.contextId = a then _ else x) = if x.contextId = a then _ else _
  split <;> rfl

/-- A report that writes its row adds it, and links to it unless that fails. -/
theorem updateContext_of_writes (h : Writes s r) :
    (updateContext s r).2.nodes =
      (match s.prior with
        | none => s.nodes ++ [⟨r.contextId, none, none⟩]
        | some a =>
            if LeavesOpen s r then s.nodes ++ [⟨r.contextId, some a, none⟩]
            else relink a r.contextId (s.nodes ++ [⟨r.contextId, some a, none⟩])) ∧
    (updateContext s r).2.ctxId = (if Forgets s r then s.ctxId else some r.contextId) ∧
    (updateContext s r).2.previousCtx = s.prior := by
  obtain ⟨hmap, hinsert, hid⟩ := h
  rw [ids_nodes] at hid
  have hrow : insertContext s.contexts r.contextId s.prior r.insert =
      (decide (r.insert = .done), s.contexts ++ [⟨r.contextId, s.prior, none, false⟩]) := by
    rw [insertContext, if_neg (not_or.2 ⟨hinsert, hid⟩)]
  unfold updateContext
  simp only [hmap, Bool.not_true, Bool.false_eq_true, if_false, hrow]
  cases hfate : r.insert with
  | failed => exact absurd hfate hinsert
  | lost =>
      simp only [LeavesOpen, Forgets, hfate]
      cases hprior : s.prior <;> simp [SessionContexts.nodes, ContextRow.node]
  | done =>
      cases hprior : s.prior with
      | none => simp [SessionContexts.nodes, ContextRow.node, Forgets, hfate, hprior]
      | some a =>
          cases hmark : r.mark with
          | failed =>
              simp [contextMarkSucceeded, SessionContexts.nodes, ContextRow.node, LeavesOpen,
                Forgets, hfate, hprior, hmark]
          | lost =>
              simp only [contextMarkSucceeded, LeavesOpen, Forgets, hfate, hprior, hmark]
              refine ⟨(nodes_mark _ a r.contextId).trans ?_, rfl, rfl⟩
              rw [List.map_append]
              rfl
          | done =>
              simp only [contextMarkSucceeded, LeavesOpen, Forgets, hfate, hprior, hmark]
              refine ⟨(nodes_mark _ a r.contextId).trans ?_, rfl, rfl⟩
              rw [List.map_append]
              rfl

/-! ## Sessions that stay linked -/

/-- The rows are the linked ones of these ids, and the session goes on from the last, or from the
one before it where it forgot the last. -/
structure Linear (forgotten : Bool) (s : SessionContexts) (ids : List Uuid) : Prop where
  nodup : ids.Nodup
  nodes : s.nodes = chain none ids
  ctxId : s.ctxId = (if forgotten then ids.dropLast else ids).getLast?
  previousCtx : s.ctxId = none → s.previousCtx = none
  nonempty : forgotten = true → ids ≠ []

namespace Linear

variable {forgotten : Bool} {ids : List Uuid}

theorem prior (h : Linear forgotten s ids) :
    s.prior = (if forgotten then ids.dropLast else ids).getLast? := by
  rw [SessionContexts.prior, ← h.ctxId]
  cases hctx : s.ctxId with
  | none => exact h.previousCtx hctx
  | some a => rfl

theorem notMem (h : Linear forgotten s ids) (hw : Writes s r) : r.contextId ∉ ids := by
  have hid := hw.2.2
  rwa [h.nodes, map_id_chain] at hid

theorem nodup_append (h : Linear forgotten s ids) (hw : Writes s r) :
    (ids ++ [r.contextId]).Nodup := by
  have hnew := h.notMem hw
  exact List.nodup_append.2 ⟨h.nodup, List.nodup_singleton _, by
    rintro a ha b hb rfl
    obtain rfl := List.mem_singleton.1 hb
    exact hnew ha⟩

theorem intact (h : Linear forgotten s ids) (new : Option Uuid) : Intact new s.nodes := by
  rw [h.nodes]
  exact intact_chain h.nodup new

/-- A report that writes no row keeps the session as it is. -/
theorem idle (h : Linear forgotten s ids) (hw : ¬Writes s r) :
    Linear forgotten (updateContext s r).2 ids := by
  rw [updateContext_of_not_writes hw]
  exact ⟨h.nodup, h.nodes, h.ctxId, fun hctx => by
    show s.prior = none
    rw [SessionContexts.prior, show s.ctxId = none from hctx, h.previousCtx hctx]
    rfl, h.nonempty⟩

/-- The rows after a report that writes one and links to it. -/
theorem nodes_closed (h : Linear false s ids) (hw : Writes s r) (hopen : ¬LeavesOpen s r) :
    (updateContext s r).2.nodes = chain none (ids ++ [r.contextId]) := by
  have hprior : s.prior = ids.getLast? := h.prior
  have hnew := h.notMem hw
  rw [(updateContext_of_writes hw).1, hprior, h.nodes]
  cases hlast : ids.getLast? with
  | none =>
      obtain rfl := List.getLast?_eq_none_iff.1 hlast
      rfl
  | some a =>
      have hne : r.contextId ≠ a := by
        rintro rfl
        exact hnew (List.mem_of_getLast? hlast)
      simp only [if_neg hopen]
      rw [chain_concat h.nodup hlast]
      simp [relink, hne]

/-- The rows after a report that writes one without a link to it. -/
theorem nodes_open (h : Linear false s ids) (hw : Writes s r) (hopen : LeavesOpen s r) :
    (updateContext s r).2.nodes = chain none ids ++ [⟨r.contextId, ids.getLast?, none⟩] := by
  have hprior : s.prior = ids.getLast? := h.prior
  rw [(updateContext_of_writes hw).1, h.nodes, ← hprior]
  cases hp : s.prior with
  | none => exact absurd hp hopen.1
  | some a => exact if_pos hopen

/-- A report that writes and links its row makes the chain longer. -/
theorem closed (h : Linear false s ids) (hw : Writes s r) (hopen : ¬LeavesOpen s r) :
    Linear (Forgets s r) (updateContext s r).2 (ids ++ [r.contextId]) := by
  obtain ⟨-, hctx, hprevious⟩ := updateContext_of_writes hw
  refine ⟨h.nodup_append hw, h.nodes_closed hw hopen, ?_, fun hnone => ?_, fun _ => by simp⟩
  · rw [hctx]
    by_cases hforget : Forgets s r
    · rw [if_pos hforget, decide_eq_true hforget, if_pos rfl, List.dropLast_concat]
      exact h.ctxId
    · rw [if_neg hforget, decide_eq_false hforget, if_neg Bool.false_ne_true, List.getLast?_concat]
  · rw [hctx] at hnone
    split at hnone
    case isTrue =>
      rw [hprevious, SessionContexts.prior, hnone, h.previousCtx hnone]
      rfl
    case isFalse => cases hnone

/-- Any report that writes its row leaves the links intact, but for the one to the new row. -/
theorem intact_writes (h : Linear false s ids) (hw : Writes s r) :
    Intact (some r.contextId) (updateContext s r).2.nodes := by
  by_cases hopen : LeavesOpen s r
  · rw [h.nodes_open hw hopen]
    exact intact_append (h.nodup_append hw)
  · rw [h.nodes_closed hw hopen]
    exact intact_chain (h.nodup_append hw) _

/-- A row that is written after one was forgotten names the same predecessor. -/
theorem not_intact_of_forgotten (h : Linear true s ids) (hw : Writes s r) (new : Option Uuid) :
    ¬Intact new (updateContext s r).2.nodes := by
  intro hintact
  obtain ⟨init, b, hids⟩ : ∃ init b, ids = init ++ [b] := by
    rcases ids.eq_nil_or_concat with hnil | ⟨init, b, hids⟩
    · exact absurd hnil (h.nonempty rfl)
    · exact ⟨init, b, by rw [hids, List.concat_eq_append]⟩
  subst hids
  have hprior : s.prior = init.getLast? := by
    rw [h.prior, if_pos rfl, List.dropLast_concat]
  have hnew := h.notMem hw
  have hne : b ≠ r.contextId := by
    rintro rfl
    exact hnew (by simp)
  -- the forgotten row and the new one both name the last of `init`
  obtain ⟨x, hx, hxid, hxpred⟩ : ∃ x ∈ s.nodes, x.id = b ∧
      x.predecessor = init.getLast? := by
    rw [h.nodes]
    cases hlast : init.getLast? with
    | none =>
        obtain rfl := List.getLast?_eq_none_iff.1 hlast
        exact ⟨_, List.mem_cons_self, rfl, rfl⟩
    | some a =>
        rw [chain_concat (List.nodup_append.1 h.nodup).1 hlast]
        exact ⟨_, List.mem_append_right _ List.mem_cons_self, rfl, rfl⟩
  have hrows := (updateContext_of_writes hw).1
  have hboth : ∃ y ∈ (updateContext s r).2.nodes, ∃ z ∈ (updateContext s r).2.nodes, y.id =
      b ∧
      z.id = r.contextId ∧ y.predecessor = init.getLast? ∧ z.predecessor = init.getLast? := by
    rw [hrows, hprior]
    cases hlast : init.getLast? with
    | none =>
        rw [hlast] at hxpred
        exact ⟨x, List.mem_append_left _ hx, _, List.mem_append_right _ List.mem_cons_self, hxid,
          rfl, hxpred, rfl⟩
    | some a =>
        rw [hlast] at hxpred
        show ∃ y ∈ ite _ _ _, ∃ z ∈ ite _ _ _, _
        split
        case isTrue =>
          exact ⟨x, List.mem_append_left _ hx, _, List.mem_append_right _ List.mem_cons_self,
            hxid, rfl, hxpred, rfl⟩
        case isFalse =>
          obtain ⟨y, hy, hyid, hypred⟩ := exists_mem_relink (a := a) (b := r.contextId)
            (List.mem_append_left [(⟨r.contextId, some a, none⟩ : Node Uuid)] hx)
          obtain ⟨z, hz, hzid, hzpred⟩ := exists_mem_relink (a := a) (b := r.contextId)
            (List.mem_append_right s.nodes
              (List.mem_cons_self (a := (⟨r.contextId, some a, none⟩ : Node Uuid))))
          exact ⟨y, hy, z, hz, hyid.trans hxid, hzid, hypred.trans hxpred, hzpred⟩
  obtain ⟨y, hy, z, hz, hyid, hzid, hypred, hzpred⟩ := hboth
  have hyz : y = z := by
    cases hlast : init.getLast? with
    | none => exact hintact.root_unique hy hz (hypred.trans hlast) (hzpred.trans hlast)
    | some a =>
        refine hintact.unbranched y hy z hz (hypred.trans hzpred.symm) ?_
        rw [hypred, hlast]
        exact Option.some_ne_none a
  exact hne (hyid.symm.trans ((congrArg Node.id hyz).trans hzid))

/-- A link that was left open is not made up for by the next report. -/
theorem not_intact_of_open (h : Linear false s ids) (hw : Writes s r) (hopen : LeavesOpen s r)
    (r' : ContextReport) :
    ¬Intact (if Writes (updateContext s r).2 r' then some r'.contextId else none)
      (updateContext (updateContext s r).2 r').2.nodes := by
  intro hintact
  have hnew := h.notMem hw
  have hprior : s.prior = ids.getLast? := h.prior
  obtain ⟨a, ha⟩ := Option.ne_none_iff_exists'.1 hopen.1
  have hnodes := h.nodes_open hw hopen
  rw [← hprior, ha] at hnodes
  generalize (updateContext s r).2 = s₁ at hintact hnodes
  have hsucc : ∀ x ∈ s₁.nodes, x.successor ≠ some r.contextId := by
    intro x hx he
    rw [hnodes] at hx
    rcases List.mem_append.1 hx with hx | hx
    · exact hnew (successor_mem_of_mem_chain hx he)
    · obtain rfl := List.mem_singleton.1 hx
      cases he
  have hmem : (⟨r.contextId, some a, none⟩ : Node Uuid) ∈ s₁.nodes := by
    rw [hnodes]
    exact List.mem_append_right _ List.mem_cons_self
  by_cases hw' : Writes s₁ r'
  · have hne : r.contextId ≠ r'.contextId := by
      intro he
      exact hw'.2.2 (List.mem_map.2 ⟨_, hmem, he⟩)
    have hafter : (∀ x ∈ (updateContext s₁ r').2.nodes, x.successor ≠ some r.contextId) ∧
        ∃ x ∈ (updateContext s₁ r').2.nodes, x.id = r.contextId ∧
          x.predecessor = some a := by
      have hgrown : ∀ p, (∀ x ∈ s₁.nodes ++ [⟨r'.contextId, p, none⟩],
          x.successor ≠ some r.contextId) ∧
          ∃ x ∈ s₁.nodes ++ [⟨r'.contextId, p, none⟩], x.id = r.contextId ∧
            x.predecessor = some a := by
        intro p
        refine ⟨fun x hx => ?_, _, List.mem_append_left _ hmem, rfl, rfl⟩
        rcases List.mem_append.1 hx with hx | hx
        · exact hsucc x hx
        · obtain rfl := List.mem_singleton.1 hx
          exact nofun
      rw [(updateContext_of_writes hw').1]
      split
      case h_1 => exact hgrown none
      case h_2 c _ =>
        split
        case isTrue => exact hgrown (some c)
        case isFalse =>
          obtain ⟨hno, x, hx, hxid, hxpred⟩ := hgrown (some c)
          obtain ⟨y, hy, hyid, hypred⟩ := exists_mem_relink (a := c) (b := r'.contextId) hx
          refine ⟨fun z hz he => ?_, y, hy, hyid.trans hxid, hypred.trans hxpred⟩
          obtain ⟨w, hw, -, -, hsuccessor⟩ := mem_relink hz
          rcases hsuccessor with hb | hb
          · exact hne (Option.some.inj (he.symm.trans hb))
          · exact hno w hw (hb.symm.trans he)
    obtain ⟨hno, x, hx, hxid, hxpred⟩ := hafter
    rw [if_pos hw'] at hintact
    obtain ⟨y, hy, -, hysucc⟩ :=
      hintact.back x hx a hxpred fun he => hne (hxid.symm.trans (Option.some.inj he))
    exact hno y hy (hysucc.trans (congrArg some hxid))
  · rw [if_neg hw', updateContext_of_not_writes hw'] at hintact
    obtain ⟨y, hy, -, hysucc⟩ := hintact.back _ hmem a rfl nofun
    exact hsucc y hy hysucc

end Linear

/-! ## Runs -/

/-- The id of the row that a report writes. -/
def newContext (s : SessionContexts) (r : ContextReport) : Option Uuid :=
  if Writes s r then some r.contextId else none

/-- After each report of a run the links are intact, but for the one to the row that this report
wrote. -/
def StaysIntact : SessionContexts → List ContextReport → Prop
  | _, [] => True
  | s, r :: rs =>
      Intact (newContext s r) (updateContext s r).2.nodes ∧ StaysIntact (updateContext s r).2 rs

/-- No row is written after one that the session forgot, and no report follows one that left its
link open. -/
def Unbroken : Bool → SessionContexts → List ContextReport → Prop
  | _, _, [] => True
  | forgotten, s, r :: rs =>
      if Writes s r then
        forgotten = false ∧ (LeavesOpen s r → rs = []) ∧
          Unbroken (Forgets s r) (updateContext s r).2 rs
      else Unbroken forgotten (updateContext s r).2 rs

instance decidableUnbroken : ∀ forgotten s rs, Decidable (Unbroken forgotten s rs)
  | _, _, [] => .isTrue trivial
  | forgotten, s, r :: rs =>
      haveI := decidableUnbroken (Forgets s r) (updateContext s r).2 rs
      haveI := decidableUnbroken forgotten (updateContext s r).2 rs
      inferInstanceAs (Decidable (if Writes s r then
        forgotten = false ∧ (LeavesOpen s r → rs = []) ∧
          Unbroken (Forgets s r) (updateContext s r).2 rs
      else Unbroken forgotten (updateContext s r).2 rs))

theorem staysIntact_iff {forgotten : Bool} {ids : List Uuid} {rs : List ContextReport}
    (h : Linear forgotten s ids) : StaysIntact s rs ↔ Unbroken forgotten s rs := by
  induction rs generalizing forgotten s ids with
  | nil => exact Iff.rfl
  | cons r rs ih =>
      rw [StaysIntact, Unbroken, newContext]
      by_cases hw : Writes s r
      · rw [if_pos hw, if_pos hw]
        cases forgotten with
        | true =>
            exact iff_of_false (fun hall => h.not_intact_of_forgotten hw _ hall.1)
              fun hno => nomatch hno.1
        | false =>
            rw [and_iff_right (h.intact_writes hw), and_iff_right rfl]
            by_cases hopen : LeavesOpen s r
            · cases rs with
              | nil => exact iff_of_true trivial ⟨fun _ => rfl, trivial⟩
              | cons r' rs =>
                  refine iff_of_false (fun hall => ?_) fun hno => nomatch hno.1 hopen
                  exact h.not_intact_of_open hw hopen r' hall.1
            · rw [and_iff_right fun hno => absurd hno hopen]
              exact ih (h.closed hw hopen)
      · rw [if_neg hw, if_neg hw, and_iff_right ((h.idle hw).intact none)]
        exact ih (h.idle hw)

/-- The state of a session before its first report. -/
def SessionContexts.start : SessionContexts := ⟨[], none, none⟩

theorem linear_start : Linear false .start [] := ⟨List.nodup_nil, rfl, rfl, fun _ => rfl, nofun⟩

/-- A session stays linked exactly if no row is written after one that it forgot, and no report
follows one that left its link open. -/
theorem contexts_stay_linked_iff (rs : List ContextReport) :
    StaysIntact .start rs ↔ Unbroken false .start rs :=
  staysIntact_iff linear_start

/-- The statement that links the second context fails, and the third context names the first
again. -/
theorem contexts_branch :
    ¬StaysIntact .start [⟨1, none, .done, .done⟩, ⟨2, none, .done, .failed⟩,
      ⟨3, none, .done, .done⟩] := by
  rw [staysIntact_iff linear_start]
  decide

end Dd2Server.Contexts
