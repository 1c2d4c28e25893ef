import Dd2Server.Binds

/-!
# Unlocks and equips as tasks

Both ask `lock_materialized_spec` first: while its two share locks are held, the map stays bound to
the spec and materialized.
-/

namespace Dd2Server

open ReadCommitted

section

variable {pg : Pg} {w : Scope} {C : Tag → Db → Prop}
  {G : Promise Table.Key Table.Row Tag Ask.Ans Act.Out} {since : Log} {α : Type}
  {E : DbError → Known Table.Key Table.Row Tag Ask.Ans Act.Out}
  {B : α → Known Table.Key Table.Row Tag Ask.Ans Act.Out} {L : List (Lock Table.Key)}
  {A : Assertion Table.Key Table.Row} {m : String} {specId : Int} {u : Uuid}

/-! ## The gate -/

theorem resolvedSpec_eq_some {v : Db} :
    ListedMaps.resolvedSpec pg v m specId = some specId ↔ ∃ b s,
      v.get ⟨.mapListingBind, m⟩ = some b ∧ v.get ⟨.specs, specId⟩ = some s ∧
        b.specId = specId ∧ b.isVerified s = true ∧ b.isCurrent pg s = true := by
  constructor
  · intro h
    obtain ⟨⟨b, s⟩, hj, h⟩ := Option.bind_eq_some_iff.1 h
    obtain ⟨hb, hs⟩ := joinBinding_eq_some.1 hj
    dsimp only at h
    split at h
    case isFalse => cases h
    case isTrue hok =>
      simp only [Bool.and_eq_true, decide_eq_true_eq] at hok
      obtain ⟨hspec, hver, hcur⟩ := hok
      exact ⟨b, s, hb, hspec ▸ hs, hspec, hver, hcur⟩
  · rintro ⟨b, s, hb, hs, hspec, hver, hcur⟩
    have hj : joinBinding v m = some (b, s) := joinBinding_eq_some.2 ⟨hb, hspec ▸ hs⟩
    simp only [ListedMaps.resolvedSpec, hj, Option.bind_some, hspec, hver, hcur, decide_true,
      Bool.and_self, if_true]

/-- The two statements and the comparisons of the gate together. -/
theorem resolvedSpec_of_locked {v : Db} {b : BindRow} {s : SpecRow}
    (hb : v.get ⟨.mapListingBind, m⟩ = some b) (hs : v.get ⟨.specs, specId⟩ = some s)
    (hrow : (decide (b.specId = specId) && b.authorVerifiedAt.isSome) = true)
    (hsame : (b.verifiedAuthorId == some s.userId &&
      b.materializedSpecUpdatedAt == some s.updatedAt &&
      b.materializedSpecHash == some (s.specHash pg)) = true) :
    ListedMaps.resolvedSpec pg v m specId = some specId := by
  simp only [Bool.and_eq_true, decide_eq_true_eq] at hrow hsame
  obtain ⟨hspec, hat⟩ := hrow
  obtain ⟨⟨hid, hup⟩, hhash⟩ := hsame
  refine resolvedSpec_eq_some.2 ⟨b, s, hb, hs, hspec, ?_, ?_⟩
  · simp only [BindRow.isVerified, hat, hid, Bool.and_self]
  · simp only [BindRow.isCurrent, hup, hhash, Bool.and_self]

theorem lockMaterializedSpec_ends {k : Bool → Query DbError α}
    (hE : OnTrouble (setting pg w C G) since E .database) (hview : ∀ db v, A db v → v = db)
    (hno : ∀ log L', Quiet Plain since log → Ends (setting pg w C G) log E L' A (k false) B)
    (hyes : ∀ log L', (∀ x ∈ L, x ∈ L') → Shares L' ⟨.mapListingBind, m⟩ →
      Quiet Plain since log → Ends (setting pg w C G) log E L'
        (fun db v => A db v ∧ ListedMaps.resolvedSpec pg db m specId = some specId) (k true) B) :
    Ends (setting pg w C G) since E L A (ListedMaps.lockMaterializedSpec pg m specId >>= k) B := by
  rw [ListedMaps.lockMaterializedSpec, bind_assoc]
  refine plain_ends (lockSpec_ends (by decide) hE (fun db v hA => by rw [hview db v hA])
    (fun log v hq => ?_) (fun log v s hq => ?_))
  · have hq₁ : Quiet Plain since (.saw (.named "lock spec") v :: log) := hq.cons trivial
    dsimp only
    rw [pure_bind]
    exact (hno _ L hq₁).pre fun db v _ hA => hA.1
  · dsimp only
    rw [bind_assoc]
    have hq₁ : Quiet Plain since (.saw (.named "lock spec") v :: log) := hq.cons trivial
    refine query_ends (hE.later hq₁) fun log₂ ws db e x hq₂ hinv hA _ hrun => ?_
    have hv := hview db _ hA.1
    have hq₃ : Quiet Plain since (.saw (ListedMaps.shareBindingStmt m specId).tag
        (Store.view ws db) :: log₂) := (hq₁.trans hq₂).cons trivial
    simp only [ListedMaps.shareBindingStmt, hv] at hrun
    cases hb : db.get ⟨.mapListingBind, m⟩ with
    | none =>
        simp only [hb] at hrun
        cases hrun
        refine ⟨L, A, fun x hx => List.mem_append_right _ (List.mem_cons_of_mem _ hx),
          fun db' _ hA' => hA'.1, ?_⟩
        rw [pure_bind]
        exact hno _ L hq₃
    | some b =>
        simp only [hb] at hrun
        split at hrun
        case isFalse =>
          cases hrun
          refine ⟨L, A, fun x hx => List.mem_append_right _ (List.mem_cons_of_mem _ hx),
            fun db' _ hA' => hA'.1, ?_⟩
          rw [pure_bind]
          exact hno _ L hq₃
        case isTrue hrow =>
          cases hrun
          rw [pure_bind, Option.any_some]
          cases hsame : (b.verifiedAuthorId == some s.userId &&
            b.materializedSpecUpdatedAt == some s.updatedAt &&
              b.materializedSpecHash == some (s.specHash pg)) with
          | false =>
              exact ⟨L, A, fun x hx => List.mem_append_right _ (List.mem_cons_of_mem _ hx),
                fun db' _ hA' => hA'.1, hno _ L hq₃⟩
          | true =>
              have hlock : (⟨⟨.mapListingBind, m⟩, .share⟩ : Lock Table.Key) ∈
                  [⟨⟨.mapListingBind, m⟩, .share⟩] ++ ⟨⟨.specs, specId⟩,
                    .share⟩ :: L :=
                List.mem_append_left _ List.mem_cons_self
              refine ⟨_, fun db v => A db v ∧
                ListedMaps.resolvedSpec pg db m specId = some specId,
                fun x hx => hx, fun db' hr hA' => ⟨hA'.1, ?_⟩, hyes _ _
                (fun x hx => List.mem_append_right _ (List.mem_cons_of_mem _ hx))
                ⟨_, hlock, rfl, by simp⟩ hq₃⟩
              refine resolvedSpec_of_locked ?_ hA'.2 hrow hsame
              rw [← hb]
              exact hr.row _ hlock (by simp)

/-! ## Unlocks -/

/-- The verifier vouched for every predicate of the row, and there is one. -/
structure Validated (u : Uuid) (m : String) (row : Hats.OnMapRow) (log : Log) : Prop where
  finish : row.finishThisMap = true → .answered (.hasRecentOfficialRecord u m) (.ok true) ∈ log
  records : ∀ uid ∈ row.recordUids, .answered (.hasOfficialRecord u uid) (.ok true) ∈ log
  some : row.finishThisMap = true ∨ row.recordUids ≠ []

/-- The row was read on the map. -/
def LookedAt (m slug : String) (row : Hats.OnMapRow) (log : Log) : Prop :=
  ∃ v r, .saw (.named "materialized_row") v ∈ log ∧
    v.get ⟨.hatOnMap, (m, slug)⟩ = some r ∧
    Hats.OnMapRow.ofRow r = row

/-- The map is bound to the spec and materialized, and has the hat as this row. -/
structure Offers (pg : Pg) (m slug : String) (specId : Int) (row : Hats.OnMapRow)
    (db : Db) : Prop where
  gate : ListedMaps.resolvedSpec pg db m specId = some specId
  hat : ∃ r, db.get ⟨.hatOnMap, (m, slug)⟩ = some r ∧ Hats.OnMapRow.ofRow r = row

theorem Validated.mono {row : Hats.OnMapRow} {log log' : Log} (h : Validated u m row log)
    (hl : ∀ ev ∈ log, ev ∈ log') : Validated u m row log' :=
  ⟨fun hf => hl _ (h.finish hf), fun uid hu => hl _ (h.records uid hu), h.some⟩

theorem LookedAt.mono {slug : String} {row : Hats.OnMapRow} {log log' : Log}
    (h : LookedAt m slug row log) (hl : ∀ ev ∈ log, ev ∈ log') :
    LookedAt m slug row log' := by
  obtain ⟨v, r, hm, hr⟩ := h
  exact ⟨v, r, hl _ hm, hr⟩

/-- The commit of an unlock: what was looked at was validated, and stood when the row was inserted
and when it was committed. -/
def UnlockCommit (pg : Pg) (u : Uuid) (m slug : String) (specId : Int) :
    Log → Db → Db → Prop := fun log pre post =>
  ∃ row, LookedAt m slug row log ∧ Validated u m row log ∧
    (∃ v, .saw (.named "report_unlock") v ∈ log ∧ Offers pg m slug specId row v) ∧
    Offers pg m slug specId row pre ∧ (post = pre ∨ Unlocked u row.hatKey pre post)

/-- An error leaves nothing. -/
def HatFailed (_ : DbError) : Known Table.Key Table.Row Tag Ask.Ans Act.Out :=
  fun log _ => Uncommitted log

theorem HatFailed.onTrouble (hU : Uncommitted since) :
    OnTrouble (setting pg w C G) since HatFailed .database := by
  intro ev log db htr hq
  refine (Quiet.uncommitted hq hU).cons fun pre post he => ?_
  rw [he] at htr
  exact htr

/-- The commit is the last thing in the log. -/
def JustCommitted (log : Log) : Prop :=
  ∃ pre post older, log = .committed pre post :: older ∧ Uncommitted older

/-- Where the transaction of an unlock ends: it said yes and committed, or neither. -/
def UnlockDone (yes : Bool) : Known Table.Key Table.Row Tag Ask.Ans Act.Out := fun log _ =>
  (yes = true ∧ JustCommitted log) ∨ (yes = false ∧ Uncommitted log)

/-- The insert of an unlock, which keeps the one that is there. -/
theorem insertUnlock_ends {key slug : String} {now : Time} {k : Unit → Query DbError α}
    (hE : OnTrouble (setting pg w C G) since E .database) (hview : ∀ db v, A db v → v = db)
    (hk : ∀ log L' v, (∀ x ∈ L, x ∈ L') → Quiet Plain since log → A v v →
      Ends (setting pg w C G) (.saw (.named "report_unlock") v :: log) E L'
        (fun db v => A db db ∧ (v = db ∨ Unlocked u key db v)) (k ()) B) :
    Ends (setting pg w C G) since E L A
      (sql (Hats.insertUnlockStmt u key m slug now) >>= k) B := by
  refine query_ends hE fun log ws db e x hq hinv hA _ hrun => ?_
  have hA₀ : ∀ {db v}, A db v → A db db := fun {db v} h => by
    have hv := hview db v h
    rwa [hv] at h
  have hAv : A (Store.view ws db) (Store.view ws db) := by
    rw [hview db _ hA]
    exact hA₀ hA
  simp only [Hats.insertUnlockStmt] at hrun
  cases hun : (Store.view ws db).get ⟨.hatUnlock, (u, key)⟩ with
  | some r =>
      simp only [hun] at hrun
      cases hrun
      exact ⟨L, _, fun x hx => hx, fun db' _ hA' => ⟨hA₀ hA', .inl (hview db' _ hA')⟩,
        hk log L _ (fun x hx => hx) hq hAv⟩
  | none =>
      simp only [hun, insertRow] at hrun
      split at hrun
      case isFalse => cases hrun
      case isTrue hok =>
        cases hrun
        refine ⟨L, _, fun x hx => List.mem_append_right _ hx,
          fun db' _ hA' => ⟨hA₀ hA', .inr ?_⟩, hk log L _ (fun x hx => hx) hq hAv⟩
        rw [hview db' _ hA']
        exact ⟨⟨_, Store.get_put_self _ (⟨.hatUnlock, (u, key)⟩ : DbKey) _⟩,
          fun k' hk' => Store.get_put_of_ne (Ne.symm hk')⟩

theorem shareHat_ends {slug : String} {k : Option Hats.OnMapRow → Query DbError α}
    (hE : OnTrouble (setting pg w C G) since E .database) (hview : ∀ db v, A db v → v = db)
    (hno : ∀ log, Quiet Plain since log → Ends (setting pg w C G) log E L A (k none) B)
    (hyes : ∀ log L' r, (∀ x ∈ L, x ∈ L') → Quiet Plain since log →
      Ends (setting pg w C G) log E L'
        (fun db v => A db v ∧ db.get ⟨.hatOnMap, (m, slug)⟩ = some r)
        (k (some (.ofRow r))) B) :
    Ends (setting pg w C G) since E L A (sql (Hats.shareHatStmt m slug) >>= k) B := by
  refine query_ends hE fun log ws db e x hq hinv hA _ hrun => ?_
  have hq₁ : Quiet Plain since (.saw (Hats.shareHatStmt m slug).tag (Store.view ws db) :: log) :=
    hq.cons trivial
  simp only [Hats.shareHatStmt, hview db _ hA] at hrun
  cases hr : db.get ⟨.hatOnMap, (m, slug)⟩ with
  | none =>
      simp only [hr] at hrun
      cases hrun
      exact ⟨L, A, fun x hx => hx, fun db' _ hA' => hA', hno _ hq₁⟩
  | some r =>
      simp only [hr] at hrun
      cases hrun
      refine ⟨_, fun db v => A db v ∧ db.get ⟨.hatOnMap, (m, slug)⟩ = some r,
        fun x hx => hx,
        fun db' hrely hA' => ⟨hA', ?_⟩,
          hyes _ _ r (fun x hx => List.mem_append_right _ hx) hq₁⟩
      rw [← hr]
      exact hrely.row ⟨⟨.hatOnMap, (m, slug)⟩, .share⟩
        (List.mem_append_left _ List.mem_cons_self) (by simp)

theorem commitUnlock_pool {slug : String} {row : Hats.OnMapRow}
    (hG : ∀ log pre post, UnlockCommit pg u m slug specId log pre post → G log pre post) :
    Pool (setting pg w C G) HatFailed
      (fun log _ => Uncommitted log ∧ LookedAt m slug row log ∧ Validated u m row log)
      (Hats.commitUnlock pg u m slug specId row) UnlockDone := by
  refine Pool.transaction fun since₀ db₀ _ ⟨hU₀, hlook, hval⟩ => Ends.ask
    fun log now hq => ?_
  have hU : Uncommitted (.answered .now now :: log : Log) :=
    (Quiet.uncommitted hq hU₀).cons (by simp)
  have hno : ∀ log₁ L' A', Quiet Plain (.answered .now now :: log) log₁ →
      Ends (setting pg w C G) log₁ HatFailed L' A' (pure false) UnlockDone :=
    fun log₁ L' A' hq₁ => Ends.pure fun log₂ db v hq₂ _ _ db' _ =>
      .inr ⟨rfl, Quiet.uncommitted hq₂ (Quiet.uncommitted hq₁ hU)⟩
  rw [Hats.lockMaterializedRow, bind_assoc]
  refine lockMaterializedSpec_ends (HatFailed.onTrouble hU) (fun db v hA => hA.1)
    (fun log₁ L₁ hq₁ => ?_) (fun log₁ L₁ _ _ hq₁ => ?_)
  · exact hno log₁ L₁ _ hq₁
  · refine shareHat_ends (HatFailed.onTrouble (Quiet.uncommitted hq₁ hU))
      (fun db v hA => hA.1.1) (fun log₂ hq₂ => hno log₂ L₁ _ (hq₁.trans hq₂))
      fun log₂ L₂ r _ hq₂ => ?_
    dsimp only
    split
    case isTrue => exact hno log₂ L₂ _ (hq₁.trans hq₂)
    case isFalse hrow =>
    have hrow : Hats.OnMapRow.ofRow r = row := of_not_not hrow
    have hU₂ : Uncommitted log₂ := Quiet.uncommitted (hq₁.trans hq₂) hU
    have hold : ∀ log₄, Quiet Plain log₂ log₄ → ∀ ev ∈ since₀, ev ∈ log₄ :=
      fun log₄ hq₄ ev hev =>
      ((hq₁.trans hq₂).trans hq₄).mem (List.mem_cons_of_mem _ (hq.mem hev))
    refine insertUnlock_ends (HatFailed.onTrouble hU₂) (fun db v hA => hA.1.1.1)
      fun log₃ L₃ v₃ _ hq₃ hA₃ => ?_
    have hq₄ : Quiet Plain log₂ (.saw (.named "report_unlock") v₃ :: log₃) :=
      hq₃.cons trivial
    have hU₄ : Uncommitted (.saw (.named "report_unlock") v₃ :: log₃ : Log) :=
      Quiet.uncommitted hq₄ hU₂
    refine Ends.commit (fun log₅ db hq₅ _ => HatFailed.onTrouble hU₄ _ _ db trivial hq₅)
      (fun db v hinv hA => ?_) (fun log₅ db v hq₅ hinv hA => ?_)
      (fun log₅ db v hq₅ hinv hA db' _ =>
        .inl ⟨rfl, db, v, log₅, rfl, Quiet.uncommitted hq₅ hU₄⟩)
    · rcases hA.2 with rfl | h
      · exact .refl hinv
      · exact h.guarantee hinv L₃
    · refine hG _ _ _ ⟨row, hlook.mono (hold log₅ (hq₄.trans hq₅)),
        hval.mono (hold log₅ (hq₄.trans hq₅)), ⟨v₃, hq₅.mem List.mem_cons_self,
          hA₃.1.2, r, hA₃.2,
        hrow⟩, ⟨hA.1.1.2, r, hA.1.2, hrow⟩, ?_⟩
      rw [← hrow]
      exact hA.2

/-! ## Before the transaction -/

theorem materializedRow_pool {slug : String} :
    Pool (setting pg w C G) HatFailed (fun log _ => Uncommitted log)
      (Hats.materializedRow pg m specId slug)
      (fun row log _ => Uncommitted log ∧ ∀ r, row = some r → LookedAt m slug r log) := by
  refine Pool.bind (fun _ log _ => Uncommitted log)
    (plain_pool (select_pool (fun log db hU => uncommitted_failed hU)
      fun log db _ hU db' _ _ => hU.cons (by simp))) fun bound => ?_
  cases bound with
  | none => exact Pool.pure fun log db _ hU => ⟨hU, fun r hr => (nomatch hr)⟩
  | some _ =>
      refine plain_pool (select_pool (fun log db hU => uncommitted_failed hU)
        fun log db _ hU db' _ _ => ⟨hU.cons (by simp), fun r hr => ?_⟩)
      obtain ⟨r', hr', rfl⟩ := Option.map_eq_some_iff.1 hr
      exact ⟨db, r', List.mem_cons_self, hr', rfl⟩

section

variable {K : Log → Prop}

/-- What is known of a log that answers only extend. -/
def Answered (K : Log → Prop) : Prop := ∀ q a log, K log → K (.answered q a :: log)

theorem validateFinishThisMap_pool (hK : Answered K) :
    Pool (setting pg w C G) HatFailed (fun log _ => Uncommitted log ∧ K log)
      (Hats.validateFinishThisMap u m)
      (fun ok log _ => (Uncommitted log ∧ K log) ∧
        (ok = true → .answered (.hasRecentOfficialRecord u m) (.ok true) ∈ log)) := by
  refine Pool.bind (fun answer log _ => (Uncommitted log ∧ K log) ∧
      .answered (.hasRecentOfficialRecord u m) answer ∈ log)
    (askQ_pool fun a log db hA => ⟨⟨hA.1.cons (by simp), hK _ _ _ hA.2⟩,
      List.mem_cons_self⟩)
    fun answer => Pool.pure fun log db _ hA => ⟨hA.1, fun hok => ?_⟩
  cases answer with
  | error e => cases hok
  | ok valid =>
      cases hok
      exact hA.2

theorem validateRecords_pool (hK : Answered K) (uids : List String) :
    Pool (setting pg w C G) HatFailed (fun log _ => Uncommitted log ∧ K log)
      (Hats.validateRecords u uids)
      (fun ok log _ => (Uncommitted log ∧ K log) ∧
        (ok = true → ∀ uid ∈ uids,
          .answered (.hasOfficialRecord u uid) (.ok true) ∈ log)) := by
  induction uids generalizing K with
  | nil => exact Pool.pure fun log db _ hA => ⟨hA, by simp⟩
  | cons uid uids ih =>
      rw [Hats.validateRecords, Hats.validateRecordForUid, bind_assoc]
      refine Pool.bind (fun answer log _ => Uncommitted log ∧ K log ∧
          .answered (.hasOfficialRecord u uid) answer ∈ log)
        (askQ_pool fun a log db hA => ⟨hA.1.cons (by simp), hK _ _ _ hA.2, List.mem_cons_self⟩)
        fun answer => ?_
      rw [pure_bind]
      have hno : Pool (setting pg w C G) HatFailed
          (fun log _ => Uncommitted log ∧ K log ∧
            .answered (.hasOfficialRecord u uid) answer ∈ log) (pure false)
          (fun ok log _ => (Uncommitted log ∧ K log) ∧ (ok = true →
            ∀ uid' ∈ uid :: uids, .answered (.hasOfficialRecord u uid') (.ok true) ∈ log)) :=
        Pool.pure fun log db _ hA => ⟨⟨hA.1, hA.2.1⟩, fun hf => (nomatch hf)⟩
      cases answer with
      | error e => exact hno
      | ok valid =>
          cases valid with
          | false => exact hno
          | true =>
              refine (ih (K := fun log => K log ∧
                .answered (.hasOfficialRecord u uid) (.ok true) ∈ log) fun q a log h =>
                  ⟨hK q a log h.1, List.mem_cons_of_mem _ h.2⟩).weaken (fun log db _ hA => hA)
                (fun e log db hU => hU) fun ok log db hA => ?_
              obtain ⟨⟨hU, hk, huid⟩, hrest⟩ := hA
              refine ⟨⟨hU, hk⟩, fun hok uid' hm => ?_⟩
              rcases List.mem_cons.1 hm with rfl | hm
              · exact huid
              · exact hrest hok uid' hm

theorem validateHatUnlock_pool (hK : Answered K) {row : Hats.OnMapRow} :
    Pool (setting pg w C G) HatFailed (fun log _ => Uncommitted log ∧ K log)
      (Hats.validateHatUnlock u m row)
      (fun ok log _ => (Uncommitted log ∧ K log) ∧ (ok = true → Validated u m row log)) := by
  rw [Hats.validateHatUnlock]
  have hno : ∀ (A₀ : Known Table.Key Table.Row Tag Ask.Ans Act.Out),
      (∀ log db, A₀ log db → Uncommitted log ∧ K log) →
      Pool (setting pg w C G) HatFailed A₀ (pure false)
        (fun ok log _ => (Uncommitted log ∧ K log) ∧ (ok = true → Validated u m row log)) :=
    fun A₀ hA₀ => Pool.pure fun log db _ hA => ⟨hA₀ log db hA, fun hf => (nomatch hf)⟩
  split
  case isTrue => exact hno _ fun log db hA => hA
  case isFalse hsome =>
  have hsome : row.finishThisMap = true ∨ row.recordUids ≠ [] := by
    cases hf : row.finishThisMap with
    | true => exact .inl rfl
    | false =>
        refine .inr fun he => hsome ?_
        rw [hf, he]
        rfl
  refine Pool.bind (fun ok log _ => (Uncommitted log ∧ K log) ∧ (ok = true →
      row.finishThisMap = true → .answered (.hasRecentOfficialRecord u m) (.ok true) ∈ log))
    ?_ fun finished => ?_
  · cases hf : row.finishThisMap with
    | true =>
        exact (validateFinishThisMap_pool hK).weaken (fun log db _ hA => hA)
          (fun e log db hU => hU) fun ok log db hA => ⟨hA.1, fun hok _ => hA.2 hok⟩
    | false => exact Pool.pure fun log db _ hA => ⟨hA, fun _ hf => (nomatch hf)⟩
  · cases finished with
    | false => exact hno _ fun log db hA => hA.1
    | true =>
        refine (validateRecords_pool (K := fun log => K log ∧ (row.finishThisMap = true →
          .answered (.hasRecentOfficialRecord u m) (.ok true) ∈ log)) ?_ row.recordUids).weaken
          (fun log db _ hA => ⟨hA.1.1, hA.1.2, hA.2 rfl⟩) (fun e log db hU => hU)
          fun ok log db hA => ?_
        · exact fun q a log h => ⟨hK q a log h.1, fun hf => List.mem_cons_of_mem _ (h.2 hf)⟩
        · obtain ⟨⟨hU, hk, hfin⟩, hrest⟩ := hA
          exact ⟨⟨hU, hk⟩, fun hok => ⟨hfin, hrest hok, hsome⟩⟩

end

/-- The user had the hat already. -/
def AlreadyUnlocked (u : Uuid) (log : Log) : Prop :=
  ∃ v key r, .saw (.named "already_unlocked") v ∈ log ∧
    v.get ⟨.hatUnlock, (u, key)⟩ = some r

/-- Where a reported unlock ends. -/
def UnlockReply (u : Uuid) (yes : Bool) : Known Table.Key Table.Row Tag Ask.Ans Act.Out :=
  fun log _ => (yes = true ∧ (JustCommitted log ∨ Uncommitted log ∧
    AlreadyUnlocked u log)) ∨
    (yes = false ∧ Uncommitted log)

theorem reportUnlock_pool {slug : String}
    (hG : ∀ log pre post, UnlockCommit pg u m slug specId log pre post → G log pre post) :
    Pool (setting pg w C G) HatFailed (fun log _ => Uncommitted log)
      (Hats.reportUnlock pg u m slug specId) (UnlockReply u) := by
  have hno : ∀ (A₀ : Known Table.Key Table.Row Tag Ask.Ans Act.Out),
      (∀ log db, A₀ log db → Uncommitted log) →
      Pool (setting pg w C G) HatFailed A₀ (pure false) (UnlockReply u) :=
    fun A₀ hA₀ => Pool.pure fun log db _ hA => .inr ⟨rfl, hA₀ log db hA⟩
  refine Pool.bind _ materializedRow_pool fun row => ?_
  cases row with
  | none => exact hno _ fun log db hA => hA.1
  | some row =>
      refine Pool.bind (fun yes log _ => Uncommitted log ∧ LookedAt m slug row log ∧
          (yes = true → AlreadyUnlocked u log))
        (plain_pool (select_pool (fun log db hA => uncommitted_failed hA.1)
          fun log db _ hA db' _ _ => ⟨hA.1.cons (by simp),
            (hA.2 row rfl).mono fun ev hev => List.mem_cons_of_mem _ hev, fun hyes => ?_⟩))
        fun unlocked => ?_
      · obtain ⟨r, hr⟩ := Option.isSome_iff_exists.1 hyes
        exact ⟨db, row.hatKey, r, List.mem_cons_self, hr⟩
      cases unlocked with
      | true => exact Pool.pure fun log db _ hA => .inl ⟨rfl, .inr ⟨hA.1, hA.2.2 rfl⟩⟩
      | false =>
          refine Pool.bind (fun _ log _ => Uncommitted log ∧ LookedAt m slug row log)
            (askQ_pool fun a log db hA => ⟨hA.1.cons (by simp),
              hA.2.1.mono fun ev hev => List.mem_cons_of_mem _ hev⟩) fun allowed => ?_
          cases allowed with
          | false => exact hno _ fun log db hA => hA.1
          | true =>
              refine Pool.bind _ (validateHatUnlock_pool (K := LookedAt m slug row)
                fun q a log h => h.mono fun ev hev => List.mem_cons_of_mem _ hev) fun valid => ?_
              cases valid with
              | false => exact hno _ fun log db hA => hA.1.1
              | true =>
                  refine (commitUnlock_pool hG).weaken
                    (fun log db _ hA => ⟨hA.1.1, hA.1.2, hA.2 rfl⟩) (fun e log db hU => hU)
                    fun yes log db hA => ?_
                  rcases hA with ⟨rfl, hc⟩ | ⟨rfl, hU⟩
                  · exact .inl ⟨rfl, .inl hc⟩
                  · exact .inr ⟨rfl, hU⟩

/-! ## Equips -/

/-- The commit of an equip. -/
def EquipCommit (u : Uuid) (m slug : String) :
    Log → Db → Db → Prop := fun _ pre post =>
  (slug = "" ∧ Unequipped u m pre post) ∨ ∃ e, e.slug = slug ∧ Equipped u m e pre post

theorem unequip_ends {k : Bool → Query DbError α}
    (hE : OnTrouble (setting pg w C G) since E .database) (hview : ∀ db v, A db v → v = db)
    (hno : ∀ log, Quiet Plain since log → Ends (setting pg w C G) log E L A (k false) B)
    (hyes : ∀ log L', Quiet Plain since log →
      Ends (setting pg w C G) log E L' (fun db v => A db db ∧ Unequipped u m db v) (k true) B) :
    Ends (setting pg w C G) since E L A (sql (Hats.unequipStmt u m) >>= k) B := by
  refine query_ends hE fun log ws db e x hq hinv hA _ hrun => ?_
  have hq₁ : Quiet Plain since (.saw (Hats.unequipStmt u m).tag (Store.view ws db) :: log) :=
    hq.cons trivial
  simp only [Hats.unequipStmt] at hrun
  cases he : (Store.view ws db).get ⟨.hatEquipped, (u, m)⟩ with
  | none =>
      simp only [he] at hrun
      cases hrun
      exact ⟨L, A, fun x hx => hx, fun db' _ hA' => hA', hno _ hq₁⟩
  | some old =>
      simp only [he] at hrun
      cases hrun
      refine ⟨L, _, fun x hx => List.mem_append_right _ hx, fun db' _ hA' => ?_, hyes _ L hq₁⟩
      have hv := hview db' _ hA'
      rw [hv] at hA' ⊢
      exact ⟨hA', Store.get_put_self _ (⟨.hatEquipped, (u, m)⟩ : DbKey) _,
        fun k' hk' => Store.get_put_of_ne (Ne.symm hk')⟩

/-- The user has the hat of this key, and the map has it under that slug. -/
structure MayWear (u : Uuid) (m slug key : String) (db : Db) : Prop where
  unlock : ∃ r, db.get ⟨.hatUnlock, (u, key)⟩ = some r
  onMap : ∃ h, db.get ⟨.hatOnMap, (m, slug)⟩ = some h ∧ h.hatKey = key

theorem shareUnlock_ends {slug : String} {k : Option String → Query DbError α}
    (hE : OnTrouble (setting pg w C G) since E .database) (hview : ∀ db v, A db v → v = db)
    (hno : ∀ log, Quiet Plain since log → Ends (setting pg w C G) log E L A (k none) B)
    (hyes : ∀ log L' key, (∀ x ∈ L, x ∈ L') → Quiet Plain since log →
      Ends (setting pg w C G) log E L' (fun db v => A db v ∧ MayWear u m slug key db)
        (k (some key)) B) :
    Ends (setting pg w C G) since E L A (sql (Hats.shareUnlockStmt pg u m slug) >>= k) B := by
  refine query_ends hE fun log ws db e x hq hinv hA _ hrun => ?_
  have hq₁ : Quiet Plain since
      (.saw (Hats.shareUnlockStmt pg u m slug).tag (Store.view ws db) :: log) := hq.cons trivial
  have hnone : e = {} → x = none →
      ∃ L₁ A₁, (∀ y ∈ L₁, y ∈ e.allLocks (Store.view ws db) ++ L) ∧
        (∀ db', Rely (protocol pg w) (e.allLocks (Store.view ws db) ++ L) db db' →
          A db' (Store.view ws db') → A₁ db' (Store.view e.writes (Store.view ws db'))) ∧
        Ends (setting pg w C G)
          (.saw (Hats.shareUnlockStmt pg u m slug).tag (Store.view ws db) :: log) E L₁ A₁
            (k x) B := by
    rintro rfl rfl
    exact ⟨L, A, fun y hy => hy, fun db' _ hA' => hA', hno _ hq₁⟩
  simp only [Hats.shareUnlockStmt, hview db _ hA] at hrun
  cases hun : db.get ⟨.hatUnlock, (u, Hats.hatKey pg m slug)⟩ with
  | none =>
      simp only [hun] at hrun
      cases hrun
      exact hnone rfl rfl
  | some r =>
      cases hon : db.get ⟨.hatOnMap, (m, slug)⟩ with
      | none =>
          simp only [hun, hon] at hrun
          cases hrun
          exact hnone rfl rfl
      | some h =>
          simp only [hun, hon] at hrun
          split at hrun
          case isFalse =>
            cases hrun
            exact hnone rfl rfl
          case isTrue hok =>
            cases hrun
            refine ⟨_, fun db v => A db v ∧ MayWear u m slug h.hatKey db, fun y hy => hy,
              fun db' hr hA' => ⟨hA', ⟨r, ?_⟩, h, ?_, rfl⟩,
              hyes _ _ h.hatKey (fun y hy => List.mem_append_right _ hy) hq₁⟩
            · rw [← hun, hok.2.2]
              refine hr.row ⟨⟨.hatUnlock, (u, Hats.hatKey pg m slug)⟩, .share⟩ ?_ (by simp)
              exact List.mem_append_left _ (List.mem_cons_of_mem _ List.mem_cons_self)
            · rw [← hon]
              exact hr.row ⟨⟨.hatOnMap, (m, slug)⟩, .share⟩
                (List.mem_append_left _ List.mem_cons_self) (by simp)

theorem upsertEquipped_ends {slug key : String} {now : Time} {k : Bool → Query DbError α}
    (hE : OnTrouble (setting pg w C G) since E .database)
    (hA : ∀ db v, A db v → v = db ∧ MayWear u m slug key db)
    (hno : ∀ log, Quiet Plain since log → Ends (setting pg w C G) log E L A (k false) B)
    (hyes : ∀ log L', (∀ x ∈ L, x ∈ L') → Quiet Plain since log →
      Ends (setting pg w C G) log E L'
        (fun db v => A db db ∧ Equipped u m ⟨slug, key, now⟩ db v) (k true) B) :
    Ends (setting pg w C G) since E L A
      (sql (Hats.upsertEquippedStmt u m slug key now) >>= k) B := by
  refine query_ends hE fun log ws db e x hq hinv hAv _ hrun => ?_
  have hv := (hA db _ hAv).1
  have hq₁ : Quiet Plain since
      (.saw (Hats.upsertEquippedStmt u m slug key now).tag (Store.view ws db) :: log) :=
    hq.cons trivial
  have hput : (∃ r, db.get ⟨.users, u⟩ = some r) →
      ∀ db' ls, Rely (protocol pg w) ls db db' →
      A db' (Store.view ws db') → A db' db' ∧ Equipped u m ⟨slug, key, now⟩ db'
        (Store.view [⟨⟨.hatEquipped, (u, m)⟩, some ⟨slug, key, now⟩⟩]
          (Store.view ws db')) := by
    rintro ⟨r, hr⟩ db' ls hrely hA'
    obtain ⟨hv', hmay⟩ := hA db' _ hA'
    rw [hv'] at hA' ⊢
    exact ⟨hA', hrely.stay.1.users u r hr, hmay.unlock, hmay.onMap,
      ⟨Store.get_put_self _ (⟨.hatEquipped, (u, m)⟩ : DbKey) _,
        fun k' hk' => Store.get_put_of_ne (Ne.symm hk')⟩⟩
  simp only [Hats.upsertEquippedStmt, hv] at hrun
  cases he : db.get ⟨.hatEquipped, (u, m)⟩ with
  | none =>
      simp only [he, insertRow] at hrun
      split at hrun
      case isFalse => cases hrun
      case isTrue hok =>
        cases hrun
        have huser : ∃ r, db.get ⟨.users, u⟩ = some r := by
          simp only [insertable, Table.parents, List.all_cons, Bool.and_eq_true] at hok
          exact Option.isSome_iff_exists.1 hok.2.1
        exact ⟨L, _, fun y hy => List.mem_append_right _ hy,
          fun db' hr hA' => hput huser db' _ hr hA', hyes _ L (fun y hy => hy) hq₁⟩
  | some old =>
      simp only [he] at hrun
      split at hrun
      case isTrue =>
        cases hrun
        exact ⟨L, _, fun y hy => List.mem_append_right _ hy,
          fun db' hr hA' => hput (hinv.equippedUser (u, m) old he) db' _ hr hA',
          hyes _ L (fun y hy => hy) hq₁⟩
      case isFalse =>
        cases hrun
        exact ⟨L, A, fun y hy => List.mem_append_right _ hy, fun db' _ hA' => hA', hno _ hq₁⟩

/-- The write of an equip: nothing yet, or what its commit publishes. -/
theorem writeEquip_ends {slug : String} {now : Time} {k : Option String → Query DbError α}
    (hE : OnTrouble (setting pg w C G) since E .database) (hview : ∀ db v, A db v → v = db)
    (hno : ∀ log L', Quiet Plain since log → Ends (setting pg w C G) log E L' A (k none) B)
    (hyes : ∀ log L', Quiet Plain since log → Ends (setting pg w C G) log E L'
      (fun db v => (slug = "" ∧ Unequipped u m db v) ∨
        Shares L' ⟨.mapListingBind, m⟩ ∧ ∃ e, e.slug = slug ∧ Equipped u m e db v)
      (k (some slug)) B) :
    Ends (setting pg w C G) since E L A (Hats.writeEquip pg u m slug now >>= k) B := by
  rw [Hats.writeEquip]
  split
  case isTrue hslug =>
    rw [bind_assoc]
    refine unequip_ends hE hview (fun log hq => ?_) fun log L' hq => ?_
    · rw [pure_bind]
      exact hno log L hq
    · rw [pure_bind, if_pos rfl, ← hslug]
      exact (hyes log L' hq).pre fun db v _ hA => .inl ⟨hslug, hA.2⟩
  case isFalse =>
  rw [bind_assoc]
  refine plain_ends (select_ends hE fun log ws db hq _ _ => ?_)
  have hq₁ : Quiet Plain since (.saw (.named "report_equip") (Store.view ws db) :: log) :=
    hq.cons trivial
  cases (Store.view ws db).get ⟨.mapListingBind, m⟩ with
  | none =>
      dsimp only [Option.map_none]
      rw [pure_bind]
      exact hno _ L hq₁
  | some b =>
      dsimp only [Option.map_some]
      rw [bind_assoc]
      refine lockMaterializedSpec_ends (hE.later hq₁) hview (fun log₂ L₂ hq₂ => ?_)
        fun log₂ L₂ _ hL₂ hq₂ => ?_
      · rw [Bool.not_false, if_pos rfl, pure_bind]
        exact hno _ _ (hq₁.trans hq₂)
      · rw [Bool.not_true, if_neg (by decide), bind_assoc]
        refine shareUnlock_ends (hE.later (hq₁.trans hq₂)) (fun db v hA => hview db v hA.1)
          (fun log₃ hq₃ => ?_) fun log₃ L₃ key hL₃ hq₃ => ?_
        · rw [pure_bind]
          exact (hno _ L₂ ((hq₁.trans hq₂).trans hq₃)).pre fun db v _ hA => hA.1
        · have hq₄ := (hq₁.trans hq₂).trans hq₃
          rw [bind_assoc]
          refine upsertEquipped_ends (hE.later hq₄) (fun db v hA => ⟨hview db v hA.1.1, hA.2⟩)
            (fun log₅ hq₅ => ?_) fun log₅ L₅ hL₅ hq₅ => ?_
          · rw [pure_bind]
            exact (hno _ L₃ (hq₄.trans hq₅)).pre fun db v _ hA => hA.1.1
          · rw [pure_bind, if_pos rfl]
            refine (hyes _ L₅ (hq₄.trans hq₅)).pre
              fun db v _ hA => .inr ⟨?_, _, rfl, hA.2⟩
            obtain ⟨x, hx, hrow⟩ := hL₂
            exact ⟨x, hL₅ x (hL₃ x hx), hrow⟩

/-- Where an equip ends: committed with an entry for the others, or neither. -/
def EquipDone (u : Uuid) (slug : String) (r : Option HatOnMapPlayer) :
    Known Table.Key Table.Row Tag Ask.Ans Act.Out := fun log _ =>
  (∃ entry, r = some entry ∧ entry.wsid = u.text ∧ entry.slug = slug ∧
    JustCommitted log) ∨
    (r = none ∧ Uncommitted log)

theorem reportEquip_pool {slug : String}
    (hG : ∀ log pre post, EquipCommit u m slug log pre post → G log pre post) :
    Pool (setting pg w C G) HatFailed (fun log _ => Uncommitted log)
      (Hats.reportEquipWithBeforePayload pg u m slug) (EquipDone u slug) := by
  refine Pool.transaction fun since₀ db₀ _ hU₀ => Ends.ask fun log now hq => ?_
  have hU : Uncommitted (.answered .now now :: log : Log) :=
    (Quiet.uncommitted hq hU₀).cons (by simp)
  refine writeEquip_ends (HatFailed.onTrouble hU) (fun db v hA => hA.1)
    (fun log₁ L₁ hq₁ => Ends.pure fun log₂ db v hq₂ _ _ db' _ =>
      .inr ⟨rfl, Quiet.uncommitted (hq₁.trans hq₂) hU⟩) fun log₁ L₁ hq₁ => ?_
  refine Ends.ask fun log₂ hook hq₂ => ?_
  have hq₃ : Quiet Plain log₁ (.answered .beforePayload hook :: log₂) := hq₂.cons trivial
  have hU₃ : Uncommitted (.answered .beforePayload hook :: log₂ : Log) :=
    Quiet.uncommitted (hq₁.trans hq₃) hU
  refine liftE_ends (fun _ _ => ?_) fun e _ log₄ db v hq₄ _ _ db' _ =>
    Quiet.uncommitted hq₄ hU₃
  rw [Hats.displayName, bind_assoc]
  refine plain_ends (select_ends (HatFailed.onTrouble hU₃) fun log₄ ws db hq₄ _ _ => ?_)
  have hU₅ : Uncommitted (.saw (.named "display_name") (Store.view ws db) :: log₄ : Log) :=
    (Quiet.uncommitted hq₄ hU₃).cons (by simp)
  cases (Store.view ws db).get ⟨.users, u⟩ with
  | none => exact Ends.throw fun log₆ db v hq₆ _ _ db' _ => Quiet.uncommitted hq₆ hU₅
  | some user =>
      refine Ends.commit (fun log₆ db hq₆ _ => HatFailed.onTrouble hU₅ _ _ db trivial hq₆)
        (fun db v hinv hA => ?_) (fun log₆ db v hq₆ _ hA => hG _ _ _ (hA.imp id And.right))
        (fun log₆ db v hq₆ _ hA db' _ =>
          .inl ⟨_, rfl, rfl, rfl, db, v, log₆, rfl, Quiet.uncommitted hq₆ hU₅⟩)
      rcases hA with ⟨-, h⟩ | ⟨hL, e, -, h⟩
      · exact h.guarantee hinv L₁
      · exact h.guarantee hinv hL

end

end Dd2Server
