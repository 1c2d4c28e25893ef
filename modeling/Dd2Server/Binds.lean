import Dd2Server.Commits

/-!
# What the two binds share

`commit_authoritative_bind` and `commit_comment_bind` lock the spec, then the binding, take the
binding, and end alike: hats off, materialize, commit.  What each knows of the binding it took is
the `P` of `Claimed`.
-/

namespace Dd2Server

open ReadCommitted

section

variable {pg : Pg} {w : Scope} {C : Tag → Db → Prop}
  {G : Promise Table.Key Table.Row Tag Ask.Ans Act.Out} {since : Log} {ε α : Type}
  {E : ε → Known Table.Key Table.Row Tag Ask.Ans Act.Out}
  {B : α → Known Table.Key Table.Row Tag Ask.Ans Act.Out} {L : List (Lock Table.Key)}
  {A : Assertion Table.Key Table.Row} {g : DbError → ε} {m : String} {specId : Int} {s : SpecRow}

/-! ## Logs -/

theorem Quiet.uncommitted {since log : Log} (h : Quiet Plain since log) (hU : Uncommitted since) :
    Uncommitted log := h.commits (fun _ _ hp => hp) hU

theorem uncommitted_failed {log : Log} (h : Uncommitted log) :
    Uncommitted (.failed :: log : Log) := h.cons (by simp)

theorem Troubled.failed (log : Log) : Troubled (.failed :: log) :=
  ⟨_, List.mem_cons_self, trivial⟩

/-! ## Locking reads -/

theorem lockSpec_ends {mode : Mode} {k : Option SpecRow → Query ε α}
    (hmode : mode ≠ .keyShare) (hE : OnTrouble (setting pg w C G) since E (g .database))
    (hview : ∀ db v, A db v → v.get ⟨.specs, specId⟩ = db.get ⟨.specs, specId⟩)
    (hnone : ∀ log v, Quiet Plain since log →
      Ends (setting pg w C G) (.saw (.named "lock spec") v :: log) E L
        (fun db v => A db v ∧ (w.frozen → db.get ⟨.specs, specId⟩ = none)) (k none) B)
    (hsome : ∀ log v s, Quiet Plain since log →
      Ends (setting pg w C G) (.saw (.named "lock spec") v :: log) E
        (⟨⟨.specs, specId⟩, mode⟩ :: L)
        (fun db v => A db v ∧ db.get ⟨.specs, specId⟩ = some s) (k (some s)) B) :
    Ends (setting pg w C G) since E L A
      (ExceptT.adapt g (sql (ListedMaps.lockSpecStmt mode specId)) >>= k) B := by
  refine sql_ends hE fun log ws db e b hq hinv hA _ hrun => ?_
  have hget := hview db _ hA
  simp only [ListedMaps.lockSpecStmt] at hrun
  cases hs : (Store.view ws db).get ⟨.specs, specId⟩ with
  | none =>
      simp only [hs] at hrun
      cases hrun
      refine ⟨_, _, fun x hx => hx, fun db' hr hA' => ⟨hA', fun hf => ?_⟩, hnone log _ hq⟩
      rw [hr.stay.2 hf, ← hget, hs]
  | some s =>
      simp only [hs] at hrun
      cases hrun
      refine ⟨_, _, fun x hx => hx, fun db' hr hA' => ⟨hA', ?_⟩, hsome log _ s hq⟩
      rw [hr.row ⟨⟨.specs, specId⟩, mode⟩ List.mem_cons_self hmode, ← hget, hs]

/-- The binding of a map is this row, and the owner of its spec is verified or not. -/
structure BindingIs (db : Db) (m : String) (b : BindRow) (ver : Bool) : Prop where
  row : db.get ⟨.mapListingBind, m⟩ = some b
  spec : ∃ s, db.get ⟨.specs, b.specId⟩ = some s ∧ b.isVerified s = ver

theorem BindingIs.rely {db db' : Db} {b : BindRow} {ver : Bool} (h : BindingIs db m b ver)
    (hL : Holds L ⟨.mapListingBind, m⟩) (hr : Rely (protocol pg w) L db db') :
    BindingIs db' m b ver := by
  obtain ⟨s, hs, hver⟩ := h.spec
  obtain ⟨s', hs', ho⟩ := (hL.keeps hr : KeepsBinding m _ _).owner b s h.row hs
  refine ⟨(hL.row hr).trans h.row, s', hs', ?_⟩
  rw [← hver]
  simp only [BindRow.isVerified, ho]

theorem BindingIs.verifiedAt {db : Db} {b : BindRow} (h : BindingIs db m b true) :
    VerifiedAt db m b := ⟨h.row, h.spec⟩

theorem BindingIs.legacyAt {db : Db} {b : BindRow} (h : BindingIs db m b false) :
    LegacyAt db m b := by
  obtain ⟨s, hs, hver⟩ := h.spec
  refine ⟨h.row, fun s' hs' => ?_⟩
  rw [hs] at hs'
  cases hs'
  exact hver

theorem joinBinding_eq_some {v : Db} {b : BindRow} {s : SpecRow} :
    joinBinding v m = some (b, s) ↔
      v.get ⟨.mapListingBind, m⟩ = some b ∧ v.get ⟨.specs, b.specId⟩ = some s := by
  constructor
  · intro h
    obtain ⟨b', hb, h⟩ := Option.bind_eq_some_iff.1 h
    obtain ⟨s', hs, he⟩ := Option.map_eq_some_iff.1 h
    cases he
    exact ⟨hb, hs⟩
  · rintro ⟨hb, hs⟩
    exact Option.bind_eq_some_iff.2 ⟨b, hb, Option.map_eq_some_iff.2 ⟨s, hs, rfl⟩⟩

/-- With its foreign key, a binding that does not join is not there. -/
theorem bind_none_of_join {db : Db} {strict : Prop} (hinv : Inv pg strict db)
    (h : joinBinding db m = none) : db.get ⟨.mapListingBind, m⟩ = none := by
  cases hb : db.get ⟨.mapListingBind, m⟩ with
  | none => rfl
  | some b =>
      obtain ⟨s, hs⟩ := hinv.bindSpec m b hb
      rw [joinBinding_eq_some.2 ⟨hb, hs⟩] at h
      cases h

/-- What the locking read returns for a row. -/
def lockedBinding (b : BindRow) (ver : Bool) : ListedMaps.LockedBinding where
  specId := b.specId
  verified := ver
  materializedSpecUpdatedAt := b.materializedSpecUpdatedAt
  materializedSpecHash := b.materializedSpecHash

theorem lockBinding_ends {k : Option ListedMaps.LockedBinding → Query ε α}
    (hE : OnTrouble (setting pg w C G) since E (g .database)) (hview : ∀ db v, A db v → v = db)
    (hnone : ∀ log v, Quiet Plain since log → Inv pg w.strict v → A v v →
      joinBinding v m = none → Ends (setting pg w C G) (.saw (.lockBinding m) v :: log) E L
        (fun db v => A db v ∧ (∀ b, ¬LegacyAt db m b) ∧
          ∀ id, Holds L ⟨.specs, id⟩ → ∀ b, db.get ⟨.mapListingBind, m⟩ = some b →
          b.specId ≠ id)
        (k none) B)
    (hsome : ∀ log v b s, Quiet Plain since log → A v v → joinBinding v m = some (b, s) →
      Ends (setting pg w C G) (.saw (.lockBinding m) v :: log) E
        (⟨⟨.mapListingBind, m⟩, .update⟩ :: L)
        (fun db v => A db v ∧ BindingIs db m b (b.isVerified s))
        (k (some (lockedBinding b (b.isVerified s)))) B) :
    Ends (setting pg w C G) since E L A
      (ExceptT.adapt g (sql (ListedMaps.lockBindingStmt m)) >>= k) B := by
  refine sql_ends hE fun log ws db e lb hq hinv hA _ hrun => ?_
  have hv := hview db _ hA
  have hAv : A (Store.view ws db) (Store.view ws db) := by rw [hv]; rw [hv] at hA; exact hA
  simp only [ListedMaps.lockBindingStmt] at hrun
  cases hj : joinBinding (Store.view ws db) m with
  | none =>
      simp only [hj] at hrun
      cases hrun
      have hfree : db.get ⟨.mapListingBind, m⟩ = none := bind_none_of_join hinv (hv ▸ hj)
      refine ⟨_, _, fun x hx => hx, fun db' hr hA' =>
        ⟨hA', fun b hl => ?_, fun id hid b hb hspec => ?_⟩,
        hnone log _ hq (by rw [hv]; exact hinv) hAv hj⟩
      · have hl' : LegacyAt db m b := hr.stay.1.legacy m b hl
        exact absurd (hfree.symm.trans hl'.1) (by simp)
      · obtain ⟨x, hx, hlock⟩ := hid
        have hheld : Holds (Effect.allLocks (Store.view ws db) {} ++ L) ⟨.specs, id⟩ :=
          ⟨x, List.mem_append_right _ hx, hlock⟩
        obtain ⟨b₀, hb₀, -⟩ := (hheld.keeps hr : KeepsSpec id _ _).binds m b hb hspec
        exact absurd (hfree.symm.trans hb₀) (by simp)
  | some bs =>
      obtain ⟨b, s⟩ := bs
      simp only [hj] at hrun
      cases hrun
      refine ⟨_, _, fun x hx => hx, fun db' hr hA' => ⟨hA', ?_⟩, hsome log _ b s hq hAv hj⟩
      obtain ⟨hb, hs⟩ := joinBinding_eq_some.1 (hv ▸ hj)
      exact BindingIs.rely ⟨hb, s, hs, rfl⟩ ⟨_, List.mem_cons_self, rfl, rfl⟩ hr

/-! ## The binding is taken -/

/-- The view binds the map to the locked spec, and nothing else is written yet; `P` says what is
known of the binding this replaces and of the time of the verification. -/
structure Claimed (m : String) (specId : Int) (s : SpecRow) (P : Db → Time → Prop)
    (db v : Db) : Prop where
  spec : db.get ⟨.specs, specId⟩ = some s
  bind : ∃ t mat, v.get ⟨.mapListingBind, m⟩ =
    some { specId, verified := some (s.userId, t), materialized := mat } ∧ P db t
  others : ∀ k : DbKey, k ≠ ⟨.mapListingBind, m⟩ → v.get k = db.get k

/-- A fresh verification by the owner of the spec. -/
def freshBinding (specId : Int) (owner : Uuid) (now : Time) : BindRow where
  specId := specId
  verified := some (owner, now)
  materialized := none

theorem isLegacy_eq {v : Db} {b : BindRow} (hs : v.get ⟨.specs, b.specId⟩ = some s) :
    ListedMaps.isLegacy v b = !b.isVerified s := by
  simp only [ListedMaps.isLegacy, BindRow.isVerified, hs, Option.map_some]
  cases b.authorVerifiedAt with
  | none => rfl
  | some t => simp [beq_eq_decide]

/-- The author of a verified binding is the owner of its spec. -/
theorem verified_eq {b : BindRow} (h : b.isVerified s = true) :
    ∃ t, b.verified = some (s.userId, t) := by
  obtain ⟨specId, verified, mat⟩ := b
  cases verified with
  | none => simp [BindRow.isVerified, BindRow.authorVerifiedAt] at h
  | some x =>
      obtain ⟨a, t⟩ := x
      simp [BindRow.isVerified, BindRow.authorVerifiedAt, BindRow.verifiedAuthorId] at h
      exact ⟨t, by rw [h]⟩

/-- A verified binding to the spec is as good as a claim. -/
theorem BindingIs.claimed {P : Db → Time → Prop} {db : Db} {b : BindRow}
    (h : BindingIs db m b true) (hspec : db.get ⟨.specs, specId⟩ = some s)
    (hb : b.specId = specId) (hP : ∀ t, b.verified = some (s.userId, t) → P db t) :
    Claimed m specId s P db db := by
  obtain ⟨s', hs', hver⟩ := h.spec
  rw [hb, hspec] at hs'
  cases hs'
  obtain ⟨t, ht⟩ := verified_eq hver
  refine ⟨hspec, ⟨t, b.materialized, ?_, hP t ht⟩, fun _ _ => rfl⟩
  rw [h.row, ← hb, ← ht]

/-- A fresh row in the view is a claim. -/
theorem Claimed.of_put {P : Db → Time → Prop} {db v : Db} {now : Time}
    (hspec : db.get ⟨.specs, specId⟩ = some s)
    (hput : Put ⟨.mapListingBind, m⟩ (freshBinding specId s.userId now) db v) (hP : P db now) :
    Claimed m specId s P db v :=
  ⟨hspec, ⟨now, none, hput.row, hP⟩, hput.others⟩

section

variable {k : Option ListedMaps.SpecBinding → Query ε α} {u : Uuid} {now : Time}

/-- A verified binding is not taken over. -/
theorem takeOver_ends {k : Unit → Query ε α}
    (hE : OnTrouble (setting pg w C G) since E (g .database))
      (hver : ∀ db v, Inv pg w.strict db → A db v →
        ∃ b s', joinBinding v m = some (b, s') ∧ b.isVerified s' = true)
    (hk : ∀ log, Quiet Plain since log → Ends (setting pg w C G) log E L A (k ()) B) :
    Ends (setting pg w C G) since E L A
      (ExceptT.adapt g (sql (ListedMaps.takeOverBindingStmt m specId u now)) >>= k) B := by
  refine sql_ends hE fun log ws db e x hq hinv hA _ hrun => ?_
  obtain ⟨b, s', hj, hver⟩ := hver db _ hinv hA
  obtain ⟨hb, hs'⟩ := joinBinding_eq_some.1 hj
  have hl : ListedMaps.isLegacy (Store.view ws db) b = false := by
    rw [isLegacy_eq hs', hver]
    rfl
  simp only [ListedMaps.takeOverBindingStmt, hb, hl, Bool.false_eq_true, if_false] at hrun
  cases hrun
  exact ⟨L, A, fun x hx => hx, fun db' _ hA' => hA', hk _ (hq.cons trivial)⟩

theorem Claimed.join {P : Db → Time → Prop} {db v : Db} (h : Claimed m specId s P db v) :
    ∃ b, joinBinding v m = some (b, s) ∧ b.specId = specId ∧ b.isVerified s = true := by
  obtain ⟨t, mat, hb, -⟩ := h.bind
  refine ⟨_, joinBinding_eq_some.2 ⟨hb, (h.others _ (by simp)).trans h.spec⟩, rfl, ?_⟩
  simp [BindRow.isVerified, BindRow.authorVerifiedAt, BindRow.verifiedAuthorId]

/-- The locking read after a claim finds it. -/
theorem winner_ends {P : Db → Time → Prop} {k : Option ListedMaps.SpecBinding → Query ε α}
    (hE : OnTrouble (setting pg w C G) since E (g .database))
    (hwin : ∀ log, Quiet Plain since log → Ends (setting pg w C G) log E
      (⟨⟨.mapListingBind, m⟩, .update⟩ :: L) (Claimed m specId s P)
      (k (some { specId, verified := true })) B) :
    Ends (setting pg w C G) since E L (Claimed m specId s P)
      (ExceptT.adapt g (sql (ListedMaps.lockWinnerStmt m)) >>= k) B := by
  refine sql_ends hE fun log ws db e x hq hinv hA _ hrun => ?_
  obtain ⟨b, hj, hspec, hver⟩ := hA.join
  simp only [ListedMaps.lockWinnerStmt, hj, hspec, hver] at hrun
  cases hrun
  exact ⟨_, _, fun x hx => hx, fun db' _ hA' => hA', hwin _ (hq.cons trivial)⟩

/-- The locking read finds the binding somebody else verified. -/
theorem winnerOther_ends {P : Db → Time → Prop}
    {k : Option ListedMaps.SpecBinding → Query ε α}
    (hE : OnTrouble (setting pg w C G) since E (g .database))
    (hA : ∀ db v, A db v → v = db ∧ db.get ⟨.specs, specId⟩ = some s ∧
      ∃ b, VerifiedAt db m b)
    (hP : ∀ db b t, VerifiedAt db m b → b.specId = specId →
      b.verified = some (s.userId, t) → P db t)
    (hwin : ∀ log, Quiet Plain since log → Ends (setting pg w C G) log E
      (⟨⟨.mapListingBind, m⟩, .update⟩ :: L) (Claimed m specId s P)
      (k (some { specId, verified := true })) B)
    (hlost : ∀ log id, Quiet Plain since log → id ≠ specId → Ends (setting pg w C G) log E
      (⟨⟨.mapListingBind, m⟩, .update⟩ :: L) (fun db _ => ∃ b, VerifiedAt db m b)
      (k (some { specId := id, verified := true })) B) :
    Ends (setting pg w C G) since E L A
      (ExceptT.adapt g (sql (ListedMaps.lockWinnerStmt m)) >>= k) B := by
  refine sql_ends hE fun log ws db e x hq hinv hAv _ hrun => ?_
  obtain ⟨hv, -, b, hb, s', hs', hver⟩ := hA db _ hAv
  have hj : joinBinding (Store.view ws db) m = some (b, s') := by
    rw [hv]
    exact joinBinding_eq_some.2 ⟨hb, hs'⟩
  simp only [ListedMaps.lockWinnerStmt, hj, hver] at hrun
  cases hrun
  have his : ∀ db', Rely (protocol pg w) (⟨⟨.mapListingBind, m⟩, .update⟩ :: L) db db' →
      BindingIs db' m b true :=
    fun db' hr => BindingIs.rely ⟨hb, s', hs', hver⟩ ⟨_, List.mem_cons_self, rfl, rfl⟩ hr
  rcases eq_or_ne b.specId specId with he | hne
  · rw [he]
    refine ⟨_, _, fun x hx => hx, fun db' hr hA' => ?_, hwin _ (hq.cons trivial)⟩
    obtain ⟨hv', hs, -⟩ := hA db' _ hA'
    show Claimed m specId s P db' (Store.view ws db')
    rw [hv']
    exact (his db' hr).claimed hs he fun t ht => hP db' b t (his db' hr).verifiedAt he ht
  · exact ⟨_, _, fun x hx => hx, fun db' hr _ => ⟨b, (his db' hr).verifiedAt⟩,
      hlost _ _ (hq.cons trivial) hne⟩

/-- No binding was there to lock: the claim is a new row, or somebody else was faster. -/
theorem claimFree_ends {P : Db → Time → Prop}
    {k : Option ListedMaps.SpecBinding → Query ε α}
    (hE : OnTrouble (setting pg w C G) since E (g .database)) (hu : s.userId = u)
    (hA : ∀ db v, A db v → v = db ∧ db.get ⟨.specs, specId⟩ = some s ∧
      ∀ b, ¬LegacyAt db m b)
    (hfree : ∀ db, db.get ⟨.mapListingBind, m⟩ = none → P db now)
    (hP : ∀ db b t, VerifiedAt db m b → b.specId = specId →
      b.verified = some (s.userId, t) → P db t)
    (hwin : ∀ L' log, (∀ x ∈ L, x ∈ L') → Holds L' ⟨.mapListingBind, m⟩ →
      Quiet Plain since log → Ends (setting pg w C G) log E L' (Claimed m specId s P)
      (k (some { specId, verified := true })) B)
    (hlost : ∀ L' log id, Quiet Plain since log → id ≠ specId →
      Ends (setting pg w C G) log E L' (fun db _ => ∃ b, VerifiedAt db m b)
      (k (some { specId := id, verified := true })) B) :
    Ends (setting pg w C G) since E L A
      (do ExceptT.adapt g (sql (ListedMaps.insertBindingStmt m specId u now))
          ExceptT.adapt g (sql (ListedMaps.takeOverBindingStmt m specId u now))
          let winner ← ExceptT.adapt g (sql (ListedMaps.lockWinnerStmt m))
          k winner) B := by
  refine sql_ends hE fun log ws db e x hq hinv hAv _ hrun => ?_
  obtain ⟨hv, hs, hleg⟩ := hA db _ hAv
  have hq₁ : Quiet Plain since (.saw (ListedMaps.insertBindingStmt m specId u now).tag
      (Store.view ws db) :: log) := hq.cons trivial
  cases hb : db.get ⟨.mapListingBind, m⟩ with
  | none =>
      simp only [ListedMaps.insertBindingStmt, hv, hs, hu, hb, decide_true, Option.isNone_none,
        Bool.and_self, if_true, Option.map_eq_some_iff] at hrun
      obtain ⟨e', he', hpair⟩ := hrun
      cases hpair
      obtain ⟨-, rfl⟩ := insertRow_eq_some.1 he'
      have hlock : (⟨⟨.mapListingBind, m⟩, .update⟩ : Lock Table.Key) ∈
          Effect.allLocks (Store.view ws db)
            { writes := [⟨⟨.mapListingBind, m⟩, some (freshBinding specId u now)⟩]
              locks := (Table.mapListingBind.parents m (freshBinding specId u now)).map
                fun p => ⟨p, .keyShare⟩ } ++ L := by
        refine List.mem_append_left _ (List.mem_append_left _ ?_)
        simp [Write.lock, hv, hb]
      refine ⟨⟨⟨.mapListingBind, m⟩, .update⟩ :: L, Claimed m specId s P, ?_, ?_, ?_⟩
      · intro x hx
        rcases List.mem_cons.1 hx with rfl | hx
        · exact hlock
        · exact List.mem_append_right _ hx
      · intro db' hr hA'
        obtain ⟨hv', hs', -⟩ := hA db' _ hA'
        rw [hv']
        have hb' : db'.get ⟨.mapListingBind, m⟩ = none :=
          (hr.row _ hlock (by simp)).trans hb
        refine .of_put hs' ⟨?_, fun k' hk' => Store.get_put_of_ne (Ne.symm hk')⟩ (hfree db' hb')
        rw [hu]
        exact Store.get_put_self _ (⟨.mapListingBind, m⟩ : DbKey) _
      · refine takeOver_ends (hE.later hq₁) (fun db v _ hc => ?_) fun log₂ hq₂ => ?_
        · obtain ⟨b, hj, -, hver⟩ := hc.join
          exact ⟨b, s, hj, hver⟩
        · refine winner_ends (hE.later (hq₁.trans hq₂)) fun log₃ hq₃ => ?_
          refine hwin _ log₃ (fun x hx => List.mem_cons_of_mem _ (List.mem_cons_of_mem _ hx))
            ⟨_, List.mem_cons_self, rfl, rfl⟩ ((hq₁.trans hq₂).trans hq₃)
  | some b =>
      simp only [ListedMaps.insertBindingStmt, hv, hs, hb, Option.isNone_some, Bool.and_false,
        Bool.false_eq_true, if_false] at hrun
      cases hrun
      have hver : VerifiedAt db m b := by
        obtain ⟨s', hs'⟩ := hinv.bindSpec m b hb
        cases hf : b.isVerified s' with
        | true => exact ⟨hb, s', hs', hf⟩
        | false => exact absurd (BindingIs.legacyAt ⟨hb, s', hs', hf⟩) (hleg b)
      refine ⟨L, fun db v => A db v ∧ ∃ b, VerifiedAt db m b, fun x hx => hx,
        fun db' hr hA' => ⟨hA', hr.stay.1.verified m b hver⟩, ?_⟩
      refine takeOver_ends (hE.later hq₁) (fun db v _ hc => ?_) fun log₂ hq₂ => ?_
      · obtain ⟨hA', b', hb', s', hs', hver'⟩ := hc
        rw [(hA db v hA').1]
        exact ⟨b', s', joinBinding_eq_some.2 ⟨hb', hs'⟩, hver'⟩
      · refine winnerOther_ends (hE.later (hq₁.trans hq₂)) (fun db v hc => ?_) hP
          (fun log₃ hq₃ => ?_) fun log₃ id hq₃ =>
            hlost _ log₃ id ((hq₁.trans hq₂).trans hq₃)
        · exact ⟨(hA db v hc.1).1, (hA db v hc.1).2.1, hc.2⟩
        · exact hwin _ log₃ (fun x hx => List.mem_cons_of_mem _ hx)
            ⟨_, List.mem_cons_self, rfl, rfl⟩
            ((hq₁.trans hq₂).trans hq₃)

/-- The binding is locked: it is the claim already, or it is taken over. -/
theorem claimHeld_ends {P : Db → Time → Prop}
    {k : Option ListedMaps.SpecBinding → Query ε α} {b : BindRow} {ver : Bool}
    (hE : OnTrouble (setting pg w C G) since E (g .database))
    (hA : ∀ db v, A db v → v = db ∧ db.get ⟨.specs, specId⟩ = some s ∧
      BindingIs db m b ver)
    (hver : ver = true → b.specId = specId) (hu : ver = false → s.userId = u)
    (hlegacy : ver = false → ∀ db, LegacyAt db m b → P db now)
    (hP : ver = true → ∀ db t, VerifiedAt db m b → b.verified = some (s.userId, t) → P db t)
    (hwin : ∀ L' log, (∀ x ∈ L, x ∈ L') → Quiet Plain since log →
      Ends (setting pg w C G) log E L' (Claimed m specId s P)
      (k (some { specId, verified := true })) B) :
    Ends (setting pg w C G) since E L A
      (do ExceptT.adapt g (sql (ListedMaps.insertBindingStmt m specId u now))
          ExceptT.adapt g (sql (ListedMaps.takeOverBindingStmt m specId u now))
          let winner ← ExceptT.adapt g (sql (ListedMaps.lockWinnerStmt m))
          k winner) B := by
  refine sql_ends hE fun log ws db e x hq hinv hAv _ hrun => ?_
  obtain ⟨hv, hs, hb⟩ := hA db _ hAv
  have hq₁ : Quiet Plain since (.saw (ListedMaps.insertBindingStmt m specId u now).tag
      (Store.view ws db) :: log) := hq.cons trivial
  simp only [ListedMaps.insertBindingStmt, hv, hs, hb.row, Option.isNone_some, Bool.and_false,
    Bool.false_eq_true, if_false] at hrun
  cases hrun
  refine ⟨L, A, fun x hx => hx, fun db' _ hA' => hA', ?_⟩
  have hrest : ∀ log₂, Quiet Plain since log₂ → Ends (setting pg w C G) log₂ E L
      (Claimed m specId s P) (do
        let winner ← ExceptT.adapt g (sql (ListedMaps.lockWinnerStmt m))
        k winner) B := fun log₂ hq₂ =>
    winner_ends (hE.later hq₂) fun log₃ hq₃ =>
      hwin _ log₃ (fun x hx => List.mem_cons_of_mem _ hx) (hq₂.trans hq₃)
  cases ver with
  | true =>
      refine takeOver_ends (hE.later hq₁) (fun db v _ hc => ?_) fun log₂ hq₂ =>
        (hrest log₂ (hq₁.trans hq₂)).pre fun db v _ hc => ?_
      · obtain ⟨hv', -, hb'⟩ := hA db v hc
        obtain ⟨s', hs', hver'⟩ := hb'.spec
        rw [hv']
        exact ⟨b, s', joinBinding_eq_some.2 ⟨hb'.row, hs'⟩, hver'⟩
      · obtain ⟨hv', hs', hb'⟩ := hA db v hc
        rw [hv']
        exact hb'.claimed hs' (hver rfl) fun t ht => hP rfl db t hb'.verifiedAt ht
  | false =>
      refine sql_ends (hE.later hq₁) fun log₂ ws db e x hq₂ hinv hAv _ hrun => ?_
      obtain ⟨hv, hs, hb⟩ := hA db _ hAv
      obtain ⟨s', hs', hver'⟩ := hb.spec
      have hl : ListedMaps.isLegacy db b = true := by
        rw [isLegacy_eq hs', hver']
        rfl
      simp only [ListedMaps.takeOverBindingStmt, hv, hb.row, hl, if_true,
        Option.map_eq_some_iff] at hrun
      obtain ⟨e', he', hpair⟩ := hrun
      cases hpair
      simp only [ListedMaps.updateRow] at he'
      split at he'
      case isFalse => cases he'
      case isTrue hok =>
        cases he'
        refine ⟨L, Claimed m specId s P, fun x hx => List.mem_append_right _ hx,
          fun db' hr hA' => ?_, hrest _ ((hq₁.trans hq₂).cons trivial)⟩
        obtain ⟨hv', hs₁, hb₁⟩ := hA db' _ hA'
        rw [hv']
        refine .of_put hs₁ ⟨?_, fun k' hk' => Store.get_put_of_ne (Ne.symm hk')⟩
          (hlegacy rfl db' hb₁.legacyAt)
        rw [hu rfl]
        exact Store.get_put_self _ (⟨.mapListingBind, m⟩ : DbKey) _

end

/-! ## The end of a bind -/

/-- The three parsers, one after the other. -/
theorem parse_ends {v : Value} {k : List CatalogGame → List CatalogCollectible →
      List CatalogHat → Query BindSpecError α} {E :
      BindSpecError → Known Table.Key Table.Row Tag Ask.Ans Act.Out}
    (hok : ∀ c, parseCatalogs v = .ok c →
      Ends (setting pg w C G) since E L A (k c.games c.collectibles c.hats) B)
    (herr : ∀ e, parseCatalogs v = .error e → ∀ log db v, Quiet Plain since log →
      Inv pg w.strict db → A db v → ∀ db', Rely (protocol pg w) [] db db' → E
      (.catalog e) log db') :
    Ends (setting pg w C G) since E L A
      (do let games ← liftE .catalog (parseCatalogGames v)
          let collectibles ← liftE .catalog (parseCatalogCollectibles v)
          let hats ← liftE .catalog (parseCatalogHats v)
          k games collectibles hats) B := by
  have hparse : parseCatalogs v = (parseCatalogGames v).bind fun games =>
      (parseCatalogCollectibles v).bind fun collectibles =>
        (parseCatalogHats v).bind fun hats => .ok { games, collectibles, hats } := rfl
  refine liftE_ends (fun games hg =>
    liftE_ends (fun items hi => liftE_ends (fun hats hh => ?_) ?_) ?_)
    ?_
  · exact hok ⟨games, items, hats⟩ (by rw [hparse, hg, hi, hh]; rfl)
  · exact fun e he => herr e (by rw [hparse, hg, hi, he]; rfl)
  · exact fun e he => herr e (by rw [hparse, hg, he]; rfl)
  · exact fun e he => herr e (by rw [hparse, he]; rfl)

/-- Each worn hat that came off has an entry. -/
def Listed (m : String) (pre post : Db) (entries : List HatOnMapPlayer) : Prop :=
  ∀ u e, pre.get ⟨.hatEquipped, (u, m)⟩ = some e →
    post.get ⟨.hatEquipped, (u, m)⟩ = none →
    ∃ x ∈ entries, x.wsid = u.text ∧ x.slug = ""

/-- The view before the commit of a bind: the entries of the purge and those of the new catalog
cover what came off. -/
structure ToCommit (pg : Pg) (m : String) (specId : Int) (s : SpecRow) (c : Parsed) (purge : Bool)
    (P : Db → Time → Prop) (purged removed : List HatOnMapPlayer) (db v : Db) : Prop where
  bound : ∃ t, Bound pg m specId s c t purge db v ∧ P db t
  whole : purge = true → Listed m db v purged
  noPurge : purge = false → purged = []
  misfits : purge = false → Listed m db v removed
  bare : Bareheaded m v purged ∧ Bareheaded m v removed

/-- The views of the three steps, put together. -/
theorem toCommit {c : Parsed} {purge : Bool} {P : Db → Time → Prop}
    {purged removed : List HatOnMapPlayer} {db v₁ v₂ v : Db}
    (hp : parseCatalogs (pg.value s.spec) = .ok c) (h₁ : Claimed m specId s P db v₁)
    (h₂ : purge = true ∧ TakenOff m (fun _ => true) purged v₁ v₂ ∨
      purge = false ∧ v₂ = v₁ ∧ purged = [])
    (h₃ : Materialized pg m specId s c removed v₂ v) :
    ToCommit pg m specId s c purge P purged removed db v := by
  have hsame : ∀ k : DbKey, k.table ≠ .hatEquipped → v₂.get k = v₁.get k := by
    intro k hk
    rcases h₂ with ⟨-, h⟩ | ⟨-, rfl, -⟩
    · exact h.replaced.others k hk
    · rfl
  have hdb : ∀ k : DbKey, k.table ≠ .hatEquipped → k ≠ ⟨.mapListingBind, m⟩ →
      v₂.get k = db.get k := fun k hk hm => (hsame k hk).trans (h₁.others k hm)
  have hworn : ∀ k e, v₂.get ⟨.hatEquipped, k⟩ = some e ↔
      db.get ⟨.hatEquipped, k⟩ = some e ∧ (k.2 = m → purge = false) := by
    intro k e
    rw [← h₁.others ⟨.hatEquipped, k⟩ (by simp)]
    rcases h₂ with ⟨hpurge, h⟩ | ⟨hpurge, rfl, -⟩
    · rw [h.replaced.rows]
      simp [hpurge]
    · simp [hpurge]
  obtain ⟨t, mat, hbind, hP⟩ := h₁.bind
  have hbound : Bound pg m specId s c t purge db v := by
    refine ⟨h₁.spec, hp, ?_, fun m' hm' =>
      ?_, ⟨fun k r => ?_, fun k r => ?_, fun k r => ?_⟩,
      ⟨fun k r => ?_, fun k r => ?_, fun k r => ?_⟩, fun k e => ?_, fun k hk => ?_⟩
    · obtain ⟨b, hb, -, hb'⟩ := h₃.bind
      rw [hsame _ (by simp), hbind] at hb
      cases hb
      exact hb'
    · rw [h₃.otherBinds m' hm', hdb _ (by simp) (by simpa using hm')]
    · rw [h₃.catalogs.games, hdb _ (by simp) (by simp)]
    · rw [h₃.catalogs.collectibles, hdb _ (by simp) (by simp)]
    · rw [h₃.catalogs.hats, hdb _ (by simp) (by simp)]
    · rw [h₃.copies.games, hdb _ (by simp) (by simp)]
    · rw [h₃.copies.collectibles, hdb _ (by simp) (by simp)]
    · rw [h₃.copies.hats, hdb _ (by simp) (by simp)]
    · rw [h₃.equipped, hworn, and_assoc]
      exact and_congr_right fun _ => ⟨fun h hm => ⟨h.1 hm, h.2 hm⟩,
        fun h => ⟨fun hm => (h hm).1, fun hm => (h hm).2⟩⟩
    · simp only [List.cons_append, List.mem_cons, not_or] at hk
      rw [h₃.others k (by simpa using hk)]
      exact hdb k hk.2.1 fun e => hk.1 (by rw [e])
  refine ⟨⟨t, hbound, hP⟩, fun hpurge u e he _ => ?_, fun hpurge =>
    ?_, fun hpurge u e he hgone => ?_, fun x hx => ?_, h₃.bare⟩
  · rcases h₂ with ⟨-, h⟩ | ⟨hf, -⟩
    · exact h.entries u e ((h₁.others _ (by simp)).trans he) rfl
    · rw [hf] at hpurge
      cases hpurge
  · rcases h₂ with ⟨ht, -⟩ | ⟨-, -, hnil⟩
    · rw [ht] at hpurge
      cases hpurge
    · exact hnil
  · refine h₃.entries u e ((hworn _ e).2 ⟨he, fun _ => hpurge⟩) ?_
    cases hf : c.fits pg m e with
    | false => rfl
    | true =>
        rw [(hbound.equipped (u, m) e).2 ⟨he, fun _ => ⟨hpurge, hf⟩⟩] at hgone
        cases hgone
  · rcases h₂ with ⟨-, h⟩ | ⟨-, -, rfl⟩
    · obtain ⟨hslug, u, hu, hnone⟩ := h.bare x hx
      refine ⟨hslug, u, hu, Option.eq_none_iff_forall_ne_some.2 fun e he => ?_⟩
      rw [((h₃.equipped _ e).1 he).1] at hnone
      cases hnone
    · cases hx

theorem finish_ends {P : Db → Time → Prop} {c : Parsed} {purge : Bool}
    {k : List HatOnMapPlayer → List HatOnMapPlayer → α}
    (hE : OnTrouble (setting pg w C G) since E (g .database)) (hs : Holds L ⟨.specs, specId⟩)
    (hm : Holds L ⟨.mapListingBind, m⟩) (hp : parseCatalogs (pg.value s.spec) = .ok c)
    (hclaimed : ∀ db v, A db v → Claimed m specId s P db v)
    (hG : ∀ log pre post t, Quiet Plain since log → Inv pg w.strict pre →
      Bound pg m specId s c t purge pre post → P pre t → G log pre post)
    (hB : ∀ log purged removed pre post db, Quiet Plain since log →
      ToCommit pg m specId s c purge P purged removed pre post →
      B (k purged removed) (.committed pre post :: log) db) :
    Ends (setting pg w C G) since E L A
      (do let purged ← ExceptT.adapt g
            (if purge then Hats.purgeMapEquipmentInTx m else return [])
          let removed ← ExceptT.adapt g
            (ListedMaps.materializeInTx pg m specId s c.games c.collectibles c.hats)
          ExceptT.adapt g commitQ
          return k purged removed) B := by
  have husers : ∀ db v, Inv pg w.strict db → A db v → ∀ u e,
      v.get ⟨.hatEquipped, (u, m)⟩ = some e → ∃ r, v.get ⟨.users, u⟩ = some r := by
    intro db v hinv hA u e he
    rw [(hclaimed db v hA).others _ (by simp)] at he ⊢
    exact hinv.equippedUser _ e he
  have hpurge : Triple (setting pg w C G) since (fun e => E (g e)) L A
      (if purge then Hats.purgeMapEquipmentInTx m else return []) (fun _ => L)
      (fun purged db v => ∃ v₁, A db v₁ ∧
        (purge = true ∧ TakenOff m (fun _ => true) purged v₁ v ∨
        purge = false ∧ v = v₁ ∧ purged = [])) := by
    cases purge with
    | true =>
        refine Triple.post (takeOff_triple (fun _ => trivial) hE (fun _ _ _ _ _ => rfl) husers
          fun db db' _ hr => (hm.keeps hr : KeepsBinding m _ _).equipped) ?_
        rintro purged db v - ⟨v₁, hA, h⟩
        exact ⟨v₁, hA, .inl ⟨rfl, h⟩⟩
    | false => exact .pure (fun db v _ hA => ⟨v, hA, .inr ⟨rfl, rfl, rfl⟩⟩) fun x hx => hx
  refine Ends.bind (Triple.adapt hpurge) fun purged =>
    Ends.bind (Triple.adapt (materialize_triple (c := c) hE hs hm ?_ ?_)) fun removed => ?_
  · rintro db v ⟨v₁, hA, h⟩
    obtain ⟨t, mat, hb, -⟩ := (hclaimed db v₁ hA).bind
    refine ⟨{ specId, verified := some (s.userId, t), materialized := mat }, ?_, rfl⟩
    rcases h with ⟨-, h⟩ | ⟨-, rfl, -⟩
    · exact (h.replaced.others _ (by simp)).trans hb
    · exact hb
  · rintro db v hinv ⟨v₁, hA, h⟩ u e he
    rcases h with ⟨-, h⟩ | ⟨-, rfl, -⟩
    · rw [h.replaced.others _ (by simp)]
      exact husers db v₁ hinv hA u e ((h.replaced.rows _ _).1 he |>.elim
        (fun hf => (nomatch hf)) And.left)
    · exact husers db v hinv hA u e he
  · have hdone : ∀ db v, (∃ v₀, (∃ v₁, A db v₁ ∧
        (purge = true ∧ TakenOff m (fun _ => true) purged v₁ v₀ ∨
          purge = false ∧ v₀ = v₁ ∧ purged = [])) ∧
            Materialized pg m specId s c removed v₀ v) →
        ToCommit pg m specId s c purge P purged removed db v := by
      rintro db v ⟨v₂, ⟨v₁, hA, h₂⟩, h₃⟩
      exact toCommit hp (hclaimed db v₁ hA) h₂ h₃
    refine Ends.commit (fun log db hq _ => hE .failed log db trivial hq) (fun db v hinv hA => ?_)
      (fun log db v hq hinv hA => ?_) (fun log db v hq hinv hA db' _ => ?_)
    · obtain ⟨t, hbound, -⟩ := (hdone db v hA).bound
      exact hbound.guarantee hinv hs hm
    · obtain ⟨t, hbound, hP⟩ := (hdone db v hA).bound
      exact hG log db v t hq hinv hbound hP
    · exact hB log purged removed db v db' hq (hdone db v hA)

end

end Dd2Server
