import Dd2Server.Binds

/-!
# The author-present bind as a task

`prepare_authoritative_bind` reads without locks and asks Nadeo; `commit_authoritative_bind` checks
again under locks what was checked before.
-/

namespace Dd2Server

open ReadCommitted

section

variable {pg : Pg} {w : Scope} {C : Tag → Db → Prop}
  {G : Promise Table.Key Table.Row Tag Ask.Ans Act.Out} {since : Log} {L : List (Lock Table.Key)}
  {m : String} {specId : Int} {s : SpecRow}

/-! ## What is known of it -/

/-- What an author-present bind replaces: a binding to the same spec that stands, or none, or a
legacy one, and then Nadeo named the owner. -/
def Replaces (u : Uuid) (m : String) (specId : Int) (owner : Uuid) (purge : Bool) (named : Prop)
    (db : Db) (t : Time) : Prop :=
  (purge = false ∧ ∃ b, VerifiedAt db m b ∧ b.specId = specId ∧
    b.verified = some (owner, t)) ∨
  (named ∧ owner = u ∧ (∀ b, db.get ⟨.mapListingBind, m⟩ = some b → LegacyAt db m b) ∧
    (purge = true ↔ ∃ b, db.get ⟨.mapListingBind, m⟩ = some b))

/-- Nadeo named `a` as the author of the map. -/
def Named (u : Uuid) (m : String) (a : Uuid) (log : Log) : Prop :=
  .answered (.authorIdForUid u m) (.ok a) ∈ log

/-- The commit of an author-present bind. -/
def AuthoritativeBind (pg : Pg) (u : Uuid) (m : String) (specId : Int) :
    Log → Db → Db → Prop := fun log pre post =>
  (post = pre ∧ ∃ b, VerifiedAt pre m b ∧ b.specId = specId) ∨
  ∃ s c t purge, Bound pg m specId s c t purge pre post ∧
    Replaces u m specId s.userId purge (Named u m u log) pre t

/-- What the preparation of a bind found. -/
def Prepared (u : Uuid) (m : String) (p : ListedMaps.PreparedBind) :
    Known Table.Key Table.Row Tag Ask.Ans Act.Out := fun log db =>
  Uncommitted log ∧
    match p.verifiedAuthor with
    | some a => a = u ∧ Named u m u log
    | none => ∃ b, VerifiedAt db m b

theorem Prepared.named {u : Uuid} {p : ListedMaps.PreparedBind} {log : Log} {db : Db}
    (h : Prepared u m p log db) (ha : p.verifiedAuthor = some u) : Named u m u log := by
  have h₂ := h.2
  rw [ha] at h₂
  exact h₂.2

theorem Prepared.verified {u : Uuid} {p : ListedMaps.PreparedBind} {log : Log} {db : Db}
    (h : Prepared u m p log db) (ha : p.verifiedAuthor ≠ some u) : ∃ b, VerifiedAt db m b := by
  have h₂ := h.2
  cases hp : p.verifiedAuthor with
  | none =>
      rw [hp] at h₂
      exact h₂
  | some a =>
      rw [hp] at h₂ ha
      exact absurd (congrArg some h₂.1) ha

/-- Why an author-present bind ended without a commit. -/
def AuthoritativeFailed (pg : Pg) (w : Scope) (u : Uuid) (m : String) (specId : Int)
    (e : BindSpecError) : Known Table.Key Table.Row Tag Ask.Ans Act.Out := fun log db =>
  Uncommitted log ∧
    match e with
    | .conflictingBinding => ∃ b, VerifiedAt db m b
    | .specNotFound => w.frozen → db.get ⟨.specs, specId⟩ = none
    | .specNotOwned => w.frozen → ∃ s, db.get ⟨.specs, specId⟩ = some s ∧ s.userId ≠ u
    | .authorMismatch => ∃ a, Named u m a log ∧
        (w.frozen → ∃ s, db.get ⟨.specs, specId⟩ = some s ∧ s.userId ≠ a)
    | .authorVerification _ => ∃ e, .answered (.authorIdForUid u m) (.error e) ∈ log
    | .catalog e => w.frozen → ∃ s, db.get ⟨.specs, specId⟩ = some s ∧
        parseCatalogs (pg.value s.spec) = .error e
    | .database => Troubled log

/-- The commit of a bind is the last thing in the log, and the entries cover what came off. -/
def BindDone (m : String) (r : ListedMaps.AuthoritativeBindResult) :
    Known Table.Key Table.Row Tag Ask.Ans Act.Out := fun log _ =>
  ∃ pre post older, log = .committed pre post :: older ∧ Uncommitted older ∧
    Listed m pre post r.removedHatWearers ∧ Bareheaded m post r.removedHatWearers

theorem AuthoritativeFailed.onTrouble {u : Uuid} (hU : Uncommitted since) :
    OnTrouble (setting pg w C G) since (AuthoritativeFailed pg w u m specId) .database := by
  intro ev log db htr hq
  refine ⟨(Quiet.uncommitted hq hU).cons fun pre post he => ?_, ev, List.mem_cons_self, htr⟩
  rw [he] at htr
  exact htr

theorem Replaces.named {u owner : Uuid} {purge : Bool} {named named' : Prop} {db : Db} {t : Time}
    (h : Replaces u m specId owner purge named db t) (hn : named → named') :
    Replaces u m specId owner purge named' db t :=
  h.imp id fun ⟨hn', ho, hleg, hp⟩ => ⟨hn hn', ho, hleg, hp⟩

/-- The last steps of an author-present bind. -/
theorem authoritativeFinish_ends {u : Uuid} {c : Parsed} {purge : Bool} {named : Prop}
    (hG : ∀ log pre post, AuthoritativeBind pg u m specId log pre post → G log pre post)
    (hU : Uncommitted since) (hn : named → Named u m u since)
    (hs : Holds L ⟨.specs, specId⟩) (hm : Holds L ⟨.mapListingBind, m⟩)
    (hp : parseCatalogs (pg.value s.spec) = .ok c) :
    Ends (setting pg w C G) since (AuthoritativeFailed pg w u m specId) L
      (Claimed m specId s (Replaces u m specId s.userId purge named))
      (do let purged ← ExceptT.adapt .ofDb
            (if purge then Hats.purgeMapEquipmentInTx m else return [])
          let removed ← ExceptT.adapt .ofDb
            (ListedMaps.materializeInTx pg m specId s c.games c.collectibles c.hats)
          ExceptT.adapt .ofDb commitQ
          return { specId, removedHatWearers := purged ++ removed, materialized := true
                   replacedPrevious := purge }) (BindDone m) := by
  refine finish_ends (AuthoritativeFailed.onTrouble hU) hs hm hp (fun _ _ h => h)
    (fun log pre post t hq _ hb hr =>
      hG _ _ _ (.inr ⟨s, c, t, purge, hb, hr.named fun hn' => ?_⟩))
    (fun log purged removed pre post db hq h =>
      ⟨pre, post, log, rfl, Quiet.uncommitted hq hU, fun v e he hgone => ?_, fun x hx =>
        (List.mem_append.1 hx).elim (h.bare.1 x) (h.bare.2 x)⟩)
  · exact hq.mem (hn hn')
  · cases purge with
    | true =>
        obtain ⟨x, hx, hx'⟩ := h.whole rfl v e he hgone
        exact ⟨x, List.mem_append_left _ hx, hx'⟩
    | false =>
        obtain ⟨x, hx, hx'⟩ := h.misfits rfl v e he hgone
        exact ⟨x, List.mem_append_right _ hx, hx'⟩

theorem commitAuthoritativeBind_pool {u : Uuid} {prepared : ListedMaps.PreparedBind}
    (hG : ∀ log pre post, AuthoritativeBind pg u m specId log pre post → G log pre post) :
    Pool (setting pg w C G) (AuthoritativeFailed pg w u m specId) (Prepared u m prepared)
      (ListedMaps.commitAuthoritativeBind pg prepared u m specId) (BindDone m) := by
  refine Pool.transaction fun since₀ db₀ hinv₀ hA₀ => Ends.ask fun log now hq => ?_
  have hU : Uncommitted (.answered .now now :: log : Log) :=
    (Quiet.uncommitted hq hA₀.1).cons (by simp)
  refine lockSpec_ends (by decide) (AuthoritativeFailed.onTrouble hU)
    (fun db v hA => by rw [hA.1]) (fun log₁ v hq₁ => ?_) (fun log₁ v s hq₁ => ?_)
  · refine Ends.throw fun log₂ db v hq₂ _ hA db' hr => ?_
    have hU₁ : Uncommitted log₂ :=
      Quiet.uncommitted hq₂ ((Quiet.uncommitted hq₁ hU).cons (by simp))
    exact ⟨hU₁, fun hf => (hr.stay.2 hf specId).trans (hA.2 hf)⟩
  have hU₁ : Uncommitted (.saw (.named "lock spec") v :: log₁ : Log) :=
    (Quiet.uncommitted hq₁ hU).cons (by simp)
  have howned : ∀ log₂, Quiet Plain (.saw (.named "lock spec") v :: log₁) log₂ →
      ∀ ev ∈ since₀, ev ∈ log₂ := fun log₂ hq₂ ev hev =>
    hq₂.mem (List.mem_cons_of_mem _ (hq₁.mem (List.mem_cons_of_mem _ (hq.mem hev))))
  have hcatalog : ∀ (e : CatalogValidationError), parseCatalogs (pg.value s.spec) = .error e →
      ∀ (log : Log) (db db' : Db), Uncommitted log → db.get ⟨.specs, specId⟩ = some s →
      Rely (protocol pg w) [] db db' → AuthoritativeFailed pg w u m specId (.catalog e) log db' :=
    fun e he log db db' hU hs hr => ⟨hU, fun hf => ⟨s, (hr.stay.2 hf specId).trans hs, he⟩⟩
  have hnotOwned : s.userId ≠ u → ∀ (log : Log) (db db' : Db), Uncommitted log →
      db.get ⟨.specs, specId⟩ = some s → Rely (protocol pg w) [] db db' →
      AuthoritativeFailed pg w u m specId .specNotOwned log db' :=
    fun hne log db db' hU hs hr => ⟨hU, fun hf => ⟨s, (hr.stay.2 hf specId).trans hs, hne⟩⟩
  refine lockBinding_ends (AuthoritativeFailed.onTrouble hU₁) (fun db v hA => hA.1.1)
    (fun log₂ v₂ hq₂ hinv₂ hA₂ hj => ?_) (fun log₂ v₂ b s' hq₂ hA₂ hj => ?_)
  · -- no binding was there
    have hU₂ : Uncommitted (.saw (.lockBinding m) v₂ :: log₂ : Log) :=
      (Quiet.uncommitted hq₂ hU₁).cons (by simp)
    simp only [Option.any_none, Bool.not_false, Bool.true_and, decide_eq_true_eq,
      Bool.false_eq_true, if_false]
    split
    case isTrue hne =>
      exact Ends.throw fun log₃ db v hq₃ _ hA db' hr =>
        hnotOwned hne log₃ db db' (Quiet.uncommitted hq₃ hU₂) hA.1.2 hr
    case isFalse howner =>
    have howner : s.userId = u := of_not_not howner
    split
    case isTrue hver =>
      obtain ⟨b, hb, -⟩ := hA₂.1.2.verified (howner ▸ hver)
      rw [bind_none_of_join hinv₂ hj] at hb
      cases hb
    case isFalse hver =>
    have hnamed : Named u m u since₀ := hA₂.1.2.named (howner ▸ of_not_not hver)
    refine parse_ends (fun c hc => ?_) fun e he log₃ db v hq₃ _ hA db' hr =>
      hcatalog e he log₃ db db' (Quiet.uncommitted hq₃ hU₂) hA.1.2 hr
    refine claimFree_ends (P := Replaces u m specId s.userId false (Named u m u since₀))
      (AuthoritativeFailed.onTrouble hU₂) howner (fun db v hA => ⟨hA.1.1.1, hA.1.2, hA.2.1⟩)
      (fun db hb => .inr ⟨hnamed, howner, ?_, ?_⟩)
      (fun db b t hb hspec ht => .inl ⟨rfl, b, hb, hspec, ht⟩)
      (fun L' log₃ hL' hm hq₃ => ?_) (fun L' log₃ id hq₃ hid => ?_)
    · intro b hb'
      rw [hb] at hb'
      cases hb'
    · refine ⟨fun hf => (nomatch hf), ?_⟩
      rintro ⟨b, hb'⟩
      rw [hb] at hb'
      cases hb'
    · simp only [ne_eq, not_true_eq_false, if_false, Bool.not_true, Bool.false_eq_true]
      exact authoritativeFinish_ends hG (Quiet.uncommitted hq₃ hU₂)
        (fun hn => hq₃.mem (List.mem_cons_of_mem _ (howned log₂ hq₂ _ hn)))
        ⟨_, hL' _ List.mem_cons_self, rfl, rfl⟩ hm hc
    · simp only [ne_eq, hid, not_false_eq_true, if_true]
      exact Ends.throw fun log₄ db v hq₄ _ ⟨b, hb⟩ db' hr =>
        ⟨Quiet.uncommitted hq₄ (Quiet.uncommitted hq₃ hU₂), hr.stay.1.verified m b hb⟩
  · -- the binding is locked
    have hU₂ : Uncommitted (.saw (.lockBinding m) v₂ :: log₂ : Log) :=
      (Quiet.uncommitted hq₂ hU₁).cons (by simp)
    have hlocked : VerifiedAt v₂ m b → b.isVerified s' = true := by
      rintro ⟨hb, s₁, hs₁, hver⟩
      obtain ⟨-, hs'⟩ := joinBinding_eq_some.1 hj
      rw [hs'] at hs₁
      cases hs₁
      exact hver
    cases hver : b.isVerified s' with
    | true =>
        simp only [lockedBinding, Option.any_some, Bool.not_true, Bool.false_and, Bool.true_and,
          Bool.false_eq_true, if_false, decide_eq_true_eq, Option.map_some, Option.getD_some]
        split
        case isTrue hne =>
          exact Ends.throw fun log₃ db v hq₃ _ hA db' hr =>
            ⟨Quiet.uncommitted hq₃ hU₂, hr.stay.1.verified m b hA.2.verifiedAt⟩
        case isFalse hspec =>
        have hspec : b.specId = specId := of_not_not hspec
        split
        case isTrue hcur =>
          refine Ends.commit (fun log₃ db hq₃ _ =>
            AuthoritativeFailed.onTrouble hU₂ _ _ db trivial hq₃)
            (fun db v hinv hA => ?_) (fun log₃ db v hq₃ hinv hA => ?_)
            (fun log₃ db v hq₃ hinv hA db' _ =>
              ⟨db, v, log₃, rfl, Quiet.uncommitted hq₃ hU₂, ?_, .nil⟩)
          · rw [hA.1.1.1]
            exact .refl hinv
          · exact hG _ _ _ (.inl ⟨hA.1.1.1, b, hA.2.verifiedAt, hspec⟩)
          · rw [hA.1.1.1]
            intro v e he hgone
            rw [he] at hgone
            cases hgone
        case isFalse hcur =>
        refine parse_ends (fun c hc => ?_) fun e he log₃ db v hq₃ _ hA db' hr =>
          hcatalog e he log₃ db db' (Quiet.uncommitted hq₃ hU₂) hA.1.2 hr
        refine claimHeld_ends (P := Replaces u m specId s.userId false (Named u m u since₀))
          (b := b) (AuthoritativeFailed.onTrouble hU₂)
            (fun db v hA => ⟨hA.1.1.1, hA.1.2, hA.2⟩)
          (fun _ => hspec) (fun hf => (nomatch hf)) (fun hf => (nomatch hf))
          (fun _ db t hb ht => .inl ⟨rfl, b, hb, hspec, ht⟩) fun L' log₃ hL' hq₃ => ?_
        simp only [ne_eq, not_true_eq_false, if_false, Bool.not_true, Bool.false_eq_true]
        exact authoritativeFinish_ends hG (Quiet.uncommitted hq₃ hU₂)
          (fun hn => hq₃.mem (List.mem_cons_of_mem _ (howned log₂ hq₂ _ hn)))
          ⟨_, hL' _ (List.mem_cons_of_mem _ List.mem_cons_self), rfl, rfl⟩
          ⟨_, hL' _ List.mem_cons_self, rfl, rfl⟩ hc
    | false =>
        simp only [lockedBinding, Option.any_some, Bool.not_false, Bool.true_and, Bool.false_and,
          Bool.false_eq_true, if_false, decide_eq_true_eq]
        split
        case isTrue hne =>
          exact Ends.throw fun log₃ db v hq₃ _ hA db' hr =>
            hnotOwned hne log₃ db db' (Quiet.uncommitted hq₃ hU₂) hA.1.2 hr
        case isFalse howner =>
        have howner : s.userId = u := of_not_not howner
        split
        case isTrue hnone =>
          obtain ⟨b', hb'⟩ := hA₂.1.2.verified (howner ▸ hnone)
          obtain ⟨hb, -⟩ := joinBinding_eq_some.1 hj
          obtain rfl : b' = b := Option.some.inj (hb'.1.symm.trans hb)
          rw [hlocked hb'] at hver
          cases hver
        case isFalse hsome =>
        have hnamed : Named u m u since₀ := hA₂.1.2.named (howner ▸ of_not_not hsome)
        refine parse_ends (fun c hc => ?_) fun e he log₃ db v hq₃ _ hA db' hr =>
          hcatalog e he log₃ db db' (Quiet.uncommitted hq₃ hU₂) hA.1.2 hr
        refine claimHeld_ends (P := Replaces u m specId s.userId true (Named u m u since₀))
          (b := b) (AuthoritativeFailed.onTrouble hU₂)
            (fun db v hA => ⟨hA.1.1.1, hA.1.2, hA.2⟩)
          (fun hf => (nomatch hf)) (fun _ => howner)
          (fun _ db hb => .inr ⟨hnamed, howner, fun b' hb' => ?_, fun _ => ⟨b, hb.1⟩,
            fun _ => rfl⟩)
          (fun hf => (nomatch hf)) fun L' log₃ hL' hq₃ => ?_
        · obtain rfl : b' = b := Option.some.inj (hb'.symm.trans hb.1)
          exact hb
        · simp only [ne_eq, not_true_eq_false, if_false, Bool.not_true, Bool.false_eq_true]
          exact authoritativeFinish_ends hG (Quiet.uncommitted hq₃ hU₂)
            (fun hn => hq₃.mem (List.mem_cons_of_mem _ (howned log₂ hq₂ _ hn)))
            ⟨_, hL' _ (List.mem_cons_of_mem _ List.mem_cons_self), rfl, rfl⟩
            ⟨_, hL' _ List.mem_cons_self, rfl, rfl⟩ hc

/-! ## The two phases -/

theorem prepareAuthoritativeBind_pool {u : Uuid} :
    Pool (setting pg w C G) (AuthoritativeFailed pg w u m specId) (fun log _ => Uncommitted log)
      (ListedMaps.prepareAuthoritativeBind u m specId) (Prepared u m) := by
  refine Pool.bind (fun eb log db => Uncommitted log ∧
    (eb.any (fun b => b.verified) = true → ∃ b, VerifiedAt db m b))
    (select_pool (fun log db hU => ⟨uncommitted_failed hU, .failed log⟩) ?_) fun eb => ?_
  · refine fun log db _ hU db' hr _ => ⟨hU.cons (by simp), fun hany => ?_⟩
    cases hj : joinBinding db m with
    | none => simp [hj] at hany
    | some bs =>
        obtain ⟨b, s⟩ := bs
        simp only [hj, Option.map_some, Option.any_some] at hany
        obtain ⟨hb, hs⟩ := joinBinding_eq_some.1 hj
        exact hr.stay.1.verified m b ⟨hb, s, hs, hany⟩
  split
  case isTrue hconf =>
    refine Pool.throw fun log db _ hA => ⟨hA.1, hA.2 ?_⟩
    cases eb with
    | none => cases hconf
    | some b =>
        simp only [Option.any_some, Bool.and_eq_true] at hconf
        exact hconf.1
  case isFalse =>
  refine Pool.bind (fun sp log db => (Uncommitted log ∧
    (eb.any (fun b => b.verified) = true → ∃ b, VerifiedAt db m b)) ∧
    (w.frozen → db.get ⟨.specs, specId⟩ = sp))
    (select_pool (fun log db hA => ⟨uncommitted_failed hA.1, .failed log⟩) ?_) fun sp => ?_
  · exact fun log db _ hA db' hr hA' =>
      ⟨⟨hA'.1.cons (by simp), hA'.2⟩, fun hf => hr.stay.2 hf specId⟩
  cases sp with
  | none => exact Pool.throw fun log db _ hA => ⟨hA.1.1, hA.2⟩
  | some s =>
      dsimp only
      split
      case isTrue hver => exact Pool.pure fun log db _ hA => ⟨hA.1.1, hA.1.2 hver⟩
      case isFalse =>
      split
      case isTrue hne =>
        exact Pool.throw fun log db _ hA => ⟨hA.1.1, fun hf => ⟨s, hA.2 hf, hne⟩⟩
      case isFalse howner =>
      have howner : s.userId = u := of_not_not howner
      refine Pool.bind (fun answer log db => (Uncommitted log ∧
        (w.frozen → db.get ⟨.specs, specId⟩ = some s)) ∧
          .answered (.authorIdForUid u m) answer ∈ log)
        (askQ_pool fun a log db hA => ⟨⟨hA.1.1.cons (by simp), hA.2⟩, List.mem_cons_self⟩)
        fun answer => ?_
      cases answer with
      | error e => exact Pool.throw fun log db _ hA => ⟨hA.1.1, e, hA.2⟩
      | ok a =>
          dsimp only
          split
          case isTrue hne =>
            exact Pool.throw fun log db _ hA =>
              ⟨hA.1.1, a, hA.2, fun hf => ⟨s, hA.1.2 hf, fun he => hne he.symm⟩⟩
          case isFalse he =>
            have he : a = u := (of_not_not he).trans howner
            exact Pool.pure fun log db _ hA => ⟨hA.1.1, he, he ▸ hA.2⟩

end

end Dd2Server
