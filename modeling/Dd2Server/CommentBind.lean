import Dd2Server.Binds

/-!
# The bind by published comment as a task

`commit_comment_bind` takes the binding whatever it was.  Whether it purges the worn hats is decided
by the binding it locked, which the log keeps.
-/

namespace Dd2Server

open ReadCommitted

/-- The view of the last locking read of a binding. -/
def lastLocked (m : String) : Log → Option Db
  | [] => none
  | .saw (.lockBinding m') v :: log => if m' = m then some v else lastLocked m log
  | _ :: log => lastLocked m log

/-- The spec a comment was resolved to. -/
def resolved : Log → Option Int
  | [] => none
  | .saw (.resolveComment wsid nameId) v :: _ => (CustomMapAuxSpecs.find v wsid nameId).map Prod.fst
  | _ :: log => resolved log

theorem lastLocked_plain {m : String} {ev : LogEvent} {log : Log} (h : Plain ev) :
    lastLocked m (ev :: log) = lastLocked m log := by
  cases ev with
  | saw tag v =>
      cases tag with
      | lockBinding m' => cases h
      | _ => rfl
  | _ => rfl

theorem resolved_plain {ev : LogEvent} {log : Log} (h : Plain ev) :
    resolved (ev :: log) = resolved log := by
  cases ev with
  | saw tag v =>
      cases tag with
      | resolveComment wsid nameId => cases h
      | _ => rfl
  | _ => rfl

theorem Quiet.resolved {since log : Log} (h : Quiet Plain since log) :
    resolved log = resolved since := by
  obtain ⟨new, rfl, hnew⟩ := h
  induction new with
  | nil => rfl
  | cons ev new ih =>
      rw [List.cons_append, resolved_plain (hnew ev List.mem_cons_self)]
      exact ih fun ev' h => hnew ev' (List.mem_cons_of_mem ev h)

theorem Quiet.lastLocked {m : String} {since log : Log} (h : Quiet Plain since log) :
    lastLocked m log = lastLocked m since := by
  obtain ⟨new, rfl, hnew⟩ := h
  induction new with
  | nil => rfl
  | cons ev new ih =>
      rw [List.cons_append, lastLocked_plain (hnew ev List.mem_cons_self)]
      exact ih fun ev' h => hnew ev' (List.mem_cons_of_mem ev h)

/-- The binding of the map names another spec. -/
def rebinds (v : Db) (m : String) (specId : Int) : Bool :=
  (joinBinding v m).any fun b => b.1.specId ≠ specId

/-- The map is bound to the spec and has its present revision. -/
def Current (pg : Pg) (m : String) (specId : Int) (db : Db) : Prop :=
  ∃ b s, VerifiedAt db m b ∧ b.specId = specId ∧ db.get ⟨.specs, specId⟩ = some s ∧
    b.isCurrent pg s = true

/-- The commit of a bind by comment: `v` is the view its locking read ran on. -/
def CommentBind (pg : Pg) (m : String) :
    Log → Db → Db → Prop := fun log pre post =>
  ∃ specId v, resolved log = some specId ∧ lastLocked m log = some v ∧
    ((post = pre ∧ rebinds v m specId = false ∧ Current pg m specId pre) ∨
      ∃ s c t, Bound pg m specId s c t (rebinds v m specId) pre post ∧
        (∀ b, LegacyAt pre m b → rebinds v m specId = decide (b.specId ≠ specId)) ∧
        ¬Current pg m specId pre)

/-- The commit is the last thing in the log; the entries cover what came off when the binding named
another spec, and else there are none. -/
def CommentDone (m : String) (r : ListedMaps.AuthoritativeBindResult) :
    Known Table.Key Table.Row Tag Ask.Ans Act.Out := fun log _ =>
  ∃ pre post older v, log = .committed pre post :: older ∧ Uncommitted older ∧
    resolved older = some r.specId ∧ lastLocked m older = some v ∧
    (rebinds v m r.specId = true → Listed m pre post r.removedHatWearers) ∧
    (rebinds v m r.specId = false → r.removedHatWearers = []) ∧
    Bareheaded m post r.removedHatWearers

section

variable {pg : Pg} {w : Scope} {C : Tag → Db → Prop}
  {G : Promise Table.Key Table.Row Tag Ask.Ans Act.Out} {since : Log} {L : List (Lock Table.Key)}
  {m : String} {specId : Int} {s : SpecRow}

/-- An error leaves nothing. -/
def CommentFailed (_ : BindSpecError) : Known Table.Key Table.Row Tag Ask.Ans Act.Out :=
  fun log _ => Uncommitted log

theorem CommentFailed.onTrouble (hU : Uncommitted since) :
    OnTrouble (setting pg w C G) since CommentFailed .database := by
  intro ev log db htr hq
  refine (Quiet.uncommitted hq hU).cons fun pre post he => ?_
  rw [he] at htr
  exact htr

/-- The binding of the map, if there is one, is a verified one to another spec. -/
def Elsewhere (m : String) (specId : Int) (db : Db) : Prop :=
  (∀ b, ¬LegacyAt db m b) ∧ ∀ b, db.get ⟨.mapListingBind, m⟩ = some b →
    b.specId ≠ specId

theorem Elsewhere.stale {db : Db} (h : Elsewhere m specId db) : ¬Current pg m specId db := by
  rintro ⟨b, -, hb, hspec, -⟩
  exact h.2 b hb.1 hspec

/-- The upsert takes the binding, whatever it was, and locks it. -/
theorem upsertBinding_ends {ε α : Type} {k : Unit → Query ε α}
    {g : DbError → ε} {now : Time} {E : ε → Known Table.Key Table.Row Tag Ask.Ans Act.Out}
    {B : α → Known Table.Key Table.Row Tag Ask.Ans Act.Out} {A : Assertion Table.Key Table.Row}
    {P : Db → Time → Prop} (hE : OnTrouble (setting pg w C G) since E (g .database))
    (hA : ∀ db v, A db v → v = db ∧ db.get ⟨.specs, specId⟩ = some s)
    (hP : ∀ db v, A db v → P db now)
    (hk : ∀ L' log, (∀ x ∈ L, x ∈ L') → Holds L' ⟨.mapListingBind, m⟩ →
      Quiet Plain since log → Ends (setting pg w C G) log E L' (Claimed m specId s P) (k ()) B) :
    Ends (setting pg w C G) since E L A
      (ExceptT.adapt g (sql (ListedMaps.upsertBindingStmt m specId s.userId now)) >>= k) B := by
  refine sql_ends hE fun log ws db e x hq hinv hAv _ hrun => ?_
  simp only [ListedMaps.upsertBindingStmt, Option.map_eq_some_iff] at hrun
  obtain ⟨e', he', hpair⟩ := hrun
  cases hpair
  simp only [ListedMaps.updateRow] at he'
  split at he'
  case isFalse => cases he'
  case isTrue hok =>
    cases he'
    refine ⟨⟨⟨.mapListingBind, m⟩, .noKeyUpdate⟩ :: L,
      Claimed m specId s P, fun x hx => ?_,
      fun db' hr hA' => ?_, hk _ _ (fun x hx => List.mem_cons_of_mem _ hx)
        ⟨_, List.mem_cons_self, rfl, rfl⟩ (hq.cons trivial)⟩
    · rcases List.mem_cons.1 hx with rfl | hx
      · exact List.mem_append_left _ (List.mem_append_right _ List.mem_cons_self)
      · exact List.mem_append_right _ hx
    · obtain ⟨hv', hs'⟩ := hA db' _ hA'
      have hP' := hP db' _ hA'
      rw [hv']
      exact .of_put hs' ⟨Store.get_put_self _ (⟨.mapListingBind, m⟩ : DbKey) _,
        fun k' hk' => Store.get_put_of_ne (Ne.symm hk')⟩ hP'

/-- The last steps, with the purge decided by the locked binding. -/
theorem commentFinish_ends {c : Parsed} {v : Db} {P : Db → Time → Prop}
    (hG : ∀ log pre post, CommentBind pg m log pre post → G log pre post)
    (hU : Uncommitted since) (hres : resolved since = some specId)
    (hlast : lastLocked m since = some v)
    (hP : ∀ db t, db.get ⟨.specs, specId⟩ = some s → P db t →
      (∀ b, LegacyAt db m b → rebinds v m specId = decide (b.specId ≠ specId)) ∧
        ¬Current pg m specId db)
    (hs : Holds L ⟨.specs, specId⟩) (hm : Holds L ⟨.mapListingBind, m⟩)
    (hp : parseCatalogs (pg.value s.spec) = .ok c) :
    Ends (setting pg w C G) since CommentFailed L (Claimed m specId s P)
      (do let removedHatWearers ← ExceptT.adapt .ofDb
            (if rebinds v m specId then Hats.purgeMapEquipmentInTx m else return [])
          let _ ← ExceptT.adapt .ofDb
            (ListedMaps.materializeInTx pg m specId s c.games c.collectibles c.hats)
          ExceptT.adapt .ofDb commitQ
          return { specId, removedHatWearers, materialized := true
                   replacedPrevious := rebinds v m specId }) (CommentDone m) := by
  refine finish_ends (CommentFailed.onTrouble hU) hs hm hp (fun _ _ h => h)
    (fun log pre post t hq _ hb hPt => hG _ _ _ ⟨specId, v, (Quiet.resolved hq).trans hres,
      (Quiet.lastLocked hq).trans hlast, .inr ⟨s, c, t, hb, hP pre t hb.spec hPt⟩⟩)
    (fun log purged removed pre post db hq h => ⟨pre, post, log, v, rfl, Quiet.uncommitted hq hU,
      (Quiet.resolved hq).trans hres, (Quiet.lastLocked hq).trans hlast, h.whole,
        h.noPurge, h.bare.1⟩)

theorem commitCommentBind_pool
    (hG : ∀ log pre post, CommentBind pg m log pre post → G log pre post) :
    Pool (setting pg w C G) CommentFailed
      (fun log _ => Uncommitted log ∧ resolved log = some specId)
      (ListedMaps.commitCommentBind pg m specId) (CommentDone m) := by
  refine Pool.transaction fun since₀ db₀ hinv₀ hA₀ => Ends.ask fun log now hq => ?_
  have hU : Uncommitted (.answered .now now :: log : Log) :=
    (Quiet.uncommitted hq hA₀.1).cons (by simp)
  refine lockSpec_ends (by decide) (CommentFailed.onTrouble hU) (fun db v hA => by rw [hA.1])
    (fun log₁ v hq₁ => ?_) (fun log₁ v s hq₁ => ?_)
  · exact Ends.throw fun log₂ db v hq₂ _ hA db' hr =>
      Quiet.uncommitted hq₂ ((Quiet.uncommitted hq₁ hU).cons (by simp))
  have hU₁ : Uncommitted (.saw (.named "lock spec") v :: log₁ : Log) :=
    (Quiet.uncommitted hq₁ hU).cons (by simp)
  have hres₁ : resolved (.saw (.named "lock spec") v :: log₁) = some specId :=
    (Quiet.resolved hq₁).trans ((Quiet.resolved hq).trans hA₀.2)
  refine lockBinding_ends (CommentFailed.onTrouble hU₁) (fun db v hA => hA.1.1)
    (fun log₂ v₂ hq₂ hinv₂ hA₂ hj => ?_) (fun log₂ v₂ b s' hq₂ hA₂ hj => ?_)
  · -- no binding was there
    have hU₂ : Uncommitted (.saw (.lockBinding m) v₂ :: log₂ : Log) :=
      (Quiet.uncommitted hq₂ hU₁).cons (by simp)
    have hlast : lastLocked m (.saw (.lockBinding m) v₂ :: log₂) = some v₂ := by
      simp [lastLocked]
    have hres : resolved (.saw (.lockBinding m) v₂ :: log₂) = some specId :=
      (Quiet.resolved hq₂).trans hres₁
    have hno : rebinds v₂ m specId = false := by simp [rebinds, hj]
    simp only [Option.any_none, Bool.false_eq_true, if_false]
    refine parse_ends (fun c hc => ?_) fun e he log₃ db v hq₃ _ hA db' hr =>
      Quiet.uncommitted hq₃ hU₂
    refine upsertBinding_ends (P := fun db _ => Elsewhere m specId db)
      (CommentFailed.onTrouble hU₂) (fun db v hA => ⟨hA.1.1.1, hA.1.2⟩)
      (fun db v hA => ⟨hA.2.1, hA.2.2 specId ⟨_, List.mem_cons_self, rfl, rfl⟩⟩)
      fun L' log₃ hL' hm hq₃ => ?_
    have hfin := commentFinish_ends (w := w) (C := C) hG (Quiet.uncommitted hq₃ hU₂)
      ((Quiet.resolved hq₃).trans hres) ((Quiet.lastLocked hq₃).trans hlast)
        (fun db t _ (hP : Elsewhere m specId db) =>
        ⟨fun b hb => absurd hb (hP.1 b), hP.stale⟩)
      ⟨_, hL' _ List.mem_cons_self, rfl, rfl⟩ hm hc
    rw [hno] at hfin
    exact hfin
  · -- the binding is locked
    have hU₂ : Uncommitted (.saw (.lockBinding m) v₂ :: log₂ : Log) :=
      (Quiet.uncommitted hq₂ hU₁).cons (by simp)
    have hlast : lastLocked m (.saw (.lockBinding m) v₂ :: log₂) = some v₂ := by
      simp [lastLocked]
    have hres : resolved (.saw (.lockBinding m) v₂ :: log₂) = some specId :=
      (Quiet.resolved hq₂).trans hres₁
    have hre : rebinds v₂ m specId = decide (b.specId ≠ specId) := by simp [rebinds, hj]
    simp only [lockedBinding, Option.any_some, ← hre]
    split
    case isTrue hcur =>
      simp only [Bool.and_eq_true, Bool.not_eq_true'] at hcur
      obtain ⟨⟨hno, hver⟩, hcur⟩ := hcur
      have hspec : b.specId = specId := by
        rw [hre] at hno
        exact of_not_not (of_decide_eq_false hno)
      refine Ends.commit (fun log₃ db hq₃ _ =>
        CommentFailed.onTrouble hU₂ _ _ db trivial hq₃)
        (fun db v hinv hA => ?_)
        (fun log₃ db v hq₃ hinv hA => hG _ _ _ ⟨specId, v₂,
          (Quiet.resolved hq₃).trans hres, (Quiet.lastLocked hq₃).trans hlast,
            .inl ⟨hA.1.1.1, hno,
          b, s, (hver ▸ hA.2).verifiedAt, hspec, hA.1.2, hcur⟩⟩)
        (fun log₃ db v hq₃ hinv hA db' _ =>
          ⟨db, v, log₃, v₂, rfl, Quiet.uncommitted hq₃ hU₂,
          (Quiet.resolved hq₃).trans hres, (Quiet.lastLocked hq₃).trans hlast,
            fun hyes => ?_, fun _ => rfl,
          .nil⟩)
      · rw [hA.1.1.1]
        exact .refl hinv
      · rw [hno] at hyes
        cases hyes
    case isFalse hold =>
    have hstale : ∀ db, db.get ⟨.specs, specId⟩ = some s →
        db.get ⟨.mapListingBind, m⟩ = some b →
        ¬Current pg m specId db := by
      rintro db hs hb ⟨b', s₁, ⟨hb', s₂, hs₂, hver⟩, rfl, hs₁, hcur⟩
      obtain rfl : b' = b := Option.some.inj (hb'.symm.trans hb)
      obtain rfl : s₁ = s := Option.some.inj (hs₁.symm.trans hs)
      obtain rfl : s₂ = s₁ := Option.some.inj (hs₂.symm.trans hs₁)
      obtain rfl : s' = s₂ :=
        Option.some.inj ((joinBinding_eq_some.1 hj).2.symm.trans hA₂.2)
      apply hold
      simp only [Bool.and_eq_true]
      exact ⟨⟨by simp [hre], hver⟩, hcur⟩
    refine parse_ends (fun c hc => ?_) fun e he log₃ db v hq₃ _ hA db' hr =>
      Quiet.uncommitted hq₃ hU₂
    refine upsertBinding_ends
      (P := fun db _ => db.get ⟨.mapListingBind, m⟩ = some b) (CommentFailed.onTrouble hU₂)
      (fun db v hA => ⟨hA.1.1.1, hA.1.2⟩) (fun db v hA => hA.2.row)
        fun L' log₃ hL' hm hq₃ => ?_
    refine commentFinish_ends hG (Quiet.uncommitted hq₃ hU₂) ((Quiet.resolved hq₃).trans hres)
      ((Quiet.lastLocked hq₃).trans hlast)
      (fun db t hs hb => ⟨fun b' hb' => ?_, hstale db hs hb⟩)
      ⟨_, hL' _ (List.mem_cons_of_mem _ List.mem_cons_self), rfl, rfl⟩ hm hc
    obtain rfl : b' = b := Option.some.inj (hb'.1.symm.trans hb)
    exact hre

theorem bindFromResolvedComment_pool {wsid : Uuid} {nameId : String}
    (hG : ∀ log pre post, CommentBind pg m log pre post → G log pre post) :
    Pool (setting pg w C G) CommentFailed (fun log _ => Uncommitted log)
      (ListedMaps.bindFromResolvedComment pg m wsid nameId) (CommentDone m) := by
  refine Pool.bind (fun row log _ => Uncommitted log ∧ resolved log = row)
    (select_pool (fun log db hU => uncommitted_failed hU)
      fun log db _ hU db' hr _ => ⟨hU.cons (by simp), rfl⟩) fun row => ?_
  cases row with
  | none => exact Pool.throw fun log db _ hA => hA.1
  | some id => exact commitCommentBind_pool hG

end

end Dd2Server
