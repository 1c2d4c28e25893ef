import Dd2Server.ReadCommitted.Conduct
import Dd2Server.Server2.Jobs

/-!
# Nobody waits for Nadeo under an operation lock

The conduct of every task: it asks Nadeo only while it holds no operation lock, and on the read loop
it asks for the author of a map only after a pre-check that said it would not.  Each query is
followed once, inside of a transaction (`Inside`) or outside (`Outside`).
-/

namespace Dd2Server

/-- The question is a request to Nadeo. -/
def Ask.isNadeo : Ask → Bool
  | .authorIdForUid _ _ => true
  | .fetchPublishedComment _ => true
  | .hasOfficialRecord _ _ => true
  | .hasRecentOfficialRecord _ _ => true
  | _ => false

namespace Server2

open ReadCommitted

abbrev TaskState := Local Table.Key Table.Row Tag Ask.Ans Act.Out

/-! ## The conduct -/

/-- The read that decides whether a bind runs inline. -/
def precheck : Tag := .named "bind_requires_author_verification"

/-- One of the three reads on the way to the question for the author. -/
def readsBinding : Tag → Bool
  | .named fn => fn ∈
      ["bind_requires_author_verification", "get_spec_binding", "prepare_authoritative_bind"]
  | _ => false

/-- The pre-check answered that the author need not be asked. -/
def Waived (v : Db) (u : Uuid) (m : String) (specId : Int) : Prop :=
  ((joinBinding v m).any fun (b, s) => b.specId = specId && b.isVerified s) = true ∨
    ((v.get ⟨.specs, specId⟩).any fun s => s.userId = u) = false

/-- The connection goes on with an inline bind. -/
def Inline (u : Uuid) (m : String) (specId : Int) (v : Db) (log : Log) : Prop :=
  (∃ c older, log = .saw precheck v :: .acted (.received c (.reportMinigameMap m specId))
    () :: older) ∧
    Waived v u m specId

/-- The inline bind has come to the question for the author. -/
def AsksInline (u : Uuid) (m : String) (log : Log) : Prop :=
  ∃ specId v₀ v₁ v₂ older s,
    log = .saw (.named "prepare_authoritative_bind") v₂ :: .saw
      (.named "get_spec_binding") v₁ :: older ∧
      Inline u m specId v₀ older ∧
        ((joinBinding v₁ m).any fun (b, s) => b.isVerified s) = false ∧
        v₂.get ⟨.specs, specId⟩ = some s ∧ s.userId = u

/-- The conduct of a task: whether it is a read loop, and whether its operation locks are left
out. -/
def conduct (loop barred : Prop) : Conduct Table.Key Table.Row Tag Ask.Ans Act.Out where
  stmt l tag := readsBinding tag = true → l.writes = []
  ask l q := (q.isNadeo = true → heldMaps l.log = []) ∧
    (loop → ∀ u m, q = .authorIdForUid u m → AsksInline u m l.log)
  act _ a := barred → ∀ m, a ≠ .lockMap m

/-- The task holds these operation locks. -/
def Holding (hs : List String) (l : TaskState) : Prop := heldMaps l.log = hs

/-- The task holds these operation locks, and has written nothing in an open transaction. -/
structure Idle (hs : List String) (l : TaskState) : Prop where
  held : heldMaps l.log = hs
  writes : l.writes = []

section

variable {loop barred : Prop} {hs : List String} {ε ε' α β : Type}

abbrev Inside (loop barred : Prop) (hs : List String) (x : Query ε α) : Prop :=
  Steady (conduct loop barred) (Holding hs) x

abbrev Outside (loop barred : Prop) (hs : List String) (x : Query ε α) : Prop :=
  Steady (conduct loop barred) (Idle hs) x

/-! ## Steps -/

theorem inside_sql {s : Sql β} (htag : readsBinding s.tag = false) :
    Inside loop barred hs (sql s) := by
  refine fun l hl => Behaves.query ?_ hl (fun _ => hl) fun _ _ _ _ => hl
  intro h
  rw [htag] at h
  cases h

theorem outside_select {tag : Tag} {f : Db → β} :
    Outside loop barred hs (sql (selectAs tag f)) := by
  refine fun l hl => Behaves.query (fun _ => hl.writes) ⟨hl.held, rfl⟩
    (fun _ => ⟨hl.held, rfl⟩) ?_
  intro v eff b hrun
  cases hrun
  exact ⟨hl.held, hl.writes⟩

theorem outside_poolRead {tag : Tag} {f : Db → β} : Outside loop barred hs (poolRead tag f) :=
  fun _ hl => ⟨⟨hl.held, hl.writes⟩, fun _ => ⟨hl.held, hl.writes⟩⟩

theorem inside_askQ {q : Ask} (hq : q.isNadeo = false) :
    Inside loop barred hs (askQ q : Query ε q.Ans) := by
  refine fun l hl => ⟨⟨fun h => ?_, fun _ u m he => ?_⟩, fun a => hl⟩
  · rw [hq] at h
    cases h
  · rw [he] at hq
    cases hq

theorem outside_askQ {q : Ask} (hq : q.isNadeo = false) :
    Outside loop barred hs (askQ q : Query ε q.Ans) := by
  refine fun l hl => ⟨⟨fun h => ?_, fun _ u m he => ?_⟩, fun a => ⟨hl.held, hl.writes⟩⟩
  · rw [hq] at h
    cases h
  · rw [he] at hq
    cases hq

/-- A question to Nadeo without a lock. -/
theorem outside_askNadeo {q : Ask} (hq : ∀ u m, q ≠ .authorIdForUid u m) :
    Outside loop barred [] (askQ q : Query ε q.Ans) := by
  refine fun l hl => ⟨⟨fun _ => hl.held, fun _ u m he => ?_⟩,
    fun a => ⟨hl.held, hl.writes⟩⟩
  exact absurd he (hq u m)

/-- The operation is not one on an operation lock. -/
def Act.isLocking : Act → Bool
  | .lockMap _ => true
  | .unlockMap _ => true
  | _ => false

theorem outside_actQ {a : Act} (ha : Act.isLocking a = false) :
    Outside loop barred hs (actQ a : Query ε a.Out) := by
  intro l hl _ o
  refine ⟨?_, hl.writes⟩
  cases a <;> first
    | exact hl.held
    | cases ha

theorem inside_commitQ : Inside loop barred hs commitQ := fun _ hl => ⟨hl, fun _ _ => hl⟩

theorem outside_transaction {x : Query ε α} (hx : Inside loop barred hs x) :
    Outside loop barred hs (transaction x) :=
  Steady.transaction hx (fun _ hl => hl.held) fun _ hl => ⟨hl, rfl⟩

theorem outside_autocommit {s : Time → Sql β}
    (htag : ∀ now, readsBinding (s now).tag = false) : Outside loop barred hs (autocommit s) :=
  outside_transaction ((inside_askQ rfl).bind fun now => (inside_sql (htag now)).bind fun _ =>
    inside_commitQ.bind fun _ => .pure _)

theorem outside_underMapLock {m : String} {x : Query ε α} (hx : Outside loop barred [m] x) :
    Outside loop barred [] (underMapLock m x) := by
  intro l hl hact o
  have hl' : Idle [m] (l.noted (.acted (.lockMap m) o)) :=
    ⟨congrArg (m :: ·) hl.held, hl.writes⟩
  show Behaves _ _ (attempt x >>= fun r => actQ (Act.unlockMap m) >>= fun _ =>
    (ExceptT.mk (.ret r) : Query ε α)).run _
  refine (hx _ hl').attempt.seq (fun e l' he => ?_) fun r l' hr => ?_
  · obtain ⟨r', hr', -⟩ := he
    cases hr'
  · obtain ⟨-, -, hidle⟩ := hr
    refine fun _ o' => ⟨?_, hidle.writes⟩
    show (heldMaps l'.log).erase m = []
    rw [hidle.held]
    simp

/-- A task whose operation locks are left out never gets past the first. -/
theorem outside_barred {m : String} {x : Query ε α} (h : barred) :
    Outside loop barred [] (underMapLock m x) :=
  fun _ _ hact => absurd rfl (hact h m)

theorem steady_liftE {I : TaskState → Prop} (f : ε' → ε) (r : Except ε' α) :
    Steady (conduct loop barred) I (liftE f r) := .result _

/-! ## Catalogs and specs -/

theorem inside_replaceGames {specId : Int} {u : Uuid} {n : String} {games : List CatalogGame} :
    Inside loop barred hs (Minigames.replaceCatalogInTx specId u n games) :=
  (inside_sql rfl).bind fun _ => Steady.forM (fun _ => inside_sql rfl) games

theorem inside_replaceCollectibles {specId : Int} {u : Uuid} {n : String}
    {items : List CatalogCollectible} :
    Inside loop barred hs (Collectibles.replaceCatalogInTx specId u n items) :=
  (inside_sql rfl).bind fun _ => Steady.forM (fun _ => inside_sql rfl) items

theorem inside_replaceHats {specId : Int} {u : Uuid} {n : String} {items : List CatalogHat} :
    Inside loop barred hs (Hats.replaceCatalogInTx specId u n items) :=
  (inside_sql rfl).bind fun _ => Steady.forM (fun _ => inside_sql rfl) items

theorem inside_bindGames {pg : Pg} {m : String} {specId : Int} :
    Inside loop barred hs (Minigames.bindMapFromCatalogInTx pg m specId) :=
  (inside_sql rfl).bind fun _ => inside_sql rfl

theorem inside_bindCollectibles {pg : Pg} {m : String} {specId : Int} :
    Inside loop barred hs (Collectibles.bindMapFromCatalogInTx pg m specId) :=
  (inside_sql rfl).bind fun _ => inside_sql rfl

theorem inside_bindHats {pg : Pg} {m : String} {specId : Int} :
    Inside loop barred hs (Hats.bindMapFromCatalogInTx pg m specId) :=
  (inside_sql rfl).bind fun _ => (inside_sql rfl).bind fun _ => (inside_sql rfl).bind fun _ =>
    .pure _

theorem outside_upsertCustomMapAuxSpec {pg : Pg} {u : Uuid} {n : String} {spec : Value} :
    Outside loop barred hs (upsertCustomMapAuxSpec pg u n spec) := by
  have hstore : Outside loop barred hs (CustomMapAuxSpecs.upsertSpecAndCatalogs pg u n spec) := by
    refine (steady_liftE _ _).bind fun games => (steady_liftE _ _).bind fun collectibles =>
      (steady_liftE _ _).bind fun hats => (outside_transaction ?_).adapt _
    refine (inside_askQ rfl).bind fun now => (inside_askQ rfl).bind fun nextId => ?_
    refine (inside_sql rfl).bind fun id => inside_replaceGames.bind fun _ => ?_
    refine inside_replaceCollectibles.bind fun _ => inside_replaceHats.bind fun _ => ?_
    exact inside_commitQ.bind fun _ => .pure _
  rw [upsertCustomMapAuxSpec]
  split
  · refine ((outside_autocommit fun _ => rfl).adapt _).bind fun existing => ?_
    refine (outside_askQ rfl).bind fun now => ?_
    split
    · exact .throw _
    · exact (hstore.adapt _).bind fun _ => .pure _
  · exact .throw _

theorem outside_deleteCustomMapAuxSpecInner {u : Uuid} {n : String} :
    Outside loop barred hs (deleteCustomMapAuxSpecInner u n) := by
  refine ((outside_autocommit fun _ => rfl).adapt _).bind fun existing => ?_
  refine (outside_askQ rfl).bind fun now => ?_
  split
  · exact .throw _
  · refine (outside_select.adapt _).bind fun boundMap => ?_
    cases boundMap with
    | some m => exact .throw _
    | none =>
        refine ((outside_autocommit fun _ => rfl).adapt _).bind fun _ => ?_
        refine ((outside_autocommit fun _ => rfl).adapt _).bind fun _ => ?_
        refine ((outside_autocommit fun _ => rfl).adapt _).bind fun _ => ?_
        exact (outside_autocommit fun _ => rfl).adapt _

theorem outside_registerOrLogin {u : Uuid} {name : String} :
    Outside loop barred hs (registerOrLogin u name) := by
  refine outside_select.attempt.bind fun found => ?_
  have hstore : ∀ user, Outside loop barred hs (accounts.storeUser u name user) := by
    intro user
    cases user with
    | none => exact (outside_autocommit fun _ => rfl).bind fun _ => .pure _
    | some user => exact (outside_autocommit fun _ => rfl).bind fun _ => .pure _
  refine (hstore _).bind fun r => ?_
  obtain ⟨user, insertName⟩ := r
  cases insertName with
  | false => exact .pure _
  | true => exact (outside_autocommit fun _ => rfl).bind fun _ => .pure _

/-! ## Binds -/

theorem inside_lockMaterializedSpec {pg : Pg} {m : String} {specId : Int} :
    Inside loop barred hs (ListedMaps.lockMaterializedSpec pg m specId) := by
  refine (inside_sql rfl).bind fun source => ?_
  cases source with
  | none => exact .pure _
  | some s => exact (inside_sql rfl).bind fun _ => .pure _

theorem inside_materialize {pg : Pg} {m : String} {specId : Int} {s : SpecRow}
    {games : List CatalogGame} {collectibles : List CatalogCollectible} {hats : List CatalogHat} :
    Inside loop barred hs (ListedMaps.materializeInTx pg m specId s games collectibles hats) := by
  refine inside_replaceGames.bind fun _ => inside_replaceCollectibles.bind fun _ => ?_
  refine inside_replaceHats.bind fun _ => inside_bindGames.bind fun _ => ?_
  refine inside_bindCollectibles.bind fun _ => inside_bindHats.bind fun bound => ?_
  exact (inside_sql rfl).bind fun _ => .pure _

theorem inside_purge {purge : Bool} {m : String} :
    Inside loop barred hs (if purge then Hats.purgeMapEquipmentInTx m else return []) := by
  split
  · exact inside_sql rfl
  · exact .pure _

theorem outside_commitAuthoritativeBind {pg : Pg} {prepared : ListedMaps.PreparedBind} {u : Uuid}
    {m : String} {specId : Int} :
    Outside loop barred hs (ListedMaps.commitAuthoritativeBind pg prepared u m specId) := by
  refine outside_transaction ((inside_askQ rfl).bind fun now => ?_)
  refine ((inside_sql rfl).adapt _).bind fun lockedSpec => ?_
  cases lockedSpec with
  | none => exact .throw _
  | some s =>
      refine ((inside_sql rfl).adapt _).bind fun lockedBinding => ?_
      dsimp only
      split
      · exact .throw _
      · split
        · exact .throw _
        · split
          · exact .throw _
          · split
            · exact (inside_commitQ.adapt _).bind fun _ => .pure _
            · refine (steady_liftE _ _).bind fun games => (steady_liftE _ _).bind fun items => ?_
              refine (steady_liftE _ _).bind fun hats => ?_
              refine ((inside_sql rfl).adapt _).bind fun _ => ?_
              refine ((inside_sql rfl).adapt _).bind fun _ => ?_
              refine ((inside_sql rfl).adapt _).bind fun winner => ?_
              cases winner with
              | none => exact .throw _
              | some w =>
                  dsimp only
                  split
                  · exact .throw _
                  · split
                    · exact .throw _
                    · refine (inside_purge.adapt _).bind fun purged => ?_
                      refine (inside_materialize.adapt _).bind fun removed => ?_
                      exact (inside_commitQ.adapt _).bind fun _ => .pure _

theorem outside_bindFromResolvedComment {pg : Pg} {m n : String} {w : Uuid} :
    Outside loop barred hs (ListedMaps.bindFromResolvedComment pg m w n) := by
  refine (outside_select.adapt _).bind fun row => ?_
  cases row with
  | none => exact .throw _
  | some specId =>
      refine outside_transaction ((inside_askQ rfl).bind fun now => ?_)
      refine ((inside_sql rfl).adapt _).bind fun lockedSpec => ?_
      cases lockedSpec with
      | none => exact .throw _
      | some s =>
          refine ((inside_sql rfl).adapt _).bind fun lockedBinding => ?_
          dsimp only
          split
          · exact (inside_commitQ.adapt _).bind fun _ => .pure _
          · refine (steady_liftE _ _).bind fun games => (steady_liftE _ _).bind fun items => ?_
            refine (steady_liftE _ _).bind fun hats => ?_
            refine ((inside_sql rfl).adapt _).bind fun _ => ?_
            refine (inside_purge.adapt _).bind fun removed => ?_
            refine (inside_materialize.adapt _).bind fun _ => ?_
            exact (inside_commitQ.adapt _).bind fun _ => .pure _

/-- The comment is downloaded here. -/
theorem outside_tryCommentBind {pg : Pg} {m : String} :
    Outside loop barred [] (tryCommentBind pg m : Query ε _) := by
  refine (outside_askNadeo (by simp)).bind fun answer => ?_
  cases answer with
  | error e => exact .pure _
  | ok published =>
      cases published with
      | notOnNadeo => exact .pure _
      | comment text =>
          cases text with
          | none => exact .pure _
          | some comment =>
              dsimp only
              split
              · exact .pure _
              · refine outside_bindFromResolvedComment.attempt.bind fun r => ?_
                split <;> exact .pure _

theorem outside_handleRecheckBind {pg : Pg} {m : String} :
    Outside loop barred [] (handleRecheckBind pg m : Query ε _) := by
  rw [handleRecheckBind]
  split
  · exact .pure _
  · exact outside_tryCommentBind.bind fun _ => .pure _

theorem outside_broadcastRemoved {m : String} {removed : List HatOnMapPlayer} :
    Outside loop barred hs (broadcastRemoved m removed : Query ε Unit) := by
  rw [broadcastRemoved]
  split
  · exact .pure _
  · exact outside_actQ rfl

/-- Where the author is not asked on a read loop, or the pre-check let the bind run inline. -/
theorem behaves_prepare {u : Uuid} {m : String} {specId : Int} {l : TaskState} (hl : Idle [] l)
    (hin : loop → ∃ v, Inline u m specId v l.log) :
    Behaves (conduct loop barred) (fun _ l' => Idle [] l')
      (ListedMaps.prepareAuthoritativeBind u m specId).run l := by
  have hget : Behaves (conduct loop barred)
      (fun r l' => Idle [] l' ∧ ∀ b, r = .ok b → ∃ v₁,
        l'.log = .saw (.named "get_spec_binding") v₁ :: l.log ∧
          (b.any fun b => b.verified) = (joinBinding v₁ m).any fun (b, s) => b.isVerified s)
      (ExceptT.adapt BindSpecError.ofDb (ListedMaps.getSpecBinding m)).run l := by
    rw [ListedMaps.getSpecBinding, adapt_sql]
    refine Behaves.query (fun _ => hl.writes) ⟨⟨hl.held, rfl⟩, by simp⟩
      (fun _ => ⟨⟨hl.held, rfl⟩, by simp⟩) fun v eff b hrun => ?_
    cases hrun
    refine ⟨⟨hl.held, hl.writes⟩, fun b hb => ⟨v, rfl, ?_⟩⟩
    cases hb
    rw [Option.any_map]
  refine hget.seq (fun e l' h => h.1) fun existing l₁ h => ?_
  obtain ⟨hl₁, h₁⟩ := h
  obtain ⟨v₁, hlog₁, hany⟩ := h₁ existing rfl
  dsimp only
  split
  · exact hl₁
  · have hread : Behaves (conduct loop barred)
        (fun r l' => Idle [] l' ∧ ∀ x, r = .ok x → ∃ v₂,
          l'.log = .saw (.named "prepare_authoritative_bind") v₂ :: l₁.log ∧
            x = v₂.get ⟨.specs, specId⟩)
        (ExceptT.adapt BindSpecError.ofDb (sql (select "prepare_authoritative_bind" fun v =>
          v.get ⟨.specs, specId⟩))).run l₁ := by
      rw [adapt_sql]
      refine Behaves.query (fun _ => hl₁.writes) ⟨⟨hl₁.held, rfl⟩, by simp⟩
        (fun _ => ⟨⟨hl₁.held, rfl⟩, by simp⟩) fun v eff b hrun => ?_
      cases hrun
      refine ⟨⟨hl₁.held, hl₁.writes⟩, fun x hx => ⟨v, rfl, ?_⟩⟩
      cases hx
      rfl
    refine hread.seq (fun e l' h => h.1) fun spec l₂ h => ?_
    obtain ⟨hl₂, h₂⟩ := h
    obtain ⟨v₂, hlog₂, hspec⟩ := h₂ spec rfl
    cases spec with
    | none => exact hl₂
    | some s =>
        dsimp only
        split
        case isTrue => exact hl₂
        case isFalse hver =>
          split
          case isTrue => exact hl₂
          case isFalse howner =>
            refine ⟨⟨fun _ => hl₂.held, fun hloop u' m' he => ?_⟩, fun answer => ?_⟩
            · cases he
              obtain ⟨v₀, hv₀⟩ := hin hloop
              refine ⟨specId, v₀, v₁, v₂, l.log, s, hlog₂.trans (by rw [hlog₁]), hv₀,
                ?_, hspec.symm, not_not.1 howner⟩
              rw [← hany]
              exact Bool.not_eq_true _ ▸ hver
            · cases answer with
              | error e => exact ⟨hl₂.held, hl₂.writes⟩
              | ok author =>
                  have hidle : Idle []
                      (l₂.noted (.answered (.authorIdForUid u m) (.ok author))) :=
                    ⟨hl₂.held, hl₂.writes⟩
                  show Behaves _ _ (ExceptT.run (if author ≠ s.userId then throw _ else pure _)) _
                  split
                  · exact hidle
                  · exact hidle

theorem behaves_reportMinigameMapWithVerifier {pg : Pg} {u : Uuid} {m : String} {specId : Int}
    {l : TaskState} (hl : Idle [] l) (hin : loop → ∃ v, Inline u m specId v l.log) :
    Behaves (conduct loop barred) (fun _ l' => Idle [] l')
      (reportMinigameMapWithVerifier pg u m specId).run l := by
  rw [reportMinigameMapWithVerifier]
  split
  · exact hl
  · refine ((behaves_prepare hl hin).adapt (Q := fun _ l' => Idle [] l') fun _ _ h => h).seq
      (fun _ _ h => h) fun prepared l' hl' => ?_
    refine outside_underMapLock ?_ l' hl'
    exact (outside_commitAuthoritativeBind.adapt _).bind fun b => outside_broadcastRemoved

/-! ## Hats -/

theorem outside_reportEquip {pg : Pg} {u : Uuid} {m slug : String} :
    Outside loop barred hs (Hats.reportEquipWithBeforePayload pg u m slug) := by
  have hwrite : ∀ now, Inside loop barred hs (Hats.writeEquip pg u m slug now) := by
    intro now
    rw [Hats.writeEquip]
    split
    · exact (inside_sql rfl).bind fun _ => .pure _
    · refine (inside_sql rfl).bind fun binding => ?_
      cases binding with
      | none => exact .pure _
      | some specId =>
          refine inside_lockMaterializedSpec.bind fun current => ?_
          split
          · exact .pure _
          · refine (inside_sql rfl).bind fun unlocked => ?_
            cases unlocked with
            | none => exact .pure _
            | some key => exact (inside_sql rfl).bind fun _ => .pure _
  have hname : Inside loop barred hs (Hats.displayName u) := by
    refine (inside_sql rfl).bind fun name => ?_
    cases name with
    | none => exact .throw _
    | some name => exact .pure _
  refine outside_transaction
    ((inside_askQ rfl).bind fun now => (hwrite now).bind fun eventSlug => ?_)
  cases eventSlug with
  | none => exact .pure _
  | some eventSlug =>
      refine (inside_askQ rfl).bind fun hook => (steady_liftE _ _).bind fun _ => ?_
      exact hname.bind fun name => inside_commitQ.bind fun _ => .pure _

theorem outside_reportHatEquip {pg : Pg} {u : Uuid} {m slug : String} :
    Outside loop barred [] (Dd2Server.reportHatEquip pg u m slug) := by
  rw [Dd2Server.reportHatEquip]
  split
  · exact .pure _
  · refine outside_underMapLock ((outside_reportEquip.adapt _).bind fun entry => ?_)
    cases entry with
    | none => exact .pure _
    | some entry => exact outside_actQ rfl

/-! ## Connections -/

theorem outside_setWayfinderMap {pg : Pg} {c : Nat} {u : Uuid} {name : String}
    {tracked next : Option String} :
    Outside loop barred [] (setWayfinderMap pg c u name tracked next : Query ε _) := by
  have hleave : Outside loop barred [] (broadcastLeave u name tracked) := by
    rw [broadcastLeave]
    split
    · exact .pure _
    · exact outside_underMapLock (outside_actQ rfl)
  have hjoin : Outside loop barred [] (broadcastJoin pg u next) := by
    rw [broadcastJoin]
    split
    · exact .pure _
    · refine outside_underMapLock (outside_poolRead.bind fun entry => ?_)
      cases entry with
      | none => exact .pure _
      | some entry => exact outside_actQ rfl
  have hboth : Outside loop barred [] (broadcastHatContextTransition pg u name tracked next) := by
    rw [broadcastHatContextTransition]
    split
    · exact .pure _
    · exact hleave.bind fun _ => hjoin
  rw [setWayfinderMap]
  split
  · exact .pure _
  · exact (outside_actQ rfl).bind fun _ => hboth.attempt.bind fun _ => .pure _

theorem outside_adoptWayfinderMap {pg : Pg} {c : Nat} {u : Uuid} {name m : String}
    {tracked : Option String} :
    Outside loop barred [] (adoptWayfinderMap pg c u name tracked m : Query ε _) := by
  have hobserve : Outside loop barred [] (observeMapForCommentBind m : Query ε Unit) := by
    rw [observeMapForCommentBind]
    split
    · exact .pure _
    · refine (outside_askQ rfl).bind fun admitted => ?_
      split
      · exact outside_actQ rfl
      · exact .pure _
  rw [adoptWayfinderMap]
  split
  · exact .pure _
  · exact hobserve.bind fun _ => outside_setWayfinderMap

theorem outside_pushHatsMine {pg : Pg} {c : Nat} {u : Uuid} {m : String} :
    Outside loop barred [] (pushHatsMine pg c u m) := by
  have hmine : Outside loop barred [] (Hats.getHatsMine pg m u) := by
    refine outside_select.bind fun bound => ?_
    cases bound with
    | none => exact .pure _
    | some _ => exact outside_poolRead.bind fun _ => outside_poolRead.bind fun _ => .pure _
  refine (hmine.adapt _).bind fun mine => ?_
  cases mine with
  | none => exact .pure _
  | some mine => exact outside_actQ rfl

theorem behaves_precheck {c : Nat} {u : Uuid} {m : String} {specId : Int} {l : TaskState}
    {older : Log} (hl : Idle [] l)
    (hlog : l.log = .acted (.received c (.reportMinigameMap m specId)) () :: older) :
    Behaves (conduct loop barred)
      (fun r l' => Idle [] l' ∧ (r = .ok false → ∃ v, Inline u m specId v l'.log))
      (ListedMaps.bindRequiresAuthorVerification u m specId).run l := by
  refine Behaves.seq (M := fun r l' => Idle [] l' ∧ ∀ x, r = .ok x → ∃ v,
    l'.log = .saw precheck v :: l.log ∧
      x = ((joinBinding v m).any fun (b, s) => b.specId = specId && b.isVerified s,
        (v.get ⟨.specs, specId⟩).any fun s => s.userId = u)) ?_ (fun e l' h => ⟨h.1, by
          simp⟩) ?_
  · refine Behaves.query (fun _ => hl.writes) ⟨⟨hl.held, rfl⟩, by simp⟩
      (fun _ => ⟨⟨hl.held, rfl⟩, by simp⟩) fun v eff b hrun => ?_
    cases hrun
    refine ⟨⟨hl.held, hl.writes⟩, fun x hx => ⟨v, rfl, ?_⟩⟩
    cases hx
    rfl
  · rintro x l' ⟨hidle, hx⟩
    obtain ⟨v, hlog', rfl⟩ := hx x rfl
    refine ⟨hidle, fun hr => ⟨v, ⟨c, older, by rw [hlog', hlog]⟩, ?_⟩⟩
    rw [Waived]
    simpa [Bool.or_eq_true, imp_iff_not_or] using hr

/-- What stands before an inline bind: the request, as the newest event. -/
theorem behaves_reportMinigameMap {pg : Pg} {c : Nat} {u : Uuid} {m : String} {specId : Int}
    {l : TaskState} {older : Log} (hl : Idle [] l)
    (hlog : l.log = .acted (.received c (.reportMinigameMap m specId)) () :: older) :
    Behaves (conduct loop barred) (fun _ l' => Idle [] l')
      (reportMinigameMap pg u m specId).run l := by
  rw [reportMinigameMap]
  split
  · exact hl
  · have hcheck : Behaves (conduct loop barred)
        (fun r l' => Idle [] l' ∧ (r = .ok false → ∃ v, Inline u m specId v l'.log))
        (ExceptT.adapt ApiError.ofDb (ListedMaps.bindRequiresAuthorVerification u m specId)).run
          l := by
      refine (behaves_precheck hl hlog).adapt fun r l' h => ⟨h.1, fun he => h.2 ?_⟩
      cases r with
      | error e => cases he
      | ok asks => exact congrArg Except.ok (Except.ok.inj he)
    refine hcheck.seq (fun e l' h => h.1) fun asks l' h => ?_
    obtain ⟨hl', hinline⟩ := h
    cases asks with
    | true => exact outside_actQ rfl l' hl'
    | false => exact behaves_reportMinigameMapWithVerifier hl' fun _ => hinline rfl

theorem behaves_handle {pg : Pg} {c : Nat} {u : Uuid} {name : String} {st : ReadLoop}
    {request : Request} {l : TaskState} {older : Log} (hl : Idle [] l)
    (hlog : l.log = .acted (.received c request) () :: older) :
    Behaves (conduct loop barred) (fun _ l' => Idle [] l')
      (handle pg c u name st request : Query ε ReadLoop).run l := by
  have hadopt : ∀ {m}, Outside loop barred []
      (adoptWayfinderMapOrTracked pg c u name st.wayfinderMapUid m : Query ε _) := by
    intro m
    refine outside_adoptWayfinderMap.bind fun r => ?_
    cases r.2 <;> exact .pure _
  cases request with
  | reportContext m =>
      refine ((outside_askQ rfl).bind fun stored => ?_ : Outside loop barred [] _) l hl
      cases stored with
      | error e => exact .pure _
      | ok _ =>
          dsimp only
          split
          · refine Steady.bind ?_ fun _ => .pure _
            rw [applyContextMapChange]
            split
            · exact .pure _
            · exact outside_setWayfinderMap
          · exact .pure _
  | reportMinigameMap m specId =>
      refine ((behaves_reportMinigameMap hl hlog).attempt).seq (fun e l' he => ?_) fun r l' hr => ?_
      · obtain ⟨r', hr', -⟩ := he
        cases hr'
      · obtain ⟨-, -, hidle⟩ := hr
        exact (outside_adoptWayfinderMap.bind fun _ => .pure _ : Outside loop barred [] _) l' hidle
  | reportHatUnlock m slug specId =>
      have hunlock : Outside loop barred [] (reportHatUnlock pg c u m slug specId) := by
        rw [reportHatUnlock]
        split
        · exact .pure _
        · refine (outside_select.adapt _).bind fun bound => ?_
          cases bound with
          | none => exact .pure _
          | some _ =>
              refine (outside_actQ rfl).bind fun owed => ?_
              split
              · exact outside_actQ rfl
              · exact .pure _
      exact (hunlock.attempt.bind fun _ => .pure _ : Outside loop barred [] _) l hl
  | reportHatEquip m slug =>
      have hequip : Outside loop barred [] (reportHatEquip pg c u st.wayfinderMapUid m slug) := by
        rw [reportHatEquip]
        split
        · exact .pure _
        · refine (outside_askQ rfl).bind fun verdict => ?_
          cases verdict with
          | allowed => exact outside_reportHatEquip
          | perUser => exact outside_actQ rfl
          | global => exact .pure _
      exact (hequip.attempt.bind fun _ => .pure _ : Outside loop barred [] _) l hl
  | getHatsMine m =>
      have hsend : ∀ current, Outside loop barred [] (sendHatsMine pg c u current m) := by
        intro current
        rw [sendHatsMine]
        split
        · exact .pure _
        · refine (outside_actQ rfl).bind fun pending => ?_
          split
          · exact .pure _
          · exact outside_pushHatsMine
      exact (hadopt.bind fun r => (hsend _).attempt.bind fun _ => .pure _ :
        Outside loop barred [] _) l hl
  | getHatsOnMap m =>
      have hsend : ∀ current, Outside loop barred [] (sendHatsOnMap pg c current m) := by
        intro current
        rw [sendHatsOnMap]
        split
        · exact .pure _
        · refine Steady.bind (Steady.adapt _ ?_) fun hats => outside_actQ rfl
          exact (outside_askQ rfl).bind fun now => outside_poolRead
      exact (hadopt.bind fun r => (hsend _).attempt.bind fun _ => .pure _ :
        Outside loop barred [] _) l hl

theorem outside_readLoop {pg : Pg} {c : Nat} {u : Uuid} {name : String} {st : ReadLoop}
    {requests : List Request} :
    Outside loop barred [] (readLoop pg c u name st requests : Query ε Unit) := by
  induction requests generalizing st with
  | nil => exact .pure _
  | cons request requests ih =>
      intro l hl _ o
      have hidle : Idle [] (l.noted (.acted (.received c request) o)) := ⟨hl.held, hl.writes⟩
      exact (behaves_handle hidle rfl).seq (fun _ _ h => h) fun st' l' hl' => ih l' hl'

/-! ## Tasks -/

theorem outside_offerEach {m : String} {hats : List HatOnMapPlayer} {players : List Nat} :
    Outside loop barred hs (offerEach m hats players : Query ε Unit) := by
  induction players with
  | nil => exact .pure _
  | cons c players ih => exact (outside_actQ rfl).bind fun _ => ih

end

/-- The read loops are held to the pre-check, and a comment bind is taken to stop before its lock.
A validation has no operation lock at all, by what it promises. -/
def Job.conduct : Job → Conduct Table.Key Table.Row Tag Ask.Ans Act.Out
  | .connection _ _ _ => Server2.conduct True False
  | .spawned (.commentBind _) => Server2.conduct False True
  | .spawned (.unlockValidation ..) => {}
  | _ => Server2.conduct False False

theorem Job.behaves (pg : Pg) (j : Job) : Behaves j.conduct (fun _ _ => True) (j.body pg) {} := by
  have hdetached : ∀ {loop barred : Prop} {ε α : Type} {x : Query ε α},
      Outside loop barred [] x →
        Behaves (Server2.conduct loop barred) (fun _ _ => True) (detached x) {} :=
    fun hx => (hx {} ⟨rfl, rfl⟩).bind fun _ _ _ => trivial
  cases j with
  | connection u name requests =>
      exact hdetached ((outside_actQ rfl).bind fun c => outside_readLoop)
  | spawned task =>
      cases task with
      | deferredBind u m specId =>
          refine hdetached ((outside_actQ rfl).bind fun _ => Steady.bind (Steady.attempt ?_)
            fun _ => .pure _)
          exact fun l hl => behaves_reportMinigameMapWithVerifier hl fun h => h.elim
      | commentBind m =>
          refine hdetached ((outside_actQ rfl).bind fun _ => Steady.bind ?_ fun _ => .pure _)
          exact outside_barred trivial
      | unlockValidation c u m slug specId => exact Behaves.any _ _
  | deliver =>
      exact hdetached ((outside_actQ rfl).bind fun r => outside_offerEach.bind fun _ =>
        outside_actQ rfl)
  | relay c => exact hdetached (outside_actQ rfl)
  | login u name => exact hdetached outside_registerOrLogin
  | upload u n spec => exact hdetached outside_upsertCustomMapAuxSpec
  | deleteSpec u n => exact hdetached outside_deleteCustomMapAuxSpecInner
  | recheckBind m => exact hdetached outside_handleRecheckBind

/-! ## All runs -/

/-- The task waits for an answer of Nadeo. -/
def waitsForNadeo (t : ServerTask) : Bool :=
  match t.prog with
  | .ask q _ => q.isNadeo
  | _ => false

/-- Nobody waits for Nadeo while it holds an operation lock. -/
def NadeoUnlocked (s : System) : Prop :=
  ∀ t ∈ s.tasks, waitsForNadeo t = true → heldMaps t.loc.log = []

instance (s : System) : Decidable (NadeoUnlocked s) :=
  inferInstanceAs (Decidable (∀ t ∈ s.tasks, waitsForNadeo t = true →
    heldMaps t.loc.log = []))

/-- The move is a comment bind's that takes the operation lock of its map. -/
def locksForComment (s : System) : Move Ask.Ans Job → Bool
  | .run i _ =>
      match s.tasks[i]? with
      | some ⟨.spawned (.commentBind _), .act (.lockMap _) _, _⟩ => true
      | _ => false
  | _ => false

/-- The runs in which no comment bind takes an operation lock. -/
abbrev RunWithoutCommentLocks (pg : Pg) (db : Db) (s : System) : Prop :=
  ReachBy shared (Job.body pg) (fun s m => locksForComment s m = false) (System.on db) s

theorem allows_of_locksForComment {s : System} {m : Move Ask.Ans Job}
    (h : locksForComment s m = false) : s.Allows Job.conduct m := by
  cases m with
  | start j => trivial
  | drop i => trivial
  | run i c =>
      intro t a next ht hp
      obtain ⟨j, p, l⟩ := t
      cases hp
      have hfree : ∀ {loop : Prop}, (Server2.conduct loop False).act l a :=
        fun hbarred => hbarred.elim
      cases j with
      | spawned task =>
          cases task with
          | commentBind m =>
              rintro - m' rfl
              simp [locksForComment, ht] at h
          | deferredBind u m specId => exact hfree
          | unlockValidation c u m slug specId => trivial
      | _ => exact hfree

/-- A log without a lock holds none. -/
theorem heldMaps_eq_nil {log : Log} (h : ∀ m o, .acted (.lockMap m) o ∉ log) :
    heldMaps log = [] := by
  induction log with
  | nil => rfl
  | cons ev log ih =>
      have ih' : heldMaps log = [] := ih fun m o hm => h m o (List.mem_cons_of_mem _ hm)
      cases ev with
      | acted a o =>
          cases a with
          | lockMap m => exact absurd List.mem_cons_self (h m o)
          | unlockMap m =>
              show (heldMaps log).erase m = []
              rw [ih']
              rfl
          | _ => exact ih'
      | _ => exact ih'

/-- A validation never takes an operation lock. -/
theorem Sane.validation_unlocked {pg : Pg} {s : System} (h : Sane pg s) {t : ServerTask}
    (ht : t ∈ s.tasks) {c : Nat} {u : Uuid} {m slug : String} {specId : Int}
    (hj : t.job = .spawned (.unlockValidation c u m slug specId)) : heldMaps t.loc.log = [] := by
  apply heldMaps_eq_nil
  intro m' o hmem
  obtain ⟨newer, older, hlog⟩ := List.append_of_mem hmem
  have hact := (h.kept t ht).act newer _ o older hlog
  rw [hj] at hact
  exact hact

/-- As long as no comment bind takes an operation lock, nobody waits for Nadeo under one. -/
theorem nadeo_unlocked {pg : Pg} {db₀ : Db} {s : System} (hinv : Inv pg False db₀)
    (hrun : RunWithoutCommentLocks pg db₀ s) : NadeoUnlocked s := by
  have hbehaved : s.Behaved Job.conduct fun _ _ _ => True :=
    hrun.behaved (Job.behaves pg) (fun _ _ => allows_of_locksForComment) rfl
  have hsane : Sane pg s := RunFrom.sane (hrun.reach fun s _ _ => s.admits_true) hinv
  intro t ht hwait
  cases hp : t.prog with
  | ask q next =>
      have hq : q.isNadeo = true := by simpa only [waitsForNadeo, hp] using hwait
      have hask := hbehaved.ask ht hp
      cases hj : t.job with
      | spawned task =>
          cases task with
          | unlockValidation c u m slug specId => exact hsane.validation_unlocked ht hj
          | _ =>
              rw [hj] at hask
              exact hask.1 hq
      | _ =>
          rw [hj] at hask
          exact hask.1 hq
  | _ => simp [waitsForNadeo, hp] at hwait

/-- While the author's bind waits for Nadeo, the operation lock of the map is free. -/
theorem nadeo_unlocked_deferred : ∃ s, RunWithoutCommentLocks Sample.pg Store.empty s ∧
    (s.tasks.any waitsForNadeo) = true ∧ NadeoUnlocked s := by
  obtain ⟨s, hrun, hwaits⟩ : ∃ s, RunWithoutCommentLocks Sample.pg Store.empty s ∧
      (s.tasks.any waitsForNadeo) = true :=
    ReachBy.scriptedBy
      [.start (.login 1 "Author"), .go 0 20 (Sample.answers 7 none),
       .start (.upload 1 "climb" Sample.spec), .go 1 40 (Sample.answers 7 none),
       .start (.connection 1 "Author" [.reportMinigameMap Sample.mapUid 7]),
       .go 2 60 (Sample.answers 7 none),
       .start (.spawned (.deferredBind 1 Sample.mapUid 7)), .go 3 3 (Sample.answers 7 none)]
      (by decide +kernel)
  exact ⟨s, hrun, hwaits, nadeo_unlocked (inv_empty Sample.pg False) hrun⟩

/-- A player comes to a map whose comment is due. -/
theorem nadeo_under_lock : ¬∀ (pg : Pg) (db₀ : Db) (s : System), Inv pg False db₀ →
    RunFrom pg db₀ s → NadeoUnlocked s := by
  intro h
  obtain ⟨s, hrun, hlocked⟩ : ∃ s, RunFrom Sample.pg Store.empty s ∧ ¬NadeoUnlocked s :=
    Reach.scripted
      [.start (.connection 1 "Player" [.getHatsMine Sample.mapUid]),
       .go 0 40 (fun
         | .admitCommentBind _ => true
         | q => Sample.answers 7 none q),
       .start (.spawned (.commentBind Sample.mapUid)), .go 1 2 (Sample.answers 7 none)]
      (by decide +kernel)
  exact hlocked (h Sample.pg Store.empty s (inv_empty Sample.pg False) hrun)

end Server2

end Dd2Server
