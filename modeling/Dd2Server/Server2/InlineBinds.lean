import Dd2Server.ReadCommitted.Sightings
import Dd2Server.Server2.LockDiscipline

/-!
# Binds on the read loop do not ask for the author

The pre-check of a bind, its look at the binding and its look at the spec are three reads with other
commits between them.  A verified binding stays verified and a spec keeps its owner, so what the
pre-check found still holds at the other two.
-/

namespace Dd2Server

namespace Server2

open ReadCommitted

/-! ## What holds between two reads -/

/-- A spec that is there at both times has one owner. -/
def SameOwners (db db' : Db) : Prop :=
  ∀ id s s', db.get ⟨.specs, id⟩ = some s → db'.get ⟨.specs, id⟩ = some s' →
    s'.userId = s.userId

/-- Verified bindings stay, and specs keep their owners. -/
structure Since (db db' : Db) : Prop where
  verified : ∀ m b, VerifiedAt db m b → ∃ b', VerifiedAt db' m b'
  owners : SameOwners db db'

theorem Since.refl (db : Db) : Since db db where
  verified _ b h := ⟨b, h⟩
  owners id s s' h h' := by
    rw [h] at h'
    cases h'
    rfl

section

variable {pg : Pg} {pre post : Db}

theorem SameOwners.of_eq (h : ∀ id, post.get ⟨.specs, id⟩ = pre.get ⟨.specs, id⟩) :
    SameOwners pre post := by
  intro id s s' hs hs'
  rw [h, hs] at hs'
  cases hs'
  rfl

theorem SameOwners.of_frame {ts : List Table} (h : Frame ts pre post) (hts : Table.specs ∉ ts) :
    SameOwners pre post := .of_eq fun id => h.get id hts

/-- A commit leaves each spec with its owner. -/
theorem SameOwners.of_commit (hinv : Inv pg False pre) (h : Commit pg False pre post) :
    SameOwners pre post := by
  cases h with
  | same he => exact .of_eq fun id => by rw [he]
  | hit hit =>
      intro id s s' hs hs'
      obtain ⟨s'', hs'', he⟩ := hit.fwd hs
      rw [hs'] at hs''
      cases hs''
      exact HitCounted.userId he
  | upserted hup =>
      intro id s s' hs hs'
      obtain ⟨s'', hs'', hu, -⟩ := hup.fwd (w := .any) hinv hs
      rw [hs'] at hs''
      cases hs''
      exact hu
  | @deleted u n id₀ hdel =>
      intro id s s' hs hs'
      rcases eq_or_ne id id₀ with rfl | hne
      · rw [hdel.row] at hs'
        cases hs'
      · rw [hdel.otherSpecs id hne, hs] at hs'
        cases hs'
        rfl
  | catalog hcat =>
      exact .of_frame (CatalogDeleted.frame (w := .any) hcat) (by decide)
  | bound hb => exact .of_frame hb.others (by decide)
  | unlocked hun => exact .of_frame hun.frame (by decide)
  | equipped heq => exact .of_frame heq.put.frame (by simp)
  | unequipped hun => exact .of_frame hun.frame (by decide)
  | login hlog => exact .of_frame hlog.others (by decide)

/-- Where no spec comes back under an id that was taken. -/
theorem SameOwners.trans {db : Db} (h : SameOwners db pre) (h' : SameOwners pre post)
    (hids : ∀ id, (db.get ⟨.specs, id⟩).isSome = true → pre.get ⟨.specs, id⟩ = none →
      post.get ⟨.specs, id⟩ = none) : SameOwners db post := by
  intro id s s' hs hs'
  cases hmid : pre.get ⟨.specs, id⟩ with
  | none =>
      rw [hids id (by rw [hs]; rfl) hmid] at hs'
      cases hs'
  | some s₁ => exact (h' id s₁ s' hmid hs').trans (h id s s₁ hs hmid)

end

/-! ## Ids of specs -/

/-- The ids under which the reads of a bind saw a spec. -/
def seenIds (log : Log) : List Int :=
  log.flatMap fun
    | .saw tag v => if readsBinding tag then (v.rows .specs).map Prod.fst else []
    | _ => []

theorem mem_seenIds {log : Log} {tag : Tag} {v : Db} {id : Int} (htag : readsBinding tag = true)
    (h : .saw tag v ∈ log) (hid : (v.get ⟨.specs, id⟩).isSome = true) :
    id ∈ seenIds log := by
  obtain ⟨s, hs⟩ := Option.isSome_iff_exists.1 hid
  refine List.mem_flatMap.2 ⟨_, h, ?_⟩
  simp only [htag, if_true]
  exact List.mem_map.2 ⟨(id, s), Store.mem_rows.2 hs, rfl⟩

/-- The sequence of the ids gives none twice: the move stores no spec under an id that a bind saw
taken and that is free again. -/
def idsGivenOnce (pg : Pg) (s : System) (m : Move Ask.Ans Job) : Bool :=
  (s.move shared (Job.body pg) m).all fun s' => s.tasks.all fun t =>
    (seenIds t.loc.log).all fun id =>
    (s.db.get ⟨.specs, id⟩).isSome || (s'.db.get ⟨.specs, id⟩).isNone

/-- The runs in which it does. -/
abbrev RunWithIds (pg : Pg) (db : Db) (s : System) : Prop :=
  ReachBy shared (Job.body pg) (fun s m => idsGivenOnce pg s m = true) (System.on db) s

/-! ## Runs -/

section

variable {pg : Pg} {db₀ : Db} {s : System}

theorem RunWithIds.run (h : RunWithIds pg db₀ s) : RunFrom pg db₀ s :=
  h.reach fun s _ _ => s.admits_true

def Job.isConnection : Job → Prop
  | .connection _ _ _ => True
  | _ => False

/-- Only the read loops are held to a conduct. -/
def Job.loopConduct : Job → Conduct Table.Key Table.Row Tag Ask.Ans Act.Out
  | .connection _ _ _ => Server2.conduct True False
  | _ => {}

theorem loop_allows (s : System) (m : Move Ask.Ans Job) : s.Allows Job.loopConduct m := by
  cases m with
  | run i c =>
      intro t a next _ _
      cases t.job with
      | connection u name requests => exact fun h => h.elim
      | _ => trivial
  | start j => trivial
  | drop i => trivial

theorem RunWithIds.behaved (h : RunWithIds pg db₀ s) {t : ServerTask} (ht : t ∈ s.tasks)
    (hj : t.job.isConnection) :
    Behaves (Server2.conduct True False) (fun _ _ => True) t.prog t.loc := by
  have hall : s.Behaved Job.loopConduct fun _ _ _ => True := by
    refine ReachBy.behaved (fun j => ?_) (fun s m _ => loop_allows s m) rfl h
    cases j with
    | connection u name requests => exact Job.behaves pg (.connection u name requests)
    | _ => exact Behaves.any _ _
  have ht' := hall t ht
  cases hjob : t.job with
  | connection u name requests =>
      rw [hjob] at ht'
      exact ht'
  | _ => rw [hjob] at hj; exact hj.elim

/-- What the read loops see of bindings and owners only moves on as `Since` allows. -/
theorem RunWithIds.sighted (hinv : Inv pg False db₀) (h : RunWithIds pg db₀ s) {t : ServerTask}
    (ht : t ∈ s.tasks) (hj : t.job.isConnection) :
    Sighted readsBinding Since t.loc.log s.db := by
  refine ReachBy.sighted (J := Job.isConnection) Since.refl rfl ?_ ?_ h t ht hj
  · intro s hs t ht hj tag run next fail hp htag
    have hb := RunWithIds.behaved hs ht hj
    rw [hp] at hb
    exact hb.1 htag
  · intro s s' m hs hok hm t ht hj tag v htag hmem hsince
    have hsane : Sane pg s := RunFrom.sane (RunWithIds.run hs) hinv
    rcases hsane.moved hm with he | ⟨hstays, hcommit⟩
    · rw [he]
      exact hsince
    · refine ⟨fun m b hb => ?_, hsince.owners.trans (.of_commit hsane.inv hcommit) ?_⟩
      · obtain ⟨b', hb'⟩ := hsince.verified m b hb
        exact hstays.verified m b' hb'
      · intro id hid hgone
        have hall : (s.tasks.all fun t => (seenIds t.loc.log).all fun id =>
            (s.db.get ⟨.specs, id⟩).isSome || (s'.db.get ⟨.specs, id⟩).isNone) = true := by
          simpa only [idsGivenOnce, hm, Option.all_some] using hok
        have hone := List.all_eq_true.1 (List.all_eq_true.1 hall t ht) id
          (mem_seenIds htag hmem hid)
        rw [hgone] at hone
        simpa using hone

/-! ## The inline bind -/

/-- The connection serves a report of this spec, and its pre-check saw `v`. -/
def Serving (m : String) (specId : Int) (v : Db) (log : Log) : Prop :=
  ∃ new c older, log = new ++ .saw precheck v :: .acted
    (.received c (.reportMinigameMap m specId)) () ::
      older ∧ ∀ c r o, .acted (.received c r) o ∉ new

/-- The last request of a log is one. -/
theorem Serving.unique {m m' : String} {specId specId' : Int} {v v' : Db} {log older : Log}
    {tag₁ tag₂ : Tag} {v₁ v₂ : Db} {c' : Nat} (h : Serving m specId v log)
    (hlog : log = .saw tag₁ v₁ :: .saw tag₂ v₂ :: .saw precheck v' ::
      .acted (.received c' (.reportMinigameMap m' specId')) () :: older) :
    m' = m ∧ specId' = specId ∧ v' = v := by
  obtain ⟨new, c, older', he, hnew⟩ := h
  rw [hlog] at he
  match new with
  | [] => cases he
  | [_] => cases he
  | [_, _] =>
      cases he
      exact ⟨rfl, rfl, rfl⟩
  | [_, _, _] => cases he
  | _ :: _ :: _ :: ev :: _ =>
      obtain rfl : Event.acted (.received c' (.reportMinigameMap m' specId')) () = ev := by
        cases he
        rfl
      exact absurd (by simp) (hnew c' (.reportMinigameMap m' specId') ())

/-- What the bind got back without the question for the author. -/
def Unasked : Except BindSpecError ListedMaps.PreparedBind → Prop
  | .ok prepared => prepared.verifiedAuthor = none
  | .error e =>
      e = .conflictingBinding ∨ e = .specNotFound ∨ e = .specNotOwned ∨ e = .database

theorem prepare_unasked (u : Uuid) (m : String) (specId : Int) (l : TaskState) :
    Behaves {} (fun r l' => Unasked r ∨ ∃ a, .answered (.authorIdForUid u m) a ∈ l'.log)
      (ListedMaps.prepareAuthoritativeBind u m specId).run l := by
  have hread : ∀ {β : Type} {fn : String} {f : Db → β} (l : TaskState),
      Behaves {} (fun r _ => ∀ e, r = .error e → e = BindSpecError.database)
        (ExceptT.adapt BindSpecError.ofDb (sql (select fn f))).run l := by
    intro β fn f l
    rw [adapt_sql]
    exact Behaves.query trivial (fun e he => by cases he; rfl) (fun _ e he => by cases he; rfl)
      fun _ _ _ _ e he => by cases he
  refine (hread l).seq (fun e l' h => .inl ?_) fun existing l₁ _ => ?_
  · exact .inr (.inr (.inr (h e rfl)))
  · dsimp only
    split
    · exact .inl (.inl rfl)
    · refine (hread l₁).seq (fun e l' h => .inl ?_) fun spec l₂ _ => ?_
      · exact .inr (.inr (.inr (h e rfl)))
      · cases spec with
        | none => exact .inl (.inr (.inl rfl))
        | some s =>
            dsimp only
            split
            · exact .inl rfl
            · split
              · exact .inl (.inr (.inr (.inl rfl)))
              · refine ⟨trivial, fun answer => ?_⟩
                cases answer with
                | error e => exact .inr ⟨_, List.mem_cons_self⟩
                | ok author =>
                    show Behaves _ _ (ExceptT.run
                      (if author ≠ s.userId then throw _ else pure _)) _
                    split <;> exact .inr ⟨_, List.mem_cons_self⟩

/-- A connection whose pre-check saw the spec it is told of does not come to ask for the author of
the map, whatever is bound, stored and deleted meanwhile; and without that question the first half
of a bind ends without an author or in one of four errors. -/
theorem inline_binds_unasked {pg : Pg} {db₀ : Db} {s : System} (hinv : Inv pg False db₀)
    (hrun : RunWithIds pg db₀ s) :
    (∀ t ∈ s.tasks, t.job.isConnection → ∀ m specId v, Serving m specId v t.loc.log →
      (v.get ⟨.specs, specId⟩).isSome = true →
        ∀ u m' next, t.prog ≠ .ask (.authorIdForUid u m') next) ∧
    ∀ u m specId l, Behaves {}
      (fun r l' => Unasked r ∨ ∃ a, .answered (.authorIdForUid u m) a ∈ l'.log)
      (ListedMaps.prepareAuthoritativeBind u m specId).run l := by
  refine ⟨fun t ht hj m specId v hserving hspec u m' next hp => ?_, prepare_unasked⟩
  have hb := RunWithIds.behaved hrun ht hj
  rw [hp] at hb
  obtain ⟨⟨-, hasks⟩, -⟩ := hb
  obtain ⟨specId', v₀, v₁, v₂, older, s', hlog, ⟨⟨c, rest, hold⟩, hwaived⟩, hver,
      hs', howner⟩ :=
    hasks trivial u m' rfl
  rw [hold] at hlog
  obtain ⟨rfl, rfl, rfl⟩ := hserving.unique hlog
  have hseen := (RunWithIds.sighted hinv hrun ht hj).2
  have h₁ : Since v₀ v₁ := by
    refine hseen [_] _ v₁ _ hlog rfl precheck v₀ rfl ?_
    exact List.mem_cons_self
  have h₂ : Since v₀ v₂ := by
    refine hseen [] _ v₂ _ hlog rfl precheck v₀ rfl ?_
    exact List.mem_cons_of_mem _ List.mem_cons_self
  rcases hwaived with hbound | hother
  · obtain ⟨⟨b, s₀⟩, hjoin, hok⟩ := (Option.any_eq_true _ _).1 hbound
    obtain ⟨hb, hs₀⟩ := joinBinding_eq_some.1 hjoin
    simp only [Bool.and_eq_true] at hok
    obtain ⟨b', hb', s₁, hs₁, hver'⟩ := h₁.verified m' b ⟨hb, s₀, hs₀, hok.2⟩
    rw [joinBinding_eq_some.2 ⟨hb', hs₁⟩, Option.any_some] at hver
    exact absurd (hver'.symm.trans hver) (by decide)
  · obtain ⟨s₀, hs₀⟩ := Option.isSome_iff_exists.1 hspec
    have hsame := h₂.owners specId' s₀ s' hs₀ hs'
    rw [hs₀, Option.any_some, decide_eq_false_iff_not] at hother
    exact hother (hsame.symm.trans howner)

end

/-- The pre-check of a report of the sample's spec has just seen it. -/
def Sample.serves (t : ServerTask) : Bool :=
  match t.job, t.loc.log with
  | .connection _ _ _, .saw (.named fn) v :: .acted (.received _ (.reportMinigameMap m specId))
    () :: _ =>
      fn = "bind_requires_author_verification" && m = Sample.mapUid && specId = 7 &&
        (v.get ⟨.specs, 7⟩).isSome
  | _, _ => false

theorem Sample.serves_sound {t : ServerTask} (h : Sample.serves t = true) :
    t.job.isConnection ∧ ∃ v, Serving Sample.mapUid 7 v t.loc.log ∧
      (v.get ⟨.specs, 7⟩).isSome = true := by
  unfold Sample.serves at h
  split at h
  case h_1 hjob hlog =>
    simp only [Bool.and_eq_true, decide_eq_true_eq] at h
    obtain ⟨⟨⟨rfl, rfl⟩, rfl⟩, hspec⟩ := h
    refine ⟨by rw [hjob]; trivial, _, ⟨[], _, _, hlog, by simp⟩, hspec⟩
  case h_2 => cases h

/-- The author reports the bound map again. -/
theorem inline_binds_unasked_again :
    ∃ s, RunWithIds Sample.pg Store.empty s ∧ ∃ t ∈ s.tasks, Sample.serves t = true ∧
    ∀ u m' next, t.prog ≠ .ask (.authorIdForUid u m') next := by
  obtain ⟨s, hrun, hserves⟩ : ∃ s, RunWithIds Sample.pg Store.empty s ∧
      (s.tasks.any Sample.serves) = true :=
    ReachBy.scriptedBy (Sample.mapBound ++
      [.start (.connection 1 "Author" [.reportMinigameMap Sample.mapUid 7]),
       .go 4 3 (Sample.answers 7 none)]) (by decide +kernel)
  obtain ⟨t, ht, hserves⟩ := List.any_eq_true.1 hserves
  obtain ⟨hj, v, hserving, hspec⟩ := Sample.serves_sound hserves
  exact ⟨s, hrun, t, ht, hserves,
    (inline_binds_unasked (inv_empty Sample.pg False) hrun).1 t ht hj _ 7 v hserving hspec⟩

end Server2

end Dd2Server
