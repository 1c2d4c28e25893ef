import Dd2Server.Server2.Jobs

/-!
# No ghost hats

What the players on a map are told of the user of one connection.  Whatever fails on the way, once a
request is over nobody on another map still sees a hat of that user.
-/

namespace Dd2Server

namespace Server2

open ReadCommitted

/-- The tracked map is a uid, and on other maps nobody was last told of a hat. -/
structure AtRest (u : Uuid) (log : Log) : Prop where
  long : ∀ m, trackedMap log = some m → Text.byteLen m = 27
  ghosts : ∀ m slug, trackedMap log ≠ some m → lastTold u m log = some slug → slug = ""

/-- The event moves the connection, or is a message for the players on a map. -/
def Moves : LogEvent → Prop
  | .acted (.setTracked _ _) _ => True
  | .acted (.broadcastToMap _ _) _ => True
  | _ => False

/-- What the log of a connection shows of its user. -/
structure NoGhosts (pg : Pg) (u : Uuid) (t : ServerTask) : Prop where
  /-- When a request comes, all the others are over. -/
  rests : ∀ newer c r older, t.loc.log = newer ++ .acted (.received c r) () :: older →
    AtRest u older
  ended : t.prog = .ret () → AtRest u t.loc.log
  /-- An equip is told on the tracked map only. -/
  equips : ∀ newer m hats older uid slug tracked,
    t.loc.log = newer ++ .acted (.broadcastToMap m hats) () :: older →
    asked older = some (.reportHatEquip uid slug, tracked) → trackedMap older = some m
  /-- While a context report is handled that names the tracked map, nothing happens to it. -/
  contexts : ∀ newer ev handling c uid older m,
    t.loc.log = newer ++ ev :: (handling ++ .acted (.received c (.reportContext uid))
      () :: older) →
    (∀ c r, .acted (.received c r) () ∉ handling) → trackedMap older = some m →
    contextUidRefersToMap pg uid m = true → ¬Moves ev

/-- A connection leaves no ghost hats, the tasks it leaves behind tell of taken off hats only, and
the others tell nothing. -/
def LeavesNoGhosts (pg : Pg) (t : ServerTask) : Prop :=
  match t.job with
  | .connection u _ _ => NoGhosts pg u t
  | .spawned _ =>
      ∀ m hats, .acted (.broadcastToMap m hats) () ∈ t.loc.log → ∀ x ∈ hats, x.slug = ""
  | _ => ∀ m hats, .acted (.broadcastToMap m hats) () ∉ t.loc.log

section

variable {pg : Pg} {db₀ : Db} {s : System} {u : Uuid}

theorem Stands.atRest {c : Nat} {tracked : Option String}
    {request : Option (Request × Option String)} {held : List String} {log : Log}
    (h : Stands u c tracked request held log) : AtRest u log where
  long m hm := h.long m (h.map.symm.trans hm)
  ghosts m slug hm ht := h.ghosts m slug (fun he => hm (h.map.trans he)) ht

/-- The request stays the same until another one comes. -/
theorem asked_append {new : Log} (h : ∀ c r, .acted (.received c r) () ∉ new) (log : Log) :
    asked (new ++ log) = asked log := by
  induction new with
  | nil => rfl
  | cons ev new ih =>
      have hnew : asked (new ++ log) = asked log :=
        ih fun c r hm => h c r (List.mem_cons_of_mem _ hm)
      cases ev with
      | acted a o =>
          cases a with
          | received c r => exact absurd List.mem_cons_self (h c r)
          | _ => exact hnew
      | _ => exact hnew

theorem Kept.noGhosts {t : ServerTask} (h : Kept (connected pg u) t.loc.log)
    (hend : t.prog = .ret () → ∃ c tracked request, Stands u c tracked request [] t.loc.log) :
    NoGhosts pg u t where
  rests newer c r older hlog := by
    obtain ⟨tracked, request, hs⟩ := h.act newer (.received c r) () older hlog
    exact hs.atRest
  ended hr := by
    obtain ⟨c, tracked, request, hs⟩ := hend hr
    exact hs.atRest
  equips newer m hats older uid slug tracked hlog hasked := by
    obtain ⟨-, -, -, hequip⟩ := h.act newer (.broadcastToMap m hats) () older hlog
    exact (hequip ⟨uid, slug, tracked, hasked⟩).1
  contexts newer ev handling c uid older m hlog hnone htracked hnamed hmoves := by
    have hasked : asked (handling ++ .acted (.received c (.reportContext uid)) () :: older) =
        some (.reportContext uid, some m) := by
      rw [asked_append hnone, asked, htracked]
    have hunnamed : ¬Unnamed pg
        (asked (handling ++ .acted (.received c (.reportContext uid)) () :: older)) := by
      intro hun
      rw [hasked] at hun
      have hno := hun uid m rfl
      rw [hnamed] at hno
      cases hno
    cases ev with
    | acted a o =>
        cases a with
        | setTracked c' next =>
            obtain ⟨-, -, hun, -⟩ := h.act newer _ o _ hlog
            exact hunnamed hun
        | broadcastToMap m' hats =>
            obtain ⟨-, hun, -⟩ := h.act newer _ o _ hlog
            exact hunnamed hun
        | _ => exact hmoves
    | _ => exact hmoves

/-- A context report names the map by its uid, or by the first digits of the MD5 of it in any
case. -/
theorem contextUidRefersToMap_iff {contextUid : Option String} {m : String} :
    contextUidRefersToMap pg contextUid m = true ↔ ∃ uid, contextUid = some uid ∧ (uid = m ∨
      uid.toList.map Char.toLower = ((pg.md5 m).toList.take 30).map Char.toLower) := by
  rw [contextUidRefersToMap, Option.any_eq_true]
  simp only [Bool.or_eq_true, decide_eq_true_eq, eqIgnoreAsciiCase, obfuscatedMapUid,
    String.toList_ofList]

/-- In every interleaving, whatever fails, no task leaves ghost hats. -/
theorem no_ghost_hats (hinv : Inv pg False db₀) (h : RunFrom pg db₀ s) :
    ∀ t ∈ s.tasks, LeavesNoGhosts pg t := by
  intro t ht
  rw [LeavesNoGhosts]
  have hsane := h.sane hinv
  have hkept := hsane.kept t ht
  have hended : ∀ r, t.prog = .ret r → Job.Ended pg t.job t.loc.log :=
    fun r hr => hsane.ended ht hr
  have htold : ∀ m hats, .acted (.broadcastToMap m hats) () ∈ t.loc.log →
      ∃ older, (Job.promise pg t.job).act older (.broadcastToMap m hats) := by
    intro m hats hm
    obtain ⟨newer, older, hlog⟩ := List.append_of_mem hm
    exact ⟨older, hkept.act newer _ () older hlog⟩
  revert hkept hended htold
  cases t.job with
  | connection u name requests =>
      intro hkept hended _
      exact Kept.noGhosts hkept (hended ())
  | spawned task =>
      intro _ _ htold m hats hm
      obtain ⟨older, hact⟩ := htold m hats hm
      cases task with
      | unlockValidation c u m' slug specId => exact hact.elim
      | deferredBind u m' specId => exact hact.2.2
      | commentBind m' => exact hact.2.2
  | deliver =>
      intro _ _ htold m hats hm
      obtain ⟨older, hact⟩ := htold m hats hm
      exact hact
  | relay c =>
      intro _ _ htold m hats hm
      obtain ⟨older, -, hact⟩ := htold m hats hm
      cases hact
  | _ =>
      intro _ _ htold m hats hm
      obtain ⟨older, hact⟩ := htold m hats hm
      exact hact

end

namespace Sample

/-- Digits of the MD5 that stands for the map, in capitals. -/
def capitals : String := "37A6259CC0C1DAE299A7866489DFF0"

/-- A context report with the digits came. -/
def contextCame : LogEvent → Bool
  | .acted (.received _ (.reportContext uid)) _ => uid = some capitals
  | _ => false

/-- The context report came, the next request found the connection where it was, and on the map it
left nobody was last told of a hat. -/
def wentOn (t : ServerTask) : Bool :=
  t.loc.log.any contextCame &&
    asked t.loc.log = some (.getHatsMine "Map2_______________________", some Sample.mapUid) &&
    lastTold 1 Sample.mapUid t.loc.log = some ""

end Sample

/-- A player stays on the map that a context report names, and goes to another one. -/
theorem no_ghost_hats_moved : ∃ s, RunFrom Sample.pg Store.empty s ∧
    contextUidRefersToMap Sample.pg (some Sample.capitals) Sample.mapUid = true ∧
    s.tasks.any Sample.wentOn = true ∧ ∀ t ∈ s.tasks, LeavesNoGhosts Sample.pg t := by
  obtain ⟨s, hs, htold⟩ : ∃ s, RunFrom Sample.pg Store.empty s ∧
      s.tasks.any Sample.wentOn = true :=
    Reach.scripted [.start (.connection 1 "Author" [.getHatsMine Sample.mapUid,
      .reportContext (some Sample.capitals), .getHatsMine "Map2_______________________"]),
      .go 0 60 (Sample.answers 7 none)] (by decide +kernel)
  refine ⟨s, hs, ?_, htold, no_ghost_hats (inv_empty Sample.pg False) hs⟩
  exact contextUidRefersToMap_iff.2 ⟨_, rfl, .inr (by decide)⟩

end Server2

end Dd2Server
