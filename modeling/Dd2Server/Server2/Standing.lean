import Dd2Server.Server2.Connection
import Dd2Server.Handlers

/-!
# Where a task stands

What the log of a task says about it: the connection it opened, the request it handles, the map it
is on, what it told the players on each map about its user.  Only operations on the shared memory
count, so a query in between changes nothing.
-/

namespace Dd2Server

namespace Server2

open ReadCommitted

/-! ## Reading a log -/

def isAct : LogEvent → Bool
  | .acted _ _ => true
  | _ => false

/-- The operations on the shared memory. -/
def acts (log : Log) : Log := log.filter isAct

@[simp] theorem acts_acted (a : Act) (o : a.Out) (log : Log) :
    acts (.acted a o :: log) = .acted a o :: acts log := rfl

theorem acts_cons {ev : LogEvent} (h : ∀ a o, ev ≠ .acted a o) (log : Log) :
    acts (ev :: log) = acts log := by
  cases ev with
  | acted a o => exact absurd rfl (h a o)
  | _ => rfl

theorem acts_append (new log : Log) : acts (new ++ log) = acts new ++ acts log :=
  List.filter_append new log

theorem acts_acts (log : Log) : acts (acts log) = acts log := by
  simp [acts]

/-- The function only looks at operations on the shared memory. -/
def OfActs {β : Type} (f : Log → β) : Prop := ∀ log, f (acts log) = f log

theorem OfActs.append {β : Type} {f : Log → β} (h : OfActs f) (new log : Log) :
    f (new ++ log) = f (acts new ++ log) := by
  rw [← h (new ++ log), ← h (acts new ++ log), acts_append, acts_append, acts_acts]

/-- Nothing was done in between. -/
theorem OfActs.quiet {β : Type} {f : Log → β} (h : OfActs f) {n : Log} (hn : acts n = [])
    (log : Log) : f (n ++ log) = f log := by
  rw [h.append, hn]
  rfl

/-- The connection the task opened. -/
def opened : Log → Option Nat
  | [] => none
  | .acted .openConnection c :: _ => some c
  | _ :: log => opened log

/-- The map the connection is on. -/
def trackedMap : Log → Option String
  | [] => none
  | .acted (.setTracked _ next) _ :: _ => next
  | _ :: log => trackedMap log

/-- The request the read loop has, and the map the connection was on when it came. -/
def asked : Log → Option (Request × Option String)
  | [] => none
  | .acted (.received _ request) _ :: log => some (request, trackedMap log)
  | _ :: log => asked log

/-- The last slug the players on a map were told about a user. -/
def lastTold (u : Uuid) (m : String) : Log → Option String
  | [] => none
  | .acted (.broadcastToMap m' hats) _ :: log =>
      match (hats.filter fun x => m' = m && x.wsid = u.text).getLast? with
      | some x => some x.slug
      | none => lastTold u m log
  | _ :: log => lastTold u m log

/-- The map the read loop last saw without pending validations, unless it began one since. -/
def clearMap : Log → Option String
  | [] => none
  | .acted (.anyForMap _ m) pending :: _ => if pending = true then none else some m
  | .acted (.beginUnlock _ _ _) _ :: _ => none
  | _ :: log => clearMap log

/-- The commit since the last operation on the shared memory. -/
def change : Log → Option (Db × Db)
  | [] => none
  | .committed pre post :: _ => some (pre, post)
  | .acted _ _ :: _ => none
  | _ :: log => change log

/-- The committed rows the task saw or left last, since its last operation on the shared memory. -/
def anchor : Log → Option Db
  | [] => none
  | .committed _ post :: _ => some post
  | .read _ db :: _ => some db
  | .acted _ _ :: _ => none
  | _ :: log => anchor log

theorem opened_ofActs : OfActs opened := by
  intro log
  induction log with
  | nil => rfl
  | cons ev log ih =>
      cases ev with
      | acted a o => cases a <;> simp [opened, ih]
      | _ => exact ih

theorem trackedMap_ofActs : OfActs trackedMap := by
  intro log
  induction log with
  | nil => rfl
  | cons ev log ih =>
      cases ev with
      | acted a o => cases a <;> simp [trackedMap, ih]
      | _ => exact ih

theorem asked_ofActs : OfActs asked := by
  intro log
  induction log with
  | nil => rfl
  | cons ev log ih =>
      cases ev with
      | acted a o => cases a <;> simp [asked, ih, trackedMap_ofActs log]
      | _ => exact ih

theorem lastTold_ofActs (u : Uuid) (m : String) : OfActs (lastTold u m) := by
  intro log
  induction log with
  | nil => rfl
  | cons ev log ih =>
      cases ev with
      | acted a o => cases a <;> simp [lastTold, ih]
      | _ => exact ih

theorem clearMap_ofActs : OfActs clearMap := by
  intro log
  induction log with
  | nil => rfl
  | cons ev log ih =>
      cases ev with
      | acted a o => cases a <;> simp [clearMap, ih]
      | _ => exact ih

theorem heldMaps_ofActs : OfActs heldMaps := by
  intro log
  induction log with
  | nil => rfl
  | cons ev log ih =>
      cases ev with
      | acted a o => cases a <;> simp [heldMaps, ih]
      | _ => exact ih

theorem heldUnlocks_ofActs : OfActs heldUnlocks := by
  intro log
  induction log with
  | nil => rfl
  | cons ev log ih =>
      cases ev with
      | acted a o =>
          cases a with
          | spawn task => cases task <;> simp [heldUnlocks, ih]
          | begun task => cases task <;> simp [heldUnlocks, ih]
          | _ => simp [heldUnlocks, ih]
      | _ => exact ih

theorem anchor_append {new : Log} {db : Db} (h : anchor new = some db) (log : Log) :
    anchor (new ++ log) = some db := by
  induction new with
  | nil => cases h
  | cons ev new ih =>
      cases ev with
      | committed pre post => exact h
      | read tag db => exact h
      | acted a o => cases h
      | _ => exact ih h

theorem change_append {new : Log} (h : acts new ≠ []) (log : Log) :
    change (new ++ log) = change new := by
  induction new with
  | nil => exact absurd rfl h
  | cons ev new ih =>
      cases ev with
      | committed pre post => rfl
      | acted a o => rfl
      | _ => exact ih h

/-! ## Between two operations -/

/-- Where a connection of the user `u` stands with its request and the maps it holds; `ghosts` says
what it told of `u` on other maps. -/
structure Stands (u : Uuid) (c : Nat) (tracked : Option String)
    (request : Option (Request × Option String)) (held : List String) (log : Log) : Prop where
  conn : opened log = some c
  map : trackedMap log = tracked
  asked : asked log = request
  locks : heldMaps log = held
  unlocks : heldUnlocks log = []
  long : ∀ m, tracked = some m → Text.byteLen m = 27
  ghosts : ∀ m slug, tracked ≠ some m → lastTold u m log = some slug → slug = ""

namespace Stands

variable {u : Uuid} {c : Nat} {tracked : Option String}
  {request : Option (Request × Option String)} {held : List String} {log new : Log} {m : String}

/-- Only the operations count. -/
theorem append (h : Stands u c tracked request held (acts new ++ log)) :
    Stands u c tracked request held (new ++ log) where
  conn := (opened_ofActs.append new log).trans h.conn
  map := (trackedMap_ofActs.append new log).trans h.map
  asked := (asked_ofActs.append new log).trans h.asked
  locks := (heldMaps_ofActs.append new log).trans h.locks
  unlocks := (heldUnlocks_ofActs.append new log).trans h.unlocks
  long := h.long
  ghosts m slug hm ht := h.ghosts m slug hm (((lastTold_ofActs u m).append new log).symm.trans ht)

theorem quiet {n : Log} (h : Stands u c tracked request held log) (hn : acts n = []) :
    Stands u c tracked request held (n ++ log) := by
  apply append
  rw [hn]
  exact h

theorem locked (h : Stands u c tracked request held log) :
    Stands u c tracked request (m :: held) (.acted (.lockMap m) () :: log) :=
  { h with locks := congrArg (m :: ·) h.locks }

theorem unlocked (h : Stands u c tracked request (m :: held) log) :
    Stands u c tracked request held (.acted (.unlockMap m) () :: log) :=
  { h with locks := by rw [heldMaps, h.locks, List.erase_cons_head] }

theorem received (h : Stands u c tracked request held log) (r : Request) :
    Stands u c tracked (some (r, tracked)) held (.acted (.received c r) () :: log) :=
  { h with asked := by rw [Server2.asked, h.map] }

/-- What the players on a map are told is about the map the connection is on, or that a hat is
off. -/
theorem told (h : Stands u c tracked request held log) {hats : List HatOnMapPlayer}
    (hm : tracked = some m ∨ ∀ x ∈ hats, x.slug = "") :
    Stands u c tracked request held (.acted (.broadcastToMap m hats) () :: log) where
  conn := h.conn
  map := h.map
  asked := h.asked
  locks := h.locks
  unlocks := h.unlocks
  long := h.long
  ghosts m' slug hm' ht := by
    rw [lastTold] at ht
    split at ht
    case h_1 x hx =>
      cases ht
      obtain ⟨hmem, hp⟩ := List.mem_filter.1 (List.mem_of_getLast? hx)
      rcases hm with hm | hoff
      · simp only [Bool.and_eq_true, decide_eq_true_eq] at hp
        exact absurd (hp.1 ▸ hm) hm'
      · exact hoff x hmem
    case h_2 => exact h.ghosts m' slug hm' ht

/-- Operations that say nothing of where the connection stands. -/
theorem acted (h : Stands u c tracked request held log) {a : Act} {o : a.Out}
    (ho : Server2.opened (.acted a o :: log) = Server2.opened log)
    (ht : trackedMap (.acted a o :: log) = trackedMap log)
    (hr : Server2.asked (.acted a o :: log) = Server2.asked log)
    (hh : heldMaps (.acted a o :: log) = heldMaps log)
    (hu : heldUnlocks (.acted a o :: log) = heldUnlocks log)
    (hl : ∀ m, lastTold u m (.acted a o :: log) = lastTold u m log) :
    Stands u c tracked request held (.acted a o :: log) where
  conn := ho.trans h.conn
  map := ht.trans h.map
  asked := hr.trans h.asked
  locks := hh.trans h.locks
  unlocks := hu.trans h.unlocks
  long := h.long
  ghosts m slug hm hs := h.ghosts m slug hm ((hl m).symm.trans hs)

/-- The connection goes from no map to another one. -/
theorem entered (h : Stands u c none request held log) {next : Option String}
    (hn : ∀ m, next = some m → Text.byteLen m = 27) :
    Stands u c next request held (.acted (.setTracked c next) () :: log) :=
  { h with map := rfl, long := hn, ghosts := fun m slug _ ht => h.ghosts m slug (by simp) ht }

/-- The connection goes from one map to another, and tells the players there. -/
theorem moved (h : Stands u c (some m) request [] log) {next : Option String} {name : String}
    (hn : ∀ m, next = some m → Text.byteLen m = 27) :
    Stands u c next request [m] (.acted (.broadcastToMap m [⟨u.text, name, ""⟩]) () ::
      .acted (.lockMap m) () :: .acted (.setTracked c next) () :: log) where
  conn := h.conn
  map := rfl
  asked := h.asked
  locks := congrArg (m :: ·) h.locks
  unlocks := h.unlocks
  long := hn
  ghosts m' slug hm' ht := by
    by_cases hmm : m = m'
    · subst hmm
      simpa [lastTold] using ht.symm
    · have hlast : lastTold u m' log = some slug := by simpa [lastTold, hmm] using ht
      exact h.ghosts m' slug (fun he => hmm (Option.some.inj he)) hlast

end Stands

end Server2

end Dd2Server
