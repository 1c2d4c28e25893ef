import Dd2Server.Handlers

/-!
# Runs of a server

A server process starts on an empty database and starts a task for each job.  `Run.invariant` is
the rule for reachable states: what every `Commit` keeps holds in every run.
-/

namespace Dd2Server

open ReadCommitted

/-- A server process with its database. -/
abbrev System := Sys Table.Key Table.Row Tag Ask.Ans Act.Out Mem Job Reply

/-- A task of it. -/
abbrev ServerTask := Task Table.Key Table.Row Tag Ask.Ans Act.Out Job Reply

/-- A database, and no task. -/
def System.on (db : Db) : System where
  db := db
  mem := {}

/-- The states of all interleavings on a database. -/
def RunFrom (pg : Pg) (db : Db) (s : System) : Prop :=
  Reach shared (Job.body pg) (fun _ _ => True) (System.on db) s

/-- The states of all interleavings on an empty database. -/
abbrev Run (pg : Pg) (s : System) : Prop := RunFrom pg Store.empty s

/-- Nothing is asked of the run. -/
def Scope.any : Scope where
  strict := False
  frozen := False

section

variable {pg : Pg} {s : System} {db₀ : Db}

theorem inv_empty (pg : Pg) (strict : Prop) : Inv pg strict Store.empty where
  index _ _ _ h := by simp at h
  indexed _ _ h := by simp at h
  bindSpec _ _ h := by simp at h
  games _ _ _ _ _ h := by simp at h
  collectibles _ _ h := by simp at h
  hats _ _ h := by simp at h
  equippedUser _ _ h := by simp at h
  coherent _ _ _ h := by simp at h

theorem admitted_any : Admitted pg Scope.any.strict (fun _ _ => True) :=
  ⟨fun h => h.elim, fun h => h.elim⟩

theorem RunFrom.sound (h : RunFrom pg db₀ s) (hinv : Inv pg False db₀) :
    Sound (protocol pg .any) (fun _ _ => True) (fun j => { commit := Job.Promised pg .any j })
      (fun j r l db => Job.Ended pg .any j r l.log db) s := by
  have hinv' : (protocol pg .any).Inv (System.on db₀).db := hinv
  exact Reach.sound (fun j _ hinv => j.safe admitted_any (.inl id) hinv) hinv' rfl h

/-- A commit of a task fulfilled what its job promises. -/
theorem RunFrom.promised (h : RunFrom pg db₀ s) (hinv : Inv pg False db₀) {t : ServerTask}
    (ht : t ∈ s.tasks) {newer older : Log} {pre post : Db}
    (hlog : t.loc.log = newer ++ .committed pre post :: older) :
    Job.Promised pg .any t.job older pre post :=
  ((h.sound hinv).kept t ht).commit newer pre post older hlog

theorem RunFrom.ended (h : RunFrom pg db₀ s) (hinv : Inv pg False db₀) {t : ServerTask}
    (ht : t ∈ s.tasks) {r : Reply} (hr : t.prog = .ret r) :
    Job.Ended pg .any t.job r t.loc.log s.db := (h.sound hinv).ended ht hr

/-- What every commit keeps holds of the committed rows of every run. -/
theorem RunFrom.invariant {J : Db → Prop} (h : RunFrom pg db₀ s) (hinv : Inv pg False db₀)
    (h₀ : J db₀) (hstep : ∀ pre post, Inv pg False pre → Commit pg False pre post →
      J pre → J post) : J s.db := by
  have hinv' : (protocol pg .any).Inv (System.on db₀).db := hinv
  exact Reach.holds (G := fun j => { commit := Job.Promised pg .any j })
    (fun j _ hinv => j.safe admitted_any (.inl id) hinv) hinv' rfl h₀
    (fun _ _ pre post hinv hG => hstep pre post hinv (Job.Promised.commit (w := .any) hG)) h

end

/-! ## Scripted runs -/

abbrev Cue := ReadCommitted.Cue Ask.Ans Job

/-- The system after a script. -/
def script (pg : Pg) (s : System) (cues : List Cue) : Option System :=
  s.script shared (Job.body pg) cues

theorem RunFrom.played {pg : Pg} {db₀ : Db} {s s' : System} {cues : List Cue}
    (h : RunFrom pg db₀ s) (hs : script pg s cues = some s') : RunFrom pg db₀ s' :=
  Reach.script h hs

/-- A state a script leads to, with what can be read off it. -/
theorem RunFrom.scripted {pg : Pg} {db₀ : Db} (cues : List Cue) {P : System → Prop}
    [DecidablePred P] (h : ((script pg (System.on db₀) cues).any fun s => decide (P s)) = true) :
    ∃ s, RunFrom pg db₀ s ∧ P s := Reach.scripted cues h

/-- The newest commit of a log. -/
def lastCommit : Log → Option (Log × Db × Db × Log)
  | [] => none
  | .committed pre post :: older => some ([], pre, post, older)
  | ev :: log => (lastCommit log).map fun x => (ev :: x.1, x.2)

theorem lastCommit_eq {log newer older : Log} {pre post : Db}
    (h : lastCommit log = some (newer, pre, post, older)) :
    log = newer ++ .committed pre post :: older := by
  induction log generalizing newer with
  | nil => cases h
  | cons ev log ih =>
      cases ev with
      | committed pre' post' =>
          cases h
          rfl
      | _ =>
          obtain ⟨⟨newer', x⟩, hx, he⟩ := Option.map_eq_some_iff.1 h
          cases he
          rw [ih hx]
          rfl

/-! ## One map with one hat -/

namespace Sample

def mapUid : String := "Map________________________"

def spec : Value :=
  .object [("hats", .array [.object [("slug", .string "Hat-1"),
    ("unlock", .object [("finishThisMap", .bool true)])]])]

/-- The canonical text of `spec`. -/
def text : String :=
  "\x7b\"hats\": [\x7b\"slug\": \"Hat-1\", \"unlock\": \x7b\"finishThisMap\": true\x7d\x7d]\x7d"

/-- PostgreSQL on the texts of this run. -/
def pg : Pg where
  jsonb
    | .object _ => text
    | _ => "null"
  value t := if t = text then spec else .null
  md5 t :=
    if t = text then "de7de470fe3de08b01b04d8f3f9e1dd3"
    else if t = mapUid ++ ":h:Hat-1" then "37d84fdf12f4582ed47bab0ebfab6f58"
    else "37a6259cc0c1dae299a7866489dff0bd"

/-- The world says yes; the author of the map is the user 1. -/
def answers (specId : Int) (comment : Option String) : (q : Ask) → q.Ans
  | .now => (1700000000000000 : Int)
  | .nextSpecId => specId
  | .nextAttemptId => (1 : Int)
  | .authorIdForUid _ _ => .ok 1
  | .fetchPublishedComment _ => .ok (.comment comment)
  | .hasOfficialRecord _ _ => .ok true
  | .hasRecentOfficialRecord _ _ => .ok true
  | .allowUnlockValidation _ _ _ => true
  | .beforePayload => .ok ()
  | .updateContext _ => .ok ()
  | .equipRate _ => .allowed
  | .admitCommentBind _ => false
  | .panics _ _ => none

/-- An author uploads a spec. -/
def uploaded : List Cue :=
  [.start (.login 1 "Author"), .go 0 20 (answers 7 none),
   .start (.upload 1 "climb" spec), .go 1 40 (answers 7 none)]

/-- The author binds a map to it. -/
def bound : List Cue :=
  uploaded ++ [.start (.authoritativeBind 1 mapUid 7), .go 2 60 (answers 7 none)]

/-- The author puts the hat of the map on. -/
def worn : List Cue :=
  bound ++ [.start (.hatUnlock 1 mapUid "Hat-1" 7), .go 3 40 (answers 7 none),
    .start (.hatEquip 1 mapUid "Hat-1"), .go 4 40 (answers 7 none)]

/-- A comment that names a spec of the author. -/
def comment (nameId : String) : String :=
  "--BEGIN-DPP--\nurl=https://x/aux_spec/00000000-0000-0000-0000-000000000001/" ++ nameId ++
    ".json\n--END-DPP--"

theorem md5_inj (v v' : Value) (h : pg.md5 (pg.jsonb v) = pg.md5 (pg.jsonb v')) :
    pg.jsonb v = pg.jsonb v' := by
  have htwo : ∀ v, pg.jsonb v = text ∨ pg.jsonb v = "null" := by
    intro v
    cases v with
    | object fields => exact .inl rfl
    | _ => exact .inr rfl
  rcases htwo v with hv | hv <;> rcases htwo v' with hv' | hv' <;> rw [hv, hv'] at h ⊢
  · exact absurd h (by decide)
  · exact absurd h (by decide)

end Sample

end Dd2Server
