import Mathlib.Data.List.Induction
import Mathlib.Logic.Function.Basic

/-!
# Feeds of snapshots and updates

A feed tells its reader the rows of a table: a snapshot takes the place of the whole picture, and an
update sets or removes single keys.  The picture shows of a key what the last message said that
spoke of it (`replay_eq`).  So a message may come anywhere into a feed where it says of the key what
is said last, or nothing (`lastWord_insert`): what counts is the order in which messages say
something new.
-/

namespace Replay

variable {κ ν : Type} [DecidableEq κ]

inductive Message (κ ν : Type)
  /-- All rows. -/
  | snapshot (rows : List (κ × ν))
  /-- Some keys with their new values; `none` removes a key. -/
  | updates (rows : List (κ × Option ν))

/-- The picture after some keys were set, one after another. -/
def setRows (picture : κ → Option ν) (rows : List (κ × Option ν)) : κ → Option ν :=
  rows.foldl (fun p row => Function.update p row.1 row.2) picture

def Message.apply (picture : κ → Option ν) : Message κ ν → κ → Option ν
  | .snapshot rows => setRows (fun _ => none) (rows.map fun row => (row.1, some row.2))
  | .updates rows => setRows picture rows

/-- What the reader of a feed sees. -/
def replay (feed : List (Message κ ν)) : κ → Option ν :=
  feed.foldl Message.apply fun _ => none

/-- The value of the last row of a key. -/
def lastRow (k : κ) (rows : List (κ × Option ν)) : Option (Option ν) :=
  (rows.filter fun row => row.1 = k).getLast?.map Prod.snd

/-- What a message says of a key, if anything: a snapshot speaks of every key. -/
def Message.word (k : κ) : Message κ ν → Option (Option ν)
  | .snapshot rows => some ((lastRow k (rows.map fun row => (row.1, some row.2))).getD none)
  | .updates rows => lastRow k rows

/-- What was said of a key last. -/
def lastWord (k : κ) (feed : List (Message κ ν)) : Option (Option ν) :=
  (feed.filterMap (Message.word k)).getLast?

variable {k : κ} {feed older newer : List (Message κ ν)} {msg : Message κ ν} {word : Option ν}

theorem lastRow_concat (rows : List (κ × Option ν)) (row : κ × Option ν) :
    lastRow k (rows ++ [row]) = if row.1 = k then some row.2 else lastRow k rows := by
  rw [lastRow, List.filter_append]
  by_cases h : row.1 = k
  · simp [h]
  · simp [h, lastRow]

/-- Where every row of the key has the same value, so has the last. -/
theorem lastRow_eq_some {rows : List (κ × Option ν)} (hmem : ∃ row ∈ rows, row.1 = k)
    (hall : ∀ row ∈ rows, row.1 = k → row.2 = word) : lastRow k rows = some word := by
  have hne : (rows.filter fun row => row.1 = k) ≠ [] := by
    obtain ⟨row, hrow, hk⟩ := hmem
    exact List.ne_nil_of_mem (List.mem_filter.2 ⟨hrow, by simpa using hk⟩)
  obtain ⟨hin, hk⟩ := List.mem_filter.1 (List.getLast_mem hne)
  rw [lastRow, List.getLast?_eq_some_getLast hne, Option.map_some, hall _ hin (by simpa using hk)]

theorem lastRow_eq_none {rows : List (κ × Option ν)} (hnone : ∀ row ∈ rows, row.1 ≠ k) :
    lastRow k rows = none := by
  have hnil : (rows.filter fun row => row.1 = k) = [] :=
    List.filter_eq_nil_iff.2 fun row hrow => by simpa using hnone row hrow
  rw [lastRow, hnil]
  rfl

/-- By induction on the rows, the last first. -/
theorem setRows_eq (picture : κ → Option ν) (rows : List (κ × Option ν)) (k : κ) :
    setRows picture rows k = (lastRow k rows).getD (picture k) := by
  induction rows using List.reverseRecOn with
  | nil => rfl
  | append_singleton rows row ih =>
      rw [lastRow_concat, setRows, List.foldl_append]
      show Function.update (setRows picture rows) row.1 row.2 k = _
      by_cases h : row.1 = k
      · rw [if_pos h, ← h, Function.update_self]
        rfl
      · rw [if_neg h, Function.update_of_ne (Ne.symm h), ih]

theorem apply_eq (picture : κ → Option ν) (msg : Message κ ν) (k : κ) :
    msg.apply picture k = (msg.word k).getD (picture k) := by
  cases msg with
  | snapshot rows => exact setRows_eq _ _ k
  | updates rows => exact setRows_eq picture rows k

theorem lastWord_append (older newer : List (Message κ ν)) :
    lastWord k (older ++ newer) = (lastWord k newer).or (lastWord k older) := by
  rw [lastWord, List.filterMap_append, List.getLast?_append]
  rfl

theorem lastWord_singleton (msg : Message κ ν) : lastWord k [msg] = msg.word k := by
  rw [lastWord]
  cases h : msg.word k <;> simp [h]

/-- The reader sees of a key what was said of it last. -/
theorem replay_eq (feed : List (Message κ ν)) (k : κ) :
    replay feed k = (lastWord k feed).getD none := by
  induction feed using List.reverseRecOn with
  | nil => rfl
  | append_singleton feed msg ih =>
      have hfold : replay (feed ++ [msg]) k = msg.apply (replay feed) k := by
        rw [replay, List.foldl_append]
        rfl
      rw [hfold, apply_eq, ih, lastWord_append, lastWord_singleton]
      cases msg.word k <;> rfl

/-- A message that says what is said last, or nothing, may come anywhere. -/
theorem lastWord_insert (h : lastWord k (older ++ newer) = some word)
    (hmsg : msg.word k = none ∨ msg.word k = some word) :
    lastWord k (older ++ msg :: newer) = some word := by
  rw [lastWord_append] at h
  rw [List.append_cons, lastWord_append, lastWord_append, lastWord_singleton]
  cases hnewer : lastWord k newer with
  | some w =>
      rw [hnewer] at h
      exact h
  | none =>
      rw [hnewer, Option.none_or] at h
      rcases hmsg with hmsg | hmsg
      · rw [hmsg, h]
        rfl
      · rw [hmsg]
        rfl

/-- The last message that says something of the key. -/
theorem lastWord_concat (h : msg.word k = some word) : lastWord k (feed ++ [msg]) = some word := by
  rw [lastWord_append, lastWord_singleton, h]
  rfl

end Replay
