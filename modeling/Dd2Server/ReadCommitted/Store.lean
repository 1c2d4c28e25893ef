import Mathlib.Data.List.AList
import Mathlib.Data.List.Nodup
import Mathlib.Logic.Function.Basic

/-!
# Keyed tables and uncommitted writes

A database is a family of finite tables, one for each `t : T`, and a table maps
the keys `K t` to the rows `R t`.  That a key names at most one row is carried
by `AList`.  A unique index is a table of its own, from the indexed columns to
the primary key.

A transaction does not change the committed rows before it ends.  It collects
`Write`s, each of one row, newest first, and reads the *view*: the committed
rows with its own writes on top.  Two facts carry every later argument.  A row
the transaction has written reads the same in every committed state
(`view_get_of_mem`), and a row it has not written reads as committed
(`view_get_of_notMem`).
-/

namespace ReadCommitted

variable {T : Type} {K R : T → Type}

/-- The name of a row: its table and its key there. -/
structure RowKey (K : T → Type) where
  /-- The table. -/
  table : T
  /-- The key in that table. -/
  key : K table

instance [DecidableEq T] [∀ t, DecidableEq (K t)] : DecidableEq (RowKey K)
  | ⟨t, a⟩, ⟨t', b⟩ =>
      if h : t = t' then
        if h' : h ▸ a = b then isTrue (by subst h; subst h'; rfl)
        else isFalse (by intro e; cases e; exact h' rfl)
      else isFalse (by intro e; cases e; exact h rfl)

/-- A database: one finite table for each `t`. -/
abbrev Store (K R : T → Type) := (t : T) → AList fun _ : K t => R t

/-- One row set to a new content, or removed. -/
structure Write (K R : T → Type) where
  /-- The row. -/
  row : RowKey K
  /-- Its new content; `none` removes it. -/
  content : Option (R row.table)

namespace Store

/-- The database without rows. -/
def empty : Store K R := fun _ => ∅

/-- The rows of a table with their keys. -/
def rows (db : Store K R) (t : T) : List (K t × R t) := (db t).entries.map fun e => (e.1, e.2)

/-- A table lists each key once. -/
theorem rows_nodup (db : Store K R) (t : T) : ((db.rows t).map Prod.fst).Nodup := by
  have h := (db t).nodupKeys
  unfold rows
  rw [List.map_map]
  exact h

/-- Rows removed from one table. -/
def removals (t : T) (ks : List (K t)) : List (Write K R) := ks.map fun k => ⟨⟨t, k⟩, none⟩

/-- Rows set in one table. -/
def insertions (t : T) (rs : List (K t × R t)) : List (Write K R) :=
  rs.map fun p => ⟨⟨t, p.1⟩, some p.2⟩

theorem removals_row {t : T} {ks : List (K t)} {w : Write K R} (h : w ∈ removals t ks) :
    ∃ k ∈ ks, w.row = ⟨t, k⟩ := by
  unfold removals at h
  obtain ⟨k, hk, rfl⟩ := List.mem_map.1 h
  exact ⟨k, hk, rfl⟩

theorem insertions_row {t : T} {rs : List (K t × R t)} {w : Write K R}
    (h : w ∈ insertions t rs) : ∃ p ∈ rs, w.row = ⟨t, p.1⟩ := by
  unfold insertions at h
  obtain ⟨p, hp, rfl⟩ := List.mem_map.1 h
  exact ⟨p, hp, rfl⟩

variable [∀ t, DecidableEq (K t)]

/-- The row at a key. -/
def get (db : Store K R) (k : RowKey K) : Option (R k.table) := (db k.table).lookup k.key

@[simp] theorem get_empty (k : RowKey K) : (empty : Store K R).get k = none :=
  AList.lookup_empty _

theorem mem_rows {db : Store K R} {t : T} {k : K t} {r : R t} :
    (k, r) ∈ db.rows t ↔ db.get ⟨t, k⟩ = some r := by
  unfold rows get
  rw [List.mem_map]
  constructor
  · rintro ⟨⟨k', r'⟩, h, he⟩
    cases he
    exact AList.mem_lookup_iff.2 h
  · intro h
    exact ⟨⟨k, r⟩, AList.mem_lookup_iff.1 h, rfl⟩

variable [DecidableEq T]

/-- The database after one write. -/
def put (db : Store K R) (w : Write K R) : Store K R :=
  Function.update db w.row.table
    (match w.content with
      | some r => (db w.row.table).insert w.row.key r
      | none => (db w.row.table).erase w.row.key)

/-- The database as seen through a list of writes, newest first. -/
def view (ws : List (Write K R)) (db : Store K R) : Store K R := ws.foldr (fun w d => d.put w) db

@[simp] theorem get_put_self (db : Store K R) (k : RowKey K) (o : Option (R k.table)) :
    (db.put ⟨k, o⟩).get k = o := by
  cases o <;> simp [put, get]

theorem get_put_of_ne {db : Store K R} {w : Write K R} {k : RowKey K} (h : w.row ≠ k) :
    (db.put w).get k = db.get k := by
  unfold put get
  by_cases ht : k.table = w.row.table
  · obtain ⟨t, a⟩ := k
    obtain ⟨⟨t', b⟩, o⟩ := w
    cases ht
    have hab : a ≠ b := fun e => h (by rw [e])
    cases o with
    | none => simp [AList.lookup_erase_ne hab]
    | some r => simp [AList.lookup_insert_ne hab]
  · rw [Function.update_of_ne ht]

theorem rows_put_of_ne {db : Store K R} {w : Write K R} {t : T} (h : w.row.table ≠ t) :
    (db.put w).rows t = db.rows t := by
  unfold put rows
  rw [Function.update_of_ne (Ne.symm h)]

/-- A new row is listed first. -/
theorem rows_put_new {db : Store K R} {t : T} {k : K t} (r : R t) (h : db.get ⟨t, k⟩ = none) :
    (db.put ⟨⟨t, k⟩, some r⟩).rows t = (k, r) :: db.rows t := by
  unfold put rows
  have hnew : k ∉ db t := AList.lookup_eq_none.1 h
  simp only [Function.update_self, AList.entries_insert_of_notMem hnew, List.map_cons]

/-- A row written twice is the one written last. -/
theorem put_put_self (db : Store K R) (k : RowKey K) (r r' : R k.table) :
    (db.put ⟨k, some r⟩).put ⟨k, some r'⟩ = db.put ⟨k, some r'⟩ := by
  unfold put
  simp only [Function.update_idem, Function.update_self, AList.insert_insert]

/-! ## Views -/

@[simp] theorem view_nil (db : Store K R) : view [] db = db := rfl

@[simp] theorem view_cons (w : Write K R) (ws : List (Write K R)) (db : Store K R) :
    view (w :: ws) db = (view ws db).put w := rfl

theorem view_append (new ws : List (Write K R)) (db : Store K R) :
    view (new ++ ws) db = view new (view ws db) := List.foldr_append

/-- A row that was not written reads as it does below the writes. -/
theorem view_get_of_notMem {ws : List (Write K R)} {k : RowKey K} (db : Store K R)
    (h : ∀ w ∈ ws, w.row ≠ k) : (view ws db).get k = db.get k := by
  induction ws with
  | nil => rfl
  | cons w ws ih =>
      rw [view_cons, get_put_of_ne (h w (by simp))]
      exact ih fun w' hw' => h w' (by simp [hw'])

/-- A row that was written reads the same over every committed state. -/
theorem view_get_of_mem {ws : List (Write K R)} {k : RowKey K} (db db' : Store K R)
    (h : ∃ w ∈ ws, w.row = k) : (view ws db).get k = (view ws db').get k := by
  induction ws with
  | nil => simp at h
  | cons w ws ih =>
      rw [view_cons, view_cons]
      by_cases hw : w.row = k
      · subst hw
        rw [get_put_self, get_put_self]
      · rw [get_put_of_ne hw, get_put_of_ne hw]
        obtain ⟨w', hw', e⟩ := h
        rcases List.mem_cons.1 hw' with rfl | hm
        · exact absurd e hw
        · exact ih ⟨w', hm, e⟩

/-- A view reads the same over two committed states that agree on the row. -/
theorem view_get_congr {ws : List (Write K R)} {k : RowKey K} {db db' : Store K R}
    (h : db.get k = db'.get k) : (view ws db).get k = (view ws db').get k := by
  by_cases hw : ∃ w ∈ ws, w.row = k
  · exact view_get_of_mem db db' hw
  · have hn : ∀ w ∈ ws, w.row ≠ k := fun w hm e => hw ⟨w, hm, e⟩
    rw [view_get_of_notMem db hn, view_get_of_notMem db' hn, h]

/-- A view shows no more of a row than before when the committed state does not. -/
theorem view_get_shrink {ws : List (Write K R)} {k : RowKey K} {r : R k.table} {db db' : Store K R}
    (h : db'.get k = some r → db.get k = some r) (hr : (view ws db').get k = some r) :
    (view ws db).get k = some r := by
  by_cases hw : ∃ w ∈ ws, w.row = k
  · rw [← hr]
    exact view_get_of_mem db db' hw
  · have hn : ∀ w ∈ ws, w.row ≠ k := fun w hm e => hw ⟨w, hm, e⟩
    rw [view_get_of_notMem db' hn] at hr
    rw [view_get_of_notMem db hn]
    exact h hr

/-! ## Writing a list of rows -/

theorem get_view_removals {t : T} {ks : List (K t)} (db : Store K R) (k : K t) :
    (view (removals t ks) db).get ⟨t, k⟩ = if k ∈ ks then none else db.get ⟨t, k⟩ := by
  induction ks with
  | nil => simp [removals]
  | cons k' ks ih =>
      have hstep : view (removals t (k' :: ks)) db =
          (view (removals t ks) db).put ⟨⟨t, k'⟩, none⟩ := rfl
      rw [hstep]
      by_cases hk : k' = k
      · subst hk
        simp
      · rw [get_put_of_ne (by simpa using hk), ih]
        have hne : k ≠ k' := fun e => hk e.symm
        simp [hne]

theorem get_view_insertions {t : T} {rs : List (K t × R t)} (db : Store K R)
    (hnd : (rs.map Prod.fst).Nodup) {k : K t} {r : R t} :
    (view (insertions t rs) db).get ⟨t, k⟩ = some r ↔
      (k, r) ∈ rs ∨ (k ∉ rs.map Prod.fst ∧ db.get ⟨t, k⟩ = some r) := by
  induction rs with
  | nil => simp [insertions]
  | cons p rs ih =>
      obtain ⟨k', r'⟩ := p
      rw [List.map_cons, List.nodup_cons] at hnd
      have hstep : view (insertions t ((k', r') :: rs)) db =
          (view (insertions t rs) db).put ⟨⟨t, k'⟩, some r'⟩ := rfl
      rw [hstep]
      by_cases hk : k' = k
      · subst hk
        have hnot : ∀ x, (k', x) ∉ rs := fun x hx => hnd.1 (List.mem_map.2 ⟨_, hx, rfl⟩)
        simp [hnot, eq_comm]
      · have hne : k ≠ k' := fun e => hk e.symm
        rw [get_put_of_ne (by simpa using hk), ih hnd.2]
        simp [hne]

end Store

end ReadCommitted
