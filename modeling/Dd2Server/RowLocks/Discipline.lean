import Dd2Server.Commits
import Dd2Server.ReadCommitted.Courses

/-!
# The order of the row locks

The Wayfinder transactions take their row locks in the order of `Table.level`: the spec, its entry
in the unique index, the binding, then what players did.  The rows of the other tables are guarded:
a catalog row is locked under an exclusive lock on its spec, a row of a map under a lock on the
binding, a user only for a foreign key.  Nobody waits for those.

Two places depart from the order.  A new spec is nobody else's before it is committed, so that what
is held beside it does not matter.  A statement that takes off all hats of a map locks many rows of
one table, under an exclusive lock on the binding, so that there is one such statement at a time for
a map.
-/

namespace Dd2Server

open ReadCommitted

abbrev RowLock := Lock Table.Key

/-- The place of a table in the order; 0 stands for the tables whose rows are guarded by another
lock. -/
def Table.level : Table → Nat
  | .specs => 1
  | .specNames => 2
  | .mapListingBind => 3
  | .minigameAttempt => 4
  | .minigamePb => 5
  | .collectibleProgress => 5
  | .hatUnlock => 5
  | .collectibleCollectLog => 6
  | .hatEquipped => 6
  | _ => 0

/-! ## What the transactions need of the committed rows -/

/-- Specs and minigame rows are under the name that the unique index has for the spec. -/
structure WellNamed (db : Db) : Prop where
  indexed : ∀ id s, db.get ⟨.specs, id⟩ = some s →
    db.get ⟨.specNames, (s.userId, s.nameId)⟩ = some id
  games : ∀ u n slug r id, db.get ⟨.minigameCatalog, (u, n, slug)⟩ = some r →
    r.specId = some id →
    db.get ⟨.specNames, (u, n)⟩ = some id

/-- The invariant of all runs has it. -/
theorem Inv.wellNamed {pg : Pg} {strict : Prop} {db : Db} (h : Inv pg strict db) :
    WellNamed db where
  indexed := h.indexed
  games u n slug r id hr hid := by
    obtain ⟨s, hs, rfl, rfl⟩ := h.games u n slug r id hr hid
    exact h.indexed id s hs

/-- A name keeps its spec. -/
def KeepsNames (db db' : Db) : Prop :=
  ∀ k id, db.get ⟨.specNames, k⟩ = some id → db'.get ⟨.specNames, k⟩ = some id

/-- The protocol of the Wayfinder transactions. -/
def namesProtocol : Protocol Table.Key Table.Row where
  Inv := WellNamed
  stay := KeepsNames
  keep _ _ _ := True
  stay_refl _ _ _ h := h
  stay_trans h h' k id hk := h' k id (h k id hk)
  keep_refl _ _ := trivial
  keep_trans _ _ := trivial

/-! ## The discipline -/

/-- The id came from the sequence to this task. -/
def Drew (log : Log) (id : Int) : Prop := (.answered .nextSpecId id : LogEvent) ∈ log

/-- What a task can say of a lock of this mode on a row. -/
def Backed (held : List RowLock) (log : Log) (db : Db) (mode : Mode) : DbKey → Prop
  | ⟨.users, _⟩ => mode = .keyShare
  | ⟨.specs, id⟩ =>
      (mode = .keyShare → Holds held ⟨.specs, id⟩) ∧
        (mode ≠ .keyShare → (∃ s, db.get ⟨.specs, id⟩ = some s) ∨ Drew log id)
  | ⟨.specNames, k⟩ => mode ≠ .keyShare ∧ db.get ⟨.specNames, k⟩ = none
  | ⟨.minigameCatalog, (u, n, _)⟩ =>
      ∃ id, Holds held ⟨.specs, id⟩ ∧
        (db.get ⟨.specNames, (u, n)⟩ = some id ∨ Holds held ⟨.specNames, (u, n)⟩)
  | ⟨.collectibleCatalog, (id, _)⟩ => Holds held ⟨.specs, id⟩
  | ⟨.hatCatalog, (id, _)⟩ => Holds held ⟨.specs, id⟩
  | ⟨.minigameOnMap, (m, _)⟩ =>
      Holds held ⟨.mapListingBind, m⟩ ∨ mode = .share ∧ Shares held ⟨.mapListingBind, m⟩
  | ⟨.collectibleOnMap, (m, _)⟩ =>
      Holds held ⟨.mapListingBind, m⟩ ∨ mode = .share ∧ Shares held ⟨.mapListingBind, m⟩
  | ⟨.hatOnMap, (m, _)⟩ =>
      Holds held ⟨.mapListingBind, m⟩ ∨ mode = .share ∧ Shares held ⟨.mapListingBind, m⟩
  | ⟨.displayNames, _⟩ => False
  | ⟨.mapCurrHeights, _⟩ => False
  | _ => mode ≠ .keyShare

/-- A lock that is held already, or a stronger one. -/
def Settled (held : List RowLock) (a : RowLock) : Prop :=
  ∃ x ∈ held, x.row = a.row ∧ (x.mode = a.mode ∨ x.mode.exclusive = true)

/-- A lock on a spec that only this task knows of. -/
def Private (log : Log) (db : Db) (a : RowLock) : Prop :=
  ∃ id, a.row = ⟨.specs, id⟩ ∧ Drew log id ∧ db.get ⟨.specs, id⟩ = none

/-- A lock on a worn hat of a map whose binding is held exclusively. -/
def Sweeps (held : List RowLock) (m : String) (a : RowLock) : Prop :=
  (∃ u, a.row = ⟨.hatEquipped, (u, m)⟩) ∧ Holds held ⟨.mapListingBind, m⟩

/-- The lock comes after all that the task holds, or nobody can stand in its way. -/
def Ordered (held : List RowLock) (log : Log) (db : Db) (a : RowLock) : Prop :=
  a.row.table.level ≠ 0 → ¬Settled held a → ¬Private log db a →
    ∀ x ∈ held, ¬Private log db x →
    x.row.table.level < a.row.table.level ∨ ∃ m, Sweeps held m x ∧ Sweeps held m a

theorem Holds.mono {held held' : List RowLock} {k : DbKey} (h : Holds held k)
    (hs : ∀ x ∈ held, x ∈ held') : Holds held' k := by
  obtain ⟨x, hx, hk⟩ := h
  exact ⟨x, hs x hx, hk⟩

theorem Shares.mono {held held' : List RowLock} {k : DbKey} (h : Shares held k)
    (hs : ∀ x ∈ held, x ∈ held') : Shares held' k := by
  obtain ⟨x, hx, hk⟩ := h
  exact ⟨x, hs x hx, hk⟩

theorem Backed.mono {held held' : List RowLock} {log : Log} {db : Db} {mode : Mode} {k : DbKey}
    (h : Backed held log db mode k) (hs : ∀ x ∈ held, x ∈ held') :
    Backed held' log db mode k := by
  obtain ⟨t, k⟩ := k
  cases t with
  | specs => exact ⟨fun hm => (h.1 hm).mono hs, h.2⟩
  | minigameCatalog =>
      obtain ⟨id, hid, hname⟩ := h
      exact ⟨id, hid.mono hs, hname.imp_right fun hx => hx.mono hs⟩
  | collectibleCatalog => exact Holds.mono h hs
  | hatCatalog => exact Holds.mono h hs
  | minigameOnMap => exact h.imp (fun hb => hb.mono hs) fun hb => ⟨hb.1, hb.2.mono hs⟩
  | collectibleOnMap => exact h.imp (fun hb => hb.mono hs) fun hb => ⟨hb.1, hb.2.mono hs⟩
  | hatOnMap => exact h.imp (fun hb => hb.mono hs) fun hb => ⟨hb.1, hb.2.mono hs⟩
  | _ => exact h

theorem Backed.later {held : List RowLock} {log : Log} {ev : LogEvent} {db : Db}
    {mode : Mode} {k : DbKey} (h : Backed held log db mode k) :
    Backed held (ev :: log) db mode k := by
  obtain ⟨t, k⟩ := k
  cases t with
  | specs => exact ⟨h.1, fun hm => (h.2 hm).imp_right fun hd => List.mem_cons_of_mem _ hd⟩
  | _ => exact h

theorem Backed.stable {held : List RowLock} {log : Log} {db db' : Db} {a : RowLock}
    (ha : a ∈ held) (hr : Rely namesProtocol held db db') (h : Backed held log db a.mode a.row) :
    Backed held log db' a.mode a.row := by
  obtain ⟨⟨t, k⟩, mode⟩ := a
  cases t with
  | specs =>
      refine ⟨h.1, fun hm => ?_⟩
      rw [hr.row _ ha hm]
      exact h.2 hm
  | specNames =>
      refine ⟨h.1, ?_⟩
      rw [hr.row _ ha h.1]
      exact h.2
  | minigameCatalog =>
      obtain ⟨id, hid, hname⟩ := h
      exact ⟨id, hid, hname.imp_left (hr.stay _ id)⟩
  | _ => exact h

/-- The discipline of the Wayfinder transactions. -/
def rowLocks : Discipline Table.Key Table.Row Tag Ask.Ans Act.Out where
  P := namesProtocol
  backed held log db a := Backed held log db a.mode a.row
  ordered := Ordered
  mono hs h := Backed.mono h hs
  later h := Backed.later h
  stable ha hr h := Backed.stable ha hr h

/-! ## Two tasks -/

/-- What two tasks with backed locks are to each other: their locks go together, and the sequence
gave them different ids. -/
structure Apart (held held' : List RowLock) (log log' : Log) (db : Db) : Prop where
  locks : ∀ x ∈ held, ∀ y ∈ held', x.compatible y = true
  ids : ∀ id, Drew log id → ¬Drew log' id
  backed : ∀ x ∈ held, Backed held log db x.mode x.row
  backed' : ∀ x ∈ held', Backed held' log' db x.mode x.row

section

variable {held held' : List RowLock} {log log' : Log} {db : Db} {a b : RowLock}

theorem Apart.symm (h : Apart held held' log log' db) : Apart held' held log' log db where
  locks x hx y hy := by
    rw [Lock.compatible_comm]
    exact h.locks y hy x hx
  ids id hd hd' := h.ids id hd' hd
  backed := h.backed'
  backed' := h.backed

/-- A row that one holds exclusively the other has no more than a key-share lock on. -/
theorem Apart.alone (h : Apart held held' log log' db) {k : DbKey} (hx : Holds held k) :
    ¬Shares held' k := by
  rintro ⟨y, hy, rfl, hm⟩
  obtain ⟨x, hx, hrow, hex⟩ := hx
  have hc := h.locks x hx y hy
  rw [Lock.compatible_eq_false hrow (Mode.exclusive_conflicts hex hm)] at hc
  cases hc

/-- Nobody waits for a guarded row. -/
theorem Apart.guarded (h : Apart held held' log log' db) (hlevel : a.row.table.level = 0)
    (ha : Backed held log db a.mode a.row) (hb : Backed held' log' db b.mode b.row)
    (hrow : a.row = b.row) : a.mode.conflicts b.mode = false := by
  -- two locks in share mode go together, and the other ones have an exclusive lock behind them
  have hmaps : ∀ {m : String} {mode mode' : Mode},
      (Holds held ⟨.mapListingBind, m⟩ ∨ mode = .share ∧
        Shares held ⟨.mapListingBind, m⟩) →
      (Holds held' ⟨.mapListingBind, m⟩ ∨ mode' = .share ∧
        Shares held' ⟨.mapListingBind, m⟩) →
      mode.conflicts mode' = false := by
    rintro m mode mode' (hx | ⟨rfl, hx⟩) (hy | ⟨rfl, hy⟩)
    · exact absurd hy.shares (h.alone hx)
    · exact absurd hy (h.alone hx)
    · exact absurd hx (h.symm.alone hy)
    · rfl
  obtain ⟨⟨t, k⟩, mode⟩ := a
  obtain ⟨row, mode'⟩ := b
  cases hrow
  cases t with
  | users =>
      have ha' : mode = .keyShare := ha
      have hb' : mode' = .keyShare := hb
      rw [ha', hb']
      rfl
  | displayNames => exact ha.elim
  | mapCurrHeights => exact ha.elim
  | collectibleCatalog => exact absurd (Holds.shares hb) (h.alone ha)
  | hatCatalog => exact absurd (Holds.shares hb) (h.alone ha)
  | minigameCatalog =>
      obtain ⟨id, hid, hname⟩ := ha
      obtain ⟨id', hid', hname'⟩ := hb
      rcases hname with hname | hname <;> rcases hname' with hname' | hname'
      · obtain rfl : id = id' := Option.some.inj (hname.symm.trans hname')
        exact absurd hid'.shares (h.alone hid)
      · obtain ⟨y, hy, hrow, -⟩ := hname'
        have hy' := h.backed' y hy
        rw [hrow] at hy'
        rw [hy'.2] at hname
        cases hname
      · obtain ⟨x, hx, hrow, -⟩ := hname
        have hx' := h.backed x hx
        rw [hrow] at hx'
        rw [hx'.2] at hname'
        cases hname'
      · exact absurd hname'.shares (h.alone hname)
  | minigameOnMap => exact hmaps ha hb
  | collectibleOnMap => exact hmaps ha hb
  | hatOnMap => exact hmaps ha hb
  | _ => cases hlevel

/-- Nobody waits for a row that it has. -/
theorem Apart.settled (h : Apart held held' log log' db) (hlevel : a.row.table.level ≠ 0)
    (ha : Settled held a) (hb : b ∈ held') (hrow : a.row = b.row) :
    a.mode.conflicts b.mode = false := by
  obtain ⟨x, hx, hxrow, hmode⟩ := ha
  have hxb : x.mode.conflicts b.mode = false := by
    cases hc : x.mode.conflicts b.mode with
    | false => rfl
    | true =>
        have hcompat := h.locks x hx b hb
        rw [Lock.compatible_eq_false (hxrow.trans hrow) hc] at hcompat
        cases hcompat
  rcases hmode with hmode | hex
  · rwa [← hmode]
  -- a key-share lock does not stand beside an exclusive one
  have hkey : b.mode = .keyShare := by
    by_contra hne
    rw [Mode.exclusive_conflicts hex hne] at hxb
    cases hxb
  have hback := h.backed' b hb
  rw [← hrow] at hback
  obtain ⟨⟨t, k⟩, mode⟩ := a
  cases t with
  | specs => exact absurd (hback.1 hkey).shares (h.alone ⟨x, hx, hxrow, hex⟩)
  | specNames => exact absurd hkey hback.1
  | mapListingBind => exact absurd hkey hback
  | minigameAttempt => exact absurd hkey hback
  | minigamePb => exact absurd hkey hback
  | collectibleProgress => exact absurd hkey hback
  | hatUnlock => exact absurd hkey hback
  | collectibleCollectLog => exact absurd hkey hback
  | hatEquipped => exact absurd hkey hback
  | _ => exact absurd rfl hlevel

/-- Nobody else has a lock on a private spec. -/
theorem Apart.notPrivate (h : Apart held held' log log' db) (ha : Private log db a)
    (hb : b ∈ held') : a.row ≠ b.row := by
  intro hrow
  obtain ⟨id, hid, hdrew, hnone⟩ := ha
  have hknown : ∀ y ∈ held', y.row = ⟨.specs, id⟩ → y.mode = .keyShare := by
    intro y hy hyrow
    by_contra hm
    have hback := h.backed' y hy
    rw [hyrow] at hback
    rcases hback.2 hm with ⟨s, hs⟩ | hd
    · rw [hnone] at hs
      cases hs
    · exact h.ids id hdrew hd
  have hback := h.backed' b hb
  rw [← hrow, hid] at hback
  obtain ⟨y, hy, hyrow, hex⟩ := hback.1 (hknown b hb (hrow.symm.trans hid))
  rw [hknown y hy hyrow] at hex
  cases hex

/-- A lock that another task stands in the way of. -/
structure Contended (held : List RowLock) (log : Log) (db : Db) (a : RowLock) : Prop where
  level : a.row.table.level ≠ 0
  new : ¬Settled held a
  known : ¬Private log db a

theorem Apart.contended (h : Apart held held' log log' db) (ha : Backed held log db a.mode a.row)
    (hb : b ∈ held') (hc : a.compatible b = false) :
    Contended held log db a ∧ a.row = b.row := by
  simp only [Lock.compatible, Bool.or_eq_false_iff, decide_eq_false_iff_not, not_not] at hc
  obtain ⟨hrow, hc⟩ := hc
  refine ⟨⟨fun hlevel => ?_, fun hs => ?_, fun hp => h.notPrivate hp hb hrow⟩, hrow⟩
  · rw [h.guarded hlevel ha (h.backed' b hb) hrow] at hc
    cases hc
  · by_cases hlevel : a.row.table.level = 0
    · rw [h.guarded hlevel ha (h.backed' b hb) hrow] at hc
      cases hc
    · rw [h.settled hlevel hs hb hrow] at hc
      cases hc

open Classical in
/-- The rank of a lock that is asked for: its place in the order, and whether it is one of a
sweep. -/
noncomputable def rank (held : List RowLock) (a : RowLock) : Nat :=
  2 * a.row.table.level + if ∃ m, Sweeps held m a then 1 else 0

/-- Where the holder of a lock waits itself, it does so for one of a higher rank. -/
theorem Apart.rank_lt (h : Apart held held' log log' db) {c : RowLock}
    (ha : Backed held log db a.mode a.row) (hb : b ∈ held') (hab : a.compatible b = false)
    (hc : Contended held' log' db c) (hord : Ordered held' log' db c) :
    rank held a < rank held' c := by
  obtain ⟨hcont, hrow⟩ := h.contended ha hb hab
  have hpriv : ¬Private log' db b := by
    -- the one who asks knows of the spec, too
    rintro ⟨id, hid, hdrew, hnone⟩
    rw [hrow, hid] at ha
    by_cases hm : a.mode = .keyShare
    · obtain ⟨x, hx, hxrow, -⟩ := ha.1 hm
      exact h.symm.notPrivate ⟨id, hid, hdrew, hnone⟩ hx (hid.trans hxrow.symm)
    · rcases ha.2 hm with ⟨s, hs⟩ | hd
      · rw [hnone] at hs
        cases hs
      · exact h.ids id hd hdrew
  unfold rank
  rcases hord hc.level hc.new hc.known b hb hpriv with hlt | ⟨m, hsb, hsc⟩
  · rw [← hrow] at hlt
    split <;> split <;> omega
  · have hnot : ¬∃ m', Sweeps held m' a := by
      rintro ⟨m', ⟨u, hu⟩, hm'⟩
      obtain ⟨⟨u', hu'⟩, hm⟩ := hsb
      rw [hrow, hu'] at hu
      cases hu
      exact h.alone hm' hm.shares
    have hlevel : a.row.table.level = c.row.table.level := by
      obtain ⟨⟨u', hu'⟩, -⟩ := hsb
      obtain ⟨⟨u, hu⟩, -⟩ := hsc
      rw [hrow, hu', hu]
    rw [if_neg hnot, if_pos ⟨m, hsc⟩, hlevel]
    omega

end

end Dd2Server
