import Dd2Server.Boards.Listing
import Dd2Server.Machine.Binary64
import Dd2Server.Paging.Walks
import Dd2Server.ReadCommitted.Additions
import Mathlib.Data.Prod.Lex
import Mathlib.Data.String.Basic

/-!
# The list of maps, page by page

The queries read how many maps are listed and one page of a hundred after the other, the newest maps
first, while the trigger goes on listing maps.  A map never leaves the list and its place never
moves up.  So no map is missed where the pages are read from the database one after the other, up to
one that is not full.  Where only as many pages are read as there were at the start, no more maps
are missed than were listed meanwhile.

This is about the queries.  The HTTP handlers answer from a cache that keeps each page for a minute,
so what they show of one page may be older than what they showed of the page before.
-/

namespace Dd2Server.Boards

open Machine Paging ReadCommitted

/-! ## The queries -/

def listedMapsPageSize : Nat := 100

/-- `listed_maps_page_count`, in binary64. -/
def listedMapsPageCount (len : Nat) : Int :=
  ⌈Binary64.round (Binary64.round len / Binary64.round listedMapsPageSize)⌉

/-- The columns of `map_meta` that are joined. -/
structure MapMeta where
  authorId : Uuid
  mapName : Option String

structure ListedMap where
  uid : String
  becameListed : Int
  mapName : Option String
  authorId : Option String
  nbPlayers : Nat
  deriving DecidableEq

abbrev ListedRow := String × ListedMapRow

/-- `WHERE listed AND map_uid <> $1`. -/
def listedRows (db : Db) : List ListedRow :=
  (db.rows .listedMaps).filter fun e => e.2.listed && e.1 ≠ dd2MapUid

def getListedMapsLen (db : Db) : Nat := (listedRows db).length

variable {γ : Type} [LinearOrder γ] {coll : String → γ}

/-- `ORDER BY became_listed DESC, map_uid ASC`; `coll` is how the database collates texts. -/
def byListing (coll : String → γ) (e : ListedRow) : Timeᵒᵈ ×ₗ γ :=
  toLex (OrderDual.toDual e.2.becameListed, coll e.1)

/-- What a page shows of a map, at a time. -/
def listedMap (db : Db) (now : Time) (mapMeta : String → Option MapMeta) (e : ListedRow) :
    ListedMap where
  uid := e.1
  becameListed := e.2.becameListed / 1000000
  mapName := (mapMeta e.1).bind MapMeta.mapName
  authorId := (mapMeta e.1).map fun m => m.authorId.text
  nbPlayers := (publicUsers db now e.1).length

/-- The rows of a page, in the order that the database chose. -/
def listedPage {db : Db} (arr : Arranged (byListing coll) (listedRows db)) (page : Nat) :
    List ListedRow :=
  window listedMapsPageSize (listedMapsPageSize * page) arr.list

def getListedMapsPage {db : Db} (now : Time) (mapMeta : String → Option MapMeta)
    (arr : Arranged (byListing coll) (listedRows db)) (page : Nat) : List ListedMap :=
  (listedPage arr page).map (listedMap db now mapMeta)

/-! ## The number of pages -/

/-- The division and the rounding are exact enough. -/
theorem listedMapsPageCount_eq {len : Nat} (h : len < 2 ^ 53) :
    listedMapsPageCount len = ((len + 99) / 100 : Nat) := by
  have hsize : Binary64.round ((listedMapsPageSize : Nat) : ℚ) = 100 :=
    Binary64.round_natCast (by decide)
  rw [listedMapsPageCount, Binary64.round_natCast h, hsize]
  rcases Nat.eq_zero_or_pos (len % 100) with hmod | hmod
  · have hdiv : (len : ℚ) / 100 = (len / 100 : Nat) := by
      rw [div_eq_iff (by norm_num)]
      exact_mod_cast (Nat.div_mul_cancel (Nat.dvd_of_mod_eq_zero hmod)).symm
    rw [hdiv, Binary64.round_natCast (by omega), Int.ceil_natCast]
    omega
  · have hpos : (0 : ℚ) < len / 100 :=
      div_pos (by exact_mod_cast (by omega : 0 < len)) (by norm_num)
    have herr : |Binary64.round ((len : ℚ) / 100) - len / 100| < 1 / 100 := by
      refine (Binary64.abs_round_sub hpos).trans_lt ?_
      rw [div_div, div_lt_div_iff₀ (by norm_num) (by norm_num)]
      have hlen : (len : ℚ) < 2 ^ 53 := by exact_mod_cast h
      linarith
    obtain ⟨hlo, hhi⟩ := abs_lt.1 herr
    have hq : len = 100 * (len / 100) + len % 100 := (Nat.div_add_mod len 100).symm
    have hqr : (len : ℚ) = 100 * (len / 100 : Nat) + (len % 100 : Nat) := by exact_mod_cast hq
    have hr₁ : (1 : ℚ) ≤ (len % 100 : Nat) := by exact_mod_cast hmod
    have hr₂ : ((len % 100 : Nat) : ℚ) ≤ 99 := by exact_mod_cast (by omega : len % 100 ≤ 99)
    have hcount : (len + 99) / 100 = len / 100 + 1 := by omega
    rw [hcount, Int.ceil_eq_iff, Int.cast_natCast, Nat.cast_add, Nat.cast_one]
    constructor <;> linarith

/-! ## The tasks -/

/-- Reports of positions, transactions that insert standings, and whatever leaves the list alone. -/
inductive ListJob
  | insertion (j : Insertion)
  | currPos (userId : Uuid) (mapUid : String) (pos : Pos) (raceTime : Int)
  | other (p : Server Unit) (h : p.Confined (· ≠ Table.listedMaps))

def ListJob.body (hash : String → Int) : ListJob → Server Unit
  | .insertion j => (j.body hash).bind fun _ => .ret ()
  | .currPos userId mapUid pos raceTime =>
      (reportMapCurrPos hash userId mapUid pos raceTime).run.bind fun _ => .ret ()
  | .other p _ => p

abbrev ListSystem := Sys Table.Key Table.Row Tag Ask.Ans Act.Out Unit ListJob Unit

/-- A run from one state to another. -/
abbrev ListRun (hash : String → Int) (s s' : ListSystem) : Prop :=
  Reach shared (ListJob.body hash) (fun _ _ => True) s s'

variable {hash : String → Int} {α ε : Type}

/-- The program only adds maps to the list. -/
abbrev Lists (x : Query ε α) : Prop := AddsTo Table.listedMaps x

theorem lists_select {tag : Tag} {f : Db → α} : Lists (sql (selectAs tag f)) := by
  apply AddsTo.query
  intro v e a hrun w hw
  cases hrun
  cases hw

/-- A statement that writes to other tables. -/
theorem lists_elsewhere {s : Sql α} (h : ∀ v e a, s.run v = some (e, a) →
      ∀ w ∈ e.writes, w.row.table ≠ .listedMaps) : Lists (sql s) :=
  AddsTo.query fun v e a hrun w hw ht => absurd ht (h v e a hrun w hw)

theorem lists_trigger (mapUid : String) (now : Time) :
    Lists (mapLeaderboardMaybeList hash mapUid now) := by
  have hinsert : Lists (sql (insertListedStmt mapUid now)) := by
    apply AddsTo.query
    intro v e a hrun w hw ht
    simp only [insertListedStmt] at hrun
    split at hrun
    · cases hrun
      cases hw
    · next hnone =>
      split at hrun
      case isFalse => cases hrun
      case isTrue =>
        cases hrun
        rw [List.mem_singleton.1 hw]
        exact hnone
  have hlock : Lists (sql (advisoryLockStmt (hash mapUid))) := by
    apply lists_elsewhere
    intro v e a hrun w hw
    cases hrun
    cases hw
  rw [mapLeaderboardMaybeList]
  split
  · exact .pure
  · refine .bind lists_select fun listed => ?_
    split
    · exact .pure
    · refine .bind hlock fun _ => .bind lists_select fun listed => ?_
      split
      · exact .pure
      · refine .bind lists_select fun thresh => .bind lists_select fun publicCount => ?_
        split
        · exact hinsert
        · exact .pure

theorem lists_insert (n : NewStanding) (skip : Bool) (now : Time) :
    Lists (n.insert hash skip now) := by
  refine .bind (lists_elsewhere fun v e a hrun w hw => ?_) fun inserted => ?_
  · simp only [NewStanding.stmt] at hrun
    split at hrun
    · split at hrun
      · cases hrun
        cases hw
      · cases hrun
    · split at hrun
      · cases hrun
        rw [List.mem_singleton.1 hw]
        exact Table.noConfusion
      · cases hrun
  · split
    · exact lists_trigger n.mapUid now
    · exact .pure

theorem lists_autocommit {x : Time → Query SqlxError α} (h : ∀ now, Lists (x now)) :
    Lists (autocommit x) :=
  .transaction (.bind .ask fun now => .bind (h now) fun _ => .bind .commit fun _ => .pure)

theorem lists_insertRows (now : Time) (commits : Bool) (rows : List (NewStanding × Bool)) :
    Lists (insertRows hash now commits rows) := by
  induction rows with
  | nil =>
      rw [insertRows]
      split
      · exact .bind .commit fun _ => .pure
      · exact .pure
  | cons row rows ih => exact .bind (lists_insert row.1 row.2 now) fun _ => ih

theorem lists_reportMapCurrPos (userId : Uuid) (mapUid : String) (pos : Pos) (raceTime : Int) :
    Lists (reportMapCurrPos hash userId mapUid pos raceTime) := by
  have hcurr : Lists (upsertMapCurrHeight mapUid userId pos raceTime) := by
    rw [upsertMapCurrHeight]
    split
    · exact .throw
    · refine lists_autocommit fun now => lists_elsewhere fun v e a hrun w hw => ?_
      cases hrun
      rw [List.mem_singleton.1 hw]
      exact Table.noConfusion
  have hraise : Lists (autocommit fun now =>
      sql (raiseStandingStmt mapUid userId pos raceTime now)) := by
    refine lists_autocommit fun now => lists_elsewhere fun v e a hrun w hw => ?_
    simp only [raiseStandingStmt] at hrun
    split at hrun
    · cases hrun
      cases hw
    · split at hrun
      · cases hrun
        rw [List.mem_singleton.1 hw]
        exact Table.noConfusion
      · cases hrun
        cases hw
  rw [reportMapCurrPos]
  split
  · exact .pure
  · split
    · exact .throw
    · refine .bind (.adapt hcurr) fun _ => .bind (.adapt hraise) fun raised => ?_
      split
      · exact .pure
      · exact .adapt (lists_autocommit fun now => lists_insert _ _ now)

theorem ListJob.adds (hash : String → Int) (j : ListJob) : (j.body hash).Adds .listedMaps := by
  cases j with
  | insertion j =>
      exact .bind (AddsTo.transaction (.bind .ask fun now => lists_insertRows now j.commits j.rows))
        fun _ => trivial
  | currPos userId mapUid pos raceTime =>
      exact .bind (lists_reportMapCurrPos userId mapUid pos raceTime) fun _ => trivial
  | other p h => exact h.adds fun hne => hne rfl

/-! ## Reading on -/

theorem mem_listedRows {db : Db} {e : ListedRow} :
    e ∈ listedRows db ↔ listing db e.1 = some e.2 ∧ e.2.listed = true ∧
    e.1 ≠ dd2MapUid := by
  rw [listedRows, List.mem_filter, Store.mem_rows, Bool.and_eq_true, decide_eq_true_eq]

theorem listedRows_nodup (db : Db) : (listedRows db).Nodup :=
  (List.Nodup.of_map _ (Store.rows_nodup db .listedMaps)).filter _

omit [LinearOrder γ] in
/-- No two maps have one place. -/
theorem byListing_nodup (hcoll : Function.Injective coll) (db : Db) :
    ((listedRows db).map (byListing coll)).Nodup := by
  refine (List.nodup_map_iff_inj_on (listedRows_nodup db)).2 fun e he e' he' hkey => ?_
  have huid : e.1 = e'.1 := hcoll (congrArg (fun k => (ofLex k).2) hkey)
  have hrow := (mem_listedRows.1 he).1
  rw [huid, (mem_listedRows.1 he').1] at hrow
  exact Prod.ext huid (Option.some.inj hrow).symm

theorem listedRows_subperm {a b : Db} (h : Retains .listedMaps a b) :
    (listedRows a).Subperm (listedRows b) := by
  refine (listedRows_nodup a).subperm fun e he => ?_
  obtain ⟨hrow, hlisted⟩ := mem_listedRows.1 he
  exact mem_listedRows.2 ⟨h e.1 e.2 hrow, hlisted⟩

/-- What the queries show of one state: the number of pages, and on the pages the list, the newest
maps first. -/
structure ListShown (coll : String → γ) (db : Db) : Prop where
  count : getListedMapsLen db < 2 ^ 53 →
    listedMapsPageCount (getListedMapsLen db) = ((getListedMapsLen db + 99) / 100 : Nat)
  whole : ∀ (now : Time) (mapMeta : String → Option MapMeta) (arr : Nat →
    Arranged (byListing coll) (listedRows db))
    (count : Nat), getListedMapsLen db ≤ listedMapsPageSize * count →
    ∃ rows : List ListedRow, rows.Perm (listedRows db) ∧
      rows.Pairwise (fun a b => byListing coll a < byListing coll b) ∧
      ((List.range count).flatMap fun p => getListedMapsPage now mapMeta (arr p) p) =
        rows.map (listedMap db now mapMeta)

/-- What is seen where page after page is read from the database, each in a later state. -/
structure ListWalk (dbs : Nat → Db) (pages : Nat → List ListedMap) : Prop where
  /-- No map is missed up to a page that is not full. -/
  met : ∀ m r, listing (dbs 0) m = some r → r.listed = true → m ≠ dd2MapUid → ∀ last,
    (pages last).length < listedMapsPageSize → ∃ p ≤ last, m ∈ (pages p).map ListedMap.uid
  /-- As many pages as there were at first lack no more maps than were listed since. -/
  missed : ∀ last, getListedMapsLen (dbs 0) ≤ listedMapsPageSize * (last + 1) →
    ∀ missed : List String,
    missed.Nodup → (∀ m ∈ missed, isListed (dbs 0) m = true ∧ m ≠ dd2MapUid ∧
      ∀ p ≤ last, m ∉ (pages p).map ListedMap.uid) →
    missed.length ≤ getListedMapsLen (dbs last) - getListedMapsLen (dbs 0)

theorem listShown (hcoll : Function.Injective coll) (db : Db) : ListShown coll db where
  count := listedMapsPageCount_eq
  whole now mapMeta arr count hcount := by
    have hkeys := byListing_nodup hcoll db
    refine ⟨(arr 0).list, (arr 0).perm, (arr 0).strict hkeys, ?_⟩
    have hpage : ∀ p, getListedMapsPage now mapMeta (arr p) p =
        (window listedMapsPageSize (listedMapsPageSize * p) (arr 0).list).map
          (listedMap db now mapMeta) := fun p => by
      rw [getListedMapsPage, listedPage, (arr p).list_eq (arr 0) hkeys]
    rw [List.flatMap_congr fun p _ => hpage p, ← List.map_flatMap, flatMap_window,
      List.take_of_length_le]
    rwa [(arr 0).length_eq]

theorem listWalk (hcoll : Function.Injective coll) {dbs : Nat → Db}
    (hretains : ∀ p, Retains .listedMaps (dbs p) (dbs (p + 1))) (now : Nat → Time)
    (mapMeta : Nat → String → Option MapMeta)
    (arr : ∀ p, Arranged (byListing coll) (listedRows (dbs p))) :
    ListWalk dbs fun p => getListedMapsPage (now p) (mapMeta p) (arr p) p := by
  have hkeys : ∀ p, ((listedRows (dbs p)).map (byListing coll)).Nodup :=
    fun p => byListing_nodup hcoll (dbs p)
  have hsub : ∀ p, (listedRows (dbs p)).Subperm (listedRows (dbs (p + 1))) :=
    fun p => listedRows_subperm (hretains p)
  have huid : ∀ p, (getListedMapsPage (now p) (mapMeta p) (arr p) p).map ListedMap.uid =
      (listedPage (arr p) p).map Prod.fst := fun p => by
    rw [getListedMapsPage, List.map_map]
    rfl
  refine ⟨fun m r hrow hlisted hm last hshort => ?_, fun last hlen missed hnodup hmissed => ?_⟩
  · rw [getListedMapsPage, List.length_map] at hshort
    obtain ⟨p, hp, hmet⟩ :=
      met_of_short arr hkeys hsub (r := (m, r)) (mem_listedRows.2 ⟨hrow, hlisted, hm⟩) hshort
    refine ⟨p, hp, ?_⟩
    rw [huid]
    exact List.mem_map_of_mem hmet
  · have hrows : ∀ e ∈ (listedRows (dbs 0)).filter fun e => e.1 ∈ missed,
        e ∈ listedRows (dbs 0) ∧
        ∀ p ≤ last, e ∉ window listedMapsPageSize (listedMapsPageSize * p) (arr p).list := by
      intro e he
      obtain ⟨hmem, hin⟩ := List.mem_filter.1 he
      refine ⟨hmem, fun p hp hpage => (hmissed e.1 (of_decide_eq_true hin)).2.2 p hp ?_⟩
      rw [huid]
      exact List.mem_map_of_mem hpage
    have hsubset : missed ⊆ ((listedRows (dbs 0)).filter fun e =>
        e.1 ∈ missed).map Prod.fst := by
      intro m hm
      obtain ⟨hisListed, hne, -⟩ := hmissed m hm
      obtain ⟨r, hrow, hlisted⟩ := isListed_eq_true.1 hisListed
      exact List.mem_map.2
        ⟨(m, r), List.mem_filter.2 ⟨mem_listedRows.2 ⟨hrow, hlisted, hne⟩,
          decide_eq_true hm⟩, rfl⟩
    calc missed.length ≤ ((listedRows (dbs 0)).filter fun e => e.1 ∈ missed).length := by
          rw [← List.length_map Prod.fst]
          exact (hnodup.subperm hsubset).length_le
      _ ≤ (listedRows (dbs last)).length - listedMapsPageSize * (last + 1) :=
          missed_le arr hkeys hsub ((listedRows_nodup _).filter _) hrows
      _ ≤ getListedMapsLen (dbs last) - getListedMapsLen (dbs 0) := Nat.sub_le_sub_left hlen _

/-- In every run, at whatever moments the pages are read from the database one after the other: each
state is shown as it is, and no map is missed up to a page that is not full, whatever is listed
meanwhile. -/
theorem listed_pages (hash : String → Int) (hcoll : Function.Injective coll) {s₀ : ListSystem}
    (htasks : s₀.tasks = []) (s : Nat → ListSystem) (hfirst : ListRun hash s₀ (s 0))
    (hnext : ∀ p, ListRun hash (s p) (s (p + 1))) (now : Nat → Time)
    (mapMeta : Nat → String → Option MapMeta)
    (arr : ∀ p, Arranged (byListing coll) (listedRows (s p).db)) :
    (∀ p, ListShown coll (s p).db) ∧
      ListWalk (fun p => (s p).db) fun p => getListedMapsPage (now p) (mapMeta p) (arr p) p := by
  have hreach : ∀ p, ListRun hash s₀ (s p) := by
    intro p
    induction p with
    | zero => exact hfirst
    | succ p ih => exact ih.trans (hnext p)
  exact ⟨fun p => listShown hcoll (s p).db,
    listWalk hcoll (fun p => (hreach p).added (ListJob.adds hash) htasks
      (hnext p)) now mapMeta arr⟩

/-- Two more players stand on the map of three. -/
def fifth : ListJob :=
  .insertion ⟨[(⟨"Map________________________", 4, ⟨0, 3, 0⟩, 3, 0⟩, false),
    (⟨"Map________________________", 5, ⟨0, 3, 0⟩, 3, 0⟩, false)], true⟩

/-- They do so at once. -/
def fifthComes : List (Cue Ask.Ans ListJob) := [.start fifth, .go 0 40 fun | .now => (0 : Int)]

/-- A map is listed after the first page was read. -/
theorem listed_pages_listing :
    ∃ s : Nat → ListSystem, isListed (s 0).db "Map________________________" = false ∧
    isListed (s 1).db "Map________________________" = true ∧ (∀ p, ListShown id (s p).db) ∧
    ∃ pages, ListWalk (fun p => (s p).db) pages := by
  let s₀ : ListSystem := { db := Insertions.three, mem := () }
  obtain ⟨s₁, hrun, hlisted⟩ : ∃ s₁, ListRun (fun _ => 0) s₀ s₁ ∧
      isListed s₁.db "Map________________________" = true :=
    Reach.scripted fifthComes (by decide +kernel)
  let s : Nat → ListSystem := fun p => if p = 0 then s₀ else s₁
  have hnext : ∀ p, ListRun (fun _ => 0) (s p) (s (p + 1)) := by
    intro p
    cases p with
    | zero => exact hrun
    | succ p => exact .init
  have h := listed_pages (fun _ => 0) Function.injective_id (rfl : s₀.tasks = []) s .init hnext
    (fun _ => 0)
    (fun _ _ => none) fun p => Arranged.sort _ _
  have hunlisted : isListed Insertions.three "Map________________________" = false := by
    decide +kernel
  exact ⟨s, hunlisted, hlisted, h.1, _, h.2⟩

end Dd2Server.Boards
