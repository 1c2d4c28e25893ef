import Dd2Server.Boards.Rules

/-!
# Listed maps

Transactions that insert standings, any number of them at once.  A map is listed when its public
leaderboard has reached its threshold.  The count of a trigger is right until its transaction ends:
who else inserts on the map waits for the advisory lock, or has seen that the map is listed.
-/

namespace Dd2Server.Boards

open ReadCommitted

/-! ## Transactions -/

/-- A transaction that inserts standings; `true` beside a row is `ON CONFLICT DO NOTHING`. -/
structure Insertion where
  rows : List (NewStanding × Bool)
  commits : Bool

def insertRows (hash : String → Int) (now : Time) (commits : Bool) :
    List (NewStanding × Bool) → Query SqlxError Unit
  | [] => if commits then (do commitQ; return ()) else return ()
  | (n, skip) :: rows => do
      n.insert hash skip now
      insertRows hash now commits rows

def Insertion.body (hash : String → Int) (j : Insertion) : Server (Except SqlxError Unit) :=
  (transaction do
    let now ← ExceptT.lift (.ask .now .ret)
    insertRows hash now j.commits j.rows : Query SqlxError Unit).run

/-! ## The public leaderboard -/

/-- The tables these transactions write. -/
def writtenTables : List Table := [.mapLeaderboard, .listedMaps]

/-- Every other table is as it was. -/
def Aside (db₀ v : Db) : Prop :=
  ∀ k : DbKey, k.table ∉ writtenTables → v.get k = db₀.get k

/-- The user stands on the map. -/
def Stands (v : Db) (userId : Uuid) (mapUid : String) : Prop :=
  (v.get ⟨.mapLeaderboard, (userId, mapUid)⟩).isSome

instance (v : Db) (userId : Uuid) (mapUid : String) : Decidable (Stands v userId mapUid) :=
  inferInstanceAs (Decidable ((v.get ⟨.mapLeaderboard, (userId, mapUid)⟩).isSome = true))

/-- The same users stand on the map. -/
def SameUsers (mapUid : String) (a b : Db) : Prop :=
  ∀ userId, Stands b userId mapUid ↔ Stands a userId mapUid

variable {db₀ a b c v v' : Db} {m : String} {now t₀ : Time}

theorem Aside.get (h : Aside db₀ v) {t : Table} (key : t.Key) (ht : t ∉ writtenTables) :
    v.get ⟨t, key⟩ = db₀.get ⟨t, key⟩ := h ⟨t, key⟩ ht

theorem Aside.isPublic (h : Aside db₀ v) (now : Time) (m : String) (u : Uuid) :
    isPublic v now m u = isPublic db₀ now m u := by
  have hshadow := h.get (t := .shadowBans) u (by decide)
  have hban := h.get (t := .mapBans) (m, u) (by decide)
  unfold Boards.isPublic
  rw [hshadow, hban]

theorem Aside.effectiveThreshold (h : Aside db₀ v) (m : String) :
    effectiveThreshold v m = effectiveThreshold db₀ m := by
  have hbind := h.get (t := .mapListingBind) m (by decide)
  have hspec : ∀ id, v.get ⟨.specs, id⟩ = db₀.get ⟨.specs, id⟩ := fun id =>
    h.get (t := .specs) id (by decide)
  unfold Boards.effectiveThreshold boundThreshold
  rw [hbind]
  simp only [hspec]

theorem mem_publicUsers {u : Uuid} :
    u ∈ publicUsers v now m ↔ Stands v u m ∧ isPublic v now m u = true := by
  unfold publicUsers Stands
  rw [Option.isSome_iff_exists]
  constructor
  · intro h
    obtain ⟨⟨u', m'⟩, hk, rfl⟩ := List.mem_map.1 h
    obtain ⟨hk, hc⟩ := List.mem_filter.1 hk
    obtain ⟨⟨k, r⟩, hr, rfl⟩ := List.mem_map.1 hk
    simp only [Bool.and_eq_true, decide_eq_true_eq] at hc
    obtain ⟨rfl, hpub⟩ := hc
    exact ⟨⟨r, Store.mem_rows.1 hr⟩, hpub⟩
  · rintro ⟨⟨r, hr⟩, hpub⟩
    refine List.mem_map.2 ⟨(u, m), List.mem_filter.2 ⟨?_, by simp [hpub]⟩, rfl⟩
    exact List.mem_map.2 ⟨((u, m), r), Store.mem_rows.2 hr, rfl⟩

theorem publicUsers_nodup (v : Db) (now : Time) (m : String) : (publicUsers v now m).Nodup := by
  unfold publicUsers
  refine List.Nodup.map_on ?_ ((v.rows_nodup .mapLeaderboard).filter _)
  rintro ⟨u, m'⟩ hk ⟨u', m''⟩ hk' rfl
  simp only [List.mem_filter, Bool.and_eq_true, decide_eq_true_eq] at hk hk'
  obtain ⟨-, rfl, -⟩ := hk
  obtain ⟨-, rfl, -⟩ := hk'
  rfl

/-- The count depends on who stands on the map and who is hidden. -/
theorem publicUsers_length (hs : SameUsers m a b)
    (hp : ∀ u, isPublic b now m u = isPublic a t₀ m u) :
    (publicUsers b now m).length = (publicUsers a t₀ m).length := by
  have hperm : (publicUsers b now m).Perm (publicUsers a t₀ m) := by
    refine (List.perm_ext_iff_of_nodup (publicUsers_nodup b now m)
      (publicUsers_nodup a t₀ m)).2 ?_
    intro u
    rw [mem_publicUsers, mem_publicUsers, hs u, hp u]
  exact hperm.length_eq

/-! ## What the transactions leave each other -/

/-- Enough public standings, and not listed. -/
def Missed (db₀ : Db) (t₀ : Time) (v : Db) (m : String) : Prop :=
  effectiveThreshold db₀ m ≤ (publicUsers v t₀ m).length ∧ isListed v m = false

/-- The row that says that a map is listed. -/
abbrev listing (v : Db) (m : String) : Option ListedMapRow := v.get ⟨.listedMaps, m⟩

/-- No row of `listed_maps` says that its map is not listed: only `TRUE` is ever written. -/
def AllListed (v : Db) : Prop := ∀ m r, listing v m = some r → r.listed = true

/-- Rows stay; those of `listed_maps` as they are. -/
structure Persists (a b : Db) : Prop where
  lists : ∀ m r, listing a m = some r → listing b m = some r
  stands : ∀ u m, Stands a u m → Stands b u m

/-- While somebody holds the advisory lock of a map nobody else stands there anew or lists it,
unless it is listed. -/
def Held (m : String) (a b : Db) : Prop :=
  isListed a m = true ∨ SameUsers m a b ∧ listing b m = listing a m

/-- The committed rows: a map where somebody stands anew is not missed. -/
structure Reviewed (db₀ : Db) (t₀ : Time) (v : Db) : Prop where
  aside : Aside db₀ v
  listed : AllListed v
  dd2 : listing v dd2MapUid = listing db₀ dd2MapUid
  checked : ∀ m, m ≠ dd2MapUid → SameUsers m db₀ v ∨ ¬Missed db₀ t₀ v m

theorem Persists.refl (a : Db) : Persists a a := ⟨fun _ _ h => h, fun _ _ h => h⟩

theorem Persists.trans (h : Persists a b) (h' : Persists b c) : Persists a c :=
  ⟨fun m r hr => h'.lists m r (h.lists m r hr), fun u m hs => h'.stands u m (h.stands u m hs)⟩

theorem isListed_eq_true : isListed v m = true ↔ ∃ r, listing v m = some r ∧
    r.listed = true := by
  simp [isListed, Option.any_eq_true]

theorem isListed_congr (h : listing b m = listing a m) : isListed b m = isListed a m :=
  congrArg (Option.any _) h

theorem Persists.stillListed (h : Persists a b) (hl : isListed a m = true) :
    isListed b m = true := by
  obtain ⟨r, hr, ht⟩ := isListed_eq_true.1 hl
  exact isListed_eq_true.2 ⟨r, h.lists m r hr, ht⟩

theorem SameUsers.refl (m : String) (a : Db) : SameUsers m a a := fun _ => .rfl

theorem SameUsers.trans (h : SameUsers m a b) (h' : SameUsers m b c) : SameUsers m a c :=
  fun u => (h' u).trans (h u)

theorem Held.refl (m : String) (a : Db) : Held m a a := .inr ⟨.refl m a, rfl⟩

theorem Held.trans (h : Held m a b) (h' : Held m b c) : Held m a c := by
  rcases h with h | ⟨hu, hl⟩
  · exact .inl h
  · rcases h' with h' | ⟨hu', hl'⟩
    · left
      rwa [← isListed_congr hl]
    · exact .inr ⟨hu.trans hu', hl'.trans hl⟩

section

variable (hash : String → Int) (db₀ : Db) (t₀ : Time)

def listingProtocol : Protocol Table.Key Table.Row where
  Inv := Reviewed db₀ t₀
  stay := Persists
  keep k a b := ∀ m, m ≠ dd2MapUid → k = ⟨.advisoryLocks, hash m⟩ → Held m a b
  stay_refl := .refl
  stay_trans h h' := h.trans h'
  keep_refl _ a m _ _ := .refl m a
  keep_trans h h' m hm hk := (h m hm hk).trans (h' m hm hk)

/-- Bans count the same in every transaction as they do at `t₀`. -/
def Steady : Tag → Db → Prop
  | .countPublic m now, _ => ∀ u, isPublic db₀ now m u = isPublic db₀ t₀ m u
  | _, _ => True

end

/-! ## Inside a transaction -/

/-- The advisory lock of a map. -/
def mapLock (hash : String → Int) (m : String) : Lock Table.Key :=
  ⟨⟨.advisoryLocks, hash m⟩, .update⟩

section

variable (hash : String → Int) (db₀ : Db) (t₀ : Time) (L : List (Lock Table.Key)) (db v : Db)

/-- What a transaction may have done to a map whose triggers have run. -/
inductive Checked (m : String) : Prop
  | dd2 (hm : m = dd2MapUid)
  | untouched (hs : SameUsers m db v)
  | listed (hl : isListed v m = true)
  | counted (hlock : mapLock hash m ∈ L) (hc : ¬Missed db₀ t₀ v m)

/-- A transaction at work; the trigger of the map `pending` is still to run. -/
structure Working (pending : Option String) : Prop where
  aside : Aside db₀ v
  listed : AllListed v
  dd2 : listing v dd2MapUid = listing db dd2MapUid
  persists : Persists db v
  kept : ∀ m, listing v m = listing db m ∨ mapLock hash m ∈ L ∧ listing db m = none
  checked : ∀ m, some m ≠ pending → Checked hash db₀ t₀ L db v m

end

variable {hash : String → Int} {L L' : List (Lock Table.Key)} {db db' : Db}
  {pending : Option String} {ws : List (Write Table.Key Table.Row)}

theorem Working.start (h : Reviewed db₀ t₀ db) : Working hash db₀ t₀ [] db db none where
  aside := h.aside
  listed := h.listed
  dd2 := rfl
  persists := .refl db
  kept _ := .inl rfl
  checked m _ := .untouched (.refl m db)

theorem Working.locks (h : Working hash db₀ t₀ L db v pending) (hL : ∀ x ∈ L, x ∈ L') :
    Working hash db₀ t₀ L' db v pending where
  aside := h.aside
  listed := h.listed
  dd2 := h.dd2
  persists := h.persists
  kept m := (h.kept m).imp id fun ⟨hlock, hn⟩ => ⟨hL _ hlock, hn⟩
  checked m hm := by
    cases h.checked m hm with
    | dd2 hm => exact .dd2 hm
    | untouched hs => exact .untouched hs
    | listed hl => exact .listed hl
    | counted hlock hc => exact .counted (hL _ hlock) hc

/-- The trigger of the pending map has run. -/
theorem Working.done (h : Working hash db₀ t₀ L db v (some m))
    (hm : Checked hash db₀ t₀ L db v m) : Working hash db₀ t₀ L db v none where
  aside := h.aside
  listed := h.listed
  dd2 := h.dd2
  persists := h.persists
  kept := h.kept
  checked m' _ := by
    rcases eq_or_ne m' m with rfl | hne
    · exact hm
    · exact h.checked m' (by simpa using hne)

theorem Missed.congr (hs : SameUsers m a b) (hl : listing b m = listing a m) (ha : Aside db₀ a)
    (hb : Aside db₀ b) (h : Missed db₀ t₀ b m) : Missed db₀ t₀ a m := by
  have hlen : (publicUsers b t₀ m).length = (publicUsers a t₀ m).length :=
    publicUsers_length hs fun u => by rw [ha.isPublic, hb.isPublic]
  obtain ⟨hcount, hun⟩ := h
  rw [hlen] at hcount
  rw [isListed_congr hl] at hun
  exact ⟨hcount, hun⟩

/-- A row of another map does not matter. -/
theorem Checked.congr (h : Checked hash db₀ t₀ L db v m) (hs : SameUsers m v v')
    (hl : listing v' m = listing v m) (hv : Aside db₀ v) (hv' : Aside db₀ v') :
    Checked hash db₀ t₀ L db v' m := by
  cases h with
  | dd2 hm => exact .dd2 hm
  | untouched hu => exact .untouched (hu.trans hs)
  | listed hlisted => exact .listed (by rwa [isListed_congr hl])
  | counted hlock hc => exact .counted hlock fun hmiss => hc (hmiss.congr hs hl hv hv')

theorem Aside.put (h : Aside db₀ v) {w : Write Table.Key Table.Row}
    (hw : w.row.table ∈ writtenTables) : Aside db₀ (v.put w) := by
  intro k hk
  have hne : w.row ≠ k := fun he => hk (he ▸ hw)
  exact (Store.get_put_of_ne hne).trans (h k hk)

/-- A new standing. -/
theorem Working.stood {u : Uuid} {r : StandingRow} (h : Working hash db₀ t₀ L db v none) :
    Working hash db₀ t₀ L db (v.put ⟨⟨.mapLeaderboard, (u, m)⟩, some r⟩) (some m) := by
  have hlisting : ∀ m', listing (v.put ⟨⟨.mapLeaderboard, (u, m)⟩, some r⟩) m' =
      listing v m' :=
    fun m' => Store.get_put_of_ne (by simp)
  have haside := h.aside.put (w := ⟨⟨.mapLeaderboard, (u, m)⟩, some r⟩)
    (by simp [writtenTables])
  have hstands : ∀ u' m', (u', m') ≠ (u, m) →
      (Stands (v.put ⟨⟨.mapLeaderboard, (u, m)⟩, some r⟩) u' m' ↔ Stands v u' m') := by
    intro u' m' hne
    rw [Stands, Stands, Store.get_put_of_ne (by simpa using Ne.symm hne)]
  refine ⟨haside, fun m' r' hr' => ?_, (hlisting _).trans h.dd2,
    ⟨fun m' r' hr' => ?_, ?_⟩, ?_, ?_⟩
  · exact h.listed m' r' ((hlisting m').symm.trans hr')
  · exact (hlisting m').trans (h.persists.lists m' r' hr')
  · intro u' m' hs
    by_cases he : (u', m') = (u, m)
    · cases he
      rw [Stands, Store.get_put_self]
      rfl
    · exact (hstands u' m' he).2 (h.persists.stands u' m' hs)
  · intro m'
    rw [hlisting]
    exact h.kept m'
  · intro m' hm'
    have hne : m' ≠ m := by simpa using hm'
    refine (h.checked m' (by simp)).congr (fun u' => hstands u' m' ?_) (hlisting m') h.aside haside
    simp [hne]

/-- A map becomes listed under its advisory lock. -/
theorem Working.list (h : Working hash db₀ t₀ L db v (some m)) (hm : m ≠ dd2MapUid)
    (hlock : mapLock hash m ∈ L) (hnone : listing db m = none) :
    Working hash db₀ t₀ L db (v.put ⟨⟨.listedMaps, m⟩,
      some { listed := true, becameListed := now }⟩)
      none := by
  have hself : listing
      (v.put ⟨⟨.listedMaps, m⟩, some { listed := true, becameListed := now }⟩) m =
      some { listed := true, becameListed := now } :=
        Store.get_put_self v ⟨.listedMaps, m⟩ (some _)
  have hother : ∀ m', m' ≠ m → listing
      (v.put ⟨⟨.listedMaps, m⟩, some { listed := true, becameListed := now }⟩) m' =
        listing v m' :=
    fun m' hne => Store.get_put_of_ne (by simpa using Ne.symm hne)
  have hstands : ∀ u' m', Stands
      (v.put ⟨⟨.listedMaps, m⟩, some { listed := true, becameListed := now }⟩) u' m' ↔
        Stands v u' m' := by
    intro u' m'
    rw [Stands, Stands, Store.get_put_of_ne (by simp)]
  have haside := h.aside.put
    (w := ⟨⟨.listedMaps, m⟩, some { listed := true, becameListed := now }⟩)
    (by simp [writtenTables])
  refine ⟨haside, fun m' r' hr' => ?_, (hother _ (Ne.symm hm)).trans h.dd2,
    ⟨fun m' r' hr' => ?_, fun u' m' hs => (hstands u' m').2 (h.persists.stands u' m' hs)⟩, ?_,
      ?_⟩
  · rcases eq_or_ne m' m with rfl | hne
    · cases hself.symm.trans hr'
      rfl
    · exact h.listed m' r' ((hother m' hne).symm.trans hr')
  · rcases eq_or_ne m' m with rfl | hne
    · cases hnone.symm.trans hr'
    · exact (hother m' hne).trans (h.persists.lists m' r' hr')
  · intro m'
    rcases eq_or_ne m' m with rfl | hne
    · exact .inr ⟨hlock, hnone⟩
    · rw [hother m' hne]
      exact h.kept m'
  · intro m' _
    rcases eq_or_ne m' m with rfl | hne
    · exact .listed (isListed_eq_true.2 ⟨_, hself, rfl⟩)
    · refine (h.checked m' (by simpa using hne)).congr (fun u' => hstands u' m') (hother m' hne)
        h.aside haside

/-- The commit of a transaction whose triggers have run. -/
theorem Working.guarantee (h : Working hash db₀ t₀ L db v none) (hdb : Reviewed db₀ t₀ db) :
    Guarantee (listingProtocol hash db₀ t₀) L db v := by
  have hchecked : ∀ m, m ≠ dd2MapUid → SameUsers m db v ∨ ¬Missed db₀ t₀ v m := by
    intro m hm
    cases h.checked m (by simp) with
    | dd2 he => exact absurd he hm
    | untouched hs => exact .inl hs
    | listed hl => exact .inr fun hmiss => by rw [hmiss.2] at hl; cases hl
    | counted _ hc => exact .inr hc
  refine ⟨⟨h.aside, h.listed, h.dd2.trans hdb.dd2, fun m hm => ?_⟩, h.persists, fun k => ?_⟩
  · rcases hchecked m hm with hs | hc
    · rcases hdb.checked m hm with hs₀ | hc₀
      · exact .inl (hs₀.trans hs)
      · refine .inr fun hmiss => hc₀ ?_
        have hun : isListed db m = false := by
          by_contra hl
          have := h.persists.stillListed (Bool.eq_true_of_not_eq_false hl)
          rw [hmiss.2] at this
          cases this
        have hlen : (publicUsers v t₀ m).length = (publicUsers db t₀ m).length :=
          publicUsers_length hs fun u => by rw [h.aside.isPublic, hdb.aside.isPublic]
        exact ⟨hlen ▸ hmiss.1, hun⟩
    · exact .inr hc
  · by_cases hk : ∃ m, k = ⟨.advisoryLocks, hash m⟩ ∧ mapLock hash m ∈ L
    · obtain ⟨m, rfl, hlock⟩ := hk
      exact .inl ⟨mapLock hash m, hlock, rfl, by simp [mapLock]⟩
    · refine .inr fun m hm he => ?_
      have hfree : mapLock hash m ∉ L := fun hlock => hk ⟨m, he, hlock⟩
      have hl : listing v m = listing db m := (h.kept m).resolve_right fun hr => hfree hr.1
      cases h.checked m (by simp) with
      | dd2 he => exact absurd he hm
      | untouched hs => exact .inr ⟨hs, hl⟩
      | listed hlisted => exact .inl (by rwa [← isListed_congr hl])
      | counted hlock _ => exact absurd hlock hfree

/-! ## The trigger -/

/-- A row of `listed_maps` stays in the view of a transaction. -/
theorem Persists.view (h : Persists db db') {r : ListedMapRow}
    (hr : listing (Store.view ws db) m = some r) : listing (Store.view ws db') m = some r :=
  Store.view_get_shrink (h.lists m r) hr

theorem Persists.view_isListed (h : Persists db db') (hl : isListed (Store.view ws db) m = true) :
    isListed (Store.view ws db') m = true := by
  obtain ⟨r, hr, ht⟩ := isListed_eq_true.1 hl
  exact isListed_eq_true.2 ⟨r, h.view hr, ht⟩

theorem SameUsers.view (h : SameUsers m db db') :
    SameUsers m (Store.view ws db) (Store.view ws db') := by
  intro u
  by_cases hw : ∃ w ∈ ws, w.row = (⟨.mapLeaderboard, (u, m)⟩ : DbKey)
  · rw [Stands, Stands, Store.view_get_of_mem db' db hw]
  · have hn : ∀ w ∈ ws, w.row ≠ (⟨.mapLeaderboard, (u, m)⟩ : DbKey) :=
      fun w hm e => hw ⟨w, hm, e⟩
    rw [Stands, Stands, Store.view_get_of_notMem db' hn, Store.view_get_of_notMem db hn]
    exact h u

section

variable {since : Log}

/-- Nothing is asked of the log. -/
abbrev anyError : SqlxError → Known := fun _ _ _ => True

abbrev anyResult {α : Type} : α → Known := fun _ _ _ => True

abbrev listingSetting (hash : String → Int) (db₀ : Db) (t₀ : Time) :
    Setting Table.Key Table.Row Tag Ask.Ans Act.Out :=
  setting (listingProtocol hash db₀ t₀) (Steady db₀ t₀) { commit := fun _ _ _ => True }

theorem anyError_trouble : OnTrouble since anyError := fun _ _ _ _ _ => trivial

/-- The trigger asks whether the map is listed. -/
theorem selectListed_triple {fn : String} :
    Triple (listingSetting hash db₀ t₀) since anyError L
      (fun db v => Working hash db₀ t₀ L db v (some m))
      (sql (selectAs (.named fn) fun v => isListed v m)) (fun _ => L)
      (fun listed db v => Working hash db₀ t₀ L db v (some m) ∧
        (listed = true → isListed v m = true)) := by
  refine select_triple anyError_trouble fun ws db _ _ _ db' hr hA' => ⟨hA', fun hl => ?_⟩
  exact Persists.view_isListed hr.stay hl

theorem selectThreshold_triple {fn : String} :
    Triple (listingSetting hash db₀ t₀) since anyError L
      (fun db v => Working hash db₀ t₀ L db v (some m))
      (sql (selectAs (.named fn) fun v => effectiveThreshold v m)) (fun _ => L)
      (fun thresh db v =>
        Working hash db₀ t₀ L db v (some m) ∧ thresh = effectiveThreshold db₀ m) := by
  refine select_triple anyError_trouble fun ws db _ hA _ db' _ hA' => ⟨hA', ?_⟩
  exact hA.aside.effectiveThreshold m

/-- Under the advisory lock the count stays right, unless the map is listed. -/
theorem countPublic_triple (hm : m ≠ dd2MapUid) (hlock : mapLock hash m ∈ L) {thresh : Int} :
    Triple (listingSetting hash db₀ t₀) since anyError L
      (fun db v => Working hash db₀ t₀ L db v (some m) ∧ thresh = effectiveThreshold db₀ m)
      (sql (selectAs (.countPublic m now) fun v => (publicUsers v now m).length)) (fun _ => L)
      (fun count db v => Working hash db₀ t₀ L db v (some m) ∧
        (count < thresh → Checked hash db₀ t₀ L db v m)) := by
  refine select_triple anyError_trouble fun ws db _ hA hsteady db' hr hA' => ⟨hA'.1,
    fun hlt => ?_⟩
  have hheld : Held m db db' := hr.keep _ hlock rfl m hm rfl
  rcases hheld with hl | ⟨hs, -⟩
  · have hl' : isListed db m = true := hl
    exact .listed (hA'.1.persists.stillListed (Persists.stillListed hr.stay hl'))
  · refine .counted hlock fun hmiss => ?_
    have hpub : ∀ u, isPublic (Store.view ws db) now m u =
        isPublic (Store.view ws db') t₀ m u := by
      intro u
      rw [hA.1.aside.isPublic, hA'.1.aside.isPublic]
      exact hsteady u
    have hsame : SameUsers m (Store.view ws db') (Store.view ws db) := fun u => (hs.view u).symm
    have hlen : (publicUsers (Store.view ws db) now m).length =
        (publicUsers (Store.view ws db') t₀ m).length := publicUsers_length hsame hpub
    have hle := hmiss.1
    rw [← hlen] at hle
    rw [hA.2] at hlt
    omega

theorem insertListed_working (hm : m ≠ dd2MapUid) (hlock : mapLock hash m ∈ L) :
    Triple (listingSetting hash db₀ t₀) since anyError L
      (fun db v => Working hash db₀ t₀ L db v (some m)) (sql (insertListedStmt m now))
        (fun _ => L)
      (fun _ db v => Working hash db₀ t₀ L db v none) := by
  refine sql_triple anyError_trouble fun ws db e a _ hA _ hrun => ?_
  refine ⟨fun x hx => List.mem_append_right _ hx, fun db' hr hA' => ?_⟩
  simp only [insertListedStmt] at hrun
  split at hrun
  case h_1 r hrow =>
    cases hrun
    refine hA'.done (.listed (Persists.view_isListed hr.stay ?_))
    exact isListed_eq_true.2 ⟨r, hrow, hA.listed m r hrow⟩
  case h_2 hnone =>
    split at hrun
    case isFalse => cases hrun
    case isTrue =>
      cases hrun
      refine hA'.list hm hlock ?_
      have hdb : db.get ⟨.listedMaps, m⟩ = none := by
        cases hget : db.get ⟨.listedMaps, m⟩ with
        | none => rfl
        | some r => cases hnone.symm.trans (hA.persists.lists m r hget)
      refine (hr.row ⟨⟨.listedMaps, m⟩, .update⟩ ?_ (by simp)).trans hdb
      simp [Effect.allLocks, Write.lock, hnone]

/-- The trigger runs, and what comes after it. -/
theorem mapLeaderboardMaybeList_ends {f : Query SqlxError Unit}
    (hf : ∀ L', (∀ x ∈ L, x ∈ L') →
      Ends (listingSetting hash db₀ t₀) since anyError L'
      (fun db v => Working hash db₀ t₀ L' db v none) f anyResult) :
    Ends (listingSetting hash db₀ t₀) since anyError L
      (fun db v => Working hash db₀ t₀ L db v (some m))
      (mapLeaderboardMaybeList hash m now >>= fun _ => f) anyResult := by
  have hdone : ∀ {A : Assertion Table.Key Table.Row} L', (∀ x ∈ L, x ∈ L') →
      (∀ db v, A db v → Working hash db₀ t₀ L' db v none) →
      Ends (listingSetting hash db₀ t₀) since anyError L' A
        (pure () >>= fun _ => f) anyResult := by
    intro A L' hL hA
    rw [pure_bind]
    exact (hf L' hL).pre fun db v _ h => hA db v h
  rw [mapLeaderboardMaybeList]
  split
  case isTrue hm => exact hdone L (fun _ hx => hx) fun db v h => h.done (.dd2 hm)
  case isFalse hm =>
  rw [bind_assoc]
  refine Ends.bind selectListed_triple fun listed => ?_
  split
  case isTrue hl => exact hdone L (fun _ hx => hx) fun db v h => h.1.done (.listed (h.2 hl))
  case isFalse =>
  rw [bind_assoc]
  refine Ends.bind (advisoryLock_triple anyError_trouble) fun _ => ?_
  have hL : ∀ x ∈ L, x ∈ mapLock hash m :: L := fun _ hx => List.mem_cons_of_mem _ hx
  have hlock : mapLock hash m ∈ mapLock hash m :: L := List.mem_cons_self ..
  refine Ends.pre ?_ fun db v _ h => h.1.locks hL
  rw [bind_assoc]
  refine Ends.bind selectListed_triple fun listed => ?_
  split
  case isTrue hl => exact hdone _ hL fun db v h => h.1.done (.listed (h.2 hl))
  case isFalse =>
  refine Ends.pre ?_ fun db v _ h => h.1
  rw [bind_assoc]
  refine Ends.bind selectThreshold_triple fun thresh => ?_
  rw [bind_assoc]
  refine Ends.bind (countPublic_triple hm hlock) fun count => ?_
  split
  case isTrue =>
    refine Ends.pre ?_ fun db v _ h => h.1
    exact Ends.bind (insertListed_working hm hlock) fun _ => hf _ hL
  case isFalse hlt => exact hdone _ hL fun db v h => h.1.done (h.2 (by omega))

theorem standing_triple {n : NewStanding} {skip : Bool} :
    Triple (listingSetting hash db₀ t₀) since anyError L
      (fun db v => Working hash db₀ t₀ L db v none) (sql (n.stmt skip now)) (fun _ => L)
      (fun inserted db v =>
        Working hash db₀ t₀ L db v (if inserted then some n.mapUid else none)) := by
  refine sql_triple anyError_trouble fun ws db e a _ _ _ hrun => ?_
  refine ⟨fun x hx => List.mem_append_right _ hx, fun db' _ hA' => ?_⟩
  simp only [NewStanding.stmt] at hrun
  split at hrun
  case h_1 =>
    split at hrun <;> cases hrun
    exact hA'
  case h_2 =>
    split at hrun <;> cases hrun
    exact hA'.stood

theorem insertRows_ends (commits : Bool) (rows : List (NewStanding × Bool)) :
    Ends (listingSetting hash db₀ t₀) since anyError L
      (fun db v => Reviewed db₀ t₀ db ∧ Working hash db₀ t₀ L db v none)
      (insertRows hash now commits rows) anyResult := by
  induction rows generalizing L with
  | nil =>
      rw [insertRows]
      split
      · refine Ends.commit ?_ ?_ ?_ ?_
        · exact fun _ _ _ _ => trivial
        · exact fun db v _ h => h.2.guarantee h.1
        · exact fun _ _ _ _ _ _ => trivial
        · exact fun _ _ _ _ _ _ _ _ => trivial
      · exact Ends.pure fun _ _ _ _ _ _ _ _ => trivial
  | cons row rows ih =>
      obtain ⟨n, skip⟩ := row
      rw [insertRows, NewStanding.insert, bind_assoc]
      refine Ends.pre ?_ fun db v _ h => h.2
      refine Ends.bind standing_triple fun inserted => ?_
      cases inserted with
      | true =>
          exact mapLeaderboardMaybeList_ends fun L' _ => ih.pre fun db v hinv h => ⟨hinv, h⟩
      | false =>
          simp only [Bool.false_eq_true, if_false, pure_bind]
          exact ih.pre fun db v hinv h => ⟨hinv, h⟩

theorem Insertion.safe (j : Insertion) {db : Db} (hdb : Reviewed db₀ t₀ db) :
    Safe (listingProtocol hash db₀ t₀) (Steady db₀ t₀) { commit := fun _ _ _ => True }
      (fun _ _ _ => True) (j.body hash) {} db := by
  have hpool : Pool (listingSetting hash db₀ t₀) anyError (fun _ _ => True)
      (transaction do
        let now ← ExceptT.lift (.ask .now .ret)
        insertRows hash now j.commits j.rows : Query SqlxError Unit) anyResult := by
    refine Pool.transaction fun since db₁ _ _ => Ends.ask fun log now _ => ?_
    refine (insertRows_ends j.commits j.rows).pre fun db v hinv hA => ?_
    rw [hA.1]
    exact ⟨hinv, .start hinv⟩
  exact (hpool {} db hdb rfl rfl fun _ _ => trivial).post fun _ _ _ _ => trivial

end

/-! ## All runs -/

/-- Any number of transactions on a database. -/
abbrev Insertions :=
  Sys Table.Key Table.Row Tag Ask.Ans Act.Out Unit Insertion (Except SqlxError Unit)

namespace Insertions

/-- A database, and no transaction. -/
def on (db : Db) : Insertions where
  db := db
  mem := ()

/-- The states of all interleavings in which no ban comes, goes or expires. -/
abbrev Run (hash : String → Int) (db₀ : Db) (t₀ : Time) (s s' : Insertions) : Prop :=
  Reach shared (Insertion.body hash) (Steady db₀ t₀) s s'

variable {s s' : Insertions}

theorem reviewed_start (hlisted : AllListed db₀) : Reviewed db₀ t₀ db₀ where
  aside _ _ := rfl
  listed := hlisted
  dd2 := rfl
  checked m _ := .inl (.refl m db₀)

theorem sound (hlisted : AllListed db₀) (h : Run hash db₀ t₀ (on db₀) s) :
    Sound (listingProtocol hash db₀ t₀) (Steady db₀ t₀)
      (fun _ => { commit := fun _ _ _ => True }) (fun _ _ _ _ => True) s := by
  have hinv : (listingProtocol hash db₀ t₀).Inv (on db₀).db := reviewed_start hlisted
  exact h.sound (fun j _ hdb => j.safe hdb) hinv rfl

/-- A map on which somebody stands anew is listed when its public leaderboard has reached the
threshold.  No map is taken off the list or listed again, and Deep Dip 2 is left as it was. -/
theorem listing_complete (hash : String → Int) (db₀ : Db) (t₀ : Time)
    (hlisted : AllListed db₀) (s : Insertions) (h : Run hash db₀ t₀ (on db₀) s) :
    (∀ m u, m ≠ dd2MapUid → Stands s.db u m → ¬Stands db₀ u m →
      effectiveThreshold s.db m ≤ (publicUsers s.db t₀ m).length → isListed s.db m = true) ∧
    (∀ s' m r, Run hash db₀ t₀ s s' → listing s.db m = some r →
      listing s'.db m = some r) ∧
    listing s.db dd2MapUid = listing db₀ dd2MapUid := by
  have hsound := sound hlisted h
  have hrev : Reviewed db₀ t₀ s.db := hsound.inv
  refine ⟨fun m u hm hs hs₀ hle => ?_, fun s' m r h' hr => ?_, hrev.dd2⟩
  · rcases hrev.checked m hm with hsame | hmiss
    · exact absurd ((hsame u).1 hs) hs₀
    · by_contra hun
      rw [hrev.aside.effectiveThreshold] at hle
      exact hmiss ⟨hle, Bool.eq_false_of_not_eq_true hun⟩
  · exact (h'.stays (fun j _ hdb => j.safe hdb) hsound).2.lists m r hr

/-- A map with three standings, bound to a spec with a threshold of five. -/
def three : Db :=
  Store.view
    [⟨⟨.mapListingBind, "Map________________________"⟩,
        some ⟨7, some (1, 0), none⟩⟩,
      ⟨⟨.specs, 7⟩, some ⟨1, "race", "", 0, 0, 0, 5⟩⟩,
      ⟨⟨.mapLeaderboard, (1, "Map________________________")⟩,
        some ⟨0, ⟨0, 0, 0⟩, 0, 0, 0⟩⟩,
      ⟨⟨.mapLeaderboard, (2, "Map________________________")⟩,
        some ⟨1, ⟨0, 1, 0⟩, 0, 0, 0⟩⟩,
      ⟨⟨.mapLeaderboard, (3, "Map________________________")⟩,
        some ⟨2, ⟨0, 2, 0⟩, 0, 0, 0⟩⟩] .empty

/-- The clock stands still. -/
def still : Tag → Db → Prop
  | .countPublic _ now, _ => now = (0 : Int)
  | _, _ => True

instance : ∀ tag v, Decidable (still tag v)
  | .countPublic _ now, _ => inferInstanceAs (Decidable (now = (0 : Int)))
  | .named _, _ | .insertStanding .., _ | .raisePb .., _ | .insertPb _, _ | .archivePb .., _ =>
      .isTrue trivial

/-- The first transaction counts four and is still open when the second one inserts; the second one
waits for its lock, and lists the map. -/
def crossing : List (Move Ask.Ans Insertion) :=
  let stand (u : Uuid) : Insertion :=
    ⟨[(⟨"Map________________________", u, ⟨0, 3, 0⟩, 3, 0⟩, false)], true⟩
  let clock (i : Nat) : Move Ask.Ans Insertion := .run i (.answer fun | .now => (0 : Int))
  let steps (i n : Nat) : List (Move Ask.Ans Insertion) := List.replicate n (.run i .proceed)
  .start (stand 4) :: .start (stand 5) :: clock 0 :: steps 0 6 ++ clock 1 ::
    steps 1 2 ++ steps 0 2 ++
    steps 1 7

theorem listing_complete_crossing : ∃ s, Run (fun _ => 0) three 0 (on three) s ∧
    isListed s.db "Map________________________" = true := by
  obtain ⟨s, hs, hstands, hcount⟩ : ∃ s, ReachBy shared (Insertion.body fun _ => 0)
      (fun s m => s.Admits still m) (on three) s ∧ Stands s.db 5 "Map________________________" ∧
      effectiveThreshold s.db "Map________________________" ≤
        (publicUsers s.db 0 "Map________________________").length :=
    ReachBy.played crossing (by decide +kernel)
  have hsteady : ∀ tag v, still tag v → Steady three 0 tag v := by
    intro tag v h
    cases tag with
    | countPublic m now =>
        obtain rfl : now = (0 : Int) := h
        exact fun _ => rfl
    | _ => trivial
  have hrun : Run (fun _ => 0) three 0 (on three) s := hs.reach fun s m hm => hm.mono hsteady
  have hlisted : AllListed three := by
    intro m r hr
    have hnone : listing three m = none := Store.view_get_of_notMem _ (by simp)
    cases hnone.symm.trans hr
  have hfirst := (listing_complete (fun _ => 0) three 0 hlisted s hrun).1
  exact ⟨s, hrun, hfirst _ 5 (by decide) hstands (by decide +kernel) hcount⟩

end Insertions

end Dd2Server.Boards
