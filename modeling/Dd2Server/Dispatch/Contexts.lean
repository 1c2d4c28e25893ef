import Dd2Server.Dispatch.World
import Dd2Server.Player.ContextFlags
import Dd2Server.Server2.Connection

/-!
# Context reports

A client names the flags of its context by hex numbers, and the map by a hash that may be any text.
The read loop slices both texts at fixed bytes and adds up two counts.  It panics where a slice ends
past the text or inside of a character, and in a debug build where the sum overflows.
-/

namespace Dd2Server

namespace Text

/-- The text before a byte and from it on, unless it is past the end or inside of a character. -/
def splitAtByte : Nat → List Char → Option (List Char × List Char)
  | 0, cs => some ([], cs)
  | _ + 1, [] => none
  | n + 1, c :: cs =>
      if c.utf8Size ≤ n + 1 then (splitAtByte (n + 1 - c.utf8Size) cs).map
        fun (before, rest) => (c :: before, rest)
      else none

/-- A character of the text ends at the byte. -/
def CharBoundary (s : String) (n : Nat) : Prop :=
  ∃ before, before <+: s.toList ∧ (before.map Char.utf8Size).sum = n

theorem splitAtByte_isSome {n : Nat} {cs : List Char} :
    (splitAtByte n cs).isSome ↔ ∃ before, before <+: cs ∧
    (before.map Char.utf8Size).sum = n := by
  induction cs generalizing n with
  | nil =>
      cases n with
      | zero => exact iff_of_true rfl ⟨[], List.prefix_rfl, rfl⟩
      | succ n =>
          refine iff_of_false Bool.false_ne_true ?_
          rintro ⟨before, hprefix, hsum⟩
          rw [List.prefix_nil.1 hprefix] at hsum
          cases hsum
  | cons c cs ih =>
      cases n with
      | zero => exact iff_of_true rfl ⟨[], List.nil_prefix, rfl⟩
      | succ n =>
          rw [splitAtByte]
          constructor
          · intro h
            split at h
            case isTrue hle =>
              rw [Option.isSome_map] at h
              obtain ⟨before, hprefix, hsum⟩ := ih.1 h
              refine ⟨c :: before, List.cons_prefix_cons.2 ⟨rfl, hprefix⟩, ?_⟩
              rw [List.map_cons, List.sum_cons, hsum]
              omega
            case isFalse => cases h
          · rintro ⟨before, hprefix, hsum⟩
            cases before with
            | nil => cases hsum
            | cons c' before =>
                obtain ⟨rfl, hrest⟩ := List.cons_prefix_cons.1 hprefix
                rw [List.map_cons, List.sum_cons] at hsum
                rw [if_pos (by omega), Option.isSome_map]
                exact ih.2 ⟨before, hrest, by omega⟩

instance (s : String) (n : Nat) : Decidable (CharBoundary s n) :=
  decidable_of_iff _ splitAtByte_isSome

end Text

namespace Dispatch

open Machine PlayerStats

/-! ## Reading a report -/

/-- `parse_u64_str`, `none` where a slice panics. -/
def parseU64Str (s : String) : Option (Option (BitVec 64)) := do
  let (before, rest) ← Text.splitAtByte 2 s.toList
  let digits := if before = ['0', 'x'] then rest else s.toList
  return (Text.fromStrRadix 16 (2 ^ 64) digits).map (BitVec.ofNat 64)

/-- `hex::decode`. -/
def hexDecode : List Char → Option (List UInt8)
  | [] => some []
  | [_] => none
  | a :: b :: cs => do
      let x ← Text.digitOf 16 a
      let y ← Text.digitOf 16 b
      let rest ← hexDecode cs
      return UInt8.ofNat (16 * x + y) :: rest

/-- The bytes of the first `hash.len().min(32)` bytes, `none` where the slice panics. -/
def first32 (hash : String) : Option (List UInt8) :=
  (Text.splitAtByte (min (Text.byteLen hash) 32) hash.toList).map fun (before, _) =>
    before.flatMap String.utf8EncodeChar

/-- `decode_map_hash`, `none` where a slice panics. -/
def decodeMapHash (hash : String) : Option (List UInt8) :=
  if Text.byteLen hash = 64 then
    match hexDecode hash.toList with
    | some h => some h
    | none => first32 hash
  else first32 hash

/-- The texts that `parse_u64_str` reads. -/
theorem parseU64Str_isSome {s : String} : (parseU64Str s).isSome ↔ Text.CharBoundary s 2 := by
  rw [Text.CharBoundary, ← Text.splitAtByte_isSome]
  cases h : Text.splitAtByte 2 s.toList with
  | none => simp [parseU64Str, h]
  | some r => simp [parseU64Str, h]

theorem first32_isSome {hash : String} :
    (first32 hash).isSome ↔ Text.CharBoundary hash (min (Text.byteLen hash) 32) := by
  rw [first32, Option.isSome_map]
  exact Text.splitAtByte_isSome

theorem utf8Size_of_digitOf {c : Char} {d : Nat} (h : Text.digitOf 16 c = some d) :
    c.utf8Size = 1 := by
  have hc : c.toNat ≤ 127 := by
    by_contra hno
    have hdigit : ¬(0x30 ≤ c.toNat ∧ c.toNat ≤ 0x39) := by omega
    have hlower : ¬(0x61 ≤ c.toNat ∧ c.toNat ≤ 0x7A) := by omega
    have hupper : ¬(0x41 ≤ c.toNat ∧ c.toNat ≤ 0x5A) := by omega
    simp only [Text.digitOf, if_neg hdigit, if_neg hlower, if_neg hupper, Nat.lt_irrefl, if_false]
      at h
    cases h
  exact Char.utf8Size_eq_one_iff.2 (UInt32.le_iff_toNat_le.2 hc)

theorem utf8Size_of_hexDecode {cs : List Char} (h : (hexDecode cs).isSome) :
    ∀ c ∈ cs, c.utf8Size = 1 := by
  induction cs using hexDecode.induct with
  | case1 => simp
  | case2 c => cases h
  | case3 a b cs ih =>
      simp only [hexDecode, Option.bind_eq_bind, Option.isSome_bind] at h
      cases ha : Text.digitOf 16 a with
      | none => simp [ha] at h
      | some x =>
          cases hb : Text.digitOf 16 b with
          | none => simp [ha, hb] at h
          | some y =>
              have hrest : (hexDecode cs).isSome := by
                cases hcs : hexDecode cs with
                | none => simp [ha, hb, hcs] at h
                | some rest => rfl
              intro c hc
              rcases List.mem_cons.1 hc with rfl | hc
              · exact utf8Size_of_digitOf ha
              · rcases List.mem_cons.1 hc with rfl | hc
                · exact utf8Size_of_digitOf hb
                · exact ih hrest c hc

/-- The digits of a hash are single bytes, so that the slice would not panic on them either. -/
theorem charBoundary_of_hexDecode {hash : String} (h : (hexDecode hash.toList).isSome) (n : Nat) :
    Text.CharBoundary hash (min (Text.byteLen hash) n) := by
  have hone := utf8Size_of_hexDecode h
  have hsum : ∀ cs : List Char, (∀ c ∈ cs, c.utf8Size = 1) →
      (cs.map Char.utf8Size).sum = cs.length := by
    intro cs hcs
    rw [List.map_congr_left hcs, List.map_const', List.sum_replicate_nat, Nat.mul_one]
  refine ⟨hash.toList.take n, List.take_prefix .., ?_⟩
  rw [hsum _ fun c hc => hone c (List.mem_of_mem_take hc), List.length_take, Text.byteLen,
    hsum _ hone, min_comm]

/-- The hashes that `decode_map_hash` reads. -/
theorem decodeMapHash_isSome {hash : String} :
    (decodeMapHash hash).isSome ↔ Text.CharBoundary hash (min (Text.byteLen hash) 32) := by
  unfold decodeMapHash
  split
  case isTrue =>
    cases h : hexDecode hash.toList with
    | some bytes => exact iff_of_true rfl (charBoundary_of_hexDecode (by rw [h]; rfl) 32)
    | none => exact first32_isSome
  case isFalse => exact first32_isSome

/-! ## What the read loop keeps of a connection -/

/-- The context that a client reported. -/
structure PlayerCtx where
  sf : BitVec 64
  mi : BitVec 64
  map : Option Map
  i : Bool
  e : Option Bool
  /-- What `is_official` found, once it was asked. -/
  isOfficial : Option Bool := none

/-- The user that is logged in. -/
structure LoginSession where
  userId : Uuid
  displayName : String
  sessionToken : Uuid

structure Connection where
  ctx : Option PlayerCtx := none
  ctxId : Option Uuid := none
  previousCtxId : Option Uuid := none
  loop : Server2.ReadLoop := {}
  lastPingMapUid : Option String := none

/-- What a request comes to, with the connection after it. -/
abbrev Arm := Coroutine Question (Except Error Unit × Connection)

def Map.isDd2 (m : Map) : Bool := (Text.stripPrefix dd2MapUid.toList m.uid.toList).isSome

/-- `is_official`, with the context that remembers it, and `none` where it panics. -/
def PlayerCtx.official (c : PlayerCtx) : Option (Bool × PlayerCtx) :=
  match c.isOfficial with
  | some v => some (v, c)
  | none => do
      let ans ← if c.e.getD false then some false
        else (Player.checkFlagsSfMi c.sf.toNat c.mi.toNat).map fun flags => flags &&
          c.map.any Map.isDd2
      return (ans, { c with isOfficial := some ans })

/-- `ctx.map(|c| c.is_official()).unwrap_or(false)`. -/
def Connection.official (conn : Connection) : Coroutine Question (Bool × Connection) :=
  match conn.ctx with
  | none => return (false, conn)
  | some c => do
      let (v, c) ← .unwrap c.official
      return (v, { conn with ctx := some c })

section

variable (b : Build) (pg : Pg) (c : Nat) (s : LoginSession) (conn : Connection)

def insertContext (sessionToken : Uuid) (flags : Fin 15 → Bool) (flagsRaw : BitVec 64)
    (hasVlItem : Bool) (mapId : Option Int) (managers : BitVec 64) (bi : BitVec 32 × BitVec 32)
    (predecessor : Option Uuid) (editor : Option Bool) : Handler Error Uuid := do
  let biCount ← ExceptT.lift (checked b (addS bi.1 bi.2))
  query (.insertContext
    { sessionToken, flags, flagsRaw, hasVlItem, mapId, managers, blockCount := bi.1,
      itemCount := bi.2, biCount, predecessor, editor })

def insertContextPacked (context : PlayerCtx) (prior : Option Uuid) (mapId : Option Int)
    (bi : BitVec 32 × BitVec 32) (editor : Option Bool) : Handler Error Uuid := do
  let flags ← ExceptT.lift (.unwrap (Player.decodeContextFlags context.sf.toNat))
  insertContext b s.sessionToken flags context.sf context.i mapId context.mi bi prior editor

def getOrInsertMap (map : Map) : Handler Error Int := do
  let hash ← ExceptT.lift (.unwrap (decodeMapHash map.hash))
  query (.getOrInsertMap map.uid map.name hash)

/-- The row of a context, linked to the one before. -/
def linkedContext (context : PlayerCtx) (prior : Option Uuid) (mapId : Option Int)
    (bi : BitVec 32 × BitVec 32) :
    Handler Error Uuid := do
  let newId ← insertContextPacked b s context prior mapId bi context.e
  match prior with
  | some prior =>
      query (.contextMarkSucceeded prior newId)
      return newId
  | none => return newId

def newContext (context : PlayerCtx) (prior : Option Uuid) (bi : BitVec 32 × BitVec 32) :
    Handler Error Uuid :=
  match context.map with
  | some map => do
      let mapId ← getOrInsertMap map
      linkedContext b s context prior (some mapId) bi
  | none => linkedContext b s context prior none bi

def updateContext (sf mi : BitVec 64) (map : Option Map) (hasVlItem : Bool)
    (bi : BitVec 32 × BitVec 32) (editorExists : Option Bool) : Arm := do
  let conn := { conn with previousCtxId := conn.ctxId <|> conn.previousCtxId }
  let newCtx : PlayerCtx := { sf, mi, map, i := hasVlItem, e := editorExists }
  match ← result (newContext b s newCtx conn.previousCtxId bi) with
  | .ok newId => return (.ok (), { conn with ctx := some newCtx, ctxId := some newId })
  | .error e => return (.error e, conn)

/-- What follows a context that was stored: the player may have left the tracked map. -/
def contextStored (contextUid : Option String) : Coroutine Question Connection := do
  let (contextMapUid, changed) := Server2.updateLastMap conn.loop.contextMapUid contextUid
  if changed then
    let r ← result (runWayfinder
      (Server2.applyContextMapChange pg c s.userId s.displayName conn.loop.wayfinderMapUid
      contextUid : Dd2Server.Query Empty _))
    match r with
    | .ok (tracked, _) => return { conn with loop := { contextMapUid, wayfinderMapUid := tracked } }
    | .error e => e.elim
  else return conn

def reportContext (sf mi : String) (map : Option Map) (i : Option Bool)
    (bi : BitVec 32 × BitVec 32) (e : Option Bool) : Arm := do
  let sfRead ← .unwrap (parseU64Str sf)
  let miRead ← .unwrap (parseU64Str mi)
  match sfRead, miRead with
  | some sf, some mi =>
      let (r, conn) ← updateContext b s conn sf mi map (i.getD false) bi e
      match r with
      | .ok () => return (.ok (), ← contextStored pg c s conn (map.map Map.uid))
      | .error e => return (.error e, conn)
  | _, _ => return (.error (.strErr ("Invalid sf/mi: " ++ sf ++ "/" ++ mi)), conn)

end

/-! ## Which reports are read -/

/-- The text is a hexadecimal `u64` to `parse_u64_str`. -/
def IsU64 (s : String) : Prop := (parseU64Str s).join.isSome

instance (s : String) : Decidable (IsU64 s) := inferInstanceAs (Decidable (_ = true))

/-- The two numbers can be sliced, and if they are numbers the hash can be, and a debug build adds
up the counts. -/
structure ReadableContext (b : Build) (sf mi : String) (map : Option Map)
    (bi : BitVec 32 × BitVec 32) : Prop where
  slicedSf : Text.CharBoundary sf 2
  slicedMi : Text.CharBoundary mi 2
  hash : IsU64 sf → IsU64 mi → ∀ m ∈ map, Text.CharBoundary m.hash
    (min (Text.byteLen m.hash) 32)
  counts : IsU64 sf → IsU64 mi → b = .debug → FitsS 32 (bi.1.toInt + bi.2.toInt)

section

open Coroutine

variable {b : Build} {pg : Pg} {c : Nat} {s : LoginSession} {conn : Connection}

theorem decodeContextFlags_isSome (flags : Nat) : (Player.decodeContextFlags flags).isSome := by
  by_cases hflags : flags = 0
  · rw [Player.decodeContextFlags, if_pos hflags]
    rfl
  · obtain ⟨plain, hplain, -⟩ := Player.decodeContextFlags_spec hflags
    rw [hplain]
    rfl

/-- Whether a context is official is found without a panic. -/
theorem PlayerCtx.official_isSome (ctx : PlayerCtx) : ctx.official.isSome := by
  unfold PlayerCtx.official
  split
  · rfl
  · obtain ⟨v, hv, -⟩ := Player.checkFlagsSfMi_spec ctx.sf.toNat ctx.mi.toNat
    rw [hv]
    split <;> rfl

theorem ensures_official {P : Bool × Connection → Prop} (hP : ∀ r, P r) :
    conn.official.Ensures P := by
  unfold Connection.official
  split
  · exact hP _
  next ctx _ =>
    obtain ⟨r, hr⟩ := Option.isSome_iff_exists.1 ctx.official_isSome
    rw [hr]
    exact hP _

theorem calm_insertContextPacked {context : PlayerCtx} {prior : Option Uuid} {mapId : Option Int}
    {bi : BitVec 32 × BitVec 32} {editor : Option Bool} :
    Calm (insertContextPacked b s context prior mapId bi editor) ↔
      (b = .debug → FitsS 32 (bi.1.toInt + bi.2.toInt)) := by
  obtain ⟨flags, hflags⟩ :=
    Option.isSome_iff_exists.1 (decodeContextFlags_isSome context.sf.toNat)
  have hinsert : ∀ flags, Calm
      (insertContext b s.sessionToken flags context.sf context.i mapId context.mi bi prior
      editor) ↔ (b = .debug → FitsS 32 (bi.1.toInt + bi.2.toInt)) := by
    intro flags
    rw [insertContext, calm_lift_bind]
    exact ensures_addS fun _ => calm_query
  rw [insertContextPacked, calm_lift_bind, hflags, ensures_unwrap]
  simp only [hinsert, Option.some.injEq, exists_eq_left']

theorem calm_linkedContext {context : PlayerCtx} {prior : Option Uuid} {mapId : Option Int}
    {bi : BitVec 32 × BitVec 32} :
    Calm (linkedContext b s context prior mapId bi) ↔
    (b = .debug → FitsS 32 (bi.1.toInt + bi.2.toInt)) := by
  rw [linkedContext, calm_bind_of, calm_insertContextPacked]
  intro newId
  cases prior with
  | some prior => exact calm_query_bind.2 fun _ => calm_pure
  | none => exact calm_pure

theorem calm_newContext {context : PlayerCtx} {prior : Option Uuid} {bi : BitVec 32 × BitVec 32} :
    Calm (newContext b s context prior bi) ↔
      (∀ m ∈ context.map, Text.CharBoundary m.hash (min (Text.byteLen m.hash) 32)) ∧
        (b = .debug → FitsS 32 (bi.1.toInt + bi.2.toInt)) := by
  unfold newContext
  cases hmap : context.map with
  | none => simp [calm_linkedContext]
  | some map =>
      -- what follows the query for the map is the same for every answer
      have hhash : Calm (getOrInsertMap map >>= fun mapId => linkedContext b s context prior
          (some mapId) bi) ↔
          Text.CharBoundary map.hash (min (Text.byteLen map.hash) 32) ∧
            (b = .debug → FitsS 32 (bi.1.toInt + bi.2.toInt)) := by
        rw [← decodeMapHash_isSome, getOrInsertMap]
        cases decodeMapHash map.hash with
        | none => simp
        | some hash => simp [calm_linkedContext]
      simpa using hhash

theorem ensures_updateContext {P : Except Error Unit × Connection → Prop} (hP : ∀ r, P r)
    {sf mi : BitVec 64} {map : Option Map} {hasVlItem : Bool} {bi : BitVec 32 × BitVec 32}
    {editorExists : Option Bool} :
    (updateContext b s conn sf mi map hasVlItem bi editorExists).Ensures P ↔
      (∀ m ∈ map, Text.CharBoundary m.hash (min (Text.byteLen m.hash) 32)) ∧
        (b = .debug → FitsS 32 (bi.1.toInt + bi.2.toInt)) := by
  rw [updateContext, ensures_bind, ensures_result, calm_newContext]
  rintro (e | newId)
  · exact hP _
  · exact hP _

theorem ensures_contextStored {P : Connection → Prop} (hP : ∀ conn, P conn)
    {contextUid : Option String} : (contextStored pg c s conn contextUid).Ensures P := by
  unfold contextStored
  split
  split
  · rw [ensures_bind, ensures_result]
    · exact calm_runWayfinder
    · rintro (e | r)
      · exact e.elim
      · exact hP _
  · exact hP _

theorem readableContext_iff {sf mi : String} {map : Option Map} {bi : BitVec 32 × BitVec 32}
    {sfRead miRead : Option (BitVec 64)} (hsf : parseU64Str sf = some sfRead)
    (hmi : parseU64Str mi = some miRead) :
    ReadableContext b sf mi map bi ↔ (sfRead.isSome → miRead.isSome →
      (∀ m ∈ map, Text.CharBoundary m.hash (min (Text.byteLen m.hash) 32)) ∧
        (b = .debug → FitsS 32 (bi.1.toInt + bi.2.toInt))) := by
  have hsf' : IsU64 sf ↔ sfRead.isSome := by
    rw [IsU64, hsf]
    exact Iff.rfl
  have hmi' : IsU64 mi ↔ miRead.isSome := by
    rw [IsU64, hmi]
    exact Iff.rfl
  constructor
  · intro h hs hm
    exact ⟨h.hash (hsf'.2 hs) (hmi'.2 hm), h.counts (hsf'.2 hs) (hmi'.2 hm)⟩
  · intro h
    exact
      { slicedSf := parseU64Str_isSome.1 (by rw [hsf]; rfl)
        slicedMi := parseU64Str_isSome.1 (by rw [hmi]; rfl)
        hash := fun hs hm => (h (hsf'.1 hs) (hmi'.1 hm)).1
        counts := fun hs hm => (h (hsf'.1 hs) (hmi'.1 hm)).2 }

/-- Which context reports are handled without a panic, whatever the database answers. -/
theorem finishes_reportContext {sf mi : String} {map : Option Map} {i : Option Bool}
    {bi : BitVec 32 × BitVec 32} {e : Option Bool} :
    (reportContext b pg c s conn sf mi map i bi e).Finishes ↔ ReadableContext b sf mi map bi := by
  rw [finishes_iff, reportContext, ensures_bind, ensures_unwrap]
  cases hsf : parseU64Str sf with
  | none =>
      refine iff_of_false (by simp) fun h => ?_
      have hsome := parseU64Str_isSome.2 h.slicedSf
      rw [hsf] at hsome
      cases hsome
  | some sfRead =>
      simp only [Option.some.injEq, exists_eq_left', ensures_bind, ensures_unwrap]
      cases hmi : parseU64Str mi with
      | none =>
          refine iff_of_false (by simp) fun h => ?_
          have hsome := parseU64Str_isSome.2 h.slicedMi
          rw [hmi] at hsome
          cases hsome
      | some miRead =>
          simp only [Option.some.injEq, exists_eq_left']
          rw [readableContext_iff hsf hmi]
          cases sfRead with
          | none => exact iff_of_true trivial fun hs => absurd hs Bool.false_ne_true
          | some sf =>
              cases miRead with
              | none => exact iff_of_true trivial fun _ hm => absurd hm Bool.false_ne_true
              | some mi =>
                  rw [ensures_bind, ensures_updateContext]
                  · simp
                  · rintro ⟨e | _, conn⟩
                    · exact trivial
                    · exact ensures_bind.2 ((ensures_contextStored fun _ => trivial))

end

end Dispatch

end Dd2Server
