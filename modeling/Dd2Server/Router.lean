import Mathlib.Algebra.Group.Nat.Defs
import Mathlib.Data.List.Basic
import Mathlib.Data.List.Forall2

/-!
# Frames on a socket

A frame is a total length, a type byte, a payload length and the payload.  The writer and the reader
compute both lengths in `u32`, which wraps in a release build.  What `serde_json` makes of a payload
and the type byte of a request are parameters.

`read_frames` is the run lemma: the reader takes one frame per call whatever it makes of it.
-/

namespace Dd2Server.Router

/-! ## Bytes -/

abbrev Bytes := List UInt8

/-- The four bytes of a `u32`, the lowest first. -/
def u32Le (n : UInt32) : Bytes := (List.range 4).map fun i => UInt8.ofNat (n.toNat / 256 ^ i)

/-- The number that bytes stand for, the lowest first. -/
def ofLe : Bytes → Nat
  | [] => 0
  | b :: bs => b.toNat + 256 * ofLe bs

inductive IoError
  | unexpectedEof
  /-- `InvalidData`, with its text. -/
  | invalidData (msg : String)
  deriving DecidableEq

/-- What the reader does with the bytes that are still to come. -/
abbrev Socket (α : Type) := ExceptT IoError (StateM Bytes) α

/-- `read_exact`: at the end of the stream it has taken what was left. -/
def readExact (n : Nat) : Socket Bytes := ExceptT.mk fun bs =>
  if n ≤ bs.length then (.ok (bs.take n), bs.drop n) else (.error .unexpectedEof, [])

def readU32Le : Socket UInt32 := do
  let bs ← readExact 4
  return UInt32.ofNat (ofLe bs)

def readU8 : Socket UInt8 := do
  let bs ← readExact 1
  return bs.headD 0

theorem toNat_u32Le (n : UInt32) : ofLe (u32Le n) = n.toNat := by
  have hlt : n.toNat < 4294967296 := n.toNat_lt
  simp only [u32Le, List.range, List.range.loop, List.map_cons, List.map_nil, ofLe,
    UInt8.toNat_ofNat']
  omega

theorem ofLe_u32Le (n : UInt32) : UInt32.ofNat (ofLe (u32Le n)) = n := by
  rw [toNat_u32Le]
  exact UInt32.ofNat_toNat

theorem readExact_append {bs rest : Bytes} {n : Nat} (h : bs.length = n) :
    (readExact n).run (bs ++ rest) = (.ok bs, rest) := by
  subst h
  simp [readExact, ExceptT.run, ExceptT.mk]

section

variable {α β : Type}

/-- Reads one after the other. -/
theorem run_bind_ok {x : Socket α} {f : α → Socket β} {a : α} {bs rest : Bytes}
    (h : x.run bs = (.ok a, rest)) : (x >>= f).run bs = (f a).run rest := by
  have hrun : (x >>= f).run bs = ExceptT.bindCont f (x.run bs).1 (x.run bs).2 := rfl
  rw [hrun, h]
  rfl

end

theorem readU32Le_append (n : UInt32) (rest : Bytes) :
    readU32Le.run (u32Le n ++ rest) = (.ok n, rest) := by
  rw [readU32Le, run_bind_ok (readExact_append (by simp [u32Le]))]
  show (Except.ok (UInt32.ofNat (ofLe (u32Le n))), rest) = (Except.ok n, rest)
  rw [ofLe_u32Le]

theorem readU8_cons (b : UInt8) (rest : Bytes) : readU8.run (b :: rest) = (.ok b, rest) := by
  have hread : (readExact 1).run (b :: rest) = (.ok [b], rest) :=
    @readExact_append [b] rest 1 rfl
  rw [readU8, run_bind_ok hread]
  rfl

/-! ## The two ends -/

section

variable {Request : Type} (fromSlice : Bytes → Option Request) (ty : Request → UInt8)

/-- `Request::read_from_socket`; `none` is a payload that nothing deserializes.  This is the release
build, where `5 + str_len` wraps; a debug build panics on the overflow. -/
def readFromSocket : Socket (Option Request) := do
  let len ← readU32Le
  let t ← readU8
  let strLen ← readU32Le
  if len ≠ 5 + strLen then throw (.invalidData "Invalid request length")
  let buf ← readExact strLen.toNat
  match fromSlice buf with
  -- fail but keep the connection
  | none => return none
  | some req =>
      if ty req ≠ t then throw (.invalidData "Invalid request type")
      return some req

/-- `write_to_socket` of a message of type `t` that serializes to `s`. -/
def writeToSocket (t : UInt8) (s : Bytes) : Bytes :=
  let len := UInt32.ofNat s.length
  u32Le (5 + len) ++ t :: (u32Le len ++ s)

/-- One call of the reader after the other, with what each returned. -/
def readFrames : Nat → Bytes → List (Except IoError (Option Request)) × Bytes
  | 0, bs => ([], bs)
  | n + 1, bs =>
      let (r, rest) := (readFromSocket fromSlice ty).run bs
      let (rs, rest) := readFrames n rest
      (r :: rs, rest)

/-- A type byte and a payload whose length a `u32` holds. -/
structure Frame where
  ty : UInt8
  payload : Bytes
  fits : payload.length < 2 ^ 32

def Frame.bytes (f : Frame) : Bytes := writeToSocket f.ty f.payload

/-- The bytes of frames, one after the other. -/
def concatFrames (fs : List Frame) : Bytes := fs.flatMap Frame.bytes

/-- The payload is one of its type. -/
def Frame.Valid (f : Frame) (req : Request) : Prop :=
  fromSlice f.payload = some req ∧ ty req = f.ty

/-- The reader made nothing of the payload. -/
def Rejected (r : Except IoError (Option Request)) : Prop :=
  r = .ok none ∨ r = .error (.invalidData "Invalid request type")

/-- What a call returns for a frame. -/
structure Frame.Answered (f : Frame) (r : Except IoError (Option Request)) : Prop where
  message : ∀ req, f.Valid fromSlice ty req → r = .ok (some req)
  failure : (∀ req, ¬f.Valid fromSlice ty req) → Rejected r

/-- The reader takes the payload that a header announces. -/
def Accepts (len strLen : UInt32) : Prop :=
  ∀ t s rest, s.length = strLen.toNat →
    ∃ r, (readFromSocket fromSlice ty).run (u32Le len ++ t :: (u32Le strLen ++ (s ++ rest))) =
        (r, rest) ∧ r ≠ .error (.invalidData "Invalid request length")

/-- What a call returns for a payload of type `t`. -/
def answerOf (t : UInt8) (s : Bytes) : Except IoError (Option Request) :=
  match fromSlice s with
  | none => .ok none
  | some req =>
      if ty req ≠ t then .error (.invalidData "Invalid request type") else .ok (some req)

variable {fromSlice ty}

/-- A header whose lengths agree in `u32`, with its payload. -/
theorem readFromSocket_append {len strLen : UInt32} (t : UInt8) {s : Bytes} (rest : Bytes)
    (hs : s.length = strLen.toNat) (hlen : len = 5 + strLen) :
    (readFromSocket fromSlice ty).run (u32Le len ++ t :: (u32Le strLen ++ (s ++ rest))) =
      (answerOf fromSlice ty t s, rest) := by
  rw [readFromSocket, run_bind_ok (readU32Le_append len _), run_bind_ok (readU8_cons t _),
    run_bind_ok (readU32Le_append strLen _), if_neg (not_not.2 hlen)]
  dsimp only
  rw [run_bind_ok (readExact_append hs), answerOf]
  cases fromSlice s with
  | none => rfl
  | some req =>
      dsimp only
      split <;> rfl

/-- A header whose lengths do not agree in `u32`. -/
theorem readFromSocket_mismatch {len strLen : UInt32} (t : UInt8) (rest : Bytes)
    (hlen : len ≠ 5 + strLen) :
    (readFromSocket fromSlice ty).run (u32Le len ++ t :: (u32Le strLen ++ rest)) =
      (.error (.invalidData "Invalid request length"), rest) := by
  rw [readFromSocket, run_bind_ok (readU32Le_append len _), run_bind_ok (readU8_cons t _),
    run_bind_ok (readU32Le_append strLen _), if_pos hlen]
  rfl

theorem answerOf_ne_length (t : UInt8) (s : Bytes) :
    answerOf fromSlice ty t s ≠ .error (.invalidData "Invalid request length") := by
  rw [answerOf]
  cases fromSlice s with
  | none => simp
  | some req =>
      dsimp only
      split <;> simp

/-- The reader compares the two lengths in `u32`. -/
theorem accepts_iff (len strLen : UInt32) :
    Accepts fromSlice ty len strLen ↔ len = 5 + strLen := by
  constructor
  · intro h
    by_contra hlen
    obtain ⟨r, hr, hne⟩ := h 0 (List.replicate strLen.toNat 0) [] List.length_replicate
    rw [readFromSocket_mismatch 0 _ hlen] at hr
    exact hne (Prod.mk.inj hr).1.symm
  · intro hlen t s rest hs
    exact ⟨_, readFromSocket_append t rest hs hlen, answerOf_ne_length t s⟩

/-- In exact integers that is right unless the sum wraps. -/
theorem exact_iff (len strLen : UInt32) :
    (len = 5 + strLen → len.toNat = 5 + strLen.toNat) ↔
      5 + strLen.toNat < 2 ^ 32 ∨ len ≠ 5 + strLen := by
  by_cases hlen : len = 5 + strLen
  · have hsum : len.toNat = (5 + strLen.toNat) % 2 ^ 32 := by
      rw [hlen, UInt32.toNat_add]
      rfl
    have hlt : len.toNat < 2 ^ 32 := len.toNat_lt
    simp only [hlen, forall_const, ne_eq, not_true_eq_false, or_false]
    rw [← hlen]
    omega
  · simp [hlen]

theorem answerOf_answered (f : Frame) :
    f.Answered fromSlice ty (answerOf fromSlice ty f.ty f.payload) where
  message req h := by
    obtain ⟨hreq, hty⟩ := h
    simp [answerOf, hreq, hty]
  failure h := by
    cases hreq : fromSlice f.payload with
    | none => exact .inl (by simp [answerOf, hreq])
    | some req =>
        have hty : ty req ≠ f.ty := fun he => h req ⟨hreq, he⟩
        exact .inr (by simp [answerOf, hreq, hty])

/-- One call takes one frame. -/
theorem readFromSocket_frame (f : Frame) (rest : Bytes) :
    (readFromSocket fromSlice ty).run (f.bytes ++ rest) =
      (answerOf fromSlice ty f.ty f.payload, rest) := by
  have hs : f.payload.length = (UInt32.ofNat f.payload.length).toNat :=
    (UInt32.toNat_ofNat_of_lt' f.fits).symm
  have hbytes : f.bytes ++ rest = u32Le (5 + UInt32.ofNat f.payload.length) ++
      f.ty :: (u32Le (UInt32.ofNat f.payload.length) ++ (f.payload ++ rest)) := by
    simp [Frame.bytes, writeToSocket]
  rw [hbytes]
  exact readFromSocket_append f.ty rest hs rfl

/-- Any number of calls take as many frames, in order. -/
theorem readFrames_concat (fs : List Frame) (rest : Bytes) {n : Nat} (hn : n ≤ fs.length) :
    readFrames fromSlice ty n (concatFrames fs ++ rest) =
      ((fs.take n).map fun f => answerOf fromSlice ty f.ty f.payload,
        concatFrames (fs.drop n) ++ rest) := by
  induction n generalizing fs with
  | zero => rfl
  | succ n ih =>
      cases fs with
      | nil => simp at hn
      | cons f fs =>
          have hcons : concatFrames (f :: fs) ++ rest = f.bytes ++ (concatFrames fs ++ rest) := by
            simp [concatFrames]
          have hlen : n ≤ fs.length := by simpa using hn
          rw [hcons, readFrames, readFromSocket_frame]
          dsimp only
          rw [ih fs hlen]
          rfl

/-- Frames come back in order, each taken whole, and a header is accepted on an exact length
if and only if the sum of the lengths does not wrap. -/
theorem read_frames_iff :
    (∀ fs : List Frame, ∀ rest : Bytes, ∀ n ≤ fs.length, ∃ rs,
      readFrames fromSlice ty n (concatFrames fs ++ rest) =
        (rs, concatFrames (fs.drop n) ++ rest) ∧
        List.Forall₂ (Frame.Answered fromSlice ty) (fs.take n) rs) ∧
    ∀ len strLen : UInt32,
      (Accepts fromSlice ty len strLen → len.toNat = 5 + strLen.toNat) ↔
        5 + strLen.toNat < 2 ^ 32 ∨ len ≠ 5 + strLen := by
  refine ⟨fun fs rest n hn => ⟨_, readFrames_concat fs rest hn, ?_⟩, fun len strLen => ?_⟩
  · rw [List.forall₂_map_right_iff, List.forall₂_same]
    exact fun f _ => answerOf_answered f
  · rw [accepts_iff]
    exact exact_iff len strLen

end

/-- A total length of one goes with a payload of `u32::MAX - 3` bytes. -/
theorem accepts_wrapped :
    ¬∀ len strLen : UInt32, Accepts (fun _ => none) (fun _ : Unit => 0) len strLen →
      len.toNat = 5 + strLen.toNat := by
  intro h
  have hexact := h 1 4294967292 ((accepts_iff 1 4294967292).2 (by decide))
  exact absurd hexact (by decide)

end Dd2Server.Router
