import Dd2Server.DefaultSlugs
import Dd2Server.Nadeo.Gbx
import Dd2Server.Nadeo.Retry
import Dd2Server.Runtime

/-!
# The published comment of a map

The comment is read with two ranged downloads: the first bytes of the file have the table of the
header chunks, and the end of the thumbnail chunk has the comment behind the image.
-/

namespace Dd2Server

namespace Nadeo

open Router

/-! ## The comment -/

/-- A server: what the attempts of a ranged request of a url meet with, and when the first is
sent. -/
structure Http where
  get : (url range : String) → (attempt : Nat) → Attempt
  now : (url range : String) → Nat
  parseHttpDate : String → Option Nat

/-- The `Range` header. -/
def rangeHeader (start stop : Nat) : String :=
  "bytes=" ++ String.ofList (Text.natChars start) ++ "-" ++ String.ofList (Text.natChars (stop - 1))

def fetchRange (http : Http) (url : String) (start stop : Nat) : Except String Bytes := do
  let range := rangeHeader start stop
  let response ← (sendWithRetry http.parseHttpDate (http.get url range)
      (http.now url range)).result
  if ¬ (200 ≤ response.status ∧ response.status < 300) then
    throw ("map file range status " ++ response.statusText)
  match response.body with
  | .ok bytes => return bytes
  | .error e => throw ("map file range body: " ++ e)

def chunkThumbComments : UInt32 := 0x03043007

def commentFetchWindow : Nat := 64 * 1024

/-- The loop over the chunks, from the one at `offset` on. -/
def commentOfChunks (http : Http) (url : String) :
    (offset : Nat) → List (UInt32 × UInt32) → Except String PublishedComment
  -- no thumbnail chunk at all
  | _, [] => return .comment none
  | offset, (id, rawSize) :: chunks => do
      let size := rawSize.toNat % 2 ^ 31
      if id = chunkThumbComments then
        if size = 0 then throw "thumbnail/comments chunk is empty"
        let window := min size commentFetchWindow
        let start := offset + size - window
        let tail ← fetchRange http url start (start + window)
        match extractComments tail with
        | .found comment => return .comment (some comment)
        | .truncated => throw "map comment longer than the fetch window"
        | .missing => return .comment none
      else commentOfChunks http url (offset + size) chunks

structure LiveMapInfo where
  downloadUrl : Option String

/-- The comment, given the answer of `get_map_info_optional`. -/
def fetchPublishedComment (http : Http) (info : Except String (Option LiveMapInfo)) :
    Except String PublishedComment := do
  match ← info with
  | none => return .notOnNadeo
  | some info =>
      match info.downloadUrl with
      | none => throw "map info has no downloadUrl"
      | some url =>
          let head ← fetchRange http url 0 192
          match parseHeaderChunkTable head with
          | none => throw "could not parse the GBX header chunk table"
          | some (dataStart, chunks) => commentOfChunks http url dataStart chunks

/-! ## Map files -/

/-- The thumbnail chunk: the image, in which there is no marker, and the comment. -/
structure Thumbnail where
  image : Bytes
  free : ¬ commentsMarker <:+: image
  doubled : Bool
  text : String
  short : (utf8 text).length ≤ commentMaxLen

def Thumbnail.bytes (t : Thumbnail) : Bytes := t.image ++ commentBlock t.doubled t.text

inductive ChunkData
  | thumbnail (t : Thumbnail)
  | other (id : UInt32) (ne : id ≠ chunkThumbComments) (data : Bytes)

def ChunkData.id : ChunkData → UInt32
  | .thumbnail _ => chunkThumbComments
  | .other id _ _ => id

def ChunkData.bytes : ChunkData → Bytes
  | .thumbnail t => t.bytes
  | .other _ _ data => data

/-- A chunk of the header with its heavy bit. -/
structure HeaderChunk where
  data : ChunkData
  heavy : Bool
  ofMap : data.id.toNat / 2 ^ 16 = 0x0304
  small : data.bytes.length ≤ 2 ^ 28

def HeaderChunk.entry (c : HeaderChunk) : UInt32 × UInt32 :=
  (c.data.id, UInt32.ofNat (c.data.bytes.length + if c.heavy then 2 ^ 31 else 0))

/-- The preamble, the table, the chunks, and what comes after the header. -/
structure MapFile where
  preamble : Preamble
  chunks : List HeaderChunk
  nonempty : 1 ≤ chunks.length
  fits : chunks.length ≤ 21
  body : Bytes

def MapFile.entries (f : MapFile) : List (UInt32 × UInt32) := f.chunks.map HeaderChunk.entry

def chunkBytes (chunks : List HeaderChunk) : Bytes := chunks.flatMap fun c => c.data.bytes

def MapFile.bytes (f : MapFile) : Bytes :=
  f.preamble.bytes ++ (tableBytes f.entries ++ (chunkBytes f.chunks ++ f.body))

/-- The text of the first thumbnail chunk, unless there is none in it. -/
def commentIn : List HeaderChunk → Option String
  | [] => none
  | c :: chunks =>
      match c.data with
      | .thumbnail t => if t.text = "" then none else some t.text
      | .other _ _ _ => commentIn chunks

/-- The server returns exactly the range that is requested. -/
def Serves (http : Http) (url : String) (file : Bytes) : Prop :=
  ∀ start stop, start < stop → stop ≤ 2 ^ 64 → start < file.length → ∃ response,
    (http.get url (rangeHeader start stop) 0).outcome = .ok response ∧ response.status = 206 ∧
      response.body = .ok ((file.drop start).take (stop - start))

theorem fetchRange_serves {http : Http} {url : String} {file : Bytes} (h : Serves http url file)
    {start stop : Nat} (hlt : start < stop) (hstop : stop ≤ 2 ^ 64)
    (hstart : start < file.length) :
    fetchRange http url start stop = .ok ((file.drop start).take (stop - start)) := by
  obtain ⟨response, hget, hstatus, hbody⟩ := h start stop hlt hstop hstart
  have hpause : (http.get url (rangeHeader start stop) 0).pause http.parseHttpDate 0 = none := by
    simp only [Attempt.pause, hget, retryDelay, hstatus]
    rfl
  have hsent : (sendWithRetry http.parseHttpDate (http.get url (rangeHeader start stop))
      (http.now url (rangeHeader start stop))).result = .ok response := by
    rw [sendWithRetry, retryAttempts, sendFrom, hpause]
    exact hget
  rw [fetchRange, hsent]
  show (if ¬ (200 ≤ response.status ∧ response.status < 300) then _ else _) = _
  rw [if_neg (by rw [hstatus]; decide), hbody]
  rfl

theorem HeaderChunk.size_entry (c : HeaderChunk) :
    c.entry.2.toNat % 2 ^ 31 = c.data.bytes.length := by
  have hsmall := c.small
  have hlt : c.data.bytes.length + (if c.heavy then 2 ^ 31 else 0) < UInt32.size := by
    have hsize : UInt32.size = 2 ^ 32 := rfl
    split <;> omega
  rw [HeaderChunk.entry, UInt32.toNat_ofNat_of_lt' hlt]
  split
  · rw [Nat.add_mod_right]
    exact Nat.mod_eq_of_lt (Nat.lt_of_le_of_lt hsmall (by decide))
  · exact Nat.mod_eq_of_lt (Nat.lt_of_le_of_lt hsmall (by decide))

theorem HeaderChunk.plausible (c : HeaderChunk) : Plausible c.entry :=
  ⟨c.ofMap, c.size_entry.trans_le c.small⟩

theorem length_commentBlock {doubled : Bool} {text : String}
    (h : (utf8 text).length ≤ commentMaxLen) :
    0 < (commentBlock doubled text).length ∧
    (commentBlock doubled text).length ≤ commentFetchWindow := by
  have hmax : commentMaxLen = 32768 := rfl
  have hwindow : commentFetchWindow = 65536 := rfl
  have hmarker : commentsMarker.length = 10 := rfl
  have htrailer : commentsTrailer.length = 11 := rfl
  cases doubled with
  | false =>
      simp only [commentBlock, List.length_append, length_u32Le]
      simp
      omega
  | true =>
      simp only [commentBlock, List.length_append, length_u32Le]
      simp [length_u32Le]
      omega

/-- The window of the chunk's tail has all of the comment. -/
theorem Thumbnail.tail (t : Thumbnail) : ∃ image, ¬ commentsMarker <:+: image ∧
    t.bytes.drop (t.bytes.length - min t.bytes.length commentFetchWindow) =
      image ++ (commentBlock t.doubled t.text ++ []) := by
  have hblock := (@length_commentBlock t.doubled t.text t.short).2
  have hlength : t.bytes.length = t.image.length + (commentBlock t.doubled t.text).length :=
    List.length_append
  refine ⟨t.image.drop (t.bytes.length - min t.bytes.length commentFetchWindow),
    fun h => ?_, ?_⟩
  · exact t.free (h.trans (List.drop_suffix _ _).isInfix)
  · rw [List.append_nil, Thumbnail.bytes, List.drop_append_of_le_length]
    rw [← Thumbnail.bytes]
    omega

theorem utf8_eq_nil_iff {text : String} : (utf8 text).length = 0 ↔ text = "" := by
  constructor
  · intro h
    have hnil : utf8 text = utf8 "" := (List.eq_nil_of_length_eq_zero h).trans rfl
    have hsome := fromUtf8_utf8 text
    rw [hnil, fromUtf8_utf8] at hsome
    exact (Option.some.inj hsome).symm
  · rintro rfl
    rfl

/-- What the tail of the thumbnail chunk gives. -/
theorem Thumbnail.extract (t : Thumbnail) :
    extractComments (t.bytes.drop (t.bytes.length - min t.bytes.length commentFetchWindow)) =
      if t.text = "" then .missing else .found t.text := by
  obtain ⟨image, hfree, htail⟩ := t.tail
  rw [htail]
  split
  · rename_i hempty
    exact extractComments_empty hfree (utf8_eq_nil_iff.2 hempty) t.doubled []
  · rename_i hne
    have hpos : 0 < (utf8 t.text).length := Nat.pos_of_ne_zero fun h => hne (utf8_eq_nil_iff.1 h)
    exact extractComments_block hfree ⟨hpos, t.short⟩ t.doubled []

/-- A thumbnail chunk at `offset` ends the loop. -/
theorem commentOfChunks_thumbnail {http : Http} {url : String} {file : Bytes}
    (hserve : Serves http url file) {c : HeaderChunk} {t : Thumbnail}
    (hdata : c.data = .thumbnail t) {before rest : Bytes}
    (hfile : file = before ++ (t.bytes ++ rest)) (hsmall : before.length + 2 ^ 28 ≤ 2 ^ 64)
    (entries : List (UInt32 × UInt32)) :
    commentOfChunks http url before.length (c.entry :: entries) =
      .ok (.comment (if t.text = "" then none else some t.text)) := by
  have hsize : c.entry.2.toNat % 2 ^ 31 = t.bytes.length := by
    rw [c.size_entry, hdata]
    rfl
  have hlength : t.bytes.length ≤ 2 ^ 28 := by
    have hsmall := c.small
    rw [hdata] at hsmall
    exact hsmall
  have hpos : 0 < t.bytes.length := by
    have hblock := (@length_commentBlock t.doubled t.text t.short).1
    rw [Thumbnail.bytes, List.length_append]
    omega
  have hid : c.entry.1 = chunkThumbComments := by
    rw [HeaderChunk.entry, hdata]
    rfl
  have hwindow : 0 < min t.bytes.length commentFetchWindow ∧
      min t.bytes.length commentFetchWindow ≤ t.bytes.length :=
    ⟨Nat.lt_min.2 ⟨hpos, by decide⟩, Nat.min_le_left _ _⟩
  have htail : fetchRange http url
      (before.length + t.bytes.length - min t.bytes.length commentFetchWindow)
      (before.length + t.bytes.length - min t.bytes.length commentFetchWindow +
        min t.bytes.length commentFetchWindow) =
      .ok (t.bytes.drop (t.bytes.length - min t.bytes.length commentFetchWindow)) := by
    have hat : before.length + t.bytes.length - min t.bytes.length commentFetchWindow =
        before.length + (t.bytes.length - min t.bytes.length commentFetchWindow) := by omega
    rw [fetchRange_serves hserve (by omega) (by omega)
      (by rw [hfile, List.length_append, List.length_append]; omega)]
    rw [hfile, hat, ← List.drop_drop, List.drop_left, List.drop_append_of_le_length
      (Nat.sub_le _ _), List.take_left']
    rw [List.length_drop]
    omega
  have hloop : commentOfChunks http url before.length (c.entry :: entries) =
      (fetchRange http url (before.length + t.bytes.length - min t.bytes.length commentFetchWindow)
        (before.length + t.bytes.length - min t.bytes.length commentFetchWindow +
          min t.bytes.length commentFetchWindow)).bind fun tail =>
        match extractComments tail with
        | .found comment => .ok (.comment (some comment))
        | .truncated => .error "map comment longer than the fetch window"
        | .missing => .ok (.comment none) := by
    rw [commentOfChunks]
    simp only [hid, hsize, if_true, Nat.ne_of_gt hpos, if_false]
    rfl
  rw [hloop, htail, Except.bind, t.extract]
  by_cases hempty : t.text = ""
  · rw [if_pos hempty, if_pos hempty]
  · rw [if_neg hempty, if_neg hempty]

/-- The loop finds the comment of the chunks that begin at its offset. -/
theorem commentOfChunks_chunkBytes {http : Http} {url : String} {file : Bytes}
    (hserve : Serves http url file) {chunks : List HeaderChunk} {before body : Bytes}
    (hfile : file = before ++ (chunkBytes chunks ++ body))
    (hsmall : before.length + chunks.length * 2 ^ 28 ≤ 2 ^ 64) :
    commentOfChunks http url before.length (chunks.map HeaderChunk.entry) =
      .ok (.comment (commentIn chunks)) := by
  induction chunks generalizing before with
  | nil => rfl
  | cons c chunks ih =>
      have hfile' : file = (before ++ c.data.bytes) ++ (chunkBytes chunks ++ body) := by
        rw [hfile]
        simp [chunkBytes]
      have hsize := c.size_entry
      have hlength : c.data.bytes.length ≤ 2 ^ 28 := c.small
      rw [List.length_cons] at hsmall
      cases hdata : c.data with
      | thumbnail t =>
          have hcomment : commentIn (c :: chunks) = if t.text = "" then none else some t.text := by
            rw [commentIn, hdata]
          rw [hcomment, List.map_cons]
          have hthumbnail : file = before ++ (t.bytes ++ (chunkBytes chunks ++ body)) := by
            rw [hfile', hdata]
            exact List.append_assoc _ _ _
          exact commentOfChunks_thumbnail hserve hdata hthumbnail (by omega) _
      | other id ne data =>
          have hskip : commentOfChunks http url before.length
              (c.entry :: chunks.map HeaderChunk.entry) =
              commentOfChunks http url (before ++ c.data.bytes).length
                (chunks.map HeaderChunk.entry) := by
            have hid : c.entry.1 ≠ chunkThumbComments := by
              rw [HeaderChunk.entry, hdata]
              exact ne
            rw [commentOfChunks]
            simp only [hid, if_false, hsize, List.length_append]
          have hcomment : commentIn (c :: chunks) = commentIn chunks := by rw [commentIn, hdata]
          rw [List.map_cons, hskip, hcomment]
          refine ih hfile' ?_
          rw [List.length_append]
          omega

theorem MapFile.count (f : MapFile) : 1 ≤ f.entries.length ∧ f.entries.length ≤ 21 := by
  rw [MapFile.entries, List.length_map]
  exact ⟨f.nonempty, f.fits⟩

theorem MapFile.plausible (f : MapFile) : ∀ e ∈ f.entries, Plausible e := by
  intro e he
  obtain ⟨c, -, rfl⟩ := List.mem_map.1 he
  exact c.plausible

theorem MapFile.length_bytes (f : MapFile) :
    f.bytes.length = 21 + f.entries.length * 8 + (chunkBytes f.chunks ++ f.body).length := by
  rw [MapFile.bytes, List.length_append, f.preamble.length_bytes, List.length_append, tableBytes,
    List.length_append, length_u32Le, length_entriesBytes]
  omega

/-- The first 192 bytes have all of the table. -/
theorem MapFile.parse_head (f : MapFile) : parseHeaderChunkTable (f.bytes.take 192) =
    if 29 < f.bytes.length then some (21 + f.entries.length * 8, f.entries) else none := by
  have hcount := f.count
  have hlength := f.length_bytes
  have hhead : f.bytes.take 192 = f.preamble.bytes ++ (tableBytes f.entries ++
      (chunkBytes f.chunks ++ f.body).take (192 - (21 + f.entries.length * 8))) := by
    have htable : (tableBytes f.entries).length = 4 + f.entries.length * 8 := by
      rw [tableBytes, List.length_append, length_u32Le, length_entriesBytes]
    rw [MapFile.bytes, List.take_append, f.preamble.length_bytes, List.take_append, htable,
      List.take_of_length_le (by rw [f.preamble.length_bytes]; decide),
      List.take_of_length_le (by rw [htable]; omega)]
    congr 3
    omega
  have hlong : 29 < (f.bytes.take 192).length ↔ 29 < f.bytes.length := by
    rw [List.length_take]
    omega
  rw [hhead, parseHeaderChunkTable_tableBytes f.preamble
    ⟨hcount.1, hcount.2.trans (by decide)⟩ f.plausible, ← hhead]
  exact if_congr hlong rfl rfl

/-- The first request brings the table. -/
theorem fetchPublishedComment_eq (f : MapFile) {http : Http} {url : String}
    (hserve : Serves http url f.bytes) :
    fetchPublishedComment http (.ok (some { downloadUrl := some url })) =
      if 29 < f.bytes.length then commentOfChunks http url (21 + f.entries.length * 8) f.entries
      else .error "could not parse the GBX header chunk table" := by
  have hcount := f.count
  have hlength := f.length_bytes
  have hhead : fetchRange http url 0 192 = .ok (f.bytes.take 192) := by
    rw [fetchRange_serves hserve (by decide) (by decide) (by omega)]
    rfl
  have hbind : ∀ {α β : Type} (a : α) (g : α → Except String β),
      (Except.ok a >>= g) = g a :=
    fun _ _ => rfl
  rw [fetchPublishedComment, hbind]
  dsimp only
  rw [hhead, hbind, f.parse_head]
  by_cases hlong : 29 < f.bytes.length
  · rw [if_pos hlong, if_pos hlong]
  · rw [if_neg hlong, if_neg hlong]
    rfl

theorem commentOfChunks_entries (f : MapFile) {http : Http} {url : String}
    (hserve : Serves http url f.bytes) :
    commentOfChunks http url (21 + f.entries.length * 8) f.entries =
      .ok (.comment (commentIn f.chunks)) := by
  have hbefore : (f.preamble.bytes ++ tableBytes f.entries).length = 21 + f.entries.length * 8 := by
    rw [List.length_append, f.preamble.length_bytes, tableBytes, List.length_append, length_u32Le,
      length_entriesBytes]
    omega
  rw [← hbefore]
  refine commentOfChunks_chunkBytes hserve (List.append_assoc _ _ _).symm ?_
  have hchunks : f.entries.length = f.chunks.length := List.length_map _
  have hfits := f.fits
  omega

/-- The published comment is the one in the file exactly where the file is longer than a header of
one empty chunk: the parser of the table does not find that table at the end of the file. -/
theorem fetchPublishedComment_iff (f : MapFile) {http : Http} {url : String}
    (hserve : Serves http url f.bytes) :
    fetchPublishedComment http (.ok (some { downloadUrl := some url })) =
      .ok (.comment (commentIn f.chunks)) ↔ 29 < f.bytes.length := by
  rw [fetchPublishedComment_eq f hserve]
  by_cases hlong : 29 < f.bytes.length
  · rw [if_pos hlong, commentOfChunks_entries f hserve]
    exact iff_of_true rfl hlong
  · rw [if_neg hlong]
    refine iff_of_false (fun h => ?_) hlong
    cases h

/-! ## A file server -/

/-- The numbers of a `Range` header. -/
def parseRange (range : String) : Option (Nat × Nat) := do
  let numbers ← Text.stripPrefix "bytes=".toList range.toList
  let first ← Text.readDigits 10 (2 ^ 64) 0 (numbers.takeWhile (· ≠ '-'))
  let last ← Text.readDigits 10 (2 ^ 64) 0 ((numbers.dropWhile (· ≠ '-')).drop 1)
  return (first, last)

theorem parseRange_rangeHeader {start stop : Nat} (hlt : start < stop) (hstop : stop ≤ 2 ^ 64) :
    parseRange (rangeHeader start stop) = some (start, stop - 1) := by
  have hdash : ∀ n, '-' ∉ Text.natChars n :=
    fun n h => absurd (Text.isDigit_of_mem_natChars h) (by decide)
  have hdigits : ∀ c ∈ Text.natChars start, decide (c ≠ '-') = true := by
    intro c hc
    exact decide_eq_true fun he => hdash start (he ▸ hc)
  have hlist : (rangeHeader start stop).toList =
      "bytes=".toList ++ (Text.natChars start ++ '-' :: Text.natChars (stop - 1)) := by
    simp [rangeHeader]
  have hfirst : Text.readDigits 10 (2 ^ 64) 0 (Text.natChars start) = some start :=
    Text.readDigits_natChars (by omega)
  have hlast : Text.readDigits 10 (2 ^ 64) 0 (Text.natChars (stop - 1)) = some (stop - 1) :=
    Text.readDigits_natChars (by omega)
  have htake : (Text.natChars start ++ '-' :: Text.natChars (stop - 1)).takeWhile (· ≠ '-') =
      Text.natChars start := by
    rw [List.takeWhile_append_of_pos hdigits]
    simp
  have hdrop : ((Text.natChars start ++ '-' :: Text.natChars (stop - 1)).dropWhile
      (· ≠ '-')).drop 1 =
      Text.natChars (stop - 1) := by
    rw [List.dropWhile_append_of_pos hdigits]
    simp
  rw [parseRange, hlist, Text.stripPrefix_append, Option.bind_eq_bind,
    Option.bind_some, htake, hdrop, hfirst, hlast]
  rfl

/-- A server of one file. -/
def fileServer (file : Bytes) : Http where
  get _ range _ := {
    outcome := match parseRange range with
      | none =>
          .ok { status := 400, statusText := "400 Bad Request", retryAfter := none, body := .ok [] }
      | some (first, last) => .ok {
          status := 206, statusText := "206 Partial Content", retryAfter := none,
          body := .ok ((file.drop first).take (last + 1 - first)) }
    took := 0
    systemTime := 0
    overslept := 0 }
  now _ _ := 0
  parseHttpDate _ := none

theorem fileServer_serves (file : Bytes) (url : String) : Serves (fileServer file) url file := by
  intro start stop hlt hstop _
  have hlen : stop - 1 + 1 - start = stop - start := by omega
  refine ⟨⟨206, "206 Partial Content", none, .ok ((file.drop start).take (stop - start))⟩, ?_,
    rfl, rfl⟩
  rw [← hlen]
  show (match parseRange (rangeHeader start stop) with | none => _ | some (first, last) => _) = _
  rw [parseRange_rangeHeader hlt hstop]

/-- A file with a comment and nothing behind it. -/
def commentedFile : MapFile where
  preamble := plainPreamble
  chunks := [{
    data := .thumbnail
      { image := [0xFF, 0xD9], free := by decide, doubled := true, text := "url=x",
        short := by decide }
    heavy := true
    ofMap := by decide
    small := by decide }]
  nonempty := by decide
  fits := by decide
  body := []

theorem fetchPublishedComment_iff_commented : fetchPublishedComment (fileServer commentedFile.bytes)
    (.ok (some { downloadUrl := some "map.Gbx" })) = .ok (.comment (some "url=x")) ↔
      29 < commentedFile.bytes.length :=
  fetchPublishedComment_iff commentedFile (fileServer_serves commentedFile.bytes "map.Gbx")

/-- A header of one empty chunk and nothing behind it. -/
def shortFile : MapFile where
  preamble := plainPreamble
  chunks := [{
    data := .other 0x03043003 (by decide) []
    heavy := false
    ofMap := by decide
    small := by decide }]
  nonempty := by decide
  fits := by decide
  body := []

theorem short_file_fails :
    ¬ ∀ (f : MapFile) (http : Http) (url : String), Serves http url f.bytes →
      fetchPublishedComment http (.ok (some { downloadUrl := some url })) =
        .ok (.comment (commentIn f.chunks)) := by
  intro h
  have hserve := fileServer_serves shortFile.bytes "map.Gbx"
  have hfetch := h shortFile _ _ hserve
  rw [fetchPublishedComment_eq shortFile hserve, if_neg (by decide)] at hfetch
  cases hfetch

end Nadeo

end Dd2Server
