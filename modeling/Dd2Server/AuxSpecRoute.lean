import Dd2Server.SpecPointers

/-!
# The spec pointer of a comment and the aux-spec route

`GET /aux_spec/<wsid>/<name_id>.json` reads the owner and the name off the whole path and asks for
the suffix.  The comment parser reads them off the end of all that follows `://`, and only strips
the suffix.  `PointsAlike` says for which urls both read the same.

`Warp` is what the router does with the path of a request.  It hands the segments over as they are
written, and a request can only hold some of the characters: a blank or an `ü` has to be escaped,
and then the escape is what the segment holds.
-/

namespace Dd2Server

/-! ## The route -/

/-- How the path of a request meets `path!("aux_spec" / String / String)` and `path::end()`. -/
structure Warp where
  /-- The characters that are taken in the path of a request. -/
  inTarget : Char → Bool
  auxSpec : List Char → Option (List Char × List Char)
  /-- Whether a slash after the last segment is let pass. -/
  trailingSlash : Bool

/-- The characters that the path of a URI is written with, `%` of the escapes among them. -/
def isPathChar (c : Char) : Bool := c.isAlphanum || c ∈ "-._~!$&'()*+,;=:@%/".toList

/-- A request takes at least the characters of a URI and no blank, control or non-ASCII character.
The segments are not empty, they are not decoded, and there is nothing else in the path. -/
structure Warp.Documented (warp : Warp) : Prop where
  takes : ∀ c, isPathChar c = true → warp.inTarget c = true
  printable : ∀ c, warp.inTarget c = true → 0x21 ≤ c.toNat ∧ c.toNat ≤ 0x7E
  segments : ∀ path, (∀ c ∈ path, warp.inTarget c = true) → ∀ a b,
    warp.auxSpec path = some (a, b) ↔ a ≠ [] ∧ b ≠ [] ∧ '/' ∉ a ∧ '/' ∉ b ∧
      (path = "/aux_spec/".toList ++ a ++ '/' :: b ∨
        warp.trailingSlash = true ∧ path = "/aux_spec/".toList ++ a ++ '/' :: (b ++ ['/']))

/-- The path of a request, without the query and the fragment. -/
def uriPath (target : List Char) : List Char := target.takeWhile fun c => c ≠ '?' && c ≠ '#'

/-- The owner and the name that `GET` of what follows a host looks up, if it is routed to the
aux-spec endpoint.  No request holds a path with another character than those taken. -/
def getCustomMapAuxSpec (warp : Warp) (target : List Char) : Option (Uuid × String) :=
  if (uriPath target).all warp.inTarget = true then
    (warp.auxSpec (uriPath target)).bind fun (wsid, nameId) =>
      if endsWithJson nameId then (Uuid.parse wsid).map fun userId => (userId, stem nameId)
      else none
  else none

/-! ## The url line -/

/-- The url on the `url=` line of the block of a comment. -/
def commentUrl (comment : String) : Option (List Char) :=
  (Text.findFrom "--BEGIN-DPP--".toList comment.toList).bind fun start =>
    (Text.findUntil "--END-DPP--".toList start).bind dppUrl

theorem parseDppCommentUrl_eq (comment : String) :
    parseDppCommentUrl comment = (commentUrl comment).bind auxSpecPath := by
  simp only [parseDppCommentUrl, commentUrl, Option.bind_assoc]

/-! ## Routed paths -/

/-- The path is `/aux_spec/<id>/<name>` with a suffix of the name, and a request can hold it. -/
structure Route (warp : Warp) (path : List Char) (userId : Uuid) (nameId : String) : Prop where
  carried : ∀ c ∈ path, warp.inTarget c = true
  spells : ∃ wsid n last, Uuid.parse wsid = some userId ∧
    (last = [] ∨ warp.trailingSlash = true ∧ last = ['/']) ∧
    path = "/aux_spec/".toList ++ wsid ++ '/' :: (suffixed nameId (n + 1) ++ last)
  segment : '/' ∉ nameId.toList
  bare : ¬".json".toList <:+ nameId.toList

section

variable {warp : Warp} {target path : List Char} {userId userId' : Uuid} {nameId nameId' : String}

theorem getCustomMapAuxSpec_iff (hwarp : warp.Documented) :
    getCustomMapAuxSpec warp target = some (userId, nameId) ↔
    Route warp (uriPath target) userId nameId := by
  rw [getCustomMapAuxSpec, Option.ite_none_right_eq_some, List.all_eq_true]
  constructor
  · rintro ⟨hcarried, h⟩
    obtain ⟨⟨a, b⟩, hroute, h⟩ := Option.bind_eq_some_iff.1 h
    dsimp only at h
    rw [Option.ite_none_right_eq_some] at h
    obtain ⟨hjson, h⟩ := h
    obtain ⟨id, hid, he⟩ := Option.map_eq_some_iff.1 h
    cases he
    obtain ⟨-, -, -, hslash, hpath⟩ := (hwarp.segments _ hcarried a b).1 hroute
    obtain ⟨hbare, n, hb⟩ := suffixed_stem b
    refine ⟨hcarried, ?_, fun hm => hslash ?_, hbare⟩
    · cases n with
      | zero =>
          -- Without a suffix the segment is the name, which does not end in one.
          rw [suffixed, List.replicate_zero, List.flatten_nil, List.append_nil] at hb
          rw [hb] at hjson
          exact absurd (endsWithJson_iff.1 hjson) hbare
      | succ n =>
          rcases hpath with hpath | ⟨hslash, hpath⟩
          · exact ⟨a, n, [], hid, .inl rfl, by rw [← hb, List.append_nil]; exact hpath⟩
          · exact ⟨a, n, ['/'], hid, .inr ⟨hslash, rfl⟩, by rw [← hb]; exact hpath⟩
    · rw [hb]
      exact List.mem_append_left _ hm
  · rintro ⟨hcarried, ⟨wsid, n, last, hid, hlast, hpath⟩, hsegment, hbare⟩
    refine ⟨hcarried, Option.bind_eq_some_iff.2 ⟨(wsid, suffixed nameId (n + 1)), ?_, ?_⟩⟩
    · have hne : suffixed nameId (n + 1) ≠ [] := by
        rw [suffixed_succ]
        exact List.append_ne_nil_of_right_ne_nil _ (by decide)
      refine (hwarp.segments _ hcarried wsid _).2 ⟨Uuid.ne_nil_of_parse hid, hne,
        Uuid.notMem_of_parse hid (by decide), notMem_suffixed hsegment (by decide) _, ?_⟩
      rcases hlast with rfl | ⟨hslash, rfl⟩
      · exact .inl (by rw [hpath, List.append_nil])
      · exact .inr ⟨hslash, hpath⟩
    · have hjson : endsWithJson (suffixed nameId (n + 1)) = true := by
        rw [endsWithJson_iff, suffixed_succ]
        exact List.suffix_append _ _
      dsimp only
      rw [if_pos hjson, hid, stem_suffixed hbare]
      rfl

theorem Route.unique (hwarp : warp.Documented) (h : Route warp (uriPath target) userId nameId)
    (h' : Route warp (uriPath target) userId' nameId') : userId' = userId ∧ nameId' = nameId := by
  have he := ((getCustomMapAuxSpec_iff hwarp).2 h').symm.trans ((getCustomMapAuxSpec_iff hwarp).2 h)
  cases he
  exact ⟨rfl, rfl⟩

/-- The characters of the name are those of the path. -/
theorem Route.name_mem (h : Route warp path userId nameId) :
    ∀ c ∈ nameId.toList, c ∈ path := by
  obtain ⟨wsid, n, last, -, -, rfl⟩ := h.spells
  intro c hc
  refine List.mem_append_right _ (List.mem_cons_of_mem _ (List.mem_append_left _ ?_))
  exact List.mem_append_left _ hc

/-- The name of a request has one byte for each character. -/
theorem Route.byteLen (hwarp : warp.Documented) (h : Route warp path userId nameId) :
    Text.byteLen nameId = nameId.length := by
  have hone : ∀ c ∈ nameId.toList, c.utf8Size = 1 := by
    intro c hc
    have hc := (hwarp.printable c (h.carried c (h.name_mem c hc))).2
    exact Char.utf8Size_eq_one_iff.2 (UInt32.le_iff_toNat_le.2 (hc.trans (by decide)))
  rw [Text.byteLen, List.map_congr_left hone, List.map_const', List.sum_replicate_nat, Nat.mul_one,
    String.length_toList]

/-- A routed path ends in a pointer, where its name can be one. -/
theorem Route.pointer (h : Route warp path userId nameId) (hne : nameId ≠ "")
    (hlen : Text.byteLen nameId ≤ 32) (host : List Char) :
    Pointer (host ++ path) userId nameId := by
  obtain ⟨wsid, n, last, hid, hlast, rfl⟩ := h.spells
  obtain ⟨k, rfl⟩ : ∃ k, last = slashes k := by
    rcases hlast with rfl | ⟨-, rfl⟩
    · exact ⟨0, rfl⟩
    · exact ⟨1, rfl⟩
  refine ⟨⟨host ++ ['/'], wsid, 0, 0, k, n + 1, opens_slashes host 0, hid, ?_⟩, h.segment,
    h.bare, hne, hlen⟩
  have hslash : "/aux_spec/".toList = ['/'] ++ "aux_spec".toList ++ slashes 1 := by decide
  rw [hslash]
  simp [slashes]

end

/-- After a query or a fragment a pointer to a name without such characters is all behind the
mark. -/
theorem pointer_query {front query : List Char} {q : Char} (hq : q ∈ ['/', '?', '#'])
    (hne : q ≠ '/') {userId : Uuid} {nameId : String} (hname : q ∉ nameId.toList) :
    Pointer (front ++ q :: query) userId nameId ↔ Pointer (q :: query) userId nameId := by
  have haux : q ∉ "aux_spec".toList := by
    rcases mark_cases hq with rfl | rfl | rfl <;> decide
  have hslashes : ∀ k, q ∉ slashes k := fun k hm => hne (List.eq_of_mem_replicate hm)
  have htail : ∀ {wsid i j k n}, Uuid.parse wsid = some userId → q ∉ "aux_spec".toList ++
      (slashes (i + 1) ++ (wsid ++ (slashes (j + 1) ++ (suffixed nameId n ++ slashes k)))) := by
    intro wsid i j k n hid
    simp only [List.mem_append, not_or]
    exact ⟨haux, hslashes _, Uuid.notMem_of_parse hid hq, hslashes _,
      notMem_suffixed hname hq n, hslashes k⟩
  constructor
  · rintro ⟨⟨before, wsid, i, j, k, n, hbefore, hid, htext⟩, hsegment, hbare, hblank, hlen⟩
    refine ⟨?_, hsegment, hbare, hblank, hlen⟩
    simp only [List.append_assoc] at htext
    rcases List.append_eq_append_iff.1 htext with ⟨mid, rfl, hmid⟩ | ⟨mid, -, hmid⟩
    · have hmid' : mid ≠ [] := by
        rintro rfl
        have hmem : q ∈ q :: query := List.mem_cons_self
        rw [hmid] at hmem
        exact htail hid hmem
      refine ⟨mid, wsid, i, j, k, n, ?_, hid, by simp only [List.append_assoc]; exact hmid⟩
      rcases hbefore with hnil | hlast
      · exact absurd (List.append_eq_nil_iff.1 hnil).2 hmid'
      · rw [List.getLast?_append_of_ne_nil _ hmid'] at hlast
        exact .inr hlast
    · have hmem : q ∈ mid ++ q :: query := List.mem_append_right _ List.mem_cons_self
      rw [← hmid] at hmem
      exact absurd hmem (htail hid)
  · rintro ⟨⟨before, wsid, i, j, k, n, hbefore, hid, htext⟩, hsegment, hbare, hblank, hlen⟩
    refine ⟨⟨front ++ before, wsid, i, j, k, n, ?_, hid, ?_⟩, hsegment, hbare, hblank, hlen⟩
    · rcases hbefore with rfl | hlast
      · have hmem : q ∈ q :: query := List.mem_cons_self
        simp only [List.append_assoc, List.nil_append] at htext
        rw [htext] at hmem
        exact absurd hmem (htail hid)
      · refine .inr ?_
        rw [List.getLast?_append_of_ne_nil]
        · exact hlast
        · rintro rfl
          cases hlast
    · rw [htext]
      simp only [List.append_assoc]

theorem uriPath_append {path query : List Char} (hpath : '?' ∉ path ∧ '#' ∉ path)
    (hquery : query.head? ∈ [none, some '?', some '#']) : uriPath (path ++ query) = path := by
  have hkeep : ∀ c ∈ path, (c ≠ '?' && c ≠ '#') = true := by
    intro c hc
    have h1 : c ≠ '?' := fun h => hpath.1 (h ▸ hc)
    have h2 : c ≠ '#' := fun h => hpath.2 (h ▸ hc)
    simp [h1, h2]
  rw [uriPath, List.takeWhile_append_of_pos hkeep]
  cases query with
  | nil => simp
  | cons c query =>
      have hc : c = '?' ∨ c = '#' := by simpa using hquery
      rcases hc with rfl | rfl <;> simp

/-! ## Where both agree -/

/-- The parser answers what `GET` looks up, of the names that a `VARCHAR(32)` holds. -/
def ReadsAlike (warp : Warp) (comment : String) (target : List Char) : Prop :=
  ∀ userId nameId, parseDppCommentUrl comment = some (userId, nameId) ↔
    getCustomMapAuxSpec warp target = some (userId, nameId) ∧ nameId.length ≤ 32

/-- The path is a route to the endpoint with a name that fits the column, and either nothing follows
and the name is not blank, or what follows ends in the same pointer; or it is no such route, and
there is no pointer at the end of the url. -/
def PointsAlike (warp : Warp) (host path query : List Char) : Prop :=
  (∃ userId nameId, Route warp path userId nameId ∧ nameId.length ≤ 32 ∧
    (query = [] ∧ nameId ≠ "" ∨ Pointer query userId nameId)) ∨
  (∀ userId nameId, Route warp path userId nameId → 32 < nameId.length) ∧
    ∀ userId nameId, ¬Pointer (host ++ (path ++ query)) userId nameId

/-- A pointer to what a routed path names is at the end of the path, or behind it. -/
theorem Route.pointer_iff {warp : Warp} (hwarp : warp.Documented) {path query : List Char}
    {userId : Uuid} {nameId : String} (h : Route warp path userId nameId)
    (hlen : nameId.length ≤ 32) (hpath : '?' ∉ path ∧ '#' ∉ path)
    (hquery : query.head? ∈ [none, some '?', some '#']) (host : List Char) :
    Pointer (host ++ (path ++ query)) userId nameId ↔
      query = [] ∧ nameId ≠ "" ∨ Pointer query userId nameId := by
  cases query with
  | nil =>
      rw [List.append_nil]
      constructor
      · exact fun hpointer => .inl ⟨rfl, hpointer.nonblank⟩
      · rintro (⟨-, hne⟩ | hpointer)
        · exact h.pointer hne ((h.byteLen hwarp).trans_le hlen) host
        · obtain ⟨before, wsid, i, j, k, n, -, -, htext⟩ := hpointer.ends
          simp [suffixed, slashes] at htext
  | cons q query =>
      have hmark : q = '?' ∨ q = '#' := by simpa using hquery
      have hq : q ∈ ['/', '?', '#'] ∧ q ≠ '/' ∧ q ∉ path := by
        rcases hmark with rfl | rfl
        · exact ⟨by decide, by decide, hpath.1⟩
        · exact ⟨by decide, by decide, hpath.2⟩
      rw [← List.append_assoc, pointer_query hq.1 hq.2.1 fun hm => hq.2.2 (h.name_mem q hm)]
      simp

/-- For every url on the url line of a comment, the parser answers what `GET` of the url looks up
exactly where the path is a route to the endpoint with nothing that hides it, or neither finds a
name. -/
theorem comment_url_route_iff {warp : Warp} (hwarp : warp.Documented) {comment : String}
    {scheme host path query : List Char}
    (hurl : commentUrl comment = some (scheme ++ "://".toList ++ (host ++ (path ++ query))))
    (hscheme : ':' ∉ scheme) (hpath : '?' ∉ path ∧ '#' ∉ path)
    (hquery : query.head? ∈ [none, some '?', some '#']) :
    ReadsAlike warp comment (path ++ query) ↔ PointsAlike warp host path query := by
  have hparse : ∀ userId nameId, parseDppCommentUrl comment = some (userId, nameId) ↔
      Pointer (host ++ (path ++ query)) userId nameId := by
    intro userId nameId
    rw [parseDppCommentUrl_eq, hurl, Option.bind_some, auxSpecPath_iff hscheme]
  have huri : uriPath (path ++ query) = path := uriPath_append hpath hquery
  have hunique : ∀ {userId nameId userId' nameId'}, Route warp path userId nameId →
      Route warp path userId' nameId' → userId' = userId ∧ nameId' = nameId := by
    intro userId nameId userId' nameId' h h'
    rw [← huri] at h h'
    exact Route.unique hwarp h h'
  simp only [ReadsAlike, hparse, getCustomMapAuxSpec_iff hwarp, huri]
  by_cases hhit : ∃ userId nameId, Route warp path userId nameId ∧ nameId.length ≤ 32
  · obtain ⟨userId, nameId, hroute, hlen⟩ := hhit
    have hends := hroute.pointer_iff hwarp hlen hpath hquery host
    constructor
    · exact fun h => .inl ⟨userId, nameId, hroute, hlen,
        hends.1 ((h userId nameId).2 ⟨hroute, hlen⟩)⟩
    · rintro (⟨userId', nameId', hroute', -, hends'⟩ | ⟨hnone, -⟩)
      · obtain ⟨rfl, rfl⟩ := hunique hroute hroute'
        have hpointer := hends.2 hends'
        intro userId nameId
        constructor
        · intro h
          obtain ⟨rfl, rfl⟩ := hpointer.unique h
          exact ⟨hroute, hlen⟩
        · rintro ⟨h, -⟩
          obtain ⟨rfl, rfl⟩ := hunique hroute h
          exact hpointer
      · exact absurd (hnone userId nameId hroute) (Nat.not_lt_of_le hlen)
  · have hlong : ∀ userId nameId, Route warp path userId nameId → 32 < nameId.length :=
      fun userId nameId h => Nat.lt_of_not_le fun hlen => hhit ⟨userId, nameId, h, hlen⟩
    constructor
    · intro h
      refine .inr ⟨hlong, fun userId nameId hpointer => ?_⟩
      exact hhit ⟨userId, nameId, (h userId nameId).1 hpointer⟩
    · rintro (⟨userId, nameId, hroute, hlen, -⟩ | ⟨-, hnone⟩)
      · exact absurd ⟨userId, nameId, hroute, hlen⟩ hhit
      · exact fun userId nameId =>
          iff_of_false (hnone userId nameId) fun h => hhit ⟨userId, nameId, h⟩

/-! ## A router that lets a slash pass -/

namespace Text

theorem splitSlashFrom_ne_nil (seg cs : List Char) : splitSlashFrom seg cs ≠ [] := by
  induction cs generalizing seg with
  | nil => simp [splitSlashFrom]
  | cons c cs ih =>
      rw [splitSlashFrom_cons]
      split
      · simp
      · exact ih _

/-- The segments with slashes between them are the text. -/
theorem intercalate_splitSlash (cs : List Char) : List.intercalate ['/'] (splitSlash cs) = cs := by
  have hfrom : ∀ seg, List.intercalate ['/'] (splitSlashFrom seg cs) = seg.reverse ++ cs := by
    induction cs with
    | nil => simp [splitSlashFrom]
    | cons c cs ih =>
        intro seg
        rw [splitSlashFrom_cons]
        split
        · rename_i h
          rw [List.intercalate_cons_of_ne_nil (splitSlashFrom_ne_nil _ _), ih, h]
          simp
        · rw [ih]
          simp
  exact hfrom []

theorem notMem_of_mem_splitSlash {cs s : List Char} (h : s ∈ splitSlash cs) : '/' ∉ s := by
  have hfrom : ∀ seg, '/' ∉ seg → ∀ s ∈ splitSlashFrom seg cs, '/' ∉ s := by
    clear h
    induction cs with
    | nil => simp [splitSlashFrom]
    | cons c cs ih =>
        intro seg hseg s hs
        rw [splitSlashFrom_cons] at hs
        split at hs
        · rcases List.mem_cons.1 hs with rfl | hs
          · simpa using hseg
          · exact ih [] (by simp) s hs
        · rename_i hc
          refine ih (c :: seg) ?_ s hs
          rw [List.mem_cons, not_or]
          exact ⟨fun h => hc h.symm, hseg⟩
  exact hfrom [] (by simp) s h

end Text

/-- A router that compares the segments. -/
def plainWarp : Warp where
  inTarget := isPathChar
  auxSpec path :=
    let route (x a b : List Char) :=
      if x = "aux_spec".toList ∧ a ≠ [] ∧ b ≠ [] then some (a, b) else none
    match Text.splitSlash path with
    | [[], x, a, b] => route x a b
    | [[], x, a, b, []] => route x a b
    | _ => none
  trailingSlash := true

theorem isPathChar_printable {c : Char} (h : isPathChar c = true) :
    0x21 ≤ c.toNat ∧ c.toNat ≤ 0x7E := by
  have hspan : ∀ first last : Char, 0x21 ≤ first.toNat → last.toNat ≤ 0x7E →
      first.val ≤ c.val ∧ c.val ≤ last.val → 0x21 ≤ c.toNat ∧ c.toNat ≤ 0x7E :=
    fun _ _ hfirst hlast hc => ⟨hfirst.trans (UInt32.le_iff_toNat_le.1 hc.1),
      (UInt32.le_iff_toNat_le.1 hc.2).trans hlast⟩
  have hsigns : "-._~!$&'()*+,;=:@%/".toList.all (fun c => 0x21 ≤ c.toNat ∧ c.toNat ≤ 0x7E) =
      true := by
    decide
  rcases Bool.or_eq_true_iff.1 h with h | h
  · rcases Bool.or_eq_true_iff.1 h with h | hdigit
    · rcases Bool.or_eq_true_iff.1 h with hupper | hlower
      · exact hspan 'A' 'Z' (by decide) (by decide) (of_decide_eq_true hupper)
      · exact hspan 'a' 'z' (by decide) (by decide)
          ((Bool.and_eq_true_iff.1 hlower).imp of_decide_eq_true of_decide_eq_true)
    · exact hspan '0' '9' (by decide) (by decide)
        ((Bool.and_eq_true_iff.1 hdigit).imp of_decide_eq_true of_decide_eq_true)
  · exact of_decide_eq_true (List.all_eq_true.1 hsigns c (of_decide_eq_true h))

theorem plainWarp_documented : plainWarp.Documented := by
  refine ⟨fun _ => id, fun _ => isPathChar_printable, ?_⟩
  rintro path - a b
  have haux : '/' ∉ "aux_spec".toList := by decide
  have hslash : "/aux_spec/".toList = [] ++ '/' :: ("aux_spec".toList ++ '/' :: []) := by decide
  have hroute : ∀ x a' b', (if x = "aux_spec".toList ∧ a' ≠ [] ∧
      b' ≠ [] then some (a', b') else none) = some (a, b) ↔
      x = "aux_spec".toList ∧ a' = a ∧ b' = b ∧ a ≠ [] ∧ b ≠ [] := by
    intro x a' b'
    split
    case isTrue h =>
      rw [Option.some_inj, Prod.mk.injEq]
      constructor
      · rintro ⟨rfl, rfl⟩
        exact ⟨h.1, rfl, rfl, h.2⟩
      · rintro ⟨-, rfl, rfl, -⟩
        exact ⟨rfl, rfl⟩
    case isFalse h =>
      refine iff_of_false (fun h => nomatch h) ?_
      rintro ⟨hx, rfl, rfl, hne⟩
      exact h ⟨hx, hne⟩
  constructor
  · intro h
    simp only [plainWarp] at h
    have hjoin := Text.intercalate_splitSlash path
    have hmem := fun s => @Text.notMem_of_mem_splitSlash path s
    split at h
    case h_1 x a' b' hsegs =>
      obtain ⟨rfl, rfl, rfl, hne⟩ := (hroute _ _ _).1 h
      rw [hsegs] at hjoin hmem
      refine ⟨hne.1, hne.2, hmem _ (by simp), hmem _ (by simp), .inl ?_⟩
      rw [← hjoin, hslash]
      simp [List.intercalate_cons_cons]
    case h_2 x a' b' hsegs =>
      obtain ⟨rfl, rfl, rfl, hne⟩ := (hroute _ _ _).1 h
      rw [hsegs] at hjoin hmem
      refine ⟨hne.1, hne.2, hmem _ (by simp), hmem _ (by simp), .inr ⟨rfl, ?_⟩⟩
      rw [← hjoin, hslash]
      simp [List.intercalate_cons_cons]
    case h_3 => cases h
  · rintro ⟨ha, hb, hsa, hsb, hpath⟩
    have hsplit : ∀ rest, Text.splitSlash ("/aux_spec/".toList ++ a ++ '/' :: rest) =
        [] :: "aux_spec".toList :: a :: Text.splitSlash rest := by
      intro rest
      have hassoc : "/aux_spec/".toList ++ a ++ '/' :: rest =
          [] ++ '/' :: ("aux_spec".toList ++ '/' :: (a ++ '/' :: rest)) := by
        rw [hslash]
        simp
      rw [hassoc, Text.splitSlash_append, Text.splitSlash_append, Text.splitSlash_append,
        Text.splitSlash_of_notMem haux, Text.splitSlash_of_notMem hsa]
      rfl
    rcases hpath with rfl | ⟨-, rfl⟩
    · simp only [plainWarp, hsplit, Text.splitSlash_of_notMem hsb]
      exact if_pos ⟨trivial, ha, hb⟩
    · have hlast : Text.splitSlash (b ++ ['/']) = [b, []] := by
        rw [Text.splitSlash_append, Text.splitSlash_of_notMem hsb]
        rfl
      simp only [plainWarp, hsplit, hlast]
      exact if_pos ⟨trivial, ha, hb⟩

/-- The comment of a map with a url. -/
def linked (url : String) : String := "--BEGIN-DPP--\nurl=" ++ url ++ "\n--END-DPP--"

theorem comment_url_route_iff_tower :
    ReadsAlike plainWarp
        (linked "https://x/aux_spec/00000000-0000-0000-0000-00000000002a/tower.json")
          "/aux_spec/00000000-0000-0000-0000-00000000002a/tower.json".toList ∧
      ¬ReadsAlike plainWarp
        (linked "https://x/aux_spec/00000000-0000-0000-0000-00000000002a/tür.json")
          "/aux_spec/00000000-0000-0000-0000-00000000002a/tür.json".toList := by
  have htower : commentUrl
      (linked "https://x/aux_spec/00000000-0000-0000-0000-00000000002a/tower.json") =
      some ("https".toList ++ "://".toList ++ ("x".toList ++
        ("/aux_spec/00000000-0000-0000-0000-00000000002a/tower.json".toList ++ []))) := by decide
  have hother : commentUrl
      (linked "https://x/aux_spec/00000000-0000-0000-0000-00000000002a/tür.json") =
      some ("https".toList ++ "://".toList ++ ("x".toList ++
        ("/aux_spec/00000000-0000-0000-0000-00000000002a/tür.json".toList ++ []))) := by decide
  have htower := comment_url_route_iff plainWarp_documented htower (by decide)
    (by decide) (by decide)
  have hother := comment_url_route_iff plainWarp_documented hother (by decide)
    (by decide) (by decide)
  rw [List.append_nil] at htower hother
  constructor
  · refine htower.2 (.inl ⟨42, "tower", ⟨List.all_eq_true.1 (by decide), ?_, by decide, by decide⟩,
      by decide, .inl ⟨rfl, by decide⟩⟩)
    exact ⟨"00000000-0000-0000-0000-00000000002a".toList, 0, [], by decide, .inl rfl, by decide⟩
  · intro h
    -- No request holds the path, but the parser finds the pointer.
    rcases hother.1 h with ⟨userId, nameId, hroute, -⟩ | ⟨-, hnone⟩
    · exact absurd (hroute.carried 'ü' (by decide)) (by decide)
    · refine hnone 42 "tür" ⟨?_, by decide, by decide, by decide, by decide⟩
      exact ⟨"x/".toList, "00000000-0000-0000-0000-00000000002a".toList, 0, 0, 0, 1,
        .inr (by decide), by decide, by decide⟩

/-- Without the suffix the parser answers an id and a name, and the route does not. -/
theorem comment_url_without_suffix :
    parseDppCommentUrl (linked "https://x/aux_spec/00000000-0000-0000-0000-00000000002a/tower") =
      some (42#128, "tower") ∧
    getCustomMapAuxSpec plainWarp "/aux_spec/00000000-0000-0000-0000-00000000002a/tower".toList =
      none ∧
    ¬ReadsAlike plainWarp (linked "https://x/aux_spec/00000000-0000-0000-0000-00000000002a/tower")
        "/aux_spec/00000000-0000-0000-0000-00000000002a/tower".toList := by
  have hparse : parseDppCommentUrl
      (linked "https://x/aux_spec/00000000-0000-0000-0000-00000000002a/tower") =
      some (42#128, "tower") := by decide
  have hroute : getCustomMapAuxSpec plainWarp
      "/aux_spec/00000000-0000-0000-0000-00000000002a/tower".toList = none := by
    decide
  refine ⟨hparse, hroute, fun h => ?_⟩
  obtain ⟨hget, -⟩ := (h 42 "tower").1 hparse
  rw [hroute] at hget
  cases hget

end Dd2Server
