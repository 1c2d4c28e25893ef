import Dd2Server.Runtime

/-!
# The spec pointer in a map comment

`parse_dpp_comment_url` finds the block between `--BEGIN-DPP--` and `--END-DPP--`, its `url=` line,
and reads the owner and the name of a spec off the end of the path.  `Uuid::parse_str` takes the
simple, the hyphenated, the braced and the URN form.
-/

namespace Dd2Server

namespace Text

/-- The text from the first occurrence of `p` on. -/
def findFrom (p : List Char) : List Char → Option (List Char)
  | [] => if p = [] then some [] else none
  | c :: cs => if (stripPrefix p (c :: cs)).isSome then some (c :: cs) else findFrom p cs

/-- The text before the first occurrence of `p`. -/
def findUntil (p : List Char) : List Char → Option (List Char)
  | [] => if p = [] then some [] else none
  | c :: cs =>
      if (stripPrefix p (c :: cs)).isSome then some []
      else (findUntil p cs).map fun before => c :: before

/-- A line without the `\r` that came before its `\n`. -/
def dropCr (line : List Char) : List Char :=
  if line.getLast? = some '\r' then line.dropLast else line

/-- `str::lines`; `line` is the line read so far, backwards. -/
def linesFrom (line : List Char) : List Char → List (List Char)
  | [] => if line = [] then [] else [line.reverse]
  | '\n' :: cs => dropCr line.reverse :: linesFrom [] cs
  | c :: cs => linesFrom (c :: line) cs

def lines (cs : List Char) : List (List Char) := linesFrom [] cs

/-- `trim_start_matches` with a pattern of at least one character. -/
def trimStartMatches (p : List Char) : (fuel : Nat) → List Char → List Char
  | 0, cs => cs
  | fuel + 1, cs =>
      match stripPrefix p cs with
      | some rest => trimStartMatches p fuel rest
      | none => cs

/-- `trim_end_matches` with a pattern of at least one character. -/
def trimEndMatches (p : List Char) (cs : List Char) : List Char :=
  (trimStartMatches p.reverse cs.length cs.reverse).reverse

/-- What follows the first occurrence of `p`. -/
def splitOnceAfter (p cs : List Char) : Option (List Char) := (findFrom p cs).bind (stripPrefix p)

/-- `split('/')`; `seg` is the segment read so far, backwards. -/
def splitSlashFrom (seg : List Char) : List Char → List (List Char)
  | [] => [seg.reverse]
  | '/' :: cs => seg.reverse :: splitSlashFrom [] cs
  | c :: cs => splitSlashFrom (c :: seg) cs

def splitSlash (cs : List Char) : List (List Char) := splitSlashFrom [] cs

end Text

/-! ## Ids -/

/-- The digits without hyphens at positions 8, 13, 18 and 23. -/
def unhyphenated (cs : List Char) : Option (List Char) :=
  let hyphens := [8, 13, 18, 23]
  if cs.length = 36 ∧ hyphens.all (fun i => cs[i]? = some '-') then
    some (cs.take 8 ++ (cs.drop 9).take 4 ++ (cs.drop 14).take 4 ++ (cs.drop 19).take
      4 ++ cs.drop 24)
  else none

/-- The 32 digits of one of the four forms. -/
def uuidDigits (cs : List Char) : Option (List Char) :=
  if cs.length = 32 then some cs
  else if cs.length = 36 then unhyphenated cs
  else if cs.length = 38 ∧ cs.head? = some '{' ∧ cs.getLast? = some '}' then
    unhyphenated (cs.tail.dropLast)
  else if cs.length = 45 then (Text.stripPrefix "urn:uuid:".toList cs).bind unhyphenated
  else none

/-- `Uuid::parse_str`. -/
def Uuid.parse (cs : List Char) : Option Uuid :=
  (uuidDigits cs).bind fun ds => (Text.readDigits 16 (2 ^ 128) 0 ds).map fun n => BitVec.ofNat 128 n

/-! ## The comment -/

/-- The url of a block: its first `url=` line. -/
def dppUrl (block : List Char) : Option (List Char) :=
  ((Text.lines block).find? fun l => (Text.stripPrefix "url=".toList (Text.trimStart l)).isSome).map
    fun l => Text.trimChars (Text.trimStartMatches "url=".toList l.length (Text.trimStart l))

/-- The owner and the name at the end of an aux-spec path. -/
def auxSpecPath (url : List Char) : Option (Uuid × String) :=
  let path := (Text.splitOnceAfter "://".toList url).getD url
  match ((Text.splitSlash path).filter fun s => s ≠ []).reverse with
  | name :: wsid :: parent :: _ =>
      let name := String.ofList (Text.trimEndMatches ".json".toList name)
      if parent = "aux_spec".toList then
        (Uuid.parse wsid).bind fun wsid =>
          if name = "" ∨ 32 < Text.byteLen name then none else some (wsid, name)
      else none
  | _ => none

def parseDppCommentUrl (comment : String) : Option (Uuid × String) :=
  (Text.findFrom "--BEGIN-DPP--".toList comment.toList).bind fun start =>
    (Text.findUntil "--END-DPP--".toList start).bind fun block => (dppUrl block).bind auxSpecPath

example : parseDppCommentUrl
    ("hi\n--BEGIN-DPP--\n url=https://x/aux_spec/" ++
      "00000000-0000-0000-0000-00000000002a/tower.json\n--END-DPP--") = some (42#128, "tower") := by
  decide

end Dd2Server
