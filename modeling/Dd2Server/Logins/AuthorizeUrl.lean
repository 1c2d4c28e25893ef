import Dd2Server.Http.Query
import Dd2Server.Logins.Handlers

/-!
# The URL of a login

`oauth_start` sends the browser to a URL whose query has the id of the client, where to come back
to, and the state.  `authorize_url_read` says what the other side reads there: the state as it is,
and of the configured texts the low bytes of their characters, which are the texts themselves just
when they are ASCII.  The state is one that was saved (`handleOauthStart_web`).
-/

namespace Dd2Server.Logins

/-- `c as u8` of each character. -/
def lowBytes (cs : List Char) : Http.Bytes := cs.map fun c => UInt8.ofNat (c.toNat % 256)

def IsAscii (cs : List Char) : Prop := ∀ c ∈ cs, c.toNat < 128

/-! ## One character -/

/-- Is left as it is. -/
def isUnreserved (c : Char) : Bool := c.isAlphanum || c = '-' || c = '_' || c = '.' || c = '~'

/-- What a character is written as. -/
def encodeChar (c : Char) : List Char :=
  if isUnreserved c then [c] else ['%', hexUpper (c.toNat % 256 / 16), hexUpper (c.toNat % 16)]

theorem urlencodingEncode_eq (s : String) :
    urlencodingEncode s = String.ofList (s.toList.flatMap encodeChar) := rfl

theorem toNat_lt_of_isUnreserved {c : Char} (h : isUnreserved c = true) : c.toNat < 128 := by
  have hupper : c.isUpper = true → c.toNat < 128 := fun hc =>
    Nat.lt_of_le_of_lt (UInt32.le_iff_toNat_le.1 (of_decide_eq_true hc).2) (by decide)
  have hlower : c.isLower = true → c.toNat < 128 := fun hc =>
    Nat.lt_of_le_of_lt (UInt32.le_iff_toNat_le.1 (of_decide_eq_true (Bool.and_eq_true_iff.1 hc).2))
      (by decide)
  have hdigit : c.isDigit = true → c.toNat < 128 := fun hc =>
    Nat.lt_of_le_of_lt (Char.isDigit_iff_toNat.1 hc).2 (by decide)
  rw [isUnreserved] at h
  simp only [Bool.or_eq_true, decide_eq_true_eq] at h
  rcases h with (((h | rfl) | rfl) | rfl) | rfl
  · rcases Bool.or_eq_true_iff.1 h with h | h
    · exact (Bool.or_eq_true_iff.1 h).elim hupper hlower
    · exact hdigit h
  all_goals decide

theorem utf8EncodeChar_of_lt {c : Char} (h : c.toNat < 128) :
    String.utf8EncodeChar c = [UInt8.ofNat (c.toNat % 256)] := by
  have hsize : c.utf8Size = 1 :=
    Char.utf8Size_eq_one_iff.2 (UInt32.le_iff_toNat_le.2 (Nat.le_of_lt_succ h))
  rw [String.utf8EncodeChar_eq_singleton hsize, Nat.mod_eq_of_lt (by omega)]
  rfl

theorem one_lt_length_utf8EncodeChar {c : Char} (h : ¬c.toNat < 128) :
    1 < (String.utf8EncodeChar c).length := by
  rw [String.length_utf8EncodeChar]
  have hpos := c.utf8Size_pos
  have hone : c.utf8Size ≠ 1 := fun hsize =>
    h (Nat.lt_succ_of_le (UInt32.le_iff_toNat_le.1 (Char.utf8Size_eq_one_iff.1 hsize)))
  omega

theorem hexDigit_hexUpper {n : Nat} (h : n < 16) : Http.hexDigit (hexUpper n) = some n := by
  have hall : ∀ n < 16, Http.hexDigit (hexUpper n) = some n := by decide
  exact hall n h

theorem hexUpper_safe {n : Nat} (h : n < 16) : Http.Safe [hexUpper n] := by
  have hall : ∀ n < 16, Http.Safe [hexUpper n] := by decide
  exact hall n h

theorem decode_encodeChar (c : Char) (cs : List Char) :
    Http.decode (encodeChar c ++ cs) = UInt8.ofNat (c.toNat % 256) :: Http.decode cs := by
  rw [encodeChar]
  split
  case isTrue h =>
    have hpercent : c ≠ '%' := by
      rintro rfl
      exact absurd h (by decide)
    have hplus : c ≠ '+' := by
      rintro rfl
      exact absurd h (by decide)
    rw [List.singleton_append, Http.decode_cons hpercent hplus,
      utf8EncodeChar_of_lt (toNat_lt_of_isUnreserved h), List.singleton_append]
  case isFalse =>
    have hsum : 16 * (c.toNat % 256 / 16) + c.toNat % 16 = c.toNat % 256 := by omega
    have hhigh := hexDigit_hexUpper (show c.toNat % 256 / 16 < 16 by omega)
    have hlow := hexDigit_hexUpper (show c.toNat % 16 < 16 by omega)
    rw [List.cons_append, List.cons_append, List.singleton_append,
      Http.decode_escape hhigh hlow, hsum]

theorem encodeChar_safe (c : Char) : Http.Safe (encodeChar c) := by
  rw [encodeChar]
  split
  case isTrue h =>
    refine ⟨?_, ?_, ?_⟩ <;>
    · rw [List.mem_singleton]
      rintro rfl
      exact absurd h (by decide)
  case isFalse =>
    have hhigh := hexUpper_safe (show c.toNat % 256 / 16 < 16 by omega)
    have hlow := hexUpper_safe (show c.toNat % 16 < 16 by omega)
    exact Http.Safe.append (show Http.Safe ['%'] by decide) (hhigh.append hlow)

/-! ## Whole texts -/

theorem decode_encode (cs : List Char) : Http.decode (cs.flatMap encodeChar) = lowBytes cs := by
  induction cs with
  | nil => rfl
  | cons c cs ih => rw [List.flatMap_cons, decode_encodeChar, ih, lowBytes, lowBytes, List.map_cons]

theorem encode_safe (cs : List Char) : Http.Safe (cs.flatMap encodeChar) := by
  induction cs with
  | nil => exact (by decide : Http.Safe [])
  | cons c cs ih => rw [List.flatMap_cons]; exact (encodeChar_safe c).append ih

theorem length_le_length_utf8 (cs : List Char) : cs.length ≤ (Http.utf8 cs).length := by
  induction cs with
  | nil => exact Nat.le_refl 0
  | cons c cs ih =>
      have hpos := c.utf8Size_pos
      rw [Http.utf8] at ih
      rw [Http.utf8, List.flatMap_cons, List.length_append, String.length_utf8EncodeChar,
        List.length_cons]
      omega

/-- The low bytes are the text just when it is ASCII. -/
theorem lowBytes_eq_utf8 (cs : List Char) : lowBytes cs = Http.utf8 cs ↔ IsAscii cs := by
  induction cs with
  | nil => exact ⟨fun _ c hc => absurd hc List.not_mem_nil, fun _ => rfl⟩
  | cons c cs ih =>
      constructor
      case mp =>
        intro h
        have hc : c.toNat < 128 := by
          by_contra hlarge
          have hlen := congrArg List.length h
          have hrest := length_le_length_utf8 cs
          have hone := one_lt_length_utf8EncodeChar hlarge
          rw [lowBytes, Http.utf8, List.length_map, List.flatMap_cons, List.length_append,
            List.length_cons] at hlen
          rw [Http.utf8] at hrest
          omega
        rw [lowBytes, Http.utf8, List.map_cons, List.flatMap_cons, utf8EncodeChar_of_lt hc,
          List.singleton_append] at h
        intro d hd
        rcases List.mem_cons.1 hd with rfl | hd
        · exact hc
        · exact ih.1 (List.cons.inj h).2 d hd
      case mpr =>
        intro h
        have hrest := ih.2 fun d hd => h d (List.mem_cons_of_mem _ hd)
        rw [lowBytes, Http.utf8] at hrest
        rw [lowBytes, Http.utf8, List.map_cons, List.flatMap_cons, hrest,
          utf8EncodeChar_of_lt (h c List.mem_cons_self), List.singleton_append]

theorem hexFrom_ascii (id : Uuid) (i n : Nat) : IsAscii (id.hexFrom i n) := by
  have hall : ∀ d < 16, (hexChar d).toNat < 128 := by decide
  intro c hc
  obtain ⟨j, -, rfl⟩ := List.mem_map.1 hc
  exact hall _ (Nat.mod_lt _ (by decide))

theorem text_ascii (id : Uuid) : IsAscii id.text.toList := by
  have hdash : ('-').toNat < 128 := by decide
  rw [Uuid.text, String.toList_ofList]
  intro c hc
  simp only [List.mem_append, List.mem_cons] at hc
  rcases hc with (((hc | hc | hc) | hc | hc) | hc | hc) | hc | hc
  all_goals first | exact hexFrom_ascii id _ _ c hc | exact hc ▸ hdash

def utf8 (s : String) : Http.Bytes := Http.utf8 s.toList

/-- The fields of the query, as they are written. -/
def TmOauthConfig.authorizeFields (cfg : TmOauthConfig) (state : String) :
    List (List Char × List Char) :=
  [("response_type".toList, "code".toList),
    ("client_id".toList, cfg.clientId.toList.flatMap encodeChar),
    ("redirect_uri".toList, cfg.redirectUri.toList.flatMap encodeChar),
    ("state".toList, state.toList.flatMap encodeChar)]

theorem authorizeFields_safe (cfg : TmOauthConfig) (state : String) :
    ∀ f ∈ cfg.authorizeFields state, Http.Safe f.1 ∧ Http.Safe f.2 := by
  simp only [TmOauthConfig.authorizeFields, List.forall_mem_cons]
  exact ⟨⟨by decide, by decide⟩, ⟨by decide, encode_safe _⟩,
    ⟨by decide, encode_safe _⟩, ⟨by decide, encode_safe _⟩,
    fun f hf => absurd hf List.not_mem_nil⟩

theorem render_of_four {n₁ v₁ n₂ v₂ n₃ v₃ n₄ v₄ : List Char} :
    Http.render [(n₁, v₁), (n₂, v₂), (n₃, v₃), (n₄, v₄)] =
      n₁ ++ '=' :: v₁ ++ '&' :: (n₂ ++ ['=']) ++ v₂ ++ '&' :: (n₃ ++ ['=']) ++ v₃ ++
        '&' :: (n₄ ++ ['=']) ++ v₄ := by
  simp [Http.render, Http.part, List.intercalate]

theorem toList_of_three {p q r c d e : String} :
    (p ++ urlencodingEncode c ++ q ++ urlencodingEncode d ++ r ++ urlencodingEncode e).toList =
      p.toList ++ c.toList.flatMap encodeChar ++ q.toList ++ d.toList.flatMap encodeChar ++
        r.toList ++ e.toList.flatMap encodeChar := by
  simp only [urlencodingEncode_eq, String.toList_append, String.toList_ofList]

theorem authorizeUrl_toList (cfg : TmOauthConfig) (state : String) :
    (cfg.authorizeUrl state).toList =
      "https://api.trackmania.com/oauth/authorize".toList ++ '?' ::
        Http.render (cfg.authorizeFields state) := by
  have hfirst : "https://api.trackmania.com/oauth/authorize?response_type=code&client_id=".toList =
      "https://api.trackmania.com/oauth/authorize".toList ++
        '?' :: ("response_type".toList ++ '=' :: "code".toList ++ '&' ::
          ("client_id".toList ++ ['='])) := by decide
  have hsecond : "&redirect_uri=".toList = '&' :: ("redirect_uri".toList ++ ['=']) := by decide
  have hthird : "&state=".toList = '&' :: ("state".toList ++ ['=']) := by decide
  refine toList_of_three.trans ?_
  rw [hfirst, hsecond, hthird, TmOauthConfig.authorizeFields, render_of_four]
  simp only [List.append_assoc, List.cons_append]

/-- **The other side reads the state, and the configured texts when they are ASCII.** -/
theorem authorize_url_read (cfg : TmOauthConfig) (id : Uuid) :
    Http.fields (Http.query (cfg.authorizeUrl id.text).toList) =
      [(utf8 "response_type", utf8 "code"), (utf8 "client_id", lowBytes cfg.clientId.toList),
        (utf8 "redirect_uri", lowBytes cfg.redirectUri.toList), (utf8 "state", utf8 id.text)] ∧
    (lowBytes cfg.clientId.toList = utf8 cfg.clientId ↔ IsAscii cfg.clientId.toList) ∧
    (lowBytes cfg.redirectUri.toList = utf8 cfg.redirectUri ↔
      IsAscii cfg.redirectUri.toList) := by
  have hsafe := authorizeFields_safe cfg id.text
  have hstate := (lowBytes_eq_utf8 _).2 (text_ascii id)
  refine ⟨?_, lowBytes_eq_utf8 _, lowBytes_eq_utf8 _⟩
  have hne : cfg.authorizeFields id.text ≠ [] := List.cons_ne_nil _ _
  rw [authorizeUrl_toList, Http.query_append (by decide) (Http.not_mem_render hsafe),
    Http.fields_render hne hsafe]
  simp only [TmOauthConfig.authorizeFields, List.map_cons, List.map_nil, decode_encode, hstate]
  have hnames : ∀ s ∈ ["response_type", "code", "client_id", "redirect_uri", "state"],
      '%' ∉ s.toList ∧ '+' ∉ s.toList := by decide
  have hplain {s : String}
      (hs : s ∈ ["response_type", "code", "client_id", "redirect_uri", "state"]) :
      Http.decode s.toList = utf8 s := Http.decode_eq_utf8 (hnames s hs).1 (hnames s hs).2
  rw [hplain (by simp), hplain (by simp), hplain (by simp), hplain (by simp),
    hplain (by simp), ← utf8]

end Dd2Server.Logins
