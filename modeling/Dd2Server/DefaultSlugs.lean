import Dd2Server.Schema
import Mathlib.Data.List.Basic
import Mathlib.Data.List.Induction

/-!
# Default slugs

The loops of the three catalog parsers share one shape, `SlugLoop`: an item is skipped, or it is an
entry that takes its explicit slug or the default one, and the loop stops when that slug is taken.
The defaults of collectibles and hats move past the numbers that explicit slugs bear, up to the last
`u32`.  Those of minigames count the entries of a kind and do not look at explicit slugs.
-/

namespace Dd2Server

/-! ## Numbers in decimal -/

namespace Text

theorem digitOf_digitChar : ∀ d < 10, digitOf 10 (Nat.digitChar d) = some d := by decide

theorem readDigits_append (b bound acc : Nat) (xs ys : List Char) :
    readDigits b bound acc (xs ++ ys) =
      (readDigits b bound acc xs).bind fun n => readDigits b bound n ys := by
  induction xs generalizing acc with
  | nil => rfl
  | cons c xs ih =>
      rw [List.cons_append, readDigits, readDigits]
      split
      · rfl
      · split
        · exact ih _
        · rfl

theorem readDigits_natChars {bound n : Nat} (h : n < bound) :
    readDigits 10 bound 0 (natChars n) = some n := by
  induction n using Nat.strongRecOn with
  | ind n ih =>
      have hdigit : ∀ acc d, d < 10 → acc * 10 + d < bound →
          readDigits 10 bound acc [Nat.digitChar d] = some (acc * 10 + d) := by
        intro acc d hd hlt
        rw [readDigits, digitOf_digitChar d hd]
        show (if acc * 10 + d < bound then _ else _) = _
        rw [if_pos hlt, readDigits]
      unfold natChars at ih ⊢
      rcases Nat.lt_or_ge n 10 with hn | hn
      · rw [Nat.toDigits_of_lt_base hn, hdigit 0 n hn (by omega)]
        simp
      · rw [Nat.toDigits_of_base_le (by decide) hn, readDigits_append,
          ih (n / 10) (by omega) (by omega)]
        show readDigits 10 bound (n / 10) _ = _
        rw [hdigit (n / 10) (n % 10) (by omega) (by omega)]
        congr 1
        omega

theorem natChars_inj {m n : Nat} (h : natChars m = natChars n) : m = n := by
  have hm : readDigits 10 (m + n + 1) 0 (natChars m) = some m := readDigits_natChars (by omega)
  rw [h, readDigits_natChars (by omega)] at hm
  exact (Option.some.inj hm).symm

theorem isDigit_of_mem_natChars {n : Nat} {c : Char} (h : c ∈ natChars n) : c.isDigit = true :=
  Nat.isDigit_of_mem_toDigits (by decide) (by decide) h

theorem parseU32_natChars {n : Nat} (h : n < 2 ^ 32) : parseU32 (natChars n) = some n := by
  have hread := readDigits_natChars h
  unfold parseU32 fromStrRadix
  split
  case h_1 hnil => exact absurd hnil (by simp [natChars])
  case h_2 hplus =>
    exact absurd (isDigit_of_mem_natChars (n := n) (hplus ▸ List.mem_cons_self)) (by decide)
  case h_3 cs hne hplus =>
    exact absurd (isDigit_of_mem_natChars (n := n) (hplus ▸ List.mem_cons_self)) (by decide)
  case h_4 => exact hread

end Text

/-- The number that a slug bears after the stem. -/
def slugNumber (stem slug : String) : Option Nat :=
  (Text.stripPrefix stem.toList slug.toList).bind Text.parseU32

theorem numbered_toList (stem : String) (n : Nat) :
    (numbered stem n).toList = stem.toList ++ Text.natChars n := by
  simp [numbered]

theorem slugNumber_numbered {stem : String} {n : Nat} (h : n < 2 ^ 32) :
    slugNumber stem (numbered stem n) = some n := by
  rw [slugNumber, numbered_toList, Text.stripPrefix_append]
  exact Text.parseU32_natChars h

theorem numbered_inj {stem stem' : String} {m n : Nat} (hs : '-' ∉ stem.toList)
    (h : numbered (stem ++ "-") m = numbered (stem' ++ "-") n) : stem = stem' ∧ m = n := by
  have hdash : ∀ {n}, '-' ∉ Text.natChars n :=
    fun hm => absurd (Text.isDigit_of_mem_natChars hm) (by decide)
  have hlist := congrArg String.toList h
  simp only [numbered_toList, String.toList_append, List.append_assoc] at hlist
  obtain ⟨hstem, -, hdigits⟩ := (List.append_cons_inj_of_notMem hs hdash).1 hlist.symm.symm
  exact ⟨String.toList_inj.1 hstem, Text.natChars_inj hdigits⟩

/-! ## The loop -/

/-- What a parser keeps between two items: the slugs taken so far, and the state of its default
slugs. -/
structure Taken (σ : Type) where
  seen : List String
  counter : σ

/-- The loop of a catalog parser. -/
structure SlugLoop (σ : Type) where
  catalog : String
  /-- The kind of an entry; the items without one are skipped. -/
  kind : Value → Option String
  /-- The default slug of an entry of a kind. -/
  dflt : σ → String → String
  /-- The state after an entry of a kind took a slug. -/
  after : σ → String → String → σ
  /-- Why an entry is refused after it took its slug. -/
  refuses : Value → Option CatalogValidationError

namespace SlugLoop

variable {σ : Type} (l : SlugLoop σ)

/-- One turn of the loop. -/
def turn (t : Taken σ) (item : Value) : Except CatalogValidationError (Taken σ) :=
  match l.kind item with
  | none => .ok t
  | some k => do
      let slug ← slugOr l.catalog item (l.dflt t.counter k)
      if slug ∈ t.seen then .error (.duplicateSlug l.catalog slug)
      else
        match l.refuses item with
        | some e => .error e
        | none => .ok { seen := slug :: t.seen, counter := l.after t.counter k slug }

def turns (start : σ) (items : List Value) : Except CatalogValidationError (Taken σ) :=
  items.foldlM l.turn { seen := [], counter := start }

end SlugLoop

/-- The error of a parser. -/
def failure {ε α : Type} : Except ε α → Option ε
  | .error e => some e
  | .ok _ => none

def gamesLoop : SlugLoop (String → Nat) where
  catalog := "minigame"
  kind g := if g.isObject then (mapKindFromGame g).map Prod.fst else none
  dflt kindCounts kind := numbered (kind ++ "-") (kindCounts kind + 1)
  after kindCounts kind _ := fun k => if k = kind then kindCounts kind + 1 else kindCounts k
  refuses _ := none

/-- The loop of a parser that counts on from the numbers its explicit slugs bear. -/
def numberedLoop (catalog stem : String) (entry : Value → Bool)
    (refuses : Value → Option CatalogValidationError) : SlugLoop Nat where
  catalog
  kind item := if entry item then some stem else none
  dflt nextDefault _ := numbered stem nextDefault
  after nextDefault _ slug := nextDefaultAfter stem slug nextDefault
  refuses

def collectiblesLoop : SlugLoop Nat :=
  numberedLoop "collectible" "Collectible-"
    (fun item => item.isObject && (parseCollectPaths item).isSome) fun _ => none

def hatsLoop : SlugLoop Nat :=
  numberedLoop "hat" "Hat-" Value.isObject fun item => failure (parseUnlock item)

/-! ## The parsers run the loops -/

/-- The parser goes through the items as the loop does: it stops with the same error, and the
entries it adds are among those that took a slug. -/
def SlugLoop.Runs {σ α : Type} (l : SlugLoop σ) (slug : α → String)
    (parse : List String → σ → List Value → Except CatalogValidationError (List α)) :
    Prop :=
  ∀ seen counter, parse seen counter [] = .ok [] ∧ ∀ item items,
    (∃ e, l.turn { seen, counter } item = .error e ∧
      parse seen counter (item :: items) = .error e) ∨
    ∃ t entries, l.turn { seen, counter } item = .ok t ∧
      (seen.reverse ++ entries.map slug).Sublist t.seen.reverse ∧
      parse seen counter (item :: items) = (parse t.seen t.counter items).map (entries ++ ·)

/-- A parser and a loop of one answer: they fail alike, and the entries that the parser answers are,
in their order, some of those that took a slug in the loop. -/
structure SlugLoop.Mirrors {σ α : Type} (l : SlugLoop σ) (start : σ) (items : List Value)
    (slug : α → String) (answer : Except CatalogValidationError (List α)) : Prop where
  failures : failure answer = failure (l.turns start items)
  slugs : ∀ entries t, answer = .ok entries → l.turns start items = .ok t →
    (entries.map slug).Sublist t.seen.reverse

theorem SlugLoop.Runs.mirrors {σ α : Type} {l : SlugLoop σ} {slug : α → String}
    {parse : List String → σ → List Value → Except CatalogValidationError (List α)}
    (h : l.Runs slug parse) (start : σ) (items : List Value) :
    l.Mirrors start items slug (parse [] start items) := by
  have hfrom : ∀ seen counter,
      failure (parse seen counter items) = failure (items.foldlM l.turn { seen, counter }) ∧
      ∀ entries t, parse seen counter items = .ok entries →
        items.foldlM l.turn { seen, counter } = .ok t →
        (seen.reverse ++ entries.map slug).Sublist t.seen.reverse := by
    induction items with
    | nil =>
        intro seen counter
        rw [(h seen counter).1]
        refine ⟨rfl, fun entries t hentries ht => ?_⟩
        cases hentries
        cases ht
        simp
    | cons item items ih =>
        intro seen counter
        rw [List.foldlM_cons]
        rcases (h seen counter).2 item items with ⟨e, hturn, hparse⟩ |
          ⟨t, entries, hturn, hsub, hparse⟩
        · rw [hturn, hparse]
          refine ⟨rfl, fun entries t hentries => ?_⟩
          cases hentries
        · obtain ⟨hfail, hslugs⟩ := ih t.seen t.counter
          rw [hturn, hparse]
          constructor
          · refine Eq.trans ?_ hfail
            cases parse t.seen t.counter items <;> rfl
          · intro all t' hall ht'
            cases hrest : parse t.seen t.counter items with
            | error e =>
                rw [hrest] at hall
                cases hall
            | ok rest =>
                rw [hrest] at hall
                cases hall
                rw [List.map_append, ← List.append_assoc]
                exact (hsub.append_right _).trans (hslugs rest t' hrest ht')
  exact ⟨(hfrom [] start).1,
    fun entries t hentries ht => (hfrom [] start).2 entries t hentries ht⟩

theorem map_nil_append {α : Type} (x : Except CatalogValidationError (List α)) :
    x = x.map ([] ++ ·) := by
  cases x <;> rfl

theorem catalogGamesFrom_runs : gamesLoop.Runs CatalogGame.slug catalogGamesFrom := by
  refine fun seen kindCounts => ⟨rfl, fun g games => ?_⟩
  rw [catalogGamesFrom, SlugLoop.turn]
  cases hobj : g.isObject with
  | false =>
      simp only [gamesLoop, hobj, Bool.false_eq_true, if_false]
      exact .inr ⟨_, [], rfl, by simp, map_nil_append _⟩
  | true =>
  cases hkind : mapKindFromGame g with
  | none =>
      simp only [gamesLoop, hobj, hkind, if_true, Option.map_none]
      exact .inr ⟨_, [], rfl, by simp, map_nil_append _⟩
  | some p =>
  obtain ⟨kind, lowerIsBetter⟩ := p
  simp only [gamesLoop, hobj, hkind, if_true, Option.map_some]
  cases slugOr "minigame" g (numbered (kind ++ "-") (kindCounts kind + 1)) with
  | error e => exact .inl ⟨e, rfl, rfl⟩
  | ok slug =>
      by_cases hseen : slug ∈ seen
      · exact .inl ⟨_, if_pos hseen, if_pos hseen⟩
      · exact .inr ⟨_, [_], if_neg hseen, by simp, if_neg hseen⟩

theorem catalogCollectiblesFrom_runs :
    collectiblesLoop.Runs CatalogCollectible.slug catalogCollectiblesFrom := by
  refine fun seen nextDefault => ⟨rfl, fun item items => ?_⟩
  rw [catalogCollectiblesFrom, SlugLoop.turn]
  cases hobj : item.isObject with
  | false =>
      simp only [collectiblesLoop, numberedLoop, hobj, Bool.false_and, Bool.false_eq_true, if_false]
      exact .inr ⟨_, [], rfl, by simp, map_nil_append _⟩
  | true =>
  cases hpaths : parseCollectPaths item with
  | none =>
      simp only [collectiblesLoop, numberedLoop, hobj, hpaths, Option.isSome_none, Bool.and_false,
        Bool.false_eq_true, if_false, if_true]
      exact .inr ⟨_, [], rfl, by simp, map_nil_append _⟩
  | some p =>
  obtain ⟨collectOnUnlock, hasZone, pickup⟩ := p
  simp only [collectiblesLoop, numberedLoop, hobj, hpaths, Option.isSome_some,
    Bool.and_true, if_true]
  cases slugOr "collectible" item (numbered "Collectible-" nextDefault) with
  | error e => exact .inl ⟨e, rfl, rfl⟩
  | ok slug =>
      by_cases hseen : slug ∈ seen
      · exact .inl ⟨_, if_pos hseen, if_pos hseen⟩
      · exact .inr ⟨_, [_], if_neg hseen, by simp, if_neg hseen⟩

theorem catalogHatsFrom_runs : hatsLoop.Runs CatalogHat.slug catalogHatsFrom := by
  refine fun seen nextDefault => ⟨rfl, fun item items => ?_⟩
  rw [catalogHatsFrom, SlugLoop.turn]
  cases hobj : item.isObject with
  | false =>
      simp only [hatsLoop, numberedLoop, hobj, Bool.false_eq_true, if_false]
      exact .inr ⟨_, [], rfl, by simp, map_nil_append _⟩
  | true =>
  simp only [hatsLoop, numberedLoop, hobj, if_true]
  cases slugOr "hat" item (numbered "Hat-" nextDefault) with
  | error e => exact .inl ⟨e, rfl, rfl⟩
  | ok slug =>
  by_cases hseen : slug ∈ seen
  · exact .inl ⟨_, if_pos hseen, if_pos hseen⟩
  cases parseUnlock item with
  | error e => exact .inl ⟨e, if_neg hseen, if_neg hseen⟩
  | ok unlock =>
      obtain ⟨finishThisMap, recordUids⟩ := unlock
      by_cases hkeep : (finishThisMap || !recordUids.isEmpty) = true
      · refine .inr ⟨_, [⟨slug, nameOr item slug, finishThisMap, recordUids⟩],
          if_neg hseen, by simp, (if_neg hseen).trans ?_⟩
        cases catalogHatsFrom (slug :: seen) (nextDefaultAfter "Hat-" slug nextDefault) items with
        | error e => rfl
        | ok rest => exact if_pos hkeep
      · refine .inr ⟨_, [], if_neg hseen, by simp, (if_neg hseen).trans ?_⟩
        cases catalogHatsFrom (slug :: seen) (nextDefaultAfter "Hat-" slug nextDefault) items with
        | error e => rfl
        | ok rest => exact if_neg hkeep

/-! ## What one turn does -/

/-- The trimmed explicit slug of an item. -/
def explicitSlug (item : Value) : Option String :=
  ((item.get "slug").bind Value.asStr).map Text.trim

/-- The slug that an entry bears: its explicit one, or the default. -/
def Bears (dflt : String) (item : Value) (slug : String) : Prop :=
  item.get "slug" = none ∧ slug = dflt ∨ explicitSlug item = some slug ∧ slug ≠ ""

theorem slugOr_ok {catalog dflt slug : String} {item : Value}
    (h : slugOr catalog item dflt = .ok slug) : Bears dflt item slug := by
  unfold slugOr at h
  split at h
  case h_1 hnone =>
    cases h
    exact .inl ⟨hnone, rfl⟩
  case h_2 value hsome =>
    split at h
    case h_1 => cases h
    case h_2 s hs =>
      split at h
      case isTrue => cases h
      case isFalse hne =>
        cases h
        exact .inr ⟨by simp [explicitSlug, hsome, hs], hne⟩

theorem slugOr_error {catalog dflt : String} {item : Value} {e : CatalogValidationError}
    (h : slugOr catalog item dflt = .error e) : e = .blankSlug catalog := by
  unfold slugOr at h
  split at h
  case h_1 => cases h
  case h_2 =>
    split at h
    case h_1 =>
      cases h
      rfl
    case h_2 =>
      split at h
      · cases h
        rfl
      · cases h

theorem Bears.explicit {dflt slug s : String} {item : Value} (h : Bears dflt item slug)
    (hs : explicitSlug item = some s) : s = slug := by
  rcases h with ⟨hnone, -⟩ | ⟨hslug, -⟩
  · simp [explicitSlug, hnone] at hs
  · rw [hslug] at hs
    exact (Option.some.inj hs).symm

namespace SlugLoop

variable {σ : Type} {l : SlugLoop σ} {t t' : Taken σ} {item : Value}

/-- A turn skips the item, or an entry takes a slug that is free. -/
theorem turn_ok (h : l.turn t item = .ok t') :
    (l.kind item = none ∧ t' = t) ∨ ∃ k slug, l.kind item = some k ∧
      Bears (l.dflt t.counter k) item slug ∧ slug ∉ t.seen ∧
      t' = { seen := slug :: t.seen, counter := l.after t.counter k slug } := by
  unfold turn at h
  split at h
  case h_1 hkind =>
    cases h
    exact .inl ⟨hkind, rfl⟩
  case h_2 k hkind =>
    obtain ⟨slug, hslug, h⟩ := bind_ok h
    split at h
    case isTrue => cases h
    case isFalse hfree =>
      split at h
      · cases h
      · cases h
        exact .inr ⟨k, slug, hkind, slugOr_ok hslug, hfree, rfl⟩

/-- A turn answers that a slug is taken when an entry bears a slug taken before. -/
theorem turn_duplicate {slug : String}
    (hrefuses : ∀ c s, l.refuses item ≠ some (.duplicateSlug c s))
    (h : l.turn t item = .error (.duplicateSlug l.catalog slug)) :
    ∃ k, l.kind item = some k ∧ Bears (l.dflt t.counter k) item slug ∧ slug ∈ t.seen := by
  unfold turn at h
  split at h
  case h_1 => cases h
  case h_2 k hkind =>
    cases hslug : slugOr l.catalog item (l.dflt t.counter k) with
    | error e =>
        rw [hslug] at h
        cases h
        cases slugOr_error hslug
    | ok s =>
        rw [hslug] at h
        change (if s ∈ t.seen then _ else _) = _ at h
        split at h
        case isTrue hseen =>
          cases h
          exact ⟨k, hkind, slugOr_ok hslug, hseen⟩
        case isFalse =>
          split at h
          case h_1 e he =>
            cases h
            exact absurd he (hrefuses _ _)
          case h_2 => cases h

theorem turns_snoc (start : σ) (items : List Value) (item : Value) :
    l.turns start (items ++ [item]) = l.turns start items >>= fun t => l.turn t item := by
  simp [turns, List.foldlM_append]

/-- What holds at the start and after each turn holds after all of them. -/
theorem turns_induction {start : σ} {P : List Value → Taken σ → Prop}
    (hstart : P [] { seen := [], counter := start })
    (hstep : ∀ pre t item t', l.turns start pre = .ok t → P pre t → l.turn t item = .ok t' →
      P (pre ++ [item]) t')
    {items : List Value} (h : l.turns start items = .ok t) : P items t := by
  induction items using List.reverseRecOn generalizing t with
  | nil =>
      cases h
      exact hstart
  | append_singleton items item ih =>
      rw [turns_snoc] at h
      obtain ⟨t₁, h₁, h⟩ := bind_ok h
      exact hstep items t₁ item t h₁ (ih h₁) h

/-- A failing run stops at an item. -/
theorem turns_error {start : σ} {items : List Value} {e : CatalogValidationError}
    (h : l.turns start items = .error e) : ∃ pre item post t, items = pre ++ item :: post ∧
      l.turns start pre = .ok t ∧ l.turn t item = .error e := by
  induction items using List.reverseRecOn with
  | nil => cases h
  | append_singleton items item ih =>
      rw [turns_snoc] at h
      cases hitems : l.turns start items with
      | error e' =>
          rw [hitems] at h
          cases h
          obtain ⟨pre, item', post, t, rfl, hpre, hturn⟩ := ih hitems
          exact ⟨pre, item', post ++ [item], t, by simp, hpre, hturn⟩
      | ok t =>
          rw [hitems] at h
          exact ⟨items, item, [], t, rfl, hitems, h⟩

/-- An entry among the items took the slug: it bears it, explicitly or as its default. -/
def TakenIn (l : SlugLoop σ) (start : σ) (items : List Value) (slug : String) : Prop :=
  ∃ pre item post, items = pre ++ item :: post ∧ ∃ t k, l.turns start pre = .ok t ∧
    l.kind item = some k ∧ Bears (l.dflt t.counter k) item slug

/-- No default slug was taken by an earlier entry. -/
def DefaultsFresh (l : SlugLoop σ) (start : σ) (items : List Value) : Prop :=
  ∀ pre item post t k, items = pre ++ item :: post → l.turns start pre = .ok t →
    l.kind item = some k → item.get "slug" = none → ¬l.TakenIn start pre (l.dflt t.counter k)

/-- Where a parser answers that a slug is taken, an entry bears it explicitly and an earlier one
took it. -/
def DuplicatesExplicit {α : Type} (l : SlugLoop σ) (start : σ) (items : List Value)
    (answer : Except CatalogValidationError α) : Prop :=
  ∀ slug, answer = .error (.duplicateSlug l.catalog slug) → ∃ pre item post k,
    items = pre ++ item :: post ∧ l.kind item = some k ∧ explicitSlug item = some slug ∧
      l.TakenIn start pre slug

end SlugLoop

/-- The splits of a list with one more item. -/
theorem exists_split_snoc {α : Type} {Q : List α → α → Prop} {xs : List α} {x : α} :
    (∃ pre y post, xs ++ [x] = pre ++ y :: post ∧ Q pre y) ↔
      (∃ pre y post, xs = pre ++ y :: post ∧ Q pre y) ∨ Q xs x := by
  constructor
  · rintro ⟨pre, y, post, he, hq⟩
    cases post using List.reverseRecOn with
    | nil =>
        obtain ⟨rfl, hx⟩ := List.append_inj' he rfl
        cases hx
        exact .inr hq
    | append_singleton post z =>
        rw [← List.cons_append, ← List.append_assoc] at he
        obtain ⟨rfl, -⟩ := List.append_inj' he rfl
        exact .inl ⟨pre, y, post, rfl, hq⟩
  · rintro (⟨pre, y, post, rfl, hq⟩ | hq)
    · exact ⟨pre, y, post ++ [x], by simp, hq⟩
    · exact ⟨xs, x, [], rfl, hq⟩

theorem not_exists_split_nil {α : Type} {Q : List α → α → Prop} :
    ¬∃ pre y post, ([] : List α) = pre ++ y :: post ∧ Q pre y := by
  rintro ⟨pre, y, post, he, -⟩
  simp at he

namespace SlugLoop

variable {σ : Type} {l : SlugLoop σ} {start : σ} {t : Taken σ} {items : List Value}

/-- The slugs seen are those that the entries took. -/
theorem mem_seen_iff (h : l.turns start items = .ok t) (slug : String) :
    slug ∈ t.seen ↔ l.TakenIn start items slug := by
  refine turns_induction (P := fun items t => ∀ slug, slug ∈ t.seen ↔
    l.TakenIn start items slug)
    (fun slug => ?_) (fun pre t item t' hpre ih hturn slug => ?_) h slug
  · exact iff_of_false (by simp) not_exists_split_nil
  · rw [TakenIn, exists_split_snoc]
    rcases turn_ok hturn with ⟨hkind, rfl⟩ | ⟨k, slug', hkind, hbears, -, rfl⟩
    · rw [ih slug, TakenIn]
      refine (or_iff_left ?_).symm
      rintro ⟨t, k, -, hk, -⟩
      rw [hkind] at hk
      cases hk
    · rw [List.mem_cons, ih slug, TakenIn, or_comm]
      refine or_congr_right ⟨?_, ?_⟩
      · rintro rfl
        exact ⟨t, k, hpre, hkind, hbears⟩
      · rintro ⟨t₁, k₁, hpre₁, hkind₁, hbears₁⟩
        rw [hpre] at hpre₁
        cases hpre₁
        rw [hkind] at hkind₁
        cases hkind₁
        rcases hbears with ⟨hnone, rfl⟩ | ⟨hexp, -⟩
        · rcases hbears₁ with ⟨-, rfl⟩ | ⟨hexp₁, -⟩
          · rfl
          · simp [explicitSlug, hnone] at hexp₁
        · exact (hbears₁.explicit hexp).symm

/-- With fresh defaults only an explicit slug can be taken. -/
theorem DefaultsFresh.duplicates {α : Type} {answer : Except CatalogValidationError α}
    (hfresh : l.DefaultsFresh start items)
    (hanswer : failure answer = failure (l.turns start items))
    (hrefuses : ∀ item c s, l.refuses item ≠ some (.duplicateSlug c s)) :
    l.DuplicatesExplicit start items answer := by
  rintro slug rfl
  cases hturns : l.turns start items with
  | ok t =>
      rw [hturns] at hanswer
      cases hanswer
  | error e =>
      rw [hturns] at hanswer
      cases hanswer
      obtain ⟨pre, item, post, t, rfl, hpre, hturn⟩ := turns_error hturns
      obtain ⟨k, hkind, hbears, hseen⟩ := turn_duplicate (hrefuses item) hturn
      have htaken := (mem_seen_iff hpre slug).1 hseen
      rcases hbears with ⟨hnone, rfl⟩ | ⟨hexp, -⟩
      · exact absurd htaken (hfresh pre item post t k rfl hpre hkind hnone)
      · exact ⟨pre, item, post, k, rfl, hkind, hexp, htaken⟩

/-- An explicit slug of an entry is taken. -/
theorem takenIn_explicit (h : l.turns start items = .ok t) {item : Value} (hitem : item ∈ items)
    (hentry : (l.kind item).isSome) {slug : String} (hexp : explicitSlug item = some slug) :
    l.TakenIn start items slug := by
  refine turns_induction (P := fun items _ => item ∈ items → l.TakenIn start items slug)
    (fun hm => nomatch hm) (fun pre t item' t' hpre ih hturn hm => ?_) h hitem
  rw [TakenIn, exists_split_snoc]
  rcases List.mem_append.1 hm with hm | hm
  · exact .inl (ih hm)
  · obtain rfl := List.mem_singleton.1 hm
    rcases turn_ok hturn with ⟨hkind, -⟩ | ⟨k, slug', hkind, hbears, -, -⟩
    · rw [hkind] at hentry
      cases hentry
    · obtain rfl := hbears.explicit hexp
      exact .inr ⟨t, k, hpre, hkind, hbears⟩

end SlugLoop

/-! ## Minigames -/

/-- The kinds of games are the canonical ones, and less is better in a sprint only. -/
theorem mapKindFromGame_canonical {g : Value} {kind : String} {lowerIsBetter : Bool}
    (h : mapKindFromGame g = some (kind, lowerIsBetter)) :
    kind ∈ minigameKinds ∧ lowerIsBetter = decide (kind = "Sprint") := by
  have hstr : ∀ k, mapKindStr k = some (kind, lowerIsBetter) →
      kind ∈ minigameKinds ∧ lowerIsBetter = decide (kind = "Sprint") := by
    intro k hk
    unfold mapKindStr at hk
    split at hk <;> cases hk <;> decide
  have hint : ∀ v : Option Value, (v.bind Value.toI64).bind mapKindInt =
      some (kind, lowerIsBetter) →
      kind ∈ minigameKinds ∧ lowerIsBetter = decide (kind = "Sprint") := by
    intro v hv
    obtain ⟨i, -, hi⟩ := Option.bind_eq_some_iff.1 hv
    unfold mapKindInt at hi
    split at hi <;> cases hi <;> decide
  unfold mapKindFromGame at h
  split at h
  · split at h
    · exact hint _ h
    · exact hstr _ h
  · exact hint _ h

theorem gamesLoop_kind {g : Value} {kind : String} (h : gamesLoop.kind g = some kind) :
    kind ∈ minigameKinds := by
  simp only [gamesLoop] at h
  split at h
  · obtain ⟨⟨k, lowerIsBetter⟩, hk, rfl⟩ := Option.map_eq_some_iff.1 h
    exact (mapKindFromGame_canonical hk).1
  · cases h

theorem dash_not_mem_kind : ∀ kind ∈ minigameKinds, '-' ∉ kind.toList := by decide

/-- How many entries of a kind there are. -/
def countKind (kind : String) (games : List Value) : Nat :=
  games.countP fun g => gamesLoop.kind g = some kind

theorem gamesLoop_counter {games : List Value} {t : Taken (String → Nat)}
    (h : gamesLoop.turns (fun _ => 0) games = .ok t) (kind : String) :
    t.counter kind = countKind kind games := by
  refine SlugLoop.turns_induction
    (P := fun games (t : Taken (String → Nat)) => t.counter kind = countKind kind games) rfl
    (fun pre t g t' _ ih hturn => ?_) h
  rw [countKind, List.countP_append, List.countP_singleton, ← countKind, ← ih]
  rcases SlugLoop.turn_ok hturn with ⟨hkind, rfl⟩ | ⟨k, slug, hkind, -, -, rfl⟩
  · simp [hkind]
  · show (if kind = k then _ else _) = _
    rcases eq_or_ne kind k with rfl | hne
    · simp [hkind]
    · simp [hkind, hne, hne.symm]

/-- The default slug of a game is taken exactly if an earlier game bears it explicitly. -/
theorem gamesLoop_taken_iff {pre : List Value} {t : Taken (String → Nat)}
    {g : Value} {kind : String} (h : gamesLoop.turns (fun _ => 0) pre = .ok t)
    (hkind : gamesLoop.kind g = some kind) :
    gamesLoop.TakenIn (fun _ => 0) pre (gamesLoop.dflt t.counter kind) ↔
      ∃ e ∈ pre, (gamesLoop.kind e).isSome ∧
        explicitSlug e = some (numbered (kind ++ "-") (countKind kind pre + 1)) := by
  have hdflt : ∀ {pre : List Value} {t : Taken (String → Nat)},
      gamesLoop.turns (fun _ => 0) pre = .ok t → ∀ kind,
      gamesLoop.dflt t.counter kind = numbered (kind ++ "-") (countKind kind pre + 1) := by
    intro pre t h kind
    rw [← gamesLoop_counter h]
    rfl
  rw [hdflt h]
  constructor
  · rintro ⟨pre', e, post, rfl, t', k, hpre', hk, hbears⟩
    rcases hbears with ⟨-, hslug⟩ | ⟨hexp, -⟩
    · rw [hdflt hpre'] at hslug
      obtain ⟨rfl, hcount⟩ := numbered_inj (dash_not_mem_kind kind (gamesLoop_kind hkind)) hslug
      rw [countKind, List.countP_append, List.countP_cons_of_pos (by simpa using hk),
        ← countKind] at hcount
      omega
    · exact ⟨e, by simp, by rw [hk]; rfl, hexp⟩
  · rintro ⟨e, he, hentry, hexp⟩
    exact SlugLoop.takenIn_explicit h he hentry hexp

/-- No game without a slug comes after one whose explicit slug is its kind and its number. -/
def GamesApart (games : List Value) : Prop :=
  ∀ pre g post kind, games = pre ++ g :: post →
    (∃ t, gamesLoop.turns (fun _ => 0) pre = .ok t) →
    gamesLoop.kind g = some kind → g.get "slug" = none →
    ∀ e ∈ pre, (gamesLoop.kind e).isSome →
      explicitSlug e ≠ some (numbered (kind ++ "-") (countKind kind pre + 1))

theorem gamesLoop_fresh_iff (games : List Value) :
    gamesLoop.DefaultsFresh (fun _ => 0) games ↔ GamesApart games := by
  constructor
  · rintro h pre g post kind rfl ⟨t, ht⟩ hkind hnone e he hentry hexp
    exact h pre g post t kind rfl ht hkind hnone
      ((gamesLoop_taken_iff ht hkind).2 ⟨e, he, hentry, hexp⟩)
  · rintro h pre g post t kind rfl ht hkind hnone htaken
    obtain ⟨e, he, hentry, hexp⟩ := (gamesLoop_taken_iff ht hkind).1 htaken
    exact h pre g post kind rfl ⟨t, ht⟩ hkind hnone e he hentry hexp

/-! ## Collectibles and hats -/

/-- The last `u32`. -/
def maxU32 : Nat := 2 ^ 32 - 1

/-- The number after those that the explicit slugs bear, one more for each default. -/
def reserved (entry : Value → Bool) (stem : String) (items : List Value) : Nat :=
  items.foldl (fun n item =>
    if entry item then
      if (item.get "slug").isNone then n + 1
      else
        match (explicitSlug item).bind (slugNumber stem) with
        | some m => max n (m + 1)
        | none => n
    else n) 1

theorem reserved_snoc (entry : Value → Bool) (stem : String) (items : List Value) (item : Value) :
    reserved entry stem (items ++ [item]) =
      if entry item then
        if (item.get "slug").isNone then reserved entry stem items + 1
        else
          match (explicitSlug item).bind (slugNumber stem) with
          | some m => max (reserved entry stem items) (m + 1)
          | none => reserved entry stem items
      else reserved entry stem items := by
  simp [reserved, List.foldl_append]

/-- The last number is spent: an entry bears it explicitly, or an entry without a slug comes when
all the numbers before it are reserved. -/
def Spent (entry : Value → Bool) (stem : String) (items : List Value) : Prop :=
  ∃ pre item post, items = pre ++ item :: post ∧ entry item = true ∧
    (explicitSlug item = some (numbered stem maxU32) ∨
      item.get "slug" = none ∧ maxU32 ≤ reserved entry stem pre)

theorem Text.readDigits_lt {b bound acc n : Nat} {cs : List Char} (hacc : acc < bound)
    (h : readDigits b bound acc cs = some n) : n < bound := by
  induction cs generalizing acc with
  | nil =>
      cases h
      exact hacc
  | cons c cs ih =>
      rw [readDigits] at h
      split at h
      · cases h
      · split at h
        · exact ih (by assumption) h
        · cases h

theorem slugNumber_le {stem slug : String} {m : Nat} (h : slugNumber stem slug = some m) :
    m ≤ maxU32 := by
  obtain ⟨cs, -, hm⟩ := Option.bind_eq_some_iff.1 h
  have hlt : m < 2 ^ 32 := by
    unfold Text.parseU32 Text.fromStrRadix at hm
    split at hm
    · cases hm
    · cases hm
    · exact Text.readDigits_lt (by decide) hm
    · exact Text.readDigits_lt (by decide) hm
  unfold maxU32
  omega

/-- What the loop has seen, in terms of the items alone. -/
structure Counted (entry : Value → Bool) (stem : String) (items : List Value)
    (t : Taken Nat) : Prop where
  counter : t.counter = min (reserved entry stem items) maxU32
  below : ∀ s ∈ t.seen, ∀ m, slugNumber stem s = some m → m < reserved entry stem items
  last : numbered stem maxU32 ∈ t.seen ↔ Spent entry stem items

theorem nextDefaultAfter_eq (stem slug : String) (n : Nat) : nextDefaultAfter stem slug n =
    match slugNumber stem slug with
    | none => n
    | some number => if n ≤ number then min (number + 1) maxU32 else n := rfl

section

variable {catalog stem : String} {entry : Value → Bool}
  {refuses : Value → Option CatalogValidationError} {items : List Value} {item : Value}
  {t t' : Taken Nat}

theorem Counted.skip (h : Counted entry stem items t) (hitem : entry item = false) :
    Counted entry stem (items ++ [item]) t where
  counter := by simpa [reserved_snoc, hitem] using h.counter
  below := by simpa [reserved_snoc, hitem] using h.below
  last := by
    rw [Spent, exists_split_snoc, h.last]
    simp [Spent, hitem]

theorem Counted.default (h : Counted entry stem items t) (hitem : entry item = true)
    (hnone : item.get "slug" = none) :
    Counted entry stem (items ++ [item])
      { seen := numbered stem t.counter :: t.seen
        counter := nextDefaultAfter stem (numbered stem t.counter) t.counter } := by
  have hcounter := h.counter
  have hreserved : reserved entry stem (items ++ [item]) = reserved entry stem items + 1 := by
    simp [reserved_snoc, hitem, hnone]
  have hlt : t.counter < 2 ^ 32 := by
    have : maxU32 < 2 ^ 32 := by decide
    omega
  have hnumber : slugNumber stem (numbered stem t.counter) = some t.counter :=
    slugNumber_numbered hlt
  constructor
  · rw [hreserved, nextDefaultAfter_eq, hnumber]
    show (if t.counter ≤ t.counter then min (t.counter + 1) maxU32 else t.counter) = _
    rw [if_pos (Nat.le_refl _)]
    omega
  · intro s hs m hm
    rw [hreserved]
    rcases List.mem_cons.1 hs with rfl | hs
    · rw [hnumber] at hm
      cases hm
      omega
    · have := h.below s hs m hm
      omega
  · have hexp : explicitSlug item = none := by simp [explicitSlug, hnone]
    have hsame : numbered stem maxU32 = numbered stem t.counter ↔
        maxU32 ≤ reserved entry stem items := by
      constructor
      · intro he
        have hmax : slugNumber stem (numbered stem maxU32) = some maxU32 :=
          slugNumber_numbered (by decide)
        rw [he, hnumber] at hmax
        have := Option.some.inj hmax
        omega
      · intro hle
        rw [show t.counter = maxU32 by omega]
    rw [Spent, exists_split_snoc, List.mem_cons, h.last, hsame, or_comm]
    simp [Spent, hitem, hnone, hexp]

theorem Counted.last_explicit {slug : String} (h : Counted entry stem items t)
    (hitem : entry item = true) (hexp : explicitSlug item = some slug)
    (hsome : item.get "slug" ≠ none) :
    numbered stem maxU32 ∈ slug :: t.seen ↔ Spent entry stem (items ++ [item]) := by
  rw [Spent, exists_split_snoc, List.mem_cons, h.last, or_comm, hexp, Option.some_inj,
    @eq_comm _ slug]
  simp [Spent, hitem, hsome]

theorem min_max_succ {n m b : Nat} (hm : m ≤ b) :
    (if min n b ≤ m then min (m + 1) b else min n b) = min (max n (m + 1)) b := by
  split <;> omega

theorem Counted.explicit {slug : String} (h : Counted entry stem items t)
    (hitem : entry item = true) (hexp : explicitSlug item = some slug) :
    Counted entry stem (items ++ [item])
      { seen := slug :: t.seen, counter := nextDefaultAfter stem slug t.counter } := by
  have hcounter := h.counter
  have hsome : item.get "slug" ≠ none := by
    intro hnone
    simp [explicitSlug, hnone] at hexp
  have hreserved : reserved entry stem (items ++ [item]) =
      match slugNumber stem slug with
      | some m => max (reserved entry stem items) (m + 1)
      | none => reserved entry stem items := by
    simp [reserved_snoc, hitem, hsome, hexp]
  cases hnumber : slugNumber stem slug with
  | none =>
      simp only [hnumber] at hreserved
      refine ⟨?_, ?_, h.last_explicit hitem hexp hsome⟩
      · rw [hreserved, nextDefaultAfter_eq, hnumber]
        exact hcounter
      · intro s hs m hm
        rw [hreserved]
        rcases List.mem_cons.1 hs with rfl | hs
        · rw [hnumber] at hm
          cases hm
        · exact h.below s hs m hm
  | some number =>
      simp only [hnumber] at hreserved
      refine ⟨?_, ?_, h.last_explicit hitem hexp hsome⟩
      · rw [hreserved, nextDefaultAfter_eq, hnumber, hcounter]
        exact min_max_succ (slugNumber_le hnumber)
      · intro s hs m hm
        rw [hreserved]
        rcases List.mem_cons.1 hs with rfl | hs
        · rw [hnumber] at hm
          cases hm
          exact Nat.le_max_right _ _
        · exact Nat.lt_of_lt_of_le (h.below s hs m hm) (Nat.le_max_left _ _)

theorem numberedLoop_counted
    (h : (numberedLoop catalog stem entry refuses).turns 1 items = .ok t) :
    Counted entry stem items t := by
  refine SlugLoop.turns_induction (P := fun items t => Counted entry stem items t) ?_
    (fun pre t item t' _ ih hturn => ?_) h
  · exact ⟨rfl, fun s hs => by simp at hs, iff_of_false (by simp) not_exists_split_nil⟩
  · rcases SlugLoop.turn_ok hturn with ⟨hkind, rfl⟩ | ⟨k, slug, hkind, hbears, -, rfl⟩
    · refine ih.skip ?_
      simpa [numberedLoop] using hkind
    · have hitem : entry item = true := by
        simp only [numberedLoop] at hkind
        split at hkind
        · assumption
        · cases hkind
      rcases hbears with ⟨hnone, rfl⟩ | ⟨hexp, -⟩
      · exact ih.default hitem hnone
      · exact ih.explicit hitem hexp

/-- The default slug is taken exactly if the last number is spent. -/
theorem numberedLoop_taken_iff {k : String}
    (h : (numberedLoop catalog stem entry refuses).turns 1 items = .ok t) :
    (numberedLoop catalog stem entry refuses).TakenIn 1 items
      ((numberedLoop catalog stem entry refuses).dflt t.counter k) ↔ Spent entry stem items := by
  have hcounted := numberedLoop_counted h
  have hcounter := hcounted.counter
  rw [← SlugLoop.mem_seen_iff h, ← hcounted.last]
  show numbered stem t.counter ∈ t.seen ↔ _
  have hlast : ∀ n, n ≤ maxU32 → numbered stem n ∈ t.seen →
      n < reserved entry stem items := by
    intro n hn hseen
    refine hcounted.below _ hseen n (slugNumber_numbered ?_)
    have : maxU32 < 2 ^ 32 := by decide
    omega
  constructor
  · intro hseen
    have := hlast t.counter (by omega) hseen
    rwa [show t.counter = maxU32 by omega] at hseen
  · intro hseen
    have := hlast maxU32 (Nat.le_refl _) hseen
    rwa [show t.counter = maxU32 by omega]

/-- No entry without a slug comes after the last number is spent. -/
def NumbersLast (catalog stem : String) (entry : Value → Bool)
    (refuses : Value → Option CatalogValidationError) (items : List Value) : Prop :=
  ∀ pre item post, items = pre ++ item :: post →
    (∃ t, (numberedLoop catalog stem entry refuses).turns 1 pre = .ok t) → entry item = true →
    item.get "slug" = none → ¬Spent entry stem pre

theorem numberedLoop_fresh_iff (items : List Value) :
    (numberedLoop catalog stem entry refuses).DefaultsFresh 1 items ↔
      NumbersLast catalog stem entry refuses items := by
  constructor
  · rintro h pre item post rfl ⟨t, ht⟩ hitem hnone hspent
    refine h pre item post t stem rfl ht ?_ hnone ((numberedLoop_taken_iff ht).2 hspent)
    simp [numberedLoop, hitem]
  · rintro h pre item post t k rfl ht hkind hnone htaken
    refine h pre item post rfl ⟨t, ht⟩ ?_ hnone ((numberedLoop_taken_iff ht).1 htaken)
    simp only [numberedLoop] at hkind
    split at hkind
    · assumption
    · cases hkind

end

/-! ## The three parsers -/

/-- The items of `minigames.games`. -/
def gamesOf (spec : Value) : List Value :=
  (((spec.get "minigames").bind fun m => m.get "games").bind Value.asArray).getD []

theorem parseCatalogGames_eq (spec : Value) :
    parseCatalogGames spec = catalogGamesFrom [] (fun _ => 0) (gamesOf spec) := by
  unfold parseCatalogGames gamesOf
  split <;> rename_i h <;> rw [h] <;> rfl

theorem parseCatalogCollectibles_eq (spec : Value) :
    parseCatalogCollectibles spec =
      catalogCollectiblesFrom [] 1 ((collectibleArray spec).getD []) := by
  unfold parseCatalogCollectibles
  split <;> rename_i h <;> rw [h] <;> rfl

theorem parseCatalogHats_eq (spec : Value) :
    parseCatalogHats spec = catalogHatsFrom [] 1 ((hatsArray spec).getD []) := by
  unfold parseCatalogHats
  split <;> rename_i h <;> rw [h] <;> rfl

theorem bind_error {ε α β : Type} {x : Except ε α} {f : α → Except ε β} {e : ε}
    (h : (x >>= f) = .error e) : x = .error e ∨ ∃ a, x = .ok a ∧ f a = .error e := by
  cases x with
  | error e' =>
      cases h
      exact .inl rfl
  | ok a => exact .inr ⟨a, rfl, h⟩

theorem recordUidsFrom_error {seen : List String} {vs : List Value} {e : CatalogValidationError}
    (h : recordUidsFrom seen vs = .error e) : ∃ uid, e = .duplicateRecordUid uid := by
  induction vs generalizing seen with
  | nil => cases h
  | cons v vs ih =>
      rw [recordUidsFrom] at h
      split at h
      · exact ih h
      · dsimp only at h
        split at h
        · exact ih h
        · split at h
          · cases h
            exact ⟨_, rfl⟩
          · rcases bind_error h with h | ⟨rest, -, h⟩
            · exact ih h
            · cases h

theorem parseUnlock_error {item : Value} {e : CatalogValidationError}
    (h : parseUnlock item = .error e) : ∃ uid, e = .duplicateRecordUid uid := by
  unfold parseUnlock at h
  split at h
  · cases h
  · rcases bind_error h with h | ⟨uids, -, h⟩
    · exact recordUidsFrom_error h
    · cases h

theorem parseUnlock_refuses (item : Value) (c s : String) :
    failure (parseUnlock item) ≠ some (.duplicateSlug c s) := by
  intro h
  cases hunlock : parseUnlock item with
  | ok unlock =>
      rw [hunlock] at h
      cases h
  | error e =>
      obtain ⟨uid, rfl⟩ := parseUnlock_error hunlock
      rw [hunlock] at h
      cases h

/-- The loops give the answers of the parsers.  The default slugs of a parser are fresh, and its
answers that a slug is taken are about explicit slugs, exactly where no game comes after one that
explicitly bears its default, and no collectible or hat gets a default after the last number is
spent. -/
theorem generated_slugs_fresh_iff (spec : Value) :
    (gamesLoop.Mirrors (fun _ => 0) (gamesOf spec) CatalogGame.slug (parseCatalogGames spec) ∧
      (gamesLoop.DefaultsFresh (fun _ => 0) (gamesOf spec) ∧
          gamesLoop.DuplicatesExplicit (fun _ => 0) (gamesOf spec) (parseCatalogGames spec) ↔
        GamesApart (gamesOf spec))) ∧
    (collectiblesLoop.Mirrors 1 ((collectibleArray spec).getD []) CatalogCollectible.slug
        (parseCatalogCollectibles spec) ∧
      (collectiblesLoop.DefaultsFresh 1 ((collectibleArray spec).getD []) ∧
          collectiblesLoop.DuplicatesExplicit 1 ((collectibleArray spec).getD [])
            (parseCatalogCollectibles spec) ↔
        NumbersLast "collectible" "Collectible-"
          (fun item => item.isObject && (parseCollectPaths item).isSome) (fun _ => none)
          ((collectibleArray spec).getD []))) ∧
    hatsLoop.Mirrors 1 ((hatsArray spec).getD []) CatalogHat.slug (parseCatalogHats spec) ∧
      (hatsLoop.DefaultsFresh 1 ((hatsArray spec).getD []) ∧
          hatsLoop.DuplicatesExplicit 1 ((hatsArray spec).getD []) (parseCatalogHats spec) ↔
        NumbersLast "hat" "Hat-" Value.isObject (fun item => failure (parseUnlock item))
          ((hatsArray spec).getD [])) := by
  have hnone : ∀ (item : Value) (c s : String),
      (none : Option CatalogValidationError) ≠ some (.duplicateSlug c s) :=
        fun _ _ _ => (Option.some_ne_none _).symm
  refine ⟨?_, ?_, ?_⟩
  · have hmirrors := catalogGamesFrom_runs.mirrors (fun _ => 0) (gamesOf spec)
    rw [← gamesLoop_fresh_iff, parseCatalogGames_eq]
    exact ⟨hmirrors, and_iff_left_of_imp fun h => h.duplicates hmirrors.failures hnone⟩
  · have hmirrors := catalogCollectiblesFrom_runs.mirrors 1 ((collectibleArray spec).getD [])
    rw [← numberedLoop_fresh_iff, parseCatalogCollectibles_eq]
    exact ⟨hmirrors, and_iff_left_of_imp fun h => h.duplicates hmirrors.failures hnone⟩
  · have hmirrors := catalogHatsFrom_runs.mirrors 1 ((hatsArray spec).getD [])
    rw [← numberedLoop_fresh_iff, parseCatalogHats_eq]
    exact ⟨hmirrors, and_iff_left_of_imp fun h =>
      h.duplicates hmirrors.failures parseUnlock_refuses⟩

/-- The second sprint bears no slug, and its default is the slug of the first. -/
def sprintsSpec : Value :=
  .object [("minigames", .object [("games", .array [
    .object [("kind", .string "Sprint"), ("slug", .string "Sprint-2")],
    .object [("kind", .string "Sprint")]])])]

theorem generated_slug_repeats :
    parseCatalogGames sprintsSpec = .error (.duplicateSlug "minigame" "Sprint-2") ∧
    ¬gamesLoop.DefaultsFresh (fun _ => 0) (gamesOf sprintsSpec) ∧
    ¬gamesLoop.DuplicatesExplicit (fun _ => 0) (gamesOf sprintsSpec)
      (parseCatalogGames sprintsSpec) := by
  have hparse : parseCatalogGames sprintsSpec = .error (.duplicateSlug "minigame" "Sprint-2") := by
    decide
  refine ⟨hparse, fun h => ?_, fun h => ?_⟩
  · exact (gamesLoop_fresh_iff _).1 h [_] _ [] "Sprint" rfl ⟨_, rfl⟩
      (by decide) rfl _ List.mem_cons_self
      (by decide) (by decide)
  · obtain ⟨pre, g, post, k, hitems, -, hexp, htaken⟩ := h "Sprint-2" hparse
    match pre, hitems with
    | [], hitems => exact not_exists_split_nil htaken
    | [a], hitems =>
        cases hitems
        exact absurd hexp (by decide)
    | a :: b :: pre, hitems => simp [gamesOf, sprintsSpec, Value.get, Value.asArray] at hitems

end Dd2Server
