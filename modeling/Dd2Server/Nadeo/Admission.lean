import Dd2Server.Schema
import Dd2Server.Limits.FixedWindow
import Dd2Server.Limits.Lru

/-!
# Admission of requests to Nadeo

The author verifier and the record verifier admit a request by two fixed windows, one for all
accounts and one for each.  The windows of the accounts are in a table that forgets the account
unused for longest.  `admitted_sparse` says that neither the restarts nor what the table forgets
lets more than twice a limit through in any interval of the length of a window.
-/

namespace Dd2Server

namespace Nadeo

open Limits

/-- Moments of the monotonic clock and durations are in nanoseconds. -/
def secs (n : Nat) : Nat := n * 1000000000

def millis (n : Nat) : Nat := n * 1000000

structure AdmissionWindow where
  started : Nat
  count : Nat
  deriving DecidableEq

/-- The limits of a verifier. -/
structure AdmissionLimits where
  window : Nat
  globalLimit : Nat
  accountLimit : Nat

namespace CachedMapAuthorVerifier

def limits : AdmissionLimits := ⟨secs 60, 64, 8⟩

def cacheCapacity : Nat := 1024

end CachedMapAuthorVerifier

namespace CachedOfficialRecordVerifier

def limits : AdmissionLimits := ⟨secs 60, 128, 16⟩

def cacheCapacity : Nat := 2048

end CachedOfficialRecordVerifier

/-- The counters of a verifier. -/
structure Admission where
  globalWindow : AdmissionWindow
  accountWindows : LruCache Uuid AdmissionWindow

/-- The counters of a verifier that starts now. -/
def Admission.new (capacity : Nat) (now : Nat) : Admission where
  globalWindow := ⟨now, 0⟩
  accountWindows := .empty (max capacity 1) (LruCache.room capacity)

/-- The window, or a new one if it is over. -/
def AdmissionWindow.renewed (w : AdmissionWindow) (width : Nat) (now : Nat) : AdmissionWindow :=
  if width ≤ now - w.started then ⟨now, 0⟩ else w

def AdmissionWindow.counted (w : AdmissionWindow) : AdmissionWindow :=
  { w with count := w.count + 1 }

/-- `admit_at`, which both verifiers have. -/
def admitAt (limits : AdmissionLimits) (st : Admission) (accountId : Uuid) (now : Nat) :
    Admission × Bool :=
  let global := st.globalWindow.renewed limits.window now
  if limits.globalLimit ≤ global.count then ({ st with globalWindow := global }, false)
  else
    match st.accountWindows.peek accountId with
    | some window =>
        let window := window.renewed limits.window now
        if limits.accountLimit ≤ window.count then
          (⟨global, st.accountWindows.put accountId window⟩, false)
        else (⟨global.counted, st.accountWindows.put accountId window.counted⟩, true)
    | none => (⟨global.counted, st.accountWindows.put accountId ⟨now, 1⟩⟩, true)

def CachedMapAuthorVerifier.admitAt := Nadeo.admitAt CachedMapAuthorVerifier.limits

def CachedOfficialRecordVerifier.admitAt := Nadeo.admitAt CachedOfficialRecordVerifier.limits

/-- Requests of accounts, one after another, and those that were admitted, the latest first. -/
def admitAll (admits : Admission → Uuid → Nat → Admission × Bool) (st : Admission)
    (admitted : List (Uuid × Nat)) : List (Uuid × Nat) → Admission × List (Uuid × Nat)
  | [] => (st, admitted)
  | (accountId, now) :: requests =>
      match admits st accountId now with
      | (st', true) => admitAll admits st' ((accountId, now) :: admitted) requests
      | (st', false) => admitAll admits st' admitted requests

section

variable {limits : AdmissionLimits} {st st' : Admission} {admitted : List (Uuid × Nat)}
  {now now' : Nat} {a : Uuid} {w : AdmissionWindow} {width limit : Nat} {times : List Nat}

theorem AdmissionWindow.renewed_windowed (h : Windowed width limit w.started w.count now times) :
    Windowed width limit (w.renewed width now).started (w.renewed width now).count now times := by
  rw [AdmissionWindow.renewed]
  split
  case isTrue hover => exact h.restart hover
  case isFalse => exact h

/-! ## What the table of the accounts knows -/

/-- The last use of an entry, and an event of the account not long before. -/
structure Used (width : Nat) (admitted : List (Uuid × Nat)) (a : Uuid)
    (used now : Nat) : Prop where
  le_now : used ≤ now
  last : ∀ x ∈ timesOf a admitted, x ≤ used
  recent : ∃ x ∈ timesOf a admitted, used < x + width

/-- The windows of the accounts that are in the table, and what it forgot: accounts whose requests
are all over. -/
structure Known (limits : AdmissionLimits) (table : LruCache Uuid AdmissionWindow)
    (admitted : List (Uuid × Nat)) (now : Nat) : Prop where
  accounts : ∀ a w, table.peek a = some w →
    Windowed limits.window limits.accountLimit w.started w.count now (timesOf a admitted) ∧
      ∃ x ∈ timesOf a admitted, w.started ≤ x
  forgotten : ∀ a, table.peek a = none →
    (∀ x ∈ timesOf a admitted, x + limits.window ≤ now) ∧
      Sparse limits.window (2 * limits.accountLimit) (timesOf a admitted)
  uses : ∃ used : Uuid → Nat, (table.entries.map fun e => used e.1).Pairwise (· ≥ ·) ∧
    ∀ e ∈ table.entries, Used limits.window admitted e.1 (used e.1) now

/-- The counters agree with what they admitted so far. -/
structure Fair (limits : AdmissionLimits) (st : Admission) (admitted : List (Uuid × Nat))
    (now : Nat) : Prop where
  room : 4 * limits.globalLimit ≤ st.accountWindows.cap
  global : Windowed limits.window limits.globalLimit st.globalWindow.started st.globalWindow.count
    now (admitted.map Prod.snd)
  known : Known limits st.accountWindows admitted now

theorem Used.wait {used : Nat} (h : Used width admitted a used now) (hle : now ≤ now') :
    Used width admitted a used now' := ⟨Nat.le_trans h.le_now hle, h.last, h.recent⟩

theorem Known.wait {table : LruCache Uuid AdmissionWindow} (h : Known limits table admitted now)
    (hle : now ≤ now') : Known limits table admitted now' where
  accounts a w hw := ⟨(h.accounts a w hw).1.wait hle, (h.accounts a w hw).2⟩
  forgotten a ha := ⟨fun x hx => Nat.le_trans ((h.forgotten a ha).1 x hx) hle,
    (h.forgotten a ha).2⟩
  uses := by
    obtain ⟨used, hsorted, huse⟩ := h.uses
    exact ⟨used, hsorted, fun e he => (huse e he).wait hle⟩

theorem Fair.wait (h : Fair limits st admitted now) (hle : now ≤ now') :
    Fair limits st admitted now' := ⟨h.room, h.global.wait hle, h.known.wait hle⟩

theorem Fair.start {capacity : Nat} (hroom : 4 * limits.globalLimit ≤ capacity)
    (started now : Nat) : Fair limits (.new capacity started) [] now where
  room := by
    show _ ≤ max capacity 1
    omega
  global := .start _ _ _ _
  known :=
    { accounts := fun a w hw => by simp [Admission.new, LruCache.peek, LruCache.empty] at hw
      forgotten := fun a _ => ⟨by simp [timesOf], by simp [timesOf, Sparse.nil]⟩
      uses := ⟨fun _ => 0, by simp [Admission.new, LruCache.empty], by
        simp [Admission.new, LruCache.empty]⟩ }

/-- The entry that was used last is the first, and no use comes before it. -/
theorem uses_put {table : LruCache Uuid AdmissionWindow} {admitted' : List (Uuid × Nat)}
    {used : Uuid → Nat}
    (hsorted : (table.entries.map fun e => used e.1).Pairwise (· ≥ ·))
    (huse : ∀ e ∈ table.entries, Used width admitted e.1 (used e.1) now)
    (hsame : ∀ b, b ≠ a → timesOf b admitted' = timesOf b admitted)
    (hself : Used width admitted' a now now) :
    ∃ used : Uuid → Nat,
      ((table.put a w).entries.map fun e => used e.1).Pairwise (· ≥ ·) ∧
      ∀ e ∈ (table.put a w).entries, Used width admitted' e.1 (used e.1) now := by
  refine ⟨Function.update used a now, ?_, ?_⟩
  · rw [LruCache.put_entries, List.map_cons, Function.update_self, List.pairwise_cons]
    have hsub : ((table.others a).take (table.cap - 1)).Sublist table.entries :=
      (List.take_sublist _ _).trans List.filter_sublist
    have hne : ∀ e ∈ (table.others a).take (table.cap - 1), e.1 ≠ a :=
      fun e he => (LruCache.mem_others.1 (List.mem_of_mem_take he)).2
    have hmap : ((table.others a).take (table.cap - 1)).map
        (fun e => Function.update used a now e.1) =
          ((table.others a).take (table.cap - 1)).map fun e => used e.1 :=
      List.map_congr_left fun e he => Function.update_of_ne (hne e he) now used
    rw [hmap]
    refine ⟨fun x hx => ?_, hsorted.sublist (hsub.map _)⟩
    obtain ⟨e, he, rfl⟩ := List.mem_map.1 hx
    exact (huse e (hsub.subset he)).le_now
  · intro e he
    rw [LruCache.put_entries] at he
    rcases List.mem_cons.1 he with rfl | he
    · rw [Function.update_self]
      exact hself
    · obtain ⟨hm, hne⟩ := LruCache.mem_others.1 (List.mem_of_mem_take he)
      have hu := huse e hm
      rw [Function.update_of_ne hne]
      exact ⟨hu.le_now, by rw [hsame _ hne]; exact hu.last, by
        rw [hsame _ hne]; exact hu.recent⟩

/-- What a new account takes the place of is over: else all entries of the table, and the new one,
were admitted within two windows. -/
theorem forgotten_over {table : LruCache Uuid AdmissionWindow} {b : Uuid} {w' : AdmissionWindow}
    (hk : Known limits table admitted now) (hroom : 4 * limits.globalLimit ≤ table.cap)
    (hsparse : Sparse limits.window (2 * limits.globalLimit) (((a, now) :: admitted).map Prod.snd))
    (hwidth : 0 < limits.window) (hne : b ≠ a) (hb : table.peek b = some w')
    (hgone : (table.put a w).peek b = none) :
    ∀ x ∈ timesOf b admitted, x + limits.window ≤ now := by
  obtain ⟨hfull, hnone, older, hentries⟩ := LruCache.forgotten_last hne hb hgone
  obtain ⟨used, hsorted, huse⟩ := hk.uses
  intro x hx
  by_contra hlate
  have hmem : (b, w') ∈ table.entries := by simp [hentries]
  have hlast : x ≤ used b := (huse (b, w') hmem).last x hx
  have hle : used b ≤ now := (huse (b, w') hmem).le_now
  have hbetween : ∀ e ∈ table.entries, used b ≤ used e.1 := by
    intro e he
    rw [hentries] at he hsorted
    rcases List.mem_append.1 he with he | he
    · rw [List.map_append, List.pairwise_append] at hsorted
      exact hsorted.2.2 (used e.1) (List.mem_map_of_mem he) (used b) (by simp)
    · rw [List.mem_singleton.1 he]
  have hcount : (a :: table.entries.map Prod.fst).length ≤
      (((a, now) :: admitted).map Prod.snd).countP
      fun x => used b + 1 - limits.window ≤ x ∧
        x < used b + 1 - limits.window + 2 * limits.window := by
    apply length_le_countP
    · rw [List.nodup_cons]
      refine ⟨fun hm => ?_, table.nodup⟩
      obtain ⟨⟨a', v⟩, he, rfl⟩ := List.mem_map.1 hm
      exact LruCache.peek_eq_none.1 hnone v he
    · intro k hk'
      rcases List.mem_cons.1 hk' with rfl | hk'
      · refine ⟨now, List.mem_cons_self, ?_⟩
        simp only [decide_eq_true_eq]
        omega
      · obtain ⟨e, he, rfl⟩ := List.mem_map.1 hk'
        have hu := huse e he
        obtain ⟨y, hy, hrecent⟩ := hu.recent
        refine ⟨y, List.mem_cons_of_mem _ (mem_timesOf.1 hy), ?_⟩
        have hge := hbetween e he
        have hnow := hu.le_now
        have hylast := hu.last y hy
        simp only [decide_eq_true_eq]
        omega
  have hdouble := hsparse.double (used b + 1 - limits.window)
  rw [List.length_cons, List.length_map, hfull] at hcount
  have hcap := hcount.trans hdouble
  omega

/-- The account is used, with this window from now on. -/
theorem Known.put {table : LruCache Uuid AdmissionWindow} {admitted' : List (Uuid × Nat)}
    (h : Known limits table admitted now)
    (hsame : ∀ b, b ≠ a → timesOf b admitted' = timesOf b admitted)
    (hself : Windowed limits.window limits.accountLimit w.started w.count now (timesOf a admitted'))
    (hrecent : ∃ x ∈ timesOf a admitted', w.started ≤ x ∧ now < x + limits.window)
      (hover : ∀ b w', b ≠ a → table.peek b = some w' → (table.put a w).peek b = none →
        ∀ x ∈ timesOf b admitted, x + limits.window ≤ now) :
    Known limits (table.put a w) admitted' now where
  accounts b w' hb := by
    rcases eq_or_ne b a with rfl | hne
    · rw [LruCache.peek_put_self] at hb
      obtain rfl := Option.some.inj hb
      obtain ⟨x, hx, hle, -⟩ := hrecent
      exact ⟨hself, x, hx, hle⟩
    · rw [hsame b hne]
      exact h.accounts b w' (LruCache.peek_of_put hne hb)
  forgotten b hb := by
    have hne : b ≠ a := by
      rintro rfl
      rw [LruCache.peek_put_self] at hb
      cases hb
    rw [hsame b hne]
    cases hold : table.peek b with
    | none => exact h.forgotten b hold
    | some w' => exact ⟨hover b w' hne hold hb, (h.accounts b w' hold).1.sparse⟩
  uses := by
    obtain ⟨used, hsorted, huse⟩ := h.uses
    refine uses_put hsorted huse hsame ⟨Nat.le_refl now, hself.past, ?_⟩
    obtain ⟨x, hx, -, hlt⟩ := hrecent
    exact ⟨x, hx, hlt⟩

/-- The window of an account that is at its limit is not over. -/
theorem renewed_of_full (hpos : 0 < limit) (h : limit ≤ (w.renewed width now).count) :
    w.renewed width now = w ∧ ¬width ≤ now - w.started := by
  rw [AdmissionWindow.renewed] at h ⊢
  split at h
  case isTrue =>
    have hzero : limit ≤ 0 := h
    omega
  case isFalse hn => exact ⟨if_neg hn, hn⟩

theorem renewed_started (hle : w.started ≤ now) :
    (w.renewed width now).started ≤ now := by
  rw [AdmissionWindow.renewed]
  split
  · exact Nat.le_refl now
  · exact hle

/-- One request. -/
theorem Fair.admitAt (hwidth : 0 < limits.window) (hpos : 0 < limits.accountLimit)
    (h : Fair limits st admitted now) (a : Uuid) :
    Fair limits (Nadeo.admitAt limits st a now).1
      (if (Nadeo.admitAt limits st a now).2 = true then (a, now) :: admitted else
        admitted) now := by
  have hglobal := AdmissionWindow.renewed_windowed h.global
  rw [Nadeo.admitAt]
  dsimp only
  split
  case isTrue => exact ⟨h.room, hglobal, h.known⟩
  case isFalse hcount =>
  have hadmit := hglobal.counted (Nat.lt_of_not_le hcount)
  split
  case h_1 window hpeek =>
    obtain ⟨hwindow, y, hy, hstarted⟩ := h.known.accounts a window hpeek
    have hrenewed := AdmissionWindow.renewed_windowed hwindow
    have hpast := hwindow.past y hy
    have hkeep : ∀ b w' w'', b ≠ a → st.accountWindows.peek b = some w' →
        (st.accountWindows.put a w'').peek b = none →
        ∀ x ∈ timesOf b admitted, x + limits.window ≤ now := by
      intro b w' w'' hne hb hgone
      have hnone := (LruCache.forgotten_last hne hb hgone).2.1
      rw [hpeek] at hnone
      cases hnone
    split
    case isTrue hfull =>
      obtain ⟨heq, hopen⟩ := renewed_of_full hpos hfull
      refine ⟨h.room, hglobal, h.known.put (fun _ _ => rfl) hrenewed ⟨y, hy, ?_, ?_⟩
        fun b w' hne hb hgone => hkeep b w' _ hne hb hgone⟩
      · rw [heq]
        exact hstarted
      · omega
    case isFalse hroom =>
      refine ⟨h.room, hadmit, h.known.put (fun b hne => timesOf_of_ne hne now admitted) ?_ ?_
        fun b w' hne hb hgone => hkeep b w' _ hne hb hgone⟩
      · rw [if_pos rfl, timesOf_self]
        exact hrenewed.counted (Nat.lt_of_not_le hroom)
      · refine ⟨now, by simp, ?_, by omega⟩
        exact renewed_started (by omega)
  case h_2 hpeek =>
    obtain ⟨hover, hsparse⟩ := h.known.forgotten a hpeek
    refine ⟨h.room, hadmit, h.known.put (fun b hne => timesOf_of_ne hne now admitted) ?_
      ⟨now, by simp, Nat.le_refl now, by omega⟩ fun b w' hne hb hgone => ?_⟩
    · rw [if_pos rfl, timesOf_self]
      exact (Windowed.fresh hover hsparse).counted hpos
    · exact forgotten_over h.known h.room hadmit.sparse hwidth hne hb hgone

/-- By induction on the requests, in the order in which they come. -/
theorem Fair.admitAll (hwidth : 0 < limits.window) (hpos : 0 < limits.accountLimit)
    {requests : List (Uuid × Nat)} (h : Fair limits st admitted now)
    (hnow : ∀ r ∈ requests, now ≤ r.2)
    (hsorted : requests.Pairwise fun r r' => r.2 ≤ r'.2) :
    ∃ now', Fair limits (Nadeo.admitAll (Nadeo.admitAt limits) st admitted requests).1
      (Nadeo.admitAll (Nadeo.admitAt limits) st admitted requests).2 now' := by
  induction requests generalizing st admitted now with
  | nil => exact ⟨now, h⟩
  | cons r requests ih =>
      obtain ⟨a, t⟩ := r
      obtain ⟨hlater, hrest⟩ := List.pairwise_cons.1 hsorted
      have hstep := (h.wait (hnow (a, t) List.mem_cons_self)).admitAt hwidth hpos a
      rw [Nadeo.admitAll]
      split
      case h_1 st' heq =>
        rw [heq, if_pos rfl] at hstep
        exact ih hstep hlater hrest
      case h_2 st' heq =>
        rw [heq, if_neg Bool.false_ne_true] at hstep
        exact ih hstep hlater hrest

/-! ## The bounds -/

/-- A refusal counts nothing: windows stay or start again empty. -/
theorem admitAt_refused (h : admitAt limits st a now = (st', false)) :
    st'.globalWindow.count ≤ st.globalWindow.count ∧
      ∀ b w', st'.accountWindows.peek b = some w' → ∃ w, st.accountWindows.peek b = some w ∧
      w'.count ≤ w.count := by
  have hle : ∀ w : AdmissionWindow, (w.renewed limits.window now).count ≤ w.count := by
    intro w
    rw [AdmissionWindow.renewed]
    split
    · exact Nat.zero_le _
    · exact Nat.le_refl _
  rw [admitAt] at h
  dsimp only at h
  split at h
  case isTrue =>
    cases h
    exact ⟨hle _, fun b w' hb => ⟨w', hb, Nat.le_refl _⟩⟩
  case isFalse =>
  split at h
  case h_1 window hpeek =>
    split at h
    case isTrue =>
      cases h
      refine ⟨hle _, fun b w' hb => ?_⟩
      rcases eq_or_ne b a with rfl | hne
      · rw [LruCache.peek_put_self] at hb
        obtain rfl := Option.some.inj hb
        exact ⟨window, hpeek, hle window⟩
      · exact ⟨w', LruCache.peek_of_put hne hb, Nat.le_refl _⟩
    case isFalse => cases h
  case h_2 => cases h

/-- What is admitted of any requests at times that do not decrease. -/
theorem admitAll_sparse {capacity : Nat} (hpos : 0 < limits.accountLimit)
    (hroom : 4 * limits.globalLimit ≤ capacity) (started : Nat) {requests : List (Uuid × Nat)}
    (hsorted : requests.Pairwise fun r r' => r.2 ≤ r'.2) :
    Sparse limits.window (2 * limits.globalLimit)
        ((admitAll (admitAt limits) (.new capacity started) [] requests).2.map Prod.snd) ∧
      ∀ a, Sparse limits.window (2 * limits.accountLimit)
        (timesOf a (admitAll (admitAt limits) (.new capacity started) [] requests).2) := by
  rcases Nat.eq_zero_or_pos limits.window with hzero | hwidth
  · rw [hzero]
    exact ⟨.zero, fun _ => .zero⟩
  · obtain ⟨now', hfair⟩ := (Fair.start hroom started 0).admitAll hwidth hpos
      (fun r _ => Nat.zero_le r.2) hsorted
    refine ⟨hfair.global.sparse, fun a => ?_⟩
    cases hpeek : (Nadeo.admitAll (Nadeo.admitAt limits) (.new capacity started) []
        requests).1.accountWindows.peek a with
    | none => exact (hfair.known.forgotten a hpeek).2
    | some w => exact (hfair.known.accounts a w hpeek).1.sparse

/-- In every interval of the length of a window, at most twice the global limit is admitted, and at
most twice the limit of an account; and a refusal counts nothing. -/
theorem admitted_sparse {capacity : Nat} {started : Nat} {requests : List (Uuid × Nat)}
    (hpos : 0 < limits.accountLimit) (hroom : 4 * limits.globalLimit ≤ capacity)
    (hsorted : requests.Pairwise fun r r' => r.2 ≤ r'.2) :
    Sparse limits.window (2 * limits.globalLimit)
        ((admitAll (admitAt limits) (.new capacity started) [] requests).2.map Prod.snd) ∧
      (∀ a, Sparse limits.window (2 * limits.accountLimit)
        (timesOf a (admitAll (admitAt limits) (.new capacity started) [] requests).2)) ∧
      ∀ (st st' : Admission) a now, admitAt limits st a now = (st', false) →
        st'.globalWindow.count ≤ st.globalWindow.count ∧
          ∀ b w', st'.accountWindows.peek b = some w' →
            ∃ w, st.accountWindows.peek b = some w ∧ w'.count ≤ w.count := by
  obtain ⟨hglobal, haccounts⟩ := admitAll_sparse hpos hroom started hsorted
  exact ⟨hglobal, haccounts, fun st st' a now h => admitAt_refused h⟩

/-- The author verifier admits at most 128 requests in a minute, and 16 of one account. -/
theorem author_requests_sparse (started : Nat) {requests : List (Uuid × Nat)}
    (hsorted : requests.Pairwise fun r r' => r.2 ≤ r'.2) :
    Sparse (secs 60) 128 ((admitAll CachedMapAuthorVerifier.admitAt
        (.new CachedMapAuthorVerifier.cacheCapacity started) [] requests).2.map Prod.snd) ∧
      ∀ a, Sparse (secs 60) 16 (timesOf a (admitAll CachedMapAuthorVerifier.admitAt
        (.new CachedMapAuthorVerifier.cacheCapacity started) [] requests).2) := by
  have hpos : 0 < CachedMapAuthorVerifier.limits.accountLimit := by decide
  have hroom : 4 * CachedMapAuthorVerifier.limits.globalLimit ≤
      CachedMapAuthorVerifier.cacheCapacity := by decide
  exact admitAll_sparse hpos hroom started hsorted

/-- The record verifier admits at most 256 requests in a minute, and 32 of one account. -/
theorem record_requests_sparse (started : Nat) {requests : List (Uuid × Nat)}
    (hsorted : requests.Pairwise fun r r' => r.2 ≤ r'.2) :
    Sparse (secs 60) 256 ((admitAll CachedOfficialRecordVerifier.admitAt
        (.new CachedOfficialRecordVerifier.cacheCapacity started) [] requests).2.map Prod.snd) ∧
      ∀ a, Sparse (secs 60) 32 (timesOf a (admitAll CachedOfficialRecordVerifier.admitAt
        (.new CachedOfficialRecordVerifier.cacheCapacity started) [] requests).2) := by
  have hpos : 0 < CachedOfficialRecordVerifier.limits.accountLimit := by decide
  have hroom : 4 * CachedOfficialRecordVerifier.limits.globalLimit ≤
      CachedOfficialRecordVerifier.cacheCapacity := by decide
  exact admitAll_sparse hpos hroom started hsorted

end

/-- An account asks again when its window is over. -/
theorem admitted_sparse_again : Sparse (secs 60) 256
    ((admitAll CachedOfficialRecordVerifier.admitAt (.new 2048 0) [] [(1, 0), (1, secs 61)]).2.map
      Prod.snd) :=
  (@admitted_sparse CachedOfficialRecordVerifier.limits 2048 0 [(1, 0), (1, secs 61)] (by decide)
    (by decide) (by decide)).1

end Nadeo

end Dd2Server
