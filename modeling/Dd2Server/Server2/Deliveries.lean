import Dd2Server.Replay.Feed
import Dd2Server.Server2.LastHats

/-!
# Messages on their way to a client

An update goes from the manager's channel to a delivery, from there into the inbox of every
connection on the map, and at last into the queue.  Answers go into the queue at once.  For a
connection that stays on its map no move loses an update or brings two out of order: a move leaves
what the client is told of the map, puts an answer before the updates that are on their way, or adds
an update behind them (`Flow`).
-/

namespace Dd2Server

namespace Server2

open ReadCommitted

/-! ## Deliveries -/

/-- The deliveries of a task that are not over, by its log. -/
def busy : Log → List Unit
  | [] => []
  | .acted .nextMessage _ :: log => () :: busy log
  | .acted .delivered _ :: log => (busy log).erase ()
  | _ :: log => busy log

/-- The update that a delivery has yet to offer to the connection. -/
def carrying (c : Nat) : Log → List Response
  | [] => []
  | .acted .nextMessage ((m, hats), n) :: _ => if c < n then [.hatsOnMapUpdate m hats] else []
  | .acted (.offer c' _ _) _ :: log => if c' = c then [] else carrying c log
  | .acted .delivered _ :: _ => []
  | _ :: log => carrying c log

theorem busy_ofActs : OfActs busy := by
  intro log
  induction log with
  | nil => rfl
  | cons ev log ih =>
      cases ev with
      | acted a o => cases a <;> simp [busy, ih]
      | _ => exact ih

theorem carrying_ofActs (c : Nat) : OfActs (carrying c) := by
  intro log
  induction log with
  | nil => rfl
  | cons ev log ih =>
      cases ev with
      | acted a o => cases a <;> simp [carrying, ih]
      | _ => exact ih

theorem busy_offers (m : String) (hats : List HatOnMapPlayer) (k n : Nat) :
    busy (offers m hats k ++ [.acted .nextMessage ((m, hats), n)]) = [()] := by
  induction k with
  | zero => rfl
  | succ k ih => exact ih

theorem carrying_offers (c : Nat) (m : String) (hats : List HatOnMapPlayer) (k n : Nat) :
    carrying c (offers m hats k ++ [.acted .nextMessage ((m, hats), n)]) =
      if k ≤ c ∧ c < n then [.hatsOnMapUpdate m hats] else [] := by
  induction k with
  | zero => simp [offers, carrying]
  | succ k ih =>
      show (if k = c then [] else carrying c
        (offers m hats k ++ [.acted .nextMessage ((m, hats), n)])) = _
      rw [ih]
      grind

/-- Where no delivery is on, nothing is carried. -/
theorem carrying_idle {c : Nat} {log : Log} (h : () ∉ busy log) : carrying c log = [] := by
  induction log with
  | nil => rfl
  | cons ev log ih =>
      cases ev with
      | acted a o =>
          cases a with
          | nextMessage => exact absurd List.mem_cons_self h
          | delivered => rfl
          | offer c' m hats =>
              rw [carrying, ih h]
              exact ite_self _
          | _ => exact ih h
      | _ => exact ih h

theorem carrying_acted {c : Nat} {a : Act} {o : a.Out} {log : Log} (hnext : a ≠ .nextMessage)
    (hoffer : ∀ c' m hats, a ≠ .offer c' m hats) (hdone : a ≠ .delivered) :
    carrying c (.acted a o :: log) = carrying c log := by
  cases a <;> simp_all [carrying]

theorem perform_taken {a : Act} {mem mem' : Mem} {o : a.Out} (h : a.perform mem = some (mem', o))
    (ha : a ≠ .nextMessage) : mem'.taken = mem.taken := by
  cases a with
  | nextMessage => exact absurd rfl ha
  | _ =>
      simp only [Act.perform] at h
      grind [Mem.modify]

theorem perform_delivering {a : Act} {mem mem' : Mem} {o : a.Out}
    (h : a.perform mem = some (mem', o)) (hnext : a ≠ .nextMessage) (hdone : a ≠ .delivered) :
    mem'.delivering = mem.delivering := by
  cases a with
  | nextMessage => exact absurd rfl hnext
  | delivered => exact absurd rfl hdone
  | _ =>
      simp only [Act.perform] at h
      grind [Mem.modify]

/-- The manager's messages are delivered one after another. -/
def deliveries : Owners Table.Key Table.Row Tag Ask.Ans Act.Out Mem Unit where
  own := busy
  spare _ := []
  marked mem _ := mem.delivering = true

theorem deliveries_lawful : deliveries.Lawful shared Orderly where
  nil := rfl
  skip ev log h := by
    have hquiet := busy_ofActs.quiet (n := [ev]) ?_ log
    · exact hquiet
    · cases ev with
      | acted a o => exact absurd rfl (h a o)
      | _ => rfl
  pass a o log mem mem' hact hperf := by
    by_cases hnext : a = .nextMessage
    · subst hnext
      simp only [shared, Act.perform, Option.ite_none_left_eq_some, Option.map_eq_some_iff] at hperf
      obtain ⟨hfree, msg, -, he⟩ := hperf
      cases he
      exact Owners.Passes.taken (O := deliveries) (k := ()) rfl rfl hfree fun _ _ => rfl
    by_cases hdone : a = .delivered
    · subst hdone
      obtain ⟨m, hats, n, hlog⟩ := hact
      refine Owners.Passes.freed (O := deliveries) (k := ()) ?_ rfl rfl fun k _ hk => absurd rfl hk
      show () ∈ busy log
      rw [hlog, busy_offers]
      exact List.mem_cons_self
    · refine .same ?_ rfl fun _ hk => (perform_delivering hperf hnext hdone).trans hk
      show busy (.acted a o :: log) = busy log
      cases a <;> simp_all [busy]
  drop log mem := by
    obtain ⟨conns, h, -⟩ := abandon_eq log mem
    rw [h]
    exact ⟨rfl, fun _ hk _ => hk⟩

/-! ## Messages of a connection -/

def updateOf (msg : String × List HatOnMapPlayer) : Response := .hatsOnMapUpdate msg.1 msg.2

/-- The queue of a connection and the updates on their way there, the next one first. -/
def messages (c : Nat) (s : System) : List Response :=
  (s.mem.conns c).queue ++ ((s.mem.conns c).inbox ++ s.tasks.flatMap
    (fun t => carrying c t.loc.log) ++ (s.mem.broadcasts.drop s.mem.taken).map updateOf)

/-- What the client is told, and will be, as far as `f` reads it. -/
def feed {β : Type} (f : Response → Option β) (c : Nat) (s : System) : List β :=
  (messages c s).filterMap f

/-- Of the updates, `f` reads only those of this map. -/
def ReadsMap {β : Type} (m : String) (f : Response → Option β) : Prop :=
  ∀ m' hats, m' ≠ m → f (.hatsOnMapUpdate m' hats) = none

/-- The client's connection is open and on the map. -/
structure OnMap (c : Nat) (m : String) (s : System) : Prop where
  opened : c < s.mem.opened
  tracked : (s.mem.conns c).wayfinderMapUid = some m

instance (c : Nat) (m : String) (s : System) : Decidable (OnMap c m s) :=
  decidable_of_iff (c < s.mem.opened ∧ (s.mem.conns c).wayfinderMapUid = some m)
    ⟨fun h => ⟨h.1, h.2⟩, fun h => ⟨h.1, h.2⟩⟩

/-- No delivery is dropped half way. -/
def KeepsDeliveries (s : System) : Move Ask.Ans Job → Prop
  | .drop i => ∀ t ∈ s.tasks[i]?, () ∉ busy t.loc.log
  | _ => True

instance (s : System) : (mv : Move Ask.Ans Job) → Decidable (KeepsDeliveries s mv)
  | .start _ => .isTrue trivial
  | .run _ _ => .isTrue trivial
  | .drop i => inferInstanceAs (Decidable (∀ t ∈ s.tasks[i]?, () ∉ busy t.loc.log))

/-- What a move does to the messages that `f` reads. -/
inductive Flow {β : Type} (f : Response → Option β) (c : Nat) (s s' : System) :
    Move Ask.Ans Job → Prop
  | same {mv : Move Ask.Ans Job} (hsent : s'.mem.broadcasts = s.mem.broadcasts)
    (h : feed f c s' = feed f c s) :
      Flow f c s s' mv
  | answered (i : Nat) (ch : Choice Ask.Ans) (t : ServerTask) (r : Response)
    (next : Unit → Server Unit)
      (ht : s.tasks[i]? = some t) (hp : t.prog = .act (.send c r) next) (older newer : List β)
      (hsent : s'.mem.broadcasts = s.mem.broadcasts) (h : feed f c s = older ++ newer)
      (h' : feed f c s' = older ++ (f r).toList ++ newer) : Flow f c s s' (.run i ch)
  | told (i : Nat) (ch : Choice Ask.Ans) (t : ServerTask) (msg : String × List HatOnMapPlayer)
      (next : Unit → Server Unit) (ht : s.tasks[i]? = some t)
      (hp : t.prog = .act (.broadcastToMap msg.1 msg.2) next)
      (hsent : s'.mem.broadcasts = s.mem.broadcasts ++ [msg])
      (h' : feed f c s' = feed f c s ++ (f (updateOf msg)).toList) : Flow f c s s' (.run i ch)

section

variable {pg : Pg} {s s' : System} {c i : Nat} {m : String} {β : Type} {f : Response → Option β}
    {t : ServerTask} {ch : Choice Ask.Ans}

/-- While a task delivers a message, no other does. -/
theorem carried_alone (h : deliveries.Single s) (ht : s.tasks[i]? = some t)
    (hbusy : () ∈ busy t.loc.log) :
    s.tasks.flatMap (fun t => carrying c t.loc.log) = carrying c t.loc.log ∧
      ∀ t', (s.tasks.set i t').flatMap (fun t => carrying c t.loc.log) =
        carrying c t'.loc.log := by
  obtain ⟨l₁, l₂, hl, hset, herase⟩ := Owners.split_at ht
  have hidle : ∀ u ∈ l₁ ++ l₂, carrying c u.loc.log = [] := by
    intro u hu
    rw [← herase] at hu
    obtain ⟨j, hne, hj⟩ := List.mem_eraseIdx_iff_getElem?.1 hu
    exact carrying_idle fun hown => hne (h.apart hj ht hown hbusy)
  have h₁ : l₁.flatMap (fun t => carrying c t.loc.log) = [] :=
    List.flatMap_eq_nil_iff.2 fun u hu => hidle u (List.mem_append_left _ hu)
  have h₂ : l₂.flatMap (fun t => carrying c t.loc.log) = [] :=
    List.flatMap_eq_nil_iff.2 fun u hu => hidle u (List.mem_append_right _ hu)
  refine ⟨?_, fun t' => ?_⟩
  · rw [hl, List.flatMap_append, List.flatMap_cons, h₁, h₂, List.nil_append, List.append_nil]
  · rw [hset t', List.flatMap_append, List.flatMap_cons, h₁, h₂, List.nil_append,
      List.append_nil]

/-- Between two deliveries nothing is carried. -/
theorem carried_none (h : deliveries.Single s) (hfree : s.mem.delivering = false) :
    s.tasks.flatMap (fun t => carrying c t.loc.log) = [] := by
  refine List.flatMap_eq_nil_iff.2 fun t ht => carrying_idle fun hown => ?_
  have hmarked := h.marked () (List.mem_append_left _ (List.mem_flatMap.2 ⟨t, ht, hown⟩))
  exact absurd (hmarked.symm.trans hfree) (by simp)

theorem carried_set {t' : ServerTask} (ht : s.tasks[i]? = some t)
    (hsame : carrying c t'.loc.log = carrying c t.loc.log) :
    (s.tasks.set i t').flatMap (fun t => carrying c t.loc.log) =
      s.tasks.flatMap (fun t => carrying c t.loc.log) := by
  obtain ⟨l₁, l₂, hl, hset, -⟩ := Owners.split_at ht
  rw [hset t', hl]
  simp only [List.flatMap_append, List.flatMap_cons, hsame]

/-- Where nothing is carried, only the task that goes on may carry something. -/
theorem carried_taken (ht : s.tasks[i]? = some t) (t' : ServerTask)
    (hnone : s.tasks.flatMap (fun t => carrying c t.loc.log) = []) :
    (s.tasks.set i t').flatMap (fun t => carrying c t.loc.log) = carrying c t'.loc.log := by
  obtain ⟨l₁, l₂, hl, hset, -⟩ := Owners.split_at ht
  rw [hl, List.flatMap_append, List.flatMap_cons, List.append_eq_nil_iff, List.append_eq_nil_iff]
    at hnone
  rw [hset t', List.flatMap_append, List.flatMap_cons, hnone.1, hnone.2.2, List.nil_append,
    List.append_nil]

theorem carried_erase (ht : s.tasks[i]? = some t) (hidle : () ∉ busy t.loc.log) :
    (s.tasks.eraseIdx i).flatMap (fun t => carrying c t.loc.log) =
      s.tasks.flatMap (fun t => carrying c t.loc.log) := by
  obtain ⟨l₁, l₂, hl, -, herase⟩ := Owners.split_at ht
  rw [herase, hl]
  simp only [List.flatMap_append, List.flatMap_cons, carrying_idle hidle, List.nil_append]

/-- What is not for the connection leaves its messages. -/
theorem perform_messages {a : Act} {mem mem' : Mem} {o : a.Out} (h : a.perform mem = some (mem', o))
    (hsend : ∀ r, a ≠ .send c r) (hrelay : a ≠ .relay c)
    (hoffer : ∀ m hats, a ≠ .offer c m hats) :
    (mem'.conns c).queue = (mem.conns c).queue ∧ (mem'.conns c).inbox = (mem.conns c).inbox := by
  have hmodify : ∀ {c' : Nat} {f : Connection → Connection},
      (∀ x, (f x).queue = x.queue ∧ (f x).inbox = x.inbox) ∨ c ≠ c' →
      ((mem.modify c' f).conns c).queue = (mem.conns c).queue ∧
        ((mem.modify c' f).conns c).inbox = (mem.conns c).inbox := by
    rintro c' f (hf | hne)
    · rw [conns_modify]
      split
      · exact hf _
      · exact ⟨rfl, rfl⟩
    · rw [modify_conns_of_ne hne]
      exact ⟨rfl, rfl⟩
  cases a with
  | send c' r =>
      cases h
      exact hmodify (.inr fun he => hsend r (he ▸ rfl))
  | relay c' =>
      simp only [Act.perform] at h
      split at h <;> cases h
      exact hmodify (.inr fun he => hrelay (he ▸ rfl))
  | offer c' m hats =>
      simp only [Act.perform] at h
      split at h <;> cases h
      · exact hmodify (.inr fun he => hoffer m hats (he ▸ rfl))
      · exact ⟨rfl, rfl⟩
  | beginUnlock c' m slug =>
      simp only [Act.perform] at h
      split at h <;> cases h
      · exact hmodify (.inl (by simp))
      · exact ⟨rfl, rfl⟩
  | acquirePermit c' =>
      simp only [Act.perform] at h
      split at h <;> cases h
      exact hmodify (.inl (by simp))
  | setTracked c' next =>
      cases h
      exact hmodify (.inl (by simp))
  | releaseUnlock c' m slug =>
      cases h
      exact hmodify (.inl (by simp))
  | dropPermit c' =>
      cases h
      exact hmodify (.inl (by simp))
  | lockMap m =>
      simp only [Act.perform] at h
      split at h <;> cases h
      exact ⟨rfl, rfl⟩
  | begun task =>
      simp only [Act.perform] at h
      split at h <;> cases h
      exact ⟨rfl, rfl⟩
  | nextMessage =>
      simp only [Act.perform, Option.ite_none_left_eq_some, Option.map_eq_some_iff] at h
      obtain ⟨-, msg, -, he⟩ := h
      cases he
      exact ⟨rfl, rfl⟩
  | _ =>
      cases h
      exact ⟨rfl, rfl⟩

/-- The parts of the messages are the same. -/
theorem Flow.of_parts {mv : Move Ask.Ans Job}
    (hconn : (s'.mem.conns c).queue = (s.mem.conns c).queue ∧
      (s'.mem.conns c).inbox = (s.mem.conns c).inbox)
    (hcarried : s'.tasks.flatMap (fun t => carrying c t.loc.log) =
      s.tasks.flatMap (fun t => carrying c t.loc.log))
    (hchannel : s'.mem.broadcasts = s.mem.broadcasts ∧ s'.mem.taken = s.mem.taken) :
    Flow f c s s' mv := by
  refine .same hchannel.1 ?_
  rw [feed, messages, hconn.1, hconn.2, hcarried, hchannel.1, hchannel.2]
  rfl

/-- The manager takes a message that is on its way to the connection. -/
theorem Flow.taken {t' : ServerTask} {ch : Choice Ask.Ans} {o : (Act.nextMessage).Out}
    (hsingle : deliveries.Single s) (hopen : c < s.mem.opened) (ht : s.tasks[i]? = some t)
    (htasks : s'.tasks = s.tasks.set i t') (hlog : t'.loc.log = .acted .nextMessage o :: t.loc.log)
    (hperf : Act.perform .nextMessage s.mem = some (s'.mem, o)) : Flow f c s s' (.run i ch) := by
  simp only [Act.perform, Option.ite_none_left_eq_some, Option.map_eq_some_iff,
    Bool.not_eq_true] at hperf
  obtain ⟨hfree, msg, hmsg, he⟩ := hperf
  obtain ⟨hmem, rfl⟩ := Prod.mk.inj he
  have hnone := carried_none (c := c) hsingle hfree
  have hcarried : s'.tasks.flatMap (fun t => carrying c t.loc.log) = [updateOf msg] := by
    rw [htasks, carried_taken ht t' hnone, hlog, carrying, if_pos hopen]
    rfl
  have hdrop : s.mem.broadcasts.drop s.mem.taken = msg :: s.mem.broadcasts.drop
      (s.mem.taken + 1) := by
    obtain ⟨hlt, rfl⟩ := List.getElem?_eq_some_iff.1 hmsg
    exact List.drop_eq_getElem_cons hlt
  refine .same (by rw [← hmem]) ?_
  rw [feed, feed, messages, messages, hcarried, hnone, hdrop, ← hmem]
  simp

/-- The manager looks at the connection, and what it has for another map is not about this one. -/
theorem Flow.offered {t' : ServerTask} {ch : Choice Ask.Ans} {m' : String}
    {hats : List HatOnMapPlayer} {n : Nat} (hf : ReadsMap m f) (hsingle : deliveries.Single s)
    (hmap : (s.mem.conns c).wayfinderMapUid = some m) (ht : s.tasks[i]? = some t) (hn : c < n)
    (hold : t.loc.log = offers m' hats c ++ [.acted .nextMessage ((m', hats), n)])
    (htasks : s'.tasks = s.tasks.set i t')
    (hlog : t'.loc.log = .acted (.offer c m' hats) () :: t.loc.log)
    (hperf : Act.perform (.offer c m' hats) s.mem = some (s'.mem, ())) :
    Flow f c s s' (.run i ch) := by
  have hbusy : () ∈ busy t.loc.log := by
    rw [hold, busy_offers]
    exact List.mem_cons_self
  obtain ⟨hbefore, hafter⟩ := carried_alone (c := c) hsingle ht hbusy
  have hcarried : s.tasks.flatMap (fun t => carrying c t.loc.log) = [.hatsOnMapUpdate m' hats] := by
    rw [hbefore, hold, carrying_offers, if_pos ⟨le_rfl, hn⟩]
  have hnone : s'.tasks.flatMap (fun t => carrying c t.loc.log) = [] := by
    rw [htasks, hafter, hlog, carrying, if_pos rfl]
  refine .same (perform_broadcasts hperf (by simp)) ?_
  simp only [Act.perform] at hperf
  rw [feed, feed, messages, messages, hcarried, hnone]
  split at hperf
  case isTrue htracked =>
    obtain ⟨hmem, -⟩ := Prod.mk.inj (Option.some.inj hperf)
    rw [← hmem, modify_conns_self]
    simp [Mem.modify]
  case isFalse htracked =>
    obtain ⟨hmem, -⟩ := Prod.mk.inj (Option.some.inj hperf)
    have hother : m' ≠ m := fun he => htracked (he ▸ hmap)
    rw [← hmem]
    simp [hf m' hats hother]

/-- A task does something on the shared memory. -/
theorem Flow.of_act {t' : ServerTask} {ch : Choice Ask.Ans} {a : Act} {o : a.Out}
    {next : a.Out → Server Unit} (hf : ReadsMap m f) (hsane : Sane pg s)
    (hsingle : deliveries.Single s) (hle : s.mem.taken ≤ s.mem.broadcasts.length)
    (hon : OnMap c m s) (ht : s.tasks[i]? = some t) (hp : t.prog = .act a next)
    (htasks : s'.tasks = s.tasks.set i t') (hlog : t'.loc.log = .acted a o :: t.loc.log)
    (hperf : a.perform s.mem = some (s'.mem, o)) : Flow f c s s' (.run i ch) := by
  have hact := hsane.orderly (List.mem_of_getElem? ht) hp
  -- what the operation leaves alone besides
  have hquiet : a ≠ .nextMessage → (∀ r, a ≠ .send c r) → a ≠ .relay c →
      (∀ m hats, a ≠ .offer c m hats) →
      (∀ m hats, a ≠ .broadcastToMap m hats) →
        carrying c t'.loc.log = carrying c t.loc.log →
      Flow f c s s' (.run i ch) := by
    intro hnext hsend hrelay hoffer hcast hcarried
    refine .of_parts (perform_messages hperf hsend hrelay hoffer) ?_
      ⟨perform_broadcasts hperf hcast, perform_taken hperf hnext⟩
    rw [htasks]
    exact carried_set ht hcarried
  cases a with
  | nextMessage => exact .taken hsingle hon.opened ht htasks hlog hperf
  | send c' r =>
      by_cases hc : c' = c
      · subst hc
        have hcarried : s'.tasks.flatMap (fun t => carrying c' t.loc.log) =
            s.tasks.flatMap (fun t => carrying c' t.loc.log) := by
          rw [htasks]
          refine carried_set ht ?_
          rw [hlog]
          exact carrying_acted (by simp) (by simp) (by simp)
        simp only [Act.perform, Option.some.injEq, Prod.mk.injEq] at hperf
        refine .answered i ch t r next ht hp ((s.mem.conns c').queue.filterMap f)
          (((s.mem.conns c').inbox ++ s.tasks.flatMap (fun t => carrying c' t.loc.log) ++
            (s.mem.broadcasts.drop s.mem.taken).map updateOf).filterMap f) ?_ ?_ ?_
        · rw [← hperf.1]
          rfl
        · exact List.filterMap_append
        · rw [feed, messages, hcarried, ← hperf.1, modify_conns_self]
          cases hr : f r <;> simp [Mem.modify, hr]
      · refine hquiet (by simp) (fun r' he => ?_) (by simp) (by simp) (by simp) ?_
        · cases he
          exact hc rfl
        · rw [hlog]
          exact carrying_acted (by simp) (by simp) (by simp)
  | relay c' =>
      by_cases hc : c' = c
      · subst hc
        have hcarried : s'.tasks.flatMap (fun t => carrying c' t.loc.log) =
            s.tasks.flatMap (fun t => carrying c' t.loc.log) := by
          rw [htasks]
          refine carried_set ht ?_
          rw [hlog]
          exact carrying_acted (by simp) (by simp) (by simp)
        simp only [Act.perform] at hperf
        split at hperf
        case h_1 => cases hperf
        case h_2 r rest hin =>
          obtain ⟨hmem, -⟩ := Prod.mk.inj (Option.some.inj hperf)
          refine .same (by rw [← hmem]; rfl) ?_
          rw [feed, feed, messages, messages, hcarried, hin, ← hmem, modify_conns_self]
          simp [Mem.modify]
      · refine hquiet (by simp) (by simp) (fun he => ?_) (by simp) (by simp) ?_
        · cases he
          exact hc rfl
        · rw [hlog]
          exact carrying_acted (by simp) (by simp) (by simp)
  | offer c' m' hats =>
      by_cases hc : c' = c
      · subst hc
        obtain ⟨n, hn, hold⟩ := hact
        exact .offered hf hsingle hon.tracked ht hn hold htasks hlog hperf
      · refine hquiet (by simp) (by simp) (by simp) (fun m'' hats' he => ?_) (by simp) ?_
        · cases he
          exact hc rfl
        · rw [hlog, carrying, if_neg hc]
  | delivered =>
      obtain ⟨m', hats, n, hold⟩ := hact
      refine hquiet (by simp) (by simp) (by simp) (by simp) (by simp) ?_
      rw [hlog, hold, carrying_offers, if_neg fun h => absurd h.2 (not_lt.2 h.1)]
      rfl
  | broadcastToMap m' hats =>
      have hcarried : s'.tasks.flatMap (fun t => carrying c t.loc.log) =
          s.tasks.flatMap (fun t => carrying c t.loc.log) := by
        rw [htasks]
        refine carried_set ht ?_
        rw [hlog]
        exact carrying_acted (by simp) (by simp) (by simp)
      simp only [Act.perform, Option.some.injEq, Prod.mk.injEq] at hperf
      refine .told i ch t (m', hats) next ht hp (by rw [← hperf.1]) ?_
      rw [feed, feed, messages, messages, hcarried, ← hperf.1]
      cases hmsg : f (updateOf (m', hats)) <;>
        simp [List.drop_append_of_le_length hle, hmsg]
  | _ =>
      refine hquiet (by simp) (by simp) (by simp) (by simp) (by simp) ?_
      rw [hlog]
      exact carrying_acted (by simp) (by simp) (by simp)

/-! ## Every move -/

/-- The manager takes the messages of its channel one after another. -/
structure Conveying (pg : Pg) (s : System) : Prop where
  sane : Sane pg s
  single : deliveries.Single s
  taken : s.mem.taken ≤ s.mem.broadcasts.length

theorem Conveying.start {db₀ : Db} (hinv : Inv pg False db₀) :
    Conveying pg (System.on db₀) where
  sane := .fresh hinv (by simp [System.on])
  single := ⟨by simp [Owners.all, System.on, deliveries], by simp [Owners.all,
    System.on, deliveries]⟩
  taken := Nat.zero_le _

theorem Conveying.move {mv : Move Ask.Ans Job} (h : Conveying pg s)
    (hm : s.move shared (Job.body pg) mv = some s') : Conveying pg s' where
  sane := h.sane.move hm
  single := Owners.Single.move deliveries_lawful h.single
    (fun t ht a next hp => h.sane.orderly ht hp) hm
  taken := by
    cases Sys.move_cases hm with
    | started j hdb hmem htasks => exact hmem ▸ h.taken
    | dropped i t ht hdb hmem htasks =>
        obtain ⟨conns, he, -⟩ := abandon_eq t.loc.log s.mem
        rw [hmem, he]
        exact h.taken
    | ran i ch t t' ht hjob htasks hadv =>
        rcases advance_acts hadv with ⟨a, o, next, hp, hperf, -⟩ | ⟨hmem, -⟩
        · cases a with
          | nextMessage =>
              simp only [Act.perform, Option.ite_none_left_eq_some, Option.map_eq_some_iff] at hperf
              obtain ⟨-, msg, hmsg, he⟩ := hperf
              rw [← (Prod.mk.inj he).1]
              exact (List.getElem?_eq_some_iff.1 hmsg).1
          | broadcastToMap m' hats =>
              simp only [Act.perform, Option.some.injEq, Prod.mk.injEq] at hperf
              rw [← hperf.1]
              have hle := h.taken
              simp only [List.length_append, List.length_singleton]
              omega
          | _ =>
              rw [perform_broadcasts hperf (by simp), perform_taken hperf (by simp)]
              exact h.taken
        · rw [hmem]
          exact h.taken

theorem ReachBy.conveying {ok : System → Move Ask.Ans Job → Prop} {db₀ : Db}
    (hinv : Inv pg False db₀) (h : ReachBy shared (Job.body pg) ok (System.on db₀) s) :
    Conveying pg s := by
  induction h with
  | init => exact .start hinv
  | step _ _ hm ih => exact ih.move hm

/-- Where the client stays on its map and no delivery is dropped, a move puts an answer before the
updates on their way or an update behind them, and leaves the rest. -/
theorem Conveying.flow {mv : Move Ask.Ans Job} (hf : ReadsMap m f) (h : Conveying pg s)
    (hon : OnMap c m s) (hkeeps : KeepsDeliveries s mv)
    (hm : s.move shared (Job.body pg) mv = some s') : Flow f c s s' mv := by
  cases Sys.move_cases hm with
  | started j hdb hmem htasks =>
      refine .of_parts (by rw [hmem]; exact ⟨rfl, rfl⟩) ?_ (by rw [hmem]; exact ⟨rfl, rfl⟩)
      rw [htasks, List.flatMap_append, List.flatMap_singleton]
      exact List.append_nil _
  | dropped i t ht hdb hmem htasks =>
      obtain ⟨conns, he, hsame⟩ := abandon_eq t.loc.log s.mem
      refine .of_parts ?_ ?_ ?_
      · rw [hmem, he]
        exact hsame c
      · rw [htasks]
        exact carried_erase ht (hkeeps t ht)
      · rw [hmem, he]
        exact ⟨rfl, rfl⟩
  | ran i ch t t' ht hjob htasks hadv =>
      rcases advance_acts hadv with ⟨a, o, next, hp, hperf, hlog⟩ | ⟨hmem, new, hlog, hacts⟩
      · exact .of_act hf h.sane h.single h.taken hon ht hp htasks hlog hperf
      · refine .of_parts (by rw [hmem]; exact ⟨rfl, rfl⟩) ?_
          (by rw [hmem]; exact ⟨rfl, rfl⟩)
        rw [htasks]
        refine carried_set ht ?_
        rw [hlog, (carrying_ofActs c).quiet hacts]

/-! ## Once each, in order -/

/-- The hats of an update of the map. -/
def mapUpdate (m : String) : Response → Option (List HatOnMapPlayer)
  | .hatsOnMapUpdate m' hats => if m' = m then some hats else none
  | _ => none

theorem mapUpdate_readsMap : ReadsMap m (mapUpdate m) := fun _ _ hne => if_neg hne

/-- Every message of the channel went out, and nothing is on its way to the connection. -/
structure Delivered (c : Nat) (s : System) : Prop where
  inbox : (s.mem.conns c).inbox = []
  idle : s.mem.delivering = false
  taken : s.mem.taken = s.mem.broadcasts.length

instance (c : Nat) (s : System) : Decidable (Delivered c s) :=
  decidable_of_iff ((s.mem.conns c).inbox = [] ∧ s.mem.delivering = false ∧
    s.mem.taken = s.mem.broadcasts.length)
    ⟨fun h => ⟨h.1, h.2.1, h.2.2⟩, fun h => ⟨h.1, h.2, h.3⟩⟩

theorem Delivered.feed (h : Delivered c s) (hsingle : deliveries.Single s) :
    Server2.feed f c s = (s.mem.conns c).queue.filterMap f := by
  rw [Server2.feed, messages, h.inbox, carried_none hsingle h.idle, h.taken, List.drop_length]
  simp

/-- No task but the manager answers with an update. -/
theorem Sane.sends_no_update (h : Sane pg s) (ht : t ∈ s.tasks) {hats : List HatOnMapPlayer}
    {next : Unit → Server Unit} : t.prog ≠ .act (.send c (.hatsOnMapUpdate m hats)) next := by
  intro hp
  have hact := Sound.act h ht hp
  cases hj : t.job with
  | connection u name requests =>
      rw [hj] at hact
      exact hact.2
  | spawned task =>
      rw [hj] at hact
      cases task with
      | unlockValidation c' u m' slug specId =>
          obtain ⟨-, -, equipped, db, -, hr⟩ := hact
          cases hr
      | _ => exact hact
  | relay c' =>
      rw [hj] at hact
      cases hact.2
  | _ =>
      rw [hj] at hact
      exact hact

/-- The client stays on the map, and no delivery is dropped. -/
def Listening (c : Nat) (m : String) (s : System) (mv : Move Ask.Ans Job) : Prop :=
  OnMap c m s ∧ KeepsDeliveries s mv

instance (c : Nat) (m : String) (s : System) (mv : Move Ask.Ans Job) :
    Decidable (Listening c m s mv) :=
  inferInstanceAs (Decidable (_ ∧ _))

/-- By induction on the run: what was sent for the map is behind what was on its way. -/
theorem Listening.feed {s₁ s₂ : System} (h₁ : Conveying pg s₁)
    (h₂ : ReachBy shared (Job.body pg) (Listening c m) s₁ s₂) : Conveying pg s₂ ∧
      ∃ sent, s₂.mem.broadcasts = s₁.mem.broadcasts ++ sent ∧
        Server2.feed (mapUpdate m) c s₂ =
          Server2.feed (mapUpdate m) c s₁ ++ (sent.map updateOf).filterMap (mapUpdate m) := by
  induction h₂ with
  | init => exact ⟨h₁, [], by simp, by simp⟩
  | @step s s' mv hs hok hm ih =>
      obtain ⟨hconv, sent, hsent, hfeed⟩ := ih
      refine ⟨hconv.move hm, ?_⟩
      cases hconv.flow mapUpdate_readsMap hok.1 hok.2 hm with
      | same hb h => exact ⟨sent, hb.trans hsent, h.trans hfeed⟩
      | answered i ch t r next ht hp older newer hb h h' =>
          have hnone : mapUpdate m r = none := by
            cases r with
            | hatsOnMapUpdate m' hats =>
                exact absurd hp (hconv.sane.sends_no_update (List.mem_of_getElem? ht))
            | _ => rfl
          refine ⟨sent, hb.trans hsent, ?_⟩
          rw [h', hnone, Option.toList_none, List.append_nil, ← h]
          exact hfeed
      | told i ch t msg next ht hp hb h' =>
          refine ⟨sent ++ [msg], by rw [hb, hsent, List.append_assoc], ?_⟩
          rw [h', hfeed, List.append_assoc, List.map_append, List.filterMap_append]
          cases hmsg : mapUpdate m (updateOf msg) <;> simp [hmsg]

/-- While a client stays on its map, the updates that come into its queue are, each of them once and
in the order of the channel, those that were on their way and those that were sent since; once
everything is delivered, all of them. -/
theorem updates_in_order {ok : System → Move Ask.Ans Job → Prop} {db₀ : Db}
    {s₁ s₂ : System} (hinv : Inv pg False db₀)
    (h₁ : ReachBy shared (Job.body pg) ok (System.on db₀) s₁)
    (h₂ : ReachBy shared (Job.body pg) (Listening c m) s₁ s₂) :
    ∃ sent, s₂.mem.broadcasts = s₁.mem.broadcasts ++ sent ∧
      let due := feed (mapUpdate m) c s₁ ++ (sent.map updateOf).filterMap (mapUpdate m)
      (s₂.mem.conns c).queue.filterMap (mapUpdate m) <+: due ∧
        (Delivered c s₂ → (s₂.mem.conns c).queue.filterMap (mapUpdate m) = due) := by
  obtain ⟨hconv, sent, hsent, hfeed⟩ := Listening.feed (ReachBy.conveying hinv h₁) h₂
  refine ⟨sent, hsent, ?_, fun hdone => ?_⟩
  · rw [← hfeed, feed, messages, List.filterMap_append]
    exact List.prefix_append _ _
  · rw [← hdone.feed hconv.single]
    exact hfeed

end

namespace Sample

/-- The hat of the author is delivered, and once more when the author comes to the map on a second
connection. -/
def hatDelivered : List (ReadCommitted.Cue Ask.Ans Job) :=
  [.start .deliver, .go 7 20 (Sample.answers 7 none), .start (.relay 2),
   .go 8 2 (Sample.answers 7 none),
   .start (.connection 1 "Author" [.getHatsMine Sample.mapUid]), .go 9 60 (Sample.answers 7 none),
   .start .deliver, .go 10 20 (Sample.answers 7 none), .start (.relay 2),
     .go 11 2 (Sample.answers 7 none)]

end Sample

theorem updates_in_order_author :
    ∃ (s₁ s₂ : System) (sent : List (String × List HatOnMapPlayer)),
      s₂.mem.broadcasts = s₁.mem.broadcasts ++ sent ∧
      sent = [(Sample.mapUid, [⟨Uuid.text 1, "Author", "Hat-1"⟩])] ∧
      (s₂.mem.conns 2).queue.filterMap (mapUpdate Sample.mapUid) =
        feed (mapUpdate Sample.mapUid) 2 s₁ ++
          (sent.map updateOf).filterMap (mapUpdate Sample.mapUid) := by
  obtain ⟨s₁, h₁, h⟩ : ∃ s₁, ReachBy shared (Job.body Sample.pg) (fun _ _ => True)
      (System.on Store.empty) s₁ ∧
      ((s₁.scriptBy shared (Job.body Sample.pg)
        (Listening 2 Sample.mapUid) Sample.hatDelivered).any fun s =>
        decide (Delivered 2 s ∧ s.mem.broadcasts =
          s₁.mem.broadcasts ++ [(Sample.mapUid, [⟨Uuid.text 1, "Author", "Hat-1"⟩])])) =
            true :=
    ReachBy.scriptedBy Sample.hatEquipped (by decide +kernel)
  obtain ⟨s₂, h₂, h⟩ := (Option.any_eq_true _ _).1 h
  obtain ⟨hdone, hsent⟩ := of_decide_eq_true h
  obtain ⟨sent, hsent', -, hall⟩ :=
    updates_in_order (inv_empty Sample.pg False) h₁ (ReachBy.scriptBy .init h₂)
  exact ⟨s₁, s₂, sent, hsent', List.append_cancel_left (hsent'.symm.trans hsent),
    hall hdone⟩

end Server2

end Dd2Server
