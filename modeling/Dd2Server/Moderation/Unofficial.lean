import Dd2Server.Moderation.Runs

/-!
# The unofficial mark

Over every interleaving of the requests, with time passing: a ban that counts comes with the mark of
its user on the map, and only the lift of such a ban clears the mark.
-/

namespace Dd2Server.Moderation

open ReadCommitted

variable {env : Env} {s₀ s s' : System} {pre post : Db} {log : Log} {j : Job}
  {m : String} {u : Uuid} {move : Move Ask.Ans Job}

/-! ## What a commit does to bans and marks -/

/-- In a run that starts with marked bans all bans are marked. -/
theorem Run.marked (htasks : s₀.tasks = []) (hmarked : Marked s₀.db) (h : Run env s₀ s) :
    Marked s.db :=
  Reach.holds (Q := fun _ _ _ _ => True) (fun j db _ => j.safe env db) trivial htasks hmarked
    (fun _ _ _ _ _ hchange hpre => hpre.change hchange) h

/-- A task has lifted the ban of the user on the map, which counted at `NOW()` of its
transaction. -/
def LiftsActive (keepUnofficial : Bool) (m : String) (u : Uuid) (s s' : System) (t : Task) : Prop :=
  ∃ userId cookie liftedBy b now, t.job = .liftBan m userId cookie keepUnofficial ∧
    Uuid.parse userId.toList = some u ∧ lastClock t.loc.log = some now ∧ now ≤ s.mem ∧
    s.db.get ⟨.mapBans, (m, u)⟩ = some b ∧ b.isActive now = true ∧
    s'.db.get ⟨.mapBans, (m, u)⟩ = some (b.lifted liftedBy now)

/-- Who clears a mark. -/
theorem mark_cleared (h : Orderly s) (hclocks : ClocksPast s) (hstep : Step env s move s')
    (hmark : (s.db.get ⟨.mapUnofficial, (m, u)⟩).isSome = true)
    (hgone : s'.db.get ⟨.mapUnofficial, (m, u)⟩ = none) :
    ∃ i t t', s.CommittedBy s' i t t' ∧ LiftsActive false m u s s' t := by
  rcases h.step hstep with he | ⟨i, t, t', hcommit, hchange⟩
  · rw [← he, hgone] at hmark
    cases hmark
  refine ⟨i, t, t', hcommit, ?_⟩
  cases hchange.standing with
  | same hbans hmarks =>
      rw [← hmarks, hgone] at hmark
      cases hmark
  | banned m' u' cookie body b r hj hb hlog hbans hmarks =>
      rw [hmarks] at hgone
      split at hgone
      · cases hgone
      · rw [hgone] at hmark
        cases hmark
  | lifted m' userId u' liftedBy cookie keep clears b now hj hclears hu hclock hb hactive hbans
      hmarks =>
      rw [hmarks] at hgone
      split at hgone
      case isFalse =>
        rw [hgone] at hmark
        cases hmark
      case isTrue hk =>
        obtain ⟨hk, hcl⟩ := hk
        cases hk
        obtain rfl := hclears hcl
        have hpast := hclocks t (List.mem_of_getElem? hcommit.1) now (mem_of_lastClock hclock)
        exact ⟨userId, cookie, liftedBy, b, now, hj, hu, hclock, hpast, hb, hactive,
          (hbans _).trans (if_pos rfl)⟩

/-- A lift of a ban that does not count changes no ban and no mark. -/
theorem lift_of_inactive (h : Orderly s) {i : Nat} {c : Choice Ask.Ans}
    (hstep : Step env s (.run i c) s') {t : Task} (ht : s.tasks[i]? = some t) {userId : String}
    {cookie : Option String} {keep : Bool} (hj : t.job = .liftBan m userId cookie keep)
    (hinactive : ∀ u now, Uuid.parse userId.toList = some u → lastClock t.loc.log = some now →
      isBanned s.db now m u = false) (k : String × Uuid) :
    s'.db.get ⟨.mapBans, k⟩ = s.db.get ⟨.mapBans, k⟩ ∧
      s'.db.get ⟨.mapUnofficial, k⟩ = s.db.get ⟨.mapUnofficial, k⟩ := by
  rcases (h.run ht s.admits_true hstep).2 with he | ⟨-, hchange, -⟩
  · rw [he]
    exact ⟨rfl, rfl⟩
  cases Change.standing hchange with
  | same hbans hmarks => exact ⟨hbans k, hmarks k⟩
  | banned m' u cookie' body b r hj' hb hlog hbans hmarks =>
      rw [hj] at hj'
      cases hj'
  | lifted m' userId' u liftedBy cookie' keep' clears b now hj' hclears hu hclock hb hactive hbans
      hmarks =>
      rw [hj] at hj'
      cases hj'
      have hno := hinactive u now hu hclock
      rw [isBanned, hb, Option.any_some, hactive] at hno
      cases hno

/-- A ban that was not there as it is comes from a `create_ban`, and with its mark. -/
theorem mark_of_newBan (h : Orderly s) (hmarked : Marked s.db)
    (hstep : Step env s move s') {b : MapBan} (hban : s'.db.get ⟨.mapBans, (m, u)⟩ = some b)
    (hlift : b.liftedAt = none) (hnew : s.db.get ⟨.mapBans, (m, u)⟩ ≠ some b) :
    (s'.db.get ⟨.mapUnofficial, (m, u)⟩).isSome = true ∧
      ∃ i t t' cookie body, s.CommittedBy s' i t t' ∧ t.job = .createBan m cookie body := by
  rcases h.step hstep with he | ⟨i, t, t', hcommit, hchange⟩
  · rw [he] at hban
    exact absurd hban hnew
  refine ⟨(hmarked.change hchange) m u b hban hlift, i, t, t', ?_⟩
  cases hchange.standing with
  | same hbans hmarks => exact absurd ((hbans _).symm.trans hban) hnew
  | banned m' u' cookie body b' r hj hb hlog hbans hmarks =>
      rw [hbans] at hban
      split at hban
      case isTrue hk =>
        cases hk
        exact ⟨cookie, body, hcommit, hj⟩
      case isFalse => exact absurd hban hnew
  | lifted m' userId u' liftedBy cookie keep clears b' now hj hclears hu hclock hb hactive hbans
      hmarks =>
      rw [hbans] at hban
      split at hban
      case isTrue =>
        cases hban
        cases hlift
      case isFalse => exact absurd hban hnew

/-- In every run that starts without bans: a ban that counts comes with its mark; a mark goes only
by the lift of a ban that counts, with `keep_unofficial = false`; the lift of a ban that does not
count changes nothing; and a new ban brings the mark back. -/
theorem unofficial_mark (htasks : s₀.tasks = [])
    (hbans : ∀ m u, s₀.db.get ⟨.mapBans, (m, u)⟩ = none) (hrun : Run env s₀ s) :
    (∀ m u, isBanned s.db s.mem m u = true →
      (s.db.get ⟨.mapUnofficial, (m, u)⟩).isSome = true) ∧
    ∀ move s', Step env s move s' → ∀ m u,
      ((s.db.get ⟨.mapUnofficial, (m, u)⟩).isSome = true →
        s'.db.get ⟨.mapUnofficial, (m, u)⟩ = none →
        ∃ i t t', s.CommittedBy s' i t t' ∧ LiftsActive false m u s s' t) ∧
      (∀ i c t userId cookie keep, move = .run i c → s.tasks[i]? = some t →
        t.job = .liftBan m userId cookie keep → Uuid.parse userId.toList = some u →
        (∀ now, lastClock t.loc.log = some now → isBanned s.db now m u = false) →
        s'.db.get ⟨.mapBans, (m, u)⟩ = s.db.get ⟨.mapBans, (m, u)⟩ ∧
          s'.db.get ⟨.mapUnofficial, (m, u)⟩ = s.db.get ⟨.mapUnofficial, (m, u)⟩) ∧
      (∀ b, s'.db.get ⟨.mapBans, (m, u)⟩ = some b → b.liftedAt = none →
        s.db.get ⟨.mapBans, (m, u)⟩ ≠ some b →
        (s'.db.get ⟨.mapUnofficial, (m, u)⟩).isSome = true ∧
          ∃ i t t' cookie body, s.CommittedBy s' i t t' ∧
          t.job = .createBan m cookie body) := by
  have hmarked : Marked s₀.db := fun m u b hb => by
    rw [hbans] at hb
    cases hb
  have horderly := Run.orderly htasks hrun
  have hmarked' := Run.marked htasks hmarked hrun
  refine ⟨fun m u h => Marked.of_banned hmarked' h, fun move s' hstep m u => ⟨?_, ?_, ?_⟩⟩
  · exact mark_cleared horderly (Run.clocksPast htasks hrun) hstep
  · rintro i c t userId cookie keep rfl ht hj hu hinactive
    refine lift_of_inactive horderly hstep ht hj (fun u' now hu' hclock => ?_) (m, u)
    rw [hu] at hu'
    cases hu'
    exact hinactive now hclock
  · exact fun b hb hlift hnew => mark_of_newBan horderly hmarked' hstep hb hlift hnew

theorem Sample.no_bans (m : String) (u : Uuid) :
    Sample.system.db.get ⟨.mapBans, (m, u)⟩ = none := by
  simp [Sample.system, Sample.db, Store.get_put_of_ne]

/-- A ban, its lift that clears the mark, and a new ban. -/
theorem unofficial_mark_rebanned :
    ∃ s, Run Sample.env Sample.system s ∧ isBanned s.db s.mem "m" 2 = true ∧
      (s.db.get ⟨.mapUnofficial, ("m", 2)⟩).isSome = true := by
  have hbanned : ∃ s, Run Sample.env Sample.system s ∧ isBanned s.db s.mem "m" 2 = true :=
    Reach.scripted [
      .start (.createBan "m" Sample.cookie Sample.ban), .go 0 40 (Sample.answers 1),
      .start (.liftBan "m" Sample.two Sample.cookie false), .go 1 40 (Sample.answers 2),
      .start (.createBan "m" Sample.cookie Sample.ban), .go 2 40 (Sample.answers 3)]
      (by decide +kernel)
  obtain ⟨s, hrun, hban⟩ := hbanned
  exact ⟨s, hrun, hban, (unofficial_mark rfl Sample.no_bans hrun).1 "m" 2 hban⟩

end Dd2Server.Moderation
