import Dd2Server.Moderation.Unofficial
import Dd2Server.ReadCommitted.Conduct

/-!
# Protected users and bans

`create_ban` reads that its target is not a super-mod, the author or a delegate, and `add_delegate`
reads that its target is not banned.  Nothing is read before a super-mod is added or the author of a
map is stored, and nothing keeps what was read from changing before the write.  Where these commits
stay apart, no protected user is banned.
-/

namespace Dd2Server.Moderation

open ReadCommitted

variable {env : Env} {s₀ s s' : System} {pre post : Db} {log : Log} {j : Job}
  {m : String} {u : Uuid} {kind : Protection} {now now' : Time} {move : Move Ask.Ans Job}

/-- Nobody is banned on a map who is a super-mod, its author or its delegate. -/
def NoProtectedBanned (db : Db) (now : Time) : Prop :=
  ∀ m u, isBanned db now m u = true → ∀ kind : Protection, kind.covers db m u = false

/-- A commit gives the user this protection on the map. -/
def Grants (kind : Protection) (m : String) (u : Uuid) (pre post : Db) : Prop :=
  kind.covers pre m u = false ∧ kind.covers post m u = true

/-- A commit bans the user on the map. -/
def Bans (now : Time) (m : String) (u : Uuid) (pre post : Db) : Prop :=
  isBanned pre now m u = false ∧ isBanned post now m u = true

/-- What the move commits stays apart from what others have read: nobody who is banned on a map
becomes a super-mod or its author, nobody is given a protection a `create_ban` has looked for and
not found, and nobody is banned for whom an `add_delegate` has found no ban. -/
def StaysApart (s : System) : Move Ask.Ans Job → Prop
  | .run i _ => ∀ t next fail, s.tasks[i]? = some t → t.prog = .commit next fail →
      (∀ kind m u, Grants kind m u s.db (Store.view t.loc.writes s.db) →
        (kind ≠ .delegate → isBanned s.db s.mem m u = false) ∧
          ∀ t' ∈ s.tasks, ¬Within (cleared kind m u) t') ∧
      ∀ m u, Bans s.mem m u s.db (Store.view t.loc.writes s.db) →
        ∀ t' ∈ s.tasks, ¬Within (unbanned m u) t'
  | _ => True

/-! ## Bans and grants -/

/-- A ban that does not count will not count later. -/
theorem isBanned_later {db : Db} (h : isBanned db now m u = false) (hle : now ≤ now') :
    isBanned db now' m u = false := by
  rw [isBanned, Option.any_eq_false] at h ⊢
  intro b hb
  have hb' := h b hb
  cases hlift : b.liftedAt with
  | some t => simp [MapBan.isActive, hlift]
  | none =>
      cases hexp : b.expiresAt with
      | none => simp [MapBan.isActive, hlift, hexp] at hb'
      | some t =>
          simp only [MapBan.isActive, hlift, hexp, Option.isNone_none,
            Option.all_some, Bool.true_and, decide_eq_false_iff_not, not_lt] at hb' ⊢
          exact hb'.trans hle

/-- A ban is preceded by the reads of `is_protected_from_map_ban`. -/
theorem Change.ban_cleared (h : Change j log pre post) (hb : Bans now m u pre post)
    (kind : Protection) : opened (cleared kind m u) log = true := by
  obtain ⟨hpre, hpost⟩ := hb
  cases h.standing with
  | same hbans hmarks =>
      rw [isBanned, hbans] at hpost
      exact absurd (hpre.symm.trans hpost) (by decide)
  | banned m' u' cookie body b r hj hb hlog hbans hmarks =>
      rw [isBanned, hbans] at hpost
      split at hpost
      case isTrue hk =>
        cases hk
        exact hlog kind
      case isFalse => exact absurd (hpre.symm.trans hpost) (by decide)
  | lifted m' userId u' liftedBy cookie keep clears b n hj hclears hu hclock hb hactive hbans
      hmarks =>
      rw [isBanned, hbans] at hpost
      split at hpost
      case isTrue => cases hpost
      case isFalse => exact absurd (hpre.symm.trans hpost) (by decide)

/-- A delegate is preceded by the read of `get_active_ban`. -/
theorem Change.delegate_unbanned (h : Change j log pre post) (hg : Grants .delegate m u pre post) :
    opened (unbanned m u) log = true := by
  obtain ⟨hpre, hpost⟩ := hg
  have hsame : post.get ⟨.mapDelegates, (m, u)⟩ ≠ pre.get ⟨.mapDelegates, (m, u)⟩ := by
    intro he
    rw [Protection.covers] at hpre hpost
    rw [he, hpre] at hpost
    cases hpost
  have hput : ∀ {w : Write Table.Key Table.Row}, w.row ≠ ⟨.mapDelegates, (m, u)⟩ →
      ∀ db : Db, (db.put w).get ⟨.mapDelegates, (m, u)⟩ =
        db.get ⟨.mapDelegates, (m, u)⟩ :=
    fun hw _ => Store.get_put_of_ne hw
  cases h with
  | nothing => exact absurd rfl hsame
  | user u r => exact absurd (hput (by simp) _) hsame
  | audit id r => exact absurd (hput (by simp) _) hsame
  | metadata m r => exact absurd (hput (by simp) _) hsame
  | promoted u r => exact absurd (hput (by simp) _) hsame
  | demoted u hj hlog => exact absurd (hput (by simp) _) hsame
  | banned m u cookie body b r hj hb hlog =>
      exact absurd ((hput (by simp) _).trans (hput (by simp) _)) hsame
  | lifted m userId u liftedBy cookie keep clears b now hj hclears hu hclock hb hactive =>
      exact absurd (liftWrites_others _ _ (by simp) (by simp)) hsame
  | delegated m' u' r hlog =>
      by_cases hk : (m', u') = (m, u)
      · cases hk
        exact hlog
      · exact absurd (hput (by simpa using hk) _) hsame
  | undelegated m' u' =>
      by_cases hk : (m', u') = (m, u)
      · cases hk
        simp [Protection.covers] at hpost
      · exact absurd (hput (by simpa using hk) _) hsame

/-! ## The invariant -/

/-- What the tasks have read still holds, on the rows and at the time given. -/
structure Reliable (tasks : List Task) (db : Db) (now : Time) : Prop where
  /-- A `create_ban` has not found a protection, and there is none. -/
  vetted : ∀ t ∈ tasks, ∀ kind m u, Within (cleared kind m u) t → kind.covers db m u = false
  /-- An `add_delegate` has not found a ban, and there is none. -/
  spared : ∀ t ∈ tasks, ∀ m u, Within (unbanned m u) t → isBanned db now m u = false

theorem covers_of_cleared {tag : Tag} {db : Db} (h : cleared kind m u tag db log = true) :
    kind.covers db m u = false := by
  cases tag <;> simp [cleared] at h
  obtain ⟨⟨⟨-, rfl⟩, rfl⟩, hno⟩ := h
  exact hno

/-- The ban was looked for at a time the task had read off the clock. -/
theorem notBanned_of_unbanned {tag : Tag} {db : Db} (h : unbanned m u tag db log = true) :
    ∃ now, .acted .clock now ∈ log ∧ isBanned db now m u = false := by
  cases tag with
  | activeBan m' u' =>
      cases log with
      | nil => cases h
      | cons ev log =>
          cases ev with
          | acted a now =>
              cases a with
              | pass d => cases h
              | clock =>
                  simp only [unbanned, Bool.and_eq_true, decide_eq_true_eq, Bool.not_eq_true'] at h
                  obtain ⟨⟨rfl, rfl⟩, hno⟩ := h
                  exact ⟨now, List.mem_cons_self, hno⟩
          | _ => cases h
  | _ => cases h

theorem Reliable.step {i : Nat} {c : Choice Ask.Ans} {t t' : Task} {held : List (Lock Table.Key)}
    {db' : Db} {mem' : Time} (h : Reliable s.tasks s.db s.mem) (hclocks : ClocksPast s)
    (ht : s.tasks[i]? = some t)
    (hadv : ReadCommitted.advance shared held s.db s.mem t.prog t.loc c =
      some (db', mem', t'.prog, t'.loc)) : Reliable (s.tasks.set i t') s.db s.mem := by
  have htm := List.mem_of_getElem? ht
  refine ⟨fun t₂ ht₂ kind m u hw => ?_, fun t₂ ht₂ m u hw => ?_⟩
  · rcases List.mem_or_eq_of_mem_set ht₂ with ht₂ | rfl
    · exact h.vetted t₂ ht₂ kind m u hw
    · rcases hw.advance hadv with hw | ⟨tag, hread⟩
      · exact h.vetted t htm kind m u hw
      · exact covers_of_cleared hread
  · rcases List.mem_or_eq_of_mem_set ht₂ with ht₂ | rfl
    · exact h.spared t₂ ht₂ m u hw
    · rcases hw.advance hadv with hw | ⟨tag, hread⟩
      · exact h.spared t htm m u hw
      · obtain ⟨now, hnow, hno⟩ := notBanned_of_unbanned hread
        exact isBanned_later hno (hclocks t htm now hnow)

theorem Reliable.later {tasks : List Task} {db : Db} (h : Reliable tasks db now)
    (hle : now ≤ now') : Reliable tasks db now' :=
  ⟨h.vetted, fun t ht m u hw => isBanned_later (h.spared t ht m u hw) hle⟩

theorem NoProtectedBanned.later {db : Db} (h : NoProtectedBanned db now) (hle : now ≤ now') :
    NoProtectedBanned db now' := by
  intro m u hb
  apply h m u
  by_contra hno
  rw [isBanned_later (Bool.eq_false_iff.2 hno) hle] at hb
  cases hb

/-- A commit that stays apart keeps what was read, and bans nobody who is protected. -/
theorem Reliable.commit {i : Nat} {c : Choice Ask.Ans} {t t' : Task}
    {next fail : Server (Option Reply)} (h : Reliable s.tasks s.db s.mem)
    (hrel : Reliable (s.tasks.set i t') s.db s.mem) (hapart : NoProtectedBanned s.db s.mem)
    (hok : StaysApart s (.run i c)) (ht : s.tasks[i]? = some t) (hp : t.prog = .commit next fail)
    (hpost : s'.db = Store.view t.loc.writes s.db) (hchange : Change t.job t.loc.log s.db s'.db)
    (hwithin : ∀ p, Within p t' → Within p t) :
    Reliable (s.tasks.set i t') s'.db s.mem ∧ NoProtectedBanned s'.db s.mem := by
  have htm := List.mem_of_getElem? ht
  have hrunning : ∀ {p}, opened p t.loc.log = true → Within p t :=
    fun h => ⟨by rw [hp]; rfl, h⟩
  obtain ⟨hgrants, hbans⟩ := hok t next fail ht hp
  rw [← hpost] at hgrants hbans
  have hold : ∀ t₂ ∈ s.tasks.set i t', ∀ p, Within p t₂ →
      ∃ t₁ ∈ s.tasks, Within p t₁ := by
    intro t₂ ht₂ p hw
    rcases List.mem_or_eq_of_mem_set ht₂ with ht₂ | rfl
    · exact ⟨t₂, ht₂, hw⟩
    · exact ⟨t, htm, hwithin p hw⟩
  refine ⟨⟨fun t₂ ht₂ kind m u hw => ?_, fun t₂ ht₂ m u hw => ?_⟩,
    fun m u hb kind => ?_⟩
  · by_contra hcovers
    obtain ⟨t₁, ht₁, hw₁⟩ := hold t₂ ht₂ _ hw
    have hgrant : Grants kind m u s.db s'.db :=
      ⟨hrel.vetted t₂ ht₂ kind m u hw, Bool.not_eq_false _ ▸ hcovers⟩
    exact (hgrants kind m u hgrant).2 t₁ ht₁ hw₁
  · by_contra hbanned
    obtain ⟨t₁, ht₁, hw₁⟩ := hold t₂ ht₂ _ hw
    have hban : Bans s.mem m u s.db s'.db :=
      ⟨hrel.spared t₂ ht₂ m u hw, Bool.not_eq_false _ ▸ hbanned⟩
    exact hbans m u hban t₁ ht₁ hw₁
  · by_contra hno
    have hcovers : kind.covers s'.db m u = true := by simpa using hno
    -- the protection was there before, or it comes with this commit
    cases hpre : kind.covers s.db m u with
    | true =>
        have hfree : isBanned s.db s.mem m u = false := by
          by_contra hbanned
          have hcov := hapart m u (by simpa using hbanned) kind
          rw [hpre] at hcov
          cases hcov
        have hcleared := hchange.ban_cleared ⟨hfree, hb⟩ kind
        have hcov := h.vetted t htm kind m u (hrunning hcleared)
        rw [hpre] at hcov
        cases hcov
    | false =>
        have hgrant : Grants kind m u s.db s'.db := ⟨hpre, hcovers⟩
        have hfree : isBanned s.db s.mem m u = false := by
          by_cases hk : kind = .delegate
          · subst hk
            exact h.spared t htm m u (hrunning (hchange.delegate_unbanned hgrant))
          · exact (hgrants kind m u hgrant).1 hk
        have hcleared := hchange.ban_cleared ⟨hfree, hb⟩ kind
        exact (hgrants kind m u hgrant).2 t htm (hrunning hcleared)

/-- No protected user is banned, and what was read holds. -/
structure Guarded (s : System) : Prop where
  apart : NoProtectedBanned s.db s.mem
  reliable : Reliable s.tasks s.db s.mem

/-- The task that commits opens no window. -/
theorem Within.of_commit {p : Tag → Db → Log → Bool} {held : List (Lock Table.Key)}
    {t t' : Task} {c : Choice Ask.Ans} {db' : Db} {mem' : Time} {next fail : Server (Option Reply)}
    (hp : t.prog = .commit next fail)
    (hadv : ReadCommitted.advance shared held s.db s.mem t.prog t.loc c =
      some (db', mem', t'.prog, t'.loc)) (h : Within p t') : Within p t := by
  refine ⟨by rw [hp]; rfl, ?_⟩
  have hlog := h.2
  rw [hp] at hadv
  cases c with
  | proceed =>
      simp only [ReadCommitted.advance, Option.some.injEq, Prod.mk.injEq] at hadv
      rw [← hadv.2.2.2, Local.ended, opened, Bool.and_eq_true] at hlog
      exact hlog.2
  | fail =>
      simp only [ReadCommitted.advance, Option.some.injEq, Prod.mk.injEq] at hadv
      rw [← hadv.2.2.2] at hlog
      exact hlog
  | answer f => simp [ReadCommitted.advance] at hadv

theorem Guarded.step (h : Guarded s) (hclocks : ClocksPast s) (horderly : Orderly s)
    (hok : StaysApart s move) (hstep : Step env s move s') : Guarded s' := by
  have hle := Step.mem_le hstep
  have hsame : ∀ {tasks : List Task}, s'.db = s.db → s'.tasks = tasks →
      Reliable tasks s.db s.mem → Guarded s' := by
    intro tasks hdb htasks hrel
    exact ⟨by rw [hdb]; exact h.apart.later hle, by rw [hdb, htasks]; exact hrel.later hle⟩
  cases Sys.move_cases hstep with
  | started j hdb hmem htasks =>
      have hnew : ∀ t ∈ s.tasks ++ [({ job := j, prog := j.body env } : Task)],
          t ∈ s.tasks ∨
          ∀ p, ¬Within p t := by
        intro t ht
        rcases List.mem_append.1 ht with ht | ht
        · exact .inl ht
        · rw [List.mem_singleton.1 ht]
          exact .inr fun p hw => nomatch hw.2
      refine hsame hdb htasks ⟨fun t ht kind m u hw => ?_, fun t ht m u hw => ?_⟩
      · exact h.reliable.vetted t ((hnew t ht).resolve_right fun hno => hno _ hw) kind m u hw
      · exact h.reliable.spared t ((hnew t ht).resolve_right fun hno => hno _ hw) m u hw
  | dropped i t₁ ht₁ hdb hmem htasks =>
      exact hsame hdb htasks ⟨fun t ht => h.reliable.vetted t (List.mem_of_mem_eraseIdx ht),
        fun t ht => h.reliable.spared t (List.mem_of_mem_eraseIdx ht)⟩
  | ran i c t t' ht hjob htasks hadv =>
      have hrel := h.reliable.step hclocks ht hadv
      rcases (horderly.run ht s.admits_true hstep).2 with hdb | ⟨-, hchange, -⟩
      · exact hsame hdb htasks hrel
      rcases advance_commit hadv with hdb | ⟨next, fail, hp, hpost⟩
      · exact hsame hdb htasks hrel
      obtain ⟨hrel', hapart'⟩ := h.reliable.commit hrel h.apart hok ht hp hpost hchange
        fun p hw => hw.of_commit hp hadv
      exact ⟨hapart'.later hle, by rw [htasks]; exact hrel'.later hle⟩

/-- In every run whose commits stay apart from what others have read, no protected user is
banned. -/
theorem no_protected_banned (htasks : s₀.tasks = []) (hapart : NoProtectedBanned s₀.db s₀.mem)
    (hrun : ReachBy shared (Job.body env) StaysApart s₀ s) : NoProtectedBanned s.db s.mem := by
  have hinv : Guarded s := by
    induction hrun with
    | init => exact ⟨hapart, by simp [htasks], by simp [htasks]⟩
    | step hs hok hstep ih =>
        have hreach : Run env s₀ _ := hs.reach fun s _ _ => s.admits_true
        exact ih.step (hreach.clocksPast htasks) (hreach.orderly htasks) hok hstep
  exact hinv.apart

/-! ## A run that stays apart -/

/-- No task writes who is protected, and no `add_delegate` has looked for a ban. -/
def OnlyBans (s : System) : Move Ask.Ans Job → Prop
  | .run _ _ => ∀ t ∈ s.tasks,
      (∀ w ∈ t.loc.writes, w.row.table ≠ .superMods ∧ w.row.table ≠ .mapMeta ∧
        w.row.table ≠ .mapDelegates) ∧
      t.loc.log.all (fun | .read (.activeBan _ _) _ => false | _ => true) = true
  | _ => True

instance : ∀ (s : System) (move : Move Ask.Ans Job), Decidable (OnlyBans s move)
  | _, .start _ => .isTrue trivial
  | _, .drop _ => .isTrue trivial
  | s, .run _ _ => inferInstanceAs (Decidable (∀ t ∈ s.tasks,
      (∀ w ∈ t.loc.writes, w.row.table ≠ .superMods ∧ w.row.table ≠ .mapMeta ∧
        w.row.table ≠ .mapDelegates) ∧
      t.loc.log.all (fun | .read (.activeBan _ _) _ => false | _ => true) = true))

theorem covers_view {ws : List (Write Table.Key Table.Row)} {db : Db}
    (h : ∀ w ∈ ws, w.row.table ≠ .superMods ∧ w.row.table ≠ .mapMeta ∧
      w.row.table ≠ .mapDelegates)
    (kind : Protection) : kind.covers (Store.view ws db) m u = kind.covers db m u := by
  cases kind with
  | superMod =>
      rw [Protection.covers, Protection.covers, Store.view_get_of_notMem db]
      exact fun w hw he => (h w hw).1 (congrArg RowKey.table he)
  | author =>
      rw [Protection.covers, Protection.covers, Store.view_get_of_notMem db]
      exact fun w hw he => (h w hw).2.1 (congrArg RowKey.table he)
  | delegate =>
      rw [Protection.covers, Protection.covers, Store.view_get_of_notMem db]
      exact fun w hw he => (h w hw).2.2 (congrArg RowKey.table he)

theorem not_opened_unbanned
    (h : log.all (fun | .read (.activeBan _ _) _ => false | _ => true) = true) :
    opened (unbanned m u) log = false := by
  induction log with
  | nil => rfl
  | cons ev log ih =>
      rw [List.all_cons, Bool.and_eq_true] at h
      have hold := ih h.2
      cases ev with
      | read tag v =>
          cases tag <;> simp_all [opened, unbanned]
      | committed pre post => simp [opened, hold]
      | _ => exact hold

theorem OnlyBans.staysApart (h : OnlyBans s move) : StaysApart s move := by
  cases move with
  | start j => trivial
  | drop i => trivial
  | run i c =>
      intro t next fail ht hp
      refine ⟨fun kind m u hg => ?_, fun m u hb t' ht' hw => ?_⟩
      · have hcov := hg.2
        rw [covers_view (h t (List.mem_of_getElem? ht)).1, hg.1] at hcov
        cases hcov
      · have hopen := hw.2
        rw [not_opened_unbanned (h t' ht').2] at hopen
        cases hopen

/-- A user is banned who is not protected. -/
theorem no_protected_banned_two :
    ∃ s, ReachBy shared (Job.body Sample.env) StaysApart Sample.system s ∧
      isBanned s.db s.mem "m" 2 = true ∧ NoProtectedBanned s.db s.mem := by
  have hrun : ∃ s, ReachBy shared (Job.body Sample.env) OnlyBans Sample.system s ∧
      isBanned s.db s.mem "m" 2 = true :=
    ReachBy.scriptedBy [
      .start (.createBan "m" Sample.cookie Sample.ban), .go 0 40 (Sample.answers 1)]
      (by decide +kernel)
  obtain ⟨s, hs, hban⟩ := hrun
  have hs' := hs.mono fun _ _ h => OnlyBans.staysApart h
  refine ⟨s, hs', hban, no_protected_banned rfl (fun m u hb => ?_) hs'⟩
  rw [isBanned, Sample.no_bans] at hb
  cases hb

/-! ## A banned super-mod -/

/-- A user who is banned on a map is made a super-mod. -/
theorem banned_super_mod :
    Sample.system.tasks = [] ∧
      (∀ m u, isBanned Sample.system.db Sample.system.mem m u = false) ∧
        ∃ s, Run Sample.env Sample.system s ∧ isBanned s.db s.mem "m" 2 = true ∧
        Protection.superMod.covers s.db "m" 2 = true := by
  refine ⟨rfl, fun m u => by rw [isBanned, Sample.no_bans]; rfl, ?_⟩
  exact Reach.scripted [
    .start (.createBan "m" Sample.cookie Sample.ban), .go 0 40 (Sample.answers 1),
    .start (.addSuperMod Sample.cookie (some Sample.two) none), .go 1 40 (Sample.answers 2)]
    (by decide +kernel)

end Dd2Server.Moderation
