import Dd2Server.Driver
import Dd2Server.Schema

/-!
# Accounts

`register_or_login` reads the account and then writes it, and the history after that, each statement
on its own.  Several databases here keep accounts; what one has to offer for it is an `Accounts`.
-/

namespace Dd2Server

open ReadCommitted

structure User where
  webServicesUserId : Uuid
  displayName : String
  deriving DecidableEq

def UserRow.user (accountId : Uuid) (r : UserRow) : User := ⟨accountId, r.displayName⟩

/-- The accounts of a database: how its statements run on their own, and how they write a row of
`users` or of `display_names`. -/
structure Accounts {T Ask Act : Type} (K R : T → Type) (Tag : Type) (Ans : Ask → Type)
    (Out : Act → Type) where
  autocommit : {β : Type} → (Time → Stmt K R Tag β) →
    ExceptT DbError (Prog K R Tag Ans Out) β
  /-- The name of the statements that write. -/
  tag : Tag
  findUser : Uuid → String → ExceptT DbError (Prog K R Tag Ans Out) (Option User)
  userRow : Uuid → Store K R → Option UserRow
  updateUser : Uuid → UserRow → Store K R → Option (Effect K R)
  insertUser : Uuid → UserRow → Store K R → Option (Effect K R)
  insertName : Uuid × Time → String → Store K R → Option (Effect K R)

namespace Accounts

variable {T Ask Act : Type} {K R : T → Type} {Tag : Type} {Ans : Ask → Type}
  {Out : Act → Type} (A : Accounts K R Tag Ans Out)

/-- `UPDATE users SET display_name = $1, last_login_ts = NOW()`. -/
def updateUserStmt (accountId : Uuid) (displayName : String) (now : Time) : Stmt K R Tag Unit where
  tag := A.tag
  run v :=
    match A.userRow accountId v with
    | none => some ({}, ())
    | some _ => (A.updateUser accountId { displayName, lastLoginTs := now } v).map fun e => (e, ())

def insertUserStmt (accountId : Uuid) (displayName : String) (now : Time) : Stmt K R Tag User where
  tag := A.tag
  run v :=
    (A.insertUser accountId { displayName, lastLoginTs := now } v).map
      fun e => (e, { webServicesUserId := accountId, displayName })

def insertDisplayNameStmt (displayName : String) (userId : Uuid) (now : Time) :
    Stmt K R Tag Unit where
  tag := A.tag
  run v := (A.insertName (userId, now) displayName v).map fun e => (e, ())

/-- The account as it is after the login, and whether its name is new. -/
def storeUser (accountId : Uuid) (displayName : String) :
    Option User → ExceptT DbError (Prog K R Tag Ans Out) (User × Bool)
  | some user => do
      A.autocommit (A.updateUserStmt accountId displayName)
      return ({ user with displayName }, user.displayName ≠ displayName)
  | none => do
      let user ← A.autocommit (A.insertUserStmt accountId displayName)
      return (user, true)

def registerOrLogin (accountId : Uuid) (displayName : String) :
    ExceptT DbError (Prog K R Tag Ans Out) User := do
  -- a failed read counts as an unknown account
  let user ← attempt (A.findUser accountId displayName)
  let (user, insertName) ← A.storeUser accountId displayName user.toOption.join
  if insertName then
    A.autocommit (A.insertDisplayNameStmt displayName user.webServicesUserId)
    return user
  else return user

variable {A} {accountId : Uuid} {displayName : String} {now : Time} {v : Store K R} {e : Effect K R}

theorem updateUserStmt_run {b : Unit}
    (h : (A.updateUserStmt accountId displayName now).run v = some (e, b)) :
    e = {} ∨ A.updateUser accountId ⟨displayName, now⟩ v = some e := by
  simp only [updateUserStmt] at h
  split at h
  · cases h
    exact .inl rfl
  · obtain ⟨e', he, hb⟩ := Option.map_eq_some_iff.1 h
    cases hb
    exact .inr he

theorem insertUserStmt_run {user : User}
    (h : (A.insertUserStmt accountId displayName now).run v = some (e, user)) :
    A.insertUser accountId ⟨displayName, now⟩ v = some e ∧
    user = ⟨accountId, displayName⟩ := by
  obtain ⟨e', he, hb⟩ := Option.map_eq_some_iff.1 h
  cases hb
  exact ⟨he, rfl⟩

theorem insertDisplayNameStmt_run {b : Unit}
    (h : (A.insertDisplayNameStmt displayName accountId now).run v = some (e, b)) :
    A.insertName (accountId, now) displayName v = some e := by
  obtain ⟨e', he, hb⟩ := Option.map_eq_some_iff.1 h
  cases hb
  exact he

end Accounts

end Dd2Server
