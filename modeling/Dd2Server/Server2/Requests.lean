import Dd2Server.Comment
import Dd2Server.Queries.Hats

/-!
# Request tasks

The handlers that bind maps and move hats, with the operation lock of the map and the messages they
send, and the jobs a server process starts.
-/

namespace Dd2Server

open ReadCommitted

inductive ApiError
  | db
  | str (e : BindSpecError)

def ApiError.ofDb : DbError → ApiError
  | .database => .db

/-- The manager is told only when somebody lost a hat. -/
def broadcastRemoved {ε : Type} (mapUid : String) (removed : List HatOnMapPlayer) :
    Query ε Unit :=
  if removed.isEmpty then return () else actQ (Act.broadcastToMap mapUid removed)

/-- Everything between takes place under the operation lock of the map. -/
def underMapLock {ε α : Type} (mapUid : String) (x : Query ε α) : Query ε α := do
  actQ (Act.lockMap mapUid)
  let r ← attempt x
  actQ (Act.unlockMap mapUid)
  ExceptT.mk (.ret r)

/-! ## Request 81 -/

def reportMinigameMapWithVerifier (pg : Pg) (userId : Uuid) (mapUid : String) (specId : Int) :
    Query ApiError Unit :=
  if Text.byteLen mapUid ≠ 27 ∨ specId ≤ 0 then return ()
  else do
    let prepared ← ExceptT.adapt .str (ListedMaps.prepareAuthoritativeBind userId mapUid specId)
    underMapLock mapUid do
      let binding ← ExceptT.adapt .str
        (ListedMaps.commitAuthoritativeBind pg prepared userId mapUid specId)
      broadcastRemoved mapUid binding.removedHatWearers

/-- The bind runs inline unless it has to ask Nadeo; then it is left to a task of its own. -/
def reportMinigameMapDeferring (pg : Pg) (userId : Uuid) (mapUid : String) (specId : Int) :
    Query ApiError Unit :=
  if Text.byteLen mapUid ≠ 27 ∨ specId ≤ 0 then return ()
  else do
    let asks ← ExceptT.adapt .ofDb
      (ListedMaps.bindRequiresAuthorVerification userId mapUid specId)
    if asks then return ()
    else reportMinigameMapWithVerifier pg userId mapUid specId

/-! ## The published comment -/

inductive CommentBindOutcome
  | bound (specId : Int) (materialized replacedPrevious : Bool)
  | notOnNadeo
  | noComment
  | noDppUrl
  | specNotFound
  /-- With the text Nadeo's client gives, or the error of the bind. -/
  | offNadeo (e : String ⊕ BindSpecError)

def tryCommentBind {ε : Type} (pg : Pg) (mapUid : String) :
    Query ε (CommentBindOutcome × List HatOnMapPlayer) := do
  let answer ← askQ (Ask.fetchPublishedComment mapUid)
  match answer with
  | .ok .notOnNadeo => return (.notOnNadeo, [])
  | .ok (.comment none) => return (.noComment, [])
  | .error e => return (.offNadeo (.inl e), [])
  | .ok (.comment (some comment)) =>
      match parseDppCommentUrl comment with
      | none => return (.noDppUrl, [])
      | some (wsid, nameId) =>
          let r ← attempt (ListedMaps.bindFromResolvedComment pg mapUid wsid nameId)
          match r with
          | .ok b => return (.bound b.specId b.materialized b.replacedPrevious, b.removedHatWearers)
          | .error .specNotFound => return (.specNotFound, [])
          | .error e => return (.offNadeo (.inr e), [])

/-- The task a map adoption spawns. -/
def observeMapForCommentBind {ε : Type} (pg : Pg) (mapUid : String) :
    Query ε CommentBindOutcome :=
  underMapLock mapUid do
    let (outcome, removed) ← tryCommentBind pg mapUid
    match outcome with
    | .bound .. =>
        broadcastRemoved mapUid removed
        return outcome
    | _ => return outcome

/-- `recheck-bind` over HTTP, for a logged in user past the cooldown: the second half of the pair is
not used. -/
def handleRecheckBind {ε : Type} (pg : Pg) (mapUid : String) :
    Query ε (Option CommentBindOutcome) :=
  if Text.byteLen mapUid ≠ 27 then return none
  else do
    let (outcome, _) ← tryCommentBind pg mapUid
    return some outcome

/-! ## Request 85 -/

/-- The equip of a player on the map, past the rate limit. -/
def reportHatEquip (pg : Pg) (userId : Uuid) (mapUid slug : String) : Query ApiError Unit :=
  if Text.byteLen mapUid ≠ 27 then return ()
  else underMapLock mapUid do
    let entry ← ExceptT.adapt .ofDb (Hats.reportEquipWithBeforePayload pg userId mapUid slug)
    match entry with
    | none => return ()
    | some entry => actQ (Act.broadcastToMap mapUid [entry])

/-! ## Jobs -/

/-- What a server process starts a task for. -/
inductive Job
  | login (accountId : Uuid) (displayName : String)
  | upload (userId : Uuid) (nameId : String) (spec : Value)
  | deleteSpec (userId : Uuid) (nameId : String)
  | reportMap (userId : Uuid) (mapUid : String) (specId : Int)
  | deferredBind (userId : Uuid) (mapUid : String) (specId : Int)
  | commentBind (mapUid : String)
  | recheckBind (mapUid : String)
  | hatUnlock (userId : Uuid) (mapUid slug : String) (specId : Int)
  | hatEquip (userId : Uuid) (mapUid slug : String)
  /-- `bind_authoritative_spec`, which takes no operation lock. -/
  | authoritativeBind (userId : Uuid) (mapUid : String) (specId : Int)
  /-- `report_equip`, which takes no operation lock. -/
  | equip (userId : Uuid) (mapUid slug : String)

/-- What a task ends with. -/
inductive Reply
  | login (r : Except DbError User)
  | spec (r : Except String Unit)
  | bind (r : Except ApiError Unit)
  | comment (r : Except DbError CommentBindOutcome)
  | recheck (r : Except DbError (Option CommentBindOutcome))
  | unlock (r : Except DbError Bool)
  | equip (r : Except ApiError Unit)
  | bound (r : Except BindSpecError ListedMaps.AuthoritativeBindResult)
  | worn (r : Except DbError (Option HatOnMapPlayer))

/-- A query as a task. -/
def Query.task {ε α : Type} (reply : Except ε α → Reply) (x : Query ε α) : Server Reply :=
  x.run.bind fun r => .ret (reply r)

def Job.body (pg : Pg) : Job → Server Reply
  | .login accountId displayName => Query.task .login (registerOrLogin accountId displayName)
  | .upload userId nameId spec => Query.task .spec (upsertCustomMapAuxSpec pg userId nameId spec)
  | .deleteSpec userId nameId => Query.task .spec (deleteCustomMapAuxSpecInner userId nameId)
  | .reportMap userId mapUid specId =>
      Query.task .bind (reportMinigameMapDeferring pg userId mapUid specId)
  | .deferredBind userId mapUid specId =>
      Query.task .bind (reportMinigameMapWithVerifier pg userId mapUid specId)
  | .commentBind mapUid => Query.task .comment (observeMapForCommentBind pg mapUid)
  | .recheckBind mapUid => Query.task .recheck (handleRecheckBind pg mapUid)
  | .hatUnlock userId mapUid slug specId =>
      Query.task .unlock (Hats.reportUnlock pg userId mapUid slug specId)
  | .hatEquip userId mapUid slug => Query.task .equip (reportHatEquip pg userId mapUid slug)
  | .authoritativeBind userId mapUid specId =>
      Query.task .bound (ListedMaps.bindAuthoritativeSpec pg userId mapUid specId)
  | .equip userId mapUid slug =>
      Query.task .worn (Hats.reportEquipWithBeforePayload pg userId mapUid slug)

end Dd2Server
