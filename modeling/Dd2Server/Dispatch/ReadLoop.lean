import Dd2Server.Dispatch.Players
import Dd2Server.Runs

/-!
# The dispatch of the read loop

Every request that the router can decode is handled by one arm of the read loop.  The task that runs
the read loop panics with the arm, and five of the arms can be made to panic by a client: the branch
of `GetFriendsLB` is not implemented; `ReportContext` slices the texts of the client; `SetMyProfile`
indexes the value of the client; and in a debug build a range of the global board or the count of
updates of the statistics may overflow.
-/

namespace Dd2Server.Dispatch

open Machine PlayerStats

/-- The arm of a request, on connection `c`. -/
def dispatch (env : Env) (c : Nat) (s : LoginSession) (conn : Connection) : Request → Arm
  -- ignored
  | .authenticate .. => return (.ok (), conn)
  | .resumeSession .. => return (.ok (), conn)
  -- report requests
  | .reportContext sf mi map i bi e => reportContext env.build env.pg c s conn sf mi map i bi e
  | .reportGCNodMsg _ => return (.ok (), conn)
  | .ping => ping env conn
  | .reportVehicleState pos rotq vel => reportVehicleState s conn pos rotq vel
  | .reportRespawn raceTime => plain conn (reportRespawn s raceTime)
  | .reportFinish raceTime => plain conn (reportFinish s raceTime)
  | .reportFallStart .. => return (.ok (), conn)
  | .reportFallEnd .. => return (.ok (), conn)
  | .reportStats stats => onReportStats env s conn stats
  | .reportPBHeight h => onReportPbHeight s conn h
  | .reportPlayerColor wsid color => plain conn (onReportColor wsid color)
  | .reportTwitch twitchName => plain conn (query (.setTwitch s.userId twitchName))
  | .downgradeStats stats => plain conn (downgradeStats env s stats)
  -- arbitrary maps
  | .reportMapCurrPos uid pos raceTime => plain conn (reportMapCurrPos env s uid pos raceTime)
  | .reportCustomMapAuxSpec id nameId spec =>
      plain conn (reportCustomMapAuxSpec env s id nameId spec)
  | .deleteCustomMapAuxSpec id nameId => plain conn (deleteCustomMapAuxSpec s id nameId)
  | .listCustomMapAuxSpecs id => plain conn (listCustomMapAuxSpec s id)
  | .reportMapStats uid stats => plain conn (query (.setMapStats s.userId uid stats))
  | .reportMinigameAttempt uid slug specId elapsedMs status =>
      plain conn (reportMinigameAttempt env s uid slug specId elapsedMs status)
  | .reportMinigameMap uid specId => reportMinigameMap env s c conn uid specId
  | .reportCollectibleUnlock uid slug specId =>
      plain conn (reportCollectibleUnlock env s uid slug specId)
  | .reportCollectibleCollect uid slug specId x y z source =>
      plain conn (reportCollectibleCollect env s uid slug specId x y z source)
  | .reportHatUnlock uid slug specId => plain conn (reportHatUnlock env s c uid slug specId)
  | .reportHatEquip uid slug => plain conn (reportHatEquip env s c conn uid slug)
  -- get requests
  | .getMyStats => plain conn (getStats s)
  | .getGlobalLB start end' => plain conn (handleGetGlobalLb env start end')
  -- `todo!()`
  | .getFriendsLB _ => .panics
  | .getGlobalOverview => plain conn getGlobalOverview
  | .getServerStats => plain conn getServerStats
  | .getMyRank => plain conn (getMyRank s)
  | .getPlayersPb wsid => plain conn (getPlayersPb wsid)
  | .getDonations => plain conn (getDonations env)
  | .getGfmDonations => plain conn getGfmDonations
  | .getTwitch wsid => plain conn (getTwitch ((wsid.bind uuidFromStr).getD s.userId))
  -- profile and preferences
  | .getMyProfile => plain conn (getUsersProfile s.userId.text)
  | .setMyProfile body => plain conn (setMyProfile s body)
  | .getMyPreferences => plain conn (getUsersPreferences s)
  | .setMyPreferences body => plain conn (query (.setPreferences s.userId body))
  | .getUsersProfile wsid => plain conn (getUsersProfile wsid)
  | .getPlayersSpecInfo uid wsid => plain conn (getPlayersSpecInfo uid wsid)
  -- get arbitrary maps
  | .getMapOverview uid => plain conn (getMapOverview uid)
  | .getMapLB uid start end' =>
      plain conn (sendMapLb env uid (start.setWidth 64) (end'.setWidth 64))
  | .getMapLive uid => plain conn (sendMapLive uid)
  | .getMapMyRank uid => plain conn (getMapRank uid s.userId)
  | .getMapRank uid wsid =>
      match uuidFromStr wsid with
      | some userId => plain conn (getMapRank uid userId)
      | none => return (.ok (), conn)
  | .getMinigameLB uid slug start end' =>
      plain conn (sendMinigameLb env uid slug (start.setWidth 64) (end'.setWidth 64))
  | .getMinigameMyRank uid slug => plain conn (getMinigameMyRank s uid slug)
  | .getMinigameList uid => plain conn (sendMinigameList uid)
  | .getCollectibleList uid => plain conn (sendCollectibleList uid)
  | .getCollectibleMine uid => plain conn (sendCollectibleMine s uid)
  | .getHatsMine uid => getHatsMine env s c conn uid
  | .getHatsOnMap uid => getHatsOnMap env s c conn uid
  | .getSecretAssets => plain conn (getSecretAssets s)
  -- debug
  | .stressMe => plain conn stressMe

/-- The requests whose arm cannot panic. -/
def Handled (env : Env) (conn : Connection) : Request → Prop
  | .reportContext sf mi map _ bi _ => ReadableContext env.build sf mi map bi
  | .reportStats _ => conn.IsOfficial → env.build = .release
  | .getGlobalLB start end' => env.build = .debug → end'.toInt - start.toInt < 2 ^ 31
  | .getFriendsLB _ => False
  | .setMyProfile body => body = .null ∨ ∃ fields, body = .object fields
  | _ => True

section

open Coroutine

variable {env : Env} {c : Nat} {s : LoginSession} {conn : Connection}

/-- Whatever the world answers, the arm of a request ends with `Ok` or `Err`, if and only if the
request is one of the handled ones.  That the total of a donor is a number is what the decimals of
the database promise. -/
theorem finishes_dispatch (hto : ∀ d, (env.toF64 d).isSome) (r : Request) :
    (dispatch env c s conn r).Finishes ↔ Handled env conn r := by
  rw [finishes_iff]
  cases r with
  | authenticate => exact iff_true_intro trivial
  | resumeSession => exact iff_true_intro trivial
  | reportContext sf mi map i bi e => exact finishes_iff.symm.trans finishes_reportContext
  | reportGCNodMsg => exact iff_true_intro trivial
  | ping => exact iff_true_intro ensures_ping
  | reportVehicleState => exact iff_true_intro ensures_reportVehicleState
  | reportRespawn => exact iff_true_intro (ensures_plain.2 calm_query)
  | reportFinish => exact iff_true_intro (ensures_plain.2 calm_query)
  | reportFallStart => exact iff_true_intro trivial
  | reportFallEnd => exact iff_true_intro trivial
  | reportStats stats => exact ensures_onReportStats
  | reportPBHeight => exact iff_true_intro ensures_onReportPbHeight
  | reportPlayerColor => exact iff_true_intro (ensures_plain.2 calm_onReportColor)
  | reportTwitch => exact iff_true_intro (ensures_plain.2 calm_query)
  | downgradeStats => exact iff_true_intro (ensures_plain.2 calm_downgradeStats)
  | reportMapCurrPos => exact iff_true_intro (ensures_plain.2 calm_reportMapCurrPos)
  | reportCustomMapAuxSpec => exact iff_true_intro (ensures_plain.2 calm_reportCustomMapAuxSpec)
  | deleteCustomMapAuxSpec => exact iff_true_intro (ensures_plain.2 calm_deleteCustomMapAuxSpec)
  | listCustomMapAuxSpecs => exact iff_true_intro (ensures_plain.2 calm_listCustomMapAuxSpec)
  | reportMapStats => exact iff_true_intro (ensures_plain.2 calm_query)
  | reportMinigameAttempt => exact iff_true_intro (ensures_plain.2 calm_reportMinigameAttempt)
  | reportMinigameMap => exact iff_true_intro ensures_reportMinigameMap
  | reportCollectibleUnlock => exact iff_true_intro (ensures_plain.2 calm_reportCollectibleUnlock)
  | reportCollectibleCollect => exact iff_true_intro (ensures_plain.2 calm_reportCollectibleCollect)
  | reportHatUnlock => exact iff_true_intro (ensures_plain.2 (calm_adapt.2 calm_runWayfinder))
  | reportHatEquip => exact iff_true_intro (ensures_plain.2 (calm_adapt.2 calm_runWayfinder))
  | getMyStats => exact iff_true_intro (ensures_plain.2 calm_getStats)
  | getGlobalLB start end' => exact ensures_plain.trans calm_handleGetGlobalLb
  | getFriendsLB => exact Iff.rfl
  | getGlobalOverview => exact iff_true_intro (ensures_plain.2 calm_getGlobalOverview)
  | getServerStats => exact iff_true_intro (ensures_plain.2 calm_getServerStats)
  | getMyRank => exact iff_true_intro (ensures_plain.2 calm_getMyRank)
  | getPlayersPb => exact iff_true_intro (ensures_plain.2 calm_getPlayersPb)
  | getDonations => exact iff_true_intro (ensures_plain.2 (calm_getDonations hto))
  | getGfmDonations => exact iff_true_intro (ensures_plain.2 calm_getGfmDonations)
  | getTwitch => exact iff_true_intro (ensures_plain.2 calm_getTwitch)
  | getMyProfile => exact iff_true_intro (ensures_plain.2 calm_getUsersProfile)
  | setMyProfile body => exact ensures_plain.trans calm_setMyProfile
  | getMyPreferences => exact iff_true_intro (ensures_plain.2 calm_getUsersPreferences)
  | setMyPreferences => exact iff_true_intro (ensures_plain.2 calm_query)
  | getUsersProfile => exact iff_true_intro (ensures_plain.2 calm_getUsersProfile)
  | getPlayersSpecInfo => exact iff_true_intro (ensures_plain.2 calm_getPlayersSpecInfo)
  | getMapOverview => exact iff_true_intro (ensures_plain.2 calm_getMapOverview)
  | getMapLB uid start end' =>
      exact iff_true_intro (ensures_plain.2 (calm_sendMapLb (fits_setWidth start end')))
  | getMapLive => exact iff_true_intro (ensures_plain.2 calm_sendMapLive)
  | getMapMyRank => exact iff_true_intro (ensures_plain.2 calm_getMapRank)
  | getMapRank uid wsid =>
      refine iff_true_intro ?_
      rw [dispatch]
      split
      · exact ensures_plain.2 calm_getMapRank
      · exact trivial
  | getMinigameLB uid slug start end' =>
      exact iff_true_intro (ensures_plain.2 (calm_sendMinigameLb (fits_setWidth start end')))
  | getMinigameMyRank => exact iff_true_intro (ensures_plain.2 calm_getMinigameMyRank)
  | getMinigameList => exact iff_true_intro (ensures_plain.2 calm_sendMinigameList)
  | getCollectibleList => exact iff_true_intro (ensures_plain.2 calm_sendCollectibleList)
  | getCollectibleMine => exact iff_true_intro (ensures_plain.2 calm_sendCollectibleMine)
  | getHatsMine => exact iff_true_intro ensures_getHatsMine
  | getHatsOnMap => exact iff_true_intro ensures_getHatsOnMap
  | getSecretAssets => exact iff_true_intro (ensures_plain.2 calm_getSecretAssets)
  | stressMe => exact iff_true_intro (ensures_plain.2 calm_stressMe)

end

/-! ## Some requests -/

/-- The decimal as a float. -/
def BigDecimal.toFloat (d : BigDecimal) : F64 :=
  let x := Float.ofScientific d.digits.natAbs (0 ≤ d.scale) d.scale.natAbs
  if d.digits < 0 then -x else x

namespace Sample

def env (build : Build) : Env where
  build
  pg := Dd2Server.Sample.pg
  hash _ := 0
  debug
    | .rowNotFound => "RowNotFound"
    | .database => "Database"
  toF64 d := some d.toFloat

def session : LoginSession where
  userId := 1
  displayName := "Author"
  sessionToken := 2

end Sample

open Coroutine

/-- Donors are told, and a profile that is an array is not taken. -/
theorem finishes_dispatch_donations :
    (dispatch (Sample.env .debug) 0 Sample.session {} .getDonations).Finishes ∧
      ¬(dispatch (Sample.env .debug) 0 Sample.session {}
        (.setMyProfile (.array []))).Finishes := by
  have hto : ∀ d, ((Sample.env .debug).toF64 d).isSome := fun _ => rfl
  refine ⟨(finishes_dispatch hto _).2 trivial, fun h => ?_⟩
  rcases (finishes_dispatch hto _).1 h with hnull | ⟨fields, hobject⟩
  · cases hnull
  · cases hobject

/-- A branch that is not implemented, a slice past the end and one inside of a character, an index
into an array, and an overflow. -/
theorem dispatch_panics :
    ¬(dispatch (Sample.env .release) 0 Sample.session {} (.getFriendsLB [])).Finishes ∧
      ¬(dispatch (Sample.env .release) 0 Sample.session {}
        (.reportContext "0" "0x0" none none (0, 0) none)).Finishes ∧
      ¬(dispatch (Sample.env .release) 0 Sample.session {}
        (.reportContext "0x0" "0x0" (some ⟨"", "", "0123456789012345678901234567890é"⟩) none
          (0, 0) none)).Finishes ∧
      ¬(dispatch (Sample.env .release) 0 Sample.session {}
        (.setMyProfile (.array []))).Finishes ∧
      ¬(dispatch (Sample.env .debug) 0 Sample.session {}
        (.getGlobalLB (BitVec.intMin 32) 0)).Finishes := by
  refine ⟨fun h => ?_, fun h => ?_, fun h => ?_, fun h => ?_, fun h => ?_⟩
  · obtain ⟨_, ha⟩ := h none .panics
    cases ha
  · exact absurd (finishes_reportContext.1 h).slicedSf (by decide)
  · have hhash := (finishes_reportContext.1 h).hash (by decide) (by decide) _ rfl
    exact absurd hhash (by decide)
  · rcases calm_setMyProfile.1 (ensures_plain.1 (finishes_iff.1 h)) with hnull |
      ⟨fields, hobject⟩
    · cases hnull
    · cases hobject
  · have hrange := calm_handleGetGlobalLb.1 (ensures_plain.1 (finishes_iff.1 h)) rfl
    exact absurd hrange (by decide)

end Dd2Server.Dispatch
