import Dd2Server.PlayerStats.Schema

/-!
# Requests and responses

Every request that a client may send once it is logged in, and the responses that the read loop puts
into the queue of its connection; those about hats are put there by the programs of `Server2`.

A number of JSON is finite: an `f64` is a rational, and an `f32`, which may overflow to an infinity,
is kept by its bits.  What the database holds as `DOUBLE PRECISION` may be anything.
-/

namespace Dd2Server.Dispatch

open PlayerStats (Stats)

abbrev F64 := Float

abbrev Triple := F64 × F64 × F64

/-- `x as f64`. -/
def f32ToF64 (x : F32) : F64 := (Float32.ofBits ⟨x.bits⟩).toFloat

/-- The map of a context. -/
structure Map where
  uid : String
  name : String
  /-- 64 hex digits, or raw text, or empty for none. -/
  hash : String
  deriving DecidableEq

inductive Request
  | authenticate (token pluginInfo gameInfo gamerInfo : String)
  | resumeSession (sessionToken pluginInfo gameInfo gamerInfo : String)
  | reportContext (sf mi : String) (map : Option Map) (i : Option Bool)
    (bi : BitVec 32 × BitVec 32) (e : Option Bool)
  | reportGCNodMsg (data : String)
  | ping
  | reportVehicleState (pos : F32 × F32 × F32) (rotq : F32 × F32 × F32 × F32)
    (vel : F32 × F32 × F32)
  | reportRespawn (raceTime : BitVec 64)
  | reportFinish (raceTime : BitVec 32)
  | reportFallStart (floor : BitVec 8) (pos : F32 × F32 × F32) (speed : F32)
    (startTime : BitVec 32)
  | reportFallEnd (floor : BitVec 8) (pos : F32 × F32 × F32) (endTime : BitVec 32)
  | reportStats (stats : Stats)
  | reportPBHeight (h : F32)
  | reportPlayerColor (wsid : String) (color : Boards.Color)
  | reportTwitch (twitchName : String)
  | downgradeStats (stats : Stats)
  -- arbitrary maps
  | reportMapCurrPos (uid : String) (pos : Boards.Pos) (raceTime : Option (BitVec 64))
  | reportCustomMapAuxSpec (id : BitVec 32) (nameId : String) (spec : Value)
  | deleteCustomMapAuxSpec (id : BitVec 32) (nameId : String)
  | listCustomMapAuxSpecs (id : BitVec 32)
  | reportMapStats (uid : String) (stats : Value)
  | reportMinigameAttempt (uid slug : String) (specId elapsedMs : Int) (status : String)
  | reportMinigameMap (uid : String) (specId : Int)
  | reportCollectibleUnlock (uid slug : String) (specId : Int)
  | reportCollectibleCollect (uid slug : String) (specId : Int) (x y z : F32) (source : String)
  | reportHatUnlock (uid slug : String) (specId : Int)
  | reportHatEquip (uid slug : String)
  -- get requests
  | getMyStats
  | getGlobalLB (start end' : BitVec 32)
  | getFriendsLB (friends : List String)
  | getGlobalOverview
  | getServerStats
  | getMyRank
  | getPlayersPb (wsid : String)
  | getDonations
  | getGfmDonations
  | getTwitch (wsid : Option String)
  -- profile and preferences
  | getMyProfile
  | setMyProfile (body : Value)
  | getMyPreferences
  | setMyPreferences (body : Value)
  | getUsersProfile (wsid : String)
  | getPlayersSpecInfo (uid wsid : String)
  -- get arbitrary maps
  | getMapOverview (uid : String)
  | getMapLB (uid : String) (start end' : BitVec 32)
  | getMapLive (uid : String)
  | getMapMyRank (uid : String)
  | getMapRank (uid wsid : String)
  | getMinigameLB (uid slug : String) (start end' : BitVec 32)
  | getMinigameMyRank (uid slug : String)
  | getMinigameList (uid : String)
  | getCollectibleList (uid : String)
  | getCollectibleMine (uid : String)
  | getHatsMine (uid : String)
  | getHatsOnMap (uid : String)
  | getSecretAssets
  | stressMe

/-! ## Responses -/

structure MinigameListGame where
  slug : String
  kind : String
  name : String
  key : String

structure CollectibleListItem where
  slug : String
  name : String
  pickup : String
  collectOnUnlock : Bool
  hasZone : Bool
  gatedBy : Option String
  unlockScore : Option Int
  key : String

structure CollectibleMineItem extends CollectibleListItem where
  unlockedAt : Option (BitVec 32)
  collectedAt : Option (BitVec 32)

structure Donor where
  name : String
  amount : F64

structure Donation where
  name : String
  amount : F64
  comment : String
  ts : Int

structure AssetRef where
  name : String
  filename : String
  url : String

inductive Response
  | ping
  | serverInfo (nbPlayersLive : BitVec 32)
  | nonFatalErrorMsg (level : Nat) (msg : String)
  | stats (stats : Stats) (rank : BitVec 32)
  | globalLB (entries : List (LeaderboardEntry Float32 Triple))
  | globalOverview (j : Value)
  | myRank (r : Option (LeaderboardEntry Float32 Triple))
  | playersPB (name : String) (height : F64) (rank : Int) (wsid : String) (ts : Int)
    (updateCount : BitVec 32)
  | donations (donors : List Donor) (donations : List Donation)
  | gfmDonations (total : F64)
  | twitchName (userId twitchName : String)
  | usersProfile (profile : Value)
  | yourPreferences (preferences : Value)
  | playersSpecInfo (wsid uid : String) (totalMapTime nowTs : Int)
  | mapOverview (uid : String) (nbPlayersOnLb nbPlayingNow : BitVec 32)
  | mapLB (uid : String) (entries : List (LeaderboardEntry2 Triple Triple))
  | mapLivePlayers (uid : String) (players : List (LeaderboardEntry2 Triple Triple))
  | mapRank (uid : String) (r : Option (LeaderboardEntry2 Triple Triple)) (banned : Bool)
    (banPublicMessage : Option String)
      (unofficial : Bool)
  | minigameLB (uid slug : String) (entries : List MinigameLBEntry)
  | minigameRank (uid slug : String) (r : Option MinigameLBEntry)
  | minigameList (uid : String) (games : List MinigameListGame)
  | collectibleList (uid : String) (items : List CollectibleListItem)
  | collectibleMine (uid : String) (items : List CollectibleMineItem)
  | taskResponse (id : BitVec 32) (success : Bool) (error : Option String)
  | taskResponseJson (id : BitVec 32) (data : Value)
  | secretAssets (filenamesAndUrls : List AssetRef)

end Dd2Server.Dispatch
