/-!
# The entries of the boards

What a client is sent of a board.  How the numbers are given, as rationals or by their bits, is a
parameter.
-/

namespace Dd2Server

/-- An entry of the global board. -/
structure LeaderboardEntry (Height Color : Type) where
  rank : BitVec 32
  wsid : String
  height : Height
  ts : BitVec 32
  name : String
  updateCount : Int
  color : Color
  deriving DecidableEq

/-- An entry of the board of a map, or of the players live on it. -/
structure LeaderboardEntry2 (Pos Color : Type) where
  rank : BitVec 32
  wsid : String
  pos : Pos
  ts : BitVec 32
  name : String
  updateCount : Int
  color : Color
  raceTime : Int
  deriving DecidableEq

/-- An entry of the board of a minigame. -/
structure MinigameLBEntry where
  rank : BitVec 32
  wsid : String
  name : String
  score : Int
  ts : BitVec 32
  deriving DecidableEq

end Dd2Server
