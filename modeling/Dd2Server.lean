import Dd2Server.AuthoritativeBind
import Dd2Server.CommentBind
import Dd2Server.HatTransactions
import Dd2Server.Snapshot
import Dd2Server.Equipment
import Dd2Server.Gates
import Dd2Server.DefaultSlugs
import Dd2Server.CatalogRows
import Dd2Server.CatalogCoherence
import Dd2Server.AuxSpecRoute
import Dd2Server.LegacyPromotion
import Dd2Server.RemovalEvents
import Dd2Server.UnlockSoundness
import Dd2Server.BindingAuthority
import Dd2Server.EquipLimiter
import Dd2Server.Boards.MapLeaderboard
import Dd2Server.Router
import Dd2Server.Boards.BestHeight
import Dd2Server.Boards.PbHeight
import Dd2Server.Boards.Listing
import Dd2Server.Nadeo.Freshness
import Dd2Server.Server2.PendingUnlocks
import Dd2Server.Server2.PendingRuns
import Dd2Server.Server2.LastHats
import Dd2Server.Server2.WithheldAnswers
import Dd2Server.Server2.Permits
import Dd2Server.Server2.OperationLocks
import Dd2Server.Server2.Pictures
import Dd2Server.Server2.MapLocks
import Dd2Server.Server2.Broadcasts
import Dd2Server.Server2.InlineBinds
import Dd2Server.Server2.Ghosts
import Dd2Server.Moderation.Protected
import Dd2Server.Moderation.Authority
import Dd2Server.Player.ContextFlags
import Dd2Server.Server2.Versions
import Dd2Server.Server2.Debounce
import Dd2Server.Server2.LiveBoards
import Dd2Server.Nadeo.PublishedComment
import Dd2Server.Nadeo.Tokens
import Dd2Server.RowLocks.Deadlock
import Dd2Server.Boards.Ranks
import Dd2Server.Boards.RangeRequests
import Dd2Server.Boards.ListedPages
import Dd2Server.LiveHeights.Players
import Dd2Server.PlayerStats.Storage
import Dd2Server.Server2.Contexts
import Dd2Server.Logins.WebSessions
import Dd2Server.Handshake.Provenance
import Dd2Server.Reports.Progress
import Dd2Server.Dispatch.ReadLoop
import Dd2Server.Logins.AuthorizeUrl
