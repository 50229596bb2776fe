import Yank.Convergence
import Yank.Secrets
import Yank.Removal
import Yank.Ceiling
import Yank.Transfer
import Yank.Served
import Yank.Leftovers
import Yank.Lifetimes
import Yank.Echoes
import Yank.TakenOver
import Yank.CaptureOrder
import Yank.Agreement
import Yank.Connections
import Yank.Integrity
import Yank.LaidOut
import Yank.Exactness
import Yank.Containment
import Yank.CatchingUp
import Yank.Announced
import Yank.Messages
import Yank.FileOffers
import Yank.MeshFile
import Yank.MeshStore
import Yank.Bounded
import Yank.UriList
import Yank.Selecting
import Yank.Following
import Yank.PendingReads
import Yank.ReadSelection
import Yank.Retries
import Yank.Getting
import Yank.Headroom
import Yank.Preview
import Yank.Pulls
import Yank.Encodings
import Yank.UnitFile
import Yank.Directories
import Yank.Sweeps
import Yank.Spreading
import Yank.Replication
import Yank.Expiring
import Yank.SingleDaemon
import Yank.OwnSources
import Yank.Locating
import Yank.Redialing
import Yank.Resolving
import Yank.Showing
import Yank.Pasting
import Yank.BitGroups
import Yank.TicketText
import Yank.Polling
import Yank.Sessions
import Yank.Control
