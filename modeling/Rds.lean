import Rds.Agent.GrantIssue
import Rds.Agent.GrantScope
import Rds.Agent.PermitsSyncPath
import Rds.Audio.JitterBuffer
import Rds.Client.Snapshots
import Rds.Desktop.BitrateBounds
import Rds.Desktop.ClipboardTransfer
import Rds.Desktop.DeliveryPressure
import Rds.Desktop.FrameReceiver
import Rds.Desktop.FrameWriter
import Rds.Desktop.PortalInput
import Rds.Discovery.Admission
import Rds.Discovery.LeaseLaws
import Rds.Discovery.StoreTraces
import Rds.Net.FrameStream
import Rds.Net.PathChoice
import Rds.Net.PathPolicy
import Rds.Net.RelayServer
import Rds.Net.UniRouting
import Rds.Sync.ChunkExchange
import Rds.Sync.ChunkSafety
import Rds.Sync.Conflicts
import Rds.Sync.ControlQueue
import Rds.Sync.DiffMatching
import Rds.Sync.JournalCollection
import Rds.Sync.ManifestBuild
import Rds.Sync.MirrorSafety
import Rds.Sync.PathClosure
import Rds.Sync.Planning
import Rds.Sync.Refusals
import Rds.Sync.Session
import Rds.Sync.SnapshotWire
