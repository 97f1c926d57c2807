import WslFreeBSD.Bridge.ControlWrites
import WslFreeBSD.Bridge.Oversized
import WslFreeBSD.Bridge.Resize
import WslFreeBSD.Bridge.Resources
import WslFreeBSD.Bridge.Retired
import WslFreeBSD.Bridge.Terminal
import WslFreeBSD.Config.CommonFile
import WslFreeBSD.Config.Continuation
import WslFreeBSD.Config.Initialize
import WslFreeBSD.Config.QuotedValues
import WslFreeBSD.Dns.Compatibility
import WslFreeBSD.Dns.Expiry
import WslFreeBSD.Dns.Responses
import WslFreeBSD.Gns.Anchors
import WslFreeBSD.Gns.Commands
import WslFreeBSD.Gns.Endpoint
import WslFreeBSD.Gns.Resolvconf
import WslFreeBSD.Gns.RouteChanges
import WslFreeBSD.Gns.SocketRelay
import WslFreeBSD.Gns.Subobject
import WslFreeBSD.Hvinit.Children
import WslFreeBSD.Hvinit.CleanHostname
import WslFreeBSD.Hvinit.ConfigFiles
import WslFreeBSD.Hvinit.DrvfsOptions
import WslFreeBSD.Hvinit.Handshake
import WslFreeBSD.Hvinit.HostName
import WslFreeBSD.Hvinit.Plan9Start
import WslFreeBSD.Hvinit.Replies
import WslFreeBSD.Hvinit.Timezone
import WslFreeBSD.Hvinit.Unmounts
import WslFreeBSD.Interop.CreateNtProcess
import WslFreeBSD.Interop.IoRelay
import WslFreeBSD.Interop.RelayPair
import WslFreeBSD.Interop.Server
import WslFreeBSD.Memory.StringReads
import WslFreeBSD.Paths.Drives
import WslFreeBSD.Paths.RoundTrips
import WslFreeBSD.Paths.Volumes
import WslFreeBSD.Plan9.Confinement
import WslFreeBSD.Plan9.Deletes
import WslFreeBSD.Plan9.Directories
import WslFreeBSD.Plan9.ErrorCodes
import WslFreeBSD.Plan9.NextMessage
import WslFreeBSD.Plan9.Responses
import WslFreeBSD.Plan9.Scheduler
import WslFreeBSD.Plan9.Sessions
import WslFreeBSD.Plan9.StrayOpens
import WslFreeBSD.Ports.PcbList
import WslFreeBSD.Ports.Tracker
import WslFreeBSD.Ports.Wire
import WslFreeBSD.Protocol.SocketChannel
import WslFreeBSD.Reference.BindNotifications
import WslFreeBSD.Reference.CommonFile
import WslFreeBSD.Reference.ConfigRemoval
import WslFreeBSD.Reference.CreateProcess
import WslFreeBSD.Reference.GnsPortTracker
import WslFreeBSD.Reference.HostNameRules
import WslFreeBSD.Reference.LocalhostRelay
import WslFreeBSD.Reference.LocalhostScan
import WslFreeBSD.Reference.MemorySize
import WslFreeBSD.Reference.MessageWriter
import WslFreeBSD.Reference.NetFilter
import WslFreeBSD.Reference.ShortOptions
import WslFreeBSD.Reference.WaitableValue
import WslFreeBSD.Stub.Connections
import WslFreeBSD.Stub.Directory
import WslFreeBSD.Terminal.Sniffer
import WslFreeBSD.Translation.Collapse
import WslFreeBSD.Translation.MountInfo
import WslFreeBSD.Translation.Unescape
import WslFreeBSD.Translation.WslEnv
