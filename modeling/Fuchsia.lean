import Fuchsia.Fxfs.ExtentSeek
import Fuchsia.Fxfs.AllocatorBalance
import Fuchsia.Fxfs.JournalStream
import Fuchsia.Fxfs.JournalReplay
import Fuchsia.Fxfs.LockManagerRun
import Fuchsia.Fxfs.ObjectManager
import Fuchsia.Fxfs.WritebackCacheRun
import Fuchsia.Zircon.DirtyTrackingRun
import Fuchsia.Netstack.ReassemblyRun
import Fuchsia.Netstack.ForwardingRun
import Fuchsia.Netstack.IgmpRouter
import Fuchsia.Netstack.UdpRun
import Fuchsia.Netstack.PortAlloc
import Fuchsia.Netstack.TokenBucket
import Fuchsia.Inspect.HeapRun
import Fuchsia.Inspect.Snapshot
import Fuchsia.Diagnostics.Hierarchy
import Fuchsia.Dhcp.Leases
import Fuchsia.Dhcp.Restart
import Fuchsia.Starnix.MessageQueueRun
import Fuchsia.Bind.LibrarySymbols
import Fuchsia.Bind.Bytecode
import Fuchsia.Packet.Constraints
import Fuchsia.Packet.Views
