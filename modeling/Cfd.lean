import Cfd.Base.Base64
import Cfd.Base.Cascade
import Cfd.Base.Census
import Cfd.Base.CondVar
import Cfd.Base.Custody
import Cfd.Base.Deal
import Cfd.Base.Decimal
import Cfd.Base.LinkedTree
import Cfd.Base.Machine
import Cfd.Base.Memory
import Cfd.Base.NameTable
import Cfd.Base.PrefixTree
import Cfd.Base.Refinement
import Cfd.Base.Strip
import Cfd.Base.Text
import Cfd.Base.Tlv
import Cfd.Base.Writers
import Cfd.Config.Load
import Cfd.Config.Print
import Cfd.Config.Reference
import Cfd.Log.Emit
import Cfd.Main.Args
import Cfd.Main.Backoff
import Cfd.Main.ClientView
import Cfd.Main.EdgeIps
import Cfd.Main.FirstHealthy
import Cfd.Main.Inbound
import Cfd.Main.MultiSink
import Cfd.Main.Outbound
import Cfd.Main.Process
import Cfd.Main.ProcessEnd
import Cfd.Main.QueueView
import Cfd.Main.Reconnect
import Cfd.Main.RegQueue
import Cfd.Main.Served
import Cfd.Main.SetupRequests
import Cfd.Main.Spread
import Cfd.Main.Startup
import Cfd.Main.Teardown
import Cfd.Main.Wakeup
import Cfd.Net.Addr
import Cfd.Net.CidrPrint
import Cfd.Net.CidrText
import Cfd.Net.InetText
import Cfd.Net.KernelRoute
import Cfd.Net.LpmTrie
import Cfd.Net.Netlink
import Cfd.Net.NetlinkBuffer
import Cfd.Net.NetlinkCalls
import Cfd.Net.NetlinkRequests
import Cfd.Net.TrieHeap
import Cfd.Net.TrieOwners
import Cfd.Router.Packet
import Cfd.Router.Reader
import Cfd.Router.StartStop
import Cfd.Tun.Device
import Cfd.Tunnel.Apart
import Cfd.Tunnel.ApiTable
import Cfd.Tunnel.AsyncStream
import Cfd.Tunnel.Attempt
import Cfd.Tunnel.Base64Decode
import Cfd.Tunnel.Calls
import Cfd.Tunnel.Clients
import Cfd.Tunnel.Datagram
import Cfd.Tunnel.Disconnect
import Cfd.Tunnel.Frame
import Cfd.Tunnel.Handles
import Cfd.Tunnel.Lifecycle
import Cfd.Tunnel.Object
import Cfd.Tunnel.ParkedRead
import Cfd.Tunnel.ParseUuid
import Cfd.Tunnel.ReadContract
import Cfd.Tunnel.Redial
import Cfd.Tunnel.Registration
import Cfd.Tunnel.SendLedger
import Cfd.Tunnel.Session
import Cfd.Tunnel.Shutdown
import Cfd.Tunnel.ShutdownEnd
import Cfd.Tunnel.Slot
import Cfd.Tunnel.StreamScope
import Cfd.Tunnel.Teardown
import Cfd.Tunnel.ThreadExit
import Cfd.Tunnel.WakeupCv
import Cfd.Tunnel.Watchdog
import Cfd.Util.Buffer
import Cfd.Util.Descriptors
import Cfd.Util.UniqueFd
import Cfd.Util.WakePipe
