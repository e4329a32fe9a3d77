import Psocks.Config.Buffers
import Psocks.Config.EngineConfig
import Psocks.Config.HevConfig
import Psocks.Config.Printed
import Psocks.Config.Reload
import Psocks.Config.SettingsReach
import Psocks.Config.Text
import Psocks.Lib.Apart
import Psocks.Lib.Buckets
import Psocks.Lib.Bytes
import Psocks.Lib.CString
import Psocks.Lib.Cells
import Psocks.Lib.Conduit
import Psocks.Lib.Cyclic
import Psocks.Lib.Descriptors
import Psocks.Lib.Dialogue
import Psocks.Lib.Ledger
import Psocks.Lib.Linked
import Psocks.Lib.Program
import Psocks.Lib.Recency
import Psocks.Lib.RedBlack
import Psocks.Lib.Runs
import Psocks.Lib.SearchTree
import Psocks.Lib.Stacks
import Psocks.Lib.TreeWalk
import Psocks.Lib.Variables
import Psocks.Lib.Vectored
import Psocks.Lib.Whole
import Psocks.Lwip.Pbuf
import Psocks.MappedDns.Bounds
import Psocks.MappedDns.Capture
import Psocks.MappedDns.Fidelity
import Psocks.MappedDns.Invariant
import Psocks.MappedDns.Layout
import Psocks.MappedDns.Lru
import Psocks.MappedDns.Network
import Psocks.MappedDns.Parameters
import Psocks.MappedDns.Response
import Psocks.MappedDns.Store
import Psocks.MappedDns.StoreMemory
import Psocks.MappedDns.Wire
import Psocks.Misc.HevList
import Psocks.Misc.HevRBTree
import Psocks.Misc.RBCached
import Psocks.Misc.RBErase
import Psocks.Misc.RBHeap
import Psocks.Misc.RBInsert
import Psocks.Misc.RBReached
import Psocks.Misc.RBSearch
import Psocks.Misc.RBWalk
import Psocks.Misc.RingBuffer
import Psocks.Session.Downstream
import Psocks.Session.RelayAddress
import Psocks.Session.Tcp
import Psocks.Session.Termination
import Psocks.Session.Udp
import Psocks.Session.UdpHostile
import Psocks.Session.UdpQueue
import Psocks.Session.UdpReceive
import Psocks.Session.UdpSend
import Psocks.Session.UdpSource
import Psocks.Session.UdpWhole
import Psocks.Session.Upstream
import Psocks.Socks5.Accounts
import Psocks.Socks5.AccountsMemory
import Psocks.Socks5.Addr
import Psocks.Socks5.Agreement
import Psocks.Socks5.Authenticator
import Psocks.Socks5.Client
import Psocks.Socks5.ClientCourse
import Psocks.Socks5.ClientDescriptors
import Psocks.Socks5.ClientMethod
import Psocks.Socks5.ClientModes
import Psocks.Socks5.Server
import Psocks.Socks5.ServerAuth
import Psocks.Socks5.ServerCourse
import Psocks.Socks5.ServerDescriptors
import Psocks.Socks5.ServerGuard
import Psocks.Socks5.ServerReply
import Psocks.Socks5.ServerRequest
import Psocks.Socks5.Target
import Psocks.Socks5.Udp
import Psocks.Socks5.UdpAssociation
import Psocks.Socks5.UdpCarriage
import Psocks.Socks5.UdpCodec
import Psocks.Socks5.UdpContract
import Psocks.Socks5.UdpDatagram
import Psocks.Socks5.UdpForward
import Psocks.Socks5.UdpFrames
import Psocks.Socks5.UdpStream
import Psocks.Task.CircularBuffer
import Psocks.Task.IoSocket
import Psocks.Task.Mutex
import Psocks.Task.Schedule
import Psocks.Task.ScheduleMemory
import Psocks.Task.SliceAllocator
import Psocks.Task.Splice
import Psocks.Task.Timer
import Psocks.Task.TimerMemory
import Psocks.Task.Waiting
import Psocks.Tunnel.Registry
import Psocks.Tunnel.Resources
import Psocks.Tunnel.Service
import Psocks.Tunnel.SessionLimit
import Psocks.Yaml.Composed
import Psocks.Yaml.Loader
import Psocks.Yaml.Scanner
import Psocks.Yaml.Sections
import Psocks.Yaml.Written
