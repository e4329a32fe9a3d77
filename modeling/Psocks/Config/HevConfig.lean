import Psocks.Config.Text
import Psocks.Lib.Variables

namespace Psocks.Config
open Psocks.Variables

-- Pairs and the root are numbered as libyaml numbers its nodes, from 1; 0 is no node.
inductive Node where
  | scalar (value : CString)
  | sequence
  | mapping (pairs : List (Int×Int))

structure Document where
  nodes : List Node

def yamlDocumentGetNode (doc : Document) (index : Int) : Option Node :=
  if 0 < index then doc.nodes[(index-1).toNat]? else none

def yamlDocumentGetRootNode (doc : Document) : Option Node := doc.nodes.head?

inductive Static where
  | tunName
  | tunMtu
  | multiQueue
  | tunIpv4Address
  | tunIpv6Address
  | tunPostUpScript
  | tunPreDownScript
  | srvUser
  | srvPass
  | srvMark
  | srvUdpInUdp
  | srvPort
  | srvPipeline
  | srvFastopen
  | srvUdpAddr
  | srvAddr
  | mapdnsAddress
  | mapdnsPort
  | mapdnsNetwork
  | mapdnsNetmask
  | mapdnsCacheSize
  | logFile
  | pidFile
  | maxSessionCount
  | taskStackSize
  | tcpBufferSize
  | udpRecvBufferSize
  | udpCopyBufferNums
  | connectTimeout
  | tcpReadWriteTimeout
  | udpReadWriteTimeout
  | limitNofile
  | logLevel
deriving DecidableEq, Repr

-- The pointers srv.user and srv.pass point to nothing or to the buffers of their own.
abbrev Static.Ty : Static → Type
  | .tunName | .tunIpv4Address | .tunIpv6Address | .tunPostUpScript | .tunPreDownScript => CString
  | .srvUser | .srvPass => Option CString
  | .srvUdpAddr | .srvAddr => CString
  | .mapdnsAddress | .mapdnsNetwork | .mapdnsNetmask => BitVec 32
  | .logFile | .pidFile => CString
  | _ => Int

abbrev Store := (v : Static) → v.Ty

abbrev Writes := List (Write Static.Ty)

def hevLoggerDebug : Int := 0

def hevLoggerInfo : Int := 1

def hevLoggerWarn : Int := 2

def hevLoggerError : Int := 3

def empty : CString := cut []

def loaded : Store
  | .tunName | .tunIpv4Address | .tunIpv6Address | .tunPostUpScript | .tunPreDownScript => empty
  | .srvUser | .srvPass => none
  | .srvUdpAddr | .srvAddr => empty
  | .mapdnsAddress | .mapdnsNetwork | .mapdnsNetmask => 0
  | .logFile | .pidFile => empty
  | .tunMtu => (8500 : Int)
  | .taskStackSize => (86016 : Int)
  | .tcpBufferSize => (65536 : Int)
  | .udpRecvBufferSize => (524288 : Int)
  | .udpCopyBufferNums => (10 : Int)
  | .connectTimeout => (10000 : Int)
  | .tcpReadWriteTimeout => (300000 : Int)
  | .udpReadWriteTimeout => (60000 : Int)
  | .limitNofile => (65535 : Int)
  | .logLevel => hevLoggerWarn
  | .multiQueue | .srvMark | .srvUdpInUdp | .srvPort | .srvPipeline | .srvFastopen => (0 : Int)
  | .mapdnsPort | .mapdnsCacheSize | .maxSessionCount => (0 : Int)

def named (key : CString) (name : String) : Bool := strcmp key.bytes (ascii name) = 0

-- The loops over a section stop at the first pair that is not as they want it.
def nodePairs (doc : Document) : List (Int×Int) → List (CString×Node)
  | [] => []
  | (key,value)::rest =>
    match yamlDocumentGetNode doc key, yamlDocumentGetNode doc value with
    | some (.scalar key), some node => (key,node)::nodePairs doc rest
    | _, _ => []

def scalarPairs (doc : Document) : List (Int×Int) → List (CString×CString)
  | [] => []
  | (key,value)::rest =>
    match yamlDocumentGetNode doc key, yamlDocumentGetNode doc value with
    | some (.scalar key), some (.scalar value) => (key,value)::scalarPairs doc rest
    | _, _ => []

def mappingPairs (base : Option Node) : Option (List (Int×Int)) :=
  match base with
  | some (.mapping pairs) => some pairs
  | _ => none

def parseTunnelAddress (doc : Document) (base : Option Node) (write : CString → Write Static.Ty) : Option Writes :=
  (mappingPairs base).map fun pairs =>
    (scalarPairs doc pairs).flatMap fun (key,value) => if named key "address" then [write value] else []

def hevConfigParseTunnelIpv4 (doc : Document) (base : Option Node) : Option Writes :=
  parseTunnelAddress doc base fun value => .set .tunIpv4Address (strncpy value (16-1))

def hevConfigParseTunnelIpv6 (doc : Document) (base : Option Node) : Option Writes :=
  parseTunnelAddress doc base fun value => .set .tunIpv6Address (strncpy value (64-1))

def tunnelScalar (target : Target) (key value : CString) : Writes :=
  if named key "name" then [.set .tunName (strncpy value (64-1))]
  else if named key "mtu" then [.set .tunMtu (toUnsigned (strtoul target value 10))]
  else if named key "multi-queue" then [.set .multiQueue (strcasecmp value.bytes (ascii "false"))]
  else if named key "ipv4" then [.set .tunIpv4Address (strncpy value (16-1))]
  else if named key "ipv6" then [.set .tunIpv6Address (strncpy value (64-1))]
  else if named key "post-up-script" then [.set .tunPostUpScript (strncpy value (64-1))]
  else if named key "pre-down-script" then [.set .tunPreDownScript (strncpy value (64-1))]
  else []

-- What the parsers of the addresses return is not looked at.
def tunnelNode (target : Target) (doc : Document) (key : CString) (node : Node) : Writes :=
  match node with
  | .scalar value => tunnelScalar target key value
  | _ =>
    if named key "ipv4" then (hevConfigParseTunnelIpv4 doc (some node)).getD []
    else if named key "ipv6" then (hevConfigParseTunnelIpv6 doc (some node)).getD []
    else []

def hevConfigParseTunnel (target : Target) (doc : Document) (base : Option Node) : Option Writes :=
  (mappingPairs base).map fun pairs => (nodePairs doc pairs).flatMap fun (key,node) => tunnelNode target doc key node

-- A local variable that the loop over the pairs sets.
def lastValue (pairs : List (CString×CString)) (name : String) : Option CString :=
  (pairs.reverse.find? fun (key,_) => named key name).map Prod.snd

-- All tests come before the first assignment.
def hevConfigParseSocks5 (target : Target) (doc : Document) (base : Option Node) : Option Writes := do
  let pairs := scalarPairs doc (← mappingPairs base)
  let port ← lastValue pairs "port"
  let addr ← lastValue pairs "address"
  let udpm := lastValue pairs "udp"
  let udpa := lastValue pairs "udp-address"
  let pipe := lastValue pairs "pipeline"
  let user := lastValue pairs "username"
  let pass := lastValue pairs "password"
  let mark := lastValue pairs "mark"
  let tfso := lastValue pairs "tcp-fastopen"
  if user.isSome ≠ pass.isSome then none
  else
    let credentials : Writes :=
      match user,pass with
      | some user,some pass => [.set .srvUser (some (strncpy user (256-1))),.set .srvPass (some (strncpy pass (256-1)))]
      | _,_ => []
    some (([.set .srvAddr (strncpy addr (256-1)),.set .srvPort (toUnsignedShort (strtoul target port 10))] : Writes)++
      (if pipe.any fun pipe => strcasecmp pipe.bytes (ascii "true") = 0 then [.set .srvPipeline (1 : Int)] else [] : Writes)++
      (if udpm.any fun udpm => strcasecmp udpm.bytes (ascii "udp") = 0 then [.set .srvUdpInUdp (1 : Int)] else [] : Writes)++
      (udpa.toList.map fun udpa => .set .srvUdpAddr (strncpy udpa (256-1)) : Writes)++credentials++
      (mark.toList.map fun mark => .set .srvMark (toUnsigned (strtoul target mark 0)) : Writes)++
      (tfso.toList.map fun tfso =>
        .set .srvFastopen (if strcasecmp tfso.bytes (ascii "true") = 0 then 1 else 0 : Int) : Writes))

-- An address that inet_pton does not take leaves the variable alone.
def mapdnsScalar (target : Target) (key value : CString) : Writes :=
  if named key "address" then (inetPton4 value).toList.map fun x => .set .mapdnsAddress x
  else if named key "port" then [.set .mapdnsPort (toInt (strtoul target value 10))]
  else if named key "network" then (inetPton4 value).toList.map fun x => .set .mapdnsNetwork x
  else if named key "netmask" then (inetPton4 value).toList.map fun x => .set .mapdnsNetmask x
  else if named key "cache-size" then [.set .mapdnsCacheSize (toInt (strtoul target value 10))]
  else []

-- The bytes are swapped whether the section has set them or not.
def hevConfigParseMapdns (target : Target) (doc : Document) (base : Option Node) : Option Writes :=
  (mappingPairs base).map fun pairs =>
    ((scalarPairs doc pairs).flatMap fun (key,value) => mapdnsScalar target key value)++
      [.map .mapdnsNetwork ntohl,.map .mapdnsNetmask ntohl]

def hevConfigParseLogLevel (value : CString) : Int :=
  if named value "debug" then hevLoggerDebug
  else if named value "info" then hevLoggerInfo
  else if named value "error" then hevLoggerError
  else hevLoggerWarn

-- The keys of the time-outs set local variables.
def miscScalar (target : Target) (key value : CString) : Writes :=
  if named key "task-stack-size" then [.set .taskStackSize (toInt (strtoul target value 10))]
  else if named key "tcp-buffer-size" then [.set .tcpBufferSize (toInt (strtoul target value 10))]
  else if named key "udp-recv-buffer-size" then [.set .udpRecvBufferSize (toInt (strtoul target value 10))]
  else if named key "udp-copy-buffer-nums" then [.set .udpCopyBufferNums (toInt (strtoul target value 10))]
  else if named key "max-session-count" then [.set .maxSessionCount (toInt (strtoul target value 10))]
  else if named key "connect-timeout" then [.set .connectTimeout (toInt (strtoul target value 10))]
  else if named key "pid-file" then [.set .pidFile (strncpy value (1024-1))]
  else if named key "log-file" then [.set .logFile (strncpy value (1024-1))]
  else if named key "log-level" then [.set .logLevel (hevConfigParseLogLevel value)]
  else if named key "limit-nofile" then [.set .limitNofile (toInt (strtol target value 10))]
  else []

def hevConfigParseMisc (target : Target) (doc : Document) (base : Option Node) : Option Writes :=
  (mappingPairs base).map fun pairs =>
    let pairs := scalarPairs doc pairs
    let timeout name := ((lastValue pairs name).map fun value => toInt (strtoul target value 10)).getD (-1)
    let rwTimeout := timeout "read-write-timeout"
    let tcpRwTimeout := timeout "tcp-read-write-timeout"
    let udpRwTimeout := timeout "udp-read-write-timeout"
    let tcpRwTimeout := if tcpRwTimeout ≤ 0 then rwTimeout else tcpRwTimeout
    let udpRwTimeout := if udpRwTimeout ≤ 0 then rwTimeout else udpRwTimeout
    (pairs.flatMap fun (key,value) => miscScalar target key value)++
      (if 0 < tcpRwTimeout then [.set .tcpReadWriteTimeout tcpRwTimeout] else [])++
      (if 0 < udpRwTimeout then [.set .udpReadWriteTimeout udpRwTimeout] else [])

def parseSection (target : Target) (doc : Document) (key : CString) (base : Option Node) : Option Writes :=
  if named key "tunnel" then hevConfigParseTunnel target doc base
  else if named key "socks5" then hevConfigParseSocks5 target doc base
  else if named key "mapdns" then hevConfigParseMapdns target doc base
  else if named key "misc" then hevConfigParseMisc target doc base
  else some []

-- Sections before the first that is refused have been taken.
def parseSections (target : Target) (doc : Document) : List (Int×Int) → Store → Bool×Store
  | [],s => (true,s)
  | (key,value)::rest,s =>
    if value = 0 then (true,s)
    else match yamlDocumentGetNode doc key with
      | some (.scalar key) =>
        match parseSection target doc key (yamlDocumentGetNode doc value) with
        | some writes => parseSections target doc rest (run writes s)
        | none => (false,s)
      | _ => (true,s)

def tcpSndBuf : Int := 8*8191

def udpBufSize : Int := 1500

def taskStackSize : Int := 20480

-- An int that overflows wraps around.
def minTaskStackSize (tcpBufferSize udpCopyBufferNums : Int) : Int :=
  let udpBufferSize := toInt (udpBufSize*udpCopyBufferNums)
  if tcpBufferSize > udpBufferSize then toInt (taskStackSize+tcpBufferSize) else toInt (taskStackSize+udpBufferSize)

def clamp (s : Store) : Store :=
  let tcpBufferSize : Int := if s .tcpBufferSize > tcpSndBuf then tcpSndBuf else s .tcpBufferSize
  let least := minTaskStackSize tcpBufferSize (s .udpCopyBufferNums)
  let stack : Int := if s .taskStackSize < least then least else s .taskStackSize
  Function.update (Function.update s .tcpBufferSize tcpBufferSize) .taskStackSize stack

def hevConfigParseDoc (target : Target) (doc : Document) (s : Store) : Bool×Store :=
  match mappingPairs (yamlDocumentGetRootNode doc) with
  | some pairs =>
    let r := parseSections target doc pairs s
    if r.1 then (true,clamp r.2) else r
  | none => (false,s)

-- hev_config_init_from_file and hev_config_init_from_str: there is no document where the
-- file cannot be opened or libyaml refuses the text.
def hevConfigInit (target : Target) (parsed : Option Document) (s : Store) : Bool×Store :=
  match parsed with
  | some doc => hevConfigParseDoc target doc s
  | none => (false,s)

def orNull (s : CString) : Option CString := if s.bytes = [] then none else some s

def hevConfigGetTunnelName (s : Store) : Option CString := orNull (s .tunName)

def hevConfigGetTunnelMtu (s : Store) : Int := s .tunMtu

def hevConfigGetTunnelMultiQueue (s : Store) : Int := s .multiQueue

def hevConfigGetTunnelIpv4Address (s : Store) : Option CString := orNull (s .tunIpv4Address)

def hevConfigGetTunnelIpv6Address (s : Store) : Option CString := orNull (s .tunIpv6Address)

def hevConfigGetTunnelPostUpScript (s : Store) : Option CString := orNull (s .tunPostUpScript)

def hevConfigGetTunnelPreDownScript (s : Store) : Option CString := orNull (s .tunPreDownScript)

structure HevConfigServer where
  user : Option CString
  pass : Option CString
  mark : Int
  udpInUdp : Int
  port : Int
  pipeline : Int
  fastopen : Int
  udpAddr : CString
  addr : CString

def hevConfigGetSocks5Server (s : Store) : HevConfigServer :=
  {user:=s .srvUser,pass:=s .srvPass,mark:=s .srvMark,udpInUdp:=s .srvUdpInUdp,port:=s .srvPort,pipeline:=s .srvPipeline,
   fastopen:=s .srvFastopen,udpAddr:=s .srvUdpAddr,addr:=s .srvAddr}

def hevConfigGetMapdnsAddress (s : Store) : BitVec 32 := s .mapdnsAddress

def hevConfigGetMapdnsPort (s : Store) : Int := s .mapdnsPort

def hevConfigGetMapdnsNetwork (s : Store) : BitVec 32 := s .mapdnsNetwork

def hevConfigGetMapdnsNetmask (s : Store) : BitVec 32 := s .mapdnsNetmask

def hevConfigGetMapdnsCacheSize (s : Store) : Int := s .mapdnsCacheSize

def hevConfigGetMiscTaskStackSize (s : Store) : Int := s .taskStackSize

def hevConfigGetMiscTcpBufferSize (s : Store) : Int := s .tcpBufferSize

def hevConfigGetMiscUdpRecvBufferSize (s : Store) : Int := s .udpRecvBufferSize

def hevConfigGetMiscUdpCopyBufferNums (s : Store) : Int := s .udpCopyBufferNums

def hevConfigGetMiscMaxSessionCount (s : Store) : Int := s .maxSessionCount

def hevConfigGetMiscConnectTimeout (s : Store) : Int := s .connectTimeout

def hevConfigGetMiscTcpReadWriteTimeout (s : Store) : Int := s .tcpReadWriteTimeout

def hevConfigGetMiscUdpReadWriteTimeout (s : Store) : Int := s .udpReadWriteTimeout

def hevConfigGetMiscLimitNofile (s : Store) : Int := s .limitNofile

def hevConfigGetMiscPidFile (s : Store) : Option CString := orNull (s .pidFile)

def hevConfigGetMiscLogFile (s : Store) : CString := if (s .logFile).bytes = [] then text "stderr" else s .logFile

def hevConfigGetMiscLogLevel (s : Store) : Int := s .logLevel

-- All that the rest of the engine sees of its configuration.
structure Observation where
  tunnelName : Option CString
  tunnelMtu : Int
  tunnelMultiQueue : Int
  tunnelIpv4Address : Option CString
  tunnelIpv6Address : Option CString
  tunnelPostUpScript : Option CString
  tunnelPreDownScript : Option CString
  socks5Server : HevConfigServer
  mapdnsAddress : BitVec 32
  mapdnsPort : Int
  mapdnsNetwork : BitVec 32
  mapdnsNetmask : BitVec 32
  mapdnsCacheSize : Int
  miscTaskStackSize : Int
  miscTcpBufferSize : Int
  miscUdpRecvBufferSize : Int
  miscUdpCopyBufferNums : Int
  miscMaxSessionCount : Int
  miscConnectTimeout : Int
  miscTcpReadWriteTimeout : Int
  miscUdpReadWriteTimeout : Int
  miscLimitNofile : Int
  miscPidFile : Option CString
  miscLogFile : CString
  miscLogLevel : Int

def observe (s : Store) : Observation where
  tunnelName := hevConfigGetTunnelName s
  tunnelMtu := hevConfigGetTunnelMtu s
  tunnelMultiQueue := hevConfigGetTunnelMultiQueue s
  tunnelIpv4Address := hevConfigGetTunnelIpv4Address s
  tunnelIpv6Address := hevConfigGetTunnelIpv6Address s
  tunnelPostUpScript := hevConfigGetTunnelPostUpScript s
  tunnelPreDownScript := hevConfigGetTunnelPreDownScript s
  socks5Server := hevConfigGetSocks5Server s
  mapdnsAddress := hevConfigGetMapdnsAddress s
  mapdnsPort := hevConfigGetMapdnsPort s
  mapdnsNetwork := hevConfigGetMapdnsNetwork s
  mapdnsNetmask := hevConfigGetMapdnsNetmask s
  mapdnsCacheSize := hevConfigGetMapdnsCacheSize s
  miscTaskStackSize := hevConfigGetMiscTaskStackSize s
  miscTcpBufferSize := hevConfigGetMiscTcpBufferSize s
  miscUdpRecvBufferSize := hevConfigGetMiscUdpRecvBufferSize s
  miscUdpCopyBufferNums := hevConfigGetMiscUdpCopyBufferNums s
  miscMaxSessionCount := hevConfigGetMiscMaxSessionCount s
  miscConnectTimeout := hevConfigGetMiscConnectTimeout s
  miscTcpReadWriteTimeout := hevConfigGetMiscTcpReadWriteTimeout s
  miscUdpReadWriteTimeout := hevConfigGetMiscUdpReadWriteTimeout s
  miscLimitNofile := hevConfigGetMiscLimitNofile s
  miscPidFile := hevConfigGetMiscPidFile s
  miscLogFile := hevConfigGetMiscLogFile s
  miscLogLevel := hevConfigGetMiscLogLevel s

end Psocks.Config
