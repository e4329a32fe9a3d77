import Psocks.Lib.Program
import Psocks.Socks5.Addr
import Psocks.Socks5.Authenticator

namespace Psocks.Socks5
open Program SearchTree

-- The first result of hev_task_dns_getaddrinfo, by its family.
inductive Resolved where
  | inet (addr : Vector UInt8 4)
  | inet6 (addr : Vector UInt8 16)
  | other

inductive SocketType where
  | stream
  | dgram
deriving DecidableEq, Repr

-- What a server asks the system for, besides its calls on the client's socket. `binder`
-- is the virtual method of HevSocks5; the splices are the service.
inductive ServerQuery where
  | inetPton4 (name : CString)
  | inetPton6 (name : CString)
  | getaddrinfo (name : CString) (family : HevSocks5AddrFamily)
  | socket (type : SocketType)
  | binder (fd : Int) (dest : SockaddrIn6)
  | connect (fd : Int) (addr : SockaddrIn6)
  | reuseaddr (fd : Int)
  | getsockname (fd : Int)
  | bind (fd : Int) (addr : SockaddrIn6)
  | tcpSplice (fd : Int)
  | udpSplice (fd : Int)
deriving DecidableEq

abbrev ServerAnswer : ServerQuery → Type
  | .inetPton4 _ => Option (Vector UInt8 4)
  | .inetPton6 _ => Option (Vector UInt8 16)
  | .getaddrinfo _ _ => Option Resolved
  | .getsockname _ => Option SockaddrIn6
  | _ => Int

abbrev ServerProg := Prog ServerQuery ServerAnswer

abbrev ServerWorld := World ServerQuery ServerAnswer

variable {rbtree : Balanced HevSocks5User}

structure HevSocks5Server (rbtree : Balanced HevSocks5User) where
  fd : Int
  type : HevSocks5Type
  addrFamily : HevSocks5AddrFamily
  fds : Int × Int
  auth : Option (HevSocks5Authenticator rbtree)

-- What read_request writes for its caller.
structure Request where
  cmd : UInt8
  rep : UInt8
  addr : SockaddrIn6

def hevSocks5ServerReadAuthMethod (self : HevSocks5Server rbtree) : ServerProg Int := do
  let (res,auth) ← recv 2
  if res ≠ 2 then pure (-1)
  else match auth with
    | [ver,methodLen] =>
      if ver ≠ version5 then pure (-1)
      else do
        let (res,methods) ← recv methodLen.toNat
        if res ≠ methodLen.toNat then pure (-1)
        else
          let method := if self.auth.isSome then authMethodUser else authMethodNone
          pure (if method ∈ methods then method.toNat else -1)
    | _ => pure (-1)

def hevSocks5ServerWriteAuthMethod (authMethod : Int) : ServerProg Int := do
  let res ← send [version5,UInt8.ofInt authMethod]
  pure (if res ≤ 0 then -1 else 0)

-- `plen` is received with the name.
def hevSocks5ServerReadAuthUser (self : HevSocks5Server rbtree) : ServerProg Int := do
  let (res,head) ← recv 2
  if res ≠ 2 then pure (-1)
  else match head with
    | [ver,nlen] =>
      if ver ≠ authVersion1 then pure (-1)
      else if nlen = 0 then pure (-1)
      else do
        let (res,name) ← recv (nlen.toNat+1)
        if res ≠ nlen.toNat+1 then pure (-1)
        else
          let plen := name.getD nlen.toNat 0
          if plen = 0 then pure (-1)
          else do
            let (res,pass) ← recv plen.toNat
            if res ≠ plen.toNat then pure (-1)
            else match self.auth.bind fun auth => hevSocks5AuthenticatorGet auth (name.take nlen.toNat) with
              | none => pure (-1)
              | some user => pure (if hevSocks5UserChecker user pass < 0 then -1 else 0)
    | _ => pure (-1)

def hevSocks5ServerWriteAuthUser (authRes : Int) : ServerProg Int := do
  let res ← send [authVersion1,UInt8.ofInt authRes]
  pure (if res ≤ 0 then -1 else 0)

-- `|` on two ints.
def orInt (a b : Int) : Int := (BitVec.ofInt 32 a ||| BitVec.ofInt 32 b).toInt

def hevSocks5ServerAuth (self : HevSocks5Server rbtree) : ServerProg Int := do
  let method ← hevSocks5ServerReadAuthMethod self
  let res ← hevSocks5ServerWriteAuthMethod method
  if res < 0 then pure (-1)
  else if method = authMethodNone.toNat then pure 0
  else if method = authMethodUser.toNat then do
    let res ← hevSocks5ServerReadAuthUser self
    let written ← hevSocks5ServerWriteAuthUser res
    pure (if orInt res written < 0 then -1 else 0)
  else pure (-1)

def bytesAt (mem : List UInt8) (off n : Nat) : Vector UInt8 n := Vector.ofFn fun i => mem.getD (off+i) 0

theorem bytes_at_front {bs : Vector UInt8 n} (left : off = before.length) : bytesAt (before++(bs.toList++tail)) off n = bs := by
  subst left
  apply Vector.ext
  intro i inside
  have found : (before++(bs.toList++tail))[before.length+i]? = some bs[i] := by
    rw [List.getElem?_append_right (Nat.le_add_right _ _),Nat.add_sub_cancel_left]
    simp [List.getElem?_append,inside]
  simp [bytesAt,List.getD_eq_getElem?_getD,found]

-- `memset (&saddr->sin6_addr, 0, 10)`
def SockaddrIn6.clear (saddr : SockaddrIn6) : SockaddrIn6 :=
  {saddr with addr:=⟨(List.replicate 10 0++saddr.addr.toList.drop 10).toArray,by simp⟩}

def hevSocks5NameResolveIpv4 (name : CString) (saddr : SockaddrIn6) : ServerProg (Int × SockaddrIn6) := do
  let res : Option (Vector UInt8 4) ← ask (ServerQuery.inetPton4 name)
  match res with
  | none => pure (-1,saddr.clear)
  | some ipv4 => pure (0,{saddr with addr:=v4Mapped ipv4})

def hevSocks5NameResolveIpv6 (name : CString) (saddr : SockaddrIn6) : ServerProg (Int × SockaddrIn6) := do
  let res : Option (Vector UInt8 16) ← ask (ServerQuery.inetPton6 name)
  match res with
  | none => pure (-1,saddr)
  | some ipv6 => pure (0,{saddr with addr:=ipv6})

def hevSocks5NameResolveName (name : CString) (saddr : SockaddrIn6) (family : HevSocks5AddrFamily) :
    ServerProg (Int × SockaddrIn6 × HevSocks5AddrFamily) := do
  let result : Option Resolved ← ask (ServerQuery.getaddrinfo name family)
  match result with
  | none => pure (-1,saddr,family)
  | some (.inet ipv4) => pure (0,{saddr with addr:=v4Mapped ipv4},.ipv4)
  | some (.inet6 ipv6) => pure (0,{saddr with addr:=ipv6},.ipv6)
  | some .other => pure (-1,saddr,family)

-- The port stays in network order.
def hevSocks5NameIntoSockaddr6 (name : CString) (port : Vector UInt8 2) (saddr : SockaddrIn6) (family : HevSocks5AddrFamily) :
    ServerProg (Int × SockaddrIn6 × HevSocks5AddrFamily) := do
  let (res,saddr) ← hevSocks5NameResolveIpv4 name {saddr with family:=afInet6,port:=port}
  if res = 0 then pure (0,saddr,.ipv4)
  else
    let (res,saddr) ← hevSocks5NameResolveIpv6 name saddr
    if res = 0 then pure (0,saddr,.ipv6)
    else hevSocks5NameResolveName name saddr family

def hevSocks5Ipv4IntoSockaddr6 (addr : List UInt8) : SockaddrIn6 := ⟨afInet6,bytesAt addr 5 2,v4Mapped (bytesAt addr 1 4)⟩

def hevSocks5Ipv6IntoSockaddr6 (addr : List UInt8) : SockaddrIn6 := ⟨afInet6,bytesAt addr 17 2,bytesAt addr 1 16⟩

def hevSocks5AddrIntoSockaddr6 (addr : List UInt8) (saddr : SockaddrIn6) (family : HevSocks5AddrFamily) :
    ServerProg (Int × SockaddrIn6 × HevSocks5AddrFamily) :=
  let atype := addr.getD 0 0
  if atype = addrTypeIpv4 then pure (0,hevSocks5Ipv4IntoSockaddr6 addr,.ipv4)
  else if atype = addrTypeIpv6 then pure (0,hevSocks5Ipv6IntoSockaddr6 addr,.ipv6)
  else if atype = addrTypeName then
    let len := (addr.getD 1 0).toNat
    hevSocks5NameIntoSockaddr6 (cut ((addr.drop 2).take len)) (bytesAt addr (2+len) 2) saddr family
  else pure (-1,saddr,family)

-- The bytes of a request behind the first five.
def requestLength (atype len : UInt8) : Option Nat :=
  if atype = addrTypeIpv4 then some 5
  else if atype = addrTypeIpv6 then some 17
  else if atype = addrTypeName then some (2+len.toNat)
  else none

def hevSocks5ServerReadRequest (self : HevSocks5Server rbtree) (out : Request) :
    ServerProg (Int × Request × HevSocks5Server rbtree) := do
  let (res,req) ← recv 5
  if res ≠ 5 then pure (-1,out,self)
  else match req with
    | [ver,cmd,_,atype,len] =>
      if ver ≠ version5 then pure (0,{out with rep:=resRepFail},self)
      else match requestLength atype len with
        | none => pure (0,{out with rep:=resRepAddr},self)
        | some addrlen => do
          let (res,addr) ← recv addrlen
          if res ≠ addrlen then pure (0,{out with rep:=resRepAddr},self)
          else
            let (res,saddr,family) ← hevSocks5AddrIntoSockaddr6 (atype::len::addr) out.addr self.addrFamily
            if res < 0 then pure (0,{out with rep:=resRepAddr,addr:=saddr},self)
            else pure (0,{out with cmd:=cmd,addr:=saddr},{self with addrFamily:=family})
    | _ => pure (-1,out,self)

def hevSocks5ServerWriteResponse (rep : UInt8) (addr : SockaddrIn6) : ServerProg Int := do
  let ret ← send ([version5,rep,0]++hevSocks5AddrFromSockaddr6 addr)
  pure (if ret ≤ 0 then -1 else 0)

def hevSocks5ServerConnect (self : HevSocks5Server rbtree) (addr : SockaddrIn6) : ServerProg (Int × HevSocks5Server rbtree) := do
  let fd : Int ← ask (ServerQuery.socket .stream)
  if fd < 0 then pure (-1,self)
  else
    let res : Int ← ask (ServerQuery.binder fd addr)
    if res < 0 then pure (-1,self)
    else
      let res : Int ← ask (ServerQuery.connect fd addr)
      if res < 0 then pure (-1,self) else pure (0,{self with fds:=(fd,self.fds.2)})

def hevSocks5ServerUdpBind (self : HevSocks5Server rbtree) (sock : Int) (src : SockaddrIn6) : ServerProg (Int × SockaddrIn6) := do
  let own : Option SockaddrIn6 ← ask (ServerQuery.getsockname self.fd)
  match own with
  | none => pure (-1,src)
  | some own => do
    let src := {own with port:=#v[0,0]}
    let res : Int ← ask (ServerQuery.bind sock src)
    if res < 0 then pure (-1,src)
    else
      let bound : Option SockaddrIn6 ← ask (ServerQuery.getsockname sock)
      match bound with
      | none => pure (-1,src)
      | some bound => pure (0,bound)

-- With the address of the reply as it is left, where there is one.
def hevSocks5ServerBind (self : HevSocks5Server rbtree) (addr : Option SockaddrIn6) :
    ServerProg (Int × Option SockaddrIn6 × HevSocks5Server rbtree) := do
  let fd : Int ← ask (ServerQuery.socket .dgram)
  if fd < 0 then pure (-1,addr,self)
  else
    let self := {self with fds:=(fd,self.fds.2)}
    match addr with
    | none => pure (0,none,self)
    | some addr => do
      let fd : Int ← ask (ServerQuery.socket .dgram)
      if fd < 0 then pure (-1,some addr,self)
      else
        let res : Int ← ask (ServerQuery.reuseaddr fd)
        if res < 0 then pure (-1,some addr,self)
        else
          let (res,src) ← hevSocks5ServerUdpBind self fd addr
          if res < 0 then pure (-1,some src,self) else pure (0,some src,{self with fds:=(self.fds.1,fd)})

-- The switch over the command.
def hevSocks5ServerServe (self : HevSocks5Server rbtree) (request : Request) :
    ServerProg (UInt8 × SockaddrIn6 × HevSocks5Server rbtree) :=
  if request.rep ≠ resRepSucc then pure (request.rep,request.addr,self)
  else if request.cmd = reqCmdConnect then do
    let (res,self) ← hevSocks5ServerConnect self request.addr
    pure (if res < 0 then resRepHost else resRepSucc,request.addr,{self with type:=.tcp})
  else if request.cmd = reqCmdUdpAsc then do
    let (res,addr,self) ← hevSocks5ServerBind self (some request.addr)
    pure (if res < 0 then resRepFail else resRepSucc,addr.getD request.addr,{self with type:=.udpInUdp})
  else if request.cmd = reqCmdFwdUdp then do
    let (res,_,self) ← hevSocks5ServerBind self none
    pure (if res < 0 then resRepFail else resRepSucc,request.addr,{self with type:=.udpInTcp})
  else pure (resRepImpl,request.addr,self)

-- What a handshake comes to: the request it read and the code it replied.
structure Handshake (rbtree : Balanced HevSocks5User) where
  res : Int
  request : Request
  rep : UInt8
  self : HevSocks5Server rbtree

-- `stack` is what was in `cmd`, `rep` and `addr` before.
def hevSocks5ServerHandshake (self : HevSocks5Server rbtree) (stack : Request) : ServerProg (Handshake rbtree) := do
  let res ← hevSocks5ServerAuth self
  if res < 0 then pure ⟨-1,stack,stack.rep,self⟩
  else
    let (res,request,self) ← hevSocks5ServerReadRequest self {stack with rep:=resRepSucc}
    if res < 0 then pure ⟨-1,request,request.rep,self⟩
    else
      let (rep,addr,self) ← hevSocks5ServerServe self request
      let res ← hevSocks5ServerWriteResponse rep addr
      pure ⟨if res < 0 ∨ rep ≠ resRepSucc then -1 else 0,request,rep,self⟩

def hevSocks5ServerService (self : HevSocks5Server rbtree) : ServerProg Int :=
  match self.type with
  | .tcp => do
    let _ : Int ← ask (ServerQuery.tcpSplice self.fds.1)
    pure 0
  | .udpInUdp | .udpInTcp => do
    let _ : Int ← ask (ServerQuery.udpSplice self.fds.1)
    pure 0
  | .none => pure (-1)

def hevSocks5ServerRun (self : HevSocks5Server rbtree) (stack : Request) : ServerProg Int := do
  let out ← hevSocks5ServerHandshake self stack
  if out.res < 0 then pure (-1)
  else
    let res ← hevSocks5ServerService out.self
    pure (if res < 0 then -1 else 0)

end Psocks.Socks5
