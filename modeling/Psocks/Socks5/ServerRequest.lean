import Psocks.Lib.Whole
import Psocks.Socks5.Server

namespace Psocks.Socks5
open Program SearchTree
variable {rbtree : Balanced HevSocks5User} {self : HevSocks5Server rbtree} {oracle : Nat → (q : ServerQuery) → ServerAnswer q}
variable {turn : Nat} {acts : List (Act ServerQuery)}

-- The splices of hev_socks5_server_service.
def Service : ServerQuery → Prop
  | .tcpSplice _ => True
  | .udpSplice _ => True
  | _ => False

-- What neither talks to the client nor serves it.
def Local (p : ServerProg α) : Prop := p.Asks fun q => ¬Service q

-- What only listens besides.
def Prepares (p : ServerProg α) : Prop := p.Inquires fun q => ¬Service q

theorem resolve_ipv4_local (name : CString) (saddr : SockaddrIn6) : Local (hevSocks5NameResolveIpv4 name saddr) := by
  unfold hevSocks5NameResolveIpv4
  refine asks_ask id fun res => ?_
  split <;> trivial

theorem resolve_ipv6_local (name : CString) (saddr : SockaddrIn6) : Local (hevSocks5NameResolveIpv6 name saddr) := by
  unfold hevSocks5NameResolveIpv6
  refine asks_ask id fun res => ?_
  split <;> trivial

theorem resolve_name_local (name : CString) (saddr : SockaddrIn6) (family : HevSocks5AddrFamily) :
    Local (hevSocks5NameResolveName name saddr family) := by
  unfold hevSocks5NameResolveName
  refine asks_ask id fun res => ?_
  split <;> trivial

theorem name_into_local (name : CString) (port : Vector UInt8 2) (saddr : SockaddrIn6) (family : HevSocks5AddrFamily) :
    Local (hevSocks5NameIntoSockaddr6 name port saddr family) := by
  unfold hevSocks5NameIntoSockaddr6
  refine asks_bind (resolve_ipv4_local _ _) ?_
  rintro ⟨four,saddr⟩
  simp only
  split
  · trivial
  · refine asks_bind (resolve_ipv6_local _ _) ?_
    rintro ⟨six,saddr⟩
    simp only
    split
    · trivial
    · exact resolve_name_local _ _ _

theorem addr_into_local (addr : List UInt8) (saddr : SockaddrIn6) (family : HevSocks5AddrFamily) :
    Local (hevSocks5AddrIntoSockaddr6 addr saddr family) := by
  unfold hevSocks5AddrIntoSockaddr6
  dsimp only
  split
  · trivial
  split
  · trivial
  split
  · exact name_into_local _ _ _ _
  · trivial

theorem connect_local (self : HevSocks5Server rbtree) (addr : SockaddrIn6) : Local (hevSocks5ServerConnect self addr) := by
  unfold hevSocks5ServerConnect
  refine asks_ask id fun fd => ?_
  split
  · trivial
  refine asks_ask id fun res => ?_
  split
  · trivial
  refine asks_ask id fun res => ?_
  split <;> trivial

theorem udp_bind_local (self : HevSocks5Server rbtree) (sock : Int) (src : SockaddrIn6) :
    Local (hevSocks5ServerUdpBind self sock src) := by
  unfold hevSocks5ServerUdpBind
  refine asks_ask id fun own => ?_
  split
  · trivial
  refine asks_ask id fun res => ?_
  split
  · trivial
  refine asks_ask id fun bound => ?_
  split <;> trivial

theorem bind_local (self : HevSocks5Server rbtree) (addr : Option SockaddrIn6) : Local (hevSocks5ServerBind self addr) := by
  unfold hevSocks5ServerBind
  refine asks_ask id fun fd => ?_
  split
  · trivial
  dsimp only
  split
  · trivial
  refine asks_ask id fun fd => ?_
  split
  · trivial
  refine asks_ask id fun res => ?_
  split
  · trivial
  refine asks_bind (udp_bind_local _ _ _) ?_
  rintro ⟨res,src⟩
  simp only
  split <;> trivial

theorem serve_local (self : HevSocks5Server rbtree) (request : Request) : Local (hevSocks5ServerServe self request) := by
  unfold hevSocks5ServerServe
  split
  · trivial
  split
  · exact asks_bind (connect_local _ _) fun _ => trivial
  split
  · exact asks_bind (bind_local _ _) fun _ => trivial
  split
  · exact asks_bind (bind_local _ _) fun _ => trivial
  · trivial

theorem read_request_prepares (self : HevSocks5Server rbtree) (out : Request) : Prepares (hevSocks5ServerReadRequest self out) := by
  unfold hevSocks5ServerReadRequest
  refine inquires_recv fun res req => ?_
  simp only
  split
  · trivial
  split
  · split
    · trivial
    split
    · trivial
    · refine inquires_recv fun res addr => ?_
      simp only
      split
      · trivial
      · refine inquires_bind (asks_inquires (addr_into_local _ _ _)) ?_
        rintro ⟨res,saddr,family⟩
        simp only
        split <;> trivial
  · trivial

theorem into_cases (atype len : UInt8) (addr : List UInt8) (saddr : SockaddrIn6) (family : HevSocks5AddrFamily) :
    hevSocks5AddrIntoSockaddr6 (atype::len::addr) saddr family =
      if atype = addrTypeIpv4 then pure (0,hevSocks5Ipv4IntoSockaddr6 (atype::len::addr),.ipv4)
      else if atype = addrTypeIpv6 then pure (0,hevSocks5Ipv6IntoSockaddr6 (atype::len::addr),.ipv6)
      else if atype = addrTypeName then
        hevSocks5NameIntoSockaddr6 (cut (addr.take len.toNat)) (bytesAt (atype::len::addr) (2+len.toNat) 2) saddr family
      else pure (-1,saddr,family) := rfl

-- The bytes of a reply.
def response (rep : UInt8) (addr : SockaddrIn6) : List UInt8 := [version5,rep,0]++hevSocks5AddrFromSockaddr6 addr

theorem response_length (rep : UInt8) (addr : SockaddrIn6) :
    (response rep addr).length = if isV4Mapped addr.addr then 10 else 22 := by
  unfold response
  rw [List.length_append,from_sockaddr6_length]
  split <;> rfl

-- A request that has come whole.
theorem read_request_does (cmd rsv : UInt8) (length : requestLength atype len = some addr.length)
    (into : Does oracle turn (hevSocks5AddrIntoSockaddr6 (atype::len::addr) out.addr self.addrFamily) acts (res,saddr,family)) :
    Does oracle turn (hevSocks5ServerReadRequest self out) (.got 5 [version5,cmd,rsv,atype,len]::.got addr.length addr::acts)
      (if res < 0 then (0,{out with rep:=resRepAddr,addr:=saddr},self)
        else (0,{out with cmd:=cmd,addr:=saddr},{self with addrFamily:=family})) := by
  unfold hevSocks5ServerReadRequest
  refine does_recv rfl ?_
  simp only [Int.cast_ofNat_Int,ne_eq,not_true,if_false,length]
  refine does_recv rfl ?_
  simp only [not_true,if_false]
  rw [← List.append_nil acts]
  refine does_bind into ?_
  simp only
  split <;> exact .done

-- A system that gives what is asked for.
def obliging : Nat → (q : ServerQuery) → ServerAnswer q
  | _, .inetPton4 _ => none
  | _, .inetPton6 _ => none
  | _, .getaddrinfo _ _ => none
  | _, .getsockname _ => none
  | _, .socket _ => (3 : Int)
  | _, .binder _ _ => (0 : Int)
  | _, .connect _ _ => (0 : Int)
  | _, .reuseaddr _ => (0 : Int)
  | _, .bind _ _ => (0 : Int)
  | _, .tcpSplice _ => (0 : Int)
  | _, .udpSplice _ => (0 : Int)

end Psocks.Socks5
