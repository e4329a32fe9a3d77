import Psocks.Session.UdpSource
import Psocks.Socks5.Server

namespace Psocks.SessionUdp
open MappedDns Socks5 Utils
variable {os : Platform} {dns : Option (Dns os)} {ip : IpAddr} {saddr : SockaddrIn6}

-- Destinations that are told to the server by their address, and come back as that.
def Plain (dns : Option (Dns os)) (ip : IpAddr) : Prop :=
  match ip with
  | .v4 _ => mappedName dns ip = none
  | .v6 addr => isV4Mapped addr = false
  | .any => False

def ownFamily : IpAddr → HevSocks5AddrFamily
  | .v4 _ => .ipv4
  | .v6 _ => .ipv6
  | .any => .unspec

-- The encoding of an address without a name.
def encodedIp (ip : IpAddr) (port : BitVec 16) : List UInt8 :=
  match ip with
  | .v4 addr => addrTypeIpv4::be32 addr.toNat++be16 port.toNat
  | .v6 addr => addrTypeIpv6::addr.toList++be16 port.toNat
  | .any => []

-- The socket address it stands for.
def socketIp (ip : IpAddr) (port : BitVec 16) : SockaddrIn6 :=
  let port : Vector UInt8 2 := ⟨(be16 port.toNat).toArray,rfl⟩
  match ip with
  | .v4 addr => ⟨afInet6,port,v4Mapped ⟨(be32 addr.toNat).toArray,rfl⟩⟩
  | .v6 addr => ⟨afInet6,port,addr⟩
  | .any => ⟨0,port,.replicate 16 0⟩

theorem word_big_endian (v : BitVec 32) : bigEndian (be32 v.toNat) = v := by
  apply BitVec.eq_of_toNat_eq
  have narrow := v.isLt
  simp only [bigEndian,be32,List.foldl_cons,List.foldl_nil,BitVec.toNat_add,BitVec.toNat_mul,BitVec.toNat_ofNat,
    UInt8.toNat_ofNat',Nat.shiftRight_eq_div_pow,BitVec.ofNat_eq_ofNat]
  omega

theorem short_big_endian (v : BitVec 16) : bigEndian (be16 v.toNat) = v := by
  apply BitVec.eq_of_toNat_eq
  have narrow := v.isLt
  simp only [bigEndian,be16,List.foldl_cons,List.foldl_nil,BitVec.toNat_add,BitVec.toNat_mul,BitVec.toNat_ofNat,
    UInt8.toNat_ofNat',Nat.shiftRight_eq_div_pow,BitVec.ofNat_eq_ofNat]
  omega

theorem from_lwip_plain (plain : Plain dns ip) (memory : HevSocks5Addr) (port : BitVec 16) :
    ∃ addr later, hevSocks5AddrFromLwip dns memory ip port = some (0,addr,later) ∧
      addr.bytes = encodedIp ip port++memory.bytes.drop (encodedIp ip port).length := by
  cases ip with
  | any => cases plain
  | v6 addr => exact ⟨_,_,rfl,by rw [from_ipv6_bytes]; simp [encodedIp]⟩
  | v4 addr =>
    refine ⟨(hevSocks5AddrFromIpv4 memory addr port).1,dns.map fun self => (hevMappedDnsLookup self addr).2,?_,?_⟩
    · cases dns with
      | none => rfl
      | some self =>
        have unknown : (hevMappedDnsLookup self addr).1 = none := plain
        simp only [hevSocks5AddrFromLwip,unknown,Option.map_some]
    · rw [from_ipv4_bytes]
      rfl

theorem encoded_length (plain : Plain dns ip) (port : BitVec 16) (tail : List UInt8) :
    hevSocks5AddrLen (encodedIp ip port++tail) = some ((encodedIp ip port).length : Int) := by
  cases ip with
  | any => cases plain
  | v4 addr => rfl
  | v6 addr => simp [encodedIp,hevSocks5AddrLen,ipv6_not_ipv4]

theorem into_sockaddr6_encoded (plain : Plain dns ip) (port : BitVec 16) (tail : List UInt8) (saddr : SockaddrIn6)
    (family : HevSocks5AddrFamily) :
    hevSocks5AddrIntoSockaddr6 (encodedIp ip port++tail) saddr family = pure (0,socketIp ip port,ownFamily ip) := by
  cases ip with
  | any => cases plain
  | v4 addr => rfl
  | v6 addr =>
    have layout : encodedIp (.v6 addr) port++tail = addrTypeIpv6::(addr.toList++(be16 port.toNat++tail)) := by simp [encodedIp]
    have host : bytesAt ([addrTypeIpv6]++(addr.toList++(be16 port.toNat++tail))) 1 16 = addr := bytes_at_front rfl
    have last : bytesAt ((addrTypeIpv6::addr.toList)++((⟨(be16 port.toNat).toArray,rfl⟩ : Vector UInt8 2).toList++tail)) 17 2 =
        ⟨(be16 port.toNat).toArray,rfl⟩ := by
      apply bytes_at_front
      simp
    rw [layout,hevSocks5AddrIntoSockaddr6]
    simp only [List.getD_cons_zero,if_neg ipv6_not_ipv4,if_true]
    exact congrArg₂ (fun p a => pure (0,(⟨afInet6,p,a⟩ : SockaddrIn6),HevSocks5AddrFamily.ipv6)) last host

theorem from_sockaddr6_socket (plain : Plain dns ip) (port : BitVec 16) :
    hevSocks5AddrFromSockaddr6 (socketIp ip port) = encodedIp ip port := by
  cases ip with
  | any => cases plain
  | v4 addr => rfl
  | v6 addr =>
    have other : isV4Mapped addr = false := plain
    simp only [hevSocks5AddrFromSockaddr6,socketIp,other,Bool.false_eq_true,if_false]
    rfl

theorem into_lwip_encoded (plain : Plain dns ip) (port : BitVec 16) (tail : List UInt8) :
    hevSocks5AddrIntoLwip (encodedIp ip port++tail) = some (ip,port) := by
  cases ip with
  | any => cases plain
  | v4 addr =>
    have host : bigEndian (be32 addr.toNat) = addr := word_big_endian addr
    have last : bigEndian (be16 port.toNat) = port := short_big_endian port
    have first : (encodedIp (.v4 addr) port++tail)[0]? = some addrTypeIpv4 := rfl
    simp only [hevSocks5AddrIntoLwip,if_pos first]
    exact congrArg₂ (fun a p => some (IpAddr.v4 a,p)) host last
  | v6 addr =>
    have host : bytesAt ([addrTypeIpv6]++(addr.toList++(be16 port.toNat++tail))) 1 16 = addr := bytes_at_front rfl
    have layout : encodedIp (.v6 addr) port++tail = [addrTypeIpv6]++(addr.toList++(be16 port.toNat++tail)) := by simp [encodedIp]
    have last : ((encodedIp (.v6 addr) port++tail).drop 17).take 2 = be16 port.toNat := by
      rw [layout,← List.append_assoc,List.drop_left' (by simp)]
      rfl
    have first : (encodedIp (.v6 addr) port++tail)[0]? = some addrTypeIpv6 := rfl
    have other : ¬some addrTypeIpv6 = some addrTypeIpv4 := by decide
    simp only [hevSocks5AddrIntoLwip,first,last,short_big_endian,if_neg other,if_true]
    rw [layout]
    exact congrArg (fun a => some (IpAddr.v6 a,port)) host

-- From the application's packet to the socket the server sends to, and from that socket
-- back to the application. What lies behind an encoding in memory does not matter.
structure Returning (dns : Option (Dns os)) (ip : IpAddr) (port : BitVec 16) (sent : List UInt8) (s : SockaddrIn6) :
    Prop where
  encodes : ∀ memory, ∃ addr later, hevSocks5AddrFromLwip dns memory ip port = some (0,addr,later) ∧
    addr.bytes = sent++memory.bytes.drop sent.length
  measures : ∀ tail, hevSocks5AddrLen (sent++tail) = some (sent.length : Int)
  resolves : ∀ tail saddr family, hevSocks5AddrIntoSockaddr6 (sent++tail) saddr family = pure (0,s,ownFamily ip)
  reply : ∀ tail, hevSocks5AddrLen (hevSocks5AddrFromSockaddr6 s++tail) = some ((hevSocks5AddrFromSockaddr6 s).length : Int)
  decodes : ∀ tail, hevSocks5AddrIntoLwip (hevSocks5AddrFromSockaddr6 s++tail) = some (ip,port)

theorem relay_address_returns (plain : Plain dns ip) (port : BitVec 16) : ∃ sent s, Returning dns ip port sent s := by
  have replied := from_sockaddr6_socket plain port
  refine ⟨encodedIp ip port,socketIp ip port,?_,?_,?_,?_,?_⟩
  · exact fun memory => from_lwip_plain plain memory port
  · exact fun tail => encoded_length plain port tail
  · exact fun tail saddr family => into_sockaddr6_encoded plain port tail saddr family
  · rw [replied]
    exact fun tail => encoded_length plain port tail
  · rw [replied]
    exact fun tail => into_lwip_encoded plain port tail

-- ::1.2.3.4
def compatible : Vector UInt8 16 := #v[0,0,0,0,0,0,0,0,0,0,0,0,1,2,3,4]

theorem special_addresses_return : (∃ sent s, Returning (none : Option (Dns .plain)) (.v4 0) 0 sent s) ∧
    ∃ sent s, Returning (none : Option (Dns .plain)) (.v6 compatible) 65535 sent s :=
  ⟨@relay_address_returns .plain none (.v4 0) rfl 0,
    @relay_address_returns .plain none (.v6 compatible) (show isV4Mapped compatible = false by decide) 65535⟩

end Psocks.SessionUdp
