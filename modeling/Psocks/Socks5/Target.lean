import Psocks.Socks5.ServerRequest

namespace Psocks.Socks5
open Program
variable {oracle : Nat → (q : ServerQuery) → ServerAnswer q} {turn : Nat}

-- Where a client wants to go; the port is in network order.
inductive Target where
  | ipv4 (addr : Vector UInt8 4) (port : Vector UInt8 2)
  | ipv6 (addr : Vector UInt8 16) (port : Vector UInt8 2)
  | name (host : CString) (port : Vector UInt8 2)

-- The bytes of a HevSocks5Addr that are in use.
def Target.bytes : Target → List UInt8
  | .ipv4 addr port => addrTypeIpv4::addr.toList++port.toList
  | .ipv6 addr port => addrTypeIpv6::addr.toList++port.toList
  | .name host port => addrTypeName::UInt8.ofNat host.bytes.length::host.bytes++port.toList

def Target.Fits : Target → Prop
  | .name host _ => 0 < host.bytes.length ∧ host.bytes.length < 256
  | _ => True

-- The socket address of a target; a name is resolved.
def Target.into (target : Target) (saddr : SockaddrIn6) (family : HevSocks5AddrFamily) :
    ServerProg (Int × SockaddrIn6 × HevSocks5AddrFamily) :=
  match target with
  | .ipv4 addr port => pure (0,⟨afInet6,port,v4Mapped addr⟩,.ipv4)
  | .ipv6 addr port => pure (0,⟨afInet6,port,addr⟩,.ipv6)
  | .name host port => hevSocks5NameIntoSockaddr6 host port saddr family

theorem bytes_at {n off : Nat} (before : List UInt8) (bs : Vector UInt8 n) (after : List UInt8) (left : off = before.length) :
    bytesAt (before++bs.toList++after) off n = bs := by
  subst left
  refine Vector.ext fun i inside => ?_
  rw [bytesAt,Vector.getElem_ofFn,List.append_assoc]
  simp [List.getElem?_append_right,List.getElem?_append_left,inside]

theorem bytes_at_end {n off : Nat} (before : List UInt8) (bs : Vector UInt8 n) (left : off = before.length) :
    bytesAt (before++bs.toList) off n = bs := by
  have read := bytes_at before bs [] left
  rwa [List.append_nil] at read

theorem into_local (target : Target) (saddr : SockaddrIn6) (family : HevSocks5AddrFamily) : Local (target.into saddr family) := by
  cases target with
  | ipv4 addr port => trivial
  | ipv6 addr port => trivial
  | name host port => exact name_into_local _ _ _ _

theorem ipv4_read (addr : Vector UInt8 4) (port : Vector UInt8 2) :
    hevSocks5Ipv4IntoSockaddr6 (Target.ipv4 addr port).bytes = ⟨afInet6,port,v4Mapped addr⟩ := by
  unfold hevSocks5Ipv4IntoSockaddr6 Target.bytes
  have host : bytesAt (addrTypeIpv4::addr.toList++port.toList) 1 4 = addr := bytes_at [addrTypeIpv4] addr port.toList rfl
  rw [host,bytes_at_end _ port (by simp)]

theorem ipv6_read (addr : Vector UInt8 16) (port : Vector UInt8 2) :
    hevSocks5Ipv6IntoSockaddr6 (Target.ipv6 addr port).bytes = ⟨afInet6,port,addr⟩ := by
  unfold hevSocks5Ipv6IntoSockaddr6 Target.bytes
  have host : bytesAt (addrTypeIpv6::addr.toList++port.toList) 1 16 = addr := bytes_at [addrTypeIpv6] addr port.toList rfl
  rw [host,bytes_at_end _ port (by simp)]

-- The request reads the target that was written.
theorem target_request (target : Target) (fits : target.Fits) : ∃ atype len addr, target.bytes = atype::len::addr ∧
    requestLength atype len = some addr.length ∧
    ∀ saddr family, hevSocks5AddrIntoSockaddr6 (atype::len::addr) saddr family = target.into saddr family := by
  cases target with
  | ipv4 addr port =>
    obtain ⟨first,rest,data⟩ : ∃ first rest, addr.toList = first::rest := List.exists_cons_of_length_pos (by simp)
    have layout : (Target.ipv4 addr port).bytes = addrTypeIpv4::first::(rest++port.toList) := by
      rw [Target.bytes,data]
      rfl
    have size : (rest++port.toList).length = 5 := by
      have four := congrArg List.length data
      simp only [Vector.length_toList,List.length_cons,List.length_append] at four ⊢
      omega
    refine ⟨addrTypeIpv4,first,rest++port.toList,layout,by rw [size]; rfl,fun saddr family => ?_⟩
    rw [into_cases,if_pos rfl,← layout,ipv4_read]
    rfl
  | ipv6 addr port =>
    obtain ⟨first,rest,data⟩ : ∃ first rest, addr.toList = first::rest := List.exists_cons_of_length_pos (by simp)
    have layout : (Target.ipv6 addr port).bytes = addrTypeIpv6::first::(rest++port.toList) := by
      rw [Target.bytes,data]
      rfl
    have size : (rest++port.toList).length = 17 := by
      have sixteen := congrArg List.length data
      simp only [Vector.length_toList,List.length_cons,List.length_append] at sixteen ⊢
      omega
    refine ⟨addrTypeIpv6,first,rest++port.toList,layout,by rw [size]; rfl,fun saddr family => ?_⟩
    rw [into_cases,if_neg ipv6_not_ipv4,if_pos rfl,← layout,ipv6_read]
    rfl
  | name host port =>
    obtain ⟨some_,narrow⟩ := fits
    have count : (UInt8.ofNat host.bytes.length).toNat = host.bytes.length := UInt8.toNat_ofNat_of_lt' narrow
    refine ⟨addrTypeName,UInt8.ofNat host.bytes.length,host.bytes++port.toList,rfl,?_,fun saddr family => ?_⟩
    · rw [requestLength,if_neg name_not_ipv4,if_neg name_not_ipv6,if_pos rfl,count]
      simp [Nat.add_comm]
    · have text : cut ((host.bytes++port.toList).take host.bytes.length) = host := by
        rw [List.take_left]
        exact CString.ext (cut_clean host.clean)
      have last : bytesAt (addrTypeName::UInt8.ofNat host.bytes.length::(host.bytes++port.toList)) (2+host.bytes.length) 2 = port :=
        bytes_at_end (addrTypeName::UInt8.ofNat host.bytes.length::host.bytes) port (by simp; omega)
      rw [into_cases,if_neg name_not_ipv4,if_neg name_not_ipv6,if_pos rfl,count,text,last]
      rfl

end Psocks.Socks5
