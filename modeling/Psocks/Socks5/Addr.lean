import Psocks.Lib.Bytes
import Psocks.Lib.CString

namespace Psocks.Socks5
variable {name : CString}

def addrTypeIpv4 : UInt8 := 1
def addrTypeName : UInt8 := 3
def addrTypeIpv6 : UInt8 := 4

theorem ipv6_not_ipv4 : ¬addrTypeIpv6 = addrTypeIpv4 := by decide
theorem name_not_ipv4 : ¬addrTypeName = addrTypeIpv4 := by decide
theorem name_not_ipv6 : ¬addrTypeName = addrTypeIpv6 := by decide

-- The memory of one `HevSocks5Addr`. The structure is packed: `atype` is byte 0,
-- `domain.len` byte 1 and `domain.addr` the 258 bytes from 2 on.
structure HevSocks5Addr where
  bytes : List UInt8
  size : bytes.length = 260
deriving DecidableEq

def HevSocks5Addr.zero : HevSocks5Addr := ⟨List.replicate 260 0,List.length_replicate⟩

-- `none`: `atype` or `domain.len` is outside the memory `addr` points at.
def hevSocks5AddrLen (addr : List UInt8) : Option Int := do
  let atype ← addr[0]?
  if atype = addrTypeIpv4 then pure 7
  else if atype = addrTypeIpv6 then pure 19
  else if atype = addrTypeName then addr[1]?.map fun len => 4+(len.toNat : Int)
  else pure (-1)

def HevSocks5Addr.put (addr : HevSocks5Addr) (off : Nat) (bs : List UInt8) (inside : off+bs.length ≤ 260) :
    HevSocks5Addr :=
  ⟨overwrite addr.bytes off bs,by rw [overwrite_length (by have := addr.size; omega),addr.size]⟩

-- `strncpy` pads with zeroes and adds no terminator of its own.
def strncpy (name : CString) (n : Nat) : List UInt8 := (name.bytes++List.replicate n 0).take n

theorem strncpy_length : (strncpy name n).length = n := by
  simp only [strncpy,List.length_take,List.length_append,List.length_replicate]
  omega

def HevSocks5Addr.copyName (addr : HevSocks5Addr) (name : CString) : HevSocks5Addr :=
  (addr.put 0 [addrTypeName] (by simp)).put 2 (strncpy name 256) (by rw [strncpy_length]; omega)

def HevSocks5Addr.closeName (addr : HevSocks5Addr) (len : UInt8) (port : BitVec 16) : HevSocks5Addr :=
  (addr.put 1 [len] (by simp)).put (2+len.toNat) (be16 port.toNat) (by have := len.toNat_lt; rw [be16_length]; omega)

-- `port` is the value in host order; it is stored in network order. `none`: the
-- `strlen` runs past the structure.
def hevSocks5AddrFromName (addr : HevSocks5Addr) (name : CString) (port : BitVec 16) : Option (HevSocks5Addr × Int) := do
  let addr := addr.copyName name
  let text ← cstrAt addr.bytes 2
  let len := UInt8.ofNat text.bytes.length
  pure (addr.closeName len port,4+(len.toNat : Int))

def hevSocks5AddrFromIpv4 (addr : HevSocks5Addr) (ipv4 : BitVec 32) (port : BitVec 16) : HevSocks5Addr × Int :=
  let addr := (addr.put 0 [addrTypeIpv4] (by simp)).put 1 (be32 ipv4.toNat) (by simp)
  (addr.put 5 (be16 port.toNat) (by simp),7)

def hevSocks5AddrFromIpv6 (addr : HevSocks5Addr) (ipv6 : Vector UInt8 16) (port : BitVec 16) : HevSocks5Addr × Int :=
  let addr := (addr.put 0 [addrTypeIpv6] (by simp)).put 1 ipv6.toList (by simp)
  (addr.put 17 (be16 port.toNat) (by simp),19)

theorem from_ipv4_bytes : (hevSocks5AddrFromIpv4 addr ipv4 port).1.bytes =
    addrTypeIpv4::be32 ipv4.toNat++be16 port.toNat++addr.bytes.drop 7 := by
  have size := addr.size
  simp [hevSocks5AddrFromIpv4,HevSocks5Addr.put,overwrite,be32,be16]

theorem from_ipv6_bytes : (hevSocks5AddrFromIpv6 addr ipv6 port).1.bytes =
    addrTypeIpv6::ipv6.toList++be16 port.toNat++addr.bytes.drop 19 := by
  obtain ⟨bytes,size⟩ := addr
  have front : (overwrite bytes 0 [addrTypeIpv6]) = addrTypeIpv6::bytes.drop 1 := by simp [overwrite]
  have middle : overwrite (addrTypeIpv6::bytes.drop 1) 1 ipv6.toList = addrTypeIpv6::ipv6.toList++bytes.drop 17 := by
    simp [overwrite,Nat.add_comm]
  simp only [hevSocks5AddrFromIpv6,HevSocks5Addr.put,front,middle]
  have split : bytes.drop 17 = (bytes.drop 17).take 2++bytes.drop 19 := by
    have parts := (List.take_append_drop 2 (bytes.drop 17)).symm
    rwa [List.drop_drop] at parts
  rw [split,← List.append_assoc]
  exact overwrite_append (by simp) (by simp; omega)

theorem addr_len_pair {atype len : UInt8} {tail : List UInt8} :
    hevSocks5AddrLen (atype::len::tail) = some (if atype = addrTypeIpv4 then 7 else if atype = addrTypeIpv6 then 19
      else if atype = addrTypeName then 4+(len.toNat : Int) else -1) := by
  simp only [hevSocks5AddrLen,List.getElem?_cons_zero,List.getElem?_cons_succ,bind,Option.bind,pure,Option.map_some]
  split
  · rfl
  · split
    · rfl
    · split <;> rfl

-- `sin6_port` is in network order.
structure SockaddrIn6 where
  family : BitVec 16
  port : Vector UInt8 2
  addr : Vector UInt8 16
deriving DecidableEq

def afInet6 : BitVec 16 := 10

inductive HevSocks5AddrFamily where
  | unspec
  | ipv4
  | ipv6
deriving DecidableEq, Repr

-- `s6_addr` of an IPv4 address.
def v4Mapped (ipv4 : Vector UInt8 4) : Vector UInt8 16 :=
  ⟨(List.replicate 10 0++[0xff,0xff]++ipv4.toList).toArray,by simp⟩

-- `IN6_IS_ADDR_V4MAPPED`
def isV4Mapped (addr : Vector UInt8 16) : Bool := addr.toList.take 12 == List.replicate 10 0++[0xff,0xff]

-- The bytes that are filled in, as many as it returns.
def hevSocks5AddrFromSockaddr6 (saddr : SockaddrIn6) : List UInt8 :=
  if isV4Mapped saddr.addr then addrTypeIpv4::saddr.addr.toList.drop 12++saddr.port.toList
  else addrTypeIpv6::saddr.addr.toList++saddr.port.toList

theorem from_sockaddr6_length (saddr : SockaddrIn6) :
    (hevSocks5AddrFromSockaddr6 saddr).length = if isV4Mapped saddr.addr then 7 else 19 := by
  unfold hevSocks5AddrFromSockaddr6
  split <;> simp

inductive HevSocks5Type where
  | none
  | tcp
  | udpInTcp
  | udpInUdp
deriving DecidableEq, Repr

def version5 : UInt8 := 5
def authVersion1 : UInt8 := 1
def authMethodNone : UInt8 := 0
def authMethodUser : UInt8 := 2
def reqCmdConnect : UInt8 := 1
def reqCmdUdpAsc : UInt8 := 3
def reqCmdFwdUdp : UInt8 := 5
def resRepSucc : UInt8 := 0
def resRepFail : UInt8 := 1
def resRepHost : UInt8 := 4
def resRepImpl : UInt8 := 7
def resRepAddr : UInt8 := 8

-- hev_socks5_get_connect_timeout, hev_socks5_get_tcp_timeout, hev_socks5_get_udp_timeout.
structure Timeouts where
  connect : Int
  tcp : Int
  udp : Int

inductive HevTaskYieldType where
  | yield
  | waitio
deriving DecidableEq, Repr

-- `left` is what is left on the timer when the task runs again; without time to sleep
-- it is not stopped at all.
def hevTaskSleep (milliseconds left : Nat) : Nat := if milliseconds = 0 then 0 else min left milliseconds

-- The result, and whether the task stops for I/O.
def hevSocks5TaskIoYielder (type : HevTaskYieldType) (timeout : Int) (left : Nat) : Int × Bool :=
  match type with
  | .yield => (0,false)
  | .waitio =>
    if timeout < 0 then (0,true)
    else if hevTaskSleep timeout.toNat left = 0 then (-1,decide (0 < timeout))
    else (0,true)

theorem yielder_stopped (left : Nat) : hevSocks5TaskIoYielder .waitio 0 left = (-1,false) := rfl

end Psocks.Socks5
