import Psocks.Socks5.UdpStream

namespace Psocks.Socks5
open Vectored Psocks.Task
variable {nonblock : Bool} {inlet next after : Inlet} {body mem filled tail later : List UInt8}
  {done msgv : List HevSocks5UdpMsg} {atype len : UInt8} {res : Int} {msg : Outgoing} {msgs : List Outgoing}

def Outgoing.addrLen (msg : Outgoing) : Nat := ((hevSocks5AddrLen msg.addr.bytes).getD (-1)).toNat

-- An address of one of the three types, and a slot of the receiver holds the message.
def Fits (msg : Outgoing) : Prop := 0 < msg.addrLen ∧ msg.addrLen+msg.data.length ≤ udpBufSize

-- A domain of at most 248 bytes, if the address is a NAME.
def ShortName (msg : Outgoing) : Prop :=
  msg.addr.bytes[0]? = some addrTypeName → ∀ len, msg.addr.bytes[1]? = some len → len.toNat ≤ 248

-- The three bytes in front of the address, and the first two of the address.
def Outgoing.high (msg : Outgoing) : UInt8 := UInt8.ofNat (msg.data.length >>> 8)

def Outgoing.low (msg : Outgoing) : UInt8 := UInt8.ofNat msg.data.length

def Outgoing.hdrlen (msg : Outgoing) : UInt8 := UInt8.ofNat (3+msg.addrLen)

theorem addr_split (addr : HevSocks5Addr) : ∃ atype len rest, addr.bytes = atype::len::rest ∧ rest.length = 258 := by
  obtain ⟨bytes,size⟩ := addr
  match bytes,size with
  | atype::len::rest,size => exact ⟨atype,len,rest,rfl,by simpa using size⟩

theorem addr_len_value (positive : 0 < msg.addrLen) :
    hevSocks5AddrLen msg.addr.bytes = some (msg.addrLen : Int) ∧ 4 ≤ msg.addrLen ∧ msg.addrLen ≤ 259 ∧
      (msg.addrLen ≤ 252 ↔ ShortName msg) := by
  obtain ⟨atype,len,tail,layout,_⟩ := addr_split msg.addr
  have narrow := len.toNat_lt
  have short : ShortName msg ↔ (atype = addrTypeName → len.toNat ≤ 248) := by
    rw [ShortName,layout]
    simp
  rw [short]
  unfold Outgoing.addrLen at positive ⊢
  rw [layout,addr_len_pair,Option.getD_some] at positive ⊢
  split at positive
  · rename_i v4
    rw [if_pos v4]
    refine ⟨rfl,by decide,by decide,fun _ name => ?_,fun _ => by decide⟩
    rw [v4] at name
    cases name
  · rename_i not_v4
    rw [if_neg not_v4]
    split at positive
    · rename_i v6
      rw [if_pos v6]
      refine ⟨rfl,by decide,by decide,fun _ name => ?_,fun _ => by decide⟩
      rw [v6] at name
      cases name
    · rename_i not_v6
      rw [if_neg not_v6]
      split at positive
      · rename_i name
        rw [if_pos name]
        refine ⟨by congr 1,by omega,by omega,fun small _ => by omega,fun short => ?_⟩
        have := short name
        omega
      · cases positive

-- The message is in the slot as it was sent: the address that `addr` points at, by its
-- own type and length, and the payload.
structure Carried (msg : Outgoing) (got : HevSocks5UdpMsg) : Prop where
  address : ∃ off, got.addr = .inside off ∧ hevSocks5AddrLen (got.mem.drop off) = hevSocks5AddrLen msg.addr.bytes ∧
    (got.mem.drop off).take msg.addrLen = msg.addr.bytes.take msg.addrLen
  payload : got.payload = msg.data
  size : got.len = msg.data.length

def blank : Vector UInt8 1500 := Vector.replicate 1500 0

def nameMessage (n : Nat) (small : n ≤ 255) (data : List UInt8) : Outgoing :=
  ⟨⟨addrTypeName::UInt8.ofNat n::List.replicate n 97++List.replicate (258-n) 0,by simp; omega⟩,data⟩

def ipv4Message (data : List UInt8) : Outgoing :=
  ⟨(hevSocks5AddrFromIpv4 .zero 0x01020304 53).1,data⟩

end Psocks.Socks5
