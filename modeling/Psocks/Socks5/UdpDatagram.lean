import Psocks.Socks5.Addr
import Psocks.Socks5.Udp

namespace Psocks.Socks5
variable {mem : List UInt8} {stack : List (Vector UInt8 1500)} {msg filled : HevSocks5UdpMsg}
  {msgv done : List HevSocks5UdpMsg}

-- The three pieces of one message; `datlen` and `hdrlen` are zero. `none`: the type of
-- the address is unknown.
def datagramPieces (msg : Outgoing) : Option (List (List UInt8)) := do
  let addrlen ← hevSocks5AddrLen msg.addr.bytes
  if addrlen ≤ 0 then none
  else some [[0,0,0],msg.addr.bytes.take addrlen.toNat,msg.data]

-- The messages hev_socks5_udp_sendmmsg_udp gives to the socket.
def datagramBatch : List Outgoing → Option (List (List UInt8))
  | [] => some []
  | msg::rest => do
    let pieces ← datagramPieces msg
    let later ← datagramBatch rest
    pure (pieces.flatten::later)

def encodeDatagram (msg : Outgoing) : List UInt8 := ((datagramPieces msg).getD []).flatten

theorem datagram_batch {ds : List (List UInt8)} (built : datagramBatch msgs = some ds) : ds = msgs.map encodeDatagram := by
  induction msgs generalizing ds with
  | nil => cases built; rfl
  | cons msg rest ih =>
    obtain ⟨pieces,one,step⟩ := Option.bind_eq_some_iff.mp built
    obtain ⟨later,all,same⟩ := Option.bind_eq_some_iff.mp step
    cases same
    rw [List.map_cons,encodeDatagram,one,Option.getD_some,ih all]

-- A datagram at the socket.
structure Datagram where
  data : List UInt8
  source : SockaddrIn6
deriving DecidableEq

variable {d : Datagram} {ds : List Datagram}

-- What one recvmmsg(2) that may not wait brings: datagrams, or an error.
inductive Arrival where
  | batch (datagrams : List Datagram)
  | failed (errno : Nat)

-- One turn of the last loop. The kernel has put the datagram into the slot, cut at its
-- size; the length of the address is read behind the end of a datagram that is too
-- short for it. `none`: the batch is given up.
def unpackDatagram (msg : HevSocks5UdpMsg) (d : Datagram) : Option HevSocks5UdpMsg :=
  let data := d.data.take msg.len
  let mem := overwrite msg.mem msg.buf data
  if data.length < 4 then some ⟨mem,.null,msg.buf,0⟩
  else do
    let addrlen ← hevSocks5AddrLen (mem.drop (msg.buf+3))
    if addrlen ≤ 0 then none
    else
      let doff := 3+addrlen.toNat
      if data.length < doff then none
      else some ⟨mem,.inside (msg.buf+3),msg.buf+doff,data.length-doff⟩

def unpackBatch : List HevSocks5UdpMsg → List Datagram → Option (List HevSocks5UdpMsg)
  | msg::msgv, d::ds => do
    let filled ← unpackDatagram msg d
    let later ← unpackBatch msgv ds
    pure (filled::later)
  | msgv, _ => some msgv

-- `peer` is the address the socket is connected to, if `udp_associated` is set.
structure Received where
  res : Int
  msgv : List HevSocks5UdpMsg
  peer : Option SockaddrIn6
  errno : Nat

-- Only the first message is given room for a source. `connects` is the answer of connect(2).
def hevSocks5UdpRecvmmsgUdp (msgv : List HevSocks5UdpMsg) (peer : Option SockaddrIn6) (connects : Bool) (errno : Nat) :
    Arrival → Received
  | .failed errno => ⟨-1,msgv,peer,errno⟩
  | .batch [] => ⟨0,msgv,peer,errno⟩
  | .batch (first::later) =>
    if peer = none ∧ connects = false then ⟨-1,msgv,none,errno⟩
    else
      let peer := peer.getD first.source
      match unpackBatch msgv (first::later) with
      | none => ⟨-1,msgv,some peer,errno⟩
      | some filled => ⟨(first::later).length,filled,some peer,errno⟩

-- What a complete header leaves of a datagram.
def datagramPayload (data : List UInt8) : Option (List UInt8) := do
  let addrlen ← hevSocks5AddrLen (data.drop 3)
  if 0 < addrlen ∧ 3+addrlen.toNat ≤ data.length then some (data.drop (3+addrlen.toNat)) else none

-- For such a datagram the whole batch is given up.
def Refused (d : Datagram) : Prop := 4 ≤ d.data.length ∧ datagramPayload d.data = none

-- What a slot holds of its datagram.
def Unpacked (d : Datagram) (msg : HevSocks5UdpMsg) : Prop :=
  if d.data.length < 4 then msg.addr = .null ∧ msg.payload = []
  else msg.addr = .inside 3 ∧ (msg.mem.drop 3)[0]? = d.data[3]? ∧ datagramPayload d.data = some msg.payload

theorem addr_len_same (known : atype ≠ addrTypeName ∨ rest ≠ []) (tail : List UInt8) :
    hevSocks5AddrLen (atype::(rest++tail)) = hevSocks5AddrLen (atype::rest) := by
  unfold hevSocks5AddrLen
  cases rest with
  | nil =>
    have other : atype ≠ addrTypeName := known.resolve_right fun some_of => some_of rfl
    simp [other]
  | cons len rest => rfl

theorem payload_short (short : d.data.length < 4) : datagramPayload d.data = none := by
  have nothing : d.data.drop 3 = [] := List.drop_of_length_le (by omega)
  simp [datagramPayload,nothing,hevSocks5AddrLen]

-- The length of a name that is not there is read from what the slot held before; the
-- datagram is too short for any.
theorem unpack_long (fits : d.data.length ≤ udpBufSize) (long : 4 ≤ d.data.length) :
    (unpackDatagram (freshSlot mem) d).map HevSocks5UdpMsg.payload = datagramPayload d.data ∧
      ∀ msg, unpackDatagram (freshSlot mem) d = some msg → msg.addr = .inside 3 ∧ (msg.mem.drop 3)[0]? = d.data[3]? := by
  obtain ⟨data,source⟩ := d
  match data, long with
  | a::b::c::atype::rest, _ =>
    have whole : (a::b::c::atype::rest).take udpBufSize = a::b::c::atype::rest := List.take_of_length_le fits
    generalize held : mem.drop (a::b::c::atype::rest).length = tail
    have filled : overwrite mem 0 (a::b::c::atype::rest) = a::b::c::atype::(rest++tail) := by
      simp [overwrite,← held]
    have long : ¬(a::b::c::atype::rest).length < 4 := by simp
    simp only [unpackDatagram,freshSlot,whole,filled,if_neg long,datagramPayload,List.drop_succ_cons,List.drop_zero,Nat.zero_add]
    by_cases known : atype ≠ addrTypeName ∨ rest ≠ []
    · rw [addr_len_same known]
      cases hevSocks5AddrLen (atype::rest) with
      | none => exact ⟨rfl,fun msg same => by cases same⟩
      | some addrlen =>
        simp only [bind,Option.bind]
        by_cases empty : addrlen ≤ 0
        · rw [if_pos empty,if_neg fun inside => absurd inside.1 (by omega)]
          exact ⟨rfl,fun msg same => by cases same⟩
        by_cases cut : (a::b::c::atype::rest).length < 3+addrlen.toNat
        · rw [if_neg empty,if_pos cut,if_neg fun inside => absurd inside.2 (by omega)]
          exact ⟨rfl,fun msg same => by cases same⟩
        · rw [if_neg empty,if_neg cut,if_pos ⟨by omega,by omega⟩]
          refine ⟨?_,?_⟩
          · have front : ((a::b::c::atype::rest)++tail).drop (3+addrlen.toNat) =
                (a::b::c::atype::rest).drop (3+addrlen.toNat)++tail := List.drop_append_of_le_length (by omega)
            simp only [List.cons_append] at front
            simp only [Option.map_some,HevSocks5UdpMsg.payload,front]
            rw [List.take_left' (by rw [List.length_drop])]
          · intro msg same
            cases same
            exact ⟨rfl,rfl⟩
    · have named : atype = addrTypeName := by_contra fun other => known (.inl other)
      have bare : rest = [] := by_contra fun more => known (.inr more)
      subst named bare
      have name : hevSocks5AddrLen [addrTypeName] = none := rfl
      rw [name]
      cases tail with
      | nil => exact ⟨rfl,fun msg same => by cases same⟩
      | cons len tail =>
        have width : hevSocks5AddrLen (addrTypeName::([]++len::tail)) = some (4+(len.toNat : Int)) := rfl
        rw [width]
        simp only [bind,Option.bind]
        rw [if_neg (by omega),if_pos (by simp only [List.length_cons,List.length_nil]; omega)]
        exact ⟨rfl,fun msg same => by cases same⟩


theorem unpack_datagram (mem : List UInt8) (fits : d.data.length ≤ udpBufSize) :
    (unpackDatagram (freshSlot mem) d = none ↔ Refused d) ∧
      ∀ msg, unpackDatagram (freshSlot mem) d = some msg → Unpacked d msg := by
  have whole : d.data.take udpBufSize = d.data := List.take_of_length_le fits
  by_cases short : d.data.length < 4
  · have cut : unpackDatagram (freshSlot mem) d = some ⟨overwrite mem 0 d.data,.null,0,0⟩ := by
      simp only [unpackDatagram,freshSlot,whole,if_pos short]
    rw [cut]
    refine ⟨⟨fun same => (by cases same),fun refused => absurd refused.1 (by omega)⟩,?_⟩
    intro msg same
    cases same
    rw [Unpacked,if_pos short]
    exact ⟨rfl,rfl⟩
  · obtain ⟨payload,where_⟩ := unpack_long fits (Nat.not_lt.mp short)
    constructor
    · rw [Refused,← payload,Option.map_eq_none_iff]
      exact ⟨fun given => ⟨Nat.not_lt.mp short,given⟩,And.right⟩
    · intro msg same
      obtain ⟨addr,atype⟩ := where_ msg same
      rw [same] at payload
      rw [Unpacked,if_neg short]
      exact ⟨addr,atype,payload.symm⟩

theorem unpack_batch (fits : ∀ d ∈ ds, d.data.length ≤ udpBufSize) (room : ds.length ≤ stack.length) :
    (unpackBatch (slots stack) ds = none ↔ ∃ d ∈ ds, Refused d) ∧
      ∀ msgv, unpackBatch (slots stack) ds = some msgv → List.Forall₂ Unpacked ds (msgv.take ds.length) := by
  induction ds generalizing stack with
  | nil =>
    cases stack with
    | nil => exact ⟨by simp [slots,unpackBatch],fun _ _ => .nil⟩
    | cons mem stack => exact ⟨by simp [slots,unpackBatch],fun _ _ => .nil⟩
  | cons d ds ih =>
    cases stack with
    | nil => cases room
    | cons mem stack =>
      obtain ⟨refused,one⟩ := unpack_datagram mem.toList (fits d List.mem_cons_self)
      obtain ⟨given,others⟩ := @ih stack (fun x member => fits x (List.mem_cons_of_mem _ member))
        (Nat.le_of_succ_le_succ room)
      have cut : unpackBatch (slots (mem::stack)) (d::ds) = (unpackDatagram (freshSlot mem.toList) d).bind fun filled =>
        (unpackBatch (slots stack) ds).map (filled::·) := by
        simp only [slots,List.map_cons,unpackBatch,bind,Option.bind]
        cases unpackDatagram (freshSlot mem.toList) d with
        | none => rfl
        | some filled => cases unpackBatch (stack.map fun mem => freshSlot mem.toList) ds <;> rfl
      rw [cut]
      cases first : unpackDatagram (freshSlot mem.toList) d with
      | none => exact ⟨⟨fun _ => ⟨d,List.mem_cons_self,refused.mp first⟩,fun _ => rfl⟩,fun msgv same => by cases same⟩
      | some filled =>
        have kept : ¬Refused d := fun wrong => by rw [refused.mpr wrong] at first; cases first
        rw [Option.bind_some,Option.map_eq_none_iff,given]
        refine ⟨by simp [kept],?_⟩
        intro msgv same
        obtain ⟨later,rest,rfl⟩ := Option.map_eq_some_iff.mp same
        exact .cons (one filled first) (others later rest)

end Psocks.Socks5
