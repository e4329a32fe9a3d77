import Psocks.Lwip.Pbuf
import Psocks.MappedDns.Capture
import Psocks.Socks5.Udp

namespace Psocks.SessionUdp
open MappedDns Pbufs Socks5 Psocks.Task Utils
variable {os : Platform}

def udpPoolSize : Nat := 512

-- A datagram of the application on its way out; `data` is the chain as lwIP gave it.
structure HevSocks5UdpFrame where
  addr : HevSocks5Addr
  data : List Pbuf
  present : data ≠ []

-- `frames` counts `frame_list`. `addr` and `port` are those of the mapped address the
-- last datagram went to, zero before.
structure HevSocks5SessionUdp where
  frameList : List HevSocks5UdpFrame
  frames : Nat
  addr : BitVec 32
  port : BitVec 16

-- `ip_2_ip4 (ip)->addr`, the first word of the address.
def ip2Ip4 : IpAddr → BitVec 32
  | .v4 addr => addr
  | .v6 addr => bigEndian (addr.toList.take 4)
  | .any => 0

-- `allocated` is the memory hev_malloc returns. No pbuf means that the pcb is gone:
-- the session is told to end. `none`: the encoder reads outside the address.
def udpRecvHandler (self : HevSocks5SessionUdp) (dns : Option (Dns os)) (p : List Pbuf)
    (allocated : Option HevSocks5Addr) (ip : IpAddr) (port : BitVec 16) : Option HevSocks5SessionUdp :=
  if present : p ≠ [] then
    if udpPoolSize < self.frames then some self
    else match allocated with
      | none => some self
      | some memory => do
        let (_,addr,_) ← hevSocks5AddrFromLwip dns memory ip port
        let self := {self with frameList:=self.frameList++[⟨addr,p,present⟩],frames:=self.frames+1}
        if addr.bytes[0]? = some addrTypeName then pure {self with addr:=ip2Ip4 ip,port:=port}
        else pure self
  else some self

theorem recv_handler_queue {self next : HevSocks5SessionUdp} {dns : Option (Dns os)}
    (went : udpRecvHandler self dns p allocated ip port = some next) :
    ∃ new : List HevSocks5UdpFrame, next.frameList = self.frameList++new ∧ next.frames = self.frames+new.length := by
  have dropped : next = self → ∃ new : List HevSocks5UdpFrame,
      next.frameList = self.frameList++new ∧ next.frames = self.frames+new.length := by
    rintro rfl
    exact ⟨[],by simp,rfl⟩
  unfold udpRecvHandler at went
  split at went
  · rename_i present
    split at went
    · exact dropped (Option.some.inj went).symm
    · cases allocated with
      | none => exact dropped (Option.some.inj went).symm
      | some memory =>
        obtain ⟨⟨_,addr,_⟩,_,step⟩ := Option.bind_eq_some_iff.mp went
        refine ⟨[⟨addr,p,present⟩],?_⟩
        simp only at step
        split at step
        · cases Option.some.inj step
          exact ⟨rfl,rfl⟩
        · cases Option.some.inj step
          exact ⟨rfl,rfl⟩
  · exact dropped (Option.some.inj went).symm

-- `buf->payload` and `buf->len` of the first pbuf.
def HevSocks5UdpFrame.outgoing (frame : HevSocks5UdpFrame) : Outgoing :=
  ⟨frame.addr,(frame.data.head frame.present).payload⟩

-- Where the pcb is told that a datagram comes from: the mapped address (the word and
-- the port as they are stored), or what its own header says.
inductive Source where
  | mapped (addr : BitVec 32) (port : BitVec 16)
  | relay (ip : IpAddr) (port : BitVec 16)
deriving DecidableEq

structure Delivered where
  message : Frame
  source : Source
deriving DecidableEq

-- What the delivery of one message meets: `addr` and `port` of the session then,
-- pbuf_alloc_reference and udp_sendfrom.
structure Moment where
  addr : BitVec 32
  port : BitVec 16
  allocated : Bool
  err : BitVec 8

-- `none`: the address is read through a pointer that was never set or is null;
-- `some none`: it is not one of IPv4 or IPv6.
def messageSource (moment : Moment) (msg : HevSocks5UdpMsg) : Option (Option Source) :=
  if moment.addr ≠ 0 ∧ moment.port ≠ 0 then some (some (.mapped moment.addr moment.port))
  else match msg.addr with
    | .inside off => some ((hevSocks5AddrIntoLwip (msg.mem.drop off)).map fun (ip,port) => .relay ip port)
    | _ => none

-- The second loop of `fwd_b`, with what it hands to the pcb. `none` also when it
-- runs past the end of `msgv`.
def deliver : Nat → List HevSocks5UdpMsg → List Moment → Option (Int × List Delivered)
  | 0, _, _ => some (1,[])
  | n+1, msg::msgv, moment::moments => do
    match ← messageSource moment msg with
    | none => pure (-1,[])
    | some source =>
      if moment.allocated = false ∨ moment.err ≠ 0 then pure (-1,[])
      else
        let (res,sent) ← deliver n msgv moments
        pure (res,⟨msg.frame,source⟩::sent)
  | _, _, _ => none

-- A UDP-in-TCP session; `stack` is what `buf` holds before, slot by slot.
def hevSocks5SessionUdpFwdB (stack : List (Vector UInt8 1500)) (moments : List Moment) (inlet : Inlet) :
    Option (Int × List Delivered × Inlet) := do
  let (res,msgv,inlet) ← hevSocks5UdpRecvmmsgTcp true [] (slots stack) inlet
  if res ≤ 0 then pure (if res = -1 ∧ inlet.errno = eagain then 0 else -1,[],inlet)
  else
    let (res,sent) ← deliver res.toNat msgv moments
    pure (res,sent,inlet)

theorem deliver_front (went : deliver n msgv moments = some (res,sent)) :
    sent.map Delivered.message <+: (msgv.take n).map HevSocks5UdpMsg.frame ∧
      (0 ≤ res → sent.map Delivered.message = (msgv.take n).map HevSocks5UdpMsg.frame) := by
  induction n generalizing msgv moments res sent with
  | zero =>
    cases Option.some.inj went
    exact ⟨List.prefix_rfl,fun _ => rfl⟩
  | succ n ih =>
    cases msgv with
    | nil => cases went
    | cons msg msgv =>
      cases moments with
      | nil => cases went
      | cons moment moments =>
        simp only [deliver] at went
        obtain ⟨source,_,step⟩ := Option.bind_eq_some_iff.mp went
        have stops : ∀ {res : Int} {sent : List Delivered}, some ((-1 : Int),([] : List Delivered)) = some (res,sent) →
            sent.map Delivered.message <+: ((msg::msgv).take (n+1)).map HevSocks5UdpMsg.frame ∧
              (0 ≤ res → sent.map Delivered.message = ((msg::msgv).take (n+1)).map HevSocks5UdpMsg.frame) := by
          intro res sent same
          cases same
          exact ⟨List.nil_prefix,fun positive => by omega⟩
        cases source with
        | none => exact stops step
        | some source =>
          simp only at step
          split at step
          · exact stops step
          · obtain ⟨⟨later,rest⟩,behind,same⟩ := Option.bind_eq_some_iff.mp step
            cases same
            obtain ⟨front,whole⟩ := ih behind
            rw [List.take_succ_cons,List.map_cons,List.map_cons]
            exact ⟨(List.prefix_cons_inj _).mpr front,fun positive => by rw [whole positive]⟩

end Psocks.SessionUdp
