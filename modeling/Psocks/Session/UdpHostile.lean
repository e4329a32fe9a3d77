import Psocks.Session.Udp
import Psocks.Socks5.UdpDatagram

namespace Psocks.SessionUdp
open Socks5 Psocks.Task Utils
variable {mem : List UInt8} {stack : List (Vector UInt8 1500)} {d : Datagram} {ds : List Datagram} {moment : Moment}
  {moments : List Moment} {msg : HevSocks5UdpMsg} {msgv : List HevSocks5UdpMsg} {peer : Option SockaddrIn6}
  {connects : Bool} {errno : Nat}

-- `fwd_b` of a UDP-in-UDP session; as over TCP but for the receive.
def hevSocks5SessionUdpFwdBUdp (stack : List (Vector UInt8 1500)) (moments : List Moment) (peer : Option SockaddrIn6)
    (connects : Bool) (errno : Nat) (arrival : Arrival) : Option (Int × List Delivered) :=
  let received := hevSocks5UdpRecvmmsgUdp (slots stack) peer connects errno arrival
  if received.res ≤ 0 then some (if received.res = -1 ∧ received.errno = eagain then 0 else -1,[])
  else deliver received.res.toNat received.msgv moments

-- The round comes to its end, and the i-th datagram for the application is what a
-- complete header leaves of the i-th one from the relay.
def Harmless (stack : List (Vector UInt8 1500)) (moments : List Moment) (peer : Option SockaddrIn6) (connects : Bool)
    (errno : Nat) (ds : List Datagram) : Prop :=
  ∃ res sent, hevSocks5SessionUdpFwdBUdp stack moments peer connects errno (.batch ds) = some (res,sent) ∧
    sent.map (fun x => some x.message.data) <+: ds.map fun d => datagramPayload d.data

def Moment.sticky (moment : Moment) : Prop := moment.addr ≠ 0 ∧ moment.port ≠ 0

-- No pbuf for the payload, or udp_sendfrom refuses it.
def Moment.broken (moment : Moment) : Prop := moment.allocated = false ∨ moment.err ≠ 0

-- What ends the loop at a datagram with a complete header.
def Stops (moment : Moment) (d : Datagram) : Prop :=
  moment.broken ∨ ¬moment.sticky ∧ d.data[3]? ≠ some addrTypeIpv4 ∧ d.data[3]? ≠ some addrTypeIpv6

-- The loop ends before it comes to a datagram of less than four bytes, or at one that
-- the mapped address lets through to a refused delivery.
def Spared : List Datagram → List Moment → Prop
  | d::ds, moment::moments =>
    if d.data.length < 4 then moment.sticky ∧ moment.broken else Stops moment d ∨ Spared ds moments
  | _, _ => True

theorem source_inside (moment : Moment) (points : msg.addr = .inside 3) (atype : (msg.mem.drop 3)[0]? = d.data[3]?) :
    ∃ source, messageSource moment msg = some source ∧
      (source = none ↔ ¬moment.sticky ∧ d.data[3]? ≠ some addrTypeIpv4 ∧ d.data[3]? ≠ some addrTypeIpv6) := by
  unfold messageSource
  by_cases sticky : moment.addr ≠ 0 ∧ moment.port ≠ 0
  · exact ⟨_,if_pos sticky,⟨fun same => (by cases same),fun other => (other.1 sticky).elim⟩⟩
  · rw [if_neg sticky,points]
    refine ⟨_,rfl,?_⟩
    rw [Option.map_eq_none_iff,hevSocks5AddrIntoLwip,atype]
    by_cases four : d.data[3]? = some addrTypeIpv4
    · rw [if_pos four]
      exact ⟨fun same => (by cases same),fun other => (other.2.1 four).elim⟩
    rw [if_neg four]
    by_cases six : d.data[3]? = some addrTypeIpv6
    · rw [if_pos six]
      exact ⟨fun same => (by cases same),fun other => (other.2.2 six).elim⟩
    rw [if_neg six]
    exact ⟨fun _ => ⟨sticky,four,six⟩,fun _ => rfl⟩

theorem source_null (points : msg.addr = .null) (bare : ¬moment.sticky) : messageSource moment msg = none := by
  unfold Moment.sticky at bare
  rw [messageSource,if_neg bare,points]

-- One turn of the loop, case by case: a fault, the end, or on to the next.
theorem deliver_next (source : messageSource moment msg = some (some place)) (goes : ¬moment.broken) :
    deliver (n+1) (msg::msgv) (moment::moments) =
      (deliver n msgv moments).map fun (res,sent) => (res,⟨msg.frame,place⟩::sent) := by
  unfold Moment.broken at goes
  simp only [deliver,source,bind,Option.bind,if_neg goes]
  cases deliver n msgv moments <;> rfl

theorem deliver_ends (source : messageSource moment msg = some place) (ends : place = none ∨ moment.broken) :
    deliver (n+1) (msg::msgv) (moment::moments) = some (-1,[]) := by
  simp only [deliver,source,bind,Option.bind]
  cases place with
  | none => rfl
  | some place => exact if_pos (ends.resolve_left fun same => by cases same)

theorem deliver_spared (unpacked : List.Forall₂ Unpacked ds (msgv.take ds.length)) (enough : ds.length ≤ moments.length) :
    (∃ res sent, deliver ds.length msgv moments = some (res,sent) ∧
      sent.map (fun x => some x.message.data) <+: ds.map fun d => datagramPayload d.data) ↔ Spared ds moments := by
  induction ds generalizing msgv moments with
  | nil => exact ⟨fun _ => by simp [Spared],fun _ => ⟨1,[],by simp [deliver],List.prefix_rfl⟩⟩
  | cons d ds ih =>
    cases msgv with
    | nil => cases unpacked
    | cons msg msgv =>
      cases moments with
      | nil => cases enough
      | cons moment moments =>
        rw [List.length_cons,List.take_succ_cons] at unpacked
        obtain ⟨one,others⟩ := List.forall₂_cons.mp unpacked
        have later := ih others (Nat.le_of_succ_le_succ enough)
        simp only [Spared,List.length_cons,List.map_cons]
        unfold Unpacked at one
        by_cases short : d.data.length < 4
        · rw [if_pos short] at one ⊢
          by_cases sticky : moment.sticky
          · have source : messageSource moment msg = some (some (.mapped moment.addr moment.port)) := if_pos sticky
            by_cases broken : moment.broken
            · exact ⟨fun _ => ⟨sticky,broken⟩,fun _ => ⟨-1,[],deliver_ends source (.inr broken),List.nil_prefix⟩⟩
            · refine ⟨?_,fun harmless => (broken harmless.2).elim⟩
              rintro ⟨res,sent,went,front⟩
              rw [deliver_next source broken] at went
              obtain ⟨⟨_,rest⟩,_,same⟩ := Option.map_eq_some_iff.mp went
              cases same
              rw [payload_short short] at front
              cases (List.cons_prefix_cons.mp front).1
          · have fault := source_null one.1 sticky
            refine ⟨?_,fun harmless => (sticky harmless.1).elim⟩
            rintro ⟨res,sent,went,_⟩
            simp only [deliver,fault,bind,Option.bind] at went
            cases went
        · rw [if_neg short] at one ⊢
          obtain ⟨points,atype,payload⟩ := one
          obtain ⟨place,source,unknown⟩ := source_inside moment points atype
          by_cases ends : place = none ∨ moment.broken
          · have stops : Stops moment d := ends.symm.imp_right unknown.mp
            exact ⟨fun _ => .inl stops,fun _ => ⟨-1,[],deliver_ends source ends,List.nil_prefix⟩⟩
          · have goes : ¬Stops moment d := fun stops => ends (stops.symm.imp_left unknown.mpr)
            obtain ⟨place,rfl⟩ := Option.ne_none_iff_exists'.mp fun none_ => ends (.inl none_)
            rw [deliver_next source fun broken => ends (.inr broken),← later,or_iff_right goes,payload]
            constructor
            · rintro ⟨res,sent,went,front⟩
              obtain ⟨⟨_,rest⟩,behind,same⟩ := Option.map_eq_some_iff.mp went
              cases same
              exact ⟨res,rest,behind,(List.cons_prefix_cons.mp front).2⟩
            · rintro ⟨res,sent,went,front⟩
              exact ⟨res,⟨msg.frame,place⟩::sent,by rw [went]; rfl,(List.prefix_cons_inj _).mpr front⟩

theorem hostile_harmless (fits : ∀ d ∈ ds, d.data.length ≤ udpBufSize) (room : ds.length ≤ stack.length)
    (enough : ds.length ≤ moments.length) :
    Harmless stack moments peer connects errno ds ↔
      peer = none ∧ connects = false ∨ (∃ d ∈ ds, Refused d) ∨ Spared ds moments := by
  obtain ⟨refused,unpacked⟩ := unpack_batch fits room
  unfold Harmless hevSocks5SessionUdpFwdBUdp
  cases ds with
  | nil => exact ⟨fun _ => .inr (.inr trivial),fun _ => ⟨-1,[],by simp [hevSocks5UdpRecvmmsgUdp],List.nil_prefix⟩⟩
  | cons first later =>
    have quiet : ∀ code : Int, ∃ res sent, some (code,([] : List Delivered)) = some (res,sent) ∧
        sent.map (fun x => some x.message.data) <+: (first::later).map fun d => datagramPayload d.data :=
      fun code => ⟨code,[],rfl,List.nil_prefix⟩
    by_cases alone : peer = none ∧ connects = false
    · simp only [hevSocks5UdpRecvmmsgUdp,if_pos alone]
      exact ⟨fun _ => .inl alone,fun _ => quiet _⟩
    · simp only [hevSocks5UdpRecvmmsgUdp,if_neg alone]
      cases filled : unpackBatch (slots stack) (first::later) with
      | none => exact ⟨fun _ => .inr (.inl (refused.mp filled)),fun _ => quiet _⟩
      | some msgv =>
        have kept : ¬∃ d ∈ first::later, Refused d := fun wrong => by rw [refused.mpr wrong] at filled; cases filled
        have several : ¬((first::later).length : Int) ≤ 0 := by simp only [List.length_cons]; omega
        rw [or_iff_right alone,or_iff_right kept]
        simp only [if_neg several,Int.toNat_natCast]
        exact deliver_spared (unpacked msgv filled) enough

def relayPlace : SockaddrIn6 := ⟨afInet6,.replicate 2 0,.replicate 16 0⟩

-- Four bytes behind the header of 1.2.3.4, port 53, then a byte behind the one of an IPv6
-- address, then a datagram of two bytes.
def mixedReplies : List Datagram :=
  [⟨[0,0,0,1,1,2,3,4,0,53,6,7,8,9],relayPlace⟩,⟨[0,0,0,4]++List.replicate 16 2++[0,53,5],relayPlace⟩,⟨[1,2],relayPlace⟩]

-- The second is refused by the application's side, so the loop does not come to the third.
def refusing : List Moment := [⟨0,0,true,0⟩,⟨0,0,true,1⟩,⟨0,0,true,0⟩]

-- All are for the mapped address; the third comes up and finds no pbuf.
def exhausted : List Moment := [⟨0x64400001,443,true,0⟩,⟨0x64400001,443,true,0⟩,⟨0x64400001,443,false,0⟩]

def payloads (round : Option (Int × List Delivered)) : Option (Int × List (List UInt8)) :=
  round.map fun r => (r.1,r.2.map fun x => x.message.data)

theorem hostile_harmless_mixed :
    Harmless (List.replicate 3 (.replicate 1500 0)) refusing none true 0 mixedReplies ∧
      payloads (hevSocks5SessionUdpFwdBUdp (List.replicate 3 (.replicate 1500 0)) refusing none true 0 (.batch mixedReplies)) =
        some (-1,[[6,7,8,9]]) ∧
      Harmless (List.replicate 3 (.replicate 1500 0)) exhausted (some relayPlace) false 0 mixedReplies ∧
      payloads (hevSocks5SessionUdpFwdBUdp (List.replicate 3 (.replicate 1500 0)) exhausted (some relayPlace) false 0 (.batch mixedReplies)) =
        some (-1,[[6,7,8,9],[5]]) := by
  refine ⟨?_,by decide +kernel,?_,by decide +kernel⟩
  · apply (hostile_harmless (by decide) (by decide) (by decide)).mpr
    simp [mixedReplies,refusing,Spared,Stops,Moment.broken]
  · apply (hostile_harmless (by decide) (by decide) (by decide)).mpr
    simp [mixedReplies,exhausted,Spared,Moment.sticky,Moment.broken]

-- A datagram of no bytes at all: its address is read although there is none, or it is
-- handed over with no payload as if it came from the mapped address.
theorem hostile_empty :
    ¬Harmless [.replicate 1500 0] [⟨0,0,true,0⟩] (some relayPlace) true 0 [⟨[],relayPlace⟩] ∧
      ¬Harmless [.replicate 1500 0] [⟨0x64400001,443,true,0⟩] (some relayPlace) true 0 [⟨[],relayPlace⟩] := by
  constructor
  · rintro ⟨res,sent,went,_⟩
    cases went
  · rintro ⟨res,sent,went,front⟩
    cases went
    exact absurd front (by decide)

end Psocks.SessionUdp
