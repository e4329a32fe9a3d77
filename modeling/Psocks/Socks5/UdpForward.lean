import Psocks.Socks5.ServerRequest
import Psocks.Socks5.UdpContract
import Psocks.Socks5.UdpDatagram

namespace Psocks.Socks5
open Program Psocks.Task
variable {stack : List (Vector UInt8 1500)} {inlet next after : Inlet} {svec : List HevSocks5UdpMsg} {fs gs : List Frame}

-- A message for the outgoing socket.
structure Onward where
  dest : SockaddrIn6
  data : List UInt8
deriving DecidableEq

-- The loop over the received messages reads a pointer or a slot that was never set, gives
-- the batch up, or has the messages to send.
inductive Gathered where
  | fault
  | rejected
  | ready (dvec : List Onward)

-- `stale` is what lies in `addr` on the stack.
def gatherOnward (family : HevSocks5AddrFamily) (stale : Nat → SockaddrIn6) : Nat → List HevSocks5UdpMsg → ServerProg Gathered
  | 0, _ => pure (.ready [])
  | _+1, [] => pure .fault
  | n+1, msg::svec =>
    if msg.len = 0 then pure .rejected
    else match msg.addr with
      | .null => pure .rejected
      | .unset => pure .fault
      | .inside off => do
        let (ret,saddr,_) ← hevSocks5AddrIntoSockaddr6 (msg.mem.drop off) (stale n) family
        if ret < 0 then pure .rejected
        else match ← gatherOnward family stale n svec with
          | .ready dvec => pure (.ready (⟨saddr,msg.payload⟩::dvec))
          | .rejected => pure .rejected
          | .fault => pure .fault

-- What a turn returns and leaves in `bind`, and the messages the outgoing socket took.
structure Forwarded where
  res : Int
  bind : Bool
  sent : List Onward
deriving DecidableEq

def forwardResult (res : Int) (errno : Nat) : Int := if res ≤ 0 then (if res = -1 ∧ errno = eagain then 0 else -1) else 1

-- The turn behind recvmmsg, with what that returned, its messages and errno. `sendmmsg`
-- tells what the outgoing socket makes of so many messages: a positive result counts
-- those that went. `none`: the fault.
def hevSocks5UdpFwdF (family : HevSocks5AddrFamily) (stale : Nat → SockaddrIn6) (fd : Int) (bind : Bool) (sendmmsg : Nat → Int × Nat)
    (received : Int × List HevSocks5UdpMsg × Nat) : ServerProg (Option Forwarded) :=
  let (res,svec,errno) := received
  if 0 < res then do
    match ← gatherOnward family stale res.toNat svec with
    | .rejected => pure (some ⟨-1,bind,[]⟩)
    | .ready (first::later) =>
      let ret : Int ← if bind then pure 0 else ask (ServerQuery.binder fd first.dest)
      if ret < 0 then pure (some ⟨-1,bind,[]⟩)
      else
        let (res,errno) := sendmmsg (first::later).length
        pure (some ⟨forwardResult res errno,true,(first::later).take res.toNat⟩)
    | _ => pure none
  else pure (some ⟨forwardResult res errno,bind,[]⟩)

-- Where a datagram is to go, as its header says it.
inductive Destination where
  | ipv4 (addr : Vector UInt8 4) (port : Vector UInt8 2)
  | ipv6 (addr : Vector UInt8 16) (port : Vector UInt8 2)

def Destination.header : Destination → List UInt8
  | .ipv4 addr port => addrTypeIpv4::addr.toList++port.toList
  | .ipv6 addr port => addrTypeIpv6::addr.toList++port.toList

def Destination.saddr : Destination → SockaddrIn6
  | .ipv4 addr port => ⟨afInet6,port,v4Mapped addr⟩
  | .ipv6 addr port => ⟨afInet6,port,addr⟩

structure RelayDatagram where
  dest : Destination
  payload : List UInt8

def RelayDatagram.frame (d : RelayDatagram) : Frame := ⟨d.dest.header,d.payload⟩

def RelayDatagram.onward (d : RelayDatagram) : Onward := ⟨d.dest.saddr,d.payload⟩

-- What recvmmsg returns when it has received these datagrams: it counts them, and they
-- are what it took from the connection (behind them perhaps a part of a header), or the
-- datagrams on the socket behind their first three bytes.
inductive Receives (batch : List Frame) : Int × List HevSocks5UdpMsg × Nat → Prop where
  | tcp (stack : List (Vector UInt8 1500)) (inlet next : Inlet) (svec : List HevSocks5UdpMsg) (part : List UInt8)
      (went : hevSocks5UdpRecvmmsgTcp true [] (slots stack) inlet = some ((batch.length : Int),svec,next))
      (reads : Reads inlet.stream batch (part++next.stream)) : Receives batch (batch.length,svec,next.errno)
  | udp (stack : List (Vector UInt8 1500)) (peer : Option SockaddrIn6) (connects : Bool) (errno : Nat) (ds : List Datagram)
      (connected : peer ≠ none ∨ connects = true) (room : ds.length ≤ stack.length)
      (fits : ∀ d ∈ ds, d.data.length ≤ udpBufSize)
      (headed : List.Forall₂ (fun f d => ∃ a b c, d.data = a::b::c::(f.addr++f.data)) batch ds) (r : Received)
      (went : hevSocks5UdpRecvmmsgUdp (slots stack) peer connects errno (.batch ds) = r) : Receives batch (r.res,r.msgv,r.errno)

-- Every datagram once, in order, to where it is to go; and the direction stays open.
def Relays (batch : List RelayDatagram) (out : Option Forwarded) : Prop :=
  ∃ f, out = some f ∧ 0 ≤ f.res ∧ f.sent = batch.map RelayDatagram.onward

-- A slot with a datagram in it.
structure Holding (d : RelayDatagram) (msg : HevSocks5UdpMsg) : Prop where
  addr : ∃ off tail, msg.addr = .inside off ∧ msg.mem.drop off = d.dest.header++tail
  payload : msg.payload = d.payload
  len : msg.len = d.payload.length

theorem reads_common (one : Reads stream fs a) (two : Reads stream gs b) (fewer : fs.length ≤ gs.length) :
    ∃ more, gs = fs++more ∧ Reads a more b := by
  induction one generalizing gs with
  | nil => exact ⟨gs,rfl,two⟩
  | cons parsed _ ih =>
    cases two with
    | nil => cases fewer
    | cons same rest =>
      cases parsed.symm.trans same
      obtain ⟨more,rfl,behind⟩ := ih rest (Nat.le_of_succ_le_succ fewer)
      exact ⟨more,rfl,behind⟩

theorem parse_size (parsed : parseFrame (high::low::hdrlen::stream) = some (frame,rest)) :
    2 ≤ addrLength hdrlen ∧ rest.length+(addrLength hdrlen+dataLength high low) = stream.length := by
  simp only [parseFrame] at parsed
  split at parsed
  · rename_i fits
    cases parsed
    refine ⟨sound_address fits.1,?_⟩
    have enough := fits.2
    simp only [List.length_drop]
    omega
  · cases parsed

theorem parse_least (parsed : parseFrame stream = some (frame,rest)) : rest.length+5 ≤ stream.length := by
  match stream, parsed with
  | high::low::hdrlen::stream, parsed =>
    obtain ⟨two,size⟩ := parse_size parsed
    simp only [List.length_cons]
    omega

-- Where a call ends: with an error, with the count of what it set, or inside of the next
-- frame if the connection holds one.
theorem recvmmsg_ends {nonblock : Bool} {done msgv : List HevSocks5UdpMsg} {res : Int}
    (went : hevSocks5UdpRecvmmsgTcp nonblock done (slots stack) inlet = some (res,msgv,next)) :
    ∃ got rest fs behind, msgv = done++got++rest ∧ List.Forall₂ Stored fs got ∧ Reads inlet.stream fs (behind++next.stream) ∧
      (res < 0 ∨ res = (done++got).length ∨
        ∀ f after, parseFrame (behind++next.stream) = some (f,after) → after.length < next.stream.length) := by
  induction stack generalizing done inlet with
  | nil =>
    cases Option.some.inj went
    exact ⟨[],[],[],[],by simp,.nil,.nil,.inr (.inl (by simp))⟩
  | cons mem stack ih =>
    cases slot_step went with
    | headless head udp read other result left =>
      obtain ⟨data,cut,small,_,five,_⟩ := head_takes read
      refine ⟨[],freshSlot mem.toList::slots stack,[],data,by rw [left,List.append_nil]; rfl,.nil,cut ▸ .nil,?_⟩
      by_cases none_yet : done = []
      · refine .inr (.inr fun f after parsed => ?_)
        have least := parse_least parsed
        have short : data.length ≠ 5 := fun all => other (five all)
        rw [List.length_append] at least
        omega
      · rw [if_neg none_yet] at result
        exact .inr (.inl (by simpa using result))
    | refused high low hdrlen atype len read unsound result left =>
      obtain ⟨data,cut,_⟩ := head_takes read
      exact ⟨[],freshSlot mem.toList::slots stack,[],data,by rw [left,List.append_nil]; rfl,.nil,cut ▸ .nil,.inl (by omega)⟩
    | short high low hdrlen atype len middle filled read sound came other left =>
      obtain ⟨data,cut,_,five,_⟩ := head_takes read
      obtain ⟨rfl,_⟩ := five rfl
      obtain ⟨body,behind,_,within,tells⟩ := body_takes (slot_room mem) sound came
      refine ⟨[],freshSlot filled::slots stack,[],[high,low,hdrlen,atype,len]++body,by rw [left,List.append_nil]; rfl,.nil,?_,?_⟩
      · rw [List.append_assoc,← behind,← cut]
        exact .nil
      · by_cases failed : res < 0
        · exact .inl failed
        · refine .inr (.inr fun f after parsed => ?_)
          have count : res = body.length := tells_count tells (by omega)
          have layout : [high,low,hdrlen,atype,len]++body++next.stream = high::low::hdrlen::(atype::len::(body++next.stream)) := by
            simp
          rw [layout] at parsed
          obtain ⟨two,size⟩ := parse_size parsed
          unfold bodyLength at within other
          simp only [List.length_append,List.length_cons] at size
          omega
    | whole high low hdrlen atype len middle after filled read sound came later =>
      obtain ⟨frame,parsed,stored⟩ := whole_stored (slot_room mem) read sound came
      obtain ⟨got,rest,fs,behind,split,all,reads,ends⟩ := ih later
      refine ⟨_::got,rest,frame::fs,behind,by simp [split],.cons stored all,.cons parsed reads,?_⟩
      simpa using ends

theorem header_length (dest : Destination) (tail : List UInt8) :
    hevSocks5AddrLen (dest.header++tail) = some (dest.header.length : Int) := by
  cases dest with
  | ipv4 addr port => simp [Destination.header,hevSocks5AddrLen]
  | ipv6 addr port => simp [Destination.header,hevSocks5AddrLen,ipv6_not_ipv4]

theorem header_sockaddr (dest : Destination) (tail : List UInt8) (saddr : SockaddrIn6) (family : HevSocks5AddrFamily) :
    ∃ own, hevSocks5AddrIntoSockaddr6 (dest.header++tail) saddr family = pure (0,dest.saddr,own) := by
  cases dest with
  | ipv4 addr port =>
    have host : bytesAt ([addrTypeIpv4]++(addr.toList++(port.toList++tail))) 1 4 = addr := bytes_at_front rfl
    have last : bytesAt ((addrTypeIpv4::addr.toList)++(port.toList++tail)) 5 2 = port := bytes_at_front (by simp)
    have layout : Destination.header (.ipv4 addr port)++tail = addrTypeIpv4::(addr.toList++(port.toList++tail)) := by
      simp [Destination.header]
    refine ⟨.ipv4,?_⟩
    rw [layout,hevSocks5AddrIntoSockaddr6]
    simp only [List.getD_cons_zero,if_true]
    exact congrArg₂ (fun p a => pure (0,(⟨afInet6,p,v4Mapped a⟩ : SockaddrIn6),HevSocks5AddrFamily.ipv4)) last host
  | ipv6 addr port =>
    have host : bytesAt ([addrTypeIpv6]++(addr.toList++(port.toList++tail))) 1 16 = addr := bytes_at_front rfl
    have last : bytesAt ((addrTypeIpv6::addr.toList)++(port.toList++tail)) 17 2 = port := bytes_at_front (by simp)
    have layout : Destination.header (.ipv6 addr port)++tail = addrTypeIpv6::(addr.toList++(port.toList++tail)) := by
      simp [Destination.header]
    refine ⟨.ipv6,?_⟩
    rw [layout,hevSocks5AddrIntoSockaddr6]
    simp only [List.getD_cons_zero,if_neg ipv6_not_ipv4,if_true]
    exact congrArg₂ (fun p a => pure (0,(⟨afInet6,p,a⟩ : SockaddrIn6),HevSocks5AddrFamily.ipv6)) last host

variable {d : RelayDatagram} {batch : List RelayDatagram}

theorem stored_holding {msg : HevSocks5UdpMsg} (stored : Stored d.frame msg) : Holding d msg := by
  obtain ⟨behind,whole⟩ := stored.mem
  refine ⟨⟨0,d.payload++behind,stored.addr,?_⟩,?_,stored.len⟩
  · rw [List.drop_zero,← whole,List.append_assoc]
    rfl
  · rw [HevSocks5UdpMsg.payload,stored.buf,stored.len,← whole,List.append_assoc,List.drop_left]
    exact List.take_left

theorem header_long (dest : Destination) : 7 ≤ dest.header.length := by
  cases dest <;> simp [Destination.header]

theorem unpack_headed {datagram : Datagram} (mem : List UInt8) (headed : datagram.data = a::b::c::(d.dest.header++d.payload))
    (fits : datagram.data.length ≤ udpBufSize) : ∃ msg, unpackDatagram (freshSlot mem) datagram = some msg ∧ Holding d msg := by
  have whole : datagram.data.take udpBufSize = datagram.data := List.take_of_length_le fits
  have long := header_long d.dest
  have size : datagram.data.length = 3+(d.dest.header.length+d.payload.length) := by
    rw [headed]
    simp
    omega
  generalize held : mem.drop datagram.data.length = tail
  have filled : overwrite mem 0 datagram.data = a::b::c::(d.dest.header++(d.payload++tail)) := by
    rw [overwrite,Nat.zero_add,held,headed]
    simp
  refine ⟨⟨overwrite mem 0 datagram.data,.inside 3,3+d.dest.header.length,d.payload.length⟩,?_,?_,?_,rfl⟩
  · have header : hevSocks5AddrLen ((overwrite mem 0 datagram.data).drop 3) = some (d.dest.header.length : Int) := by
      rw [filled]
      exact header_length d.dest _
    have enough : ¬datagram.data.length < 4 := by omega
    have known : ¬(d.dest.header.length : Int) ≤ 0 := by omega
    have inside : ¬datagram.data.length < 3+d.dest.header.length := by omega
    have rest : datagram.data.length-(3+d.dest.header.length) = d.payload.length := by omega
    simp only [unpackDatagram,freshSlot,whole,if_neg enough,Nat.zero_add,header,bind,Option.bind,if_neg known,Int.toNat_natCast,
      if_neg inside,rest]
  · exact ⟨3,d.payload++tail,rfl,by rw [filled]; rfl⟩
  · show ((overwrite mem 0 datagram.data).drop (3+d.dest.header.length)).take d.payload.length = d.payload
    have front : (a::b::c::d.dest.header).length = 3+d.dest.header.length := by
      simp only [List.length_cons]
      omega
    rw [filled,← front,show a::b::c::(d.dest.header++(d.payload++tail)) = (a::b::c::d.dest.header)++(d.payload++tail) from rfl,
      List.drop_left]
    exact List.take_left

theorem unpack_all {ds : List Datagram} (headed : List.Forall₂ (fun d x => ∃ a b c, x.data = a::b::c::(d.dest.header++d.payload)) batch ds)
    (room : ds.length ≤ stack.length) (fits : ∀ x ∈ ds, x.data.length ≤ udpBufSize) :
    ∃ filled, unpackBatch (slots stack) ds = some filled ∧ List.Forall₂ Holding batch (filled.take batch.length) := by
  induction headed generalizing stack with
  | nil => exact ⟨slots stack,by cases stack <;> rfl,by rw [List.length_nil,List.take_zero]; exact .nil⟩
  | cons one _ ih =>
    cases stack with
    | nil => cases room
    | cons mem stack =>
      obtain ⟨first,others⟩ := List.forall_mem_cons.mp fits
      obtain ⟨a,b,c,same⟩ := one
      obtain ⟨msg,unpacked,holding⟩ := unpack_headed mem.toList same first
      obtain ⟨later,rest,all⟩ := ih (Nat.le_of_succ_le_succ room) others
      refine ⟨msg::later,?_,.cons holding all⟩
      have here : slots (mem::stack) = freshSlot mem.toList::slots stack := rfl
      simp only [here,unpackBatch,unpacked,rest,bind,Option.bind]
      rfl

theorem tcp_holding {part : List UInt8} (went : hevSocks5UdpRecvmmsgTcp true [] (slots stack) inlet = some ((batch.length : Int),svec,next))
    (reads : Reads inlet.stream (batch.map RelayDatagram.frame) (part++next.stream)) :
    List.Forall₂ Holding batch (svec.take batch.length) := by
  obtain ⟨got,rest,fs,behind,rfl,stored,taken,ends⟩ := recvmmsg_ends went
  have sizes := stored.length_eq
  rw [List.nil_append] at ends ⊢
  by_cases fewer : fs.length < (batch.map RelayDatagram.frame).length
  · -- The call would have ended inside of a frame that is gone from the connection.
    obtain ⟨more,split,later⟩ := reads_common taken reads (Nat.le_of_lt fewer)
    have counts := congrArg List.length split
    rw [List.length_map,List.length_append] at counts
    rw [List.length_map] at fewer
    cases more with
    | nil =>
      simp only [List.length_nil] at counts
      omega
    | cons frame more =>
      cases later with | cons parsed others =>
      have shorter := reads_shorter others
      rw [List.length_append] at shorter
      rcases ends with failed | counted | inside
      · omega
      · omega
      · have cut := inside _ _ parsed
        omega
  · obtain ⟨more,split,_⟩ := reads_common reads taken (Nat.not_lt.mp fewer)
    have front : fs.take batch.length = batch.map RelayDatagram.frame := by
      rw [split,List.take_left' (List.length_map _)]
    have first := List.forall₂_take batch.length stored
    rw [front,List.forall₂_map_left_iff] at first
    rw [List.take_append_of_le_length (by rw [List.length_map] at fewer; omega)]
    exact first.imp fun d msg => stored_holding

theorem receives_holding {r : Int × List HevSocks5UdpMsg × Nat} (received : Receives (batch.map RelayDatagram.frame) r) :
    r.1 = batch.length ∧ List.Forall₂ Holding batch (r.2.1.take batch.length) := by
  cases received with
  | tcp stack inlet next svec part went reads =>
    have count : ((batch.map RelayDatagram.frame).length : Int) = batch.length := by rw [List.length_map]
    rw [count] at went
    exact ⟨count,tcp_holding went reads⟩
  | udp stack peer connects errno ds connected room fits headed r went =>
    rw [List.forall₂_map_left_iff] at headed
    have size := headed.length_eq
    obtain ⟨filled,unpacked,holding⟩ := unpack_all headed room fits
    cases headed with
    | nil =>
      subst went
      exact ⟨rfl,by rw [List.length_nil,List.take_zero]; exact .nil⟩
    | cons one others =>
      rename_i d first batch later
      have joined : ¬(peer = none ∧ connects = false) := by
        rintro ⟨nobody,refused⟩
        rcases connected with some_ | able
        · exact some_ nobody
        · cases refused.symm.trans able
      subst went
      simp only [hevSocks5UdpRecvmmsgUdp,if_neg joined,unpacked]
      exact ⟨by rw [size],holding⟩

variable {family : HevSocks5AddrFamily} {stale : Nat → SockaddrIn6}

-- The first datagram without a payload ends the loop.
theorem gather_holding (holding : List.Forall₂ Holding batch (svec.take batch.length)) :
    gatherOnward family stale batch.length svec =
      pure (if batch.all fun d => !d.payload.isEmpty then .ready (batch.map RelayDatagram.onward) else .rejected) := by
  induction batch generalizing svec with
  | nil => rfl
  | cons d batch ih =>
    cases svec with
    | nil => cases holding
    | cons msg svec =>
      obtain ⟨one,others⟩ := List.forall₂_cons.mp holding
      obtain ⟨off,tail,addr,layout⟩ := one.addr
      rw [List.length_cons,gatherOnward]
      by_cases empty : d.payload = []
      · have nothing : msg.len = 0 := by rw [one.len,empty]; rfl
        rw [if_pos nothing]
        simp [empty]
      · have some_ : ¬msg.len = 0 := by
          rw [one.len]
          exact fun zero => empty (List.length_eq_zero_iff.mp zero)
        obtain ⟨own,resolved⟩ := header_sockaddr d.dest tail (stale batch.length) family
        have present : (!d.payload.isEmpty) = true := by simpa using empty
        rw [if_neg some_,List.all_cons,present,Bool.true_and]
        simp only [addr,layout,resolved,pure_bind,ih others,one.payload]
        rw [if_neg (by decide)]
        cases batch.all fun d => !d.payload.isEmpty with
        | true => rfl
        | false => rfl

theorem forward_exact {r : Int × List HevSocks5UdpMsg × Nat} {fd : Int} {bind : Bool} {sendmmsg : Nat → Int × Nat}
    {w : ServerWorld} (some_ : batch ≠ []) (received : Receives (batch.map RelayDatagram.frame) r)
    (accepts : ∀ n, (sendmmsg n).1 = n) (binds : bind = true ∨ ∀ turn dest, (0 : Int) ≤ w.oracle turn (.binder fd dest)) :
    Relays batch ((hevSocks5UdpFwdF family stale fd bind sendmmsg r).exec w).1 ↔ ∀ d ∈ batch, d.payload ≠ [] := by
  obtain ⟨count,holding⟩ := receives_holding received
  obtain ⟨res,svec,errno⟩ := r
  simp only at count holding
  subst count
  have positive : 0 < (batch.length : Int) := Int.natCast_pos.mpr (List.length_pos_of_ne_nil some_)
  have full : (batch.all fun d => !d.payload.isEmpty) = true ↔ ∀ d ∈ batch, d.payload ≠ [] := by simp
  simp only [hevSocks5UdpFwdF,if_pos positive,Int.toNat_natCast,gather_holding holding,pure_bind]
  rw [← full]
  cases filled : batch.all fun d => !d.payload.isEmpty with
  | false =>
    refine iff_of_false ?_ (by decide)
    rintro ⟨f,same,opened,_⟩
    cases same
    exact absurd (show (0 : Int) ≤ -1 from opened) (by decide)
  | true =>
    refine iff_of_true ?_ rfl
    obtain ⟨d,rest,rfl⟩ := List.exists_cons_of_ne_nil some_
    have all : (sendmmsg (List.map RelayDatagram.onward (d::rest)).length).1 = ((d::rest).length : Int) := by
      rw [accepts,List.length_map]
    have opened : ∀ errno, forwardResult ((d::rest).length : Int) errno = 1 := fun errno => if_neg (by omega)
    have whole : (List.map RelayDatagram.onward (d::rest)).take (d::rest).length = List.map RelayDatagram.onward (d::rest) :=
      List.take_of_length_le (by rw [List.length_map])
    rw [List.map_cons] at all whole
    cases bind with
    | true =>
      refine ⟨_,rfl,?_,?_⟩
      · simp only [all,opened]
        decide
      · simp only [all,Int.toNat_natCast,whole,List.map_cons]
    | false =>
      have bound := (binds.resolve_left (by decide)) w.turn d.dest.saddr
      have taken : ¬((ask (ServerQuery.binder fd d.onward.dest) : ServerProg Int).exec w).1 < 0 := Int.not_lt.mpr bound
      simp only [List.map_cons,if_true,Bool.false_eq_true,if_false,exec_bind,if_neg taken]
      refine ⟨_,rfl,?_,?_⟩
      · simp only [all,opened]
        decide
      · simp only [all,Int.toNat_natCast,whole,List.map_cons]

-- Datagrams in UDP from a new peer.
def RelayDatagram.arrived (d : RelayDatagram) : Datagram := ⟨0::0::0::(d.dest.header++d.payload),⟨afInet6,#v[0,9],.replicate 16 1⟩⟩

def receivedInUdp (batch : List RelayDatagram) : Int × List HevSocks5UdpMsg × Nat :=
  let r := hevSocks5UdpRecvmmsgUdp (slots (batch.map fun _ => .replicate 1500 0)) none true 0 (.batch (batch.map RelayDatagram.arrived))
  (r.res,r.msgv,r.errno)

theorem received_in_udp (small : ∀ d ∈ batch, d.payload.length ≤ 1478) :
    Receives (batch.map RelayDatagram.frame) (receivedInUdp batch) := by
  refine .udp (batch.map fun _ => .replicate 1500 0) none true 0 (batch.map RelayDatagram.arrived) (.inr rfl) (by simp) ?_ ?_ _ rfl
  · intro x member
    obtain ⟨d,inside,rfl⟩ := List.mem_map.mp member
    have fits : d.payload.length ≤ 1478 := small d inside
    rcases d with ⟨⟨addr,port⟩ | ⟨addr,port⟩,payload⟩ <;> simp [RelayDatagram.arrived,Destination.header,udpBufSize] at fits ⊢ <;> omega
  · rw [List.forall₂_map_left_iff,List.forall₂_map_right_iff]
    exact List.forall₂_same.mpr fun d _ => ⟨0,0,0,rfl⟩

-- The turn over what came, with whatever lies on the stack.
def relayTurn (received : Int × List HevSocks5UdpMsg × Nat) : Option Forwarded :=
  ((hevSocks5UdpFwdF .unspec (fun _ => ⟨0,.replicate 2 0,.replicate 16 0⟩) 5 false (fun n => (Int.ofNat n,0)) received).exec
    ⟨[],[],[],obliging,0,[]⟩).1

def threeDatagrams : List RelayDatagram :=
  [⟨.ipv4 #v[1,2,3,4] #v[0,53],[7]⟩,⟨.ipv6 (.replicate 16 2) #v[1,187],[8,9]⟩,⟨.ipv4 #v[1,2,3,4] #v[0,53],[7]⟩]

-- The same on a connection, behind each other, in pieces, with the start of a fourth header.
def threeOnStream : Inlet :=
  ⟨[0,1,10,1,1,2,3,4,0,53,7]++([0,2,22,4]++List.replicate 16 2++[1,187,8,9])++[0,1,10,1,1,2,3,4,0,53,7]++[0,4],0,
    [.ready 3,.again false,.ready 9,.ready 2,.again false,.ready 9,.ready 9,.ready 30,.ready 9,.ready 9,.ready 9,.again true]⟩

theorem three_on_stream : ∃ svec next,
    hevSocks5UdpRecvmmsgTcp true [] (slots (List.replicate 4 (.replicate 1500 0))) threeOnStream = some (3,svec,next) ∧
      Receives (threeDatagrams.map RelayDatagram.frame) (3,svec,next.errno) := by
  have came : (hevSocks5UdpRecvmmsgTcp true [] (slots (List.replicate 4 (.replicate 1500 0))) threeOnStream).any
      (fun r => r.1 = 3 ∧ r.2.2.stream = []) = true := by decide +kernel
  obtain ⟨⟨res,svec,next⟩,went,count⟩ := (Option.any_eq_true _ _).mp came
  obtain ⟨rfl,empty⟩ : res = 3 ∧ next.stream = [] := of_decide_eq_true count
  have first : parseFrame threeOnStream.stream = some (⟨[1,1,2,3,4,0,53],[7]⟩,threeOnStream.stream.drop 11) := by decide +kernel
  have second : parseFrame (threeOnStream.stream.drop 11) =
      some (⟨4::List.replicate 16 2++[1,187],[8,9]⟩,threeOnStream.stream.drop 35) := by decide +kernel
  have third : parseFrame (threeOnStream.stream.drop 35) = some (⟨[1,1,2,3,4,0,53],[7]⟩,[0,4]) := by decide +kernel
  have reads : Reads threeOnStream.stream (threeDatagrams.map RelayDatagram.frame) [0,4] := .cons first (.cons second (.cons third .nil))
  exact ⟨svec,next,went,.tcp _ threeOnStream next svec [0,4] went (by rwa [empty])⟩

theorem forward_exact_three : Relays threeDatagrams (relayTurn (receivedInUdp threeDatagrams)) ∧ ∃ svec next,
    hevSocks5UdpRecvmmsgTcp true [] (slots (List.replicate 4 (.replicate 1500 0))) threeOnStream = some (3,svec,next) ∧
      Relays threeDatagrams (relayTurn (3,svec,next.errno)) := by
  have full : ∀ d ∈ threeDatagrams, d.payload ≠ [] := by simp [threeDatagrams]
  obtain ⟨svec,next,went,received⟩ := three_on_stream
  refine ⟨?_,svec,next,went,?_⟩
  · exact (forward_exact (by simp [threeDatagrams]) (received_in_udp (by simp [threeDatagrams])) (fun _ => rfl)
      (.inr fun _ _ => Int.le_refl 0)).mpr full
  · exact (forward_exact (by simp [threeDatagrams]) received (fun _ => rfl) (.inr fun _ _ => Int.le_refl 0)).mpr full

-- A datagram without a payload ends the direction, and nothing is sent, of those before it either.
def emptied : List RelayDatagram := threeDatagrams.take 1++[⟨.ipv4 #v[1,2,3,4] #v[0,53],[]⟩]

theorem forward_closes : Receives (emptied.map RelayDatagram.frame) (receivedInUdp emptied) ∧
    relayTurn (receivedInUdp emptied) = some ⟨-1,false,[]⟩ ∧ ¬Relays emptied (relayTurn (receivedInUdp emptied)) := by
  have closed : relayTurn (receivedInUdp emptied) = some ⟨-1,false,[]⟩ := by decide +kernel
  refine ⟨received_in_udp (by simp [emptied,threeDatagrams]),closed,?_⟩
  rintro ⟨f,same,opened,_⟩
  cases closed.symm.trans same
  exact absurd opened (by decide)

end Psocks.Socks5
