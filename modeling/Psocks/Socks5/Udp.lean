import Psocks.Socks5.Addr
import Psocks.Socks5.UdpFrames
import Psocks.Task.IoSocket

namespace Psocks.Socks5
open Vectored Psocks.Task
variable {nonblock : Bool} {inlet next : Inlet} {head body mem filled : List UInt8} {outlet : Outlet}

-- Where an address pointer of a received message points: nowhere yet, at nothing,
-- into the memory of the slot.
inductive AddrRef where
  | unset
  | null
  | inside (off : Nat)
deriving DecidableEq, Repr

-- A receive slot: its memory, and `addr`, `buf` and `len` of the message in it.
structure HevSocks5UdpMsg where
  mem : List UInt8
  addr : AddrRef
  buf : Nat
  len : Nat
deriving DecidableEq, Repr

-- As the callers set one up over `UDP_BUF_SIZE` bytes of the stack.
def freshSlot (mem : List UInt8) : HevSocks5UdpMsg := ⟨mem,.unset,0,udpBufSize⟩

def slots (stack : List (Vector UInt8 1500)) : List HevSocks5UdpMsg := stack.map fun mem => freshSlot mem.toList

theorem slot_room (mem : Vector UInt8 1500) : mem.toList.length = udpBufSize := Vector.length_toList

def HevSocks5UdpMsg.addrBytes (msg : HevSocks5UdpMsg) : List UInt8 :=
  match msg.addr with
  | .inside off => (msg.mem.drop off).take (msg.buf-off)
  | _ => []

def HevSocks5UdpMsg.payload (msg : HevSocks5UdpMsg) : List UInt8 := (msg.mem.drop msg.buf).take msg.len

def HevSocks5UdpMsg.frame (msg : HevSocks5UdpMsg) : Frame := ⟨msg.addrBytes,msg.payload⟩

-- The first five bytes of a frame. Those of `udp` are stale before, and only read
-- when the result is 5.
def receiveHead (nonblock : Bool) (inlet : Inlet) : Option (Int × List UInt8 × Inlet) := do
  let (res,udp,inlet) ← hevTaskIoSocketRecv ⟨nonblock,false⟩ (List.replicate 5 0) 0 5 inlet
  if 0 < res ∧ res < 5 then
    let (more,udp,inlet) ← hevTaskIoSocketRecv ⟨false,true⟩ udp res.toNat (5-res.toNat) inlet
    pure (res+more,udp,inlet)
  else pure (res,udp,inlet)

-- The two regions a frame goes to: the address behind its first two bytes, which came
-- with the header, and the payload.
def bodyRegions (msg : HevSocks5UdpMsg) (addrlen datlen : Nat) : List Region :=
  [⟨msg.buf+2,addrlen-2⟩,⟨msg.buf+addrlen,datlen⟩]

-- `done` are the `rlen` messages received so far. `msgv[i].len - addrlen` is a size_t.
def hevSocks5UdpRecvmmsgTcp (nonblock : Bool) (done : List HevSocks5UdpMsg) :
    List HevSocks5UdpMsg → Inlet → Option (Int × List HevSocks5UdpMsg × Inlet)
  | [], inlet => some (done.length,done,inlet)
  | msg::rest, inlet => do
    let (res,udp,inlet) ← receiveHead nonblock inlet
    if res ≠ 5 then
      pure (if done = [] then res else done.length,done++msg::rest,inlet)
    else match udp with
      | [high,low,hdrlen,atype,len] =>
        let addrlen := addrLength hdrlen
        let datlen := dataLength high low
        if hdrlen.toNat < 5 then pure (-1,done++msg::rest,inlet)
        else if (msg.len+2^64-addrlen) % 2^64 < datlen then pure (-1,done++msg::rest,inlet)
        else
          let (res,mem,inlet) ← hevTaskIoSocketRecvmsg ⟨false,true⟩ msg.mem (bodyRegions msg addrlen datlen) inlet
          if res ≠ (addrlen-2+datlen : Nat) then pure (res,done++{msg with mem:=mem}::rest,inlet)
          else
            let filled : HevSocks5UdpMsg :=
              ⟨overwrite mem msg.buf [atype,len],.inside msg.buf,msg.buf+addrlen,datlen⟩
            hevSocks5UdpRecvmmsgTcp nonblock (done++[filled]) rest inlet
      | _ => none

-- A message to send: what `addr` and `buf` point at.
structure Outgoing where
  addr : HevSocks5Addr
  data : List UInt8
deriving DecidableEq

-- The three pieces of one message. `none`: the type of the address is unknown.
def framePieces (msg : Outgoing) : Option (List (List UInt8)) := do
  let addrlen ← hevSocks5AddrLen msg.addr.bytes
  if addrlen ≤ 0 then none
  else
    let hdrlen := UInt8.ofNat (3+addrlen.toNat)
    some [be16 msg.data.length++[hdrlen],msg.addr.bytes.take addrlen.toNat,msg.data]

def batchPieces : List Outgoing → Option (List (List UInt8))
  | [] => some []
  | msg::rest => do
    let pieces ← framePieces msg
    let later ← batchPieces rest
    pure (pieces++later)

def hevSocks5UdpSendmmsgTcp (msgv : List Outgoing) (outlet : Outlet) : Option (Int × Outlet) :=
  match batchPieces msgv with
  | none => some (-1,outlet)
  | some pieces => do
    let (res,outlet) ← hevTaskIoSocketSendmsg ⟨false,true⟩ pieces outlet
    pure (if res ≤ 0 then -1 else msgv.length,outlet)

-- What one message is on the stream; nothing when it cannot be sent.
def encode (msg : Outgoing) : List UInt8 := ((framePieces msg).getD []).flatten

theorem batch_flatten (built : batchPieces msgv = some pieces) : pieces.flatten = msgv.flatMap encode := by
  induction msgv generalizing pieces with
  | nil => cases built; rfl
  | cons msg rest ih =>
    obtain ⟨first,one,step⟩ := Option.bind_eq_some_iff.mp built
    obtain ⟨later,all,same⟩ := Option.bind_eq_some_iff.mp step
    cases same
    rw [List.flatten_append,ih all,List.flatMap_cons,encode,one,Option.getD_some]

theorem overwrite_whole (whole : head.length = mem.length) : overwrite mem 0 head = head := by
  rw [overwrite,List.take_zero,List.nil_append,List.drop_of_length_le (by omega),List.append_nil]

theorem head_takes (went : receiveHead nonblock inlet = some (res,head,next)) :
    ∃ data, inlet.stream = data++next.stream ∧ data.length ≤ 5 ∧ (res = 5 → head = data ∧ data.length = 5) ∧
      (data.length = 5 → res = 5) ∧
      (data = [] → res = 0 ∨ res = -2 ∨ res = -1 ∧ (next.errno = eagain → nonblock = true)) := by
  obtain ⟨⟨first,udp,middle⟩,one,step⟩ := Option.bind_eq_some_iff.mp went
  obtain ⟨data,cut,written,within,tells⟩ := recv_takes (by simp) one
  simp only at step
  split at step
  · rename_i part
    obtain ⟨⟨more,both,after⟩,two,last⟩ := Option.bind_eq_some_iff.mp step
    cases Option.some.inj last
    have count : first = data.length := tells_count tells (by omega)
    have wide : udp.length = 5 := by rw [written,overwrite_length (by simpa using within),List.length_replicate]
    obtain ⟨rest,later,filled,left,heard⟩ := recv_takes (by omega) two
    have joined : both = overwrite (List.replicate 5 0) 0 (data++rest) := by
      rw [filled,written,count,Int.toNat_natCast,← overwrite_twice (Nat.zero_le _),Nat.zero_add]
    have size : (data++rest).length = data.length+rest.length := List.length_append
    refine ⟨data++rest,by rw [cut,later,List.append_assoc],by omega,fun five => ?_,fun five => ?_,fun empty => ?_⟩
    · have whole : (data++rest).length = 5 := by
        rcases heard with all | ⟨_,stopped⟩
        · omega
        · omega
      exact ⟨by rw [joined,overwrite_whole (by simpa using whole)],whole⟩
    · rcases heard with all | ⟨none_moved,_⟩
      · omega
      · omega
    · rw [empty] at size
      simp only [List.length_nil] at size
      omega
  · rename_i part
    cases Option.some.inj step
    refine ⟨data,cut,within,fun five => ?_,fun five => ?_,fun empty => ?_⟩
    · have all := tells_count tells (by omega)
      have whole : data.length = 5 := by omega
      exact ⟨by rw [written,overwrite_whole (by simpa using whole)],whole⟩
    · rcases tells with all | ⟨none_moved,_⟩
      · omega
      · omega
    · subst empty
      rcases tells with all | ⟨_,stopped⟩
      · exact .inl all
      · exact .inr stopped

end Psocks.Socks5
