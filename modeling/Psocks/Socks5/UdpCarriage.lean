import Mathlib.Data.List.Forall2
import Psocks.Lib.Runs
import Psocks.Socks5.UdpCodec
import Psocks.Socks5.UdpDatagram
import Psocks.Task.IoSocket

namespace Psocks.Socks5
open Vectored Psocks.Task
variable {size : Nat} {msg : Outgoing} {msgs : List Outgoing} {slot got : HevSocks5UdpMsg} {stack msgv : List HevSocks5UdpMsg}
  {peer : SockaddrIn6}

-- The sending end of a datagram socket: what went, errno, and what the next system
-- calls on it will meet.
structure Postbox where
  sent : List (List UInt8)
  errno : Nat
  script : List Answer

def hevSocks5UdpSendmmsgUdp (msgv : List Outgoing) (box : Postbox) : Option (Int × Postbox) :=
  match datagramBatch msgv with
  | none => some (-1,box)
  | some datagrams => do
    let reply ← transfer ⟨false,true⟩ sendmmsg msgv.length 0 ⟨datagrams,box.sent⟩ box.errno box.script
    pure (reply.res,⟨reply.socket.sent,reply.errno,reply.script⟩)

-- A known type of address, and room for the datagram in a slot of `size` bytes.
def Small (size : Nat) (msg : Outgoing) : Prop := 0 < msg.addrLen ∧ 3+msg.addrLen+msg.data.length ≤ size

instance : Decidable (Small size msg) := inferInstanceAs (Decidable (_ ∧ _))

-- `buf` and `len` of a slot are `size` bytes of its memory, or more.
def Roomy (size : Nat) (slot : HevSocks5UdpMsg) : Prop := size ≤ slot.len ∧ slot.buf+slot.len ≤ slot.mem.length

instance : Decidable (Roomy size slot) := inferInstanceAs (Decidable (_ ∧ _))

theorem known_pieces (known : 0 < msg.addrLen) :
    datagramPieces msg = some [[0,0,0],msg.addr.bytes.take msg.addrLen,msg.data] := by
  obtain ⟨measured,_⟩ := addr_len_value known
  have positive : ¬(msg.addrLen : Int) ≤ 0 := by omega
  simp only [datagramPieces,measured,bind,Option.bind,if_neg positive,Int.toNat_natCast]

theorem encode_datagram (known : 0 < msg.addrLen) :
    encodeDatagram msg = 0::0::0::(msg.addr.bytes.take msg.addrLen++msg.data) := by
  rw [encodeDatagram,known_pieces known]
  simp

theorem batch_built (small : ∀ msg ∈ msgs, Small size msg) : datagramBatch msgs = some (msgs.map encodeDatagram) := by
  induction msgs with
  | nil => rfl
  | cons msg msgs ih =>
    have one := known_pieces (small msg List.mem_cons_self).1
    simp [datagramBatch,ih fun m member => small m (List.mem_cons_of_mem _ member),encodeDatagram,one]

-- A slot with room for the datagram of a message holds the message, whatever it held.
theorem unpack_encoded (source : SockaddrIn6) (small : Small size msg) (roomy : Roomy size slot) :
    ∃ got, unpackDatagram slot ⟨encodeDatagram msg,source⟩ = some got ∧ Carried msg got := by
  obtain ⟨known,fits⟩ := small
  obtain ⟨wide,inside⟩ := roomy
  obtain ⟨measured,four,narrow,_⟩ := addr_len_value known
  have addr : (msg.addr.bytes.take msg.addrLen).length = msg.addrLen := by
    rw [List.length_take,msg.addr.size]
    omega
  have encoded := encode_datagram known
  have count : (encodeDatagram msg).length = 3+msg.addrLen+msg.data.length := by
    rw [encoded]
    simp only [List.length_cons,List.length_append,addr]
    omega
  have whole : (encodeDatagram msg).take slot.len = encodeDatagram msg := List.take_of_length_le (by omega)
  generalize held : slot.mem.drop (slot.buf+(encodeDatagram msg).length) = stale
  have behind : (overwrite slot.mem slot.buf (encodeDatagram msg)).drop (slot.buf+3) =
      msg.addr.bytes.take msg.addrLen++(msg.data++stale) := by
    rw [← List.drop_drop,overwrite_from (by omega),held,encoded]
    simp
  have again : hevSocks5AddrLen (msg.addr.bytes.take msg.addrLen++(msg.data++stale)) = some (msg.addrLen : Int) := by
    obtain ⟨atype,len,tail,layout,_⟩ := addr_split msg.addr
    obtain ⟨k,long⟩ : ∃ k, msg.addrLen = k+2 := ⟨msg.addrLen-2,by omega⟩
    rw [layout,addr_len_pair] at measured
    rw [layout,long,List.take_succ_cons,List.take_succ_cons,List.cons_append,List.cons_append,addr_len_pair,measured,long]
  refine ⟨⟨overwrite slot.mem slot.buf (encodeDatagram msg),.inside (slot.buf+3),slot.buf+(3+msg.addrLen),msg.data.length⟩,?_,?_⟩
  · have long : ¬(encodeDatagram msg).length < 4 := by omega
    have positive : ¬(msg.addrLen : Int) ≤ 0 := by omega
    have covers : ¬(encodeDatagram msg).length < 3+msg.addrLen := by omega
    have rest : (encodeDatagram msg).length-(3+msg.addrLen) = msg.data.length := by omega
    simp only [unpackDatagram,whole,if_neg long,behind,again,bind,Option.bind,if_neg positive,Int.toNat_natCast,if_neg covers,rest]
  · refine ⟨⟨_,rfl,?_,?_⟩,?_,rfl⟩
    · rw [behind,again,measured]
    · rw [behind,List.take_left' addr]
    · simp only [HevSocks5UdpMsg.payload]
      rw [← Nat.add_assoc,← List.drop_drop,behind,List.drop_left' addr,List.take_left]

theorem sendmmsg_posts {box next : Postbox} {res : Int} (small : ∀ msg ∈ msgs, Small size msg)
    (went : hevSocks5UdpSendmmsgUdp msgs box = some (res,next)) :
    next.sent = box.sent++(msgs.take res.toNat).map encodeDatagram := by
  rw [hevSocks5UdpSendmmsgUdp,batch_built small] at went
  obtain ⟨reply,moved,same⟩ := Option.bind_eq_some_iff.mp went
  cases Option.some.inj same
  rw [List.map_take]
  exact mailing_counts (c := 0) (by simpa using moved)

-- Where nothing stops the call, every message goes.
theorem sendmmsg_whole {script : List Answer} {next : Postbox} {res : Int} (small : ∀ msg ∈ msgs, Small size msg)
    (benign : ∀ answer ∈ script, answer.Benign) (went : hevSocks5UdpSendmmsgUdp msgs ⟨wire,errno,script⟩ = some (res,next)) :
    res = msgs.length := by
  rw [hevSocks5UdpSendmmsgUdp,batch_built small] at went
  obtain ⟨reply,moved,same⟩ := Option.bind_eq_some_iff.mp went
  cases Option.some.inj same
  exact (benign_whole sendmmsg_takes benign trivial (by simp) moved).1

theorem unpack_posted (source : SockaddrIn6) (small : ∀ msg ∈ msgs, Small size msg) (roomy : ∀ slot ∈ stack, Roomy size slot)
    (room : msgs.length ≤ stack.length) :
    ∃ filled, unpackBatch stack (msgs.map fun msg => ⟨encodeDatagram msg,source⟩) = some filled ∧
      List.Forall₂ Carried msgs (filled.take msgs.length) := by
  induction msgs generalizing stack with
  | nil => exact ⟨stack,by cases stack <;> rfl,.nil⟩
  | cons msg msgs ih =>
    cases stack with
    | nil => cases room
    | cons slot stack =>
      obtain ⟨got,one,carried⟩ := unpack_encoded source (small msg List.mem_cons_self) (roomy slot List.mem_cons_self)
      obtain ⟨filled,later,all⟩ := ih (fun m member => small m (List.mem_cons_of_mem _ member))
        (fun m member => roomy m (List.mem_cons_of_mem _ member)) (Nat.le_of_succ_le_succ room)
      refine ⟨got::filled,?_,.cons carried all⟩
      simp only [List.map_cons,unpackBatch,one,later,bind,Option.bind,pure]

theorem fetched_batch {filled : List HevSocks5UdpMsg} {errno : Nat} (some_ : msgs ≠ [])
    (whole : unpackBatch stack (msgs.map fun msg => ⟨encodeDatagram msg,peer⟩) = some filled) :
    hevSocks5UdpRecvmmsgUdp stack (some peer) false errno (.batch ((msgs.map encodeDatagram).map (⟨·,peer⟩))) =
      ⟨msgs.length,filled,some peer,errno⟩ := by
  cases msgs with
  | nil => exact (some_ rfl).elim
  | cons first later =>
    simp only [List.map_cons] at whole
    simp [hevSocks5UdpRecvmmsgUdp,whole,List.map_map,Function.comp_def]

-- Both ends of an associated pair of sockets: the messages the sender has sent, the
-- datagrams on their way, the messages the receiver has returned.
structure Carriage where
  posted : List Outgoing
  wire : List (List UInt8)
  got : List HevSocks5UdpMsg
  failed : Bool

def idleCarriage : Carriage := ⟨[],[],[],false⟩

-- A call of the sender, and a call of the receiver that is given up to `n+1` datagrams.
inductive Turn where
  | post (msgs : List Outgoing) (errno : Nat) (script : List Answer)
  | fetch (stack : List HevSocks5UdpMsg) (n errno : Nat)

def carry (size : Nat) (peer : SockaddrIn6) (s : Carriage) : Turn → Option Carriage
  | .post msgs errno script =>
    if ∀ msg ∈ msgs, Small size msg then do
      let (res,box) ← hevSocks5UdpSendmmsgUdp msgs ⟨s.wire,errno,script⟩
      pure {s with posted:=s.posted++msgs.take res.toNat,wire:=box.sent}
    else none
  | .fetch stack n errno =>
    let brought := s.wire.take (min (n+1) stack.length)
    if brought = [] ∨ ¬∀ slot ∈ stack, Roomy size slot then none
    else
      let received := hevSocks5UdpRecvmmsgUdp stack (some peer) false errno (.batch (brought.map (⟨·,peer⟩)))
      some {s with
        wire:=s.wire.drop brought.length
        got:=s.got++received.msgv.take received.res.toNat
        failed:=s.failed || received.res ≤ 0}

-- What a turn hands to the sender.
def Turn.messages : Turn → List Outgoing
  | .post msgs _ _ => msgs
  | .fetch _ _ _ => []

-- The socket accepts: it may have room for less than the call has left, or for nothing at
-- the moment, but no system call fails and the task is not told to stop.
def Turn.Accepting : Turn → Prop
  | .post _ _ script => ∀ answer ∈ script, answer.Benign
  | .fetch _ _ _ => True

-- What has been returned is what was sent first, the rest is on its way.
structure Intact (size : Nat) (s : Carriage) : Prop where
  small : ∀ msg ∈ s.posted, Small size msg
  same : List.Forall₂ Carried (s.posted.take s.got.length) s.got
  wire : s.wire = (s.posted.drop s.got.length).map encodeDatagram
  kept : s.failed = false

variable {s next : Carriage} {turn : Turn} {turns : List Turn}

theorem carry_intact (before : Intact size s) (went : carry size peer s turn = some next) : Intact size next := by
  obtain ⟨small,same,wire,kept⟩ := before
  have count : s.got.length ≤ s.posted.length := by
    have := same.length_eq
    rw [List.length_take] at this
    omega
  cases turn with
  | post msgs errno script =>
    simp only [carry] at went
    split at went
    · rename_i fits
      obtain ⟨⟨res,box⟩,posts,same_⟩ := Option.bind_eq_some_iff.mp went
      cases Option.some.inj same_
      refine ⟨?_,?_,?_,kept⟩
      · intro msg member
        rcases List.mem_append.mp member with old | new
        · exact small msg old
        · exact fits msg (List.mem_of_mem_take new)
      · simp only
        rwa [List.take_append_of_le_length count]
      · simp only
        rw [sendmmsg_posts fits posts,List.drop_append_of_le_length count,List.map_append,wire]
    · cases went
  | fetch stack n errno =>
    simp only [carry] at went
    split at went
    · cases went
    · rename_i usable
      obtain ⟨some_,roomy⟩ := not_or.mp usable
      have roomy := not_not.mp roomy
      have taken : s.wire.take (min (n+1) stack.length) =
          ((s.posted.drop s.got.length).take (min (n+1) stack.length)).map encodeDatagram := by rw [wire,List.map_take]
      have few : ((s.posted.drop s.got.length).take (min (n+1) stack.length)).length ≤ stack.length := by
        rw [List.length_take]
        omega
      have split := List.take_append_drop (min (n+1) stack.length) (s.posted.drop s.got.length)
      rw [taken] at went some_
      generalize (s.posted.drop s.got.length).take (min (n+1) stack.length) = msgs at went some_ few split
      generalize (s.posted.drop s.got.length).drop (min (n+1) stack.length) = rest at split
      obtain ⟨filled,whole,all⟩ := unpack_posted peer
        (fun m member => small m (List.mem_of_mem_drop (split ▸ List.mem_append_left _ member))) roomy few
      have size_ : (filled.take msgs.length).length = msgs.length := all.length_eq.symm
      rw [fetched_batch (fun none_ => some_ (congrArg (List.map encodeDatagram) none_)) whole] at went
      cases Option.some.inj went
      refine ⟨small,?_,?_,?_⟩
      · simp only [Int.toNat_natCast]
        rw [List.length_append,size_,List.take_add,← split,List.take_left]
        exact List.rel_append same all
      · simp only [Int.toNat_natCast,List.length_map]
        rw [List.length_append,size_,← List.drop_drop,wire,← split,← List.map_drop,List.drop_left]
      · have positive : ¬(msgs.length : Int) ≤ 0 := by
          have := List.length_pos_iff.mpr fun none_ => some_ (congrArg (List.map encodeDatagram) none_)
          omega
        simp only [kept,positive,decide_false,Bool.or_self]

theorem carry_posted (accepting : turn.Accepting) (went : carry size peer s turn = some next) :
    next.posted = s.posted++turn.messages := by
  cases turn with
  | post msgs errno script =>
    simp only [carry] at went
    split at went
    · rename_i fits
      obtain ⟨⟨res,box⟩,posts,same⟩ := Option.bind_eq_some_iff.mp went
      cases Option.some.inj same
      have whole := sendmmsg_whole fits accepting posts
      simp only [whole,Int.toNat_natCast,List.take_length,Turn.messages]
    · cases went
  | fetch stack n errno =>
    simp only [carry] at went
    split at went
    · cases went
    · cases Option.some.inj went
      exact (List.append_nil _).symm

theorem exec_posted (accepting : ∀ turn ∈ turns, turn.Accepting) (went : Runs.exec (carry size peer) s turns = some next) :
    next.posted = s.posted++turns.flatMap Turn.messages := by
  induction turns generalizing s with
  | nil =>
    cases Option.some.inj went
    exact (List.append_nil _).symm
  | cons turn turns ih =>
    obtain ⟨first,others⟩ := List.forall_mem_cons.mp accepting
    obtain ⟨middle,step,later⟩ := Runs.exec_cons went
    rw [ih others later,carry_posted first step,List.append_assoc,List.flatMap_cons]

theorem carriage_exact (size : Nat) (peer : SockaddrIn6) (turns : List Turn)
    (went : Runs.exec (carry size peer) idleCarriage turns = some s) :
    s.failed = false ∧ List.Forall₂ Carried (s.posted.take s.got.length) s.got ∧
      s.wire = (s.posted.drop s.got.length).map encodeDatagram ∧
      ((∀ turn ∈ turns, turn.Accepting) → s.posted = turns.flatMap Turn.messages) := by
  have intact := Runs.exec_invariant (Intact size) (fun _ _ _ => carry_intact)
    ⟨by simp [idleCarriage],.nil,rfl,rfl⟩ went
  exact ⟨intact.kept,intact.same,intact.wire,fun accepting => exec_posted accepting went⟩

def staleSlot : HevSocks5UdpMsg := ⟨List.replicate 20 255,.unset,0,20⟩

def threeMessages : List Outgoing := [ipv4Message [1,2],nameMessage 0 (by omega) [],ipv4Message []]

-- Two messages in one batch that goes in two pieces, the second of nothing but the shortest
-- header; a receive of one datagram; a message without a payload; a receive of the rest.
def threeTurns : List Turn :=
  [.post (threeMessages.take 2) 0 [.again false,.ready 0,.again false,.ready 5],.fetch [staleSlot,staleSlot] 0 0,
    .post (threeMessages.drop 2) 0 [.ready 0],.fetch [staleSlot,staleSlot,staleSlot] 7 0]

theorem three_accepting : ∀ turn ∈ threeTurns, turn.Accepting := by
  simp [threeTurns,Turn.Accepting,Answer.Benign]

theorem carriage_exact_three : ∃ s, Runs.exec (carry 20 ⟨afInet6,.replicate 2 1,.replicate 16 1⟩) idleCarriage threeTurns = some s ∧
    s.failed = false ∧ s.wire = [] ∧ s.posted = threeMessages ∧ List.Forall₂ Carried threeMessages s.got := by
  have some_ : (Runs.exec (carry 20 ⟨afInet6,.replicate 2 1,.replicate 16 1⟩) idleCarriage threeTurns).any
      (fun s => s.got.length = 3) = true := by decide +kernel
  obtain ⟨s,went,all⟩ := (Option.any_eq_true _ _).mp some_
  obtain ⟨kept,same,wire,posts⟩ := carriage_exact 20 _ _ went
  have posted : s.posted = threeMessages := posts three_accepting
  have whole : s.got.length = threeMessages.length := of_decide_eq_true all
  rw [posted,whole,List.take_length] at same
  rw [posted,whole,List.drop_length] at wire
  exact ⟨s,went,kept,wire,posted,same⟩

end Psocks.Socks5
