import Psocks.Lib.Runs
import Psocks.Session.Udp

namespace Psocks.SessionUdp
open MappedDns Pbufs Socks5 Psocks.Task Utils Vectored
variable {os : Platform} {num : Nat}

-- A call of `fwd_f` that is suspended in sendmsg: how many frames it took, how much of
-- their bytes is out, and what is left of its pieces.
structure Batch where
  count : Nat
  len : Nat
  size : Nat
  pieces : List (List UInt8)

-- The direction to the relay: the session, `res_f` of the splice loop, the bytes on the
-- connection; and what was queued and what was removed, in that order.
structure Uplink where
  self : HevSocks5SessionUdp
  resF : Int
  sending : Option Batch
  wire : List UInt8
  queued : List HevSocks5UdpFrame
  removed : List HevSocks5UdpFrame

def uplink : Uplink := ⟨⟨[],0,0,0⟩,1,none,[],[],[]⟩

-- lwIP hands over a datagram, at any time; the splice loop comes to `fwd_f`; a system
-- call of the batch is answered.
inductive UplinkEvent (os : Platform) where
  | recv (dns : Option (Dns os)) (p : List Pbuf) (allocated : Option HevSocks5Addr) (ip : IpAddr)
      (port : BitVec 16)
  | forward
  | answer (answer : Answer)

def arrive (s : Uplink) (self : HevSocks5SessionUdp) : Uplink :=
  {s with self:=self,queued:=s.queued++self.frameList.drop s.self.frameList.length}

-- `fwd_f` up to the first system call. `none`: the list is shorter than `frames` says.
def forward (num : Nat) (s : Uplink) : Option Uplink :=
  if s.resF < 0 then some s
  else if s.self.frames = 0 then some {s with resF:=0}
  else
    let count := min num s.self.frames
    if s.self.frameList.length < count then none
    else match batchPieces ((s.self.frameList.take count).map HevSocks5UdpFrame.outgoing) with
      | none => some {s with resF:=-1}
      | some pieces => some {s with sending:=some ⟨count,total List.length pieces,0,pieces⟩}

-- The end of `fwd_f`, with the result of sendmmsg.
def settle (s : Uplink) (res : Int) : Uplink :=
  if res ≤ 0 then {s with sending:=none,resF:=-1}
  else
    let self := {s.self with frameList:=s.self.frameList.drop res.toNat,frames:=s.self.frames-res.toNat}
    {s with self:=self,sending:=none,resF:=1,removed:=s.removed++s.self.frameList.take res.toNat}

-- Any positive result of sendmsg stands for the whole batch.
def answered (s : Uplink) (batch : Batch) (answer : Answer) : Uplink :=
  match pass ⟨false,true⟩ sendmsg batch.len batch.size ⟨batch.pieces,s.wire⟩ answer with
  | .retry size socket => {s with sending:=some {batch with size:=size,pieces:=socket.pieces},wire:=socket.wire}
  | .done res socket => settle {s with wire:=socket.wire} (if res ≤ 0 then -1 else batch.count)

def uplinkStep (num : Nat) (s : Uplink) : UplinkEvent os → Option Uplink
  | .recv dns p allocated ip port => (udpRecvHandler s.self dns p allocated ip port).map (arrive s)
  | .forward => if s.sending.isSome then none else forward num s
  | .answer answer => s.sending.map fun batch => answered s batch answer

-- Answered one after the other, the system calls of a batch end it as sendmsg ends.
theorem batch_answers (os : Platform) (num : Nat) {s : Uplink} {script : List Answer} (here : s.sending = some batch)
    (went : transfer ⟨false,true⟩ sendmsg batch.len batch.size ⟨batch.pieces,s.wire⟩ errno script = some reply)
    (spent : reply.script = []) :
    Runs.exec (uplinkStep num) s (script.map (@UplinkEvent.answer os)) =
      some (settle {s with wire:=reply.socket.wire} (if reply.res ≤ 0 then -1 else batch.count)) := by
  induction script generalizing s batch errno with
  | nil => cases went
  | cons answer script ih =>
    have taken : uplinkStep num s (@UplinkEvent.answer os answer) = some (answered s batch answer) := by
      rw [uplinkStep,here]
      rfl
    rw [List.map_cons,Runs.exec,taken,Option.bind_some]
    rcases transfer_cons went with ⟨size,socket,passed,later⟩ | ⟨res,socket,passed,rfl⟩
    · have going : answered s batch answer =
          {s with sending:=some {batch with size:=size,pieces:=socket.pieces},wire:=socket.wire} := by
        rw [answered,passed]
      rw [going]
      have still : {s with sending:=some {batch with size:=size,pieces:=socket.pieces},wire:=socket.wire}.sending =
          some {batch with size:=size,pieces:=socket.pieces} := rfl
      have rest := ih still later
      exact rest
    · have ended : answered s batch answer =
          settle {s with wire:=socket.wire} (if res ≤ 0 then -1 else batch.count) := by
        rw [answered,passed]
      cases show script = [] from spent
      rw [ended]
      rfl

-- So a turn of `fwd_f` is one call of hev_socks5_udp_sendmmsg on the first frames of the queue.
theorem forward_sendmmsg {s : Uplink} {script : List Answer} (free : s.sending = none) (going : 0 ≤ s.resF)
    (waiting : s.self.frames ≠ 0) (listed : s.self.frames = s.self.frameList.length)
    (went : hevSocks5UdpSendmmsgTcp ((s.self.frameList.take num).map HevSocks5UdpFrame.outgoing) ⟨s.wire,errno,script⟩ =
      some (res,outlet)) (spent : outlet.script = []) (called : script ≠ []) :
    Runs.exec (uplinkStep num) s (.forward::script.map (@UplinkEvent.answer os)) =
      some (settle {s with wire:=outlet.wire} res) := by
  have first : s.self.frameList.take (min num s.self.frames) = s.self.frameList.take num := by
    rw [listed,List.take_eq_take_iff]
    omega
  cases built : batchPieces ((s.self.frameList.take num).map HevSocks5UdpFrame.outgoing) with
  | none =>
    rw [hevSocks5UdpSendmmsgTcp,built] at went
    cases went
    exact (called spent).elim
  | some pieces =>
    rw [hevSocks5UdpSendmmsgTcp,built] at went
    obtain ⟨⟨sent,after⟩,wrote,same⟩ := Option.bind_eq_some_iff.mp went
    cases Option.some.inj same
    obtain ⟨reply,moved,reached⟩ := Option.map_eq_some_iff.mp wrote
    cases reached
    have opened_at : forward num s =
        some {s with sending:=some ⟨min num s.self.frames,total List.length pieces,0,pieces⟩} := by
      rw [forward,if_neg (Int.not_lt.mpr going),if_neg waiting]
      simp only [first,built]
      rw [if_neg (by omega)]
    have taken : uplinkStep num s (@UplinkEvent.forward os) =
        some {s with sending:=some ⟨min num s.self.frames,total List.length pieces,0,pieces⟩} := by
      rw [uplinkStep,free]
      exact opened_at
    have count : ((s.self.frameList.take num).map HevSocks5UdpFrame.outgoing).length = min num s.self.frames := by
      rw [List.length_map,List.length_take,listed]
    rw [Runs.exec,taken,Option.bind_some,count]
    have under : {s with sending:=some ⟨min num s.self.frames,total List.length pieces,0,pieces⟩}.sending =
        some (⟨min num s.self.frames,total List.length pieces,0,pieces⟩ : Batch) := rfl
    have answers := batch_answers os num under moved spent
    exact answers

def encoded (frames : List HevSocks5UdpFrame) : List UInt8 := frames.flatMap fun frame => encode frame.outgoing

-- The bytes `out` of a suspended batch are on the connection, and its pieces are the others.
structure Underway (s : Uplink) (batch : Batch) (out : List UInt8) : Prop where
  inside : batch.count ≤ s.self.frameList.length
  wire : s.wire = encoded s.removed++out
  whole : out++batch.pieces.flatten = encoded (s.self.frameList.take batch.count)
  size : out.length = batch.size
  len : batch.size+total List.length batch.pieces = batch.len

structure InOrder (s : Uplink) : Prop where
  counted : s.self.frames = s.self.frameList.length
  listed : s.queued = s.removed++s.self.frameList
  idle : s.sending = none → s.wire = encoded s.removed
  busy : ∀ batch, s.sending = some batch → ∃ out, Underway s batch out

-- No answer ends a batch of which a part is written.
def Unbroken (s : Uplink) : UplinkEvent os → Prop
  | .answer answer => ∀ batch, s.sending = some batch → 0 < batch.size → answer.Benign
  | _ => True

theorem uplink_in_order : InOrder uplink := ⟨rfl,rfl,fun _ => rfl,fun batch here => by cases here⟩

theorem encoded_append (a b : List HevSocks5UdpFrame) : encoded (a++b) = encoded a++encoded b := List.flatMap_append

theorem arrive_in_order {dns : Option (Dns os)} (before : InOrder s)
    (went : udpRecvHandler s.self dns p allocated ip port = some self) : InOrder (arrive s self) := by
  obtain ⟨new,list,count⟩ := recv_handler_queue went
  have behind : self.frameList.drop s.self.frameList.length = new := by rw [list,List.drop_left]
  refine ⟨?_,?_,before.idle,fun batch here => ?_⟩
  · show self.frames = self.frameList.length
    rw [count,list,List.length_append,before.counted]
  · show s.queued++self.frameList.drop s.self.frameList.length = s.removed++self.frameList
    rw [behind,list,before.listed,List.append_assoc]
  · obtain ⟨out,under⟩ := before.busy batch here
    refine ⟨out,?_,under.wire,?_,under.size,under.len⟩
    · show batch.count ≤ self.frameList.length
      rw [list,List.length_append]
      exact Nat.le_add_right_of_le under.inside
    · show out++batch.pieces.flatten = encoded (self.frameList.take batch.count)
      rw [list,List.take_append_of_le_length under.inside,under.whole]

theorem batch_encoded {frames : List HevSocks5UdpFrame}
    (built : batchPieces (frames.map HevSocks5UdpFrame.outgoing) = some pieces) : pieces.flatten = encoded frames := by
  rw [batch_flatten built,List.flatMap_map]
  rfl

theorem forward_in_order (before : InOrder s) (free : s.sending = none) (went : forward num s = some next) :
    InOrder next := by
  have unchanged : ∀ res, InOrder {s with resF:=res} := by
    refine fun res => ⟨before.counted,before.listed,before.idle,fun batch here => ?_⟩
    obtain ⟨out,under⟩ := before.busy batch here
    exact ⟨out,under.inside,under.wire,under.whole,under.size,under.len⟩
  unfold forward at went
  split at went
  · cases Option.some.inj went
    exact before
  split at went
  · cases Option.some.inj went
    exact unchanged 0
  simp only at went
  split at went
  · cases went
  rename_i enough
  split at went
  · cases Option.some.inj went
    exact unchanged (-1)
  · rename_i pieces built
    cases Option.some.inj went
    refine ⟨before.counted,before.listed,(fun here => by cases here),fun batch here => ?_⟩
    cases Option.some.inj here
    refine ⟨[],Nat.not_lt.mp enough,?_,batch_encoded built,rfl,Nat.zero_add _⟩
    rw [List.append_nil]
    exact before.idle free

theorem settle_failed (counted : s.self.frames = s.self.frameList.length) (listed : s.queued = s.removed++s.self.frameList)
    (wire : s.wire = encoded s.removed) (bad : res ≤ 0) : InOrder (settle s res) := by
  rw [settle,if_pos bad]
  exact ⟨counted,listed,fun _ => wire,fun _ here => by cases here⟩

theorem settle_whole {count : Nat} (counted : s.self.frames = s.self.frameList.length) (listed : s.queued = s.removed++s.self.frameList)
    (wire : s.wire = encoded s.removed++encoded (s.self.frameList.take count)) : InOrder (settle s count) := by
  by_cases some_frames : 0 < count
  · rw [settle,if_neg (by omega),Int.toNat_natCast]
    refine ⟨?_,?_,fun _ => ?_,fun _ here => by cases here⟩
    · show s.self.frames-count = (s.self.frameList.drop count).length
      rw [List.length_drop,counted]
    · show s.queued = s.removed++s.self.frameList.take count++s.self.frameList.drop count
      rw [List.append_assoc,List.take_append_drop,listed]
    · show s.wire = encoded (s.removed++s.self.frameList.take count)
      rw [encoded_append,wire]
  · have empty : count = 0 := by omega
    subst empty
    exact settle_failed counted listed (by rw [wire,List.take_zero]; exact List.append_nil _) (Int.le_refl 0)

theorem answered_in_order (before : InOrder s) (here : s.sending = some batch)
    (kept : 0 < batch.size → answer.Benign) : InOrder (answered s batch answer) := by
  obtain ⟨out,under⟩ := before.busy batch here
  have len := under.len
  have size := under.size
  unfold answered
  split
  · rename_i count socket passed
    rcases pass_retry passed with ⟨_,_,rfl,rfl⟩ | ⟨n,_,_,_,rfl,_,rfl⟩
    · refine ⟨before.counted,before.listed,(fun none_here => by cases none_here),fun other same => ?_⟩
      cases Option.some.inj same
      exact ⟨out,under.inside,under.wire,under.whole,under.size,under.len⟩
    · obtain ⟨more,moved,wrote,rest,left⟩ := sendmsg_drains n ⟨batch.pieces,s.wire⟩
      refine ⟨before.counted,before.listed,(fun none_here => by cases none_here),fun other same => ?_⟩
      cases Option.some.inj same
      refine ⟨out++more,under.inside,?_,?_,?_,?_⟩
      · rw [wrote,under.wire,List.append_assoc]
      · rw [List.append_assoc,rest,under.whole]
      · rw [List.length_append,size,moved]
      · simp only at left ⊢
        omega
  · rename_i res socket passed
    rcases pass_done 0 passed with ⟨rfl,ended,other⟩ | ⟨n,_,rfl,rfl,all⟩
    · -- Only a batch with nothing written can end without a byte.
      have nothing : batch.size = 0 := by
        by_contra some_out
        rw [benign_waits (kept (by omega)) other] at passed
        cases passed
      have empty : out = [] := List.length_eq_zero_iff.mp (size.trans nothing)
      have bad : res ≤ 0 := by
        rcases ended with ⟨rfl,_⟩ | ⟨_,rfl⟩
        · simp [orSize,nothing]
        · simp [orSize,nothing]
      rw [if_pos bad]
      exact settle_failed before.counted before.listed (by rw [under.wire,empty,List.append_nil]) (by decide)
    · obtain ⟨more,moved,wrote,rest,left⟩ := sendmsg_drains n ⟨batch.pieces,s.wire⟩
      have count : (sendmsg n ⟨batch.pieces,s.wire⟩).1 = min (n+1) (total List.length batch.pieces) := rfl
      have none_left : total List.length (sendmsg n ⟨batch.pieces,s.wire⟩).2.pieces = 0 := by
        have ends := all rfl
        simp only at left
        omega
      have empty : (sendmsg n ⟨batch.pieces,s.wire⟩).2.pieces.flatten = [] :=
        List.length_eq_zero_iff.mp ((gather_total _).trans none_left)
      rw [empty,List.append_nil] at rest
      have whole : out++more = encoded (s.self.frameList.take batch.count) := by rw [rest,under.whole]
      have written : (sendmsg n ⟨batch.pieces,s.wire⟩).2.wire = encoded s.removed++(out++more) := by
        rw [wrote,under.wire,List.append_assoc]
      by_cases bad : ((batch.size+(sendmsg n ⟨batch.pieces,s.wire⟩).1 : Nat) : Int) ≤ 0
      · have nothing : out++more = [] := List.length_eq_zero_iff.mp (by rw [List.length_append,size,moved]; omega)
        simp only [if_true,if_pos bad]
        exact settle_failed before.counted before.listed (by rw [written,nothing,List.append_nil]) (by decide)
      · simp only [if_true,if_neg bad]
        exact settle_whole before.counted before.listed (by rw [written,whole])

theorem step_in_order {event : UplinkEvent os} (before : InOrder s) (kept : Unbroken s event)
    (went : uplinkStep num s event = some next) : InOrder next := by
  cases event with
  | recv dns p allocated ip port =>
    obtain ⟨self,handled,rfl⟩ := Option.map_eq_some_iff.mp went
    exact arrive_in_order before handled
  | forward =>
    simp only [uplinkStep] at went
    split at went
    · cases went
    · rename_i free
      exact forward_in_order before (by simpa using free) went
  | answer answer =>
    obtain ⟨batch,here,rfl⟩ := Option.map_eq_some_iff.mp went
    exact answered_in_order before here (kept batch here)

theorem in_order_wire (order : InOrder s) : s.wire <+: encoded s.queued ∧ encoded s.removed <+: s.wire := by
  rw [order.listed,encoded_append]
  cases here : s.sending with
  | none =>
    rw [order.idle here]
    exact ⟨List.prefix_append _ _,List.prefix_rfl⟩
  | some batch =>
    obtain ⟨out,under⟩ := order.busy batch here
    rw [under.wire]
    refine ⟨(List.prefix_append_right_inj _).mpr ?_,List.prefix_append _ _⟩
    have front : encoded s.self.frameList = encoded (s.self.frameList.take batch.count)++
        encoded (s.self.frameList.drop batch.count) := by rw [← encoded_append,List.take_append_drop]
    rw [front,← under.whole,List.append_assoc]
    exact List.prefix_append _ _

theorem frames_in_order {events : List (UplinkEvent os)} (went : Runs.exec (uplinkStep num) uplink events = some s)
    (unbroken : Runs.Along (uplinkStep num) Unbroken uplink events) :
    s.queued = s.removed++s.self.frameList ∧ s.wire <+: encoded s.queued ∧ encoded s.removed <+: s.wire := by
  have order := Runs.exec_along InOrder (fun _ _ _ => step_in_order) uplink_in_order unbroken went
  exact ⟨order.listed,in_order_wire order⟩

-- A datagram of two bytes to 1.2.3.4, port 53, with no name for the address.
def datagram : UplinkEvent .plain :=
  .recv none (chain [[7,8]]) (some .zero) (.v4 0x01020304) 53

def datagramIpv6 : UplinkEvent .plain :=
  .recv none (chain [[9]]) (some .zero) (.v6 (.replicate 16 2)) 53

-- Two frames in one batch of three pieces, another one queued meanwhile, and five bytes of it.
def piecewise : List (UplinkEvent .plain) :=
  [datagram,datagramIpv6,.forward,.answer (.ready 4),.answer (.again false),datagram,.answer (.ready 19),.answer (.ready 99),
    .forward,.answer (.again false),.answer (.ready 4)]

theorem piecewise_unbroken (s : Uplink) : ∀ event ∈ piecewise, Unbroken s event := by
  intro event member
  cases event with
  | recv dns p allocated ip port => trivial
  | forward => trivial
  | answer answer =>
    intro _ _ _
    simp only [piecewise,datagram,datagramIpv6,List.mem_cons,List.not_mem_nil,or_false,reduceCtorEq,false_or,UplinkEvent.answer.injEq] at member
    rcases member with rfl | rfl | rfl | rfl | rfl | rfl <;> trivial

theorem frames_in_order_pieces : ∃ s, Runs.exec (uplinkStep 10) uplink piecewise = some s ∧
    (s.queued.length,s.removed.length,s.resF) = (3,2,1) ∧
    s.wire = [0,2,10,1,1,2,3,4,0,53,7,8]++([0,1,22,4]++List.replicate 16 2++[0,53,9])++[0,2,10,1,1] ∧
    s.queued = s.removed++s.self.frameList ∧ s.wire <+: encoded s.queued ∧ encoded s.removed <+: s.wire := by
  have reached : (Runs.exec (uplinkStep 10) uplink piecewise).map (fun s => ((s.queued.length,s.removed.length,s.resF),s.wire)) =
      some ((3,2,1),[0,2,10,1,1,2,3,4,0,53,7,8]++([0,1,22,4]++List.replicate 16 2++[0,53,9])++[0,2,10,1,1]) := by decide +kernel
  obtain ⟨s,went,same⟩ := Option.map_eq_some_iff.mp reached
  obtain ⟨counts,wire⟩ := Prod.mk.inj same
  exact ⟨s,went,counts,wire,frames_in_order went (Runs.along_all fun event member s => piecewise_unbroken s event member)⟩

-- Five of the twelve bytes go out, then the wait for the rest ends.
def brokenOff : List (UplinkEvent .plain) := [datagram,.forward,.answer (.ready 4),.answer (.again true)]

theorem broken_off_reached : (Runs.exec (uplinkStep 10) uplink brokenOff).map
    (fun s => (s.wire,encoded s.removed,s.self.frameList.length,s.resF)) =
      some ([0,2,10,1,1],[0,2,10,1,1,2,3,4,0,53,7,8],0,1) := by decide +kernel

-- The frame is removed all the same, and the direction stays open.
theorem frame_cut : ∃ s, Runs.exec (uplinkStep 10) uplink brokenOff = some s ∧ s.wire = [0,2,10,1,1] ∧
    encoded s.removed = [0,2,10,1,1,2,3,4,0,53,7,8] ∧ s.resF = 1 ∧ ¬encoded s.removed <+: s.wire := by
  obtain ⟨s,went,same⟩ := Option.map_eq_some_iff.mp broken_off_reached
  obtain ⟨wire,more⟩ := Prod.mk.inj same
  obtain ⟨removed,rest⟩ := Prod.mk.inj more
  refine ⟨s,went,wire,removed,(Prod.mk.inj rest).2,?_⟩
  rw [wire,removed]
  decide

end Psocks.SessionUdp
