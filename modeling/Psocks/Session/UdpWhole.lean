import Psocks.Session.UdpQueue
import Psocks.Session.UdpSend
import Psocks.Socks5.UdpCarriage

namespace Psocks.SessionUdp
open MappedDns Pbufs Socks5 Psocks.Task Utils
variable {os : Platform} {num : Nat} {frame : HevSocks5UdpFrame} {taken : List HevSocks5UdpFrame}

-- hev_socks5_addr_len of the frame's address is positive.
def Known (frame : HevSocks5UdpFrame) : Prop := 0 < frame.outgoing.addrLen

-- `len` of the first pbuf is `tot_len`.
def FirstHoldsAll (frame : HevSocks5UdpFrame) : Prop := (frame.data.head frame.present).len = totLen frame.data

def addressBytes (frame : HevSocks5UdpFrame) : List UInt8 := frame.addr.bytes.take frame.outgoing.addrLen

-- The three pieces and the datagram that carry all pbufs of the chain.
def wholePieces (frame : HevSocks5UdpFrame) : List (List UInt8) :=
  [be16 (totLen frame.data)++[UInt8.ofNat (3+frame.outgoing.addrLen)],addressBytes frame,bytes frame.data]

def wholeDatagram (frame : HevSocks5UdpFrame) : List UInt8 := [0,0,0]++addressBytes frame++bytes frame.data

-- Of the frames that a turn takes, if it sends them.
def FirstsHoldAll (taken : List HevSocks5UdpFrame) : Prop := (∀ f ∈ taken, Known f) → ∀ f ∈ taken, FirstHoldsAll f

theorem first_payload (exact_ : Exact frame.data) : FirstHoldsAll frame ↔ frame.outgoing.data = bytes frame.data := by
  obtain ⟨addr,data,present⟩ := frame
  cases data with
  | nil => exact (present rfl).elim
  | cons p rest =>
    have total := exact_total exact_
    simp only [FirstHoldsAll,HevSocks5UdpFrame.outgoing,List.head_cons,total,bytes_cons,List.length_append,Pbuf.len]
    constructor
    · intro alone
      have nothing : bytes rest = [] := List.length_eq_zero_iff.mp (by omega)
      rw [nothing,List.append_nil]
    · intro same
      have lengths := congrArg List.length same
      rwa [List.length_append] at lengths

theorem frame_pieces (known : Known frame) : framePieces frame.outgoing =
    some [be16 frame.outgoing.data.length++[UInt8.ofNat (3+frame.outgoing.addrLen)],addressBytes frame,frame.outgoing.data] := by
  obtain ⟨measured,_⟩ := addr_len_value known
  have positive : ¬(frame.outgoing.addrLen : Int) ≤ 0 := by
    unfold Known at known
    omega
  simp only [framePieces,measured,bind,Option.bind,if_neg positive,Int.toNat_natCast]
  rfl

theorem unknown_pieces (unknown : ¬Known frame) : framePieces frame.outgoing = none ∧ datagramPieces frame.outgoing = none := by
  unfold Known Outgoing.addrLen at unknown
  unfold framePieces datagramPieces
  cases measured : hevSocks5AddrLen frame.outgoing.addr.bytes with
  | none => exact ⟨rfl,rfl⟩
  | some len =>
    rw [measured,Option.getD_some] at unknown
    have bad : len ≤ 0 := by omega
    simp only [bind,Option.bind,if_pos bad,and_self]

theorem pieces_whole (exact_ : Exact frame.data) (known : Known frame) :
    framePieces frame.outgoing = some (wholePieces frame) ↔ FirstHoldsAll frame := by
  rw [frame_pieces known,first_payload exact_,wholePieces]
  constructor
  · intro same
    simp only [Option.some.injEq,List.cons.injEq] at same
    exact same.2.2.1
  · intro same
    rw [same,exact_total exact_]

theorem datagram_whole (exact_ : Exact frame.data) (known : Known frame) :
    encodeDatagram frame.outgoing = wholeDatagram frame ↔ FirstHoldsAll frame := by
  rw [encode_datagram known,first_payload exact_,wholeDatagram]
  show [0,0,0]++(addressBytes frame++frame.outgoing.data) = [0,0,0]++addressBytes frame++bytes frame.data ↔ _
  rw [List.append_assoc]
  exact (List.append_right_inj _).trans (List.append_right_inj _)

-- Where an address is unknown, no message of the batch is sent.
theorem batch_known (built : batchPieces (taken.map HevSocks5UdpFrame.outgoing) = some pieces) : ∀ f ∈ taken, Known f := by
  induction taken generalizing pieces with
  | nil => simp
  | cons frame rest ih =>
    obtain ⟨first,one,step⟩ := Option.bind_eq_some_iff.mp built
    obtain ⟨later,all,_⟩ := Option.bind_eq_some_iff.mp step
    refine List.forall_mem_cons.mpr ⟨?_,ih all⟩
    by_contra unknown
    cases (unknown_pieces unknown).1.symm.trans one

theorem datagrams_known (built : datagramBatch (taken.map HevSocks5UdpFrame.outgoing) = some left) : ∀ f ∈ taken, Known f := by
  induction taken generalizing left with
  | nil => simp
  | cons frame rest ih =>
    obtain ⟨first,one,step⟩ := Option.bind_eq_some_iff.mp built
    obtain ⟨later,all,_⟩ := Option.bind_eq_some_iff.mp step
    refine List.forall_mem_cons.mpr ⟨?_,ih all⟩
    by_contra unknown
    cases (unknown_pieces unknown).2.symm.trans one

theorem batch_whole (exact_ : ∀ f ∈ taken, Exact f.data)
    (built : batchPieces (taken.map HevSocks5UdpFrame.outgoing) = some pieces) :
    pieces = taken.flatMap wholePieces ↔ ∀ f ∈ taken, FirstHoldsAll f := by
  have known := batch_known built
  induction taken generalizing pieces with
  | nil =>
    cases built
    simp
  | cons frame rest ih =>
    obtain ⟨first,one,step⟩ := Option.bind_eq_some_iff.mp built
    obtain ⟨later,all,same⟩ := Option.bind_eq_some_iff.mp step
    cases same
    obtain ⟨firstExact,restExact⟩ := List.forall_mem_cons.mp exact_
    obtain ⟨firstKnown,restKnown⟩ := List.forall_mem_cons.mp known
    have three : first.length = (wholePieces frame).length := by
      cases (frame_pieces firstKnown).symm.trans one
      rfl
    have head : first = wholePieces frame ↔ FirstHoldsAll frame := by
      rw [← pieces_whole firstExact firstKnown,one,Option.some.injEq]
    have tail : later = rest.flatMap wholePieces ↔ ∀ f ∈ rest, FirstHoldsAll f := ih restExact all restKnown
    rw [List.flatMap_cons,List.forall_mem_cons]
    constructor
    · intro joined
      obtain ⟨front,behind⟩ := List.append_inj joined three
      exact ⟨head.mp front,tail.mp behind⟩
    · intro ⟨front,behind⟩
      rw [head.mpr front,tail.mpr behind]

theorem datagrams_whole (exact_ : ∀ f ∈ taken, Exact f.data)
    (built : datagramBatch (taken.map HevSocks5UdpFrame.outgoing) = some left) :
    left = taken.map wholeDatagram ↔ ∀ f ∈ taken, FirstHoldsAll f := by
  have known := datagrams_known built
  rw [datagram_batch built,List.map_map,List.map_inj_left]
  exact forall₂_congr fun f member => datagram_whole (exact_ f member) (known f member)

theorem pieces_built (known : ∀ f ∈ taken, Known f) : ∃ pieces, batchPieces (taken.map HevSocks5UdpFrame.outgoing) = some pieces := by
  induction taken with
  | nil => exact ⟨[],rfl⟩
  | cons frame rest ih =>
    obtain ⟨firstKnown,restKnown⟩ := List.forall_mem_cons.mp known
    obtain ⟨later,all⟩ := ih restKnown
    exact ⟨_,by rw [List.map_cons,batchPieces,frame_pieces firstKnown,all]; rfl⟩

theorem datagrams_built (known : ∀ f ∈ taken, Known f) :
    datagramBatch (taken.map HevSocks5UdpFrame.outgoing) = some (taken.map fun f => encodeDatagram f.outgoing) := by
  induction taken with
  | nil => rfl
  | cons frame rest ih =>
    obtain ⟨firstKnown,restKnown⟩ := List.forall_mem_cons.mp known
    have one := known_pieces firstKnown
    simp [datagramBatch,ih restKnown,encodeDatagram,one]

-- UDP in TCP: a batch that a turn of `fwd_f` builds carries whole chains.
def StreamWhole (num : Nat) (s : Uplink) : UplinkEvent os → Prop
  | .forward => ∀ next batch, s.sending = none → forward num s = some next → next.sending = some batch →
    batch.pieces = (s.self.frameList.take batch.count).flatMap wholePieces
  | _ => True

def StreamFirsts (num : Nat) (s : Uplink) : UplinkEvent os → Prop
  | .forward => s.sending = none → 0 ≤ s.resF → FirstsHoldAll (s.self.frameList.take (min num s.self.frames))
  | _ => True

-- A chain that lwIP hands over says its length.
def UplinkEvent.Measured : UplinkEvent os → Prop
  | .recv _ p _ _ _ => Exact p
  | _ => True

structure Filed (s : Uplink) : Prop where
  counted : s.self.frames = s.self.frameList.length
  exactly : ∀ f ∈ s.self.frameList, Exact f.data

theorem recv_handler_data {self next : HevSocks5SessionUdp} {dns : Option (Dns os)}
    (went : udpRecvHandler self dns p allocated ip port = some next) : ∀ f ∈ next.frameList, f ∈ self.frameList ∨ f.data = p := by
  have dropped : next = self → ∀ f ∈ next.frameList, f ∈ self.frameList ∨ f.data = p := by
    rintro rfl f member
    exact .inl member
  unfold udpRecvHandler at went
  split at went
  · rename_i present
    split at went
    · exact dropped (Option.some.inj went).symm
    · cases allocated with
      | none => exact dropped (Option.some.inj went).symm
      | some memory =>
        obtain ⟨⟨_,addr,_⟩,_,step⟩ := Option.bind_eq_some_iff.mp went
        have queue : next.frameList = self.frameList++[⟨addr,p,present⟩] := by
          simp only at step
          split at step
          · cases Option.some.inj step; rfl
          · cases Option.some.inj step; rfl
        intro f member
        rw [queue,List.mem_append,List.mem_singleton] at member
        exact member.imp id fun new => by rw [new]
  · exact dropped (Option.some.inj went).symm

theorem settle_filed (filed : Filed s) (res : Int) : Filed (settle s res) := by
  unfold settle
  split
  · exact ⟨filed.counted,filed.exactly⟩
  · refine ⟨?_,fun f member => filed.exactly f (List.mem_of_mem_drop member)⟩
    show s.self.frames-res.toNat = (s.self.frameList.drop res.toNat).length
    rw [List.length_drop,filed.counted]

theorem forward_self {s next : Uplink} (went : forward num s = some next) : next.self = s.self := by
  unfold forward at went
  split at went
  · cases went; rfl
  · split at went
    · cases went; rfl
    · simp only at went
      split at went
      · cases went
      · split at went
        · cases went; rfl
        · cases went; rfl

theorem step_filed {s next : Uplink} {e : UplinkEvent os} (filed : Filed s) (measured : e.Measured)
    (went : uplinkStep num s e = some next) : Filed next := by
  cases e with
  | recv dns p allocated ip port =>
    obtain ⟨self,handled,rfl⟩ := Option.map_eq_some_iff.mp went
    obtain ⟨new,list,count⟩ := recv_handler_queue handled
    refine ⟨?_,fun f member => ?_⟩
    · show self.frames = self.frameList.length
      rw [count,list,List.length_append,filed.counted]
    · rcases recv_handler_data handled f member with old | same
      · exact filed.exactly f old
      · rw [same]
        exact measured
  | forward =>
    simp only [uplinkStep] at went
    split at went
    · cases went
    · have same := forward_self went
      exact ⟨same ▸ filed.counted,same ▸ filed.exactly⟩
  | answer answer =>
    obtain ⟨batch,here,rfl⟩ := Option.map_eq_some_iff.mp went
    unfold answered
    split
    · exact ⟨filed.counted,filed.exactly⟩
    · rename_i res socket passed
      have still : Filed {s with wire:=socket.wire} := ⟨filed.counted,filed.exactly⟩
      exact settle_filed still _

theorem stream_step {s : Uplink} (e : UplinkEvent os) (filed : Filed s) : StreamWhole num s e ↔ StreamFirsts num s e := by
  cases e with
  | forward =>
    have enough : ¬s.self.frameList.length < min num s.self.frames := by
      rw [filed.counted]
      omega
    have exactly : ∀ f ∈ s.self.frameList.take (min num s.self.frames), Exact f.data :=
      fun f member => filed.exactly f (List.mem_of_mem_take member)
    simp only [StreamWhole,StreamFirsts,forward]
    by_cases closed : s.resF < 0
    · simp only [if_pos closed]
      constructor
      · intro _ _ opened
        omega
      · intro _ next batch free same
        cases same
        intro busy
        cases free.symm.trans busy
    · simp only [if_neg closed]
      by_cases empty : s.self.frames = 0
      · simp only [if_pos empty]
        constructor
        · intro _ _ _
          rw [empty,Nat.min_zero,List.take_zero]
          intro _ f member
          cases member
        · intro _ next batch free same
          cases same
          intro busy
          cases free.symm.trans busy
      · simp only [if_neg empty,if_neg enough]
        cases built : batchPieces ((s.self.frameList.take (min num s.self.frames)).map HevSocks5UdpFrame.outgoing) with
        | none =>
          constructor
          · intro _ _ _ known
            obtain ⟨pieces,made⟩ := pieces_built known
            cases built.symm.trans made
          · intro _ next batch free same
            cases same
            intro busy
            cases free.symm.trans busy
        | some pieces =>
          have known := batch_known built
          have whole := batch_whole exactly built
          constructor
          · intro carried free _ _
            exact whole.mp (carried _ _ free rfl rfl)
          · intro first next batch free same
            cases same
            intro busy
            cases Option.some.inj busy
            exact whole.mpr (first free (Int.not_lt.mp closed) known)
  | _ => exact Iff.rfl

-- UDP in UDP: the same of the datagrams.
def DatagramsWhole (num : Nat) (s : UdpQueue.Outbound) : UdpQueue.Event os → Prop
  | .forward => ∀ next batch, s.sending = none → UdpQueue.forward num s = some next → next.sending = some batch →
    batch.left = batch.offered.map wholeDatagram
  | _ => True

def DatagramsFirsts (num : Nat) (s : UdpQueue.Outbound) : UdpQueue.Event os → Prop
  | .forward => s.sending = none → 0 ≤ s.resF → ∀ taken,
    UdpQueue.gather s.self (min num s.self.frames.toNat) (Lists.hevListFirst s.self.frameList) = some taken → FirstsHoldAll taken
  | _ => True

def DatagramMeasured : UdpQueue.Event os → Prop
  | .recv _ p _ _ _ => Exact p
  | _ => True

def Stored (self : UdpQueue.Queue) : Prop := ∀ node ∈ self.live, Exact (self.frame node).data

theorem gather_stored {self : UdpQueue.Queue} {node : Option Nat} (stored : Stored self)
    (went : UdpQueue.gather self n node = some taken) : ∀ f ∈ taken, Exact f.data := by
  induction n generalizing node taken with
  | zero =>
    cases went
    simp
  | succ n ih =>
    cases node with
    | none => cases went
    | some node =>
      simp only [UdpQueue.gather] at went
      split at went
      · rename_i live
        obtain ⟨rest,later,rfl⟩ := Option.map_eq_some_iff.mp went
        exact List.forall_mem_cons.mpr ⟨stored node live,ih later⟩
      · cases went

theorem pop_stored {self next : UdpQueue.Queue} (stored : Stored self) (went : UdpQueue.pop n self freed = some (next,out)) :
    Stored next := by
  induction n generalizing self freed with
  | zero =>
    cases went
    exact stored
  | succ n ih =>
    simp only [UdpQueue.pop] at went
    obtain ⟨node,_,step⟩ := Option.bind_eq_some_iff.mp went
    split at step
    · refine ih ?_ step
      exact fun other member => stored other (List.mem_of_mem_erase member)
    · cases step

theorem queue_recv_stored {self next : UdpQueue.Queue} {dns : Option (Dns os)} (stored : Stored self) (exact_ : Exact p)
    (went : UdpQueue.queueRecvHandler self dns p allocated ip port = some next) : Stored next := by
  unfold UdpQueue.queueRecvHandler at went
  split at went
  · rename_i present
    split at went
    · cases went
      exact stored
    · cases allocated with
      | none =>
        cases went
        exact stored
      | some block =>
        obtain ⟨node,memory⟩ := block
        simp only at went
        split at went
        · cases went
        rename_i fresh
        obtain ⟨⟨_,addr,_⟩,_,made⟩ := Option.bind_eq_some_iff.mp went
        have frames : ∀ other ∈ node::self.live, Exact (Function.update self.frame node ⟨addr,p,present⟩ other).data := by
          intro other member
          by_cases same : other = node
          · subst same
            rw [Function.update_self]
            exact exact_
          · rw [Function.update_of_ne same]
            exact stored other ((List.mem_cons.mp member).resolve_left same)
        simp only at made
        split at made
        · cases Option.some.inj made
          exact frames
        · cases Option.some.inj made
          exact frames
  · cases went
    exact stored

theorem queue_forward_self {s next : UdpQueue.Outbound} (went : UdpQueue.forward num s = some next) : next.self = s.self := by
  unfold UdpQueue.forward at went
  split at went
  · cases went; rfl
  · split at went
    · cases went; rfl
    · obtain ⟨offered,_,step⟩ := Option.bind_eq_some_iff.mp went
      split at step
      · cases step; rfl
      · cases step; rfl

theorem step_stored {s next : UdpQueue.Outbound} {e : UdpQueue.Event os} (stored : Stored s.self) (measured : DatagramMeasured e)
    (went : UdpQueue.step num s e = some next) : Stored next.self := by
  cases e with
  | recv dns p allocated ip port =>
    obtain ⟨self,handled,rfl⟩ := Option.map_eq_some_iff.mp went
    exact queue_recv_stored stored measured handled
  | forward => exact queue_forward_self went ▸ stored
  | answer answer =>
    simp only [UdpQueue.step] at went
    split at went
    · unfold UdpQueue.answered at went
      split at went
      · cases went
        exact stored
      · unfold UdpQueue.settle at went
        simp only at went
        split at went
        · cases went
          exact stored
        · obtain ⟨⟨self,freed⟩,popped,same⟩ := Option.map_eq_some_iff.mp went
          cases same
          exact pop_stored stored popped
    · cases went
      exact stored

theorem datagrams_step {s : UdpQueue.Outbound} (e : UdpQueue.Event os) (stored : Stored s.self) :
    DatagramsWhole num s e ↔ DatagramsFirsts num s e := by
  cases e with
  | forward =>
    simp only [DatagramsWhole,DatagramsFirsts,UdpQueue.forward]
    by_cases closed : s.resF < 0
    · simp only [if_pos (show s.resF < 0 ∨ s.sending.isSome = true from .inl closed)]
      constructor
      · intro _ _ opened
        omega
      · intro _ next batch free same
        cases same
        intro busy
        cases free.symm.trans busy
    · by_cases free : s.sending = none
      · have going : ¬(s.resF < 0 ∨ s.sending.isSome = true) := by
          rw [free]
          simpa using closed
        simp only [if_neg going]
        by_cases empty : s.self.frames ≤ 0
        · have none_taken : min num s.self.frames.toNat = 0 := by omega
          simp only [if_pos empty,none_taken]
          constructor
          · intro _ _ _ taken same
            cases same
            intro _ f member
            cases member
          · intro _ next batch _ same
            cases same
            intro busy
            cases free.symm.trans busy
        · simp only [if_neg empty]
          cases offered : UdpQueue.gather s.self (min num s.self.frames.toNat) (Lists.hevListFirst s.self.frameList) with
          | none =>
            constructor
            · intro _ _ _ taken same
              cases same
            · intro _ next batch _ same
              cases same
          | some taken =>
            have exactly := gather_stored stored offered
            simp only [bind,Option.bind,Option.some.injEq]
            cases built : datagramBatch (taken.map HevSocks5UdpFrame.outgoing) with
            | none =>
              constructor
              · rintro _ _ _ _ rfl known
                cases built.symm.trans (datagrams_built known)
              · intro _ next batch _ same
                cases same
                intro busy
                cases free.symm.trans busy
            | some left =>
              have known := datagrams_known built
              have whole := datagrams_whole exactly built
              constructor
              · rintro carried _ _ _ rfl _
                exact whole.mp (carried _ _ free rfl rfl)
              · intro first next batch _ same
                cases same
                intro busy
                cases Option.some.inj busy
                exact whole.mpr (first free (Int.not_lt.mp closed) _ rfl known)
      · constructor
        · intro _ idle
          exact (free idle).elim
        · intro _ next batch idle
          exact (free idle).elim
  | _ => exact Iff.rfl

-- Over every interleaving of arrivals, turns of `fwd_f` and answers of the socket.
theorem forwarded_whole (os : Platform) (num : Nat) (memory : Nat → HevSocks5UdpFrame) :
    (∀ events : List (UplinkEvent os), (∀ e ∈ events, e.Measured) →
      (Runs.Along (uplinkStep num) (StreamWhole num) uplink events ↔ Runs.Along (uplinkStep num) (StreamFirsts num) uplink events)) ∧
    ∀ events : List (UdpQueue.Event os), (∀ e ∈ events, DatagramMeasured e) →
      (Runs.Along (UdpQueue.step num) (DatagramsWhole num) (UdpQueue.outbound memory) events ↔
        Runs.Along (UdpQueue.step num) (DatagramsFirsts num) (UdpQueue.outbound memory) events) := by
  constructor
  · intro events measured
    have empty : Filed uplink := ⟨rfl,fun f member => by cases member⟩
    apply Runs.along_iff Filed _ _ empty measured
    · exact fun s e next => step_filed
    · exact fun s e filed => stream_step e filed
  · intro events measured
    have empty : Stored (UdpQueue.outbound memory).self := fun node member => by cases member
    apply Runs.along_iff (fun s => Stored s.self) _ _ empty measured
    · exact fun s e next => step_stored
    · exact fun s e stored => datagrams_step e stored

section Conditions

instance knownDecidable : Decidable (Known frame) := inferInstanceAs (Decidable (0 < frame.outgoing.addrLen))

instance firstDecidable : Decidable (FirstHoldsAll frame) := inferInstanceAs (Decidable ((frame.data.head frame.present).len = totLen frame.data))

instance firstsDecidable : Decidable (FirstsHoldAll taken) :=
  inferInstanceAs (Decidable ((∀ f ∈ taken, Known f) → ∀ f ∈ taken, FirstHoldsAll f))

instance streamDecidable (num : Nat) (s : Uplink) : ∀ e : UplinkEvent os, Decidable (StreamFirsts num s e)
  | .recv .. => .isTrue trivial
  | .forward => inferInstanceAs (Decidable (s.sending = none → 0 ≤ s.resF → FirstsHoldAll (s.self.frameList.take (min num s.self.frames))))
  | .answer _ => .isTrue trivial

instance datagramsDecidable (num : Nat) (s : UdpQueue.Outbound) : ∀ e : UdpQueue.Event os, Decidable (DatagramsFirsts num s e)
  | .recv .. => .isTrue trivial
  | .forward => inferInstanceAs (Decidable (s.sending = none → 0 ≤ s.resF →
      ∀ taken ∈ UdpQueue.gather s.self (min num s.self.frames.toNat) (Lists.hevListFirst s.self.frameList), FirstsHoldAll taken))
  | .answer _ => .isTrue trivial

end Conditions

-- Two fragments of a datagram to 1.2.3.4, port 53, as they are reassembled.
def fragments : List Pbuf := chain [[7],[8]]

def noFrame : HevSocks5UdpFrame := ⟨.zero,fragments,by decide⟩

def inStream : List (UplinkEvent .plain) := [.recv none fragments (some .zero) (.v4 0x01020304) 53,.forward]

def inDatagrams : List (UdpQueue.Event .plain) := [.recv none fragments (some (0,.zero)) (.v4 0x01020304) 53,.forward]

theorem fragments_measured : Exact fragments := by
  apply chain_exact
  decide

-- A datagram of two bytes and one of one byte that no router has cut.
def unbroken : List (List Pbuf) := [chain [[7,8]],chain [[9]]]

def wholeInStream : List (UplinkEvent .plain) := (unbroken.map fun p => .recv none p (some .zero) (.v4 0x01020304) 53)++[.forward]

def wholeInDatagrams : List (UdpQueue.Event .plain) :=
  [.recv none (chain [[7,8]]) (some (0,.zero)) (.v4 0x01020304) 53,.recv none (chain [[9]]) (some (1,.zero)) (.v4 0x01020304) 53,.forward]

theorem unbroken_measured : ∀ p ∈ unbroken, Exact p := by
  simp only [unbroken,List.forall_mem_cons]
  exact ⟨chain_exact (by decide),chain_exact (by decide),fun p member => by cases member⟩

theorem forwarded_whole_unbroken :
    Runs.Along (uplinkStep 10) (StreamWhole 10) uplink wholeInStream ∧
    (Runs.exec (uplinkStep 10) uplink wholeInStream).map (fun s => s.sending.map (·.pieces)) =
      some (some [[0,2,10],[1,1,2,3,4,0,53],[7,8],[0,1,10],[1,1,2,3,4,0,53],[9]]) ∧
    Runs.Along (UdpQueue.step 10) (DatagramsWhole 10) (UdpQueue.outbound fun _ => noFrame) wholeInDatagrams ∧
    (Runs.exec (UdpQueue.step 10) (UdpQueue.outbound fun _ => noFrame) wholeInDatagrams).map (fun s => s.sending.map (·.left)) =
      some (some [[0,0,0,1,1,2,3,4,0,53,7,8],[0,0,0,1,1,2,3,4,0,53,9]]) := by
  obtain ⟨first,second,_⟩ := List.forall_mem_cons.mp unbroken_measured |>.imp_right List.forall_mem_cons.mp
  refine ⟨((forwarded_whole .plain 10 fun _ => noFrame).1 wholeInStream ?_).mpr (by decide +kernel),by decide +kernel,
    ((forwarded_whole .plain 10 fun _ => noFrame).2 wholeInDatagrams ?_).mpr (by decide +kernel),by decide +kernel⟩
  · exact List.forall_mem_cons.mpr ⟨first,List.forall_mem_cons.mpr ⟨second,List.forall_mem_cons.mpr ⟨trivial,fun e member => by cases member⟩⟩⟩
  · exact List.forall_mem_cons.mpr ⟨first,List.forall_mem_cons.mpr ⟨second,List.forall_mem_cons.mpr ⟨trivial,fun e member => by cases member⟩⟩⟩

-- Over either transport the second byte stays behind.
theorem fragments_cut : Exact fragments ∧ totLen fragments = 2 ∧
    (Runs.exec (uplinkStep 10) uplink inStream).map (fun s => s.sending.map (·.pieces)) =
      some (some [[0,1,10],[1,1,2,3,4,0,53],[7]]) ∧
    (Runs.exec (UdpQueue.step 10) (UdpQueue.outbound fun _ => noFrame) inDatagrams).map (fun s => s.sending.map (·.left)) =
      some (some [[0,0,0,1,1,2,3,4,0,53,7]]) ∧
    ¬Runs.Along (uplinkStep 10) (StreamWhole 10) uplink inStream ∧
    ¬Runs.Along (UdpQueue.step 10) (DatagramsWhole 10) (UdpQueue.outbound fun _ => noFrame) inDatagrams := by
  refine ⟨fragments_measured,rfl,by decide +kernel,by decide +kernel,fun carried => ?_,fun carried => ?_⟩
  · have same := (carried.2 _ rfl).1 _ _ rfl rfl rfl
    revert same
    decide +kernel
  · have same := (carried.2 _ rfl).1 _ _ rfl rfl rfl
    revert same
    decide +kernel

end Psocks.SessionUdp
