import Mathlib.Data.List.Forall2
import Psocks.Socks5.UdpStream

namespace Psocks.Socks5
open Vectored Psocks.Task
variable {nonblock first : Bool} {inlet next after : Inlet} {mem filled : List UInt8} {done msgv todo : List HevSocks5UdpMsg}
  {high low hdrlen atype len : UInt8} {res : Int}

-- A slot that has been set from this frame: the address lies at the start of its
-- memory and the payload behind it.
structure Stored (frame : Frame) (msg : HevSocks5UdpMsg) : Prop where
  addr : msg.addr = .inside 0
  buf : msg.buf = frame.addr.length
  len : msg.len = frame.data.length
  room : msg.mem.length = udpBufSize
  mem : frame.addr++frame.data <+: msg.mem

-- What a positive result promises: it counts the frames this call took whole, these are
-- in its first slots, and no more than a part of a header has been taken behind them.
def Truthful (nonblock : Bool) (done todo : List HevSocks5UdpMsg) (inlet : Inlet) : Prop :=
  ∀ res msgv next, hevSocks5UdpRecvmmsgTcp nonblock done todo inlet = some (res,msgv,next) → 0 < res →
    ∃ got rest fs part, msgv = done++got++rest ∧ (done++got).length ≤ (done++todo).length ∧ res = (done++got).length ∧
      List.Forall₂ Stored fs got ∧ Reads inlet.stream fs (part++next.stream) ∧ part.length < 5

-- The two receives of a header: when a part of it has come, the rest comes, or the
-- second receive ends with a code that outweighs the part.
def HeadWhole (nonblock : Bool) (inlet : Inlet) : Prop :=
  ∀ part udp middle, hevTaskIoSocketRecv ⟨nonblock,false⟩ (List.replicate 5 0) 0 5 inlet = some (part,udp,middle) →
    0 < part → part < 5 → ∀ more both next,
      hevTaskIoSocketRecv ⟨false,true⟩ udp part.toNat (5-part.toNat) middle = some (more,both,next) →
      took middle next = 5-part.toNat ∨ more ≤ -part

-- No header cut short before anything has been received, and no body.
def Untruncated (nonblock first : Bool) : List HevSocks5UdpMsg → Inlet → Prop
  | [], _ => True
  | msg::rest, inlet => (first = true → HeadWhole nonblock inlet) ∧
    ∀ high low hdrlen atype len middle, receiveHead nonblock inlet = some (5,[high,low,hdrlen,atype,len],middle) →
      Sound high low hdrlen → ∀ got mem next, hevTaskIoSocketRecvmsg ⟨false,true⟩ msg.mem
          (bodyRegions msg (addrLength hdrlen) (dataLength high low)) middle = some (got,mem,next) →
        (took middle next = 0 ∨ took middle next = bodyLength high low hdrlen) ∧
        (got = bodyLength high low hdrlen → Untruncated nonblock false rest next)

theorem head_whole : HeadWhole nonblock inlet ↔
    ∀ res udp middle, receiveHead nonblock inlet = some (res,udp,middle) → res = 5 ∨ res ≤ 0 := by
  constructor
  · intro whole res udp last went
    obtain ⟨⟨part,head,middle⟩,one,step⟩ := Option.bind_eq_some_iff.mp went
    obtain ⟨data,_,written,within,tells⟩ := recv_takes (by simp) one
    simp only at step
    split at step
    · rename_i some_
      obtain ⟨⟨more,both,after⟩,two,same⟩ := Option.bind_eq_some_iff.mp step
      cases Option.some.inj same
      have wide : head.length = 5 := by rw [written,overwrite_length (by simpa using within),List.length_replicate]
      obtain ⟨rest,cut,_,_,heard⟩ := recv_takes (by omega) two
      rcases whole _ _ _ one some_.1 some_.2 _ _ _ two with all | low
      · rw [took_data cut] at all
        rcases heard with count | ⟨nothing,_⟩ <;> omega
      · omega
    · cases Option.some.inj step
      rcases tells with count | ⟨_,stopped⟩ <;> omega
  · intro outcome part head middle one positive short more both after two
    have went : receiveHead nonblock inlet = some (part+more,both,after) := by
      simp only [receiveHead,one,Option.bind_eq_bind,Option.bind_some,positive,short,and_self,if_true,two,Option.pure_def]
    obtain ⟨data,_,written,within,_⟩ := recv_takes (by simp) one
    have wide : head.length = 5 := by rw [written,overwrite_length (by simpa using within),List.length_replicate]
    obtain ⟨rest,cut,_,_,heard⟩ := recv_takes (by omega) two
    rw [took_data cut]
    rcases outcome _ _ _ went with all | low
    · rcases heard with count | ⟨nothing,_⟩ <;> omega
    · omega

theorem whole_stored (room : mem.length = udpBufSize)
    (read : receiveHead nonblock inlet = some (5,[high,low,hdrlen,atype,len],next)) (sound : Sound high low hdrlen)
    (came : hevTaskIoSocketRecvmsg ⟨false,true⟩ mem
      (bodyRegions (freshSlot mem) (addrLength hdrlen) (dataLength high low)) next =
        some ((bodyLength high low hdrlen : Int),filled,after)) :
    ∃ frame, parseFrame inlet.stream = some (frame,after.stream) ∧ Stored frame (filledSlot high low hdrlen atype len filled) := by
  obtain ⟨body,_,rfl,whole,fits⟩ := body_whole room sound came
  refine ⟨_,whole_frame room read sound came,?_⟩
  rw [filled_frame atype len sound fits whole]
  have two := sound_address sound
  have layout := @filled_layout body mem atype len fits
  unfold bodyLength at whole
  refine ⟨rfl,?_,?_,?_,?_⟩
  · simp only [filledSlot,List.length_cons,List.length_take]
    omega
  · simp only [filledSlot,List.length_drop]
    omega
  · simp only [filledSlot,layout,List.length_append,List.length_cons,List.length_drop]
    omega
  · refine ⟨mem.drop (2+body.length),?_⟩
    simp only [filledSlot,layout,List.cons_append,List.take_append_drop]

-- How far a call got: the slots it set, each from the next frame, and what is left of
-- the others.
theorem recvmmsg_accepts {stack : List (Vector UInt8 1500)}
    (went : hevSocks5UdpRecvmmsgTcp nonblock done (slots stack) inlet = some (res,msgv,next)) :
    ∃ got rest fs behind, msgv = done++got++rest ∧ (∀ msg ∈ rest, msg.addr = .unset) ∧ got.length+rest.length = stack.length ∧
      List.Forall₂ Stored fs got ∧ Reads inlet.stream fs (behind++next.stream) := by
  induction stack generalizing done inlet with
  | nil =>
    cases Option.some.inj went
    exact ⟨[],[],[],[],by simp,by simp,rfl,.nil,.nil⟩
  | cons mem stack ih =>
    have fresh : ∀ filled, ∀ msg ∈ freshSlot filled::slots stack, msg.addr = .unset := by
      intro filled msg member
      rcases List.mem_cons.mp member with rfl | member
      · rfl
      · obtain ⟨_,_,rfl⟩ := List.mem_map.mp member
        rfl
    have idle : ∀ filled data, msgv = done++freshSlot filled::slots stack → inlet.stream = data++next.stream →
        ∃ got rest fs behind, msgv = done++got++rest ∧ (∀ msg ∈ rest, msg.addr = .unset) ∧
          got.length+rest.length = (mem::stack).length ∧ List.Forall₂ Stored fs got ∧
          Reads inlet.stream fs (behind++next.stream) := fun filled data left cut =>
      ⟨[],_,[],data,by rw [left,List.append_nil],fresh filled,by simp [slots],.nil,cut ▸ .nil⟩
    cases slot_step went with
    | headless head udp read other result left =>
      obtain ⟨data,cut,_⟩ := head_takes read
      exact idle _ data left cut
    | refused high low hdrlen atype len read unsound result left =>
      obtain ⟨data,cut,_⟩ := head_takes read
      exact idle _ data left cut
    | short high low hdrlen atype len middle filled read sound came other left =>
      obtain ⟨data,cut,_⟩ := head_takes read
      obtain ⟨body,behind,_⟩ := body_takes (slot_room mem) sound came
      exact idle _ (data++body) left (by rw [cut,behind,List.append_assoc])
    | whole high low hdrlen atype len middle after filled read sound came later =>
      obtain ⟨frame,parsed,stored⟩ := whole_stored (slot_room mem) read sound came
      obtain ⟨got,rest,fs,behind,split,unset,size,all,reads⟩ := ih later
      refine ⟨_::got,rest,frame::fs,behind,by simp [split],unset,?_,.cons stored all,.cons parsed reads⟩
      rw [List.length_cons,List.length_cons]
      omega

-- A slot that has not been set is none that is counted.
theorem unset_uncounted {got rest left : List HevSocks5UdpMsg} (split : done++freshSlot mem::left = done++got++rest)
    (stored : List.Forall₂ Stored fs got) : got = [] ∧ fs = [] := by
  cases stored with
  | nil => exact ⟨rfl,rfl⟩
  | cons first _ =>
    rw [List.append_assoc] at split
    obtain ⟨same,_⟩ := List.cons.inj (List.append_cancel_left split)
    rw [← same] at first
    cases first.addr

theorem reads_nothing (reads : Reads stream [] rest) : stream = rest := by
  cases reads
  rfl

-- The first receive of a call that tells the truth brings no part of a header.
theorem truthful_head (mem : Vector UInt8 1500) {stack : List (Vector UInt8 1500)}
    (truthful : Truthful nonblock [] (freshSlot mem.toList::slots stack) inlet) : HeadWhole nonblock inlet := by
  refine head_whole.mpr fun res udp middle read => ?_
  by_contra partly
  obtain ⟨other,positive⟩ : res ≠ 5 ∧ 0 < res := by omega
  obtain ⟨got,rest,fs,part,split,_,count,stored,_⟩ :=
    truthful _ _ _ (slot_headless read other mem.toList (slots stack)) (by simpa using positive)
  obtain ⟨rfl,_⟩ := unset_uncounted split stored
  simp only [if_true,List.append_nil,List.length_nil] at count
  omega

-- Nor any receive behind a header a part of a body.
theorem truthful_body (mem : Vector UInt8 1500) {stack : List (Vector UInt8 1500)}
    (truthful : Truthful nonblock done (freshSlot mem.toList::slots stack) inlet)
    (read : receiveHead nonblock inlet = some (5,[high,low,hdrlen,atype,len],next)) (sound : Sound high low hdrlen)
    (came : hevTaskIoSocketRecvmsg ⟨false,true⟩ mem.toList
      (bodyRegions (freshSlot mem.toList) (addrLength hdrlen) (dataLength high low)) next = some (res,filled,after)) :
    took next after = 0 ∨ took next after = bodyLength high low hdrlen := by
  obtain ⟨data,cut,_,five,_⟩ := head_takes read
  obtain ⟨body,behind,_,within,tells⟩ := body_takes (slot_room mem) sound came
  obtain ⟨rfl,_⟩ := five rfl
  rw [took_data behind]
  by_contra partly
  obtain ⟨some_,short⟩ : 0 < body.length ∧ body.length < bodyLength high low hdrlen := by omega
  have count : res = body.length := by
    rcases tells with all | ⟨none_moved,_⟩
    · exact all
    · omega
  obtain ⟨_,_,fs,part,split,_,_,stored,reads,few⟩ := truthful _ _ _ (slot_short read sound came (by omega)) (by omega)
  obtain ⟨rfl,rfl⟩ := unset_uncounted split stored
  have size := congrArg List.length (cut.symm.trans (reads_nothing reads))
  rw [behind] at size
  simp only [List.length_append,List.length_cons] at size
  omega

theorem truthful_later (mem : Vector UInt8 1500) {stack : List (Vector UInt8 1500)}
    (truthful : Truthful nonblock done (freshSlot mem.toList::slots stack) inlet)
    (read : receiveHead nonblock inlet = some (5,[high,low,hdrlen,atype,len],next)) (sound : Sound high low hdrlen)
    (came : hevTaskIoSocketRecvmsg ⟨false,true⟩ mem.toList
      (bodyRegions (freshSlot mem.toList) (addrLength hdrlen) (dataLength high low)) next =
        some ((bodyLength high low hdrlen : Int),filled,after)) :
    Truthful nonblock (done++[filledSlot high low hdrlen atype len filled]) (slots stack) after := by
  intro res msgv last went positive
  obtain ⟨frame,parsed,stored⟩ := whole_stored (slot_room mem) read sound came
  obtain ⟨got,rest,fs,part,split,room,count,all,reads,few⟩ :=
    truthful _ _ _ ((slot_whole read sound came).trans went) positive
  cases all with
  | nil =>
    -- A header and all behind it that the rest of the call took is no part of a header.
    obtain ⟨data,cut,_,five,_⟩ := head_takes read
    obtain ⟨body,behind,_⟩ := body_takes (slot_room mem) sound came
    obtain ⟨rfl,_⟩ := five rfl
    obtain ⟨_,_,_,onward,_,_,_,_,rest_reads⟩ := recvmmsg_accepts went
    have left := reads_shorter rest_reads
    have size := congrArg List.length (cut.symm.trans (reads_nothing reads))
    rw [behind] at size
    simp only [List.length_append,List.length_cons] at size left
    omega
  | cons one all =>
    obtain ⟨beyond,kept⟩ := recvmmsg_keeps stack went
    rw [split,List.append_assoc,List.append_assoc] at kept
    obtain ⟨rfl,rfl⟩ := List.cons.inj (List.append_cancel_left kept)
    cases reads with
    | cons same reads =>
      obtain ⟨rfl,rfl⟩ := Prod.mk.inj (Option.some.inj (parsed.symm.trans same))
      refine ⟨_,rest,_,part,by simp [split],?_,by simpa using count,all,reads,few⟩
      simpa using room

-- From one slot to the slots before it.
theorem untruncated_truthful (mem : Vector UInt8 1500) {stack : List (Vector UInt8 1500)}
    (whole : Untruncated nonblock done.isEmpty (freshSlot mem.toList::slots stack) inlet)
    (ih : ∀ {done inlet}, Untruncated nonblock done.isEmpty (slots stack) inlet → Truthful nonblock done (slots stack) inlet) :
    Truthful nonblock done (freshSlot mem.toList::slots stack) inlet := by
  intro res msgv next went positive
  cases slot_step went with
  | headless head udp read other result left =>
    obtain ⟨data,cut,small,_,five,stopped⟩ := head_takes read
    have some_ : done ≠ [] := by
      intro none_yet
      rw [if_pos none_yet] at result
      rcases head_whole.mp (whole.1 (by rw [none_yet]; rfl)) _ _ _ read with all | low
      · exact other all
      · omega
    rw [if_neg some_] at result
    have short : data.length ≠ 5 := fun all => other (five all)
    refine ⟨[],freshSlot mem.toList::slots stack,[],data,by rw [left,List.append_nil],by simp,by simpa using result,.nil,
      cut ▸ .nil,by omega⟩
  | refused high low hdrlen atype len read unsound result left => omega
  | short high low hdrlen atype len middle filled read sound came other left =>
    have moved := (whole.2 _ _ _ _ _ _ read sound _ _ _ came).1
    obtain ⟨body,cut,_,_,tells⟩ := body_takes (slot_room mem) sound came
    rw [took_data cut] at moved
    have all := tells_count tells (by omega)
    omega
  | whole high low hdrlen atype len middle after filled read sound came later =>
    obtain ⟨frame,parsed,stored⟩ := whole_stored (slot_room mem) read sound came
    have still := (whole.2 _ _ _ _ _ _ read sound _ _ _ came).2 rfl
    have busy : (done++[filledSlot high low hdrlen atype len filled]).isEmpty = false := by simp
    rw [← busy] at still
    obtain ⟨got,rest,fs,part,split,room,count,all,reads,small⟩ := ih still _ _ _ later positive
    refine ⟨_::got,rest,frame::fs,part,by simp [split],?_,by simpa using count,.cons stored all,.cons parsed reads,small⟩
    simpa using room

theorem truthful_iff (stack : List (Vector UInt8 1500)) : Truthful nonblock done (slots stack) inlet ↔
    Untruncated nonblock done.isEmpty (slots stack) inlet := by
  induction stack generalizing done inlet with
  | nil =>
    refine iff_of_true (fun res msgv next went _ => ?_) trivial
    cases Option.some.inj went
    exact ⟨[],[],[],[],by simp,by simp,by simp,.nil,.nil,by simp⟩
  | cons mem stack ih =>
    have here : slots (mem::stack) = freshSlot mem.toList::slots stack := rfl
    rw [here]
    constructor
    · intro truthful
      refine ⟨fun empty => ?_,fun high low hdrlen atype len middle read sound got filled next came =>
        ⟨truthful_body mem truthful read sound came,fun all => ?_⟩⟩
      · rw [List.isEmpty_iff.mp empty] at truthful
        exact truthful_head mem truthful
      · subst all
        have untruncated := ih.mp (truthful_later mem truthful read sound came)
        rwa [show (done++[filledSlot high low hdrlen atype len filled]).isEmpty = false by simp] at untruncated
    · intro whole
      exact untruncated_truthful mem whole ih.mpr

theorem recvmmsg_counts (nonblock : Bool) (stack : List (Vector UInt8 1500)) (inlet : Inlet) :
    Truthful nonblock [] (slots stack) inlet ↔ Untruncated nonblock true (slots stack) inlet := truthful_iff stack

-- The peer closes behind three bytes of a header: the call returns 3, for one slot.
theorem recvmmsg_miscounts : ¬Truthful false [] (slots [.replicate 1500 0]) ⟨[0,4,10],0,[.ready 2,.ready 0]⟩ := by
  intro truthful
  obtain ⟨got,rest,fs,part,_,room,count,_⟩ := truthful 3 (slots [.replicate 1500 0]) ⟨[],0,[]⟩ rfl (by decide)
  simp only [List.nil_append,slots,List.map_cons,List.map_nil,List.length_cons,List.length_nil] at room count
  omega

-- The messages of a call that it has set.
def accepted (nonblock : Bool) (stack : List (Vector UInt8 1500)) (inlet : Inlet) : List HevSocks5UdpMsg :=
  match hevSocks5UdpRecvmmsgTcp nonblock [] (slots stack) inlet with
  | some (_,msgv,_) => msgv.filter fun msg => msg.addr ≠ .unset
  | none => []

-- A frame and the slot it was accepted into agree about its address and its payload.
structure Consistent (frame : Frame) (msg : HevSocks5UdpMsg) (off addrlen : Nat) : Prop where
  addr : msg.addr = .inside off
  measured : hevSocks5AddrLen (msg.mem.drop off) = some (addrlen : Int)
  known : ∃ atype ∈ [addrTypeIpv4,addrTypeIpv6,addrTypeName], frame.addr.head? = some atype
  header : frame.addr.length = addrlen
  host : (msg.mem.drop off).take addrlen = frame.addr
  payload : msg.payload = frame.data
  len : msg.len = frame.data.length
  apart : off+addrlen ≤ msg.buf
  inside : msg.buf+msg.len ≤ udpBufSize

-- HDRLEN covers just what the address type calls for.
def Fitted (frame : Frame) : Prop :=
  ∃ atype len host, frame.addr = atype::len::host ∧ (atype = addrTypeIpv4 ∧ host.length = 5 ∨
    atype = addrTypeIpv6 ∧ host.length = 17 ∨ atype = addrTypeName ∧ host.length = len.toNat+2)

theorem frame_sized (parsed : parseFrame stream = some (frame,rest)) :
    2 ≤ frame.addr.length ∧ frame.addr.length+frame.data.length ≤ udpBufSize := by
  unfold parseFrame at parsed
  split at parsed
  · split at parsed
    · rename_i high low hdrlen behind fits
      cases Option.some.inj parsed
      obtain ⟨⟨wide,room⟩,enough⟩ := fits
      simp only [List.length_take,List.length_drop]
      unfold addrLength at *
      omega
    · cases parsed
  · cases parsed

theorem consistent_iff {frame : Frame} {msg : HevSocks5UdpMsg} (stored : Stored frame msg)
    (wide : 2 ≤ frame.addr.length) (room : frame.addr.length+frame.data.length ≤ udpBufSize) :
    (∃ off addrlen, Consistent frame msg off addrlen) ↔ Fitted frame := by
  obtain ⟨atype,len,host,shape⟩ : ∃ atype len host, frame.addr = atype::len::host := by
    match found : frame.addr,wide with
    | atype::len::host,_ => exact ⟨atype,len,host,rfl⟩
  obtain ⟨behind,whole⟩ := stored.mem
  have measures := @addr_len_pair atype len (host++frame.data++behind)
  rw [← List.cons_append,← List.cons_append,← List.cons_append,← List.cons_append,← shape,whole,← List.drop_zero (l := msg.mem)]
    at measures
  have size : frame.addr.length = host.length+2 := by rw [shape]; rfl
  constructor
  · intro ⟨off,addrlen,same⟩
    obtain ⟨rfl⟩ : off = 0 := AddrRef.inside.inj (same.addr.symm.trans stored.addr)
    refine ⟨atype,len,host,shape,?_⟩
    have counted := Option.some.inj (measures.symm.trans same.measured)
    have header := same.header
    obtain ⟨known,member,first⟩ := same.known
    rw [shape] at first
    cases Option.some.inj first
    simp only [List.mem_cons,List.not_mem_nil,or_false] at member
    rcases member with rfl | rfl | rfl
    · rw [if_pos rfl] at counted
      exact .inl ⟨rfl,by omega⟩
    · rw [if_neg ipv6_not_ipv4,if_pos rfl] at counted
      exact .inr (.inl ⟨rfl,by omega⟩)
    · rw [if_neg name_not_ipv4,if_neg name_not_ipv6,if_pos rfl] at counted
      exact .inr (.inr ⟨rfl,by omega⟩)
  · intro ⟨atype',len',host',shape',fitted⟩
    obtain ⟨rfl,same⟩ := List.cons.inj (shape.symm.trans shape')
    obtain ⟨rfl,rfl⟩ := List.cons.inj same
    refine ⟨0,frame.addr.length,stored.addr,?_,⟨atype,?_,by rw [shape]; rfl⟩,rfl,?_,?_,stored.len,?_,?_⟩
    · rw [measures,size]
      congr 1
      rcases fitted with ⟨rfl,long⟩ | ⟨rfl,long⟩ | ⟨rfl,long⟩
      · rw [if_pos rfl]
        omega
      · rw [if_neg ipv6_not_ipv4,if_pos rfl]
        omega
      · rw [if_neg name_not_ipv4,if_neg name_not_ipv6,if_pos rfl]
        omega
    · rcases fitted with ⟨rfl,_⟩ | ⟨rfl,_⟩ | ⟨rfl,_⟩ <;> decide
    · rw [List.drop_zero,← whole,List.append_assoc]
      exact List.take_left
    · rw [HevSocks5UdpMsg.payload,stored.buf,stored.len,← whole,List.append_assoc,List.drop_left]
      exact List.take_left
    · rw [stored.buf,Nat.zero_add]
    · rw [stored.buf,stored.len]
      exact room

theorem reads_sized (reads : Reads stream fs rest) :
    ∀ f ∈ fs, 2 ≤ f.addr.length ∧ f.addr.length+f.data.length ≤ udpBufSize := by
  induction reads with
  | nil => simp
  | cons parsed _ ih => exact List.forall_mem_cons.mpr ⟨frame_sized parsed,ih⟩

theorem stored_set (stored : List.Forall₂ Stored fs got) : ∀ msg ∈ got, msg.addr ≠ .unset := by
  induction stored with
  | nil => simp
  | cons one _ ih => exact List.forall_mem_cons.mpr ⟨by rw [one.addr]; exact AddrRef.noConfusion,ih⟩

theorem recvmmsg_consistent (nonblock : Bool) (stack : List (Vector UInt8 1500)) (inlet : Inlet) :
    ∃ fs rest, Reads inlet.stream fs rest ∧ List.Forall₂
      (fun frame msg => (∃ off addrlen, Consistent frame msg off addrlen) ↔ Fitted frame) fs (accepted nonblock stack inlet) := by
  unfold accepted
  split
  · rename_i res msgv next went
    obtain ⟨got,rest,fs,behind,rfl,unset,_,stored,reads⟩ := recvmmsg_accepts went
    refine ⟨fs,_,reads,?_⟩
    have dropped : ∀ msg ∈ rest, ¬(decide (msg.addr ≠ .unset)) = true := fun msg member => by simp [unset msg member]
    rw [List.nil_append,List.filter_append,List.filter_eq_self.mpr (by simpa using stored_set stored),
      List.filter_eq_nil_iff.mpr dropped,List.append_nil]
    exact ((List.forall₂_and_left _ _).mpr ⟨reads_sized reads,stored⟩).imp
      fun frame msg ⟨⟨wide,room⟩,one⟩ => consistent_iff one wide room
  · exact ⟨[],_,.nil,.nil⟩

-- An IPv6 address is announced by a header with room for two bytes of it.
theorem recvmmsg_overlaps : ∃ msg ∈ accepted false [.replicate 1500 0] ⟨[0,1,5,4,0,170],0,[.ready 4,.ready 0]⟩,
    ∀ frame off addrlen, ¬Consistent frame msg off addrlen := by
  have went : accepted false [.replicate 1500 0] ⟨[0,1,5,4,0,170],0,[.ready 4,.ready 0]⟩ =
      [⟨overwrite (overwrite (Vector.replicate 1500 0).toList 2 [170]) 0 [4,0],.inside 0,2,1⟩] := rfl
  refine ⟨_,by rw [went]; exact List.mem_singleton_self _,fun frame off addrlen same => ?_⟩
  obtain rfl : 0 = off := AddrRef.inside.inj same.addr
  have measured : some (19 : Int) = some (addrlen : Int) := same.measured
  have long : (19 : Int) = addrlen := Option.some.inj measured
  have apart : 0+addrlen ≤ 2 := same.apart
  omega

end Psocks.Socks5
