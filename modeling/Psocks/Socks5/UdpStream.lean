import Psocks.Socks5.Udp

namespace Psocks.Socks5
open Vectored Psocks.Task
variable {nonblock first : Bool} {inlet next after : Inlet} {body mem filled : List UInt8} {done msgv : List HevSocks5UdpMsg}
  {high low hdrlen atype len : UInt8} {res : Int}

def bodyLength (high low hdrlen : UInt8) : Nat := addrLength hdrlen-2+dataLength high low

-- What becomes of a slot once its body is in.
def filledSlot (high low hdrlen atype len : UInt8) (mem : List UInt8) : HevSocks5UdpMsg :=
  ⟨overwrite mem 0 [atype,len],.inside 0,addrLength hdrlen,dataLength high low⟩

theorem sound_address (sound : Sound high low hdrlen) : 2 ≤ addrLength hdrlen := by
  have wide := sound.1
  unfold addrLength
  omega

-- The comparison of the code on a slot of 1500 bytes.
theorem sound_iff : Sound high low hdrlen ↔
    ¬hdrlen.toNat < 5 ∧ ¬(udpBufSize+2^64-addrLength hdrlen) % 2^64 < dataLength high low := by
  have narrow := hdrlen.toNat_lt
  unfold Sound addrLength udpBufSize
  omega

theorem body_total (mem : List UInt8) (high low hdrlen : UInt8) :
    total Region.len (bodyRegions (freshSlot mem) (addrLength hdrlen) (dataLength high low)) = bodyLength high low hdrlen := by
  simp [bodyRegions,bodyLength]

-- What a slot does to the call that fills it.
inductive SlotStep (nonblock : Bool) (done : List HevSocks5UdpMsg) (mem : List UInt8) (rest : List HevSocks5UdpMsg)
    (inlet : Inlet) (res : Int) (msgv : List HevSocks5UdpMsg) (next : Inlet) : Prop where
  | headless (head : Int) (udp : List UInt8) (read : receiveHead nonblock inlet = some (head,udp,next)) (other : head ≠ 5)
      (result : res = if done = [] then head else done.length) (left : msgv = done++freshSlot mem::rest)
  | refused (high low hdrlen atype len : UInt8)
      (read : receiveHead nonblock inlet = some (5,[high,low,hdrlen,atype,len],next)) (unsound : ¬Sound high low hdrlen)
      (result : res = -1) (left : msgv = done++freshSlot mem::rest)
  | short (high low hdrlen atype len : UInt8) (middle : Inlet) (filled : List UInt8)
      (read : receiveHead nonblock inlet = some (5,[high,low,hdrlen,atype,len],middle)) (sound : Sound high low hdrlen)
      (came : hevTaskIoSocketRecvmsg ⟨false,true⟩ mem
        (bodyRegions (freshSlot mem) (addrLength hdrlen) (dataLength high low)) middle = some (res,filled,next))
      (other : res ≠ bodyLength high low hdrlen) (left : msgv = done++freshSlot filled::rest)
  | whole (high low hdrlen atype len : UInt8) (middle after : Inlet) (filled : List UInt8)
      (read : receiveHead nonblock inlet = some (5,[high,low,hdrlen,atype,len],middle)) (sound : Sound high low hdrlen)
      (came : hevTaskIoSocketRecvmsg ⟨false,true⟩ mem
        (bodyRegions (freshSlot mem) (addrLength hdrlen) (dataLength high low)) middle =
          some ((bodyLength high low hdrlen : Int),filled,after))
      (later : hevSocks5UdpRecvmmsgTcp nonblock (done++[filledSlot high low hdrlen atype len filled]) rest after =
        some (res,msgv,next))

theorem slot_step (went : hevSocks5UdpRecvmmsgTcp nonblock done (freshSlot mem::rest) inlet = some (res,msgv,next)) :
    SlotStep nonblock done mem rest inlet res msgv next := by
  obtain ⟨⟨head,udp,middle⟩,read,step⟩ := Option.bind_eq_some_iff.mp went
  simp only at step
  split at step
  · rename_i other
    cases Option.some.inj step
    exact .headless head udp read other rfl rfl
  · rename_i five
    have five : head = 5 := not_not.mp five
    subst five
    split at step
    · rename_i high low hdrlen atype len
      split at step
      · rename_i narrow
        cases Option.some.inj step
        exact .refused _ _ _ _ _ read (fun sound => (sound_iff.mp sound).1 narrow) rfl rfl
      · rename_i wide
        split at step
        · rename_i long
          cases Option.some.inj step
          exact .refused _ _ _ _ _ read (fun sound => (sound_iff.mp sound).2 long) rfl rfl
        · rename_i fits
          have sound : Sound high low hdrlen := sound_iff.mpr ⟨wide,fits⟩
          obtain ⟨⟨got,filled,after⟩,came,last⟩ := Option.bind_eq_some_iff.mp step
          simp only at last
          split at last
          · rename_i other
            cases Option.some.inj last
            exact .short _ _ _ _ _ _ _ read sound came other rfl
          · rename_i all
            have all : got = bodyLength high low hdrlen := not_not.mp all
            subst all
            refine .whole _ _ _ _ _ _ _ _ read sound came ?_
            simpa [filledSlot,freshSlot] using last
    · cases step

theorem slot_headless {head : Int} {udp : List UInt8} (read : receiveHead nonblock inlet = some (head,udp,next)) (other : head ≠ 5)
    (mem : List UInt8) (rest : List HevSocks5UdpMsg) : hevSocks5UdpRecvmmsgTcp nonblock done (freshSlot mem::rest) inlet =
      some (if done = [] then head else done.length,done++freshSlot mem::rest,next) := by
  rw [hevSocks5UdpRecvmmsgTcp]
  simp only [read,bind,Option.bind,if_pos other]
  rfl

theorem slot_short {rest : List HevSocks5UdpMsg} {got : Int}
    (read : receiveHead nonblock inlet = some (5,[high,low,hdrlen,atype,len],next)) (sound : Sound high low hdrlen)
    (came : hevTaskIoSocketRecvmsg ⟨false,true⟩ mem
      (bodyRegions (freshSlot mem) (addrLength hdrlen) (dataLength high low)) next = some (got,filled,after))
    (other : got ≠ bodyLength high low hdrlen) :
    hevSocks5UdpRecvmmsgTcp nonblock done (freshSlot mem::rest) inlet = some (got,done++freshSlot filled::rest,after) := by
  obtain ⟨wide,fits⟩ := sound_iff.mp sound
  have room : ¬((freshSlot mem).len+2^64-addrLength hdrlen) % 2^64 < dataLength high low := fits
  rw [hevSocks5UdpRecvmmsgTcp]
  simp only [read,bind,Option.bind,ne_eq,not_true_eq_false,if_false,if_neg wide,if_neg room]
  rw [show (freshSlot mem).mem = mem from rfl,came]
  simp only [if_pos (show ¬got = ((addrLength hdrlen-2+dataLength high low : Nat) : Int) from other)]
  rfl

theorem slot_whole {rest : List HevSocks5UdpMsg}
    (read : receiveHead nonblock inlet = some (5,[high,low,hdrlen,atype,len],next)) (sound : Sound high low hdrlen)
    (came : hevTaskIoSocketRecvmsg ⟨false,true⟩ mem
      (bodyRegions (freshSlot mem) (addrLength hdrlen) (dataLength high low)) next =
        some ((bodyLength high low hdrlen : Int),filled,after)) :
    hevSocks5UdpRecvmmsgTcp nonblock done (freshSlot mem::rest) inlet =
      hevSocks5UdpRecvmmsgTcp nonblock (done++[filledSlot high low hdrlen atype len filled]) rest after := by
  obtain ⟨wide,fits⟩ := sound_iff.mp sound
  have room : ¬((freshSlot mem).len+2^64-addrLength hdrlen) % 2^64 < dataLength high low := fits
  rw [hevSocks5UdpRecvmmsgTcp]
  simp only [read,bind,Option.bind,ne_eq,not_true_eq_false,if_false,if_neg wide,if_neg room]
  rw [show (freshSlot mem).mem = mem from rfl,came]
  simp only [bodyLength,not_true_eq_false,if_false]
  simp [filledSlot,freshSlot]

theorem recvmmsg_keeps (stack : List (Vector UInt8 1500))
    (went : hevSocks5UdpRecvmmsgTcp nonblock done (slots stack) inlet = some (res,msgv,next)) : done <+: msgv := by
  induction stack generalizing done inlet with
  | nil =>
    cases Option.some.inj went
    exact List.prefix_rfl
  | cons mem stack ih =>
    cases slot_step went with
    | headless head udp read other result left => exact left ▸ List.prefix_append _ _
    | refused high low hdrlen atype len read unsound result left => exact left ▸ List.prefix_append _ _
    | short high low hdrlen atype len middle filled read sound came other left => exact left ▸ List.prefix_append _ _
    | whole high low hdrlen atype len middle after filled read sound came later =>
      exact (List.prefix_append _ _).trans (ih later)

theorem filled_layout (room : 2+body.length ≤ mem.length) :
    overwrite (overwrite mem 2 body) 0 [atype,len] = atype::len::body++mem.drop (2+body.length) := by
  have second : (mem.take 2).length = 2 := by rw [List.length_take]; omega
  have behind : (overwrite mem 2 body).drop 2 = body++mem.drop (2+body.length) := by
    rw [overwrite,List.append_assoc]
    exact List.drop_left' second
  rw [overwrite,List.take_zero,List.nil_append]
  show [atype,len]++(overwrite mem 2 body).drop 2 = _
  rw [behind]
  rfl

theorem filled_frame (atype len : UInt8) (sound : Sound high low hdrlen) (room : 2+body.length ≤ mem.length)
    (whole : body.length = bodyLength high low hdrlen) :
    (filledSlot high low hdrlen atype len (overwrite mem 2 body)).frame =
      ⟨atype::len::body.take (addrLength hdrlen-2),body.drop (addrLength hdrlen-2)⟩ := by
  obtain ⟨k,narrow⟩ : ∃ k, addrLength hdrlen = k+2 := ⟨addrLength hdrlen-2,by have := sound_address sound; omega⟩
  rw [bodyLength,narrow,Nat.add_sub_cancel] at whole
  rw [narrow,Nat.add_sub_cancel]
  have addr : (atype::len::(body++mem.drop (2+body.length))).take (k+2) = atype::len::body.take k := by
    rw [List.take_succ_cons,List.take_succ_cons,List.take_append_of_le_length (by omega)]
  have data : ((atype::len::(body++mem.drop (2+body.length))).drop (k+2)).take (dataLength high low) = body.drop k := by
    rw [List.drop_succ_cons,List.drop_succ_cons,List.drop_append_of_le_length (by omega)]
    exact List.take_left' (by rw [List.length_drop]; omega)
  simp only [HevSocks5UdpMsg.frame,HevSocks5UdpMsg.addrBytes,HevSocks5UdpMsg.payload,filledSlot,filled_layout room,narrow,
    List.drop_zero,Nat.sub_zero]
  exact congrArg₂ Frame.mk addr data

theorem body_takes (room : mem.length = udpBufSize) (sound : Sound high low hdrlen)
    (came : hevTaskIoSocketRecvmsg ⟨false,true⟩ mem
      (bodyRegions (freshSlot mem) (addrLength hdrlen) (dataLength high low)) inlet = some (res,filled,next)) :
    ∃ body, inlet.stream = body++next.stream ∧ filled = overwrite mem 2 body ∧
      body.length ≤ bodyLength high low hdrlen ∧ Tells ⟨false,true⟩ body.length res next.errno := by
  have starts := sound_address sound
  have fits := sound.2
  have all := body_total mem high low hdrlen
  have follows : Follows 2 (bodyRegions (freshSlot mem) (addrLength hdrlen) (dataLength high low)) := by
    refine ⟨?_,?_,trivial⟩
    · show 0+2 = 2
      rfl
    · show 0+addrLength hdrlen = 2+(addrLength hdrlen-2)
      omega
  have inside : 2+total Region.len (bodyRegions (freshSlot mem) (addrLength hdrlen) (dataLength high low)) ≤ mem.length := by
    rw [all,bodyLength]
    omega
  obtain ⟨body,cut,written,within,tells⟩ := recvmsg_takes follows inside came
  exact ⟨body,cut,written,by rwa [all] at within,tells⟩

theorem body_whole (room : mem.length = udpBufSize) (sound : Sound high low hdrlen)
    (came : hevTaskIoSocketRecvmsg ⟨false,true⟩ mem
      (bodyRegions (freshSlot mem) (addrLength hdrlen) (dataLength high low)) inlet =
        some ((bodyLength high low hdrlen : Int),filled,next)) :
    ∃ body, inlet.stream = body++next.stream ∧ filled = overwrite mem 2 body ∧ body.length = bodyLength high low hdrlen ∧
      2+body.length ≤ mem.length := by
  obtain ⟨body,cut,written,_,tells⟩ := body_takes room sound came
  have whole := tells_count tells (Int.natCast_nonneg _)
  have starts := sound_address sound
  have fits := sound.2
  refine ⟨body,cut,written,by omega,?_⟩
  unfold bodyLength at whole
  omega

theorem whole_frame (room : mem.length = udpBufSize)
    (read : receiveHead nonblock inlet = some (5,[high,low,hdrlen,atype,len],next)) (sound : Sound high low hdrlen)
    (came : hevTaskIoSocketRecvmsg ⟨false,true⟩ mem
      (bodyRegions (freshSlot mem) (addrLength hdrlen) (dataLength high low)) next =
        some ((bodyLength high low hdrlen : Int),filled,after)) :
    parseFrame inlet.stream = some ((filledSlot high low hdrlen atype len filled).frame,after.stream) := by
  obtain ⟨head,cut,_,five,_,_⟩ := head_takes read
  obtain ⟨rfl,_⟩ := five rfl
  obtain ⟨body,behind,rfl,whole,fits⟩ := body_whole room sound came
  rw [filled_frame atype len sound fits whole,cut,behind]
  exact parse_whole atype len sound whole

def took (before after : Inlet) : Nat := before.stream.length-after.stream.length

theorem took_data (cut : inlet.stream = body++next.stream) : took inlet next = body.length := by
  rw [took,cut,List.length_append]
  omega

-- What a socket may do to a call that starts at the beginning of a frame: every read
-- gets all it asks for or nothing (a cut in the first header of the call is harmless
-- when its count and the code of the second read cancel out), and no frame is refused
-- for its lengths while errno says EAGAIN.
def Undisturbed (nonblock first : Bool) : List HevSocks5UdpMsg → Inlet → Prop
  | [], _ => True
  | msg::rest, inlet => ∀ res udp middle, receiveHead nonblock inlet = some (res,udp,middle) →
    (took inlet middle = 0 ∨ took inlet middle = 5 ∨ first = true ∧ res = 0) ∧
    ∀ high low hdrlen atype len, res = 5 → udp = [high,low,hdrlen,atype,len] →
      (¬Sound high low hdrlen → middle.errno ≠ eagain) ∧
      (Sound high low hdrlen → ∀ got mem next, hevTaskIoSocketRecvmsg ⟨false,true⟩ msg.mem
          (bodyRegions msg (addrLength hdrlen) (dataLength high low)) middle = some (got,mem,next) →
        (took middle next = 0 ∨ took middle next = bodyLength high low hdrlen) ∧
        (got = bodyLength high low hdrlen → Undisturbed nonblock false rest next))

-- The same, worked out.
def undisturbed (nonblock first : Bool) : List HevSocks5UdpMsg → Inlet → Bool
  | [], _ => true
  | msg::rest, inlet =>
    match receiveHead nonblock inlet with
    | none => true
    | some (res,udp,middle) =>
      decide (took inlet middle = 0 ∨ took inlet middle = 5 ∨ first = true ∧ res = 0) &&
      match udp with
      | [high,low,hdrlen,_,_] =>
        if res ≠ 5 then true
        else if Sound high low hdrlen then
          match hevTaskIoSocketRecvmsg ⟨false,true⟩ msg.mem (bodyRegions msg (addrLength hdrlen) (dataLength high low)) middle with
          | none => true
          | some (got,_,next) =>
            decide (took middle next = 0 ∨ took middle next = bodyLength high low hdrlen) &&
              (decide (got ≠ bodyLength high low hdrlen) || undisturbed nonblock false rest next)
        else decide (middle.errno ≠ eagain)
      | _ => true

theorem undisturbed_iff {todo : List HevSocks5UdpMsg} : undisturbed nonblock first todo inlet = true ↔ Undisturbed nonblock first todo inlet := by
  induction todo generalizing first inlet with
  | nil => exact ⟨fun _ => trivial,fun _ => rfl⟩
  | cons msg rest ih =>
    rw [undisturbed,Undisturbed]
    cases head : receiveHead nonblock inlet with
    | none => simp
    | some r =>
      obtain ⟨res,udp,middle⟩ := r
      simp only [Bool.and_eq_true,decide_eq_true_eq]
      constructor
      · rintro ⟨count,later⟩ _ _ _ same
        cases same
        refine ⟨count,?_⟩
        rintro high low hdrlen atype len rfl rfl
        simp only [ne_eq,not_true_eq_false,if_false] at later
        refine ⟨fun unsound => ?_,fun sound got mem next came => ?_⟩
        · simpa [unsound] using later
        · simp only [if_pos sound,came,Bool.and_eq_true,Bool.or_eq_true,decide_eq_true_eq] at later
          exact ⟨later.1,fun whole => ih.mp (later.2.resolve_left fun other => other whole)⟩
      · intro all
        obtain ⟨count,later⟩ := all _ _ _ rfl
        refine ⟨count,?_⟩
        split
        · rename_i high low hdrlen atype len
          split
          · rfl
          · rename_i five
            obtain ⟨refused,taken⟩ := later high low hdrlen atype len (not_not.mp five) rfl
            split
            · rename_i sound
              cases came : hevTaskIoSocketRecvmsg ⟨false,true⟩ msg.mem (bodyRegions msg (addrLength hdrlen) (dataLength high low)) middle with
              | none => rfl
              | some body =>
                obtain ⟨got,mem,next⟩ := body
                obtain ⟨size,rest_⟩ := taken sound got mem next came
                simp only [Bool.and_eq_true,Bool.or_eq_true,decide_eq_true_eq]
                exact ⟨size,(em' _).imp id fun whole => ih.mpr (rest_ whole)⟩
            · rename_i unsound
              exact decide_eq_true (refused unsound)
        · rfl

instance : Decidable (Undisturbed nonblock first todo inlet) := decidable_of_iff _ undisturbed_iff

-- What a call on an undisturbed socket returns. A positive result counts the messages,
-- and they are the next frames; -1 with EAGAIN means that the stream stands where it stood.
theorem recvmmsg_aligned {todo : List HevSocks5UdpMsg} (fresh : ∀ msg ∈ todo, ∃ mem, msg = freshSlot mem ∧ mem.length = udpBufSize)
    (calm : Undisturbed nonblock (done.isEmpty) todo inlet)
    (went : hevSocks5UdpRecvmmsgTcp nonblock done todo inlet = some (res,msgv,next)) :
    ∃ got rest, msgv = done++got++rest ∧
      (0 < res → res = (done++got).length ∧ frames inlet.stream = got.map HevSocks5UdpMsg.frame++frames next.stream) ∧
      (res = -1 → next.errno = eagain → done = [] ∧ frames inlet.stream = frames next.stream) := by
  induction todo generalizing done inlet with
  | nil =>
    cases Option.some.inj went
    exact ⟨[],[],by simp,fun _ => ⟨by simp,rfl⟩,fun refused => by omega⟩
  | cons msg rest ih =>
    obtain ⟨mem,rfl,room⟩ := fresh msg List.mem_cons_self
    cases slot_step went with
    | headless head udp read other result left =>
      obtain ⟨data,cut,_,_,five,stopped⟩ := head_takes read
      have moved := (calm head udp next read).1
      rw [took_data cut] at moved
      by_cases none_yet : done = []
      · rw [if_pos none_yet] at result
        -- The header was cut, or nothing of it came: the result is not positive.
        have ends : data = [] ∨ head = 0 := by
          rcases moved with none_moved | all | ⟨_,zero⟩
          · exact .inl (List.length_eq_zero_iff.mp none_moved)
          · exact (other (five all)).elim
          · exact .inr zero
        refine ⟨[],freshSlot mem::rest,by rw [left,List.append_nil],fun positive => ?_,fun refused code => ⟨none_yet,?_⟩⟩
        · rcases ends with empty | zero
          · have := stopped empty
            omega
          · omega
        · rcases ends with empty | zero
          · rw [cut,empty,List.nil_append]
          · omega
      · rw [if_neg none_yet] at result
        have empty : data = [] := by
          rcases moved with none_moved | all | ⟨early,_⟩
          · exact List.length_eq_zero_iff.mp none_moved
          · exact (other (five all)).elim
          · exact (none_yet (List.isEmpty_iff.mp early)).elim
        refine ⟨[],freshSlot mem::rest,by rw [left,List.append_nil],fun _ => ⟨by simpa using result,?_⟩,fun refused => ?_⟩
        · rw [cut,empty]
          rfl
        · omega
    | refused high low hdrlen atype len read unsound result left =>
      have code := ((calm _ _ _ read).2 _ _ _ _ _ rfl rfl).1 unsound
      exact ⟨[],freshSlot mem::rest,by rw [left,List.append_nil],fun positive => by omega,fun _ same => (code same).elim⟩
    | short high low hdrlen atype len middle filled read sound came other left =>
      have moved := (((calm _ _ _ read).2 _ _ _ _ _ rfl rfl).2 sound _ _ _ came).1
      obtain ⟨body,cut,_,_,tells⟩ := body_takes room sound came
      rw [took_data cut] at moved
      refine ⟨[],freshSlot filled::rest,by rw [left,List.append_nil],fun positive => ?_,fun refused code => ?_⟩
      · have all := tells_count tells (by omega)
        omega
      · rcases tells with all | ⟨_,stopped | ⟨_,waits⟩⟩
        · omega
        · omega
        · cases waits code
    | whole high low hdrlen atype len middle after filled read sound came later =>
      have parsed := whole_frame room read sound came
      have still := (((calm _ _ _ read).2 _ _ _ _ _ rfl rfl).2 sound _ _ _ came).2 rfl
      have busy : (done++[filledSlot high low hdrlen atype len filled]).isEmpty = false := by simp
      rw [← busy] at still
      obtain ⟨got,left,split,positive,quiet⟩ := ih (fun msg member => fresh msg (List.mem_cons_of_mem _ member)) still later
      refine ⟨filledSlot high low hdrlen atype len filled::got,left,by simp [split],fun some_came => ?_,fun refused code => ?_⟩
      · obtain ⟨count,aligned⟩ := positive some_came
        refine ⟨by simpa using count,?_⟩
        rw [frames_cons parsed,aligned,List.map_cons,List.cons_append]
      · simpa using (quiet refused code).1

end Psocks.Socks5
