import Psocks.Lib.Vectored

namespace Psocks.Task
open Vectored

def eagain : Nat := 11

-- MSG_DONTWAIT and MSG_WAITALL.
structure Flags where
  dontwait : Bool
  waitall : Bool

-- What one system call on a non-blocking socket meets: room or data for `n+1` bytes,
-- EAGAIN (with what the yielder says when it is asked), another error.
inductive Answer where
  | ready (n : Nat)
  | again (stopped : Bool)
  | failed (errno : Nat) (other : errno ≠ eagain)

-- A successful call leaves errno as it was.
def Answer.errno (before : Nat) : Answer → Nat
  | .ready _ => before
  | .again _ => eagain
  | .failed errno _ => errno

inductive Pass (σ : Type) where
  | retry (size : Nat) (s : σ)
  | done (res : Int) (s : σ)

structure Reply (σ : Type) where
  res : Int
  socket : σ
  errno : Nat
  script : List Answer

variable {σ : Type} {call : Nat → σ → Nat × σ} {flags : Flags} {len size errno : Nat} {s : σ}
  {script : List Answer} {reply : Reply σ}

-- `size ? size : s`
def orSize (size : Nat) (s : Int) : Int := if size = 0 then s else size

@[simp] theorem or_size_zero : orSize size 0 = size := by
  unfold orSize
  split <;> omega

-- From `retry:` to the next `goto retry` or `return`. The loop is the same in
-- hev_task_io_socket_recv, send, recvmsg and sendmsg; `call` is the system call.
def pass (flags : Flags) (call : Nat → σ → Nat × σ) (len size : Nat) (s : σ) : Answer → Pass σ
  | .again stopped =>
    if flags.dontwait then .done (if flags.waitall then orSize size (-1) else -1) s
    else if stopped then .done (orSize size (-2)) s
    else .retry size s
  | .failed _ _ => .done (if flags.waitall then orSize size (-1) else -1) s
  | .ready n =>
    let (moved,s) := call n s
    if flags.waitall = false then .done moved s
    else if moved = 0 then .done (orSize size 0) s
    else if size+moved < len then .retry (size+moved) s
    else .done (size+moved : Nat) s

-- `none`: the script ends while the task still waits.
def transfer (flags : Flags) (call : Nat → σ → Nat × σ) (len : Nat) : Nat → σ → Nat → List Answer → Option (Reply σ)
  | _, _, _, [] => none
  | size, s, errno, answer::script =>
    match pass flags call len size s answer with
    | .retry size s => transfer flags call len size s (answer.errno errno) script
    | .done res s => some ⟨res,s,answer.errno errno,script⟩

section Passes
variable {answer : Answer} {count : Nat} {next : σ} {res : Int}

-- What one pass can do: go on, with or without something moved,
theorem pass_retry (went : pass flags call len size s answer = .retry count next) :
    answer = .again false ∧ flags.dontwait = false ∧ count = size ∧ next = s ∨
      ∃ n, answer = .ready n ∧ flags.waitall = true ∧ 0 < (call n s).1 ∧ count = size+(call n s).1 ∧ count < len ∧
        next = (call n s).2 := by
  cases answer with
  | failed code other => cases went
  | again stopped =>
    simp only [pass] at went
    split at went
    · cases went
    · rename_i waits
      split at went
      · cases went
      · rename_i goes
        cases went
        exact .inl ⟨by simpa using goes,by simpa using waits,rfl,rfl⟩
  | ready n =>
    simp only [pass] at went
    split at went
    · cases went
    · rename_i all
      split at went
      · cases went
      · split at went
        · cases went
          exact .inr ⟨n,rfl,by simpa using all,by omega,rfl,by omega,rfl⟩
        · cases went

-- or end, without moving anything or after it did.
theorem pass_done (errno : Nat) (went : pass flags call len size s answer = .done res next) :
    next = s ∧ (res = (if flags.waitall then orSize size (-1) else -1) ∧ (answer.errno errno = eagain → flags.dontwait = true) ∨
        answer = .again true ∧ res = orSize size (-2)) ∧ (∀ n, answer ≠ .ready n) ∨
      ∃ n, answer = .ready n ∧ next = (call n s).2 ∧ res = (if flags.waitall then size+(call n s).1 else (call n s).1 : Nat) ∧
        (flags.waitall = true → (call n s).1 = 0 ∨ len ≤ size+(call n s).1) := by
  cases answer with
  | failed code other =>
    cases went
    exact .inl ⟨rfl,.inl ⟨rfl,fun same => (other same).elim⟩,fun n same => by cases same⟩
  | again stopped =>
    simp only [pass] at went
    split at went
    · rename_i waits
      cases went
      exact .inl ⟨rfl,.inl ⟨rfl,fun _ => waits⟩,fun n same => by cases same⟩
    · split at went
      · rename_i stops
        cases went
        subst stops
        exact .inl ⟨rfl,.inr ⟨rfl,rfl⟩,fun n same => by cases same⟩
      · cases went
  | ready n =>
    right
    simp only [pass] at went
    split at went
    · rename_i some_of
      cases went
      exact ⟨n,rfl,rfl,by simp [some_of],fun all => by rw [some_of] at all; cases all⟩
    · rename_i all
      have all : flags.waitall = true := by simpa using all
      split at went
      · rename_i nothing
        cases went
        exact ⟨n,rfl,rfl,by simp [all,nothing],fun _ => .inl nothing⟩
      · split at went
        · cases went
        · cases went
          exact ⟨n,rfl,rfl,by simp [all],fun _ => .inr (by omega)⟩

theorem transfer_cons (went : transfer flags call len size s errno (answer::script) = some reply) :
    (∃ count next, pass flags call len size s answer = .retry count next ∧
        transfer flags call len count next (answer.errno errno) script = some reply) ∨
      ∃ res next, pass flags call len size s answer = .done res next ∧
        reply = ⟨res,next,answer.errno errno,script⟩ := by
  simp only [transfer] at went
  split at went
  · rename_i count next passed
    exact .inl ⟨count,next,passed,went⟩
  · rename_i res next passed
    exact .inr ⟨res,next,passed,(Option.some.inj went).symm⟩

end Passes

-- Nothing stops the call: data comes, or the wait for it goes on.
def Answer.Benign : Answer → Prop
  | .ready _ => True
  | .again stopped => stopped = false
  | .failed _ _ => False

theorem benign_waits {answer : Answer} (benign : answer.Benign) (other : ∀ n, answer ≠ .ready n) : answer = .again false := by
  cases answer with
  | ready n => exact (other n rfl).elim
  | failed code real => exact benign.elim
  | again stopped => exact congrArg Answer.again benign

def Answer.isReady : Answer → Bool
  | .ready _ => true
  | _ => false

def readies (script : List Answer) : Nat := script.countP Answer.isReady

@[simp] theorem readies_ready : readies (.ready n::script) = readies script+1 := List.countP_cons_of_pos rfl

@[simp] theorem readies_again : readies (.again stopped::script) = readies script :=
  List.countP_cons_of_neg Bool.false_ne_true

section Whole
-- A system call that moves what it can of the `left s` bytes still to go.
variable {left : σ → Nat} {Enough : σ → Prop}
  (moves : ∀ n s, Enough s → (call n s).1 = min (n+1) (left s) ∧ left (call n s).2 = left s-(call n s).1 ∧
    Enough (call n s).2)

include moves

theorem benign_whole (benign : ∀ answer ∈ script, answer.Benign) (enough : Enough s) (room : size+left s = len)
    (went : transfer ⟨false,true⟩ call len size s errno script = some reply) :
    reply.res = len ∧ left reply.socket = 0 ∧ (∀ answer ∈ reply.script, answer.Benign) ∧
      readies script ≤ readies reply.script+max 1 (left s) := by
  induction script generalizing size s errno with
  | nil => cases went
  | cons answer script ih =>
    have kind : ∀ a ∈ script, a.Benign := fun a member => benign a (List.mem_cons_of_mem _ member)
    rcases transfer_cons went with ⟨count,next,passed,later⟩ | ⟨res,next,passed,rfl⟩
    · rcases pass_retry passed with ⟨rfl,_,rfl,rfl⟩ | ⟨n,rfl,_,_,rfl,_,rfl⟩
      · rw [readies_again]
        exact ih kind enough room later
      · obtain ⟨count,rest,still⟩ := moves n s enough
        obtain ⟨whole,empty,good,spent⟩ := ih kind still (by omega) later
        rw [readies_ready]
        exact ⟨whole,empty,good,by omega⟩
    · rcases pass_done errno passed with ⟨rfl,_,other⟩ | ⟨n,rfl,rfl,rfl,all⟩
      · rw [benign_waits (benign answer List.mem_cons_self) other] at passed
        cases passed
      · obtain ⟨count,rest,_⟩ := moves n s enough
        have ends := all rfl
        rw [readies_ready]
        refine ⟨?_,by rw [rest]; omega,kind,by simp only; omega⟩
        simp only [if_true]
        omega

end Whole

-- The receiving end of a TCP connection: the bytes still to come, errno, and what
-- the next system calls on it will meet.
structure Inlet where
  stream : List UInt8
  errno : Nat
  script : List Answer

structure Filling where
  mem : List UInt8
  iov : List Region
  stream : List UInt8

-- recvmsg(2): 0 bytes mean the end of the stream unless nothing was asked for.
def recvmsg (n : Nat) (s : Filling) : Nat × Filling :=
  let moved := min (n+1) (min (total Region.len s.iov) s.stream.length)
  (moved,⟨scatter s.mem s.iov (s.stream.take moved),advance Region.len Region.skip moved s.iov,s.stream.drop moved⟩)

def hevTaskIoSocketRecvmsg (flags : Flags) (mem : List UInt8) (iov : List Region) (inlet : Inlet) :
    Option (Int × List UInt8 × Inlet) :=
  (transfer flags recvmsg (total Region.len iov) 0 ⟨mem,iov,inlet.stream⟩ inlet.errno inlet.script).map fun reply =>
    (reply.res,reply.socket.mem,⟨reply.socket.stream,reply.errno,reply.script⟩)

-- recv(2) at `buf+size` for `len-size` bytes is recvmsg(2) with one region.
def hevTaskIoSocketRecv (flags : Flags) (mem : List UInt8) (buf len : Nat) (inlet : Inlet) :
    Option (Int × List UInt8 × Inlet) :=
  hevTaskIoSocketRecvmsg flags mem [⟨buf,len⟩] inlet

-- The number of bytes brought, or why there are none.
def Tells (flags : Flags) (count : Nat) (res : Int) (errno : Nat) : Prop :=
  res = count ∨ count = 0 ∧ (res = -2 ∨ res = -1 ∧ (errno = eagain → flags.dontwait = true))

theorem recvmsg_fills {s : Filling} (n : Nat) (follows : Follows off s.iov)
    (inside : off+total Region.len s.iov ≤ s.mem.length) :
    ∃ data, data.length = (recvmsg n s).1 ∧ s.stream = data++(recvmsg n s).2.stream ∧
      (recvmsg n s).2.mem = overwrite s.mem off data ∧ Follows (off+data.length) (recvmsg n s).2.iov ∧
      data.length+total Region.len (recvmsg n s).2.iov = total Region.len s.iov := by
  have count : (s.stream.take (recvmsg n s).1).length = (recvmsg n s).1 := by
    rw [List.length_take]
    simp only [recvmsg]
    omega
  have fits : (recvmsg n s).1 ≤ total Region.len s.iov := by
    simp only [recvmsg]
    omega
  refine ⟨s.stream.take (recvmsg n s).1,count,(List.take_append_drop _ _).symm,?_,?_,?_⟩
  · exact scatter_overwrite _ (s.stream.take (recvmsg n s).1) follows (by omega) (by omega)
  · rw [count]
    exact follows_advance _ follows
  · have rest : total Region.len (recvmsg n s).2.iov = total Region.len s.iov-(recvmsg n s).1 := region_total _
    omega

theorem tells_count (tells : Tells flags count res errno) (counts : 0 ≤ res) : res = count := by
  rcases tells with all | ⟨_,stopped⟩
  · exact all
  · omega

theorem filling_run {s : Filling} {reply : Reply Filling} (follows : Follows off s.iov)
    (inside : off+total Region.len s.iov ≤ s.mem.length) (single : flags.waitall = false → size = 0)
    (went : transfer flags recvmsg len size s errno script = some reply) :
    ∃ data, s.stream = data++reply.socket.stream ∧ reply.socket.mem = overwrite s.mem off data ∧
      data.length ≤ total Region.len s.iov ∧ Tells flags (size+data.length) reply.res reply.errno := by
  induction script generalizing size s errno off with
  | nil => cases went
  | cons answer script ih =>
    rcases transfer_cons went with ⟨count,next,passed,later⟩ | ⟨res,next,passed,rfl⟩
    · rcases pass_retry passed with ⟨_,_,rfl,rfl⟩ | ⟨n,_,all,_,rfl,_,rfl⟩
      · exact ih follows inside single later
      · obtain ⟨data,moved,cut,filled,behind,rest⟩ := recvmsg_fills n follows inside
        have wide : (recvmsg n s).2.mem.length = s.mem.length := by rw [filled,overwrite_length (by omega)]
        obtain ⟨more,again,written,within,tells⟩ := ih behind (by omega) (fun other => by rw [all] at other; cases other) later
        refine ⟨data++more,by rw [cut,again,List.append_assoc],?_,by rw [List.length_append]; omega,?_⟩
        · rw [written,filled,overwrite_twice (by omega)]
        · rwa [List.length_append,← Nat.add_assoc,moved]
    · rcases pass_done errno passed with ⟨rfl,ended,_⟩ | ⟨n,_,rfl,rfl,_⟩
      · refine ⟨[],rfl,overwrite_nil.symm,Nat.zero_le _,?_⟩
        by_cases zero : size = 0
        · refine .inr ⟨zero,?_⟩
          rcases ended with ⟨rfl,code⟩ | ⟨_,rfl⟩
          · exact .inr ⟨by simp [orSize,zero],code⟩
          · exact .inl (by simp [orSize,zero])
        · have all : flags.waitall = true := by
            by_contra other
            exact zero (single (by simpa using other))
          rcases ended with ⟨rfl,_⟩ | ⟨_,rfl⟩
          · exact .inl (by simp [orSize,zero,all])
          · exact .inl (by simp [orSize,zero])
      · obtain ⟨data,moved,cut,filled,_,rest⟩ := recvmsg_fills n follows inside
        refine ⟨data,cut,filled,by omega,.inl ?_⟩
        rw [moved]
        cases all : flags.waitall with
        | true => rfl
        | false => simp [single all]

-- What a receive brings is the front of the stream, and it lies in memory as it came.
theorem recvmsg_takes (follows : Follows off iov) (inside : off+total Region.len iov ≤ mem.length)
    (went : hevTaskIoSocketRecvmsg flags mem iov inlet = some (res,filled,next)) :
    ∃ data, inlet.stream = data++next.stream ∧ filled = overwrite mem off data ∧
      data.length ≤ total Region.len iov ∧ Tells flags data.length res next.errno := by
  obtain ⟨reply,moved,same⟩ := Option.map_eq_some_iff.mp went
  cases same
  simpa using filling_run follows inside (fun _ => rfl) moved

theorem recv_takes (inside : buf+len ≤ mem.length)
    (went : hevTaskIoSocketRecv flags mem buf len inlet = some (res,filled,next)) :
    ∃ data, inlet.stream = data++next.stream ∧ filled = overwrite mem buf data ∧ data.length ≤ len ∧
      Tells flags data.length res next.errno := by
  have one : total Region.len [⟨buf,len⟩] = len := by simp
  have follows : Follows buf [⟨buf,len⟩] := ⟨rfl,trivial⟩
  obtain ⟨data,cut,written,within,tells⟩ := recvmsg_takes follows (by omega) went
  exact ⟨data,cut,written,by omega,tells⟩

-- The sending end: what has been written so far.
structure Outlet where
  wire : List UInt8
  errno : Nat
  script : List Answer

structure Draining where
  pieces : List (List UInt8)
  wire : List UInt8

def sendmsg (n : Nat) (s : Draining) : Nat × Draining :=
  let moved := min (n+1) (total List.length s.pieces)
  (moved,⟨advance List.length List.drop moved s.pieces,s.wire++s.pieces.flatten.take moved⟩)

def hevTaskIoSocketSendmsg (flags : Flags) (pieces : List (List UInt8)) (outlet : Outlet) : Option (Int × Outlet) :=
  (transfer flags sendmsg (total List.length pieces) 0 ⟨pieces,outlet.wire⟩ outlet.errno outlet.script).map fun reply =>
    (reply.res,⟨reply.socket.wire,reply.errno,reply.script⟩)

theorem sendmsg_moves (n : Nat) (s : Draining) (_ : True) :
    (sendmsg n s).1 = min (n+1) (total List.length s.pieces) ∧
      total List.length (sendmsg n s).2.pieces = total List.length s.pieces-(sendmsg n s).1 ∧ True :=
  ⟨rfl,advance_total (fun _ _ => List.length_drop) _,trivial⟩

theorem sendmsg_drains (n : Nat) (s : Draining) :
    ∃ data, data.length = (sendmsg n s).1 ∧ (sendmsg n s).2.wire = s.wire++data ∧
      data++(sendmsg n s).2.pieces.flatten = s.pieces.flatten ∧
      data.length+total List.length (sendmsg n s).2.pieces = total List.length s.pieces := by
  have fits : (sendmsg n s).1 ≤ total List.length s.pieces := Nat.min_le_right _ _
  have count : (s.pieces.flatten.take (sendmsg n s).1).length = (sendmsg n s).1 := by
    rw [List.length_take,gather_total]
    exact Nat.min_eq_left fits
  have rest : (sendmsg n s).2.pieces.flatten = s.pieces.flatten.drop (sendmsg n s).1 := gather_advance _
  have left := (sendmsg_moves n s trivial).2.1
  exact ⟨_,count,rfl,by rw [rest,List.take_append_drop],by omega⟩

section Datagrams
-- The sending end of a datagram socket: the messages of a call that are still to go,
-- and every datagram that went.
structure Mailing where
  left : List (List UInt8)
  sent : List (List UInt8)

-- sendmmsg(2) takes the first messages; the loop around it is that of the streams,
-- counting messages.
def sendmmsg (n : Nat) (s : Mailing) : Nat × Mailing :=
  let moved := min (n+1) s.left.length
  (moved,⟨s.left.drop moved,s.sent++s.left.take moved⟩)

variable {datagrams before : List (List UInt8)} {c len errno : Nat} {script : List Answer} {reply : Reply Mailing}

theorem sendmmsg_moves (n : Nat) : (sendmmsg n ⟨datagrams.drop c,before++datagrams.take c⟩).2 =
    ⟨datagrams.drop (c+(sendmmsg n ⟨datagrams.drop c,before++datagrams.take c⟩).1),
      before++datagrams.take (c+(sendmmsg n ⟨datagrams.drop c,before++datagrams.take c⟩).1)⟩ := by
  simp only [sendmmsg,List.drop_drop,List.append_assoc,List.take_add]

theorem sendmmsg_takes (n : Nat) (s : Mailing) (_ : True) : (sendmmsg n s).1 = min (n+1) s.left.length ∧
    (sendmmsg n s).2.left.length = s.left.length-(sendmmsg n s).1 ∧ True :=
  ⟨rfl,List.length_drop,trivial⟩

-- The result counts the datagrams that went, unless none did.
theorem mailing_counts
    (went : transfer ⟨false,true⟩ sendmmsg len c ⟨datagrams.drop c,before++datagrams.take c⟩ errno script = some reply) :
    reply.socket.sent = before++datagrams.take reply.res.toNat := by
  induction script generalizing c errno with
  | nil => cases went
  | cons answer script ih =>
    rcases transfer_cons went with ⟨count,next,passed,later⟩ | ⟨res,next,passed,rfl⟩
    · rcases pass_retry passed with ⟨_,_,rfl,rfl⟩ | ⟨n,_,_,_,rfl,_,rfl⟩
      · exact ih later
      · rw [sendmmsg_moves] at later
        exact ih later
    · rcases pass_done errno passed with ⟨rfl,ends,_⟩ | ⟨n,_,rfl,rfl,_⟩
      · have count : res.toNat = c := by
          rcases ends with ⟨rfl,_⟩ | ⟨_,rfl⟩ <;> simp only [orSize,if_true] <;> split <;> omega
        rw [count]
      · rw [sendmmsg_moves]
        simp only [if_true,Int.toNat_natCast]

end Datagrams

end Psocks.Task
