import Psocks.Session.Tcp

namespace Psocks.SessionTcp
open Pbufs RingBuffer
variable {m next : Machine} {ring : HevRingBuffer} {v : Iovec} {iov : List Iovec} {codes : List (BitVec 8)}

-- The configured buffer size is cut down to `TCP_SND_BUF`.
def tcpSndBuf : Nat := 8*8191

-- The first of two regions is refused and the second taken.
def Skips (m : Machine) (e : Event) : Prop :=
  ∃ first second out, e = .push [first,second] out ∧ m.self.pcb = true ∧ first ≠ 0 ∧ second = 0

theorem content_cons (ring : HevRingBuffer) (v : Iovec) (iov : List Iovec) :
    ring.content (v::iov) = ring.content [v]++ring.content iov := by
  simp [HevRingBuffer.content,Iovec.cells,Cells.load]

theorem content_length (ring : HevRingBuffer) (iov : List Iovec) : (ring.content iov).length = Iovec.total iov := by
  rw [HevRingBuffer.content,Cells.load_length,Iovec.cells_length]

theorem content_whole (small : v.len < 65536) : (ring.content [v]).take (v.len % 65536) = ring.content [v] := by
  rw [Nat.mod_eq_of_lt small]
  exact List.take_of_length_le (by rw [content_length]; simp [Iovec.total])

theorem code_or (a b : BitVec 8) : a ||| b = 0 ↔ a = 0 ∧ b = 0 := BitVec.or_eq_zero_iff

theorem tcp_writes_all (small : ∀ v ∈ iov, v.len < 65536) (same : codes.length = iov.length)
    (ok : (tcpWrites ring iov codes).2 = 0) : (tcpWrites ring iov codes).1 = ring.content iov := by
  induction iov generalizing codes with
  | nil => simp [tcpWrites,HevRingBuffer.content,Iovec.cells,Cells.load]
  | cons v iov ih =>
    cases codes with
    | nil => cases same
    | cons code codes =>
      simp only [tcpWrites] at ok ⊢
      obtain ⟨taken,rest⟩ := (code_or _ _).mp ok
      have tail := ih (fun w member => small w (List.mem_cons_of_mem _ member)) (by simpa using same) rest
      rw [if_pos taken,content_whole (small v (by simp)),tail,← content_cons]

theorem tcp_writes_refused (refused : ∀ code ∈ codes, code ≠ 0) : (tcpWrites ring iov codes).1 = [] := by
  induction iov generalizing codes with
  | nil => simp [tcpWrites]
  | cons v iov ih =>
    cases codes with
    | nil => rfl
    | cons code codes =>
      simp only [tcpWrites]
      rw [if_neg (refused code (by simp)),ih fun c member => refused c (List.mem_cons_of_mem _ member)]
      rfl

-- Once a region is refused, all later ones are: what is taken is a beginning.
theorem tcp_writes_prefix (small : ∀ v ∈ iov, v.len < 65536)
    (orderly : codes.Pairwise fun first second => first ≠ 0 → second ≠ 0) :
    (tcpWrites ring iov codes).1 <+: ring.content iov := by
  induction iov generalizing codes with
  | nil => simp [tcpWrites]
  | cons v iov ih =>
    cases codes with
    | nil => exact List.nil_prefix
    | cons code codes =>
      obtain ⟨later,rest⟩ := List.pairwise_cons.mp orderly
      rw [content_cons]
      by_cases taken : code = 0
      · simp only [tcpWrites]
        rw [if_pos taken,content_whole (small v (by simp))]
        exact (List.prefix_append_right_inj _).mpr (ih (fun w member => small w (List.mem_cons_of_mem _ member)) rest)
      · have refused : ∀ c ∈ code::codes, c ≠ 0 := by
          intro c member
          rcases List.mem_cons.mp member with rfl | other
          · exact taken
          · exact later c other taken
        rw [tcp_writes_refused refused]
        exact List.nil_prefix

theorem reading_two (ring : HevRingBuffer) : (hevRingBufferReading ring).length ≤ 2 := by
  unfold hevRingBufferReading
  dsimp only
  split
  · exact Nat.zero_le _
  · split <;> simp

theorem codes_orderly (same : codes.length ≤ 2) (kept : ∀ first second, codes = [first,second] → first ≠ 0 → second ≠ 0) :
    codes.Pairwise fun (first second : BitVec 8) => first ≠ 0 → second ≠ 0 := by
  match codes,same with
  | [],_ => exact .nil
  | [a],_ => exact List.pairwise_singleton _ _
  | [a,b],_ => exact List.pairwise_pair.mpr (kept a b rfl)

-- `place` and `taken` are the cells the bytes went to and the bytes handed to
-- lwIP; the buffer agrees with them as it does on its own.
def Held (m : Machine) : Prop :=
  ∃ place taken, Agrees ⟨m.self.buffer,⟨m.seen.read,place,taken,m.seen.acked⟩⟩ ∧
    m.seen.enqueued.length ≤ taken ∧ (0 ≤ m.resB → m.seen.enqueued = m.seen.read.take taken)

-- A buffer of no bytes offers nothing to either side.
structure Vacant (m : Machine) : Prop where
  size : m.self.buffer.maxSize = 0
  used : m.self.buffer.useSize = 0
  unread : m.self.buffer.rdaSize = 0
  enqueued : m.seen.enqueued = []

structure Gapless (m : Machine) : Prop where
  ring : Held m ∨ Vacant m
  size : m.self.buffer.maxSize ≤ tcpSndBuf
  beginning : m.seen.enqueued <+: m.seen.read
  acked : m.seen.acked ≤ m.seen.enqueued.length
  running : ∀ res, m.point = .push res → 0 ≤ m.resB

theorem gapless_frame (before : Gapless m) (buffer : next.self.buffer = m.self.buffer) (read : next.seen.read = m.seen.read)
    (enqueued : next.seen.enqueued = m.seen.enqueued) (acked : next.seen.acked = m.seen.acked)
    (resB : next.resB = m.resB) (point : ∀ res, next.point = .push res → 0 ≤ m.resB) : Gapless next := by
  obtain ⟨ring,size,beginning,bound,running⟩ := before
  refine ⟨?_,?_,?_,?_,?_⟩
  · rcases ring with held | vacant
    · refine .inl ?_
      unfold Held at held ⊢
      rw [buffer,read,enqueued,acked,resB]
      exact held
    · exact .inr ⟨buffer ▸ vacant.size,buffer ▸ vacant.used,buffer ▸ vacant.unread,enqueued ▸ vacant.enqueued⟩
  · rw [buffer]; exact size
  · rw [read,enqueued]; exact beginning
  · rw [acked,enqueued]; exact bound
  · intro res here
    rw [resB]
    exact point res here

theorem start_gapless (small : size ≤ tcpSndBuf) : Gapless (start size data) := by
  refine ⟨?_,small,List.prefix_rfl,Nat.le_refl _,fun _ here => by cases here⟩
  rcases Nat.eq_zero_or_pos size with none_ | room
  · exact .inr ⟨none_,rfl,rfl,rfl⟩
  · exact .inl ⟨[],0,start_agrees room,Nat.le_refl _,fun _ => rfl⟩

theorem release_max (r : HevRingBuffer) (len : Nat) : (hevRingBufferReadRelease r len).maxSize = r.maxSize := by
  unfold hevRingBufferReadRelease
  dsimp only
  split <;> rfl

theorem vacant_writing (vacant : Vacant m) : hevRingBufferWriting m.self.buffer = [] := by
  rw [hevRingBufferWriting,if_pos (vacant.used.trans vacant.size.symm)]

theorem vacant_reading (vacant : Vacant m) : hevRingBufferReading m.self.buffer = [] := by
  rw [hevRingBufferReading,if_pos vacant.unread]

theorem acked_gapless (before : Gapless m) (allowed : m.seen.acked+len ≤ m.seen.enqueued.length) :
    Gapless {m with self:=tcpSentHandler m.self len,seen:={m.seen with acked:=m.seen.acked+len}} := by
  obtain ⟨ring,size,beginning,bound,running⟩ := before
  have same := release_max m.self.buffer len
  refine ⟨?_,same ▸ size,beginning,allowed,running⟩
  rcases ring with ⟨place,taken,agrees,count,kept⟩ | vacant
  · have used := agrees.used
    have unread := agrees.unread
    simp only at used unread
    have small : len ≤ m.self.buffer.useSize - m.self.buffer.rdaSize := by omega
    exact .inl ⟨place,taken,release_agrees agrees small,count,kept⟩
  · obtain ⟨max,used,unread,enqueued⟩ := vacant
    refine .inr ⟨same.trans max,?_,?_,enqueued⟩
    · simp [tcpSentHandler,hevRingBufferReadRelease,used]
    · simp [tcpSentHandler,hevRingBufferReadRelease,used,unread]

theorem filled_gapless (before : Gapless m) (going : 0 ≤ m.resB) (room : hevRingBufferWriting m.self.buffer ≠ [])
    (fits : bs.length ≤ Iovec.total (hevRingBufferWriting m.self.buffer)) :
    Gapless {m with
      self:={m.self with buffer:=hevRingBufferWriteFinish (m.self.buffer.fill (hevRingBufferWriting m.self.buffer) bs) bs.length}
      point:=.push 1
      seen:={m.seen with read:=m.seen.read++bs}} := by
  obtain ⟨ring,size,beginning,bound,running⟩ := before
  refine ⟨?_,size,beginning.trans (List.prefix_append _ _),bound,fun _ _ => going⟩
  rcases ring with ⟨place,taken,agrees,count,kept⟩ | vacant
  · have unread := agrees.unread
    simp only at unread
    refine .inl ⟨_,taken,put_agrees agrees fits,count,fun _ => ?_⟩
    show m.seen.enqueued = (m.seen.read++bs).take taken
    rw [List.take_append_of_le_length (by omega)]
    exact kept going
  · exact absurd (vacant_writing vacant) room

theorem total_member (member : v ∈ iov) : v.len ≤ Iovec.total iov := by
  induction iov with
  | nil => cases member
  | cons w rest ih =>
    simp only [Iovec.total,List.map_cons,List.sum_cons] at ih ⊢
    rcases List.mem_cons.mp member with rfl | later
    · omega
    · have := ih later; omega

theorem sending_gapless (before : Gapless m) (open_ : 0 ≤ m.resB) (same : codes.length = (hevRingBufferReading m.self.buffer).length)
    (alive : m.self.pcb = true) (some_ : hevRingBufferReading m.self.buffer ≠ []) (kept : ¬Skips m (.push codes out)) :
    Gapless {m with
      self:={m.self with buffer:=hevRingBufferReadFinish m.self.buffer (Iovec.total (hevRingBufferReading m.self.buffer))}
      point:=.pause
      resB:=if (tcpWrites m.self.buffer (hevRingBufferReading m.self.buffer) codes).2 ||| out = 0 then 1 else -1
      seen:={m.seen with enqueued:=m.seen.enqueued++(tcpWrites m.self.buffer (hevRingBufferReading m.self.buffer) codes).1}} := by
  obtain ⟨ring,size,beginning,bound,running⟩ := before
  obtain ⟨place,taken,agrees,count,exactly⟩ := ring.resolve_right fun vacant => some_ (vacant_reading vacant)
  have content := reading_content agrees
  have total := reading_total agrees.valid
  have unread := agrees.unread
  have inside := Nat.le_trans agrees.valid.unread agrees.valid.fits
  simp only at content total unread inside
  have bounded : tcpSndBuf < 65536 := by decide
  have small : ∀ v ∈ hevRingBufferReading m.self.buffer, v.len < 65536 := by
    intro v member
    have := total_member member
    omega
  have orderly : codes.Pairwise fun first second => first ≠ 0 → second ≠ 0 := by
    refine codes_orderly (same ▸ reading_two _) ?_
    intro first second shape refused taken_
    exact kept ⟨first,second,out,by rw [shape],alive,refused,taken_⟩
  have part : (tcpWrites m.self.buffer (hevRingBufferReading m.self.buffer) codes).1 <+:
      m.self.buffer.content (hevRingBufferReading m.self.buffer) := tcp_writes_prefix small orderly
  have before := exactly open_
  have all : m.seen.enqueued++m.self.buffer.content (hevRingBufferReading m.self.buffer) = m.seen.read := by
    rw [content,before,List.take_append_drop]
  have width := part.length_le
  rw [content_length] at width
  refine ⟨.inl ⟨place,_,get_agrees agrees (Nat.le_of_eq total),?_,?_⟩,size,?_,?_,fun _ here => by cases here⟩
  · show (m.seen.enqueued++_).length ≤ taken+Iovec.total (hevRingBufferReading m.self.buffer)
    rw [List.length_append]
    omega
  · intro going
    have ok : (tcpWrites m.self.buffer (hevRingBufferReading m.self.buffer) codes).2 ||| out = 0 := by
      by_contra failed
      simp only [if_neg failed] at going
      omega
    show m.seen.enqueued++(tcpWrites m.self.buffer (hevRingBufferReading m.self.buffer) codes).1 =
      m.seen.read.take (taken+Iovec.total (hevRingBufferReading m.self.buffer))
    rw [tcp_writes_all small same ((code_or _ _).mp ok).1,all,List.take_of_length_le (by omega)]
  · show m.seen.enqueued++(tcpWrites m.self.buffer (hevRingBufferReading m.self.buffer) codes).1 <+: m.seen.read
    rw [← all]
    exact (List.prefix_append_right_inj _).mpr part
  · show m.seen.acked ≤ (m.seen.enqueued++_).length
    rw [List.length_append]
    omega

theorem quiet_gapless (before : Gapless m) (kept : 0 ≤ res → 0 ≤ m.resB) :
    Gapless {m with point:=.pause,resB:=res,seen:={m.seen with enqueued:=m.seen.enqueued++[]}} := by
  obtain ⟨ring,size,beginning,bound,running⟩ := before
  rw [List.append_nil]
  refine ⟨?_,size,beginning,bound,fun _ here => by cases here⟩
  rcases ring with ⟨place,taken,agrees,count,exactly⟩ | vacant
  · exact .inl ⟨place,taken,agrees,count,fun going => exactly (kept going)⟩
  · exact .inr ⟨vacant.size,vacant.used,vacant.unread,vacant.enqueued⟩

theorem pushed_gapless (before : Gapless m) (here : m.point = .push res)
    (same : codes.length = (hevRingBufferReading m.self.buffer).length) (kept : ¬Skips m (.push codes out)) :
    Gapless {m with
      self:=(sending m.self res codes out).1
      point:=.pause
      resB:=(sending m.self res codes out).2.2
      seen:={m.seen with enqueued:=m.seen.enqueued++(sending m.self res codes out).2.1}} := by
  have open_ := before.running res here
  by_cases alive : m.self.pcb = true
  · by_cases empty : hevRingBufferReading m.self.buffer = []
    · have quiet : sending m.self res codes out = (m.self,[],res) := by
        rw [sending,if_pos alive,if_pos empty]
      rw [quiet]
      exact quiet_gapless before fun _ => open_
    · rw [sending,if_pos alive,if_neg empty]
      exact sending_gapless before open_ same alive empty kept
  · have quiet : sending m.self res codes out = (m.self,[],-1) := by
      rw [sending,if_neg alive]
    rw [quiet]
    exact quiet_gapless before fun going => absurd (show (0 : Int) ≤ -1 from going) (by decide)

theorem handler_buffer {self after : HevSocks5SessionTcp} (handled : tcpRecvHandler self (some p) = some after) :
    after.buffer = self.buffer := by
  simp only [tcpRecvHandler] at handled
  split at handled
  · cases Option.some.inj handled
    rfl
  · split at handled
    · cases handled
    · cases Option.some.inj handled
      rfl

theorem step_gapless (before : Gapless m) (kept : ¬Skips m e) (went : step m e = some next) : Gapless next := by
  cases step_kind went with
  | unchanged => exact before
  | turned _ next turns =>
    obtain ⟨self,seen,resB,_,_,pushes⟩ := turns
    exact gapless_frame before (by rw [self]) (by rw [seen]) (by rw [seen]) (by rw [seen]) resB pushes
  | accepted parts self alive room handled =>
    exact gapless_frame before (handler_buffer handled) rfl rfl rfl rfl before.running
  | ended => exact gapless_frame before rfl rfl rfl rfl rfl before.running
  | acked len bound => exact acked_gapless before bound
  | dropped => exact gapless_frame before rfl rfl rfl rfl rfl before.running
  | written => exact gapless_frame before rfl rfl rfl rfl rfl fun _ here => by cases here
  | shut => exact gapless_frame before rfl rfl rfl rfl rfl fun _ here => by cases here
  | settled => exact gapless_frame before rfl rfl rfl rfl rfl fun _ here => by cases here
  | filled bs here going room fits => exact filled_gapless before going room fits
  | pushed codes out res here same => exact pushed_gapless before here same kept

-- A step only appends to what is enqueued, so this holds between the two writes
-- of a round as well.
theorem downstream_prefix (small : size ≤ tcpSndBuf) (went : run (start size data) events = some m)
    (along : Runs.Along step (fun m e => ¬Skips m e) (start size data) events) : m.seen.enqueued <+: m.seen.read :=
  (Runs.exec_along Gapless (fun _ _ _ => step_gapless) (start_gapless small) along went).beginning

-- A buffer of four bytes: three go through, two of them are acknowledged, and
-- the next three lie around the end of the buffer.
def around (first second : BitVec 8) : List Event :=
  [.idle,.readv (.moved [1,2,3]),.push [0] 0,.sent 2,.pause true,
    .idle,.readv (.moved [4,5,6]),.push [first,second] 0]

theorem downstream_prefix_around :
    run (start 4 fun _ => 0) (around 0 255) ≠ none ∧
    ∀ m, run (start 4 fun _ => 0) (around 0 255) = some m → m.seen.enqueued <+: m.seen.read := by
  refine ⟨by decide,fun m went => downstream_prefix (by decide) went (Runs.along_all ?_)⟩
  rintro e member s ⟨first,second,out,rfl,_,refused,_⟩
  have listed : (first = 0 ∧ second = 255) ∧ out = 0 := by simpa [around] using member
  exact refused listed.1.1

theorem around_reached : (run (start 4 fun _ => 0) (around 255 0)).map (fun m => (m.seen.read,m.seen.enqueued)) =
    some ([1,2,3,4,5,6],[1,2,3,5,6]) := by decide +kernel

-- Refused, the bytes up to the end are passed over and the rest is sent.
theorem downstream_gap : ∃ m, run (start 4 fun _ => 0) (around 255 0) = some m ∧
    m.seen.read = [1,2,3,4,5,6] ∧ m.seen.enqueued = [1,2,3,5,6] ∧ ¬m.seen.enqueued <+: m.seen.read := by
  obtain ⟨m,went,same⟩ := Option.map_eq_some_iff.mp around_reached
  obtain ⟨read,enqueued⟩ := Prod.mk.inj same
  refine ⟨m,went,read,enqueued,?_⟩
  rw [read,enqueued]
  decide

end Psocks.SessionTcp
