import Psocks.Lib.Conduit
import Psocks.Task.CircularBuffer
import Psocks.Task.Schedule

namespace Psocks.Splice
open Conduit CircularBuffer RingBuffer Schedule

-- What the system calls on the descriptors of one direction answer, where they are made: bytes,
-- EAGAIN, or 0 and other errors.
inductive Input where
  | data (bs : List UInt8)
  | again
  | ended
deriving DecidableEq, Repr

inductive Output where
  | moved (n : Nat)
  | again
  | failed
deriving DecidableEq, Repr

structure Answers where
  input : Input
  output : Output
deriving DecidableEq, Repr

-- A splicer, with what it has read from `fd_in`, written to `fd_out` and shut down.
structure Direction (σ : Type) where
  splicer : σ
  channel : Channel UInt8

section Buffer

def readvInto (d : Direction HevCircularBuffer) (input : Input) : Option (Int × Direction HevCircularBuffer) :=
  let iov := hevCircularBufferWriting d.splicer
  if iov.length = 0 then some (1,d)
  else
    match input with
    | .again => some (0,d)
    | .ended => some (-1,d)
    | .data bs =>
      if 0 < bs.length ∧ bs.length ≤ Iovec.total iov then
        some (1,⟨hevCircularBufferWriteFinish (d.splicer.fill iov bs) bs.length,d.channel.take bs⟩)
      else none

def writevFrom (d : Direction HevCircularBuffer) (res : Int) (output : Output) : Option (Int × Direction HevCircularBuffer) :=
  let iov := hevCircularBufferReading d.splicer
  if iov.length ≠ 0 then
    match output with
    | .again => some (0,d)
    | .failed => some (-1,d)
    | .moved n =>
      if 0 < n ∧ n ≤ Iovec.total iov then
        let given := d.channel.given++(d.splicer.content iov).take n
        some (1,⟨hevCircularBufferReadFinish d.splicer n,{d.channel with given:=given}⟩)
      else none
  else if res < 0 then some (res,{d with channel:=d.channel.shut})
  else some (res,d)

-- `task_io_splice` without the splice system call.
def taskIoSplice (d : Direction HevCircularBuffer) (a : Answers) : Option (Int × Direction HevCircularBuffer) :=
  (readvInto d a.input).bind fun read => writevFrom read.2 read.1 a.output

end Buffer

-- `pipe` and `room` are the kernel's side: what the pipe contains, and how much it can.
structure Pipe where
  wlen : Nat
  blen : Nat
  pipe : List UInt8
  room : Nat

section Pipe

def spliceIn (d : Direction Pipe) (input : Input) : Option (Int × Direction Pipe) :=
  match input with
  | .again => some (0,d)
  | .ended => some (-1,d)
  | .data bs =>
    let p := d.splicer
    if 0 < bs.length ∧ bs.length ≤ p.blen ∧ p.pipe.length+bs.length ≤ p.room then
      some (1,⟨{p with wlen:=p.wlen+bs.length,pipe:=p.pipe++bs},d.channel.take bs⟩)
    else none

def spliceOut (d : Direction Pipe) (res : Int) (output : Output) : Option (Int × Direction Pipe) :=
  let p := d.splicer
  if p.wlen ≠ 0 then
    match output with
    | .again => some (0,d)
    | .failed => some (-1,d)
    | .moved n =>
      if 0 < n ∧ n ≤ p.blen ∧ n ≤ p.pipe.length then
        some (1,⟨{p with wlen:=p.wlen-n,pipe:=p.pipe.drop n},{d.channel with given:=d.channel.given++p.pipe.take n}⟩)
      else none
  else if res < 0 then some (res,{d with channel:=d.channel.shut})
  else some (res,d)

-- And with it.
def taskIoSplicePipe (d : Direction Pipe) (a : Answers) : Option (Int × Direction Pipe) :=
  (spliceIn d a.input).bind fun read => spliceOut read.2 read.1 a.output

end Pipe

-- The loop runs, has been left at the yielder's word, or on its own.
inductive Progress where
  | running
  | stopped
  | finished
deriving DecidableEq, Repr

structure Relay (σ : Type) where
  resF : Int
  resB : Int
  f : Direction σ
  b : Direction σ
  yields : List HevTaskYieldType
  progress : Progress

structure Turn where
  f : Answers
  b : Answers
  stop : Bool

section Loop
variable {σ : Type} (splice : Direction σ → Answers → Option (Int × Direction σ))

def spliceOpen (res : Int) (d : Direction σ) (a : Answers) : Option (Int × Direction σ) :=
  if res ≥ 0 then splice d a else some (res,d)

def yieldWith (s : Relay σ) (type : HevTaskYieldType) (stop : Bool) : Relay σ :=
  {s with yields:=type::s.yields,progress:=if stop then .stopped else .running}

-- One pass of the loop of `hev_task_io_splice`.
def spliceTurn (s : Relay σ) (t : Turn) : Option (Relay σ) := do
  let (resF,f) ← spliceOpen splice s.resF s.f t.f
  let (resB,b) ← spliceOpen splice s.resB s.b t.b
  let s := {s with resF:=resF,resB:=resB,f:=f,b:=b}
  if resF > 0 ∨ resB > 0 then some (yieldWith s .yield t.stop)
  else if BitVec.ofInt 32 resF &&& BitVec.ofInt 32 resB = 0 then some (yieldWith s .waitio t.stop)
  else some {s with progress:=.finished}

def turn (s : Relay σ) (t : Turn) : Option (Relay σ) :=
  if s.progress = .running then spliceTurn splice s t else none

def start (f b : σ) : Relay σ := ⟨1,1,⟨f,.empty⟩,⟨b,.empty⟩,[],.running⟩

end Loop

-- How a splicer stands to its channel.
structure Keeps {σ : Type} (room : Nat) (contains : σ → List UInt8 → Prop) (d : Direction σ) : Prop where
  contains : contains d.splicer d.channel.held
  sound : Sound room d.channel

def Passes {σ : Type} (room : Nat) (contains : σ → List UInt8 → Prop) (splice : Direction σ → Answers → Option (Int × Direction σ)) : Prop :=
  ∀ d a res d', Keeps room contains d → d.channel.shuts = 0 → splice d a = some (res,d') → contains d'.splicer d'.channel.held ∧
    Pass room d.channel d'.channel res (a.input = .again) (a.output = .again) (a.output = .failed)

def BufferHolds (room : Nat) (b : HevCircularBuffer) (bs : List UInt8) : Prop := Holds b bs ∧ b.maxSize = room

def PipeHolds (room : Nat) (p : Pipe) (bs : List UInt8) : Prop := p.pipe = bs ∧ p.wlen = bs.length ∧ p.room = room

variable {room : Nat}

variable {σ : Type} {contains : σ → List UInt8 → Prop}

-- What the first half of a pass does,
structure TakesIn (room : Nat) (contains : σ → List UInt8 → Prop) (d d' : Direction σ) (res : Int) (input : Input) (xs : List UInt8) : Prop where
  channel : d'.channel = d.channel.take xs
  contains : contains d'.splicer (d.channel.held++xs)
  fits : d.channel.held.length+xs.length ≤ room
  range : res = 1 ∨ res = 0 ∨ res = -1
  filled : res = 1 → d.channel.held++xs ≠ []
  blocked : res = 0 → input = .again

-- and the second.
structure GivesOut (contains : σ → List UInt8 → Prop) (d d' : Direction σ) (res res' : Int) (output : Output) : Prop where
  contains : contains d'.splicer d'.channel.held
  outlet : Outlet d.channel res (output = .again) (output = .failed) d'.channel res'

theorem takes_nothing {d : Direction σ} {res : Int} {input : Input} (keeps : Keeps room contains d) (range : res = 1 ∨ res = 0 ∨ res = -1)
    (filled : res = 1 → d.channel.held ≠ []) (blocked : res = 0 → input = .again) : TakesIn room contains d d res input [] := by
  have same : d.channel.held++[] = d.channel.held := List.append_nil _
  refine ⟨?_,same.symm ▸ keeps.contains,keeps.sound.fits,range,same.symm ▸ filled,blocked⟩
  simp [Channel.take]

theorem halves_pass {d d1 d' : Direction σ} {res res' : Int} {a : Answers} {xs : List UInt8} (keeps : Keeps room contains d)
    (open_ : d.channel.shuts = 0) (in_ : TakesIn room contains d d1 res a.input xs) (out : GivesOut contains d1 d' res res' a.output) :
    contains d'.splicer d'.channel.held ∧
      Pass room d.channel d'.channel res' (a.input = .again) (a.output = .again) (a.output = .failed) := by
  have outlet := out.outlet
  rw [in_.channel] at outlet
  have held := take_held keeps.sound.order xs
  exact ⟨out.contains,outlet_pass keeps.sound open_ in_.fits in_.range (held ▸ in_.filled) in_.blocked outlet⟩

theorem readv_takes {d d' : Direction HevCircularBuffer} {res : Int} {input : Input} (keeps : Keeps room (BufferHolds room) d)
    (went : readvInto d input = some (res,d')) : ∃ xs, TakesIn room (BufferHolds room) d d' res input xs := by
  obtain ⟨holds,size⟩ := keeps.contains
  unfold readvInto at went
  simp only at went
  split at went
  · rename_i full
    cases went
    have filled := (writing_none holds).mp full
    refine ⟨[],takes_nothing keeps (.inl rfl) (fun _ none_ => ?_) (by simp)⟩
    have some_ := holds.room
    rw [none_,List.length_nil] at filled
    omega
  · split at went
    · cases went
      exact ⟨[],takes_nothing keeps (by simp) (by simp) fun _ => rfl⟩
    · cases went
      exact ⟨[],takes_nothing keeps (by simp) (by simp) (by simp)⟩
    · rename_i bs
      simp only [Option.ite_none_right_eq_some,Option.some.injEq,Prod.mk.injEq] at went
      obtain ⟨⟨some_,small⟩,rfl,rfl⟩ := went
      refine ⟨bs,rfl,⟨write_holds holds small,size⟩,?_,.inl rfl,fun _ none_ => ?_,by simp⟩
      · have fits := holds.fits
        have use := holds.use
        rw [writing_total holds] at small
        omega
      · have length := congrArg List.length none_
        rw [List.length_append,List.length_nil] at length
        omega

theorem writev_gives {d d' : Direction HevCircularBuffer} {res res' : Int} {output : Output} (holds : BufferHolds room d.splicer d.channel.held)
    (went : writevFrom d res output = some (res',d')) :
    GivesOut (BufferHolds room) d d' res res' output := by
  obtain ⟨inside,size⟩ := holds
  have none_ := reading_none inside
  unfold writevFrom at went
  simp only at went
  split at went
  · rename_i some_
    have filled : d.channel.held ≠ [] := fun empty => some_ (none_.mpr empty)
    split at went
    · cases went
      exact ⟨⟨inside,size⟩,.blocked filled rfl⟩
    · cases went
      exact ⟨⟨inside,size⟩,.broken filled rfl⟩
    · rename_i n
      simp only [Option.ite_none_right_eq_some,Option.some.injEq,Prod.mk.injEq] at went
      obtain ⟨⟨positive,small⟩,rfl,rfl⟩ := went
      rw [reading_total inside] at small
      have gives : ({d.channel with given:=d.channel.given++(d.splicer.content (hevCircularBufferReading d.splicer)).take n} : Channel UInt8) =
          d.channel.give n := by rw [reading_content inside,Channel.give]
      rw [gives]
      refine ⟨⟨?_,size⟩,.moved n positive small⟩
      change Holds _ (d.channel.give n).held
      rw [give_held small]
      exact read_holds inside small
  · rename_i empty
    have empty := none_.mp (not_not.mp empty)
    split at went
    · rename_i ends
      cases went
      exact ⟨⟨inside,size⟩,.ended empty ends⟩
    · rename_i goes
      cases went
      exact ⟨⟨inside,size⟩,.dry empty (not_lt.mp goes)⟩

theorem buffer_passes : Passes room (BufferHolds room) taskIoSplice := by
  intro d a res d' keeps open_ went
  obtain ⟨⟨res1,d1⟩,read,write⟩ := Option.bind_eq_some_iff.mp went
  obtain ⟨xs,in_⟩ := readv_takes keeps read
  have held := take_held keeps.sound.order xs
  exact halves_pass keeps open_ in_ (writev_gives (by rw [in_.channel,held]; exact in_.contains) write)

theorem splice_takes {d d' : Direction Pipe} {res : Int} {input : Input} (keeps : Keeps room (PipeHolds room) d)
    (went : spliceIn d input = some (res,d')) : ∃ xs, TakesIn room (PipeHolds room) d d' res input xs := by
  obtain ⟨inside,length,size⟩ := keeps.contains
  unfold spliceIn at went
  split at went
  · cases went
    exact ⟨[],takes_nothing keeps (by simp) (by simp) fun _ => rfl⟩
  · cases went
    exact ⟨[],takes_nothing keeps (by simp) (by simp) (by simp)⟩
  · rename_i bs
    simp only [Option.ite_none_right_eq_some,Option.some.injEq,Prod.mk.injEq] at went
    obtain ⟨⟨some_,_,small⟩,rfl,rfl⟩ := went
    refine ⟨bs,rfl,⟨?_,?_,size⟩,?_,.inl rfl,fun _ none_ => ?_,by simp⟩
    · rw [inside]
    · rw [List.length_append,length]
    · rwa [inside,size] at small
    · have length := congrArg List.length none_
      rw [List.length_append,List.length_nil] at length
      omega

theorem splice_gives {d d' : Direction Pipe} {res res' : Int} {output : Output} (holds : PipeHolds room d.splicer d.channel.held)
    (went : spliceOut d res output = some (res',d')) : GivesOut (PipeHolds room) d d' res res' output := by
  obtain ⟨inside,length,size⟩ := holds
  unfold spliceOut at went
  simp only at went
  split at went
  · rename_i some_
    have filled : d.channel.held ≠ [] := by
      intro empty
      rw [empty] at length
      exact some_ length
    split at went
    · cases went
      exact ⟨⟨inside,length,size⟩,.blocked filled rfl⟩
    · cases went
      exact ⟨⟨inside,length,size⟩,.broken filled rfl⟩
    · rename_i n
      simp only [Option.ite_none_right_eq_some,Option.some.injEq,Prod.mk.injEq] at went
      obtain ⟨⟨positive,_,small⟩,rfl,rfl⟩ := went
      have gives : ({d.channel with given:=d.channel.given++d.splicer.pipe.take n} : Channel UInt8) = d.channel.give n := by
        rw [inside,Channel.give]
      rw [inside] at small
      rw [gives]
      have held := give_held small
      refine ⟨⟨?_,?_,size⟩,.moved n positive small⟩
      · rw [inside,held]
      · rw [held,List.length_drop,length]
  · rename_i empty
    have empty : d.channel.held = [] := List.length_eq_zero_iff.mp (length.symm.trans (not_not.mp empty))
    split at went
    · rename_i ends
      cases went
      exact ⟨⟨inside,length,size⟩,.ended empty ends⟩
    · rename_i goes
      cases went
      exact ⟨⟨inside,length,size⟩,.dry empty (not_lt.mp goes)⟩

theorem pipe_passes : Passes room (PipeHolds room) taskIoSplicePipe := by
  intro d a res d' keeps open_ went
  obtain ⟨⟨res1,d1⟩,read,write⟩ := Option.bind_eq_some_iff.mp went
  obtain ⟨xs,in_⟩ := splice_takes keeps read
  have held := take_held keeps.sound.order xs
  exact halves_pass keeps open_ in_ (splice_gives (by rw [in_.channel,held]; exact in_.contains) write)

-- One direction between two passes: open, or closed for good.
structure Side (room : Nat) (contains : σ → List UInt8 → Prop) (broken : Prop) (res : Int) (d : Direction σ) : Prop where
  keeps : Keeps room contains d
  range : res = 1 ∨ res = 0 ∨ res = -1
  open_ : res ≠ -1 → d.channel.shuts = 0
  closed : res = -1 → d.channel.shuts = 1 ∧ d.channel.held = [] ∨ d.channel.shuts = 0 ∧ broken

-- It has ended, or can go no further before its descriptors are ready.
def Blocked (res : Int) (d : Direction σ) (a : Answers) : Prop :=
  res = -1 ∨ res = 0 ∧ (d.channel.held = [] ∧ a.input = .again ∨ d.channel.held ≠ [] ∧ a.output = .again)

variable {splice : Direction σ → Answers → Option (Int × Direction σ)} {broken : Prop} {res res' : Int} {d d' : Direction σ} {a : Answers}

theorem side_step (passes : Passes room contains splice) (side : Side room contains broken res d) (went : spliceOpen splice res d a = some (res',d')) :
    Side room contains (broken ∨ a.output = .failed) res' d' ∧ d.channel.given.length ≤ d'.channel.given.length ∧
      (0 < res' → d.channel.given.length < d'.channel.given.length) ∧ (res' ≤ 0 → Blocked res' d' a) := by
  unfold spliceOpen at went
  split at went
  · rename_i goes
    have open_ := side.open_ (by omega)
    obtain ⟨contains',pass⟩ := passes d a res' d' side.keeps open_ went
    have range := pass.range
    refine ⟨⟨⟨contains',pass.sound⟩,range,pass.open_,fun ended => ?_⟩,pass.given.length_le,fun moved => pass.moved.mp (by omega),fun idle => ?_⟩
    · rcases pass.closed ended with drained | ⟨still,_,why⟩
      · exact .inl drained
      · exact .inr ⟨still,.inr why⟩
    · rcases range with one | zero | minus
      · omega
      · exact .inr ⟨zero,pass.blocked zero⟩
      · exact .inl minus
  · rename_i over_
    cases went
    have minus : res = -1 := by
      have := side.range
      omega
    refine ⟨⟨side.keeps,side.range,side.open_,fun ended => (side.closed ended).imp_right fun broke => ⟨broke.1,.inl broke.2⟩⟩,Nat.le_refl _,by omega,
      fun _ => .inl minus⟩

structure Going (room : Nat) (contains : σ → List UInt8 → Prop) (brokenF brokenB : Prop) (s : Relay σ) : Prop where
  f : Side room contains brokenF s.resF s.f
  b : Side room contains brokenB s.resB s.b
  busy : s.yields.count .yield ≤ s.f.channel.given.length+s.b.channel.given.length
  finished : s.progress = .finished → s.resF = -1 ∧ s.resB = -1

theorem both_ended {m n : Int} (first : m = 1 ∨ m = 0 ∨ m = -1) (second : n = 1 ∨ n = 0 ∨ n = -1) (idle : ¬(m > 0 ∨ n > 0)) :
    BitVec.ofInt 32 m &&& BitVec.ofInt 32 n = 0 ↔ ¬(m = -1 ∧ n = -1) := by
  rcases first with rfl | rfl | rfl <;> rcases second with rfl | rfl | rfl <;> first | exact absurd idle (by decide) | decide

variable {brokenF brokenB : Prop} {s next : Relay σ} {t : Turn}

theorem turn_going (passes : Passes room contains splice) (going : Going room contains brokenF brokenB s) (went : turn splice s t = some next) :
    Going room contains (brokenF ∨ t.f.output = .failed) (brokenB ∨ t.b.output = .failed) next ∧
      (next.yields = .waitio::s.yields → Blocked next.resF next.f t.f ∧ Blocked next.resB next.b t.b) := by
  simp only [turn,Option.ite_none_right_eq_some,spliceTurn,Option.bind_eq_bind,Option.bind_eq_some_iff] at went
  obtain ⟨_,⟨resF,f⟩,first,⟨resB,b⟩,second,went⟩ := went
  obtain ⟨sideF,longerF,movedF,idleF⟩ := side_step passes going.f first
  obtain ⟨sideB,longerB,movedB,idleB⟩ := side_step passes going.b second
  have busy := going.busy
  have running : ∀ stop, (if stop = true then Progress.stopped else .running) ≠ .finished := by
    intro stop
    split <;> simp
  simp only at went
  split at went
  · rename_i moves
    cases went
    refine ⟨⟨sideF,sideB,?_,fun ended => absurd ended (running t.stop)⟩,fun same => ?_⟩
    · change (HevTaskYieldType.yield::s.yields).count .yield ≤ f.channel.given.length+b.channel.given.length
      rw [List.count_cons_self]
      rcases moves with more | more
      · have := movedF more
        omega
      · have := movedB more
        omega
    · cases (List.cons.inj same).1
  · rename_i idle
    split at went
    · cases went
      refine ⟨⟨sideF,sideB,?_,fun ended => absurd ended (running t.stop)⟩,fun _ => ⟨idleF (by omega),idleB (by omega)⟩⟩
      change (HevTaskYieldType.waitio::s.yields).count .yield ≤ f.channel.given.length+b.channel.given.length
      rw [List.count_cons_of_ne (by decide)]
      omega
    · rename_i ended
      cases went
      refine ⟨⟨sideF,sideB,?_,fun _ => not_not.mp fun open_ => ended ((both_ended sideF.range sideB.range idle).mpr open_)⟩,fun same => ?_⟩
      · change s.yields.count .yield ≤ f.channel.given.length+b.channel.given.length
        omega
      · exact absurd same (by simp)

theorem turns_going {turns : List Turn} (passes : Passes room contains splice) (going : Going room contains brokenF brokenB s)
    (went : Runs.exec (turn splice) s turns = some next) :
    Going room contains (brokenF ∨ ∃ t ∈ turns, t.f.output = .failed) (brokenB ∨ ∃ t ∈ turns, t.b.output = .failed) next := by
  induction turns generalizing s brokenF brokenB with
  | nil =>
    cases went
    simpa using going
  | cons t turns ih =>
    obtain ⟨middle,first,rest⟩ := Runs.exec_cons went
    have last := ih (turn_going passes going first).1 rest
    simpa only [List.mem_cons,exists_eq_or_imp,or_assoc] using last

-- What has come through a channel with `room` bytes inside, and how it was left.
structure Carried (room : Nat) (broken : Prop) (res : Int) (c : Channel UInt8) : Prop where
  order : c.given <+: c.taken
  inside : c.taken.length ≤ c.given.length+room
  once : c.shuts ≤ 1
  whole : c.shuts = 1 → c.given = c.taken
  left : res = -1 → c.shuts = 1 ∨ broken

theorem side_carried (side : Side room contains broken res d) : Carried room broken res d.channel := by
  have sound := side.keeps.sound
  have whole := congrArg List.length (held_whole sound.order)
  have fits := sound.fits
  rw [List.length_append] at whole
  refine ⟨sound.order,by omega,sound.once,fun shut => ?_,fun ended => ?_⟩
  · exact (held_empty sound.order).mp (sound.drained (by omega))
  · exact (side.closed ended).imp And.left And.right

-- A splicer that keeps its channel makes a relay that does: in both directions the bytes come out
-- in order and whole, with no more than `room` of them inside, and the end is passed on once, after
-- the last of them. The task waits only while both directions are blocked, yields no more often
-- than bytes are written, and leaves on its own with both directions ended.
structure Relays (room : Nat) (splice : Direction σ → Answers → Option (Int × Direction σ)) (f b : σ) : Prop where
  forward : ∀ turns s, Runs.exec (turn splice) (start f b) turns = some s →
    Carried room (∃ t ∈ turns, t.f.output = .failed) s.resF s.f.channel
  backward : ∀ turns s, Runs.exec (turn splice) (start f b) turns = some s →
    Carried room (∃ t ∈ turns, t.b.output = .failed) s.resB s.b.channel
  busy : ∀ turns s, Runs.exec (turn splice) (start f b) turns = some s →
    s.yields.count .yield ≤ s.f.channel.given.length+s.b.channel.given.length
  finished : ∀ turns s, Runs.exec (turn splice) (start f b) turns = some s → s.progress = .finished → s.resF = -1 ∧ s.resB = -1
  blocked : ∀ turns s t next, Runs.exec (turn splice) (start f b) turns = some s → turn splice s t = some next →
    next.yields = .waitio::s.yields → Blocked next.resF next.f t.f ∧ Blocked next.resB next.b t.b

theorem passes_relays (passes : Passes room contains splice) {f b : σ} (emptyF : contains f []) (emptyB : contains b []) : Relays room splice f b := by
  have side : ∀ p, contains p [] → Side room contains False 1 (⟨p,.empty⟩ : Direction σ) :=
    fun p empty => ⟨⟨empty,empty_sound room⟩,.inl rfl,fun _ => rfl,by simp⟩
  have begin : Going room contains False False (start f b) := ⟨side f emptyF,side b emptyB,Nat.zero_le _,by simp [start]⟩
  have all : ∀ turns s, Runs.exec (turn splice) (start f b) turns = some s →
      Going room contains (False ∨ ∃ t ∈ turns, t.f.output = .failed) (False ∨ ∃ t ∈ turns, t.b.output = .failed) s :=
    fun turns s went => turns_going passes begin went
  simp only [false_or] at all
  refine ⟨fun turns s went => ?_,fun turns s went => ?_,fun turns s went => (all turns s went).busy,fun turns s went => (all turns s went).finished,
    fun turns s t next went step => (turn_going passes (all turns s went) step).2⟩
  · exact side_carried (all turns s went).f
  · exact side_carried (all turns s went).b

-- The relay through a ring of `size` bytes and the one through a pipe of that size are such.
theorem splice_relays {size : Nat} (blen : Nat) (dataF dataB : Nat → UInt8) (room : 0 < size) :
    Relays size taskIoSplice (hevCircularBufferNew size dataF) (hevCircularBufferNew size dataB) ∧
    Relays size taskIoSplicePipe ⟨0,blen,[],size⟩ ⟨0,blen,[],size⟩ :=
  ⟨passes_relays buffer_passes ⟨new_holds room,rfl⟩ ⟨new_holds room,rfl⟩,
   passes_relays pipe_passes ⟨rfl,rfl,rfl⟩ ⟨rfl,rfl,rfl⟩⟩

-- Six bytes one way through rings of four, while the other way ends at once.
def sixBytes : List Turn :=
  [⟨⟨.data [1,2,3],.moved 2⟩,⟨.again,.again⟩,false⟩,
    ⟨⟨.data [4,5,6],.again⟩,⟨.ended,.again⟩,false⟩,⟨⟨.ended,.moved 4⟩,⟨.again,.again⟩,false⟩,
   ⟨⟨.ended,.again⟩,⟨.again,.again⟩,false⟩]

theorem six_relayed : ∃ s, Runs.exec (turn taskIoSplice) (start (hevCircularBufferNew 4 fun _ => 0) (hevCircularBufferNew 4 fun _ => 0))
      sixBytes = some s ∧
    s.progress = .finished ∧ s.f.channel.taken = [1,2,3,4,5,6] ∧ s.f.channel.given = [1,2,3,4,5,6] ∧ s.b.channel.shuts = 1 := by
  have relays := (splice_relays 4 (fun _ => 0) (fun _ => 0) (show 0 < 4 by decide)).1
  have forward := relays.forward sixBytes _ rfl
  exact ⟨_,rfl,rfl,rfl,forward.whole rfl,rfl⟩

end Psocks.Splice
