import Psocks.Lib.Runs
import Psocks.Lwip.Pbuf
import Psocks.Misc.RingBuffer

namespace Psocks.SessionTcp
open Pbufs RingBuffer

-- `TCP_WND` and `TCP_SND_BUF` of the port; no window scaling.
def tcpWnd : Nat := 8*8191

structure HevSocks5SessionTcp where
  queue : List Pbuf
  pcb : Bool
  pcbEof : Bool
  buffer : HevRingBuffer

-- What writev and readv on the proxy socket can say: something moved, EAGAIN, or
-- the end (0 or another error).
inductive Io (α : Type) where
  | moved (value : α)
  | again
  | failed

-- `none`: ERR_WOULDBLOCK, lwIP keeps the chain and delivers it again.
def tcpRecvHandler (self : HevSocks5SessionTcp) : Option (List Pbuf) → Option HevSocks5SessionTcp
  | some p =>
    if self.queue = [] then some {self with queue:=p}
    else if tcpWnd < totLen self.queue then none
    else some {self with queue:=pbufCat self.queue p}
  | none => some {self with pcbEof:=true}

def tcpSentHandler (self : HevSocks5SessionTcp) (len : Nat) : HevSocks5SessionTcp :=
  {self with buffer:=hevRingBufferReadRelease self.buffer len}

def tcpErrHandler (self : HevSocks5SessionTcp) : HevSocks5SessionTcp := {self with pcb:=false}

-- The regions `tcp_splice_f` offers to writev: at most 64 links.
def offered (self : HevSocks5SessionTcp) : List UInt8 := bytes (self.queue.take 64)

-- Both parameters are 16 bits wide.
def settled (self : HevSocks5SessionTcp) (s : Nat) : HevSocks5SessionTcp :=
  {self with queue:=pbufFreeHeader self.queue (s % 65536)}

def tcpRecved (self : HevSocks5SessionTcp) (s : Nat) : Nat := if self.pcb then s % 65536 else 0

-- One `tcp_write` per region: all of it is taken, or an error code comes back and
-- nothing is. The length parameter is 16 bits wide.
def tcpWrites (ring : HevRingBuffer) : List Iovec → List (BitVec 8) → List UInt8 × BitVec 8
  | v::iov, code::codes =>
    let (bs,err) := tcpWrites ring iov codes
    ((if code = 0 then (ring.content [v]).take (v.len % 65536) else [])++bs,code ||| err)
  | _, _ => ([],0)

-- The part of `tcp_splice_b` under the lock, with the bytes it enqueues.
def sending (self : HevSocks5SessionTcp) (res : Int) (codes : List (BitVec 8)) (out : BitVec 8) :
    HevSocks5SessionTcp × List UInt8 × Int :=
  if self.pcb then
    let iov := hevRingBufferReading self.buffer
    if iov = [] then (self,[],res)
    else
      let (bs,err) := tcpWrites self.buffer iov codes
      ({self with buffer:=hevRingBufferReadFinish self.buffer (Iovec.total iov)},bs,if err ||| out = 0 then 1 else -1)
  else (self,[],-1)

-- Where the task of the session stands: in the loop at one of the two
-- directions, waiting for the lock in one of them, at the end of a round, or in
-- the wait for the last acknowledgements.
inductive Point where
  | forward
  | settle (s : Nat)
  | backward
  | push (res : Int)
  | pause
  | drain
  | finished
deriving DecidableEq

-- What has gone over the two connections so far.
structure Traffic where
  accepted : List UInt8
  written : List UInt8
  recved : Nat
  shut : Nat
  read : List UInt8
  enqueued : List UInt8
  acked : Nat

structure Machine where
  self : HevSocks5SessionTcp
  point : Point
  resF : Int
  resB : Int
  seen : Traffic

def start (size : Nat) (data : Nat → UInt8) : Machine :=
  ⟨⟨[],true,false,hevRingBufferAlloca size data⟩,.forward,1,1,⟨[],[],0,0,[],[],0⟩⟩

-- The first four are callbacks of lwIP, the others steps of the task with the
-- answers of its calls.
inductive Event where
  | recv (parts : List (List UInt8))
  | eof
  | sent (len : Nat)
  | error
  | writev (result : Io Nat)
  | idle
  | settle
  | readv (result : Io (List UInt8))
  | skip
  | push (codes : List (BitVec 8)) (out : BitVec 8)
  | pause (kept : Bool)
  | drain (kept : Bool)

-- lwIP delivers no more than the window allows before it is told that bytes
-- were taken, acknowledges what was enqueued, and calls back while there is a pcb.
def recv (m : Machine) (parts : List (List UInt8)) : Option Machine :=
  if m.self.pcb ∧ parts ≠ [] ∧ m.seen.accepted.length+parts.flatten.length ≤ m.seen.recved+tcpWnd then
    match tcpRecvHandler m.self (some (chain parts)) with
    | some self => some {m with self:=self,seen:={m.seen with accepted:=m.seen.accepted++parts.flatten}}
    | none => some m
  else none

def sent (m : Machine) (len : Nat) : Option Machine :=
  if m.self.pcb ∧ m.seen.acked+len ≤ m.seen.enqueued.length then
    some {m with self:=tcpSentHandler m.self len,seen:={m.seen with acked:=m.seen.acked+len}}
  else none

def writev (m : Machine) (result : Io Nat) : Option Machine :=
  if m.point = .forward ∧ 0 ≤ m.resF ∧ m.self.queue ≠ [] then
    match result with
    | .moved s =>
      if 0 < s ∧ s ≤ (offered m.self).length then
        some {m with point:=.settle s,seen:={m.seen with written:=m.seen.written++(offered m.self).take s}}
      else none
    | .again => some {m with point:=.backward,resF:=0}
    | .failed => some {m with point:=.backward,resF:=-1}
  else none

def idle (m : Machine) : Option Machine :=
  if m.point ≠ .forward then none
  else if m.resF < 0 then some {m with point:=.backward}
  else if m.self.queue ≠ [] then none
  else if m.self.pcbEof then some {m with point:=.backward,resF:=-1,seen:={m.seen with shut:=m.seen.shut+1}}
  else some {m with point:=.backward,resF:=0}

def settle (m : Machine) : Option Machine :=
  match m.point with
  | .settle s =>
    let seen := {m.seen with recved:=m.seen.recved+tcpRecved m.self s}
    some {m with self:=settled m.self s,point:=.backward,resF:=1,seen:=seen}
  | _ => none

def readv (m : Machine) (result : Io (List UInt8)) : Option Machine :=
  let iov := hevRingBufferWriting m.self.buffer
  if m.point = .backward ∧ 0 ≤ m.resB ∧ iov ≠ [] then
    match result with
    | .moved bs =>
      if 0 < bs.length ∧ bs.length ≤ Iovec.total iov then
        let buffer := hevRingBufferWriteFinish (m.self.buffer.fill iov bs) bs.length
        some {m with self:={m.self with buffer:=buffer},point:=.push 1,seen:={m.seen with read:=m.seen.read++bs}}
      else none
    | .again => some {m with point:=.push 0}
    | .failed => some {m with point:=.push (-1)}
  else none

def skip (m : Machine) : Option Machine :=
  if m.point ≠ .backward then none
  else if m.resB < 0 then some {m with point:=.pause}
  else if hevRingBufferWriting m.self.buffer ≠ [] then none
  else some {m with point:=.push 0}

def push (m : Machine) (codes : List (BitVec 8)) (out : BitVec 8) : Option Machine :=
  match m.point with
  | .push res =>
    if codes.length = (hevRingBufferReading m.self.buffer).length then
      let (self,bs,res) := sending m.self res codes out
      some {m with self:=self,point:=.pause,resB:=res,seen:={m.seen with enqueued:=m.seen.enqueued++bs}}
    else none
  | _ => none

-- The loop ends when both results are -1, or when the yielder gives up.
def pause (m : Machine) (kept : Bool) : Option Machine :=
  if m.point ≠ .pause then none
  else if kept ∧ (0 < m.resF ∨ 0 < m.resB ∨ m.resF = 0 ∨ m.resB = 0) then some {m with point:=.forward}
  else some {m with point:=.drain}

def drain (m : Machine) (kept : Bool) : Option Machine :=
  if m.point ≠ .drain then none
  else if m.self.pcb ∧ m.self.buffer.useSize ≠ 0 ∧ kept then some m
  else some {m with point:=.finished}

def step (m : Machine) : Event → Option Machine
  | .recv parts => recv m parts
  | .eof => if m.self.pcb then some {m with self:={m.self with pcbEof:=true}} else none
  | .sent len => sent m len
  | .error => if m.self.pcb then some {m with self:=tcpErrHandler m.self} else none
  | .writev result => writev m result
  | .idle => idle m
  | .settle => settle m
  | .readv result => readv m result
  | .skip => skip m
  | .push codes out => push m codes out
  | .pause kept => pause m kept
  | .drain kept => drain m kept

def run (m : Machine) (events : List Event) : Option Machine := Runs.exec step m events

variable {m next : Machine} {e : Event} {res : Int}

-- A step of the task that moves nothing: no length waits for the lock before or after
-- it, and only a direction that is open goes on to the writes.
structure Turns (m next : Machine) : Prop where
  self : next.self = m.self
  seen : next.seen = m.seen
  resB : next.resB = m.resB
  before : ∀ s, m.point ≠ .settle s
  after : ∀ s, next.point ≠ .settle s
  pushes : ∀ res, next.point = .push res → 0 ≤ m.resB

-- Everything a step can do.
inductive Kind (m : Machine) : Event → Machine → Prop where
  | unchanged (e : Event) : Kind m e m
  | turned (e : Event) (next : Machine) (turns : Turns m next) : Kind m e next
  | accepted (parts : List (List UInt8)) (self : HevSocks5SessionTcp) (alive : m.self.pcb = true)
      (room : m.seen.accepted.length+parts.flatten.length ≤ m.seen.recved+tcpWnd)
      (handled : tcpRecvHandler m.self (some (chain parts)) = some self) :
      Kind m (.recv parts) {m with self:=self,seen:={m.seen with accepted:=m.seen.accepted++parts.flatten}}
  | ended (alive : m.self.pcb = true) : Kind m .eof {m with self:={m.self with pcbEof:=true}}
  | acked (len : Nat) (bound : m.seen.acked+len ≤ m.seen.enqueued.length) :
      Kind m (.sent len) {m with self:=tcpSentHandler m.self len,seen:={m.seen with acked:=m.seen.acked+len}}
  | dropped (alive : m.self.pcb = true) : Kind m .error {m with self:=tcpErrHandler m.self}
  | written (s : Nat) (here : m.point = .forward) (fits : s ≤ (offered m.self).length) :
      Kind m (.writev (.moved s))
        {m with point:=.settle s,seen:={m.seen with written:=m.seen.written++(offered m.self).take s}}
  | shut (here : m.point = .forward) (empty : m.self.queue = []) (eof : m.self.pcbEof = true) :
      Kind m .idle {m with point:=.backward,resF:=-1,seen:={m.seen with shut:=m.seen.shut+1}}
  | settled (s : Nat) (here : m.point = .settle s) : Kind m .settle
      {m with self:=settled m.self s,point:=.backward,resF:=1,seen:={m.seen with recved:=m.seen.recved+tcpRecved m.self s}}
  | filled (bs : List UInt8) (here : m.point = .backward) (going : 0 ≤ m.resB)
      (room : hevRingBufferWriting m.self.buffer ≠ [])
      (fits : bs.length ≤ Iovec.total (hevRingBufferWriting m.self.buffer)) :
      Kind m (.readv (.moved bs)) {m with
        self:={m.self with buffer:=hevRingBufferWriteFinish (m.self.buffer.fill (hevRingBufferWriting m.self.buffer) bs) bs.length}
        point:=.push 1
        seen:={m.seen with read:=m.seen.read++bs}}
  | pushed (codes : List (BitVec 8)) (out : BitVec 8) (res : Int) (here : m.point = .push res)
      (same : codes.length = (hevRingBufferReading m.self.buffer).length) :
      Kind m (.push codes out) {m with
        self:=(sending m.self res codes out).1
        point:=.pause
        resB:=(sending m.self res codes out).2.2
        seen:={m.seen with enqueued:=m.seen.enqueued++(sending m.self res codes out).2.1}}

-- From a point that is no lock of the upstream direction to another.
theorem turn_from {point : Point} (here : m.point = point) (before : ∀ s, point ≠ .settle s)
    (after : ∀ s, next.point ≠ .settle s) (self : next.self = m.self) (seen : next.seen = m.seen)
    (resB : next.resB = m.resB) (pushes : ∀ res, next.point = .push res → 0 ≤ m.resB) : Kind m e next :=
  .turned e next ⟨self,seen,resB,fun s => by rw [here]; exact before s,after,pushes⟩

theorem idle_kind (went : idle m = some next) : Kind m .idle next := by
  unfold idle at went
  split at went
  · cases went
  rename_i there
  have here : m.point = .forward := Decidable.not_not.mp there
  have quiet : ∀ (resF : Int), Kind m .idle {m with point:=.backward,resF:=resF} := fun _ =>
    turn_from here (fun _ same => by cases same) (fun _ same => by cases same) rfl rfl rfl fun _ same => by cases same
  split at went
  · cases Option.some.inj went
    exact quiet m.resF
  split at went
  · cases went
  rename_i empty
  split at went
  · rename_i eof
    cases Option.some.inj went
    exact .shut here (Decidable.not_not.mp empty) eof
  · cases Option.some.inj went
    exact quiet 0

theorem writev_kind (went : writev m result = some next) : Kind m (.writev result) next := by
  unfold writev at went
  split at went
  · rename_i allowed
    have quiet : ∀ resF : Int, Kind m (.writev result) {m with point:=.backward,resF:=resF} := fun _ =>
      turn_from allowed.1 (fun _ same => by cases same) (fun _ same => by cases same) rfl rfl rfl fun _ same => by cases same
    cases result with
    | moved s =>
      simp only at went
      split at went
      · rename_i taken
        cases Option.some.inj went
        exact .written s allowed.1 taken.2
      · cases went
    | again => cases Option.some.inj went; exact quiet 0
    | failed => cases Option.some.inj went; exact quiet (-1)
  · cases went

theorem readv_kind (went : readv m result = some next) : Kind m (.readv result) next := by
  unfold readv at went
  dsimp only at went
  split at went
  · rename_i allowed
    obtain ⟨here,going,room⟩ := allowed
    have quiet : ∀ res : Int, Kind m (.readv result) {m with point:=.push res} := fun _ =>
      turn_from here (fun _ same => by cases same) (fun _ same => by cases same) rfl rfl rfl fun _ _ => going
    cases result with
    | moved bs =>
      simp only at went
      split at went
      · rename_i fits
        cases Option.some.inj went
        exact .filled bs here going room fits.2
      · cases went
    | again => cases Option.some.inj went; exact quiet 0
    | failed => cases Option.some.inj went; exact quiet (-1)
  · cases went

theorem skip_kind (went : skip m = some next) : Kind m .skip next := by
  unfold skip at went
  split at went
  · cases went
  rename_i there
  have here : m.point = .backward := Decidable.not_not.mp there
  split at went
  · cases Option.some.inj went
    exact turn_from here (fun _ same => by cases same) (fun _ same => by cases same) rfl rfl rfl fun _ same => by cases same
  rename_i going
  split at went
  · cases went
  · cases Option.some.inj went
    exact turn_from here (fun _ same => by cases same) (fun _ same => by cases same) rfl rfl rfl fun _ _ => Int.not_lt.mp going

theorem pause_kind (went : pause m kept = some next) : Kind m (.pause kept) next := by
  unfold pause at went
  split at went
  · cases went
  rename_i there
  have here : m.point = .pause := Decidable.not_not.mp there
  split at went
  · cases Option.some.inj went
    exact turn_from here (fun _ same => by cases same) (fun _ same => by cases same) rfl rfl rfl fun _ same => by cases same
  · cases Option.some.inj went
    exact turn_from here (fun _ same => by cases same) (fun _ same => by cases same) rfl rfl rfl fun _ same => by cases same

theorem drain_kind (went : drain m kept = some next) : Kind m (.drain kept) next := by
  unfold drain at went
  split at went
  · cases went
  rename_i there
  have here : m.point = .drain := Decidable.not_not.mp there
  split at went
  · cases Option.some.inj went
    exact .unchanged _
  · cases Option.some.inj went
    exact turn_from here (fun _ same => by cases same) (fun _ same => by cases same) rfl rfl rfl fun _ same => by cases same

theorem step_kind (went : step m e = some next) : Kind m e next := by
  cases e with
  | recv parts =>
    simp only [step,recv] at went
    split at went
    · rename_i allowed
      split at went
      · rename_i self handled
        cases Option.some.inj went
        exact .accepted parts self allowed.1 allowed.2.2 handled
      · cases Option.some.inj went
        exact .unchanged _
    · cases went
  | eof =>
    simp only [step] at went
    split at went
    · rename_i alive
      cases Option.some.inj went
      exact .ended alive
    · cases went
  | sent len =>
    simp only [step,sent] at went
    split at went
    · rename_i allowed
      cases Option.some.inj went
      exact .acked len allowed.2
    · cases went
  | error =>
    simp only [step] at went
    split at went
    · rename_i alive
      cases Option.some.inj went
      exact .dropped alive
    · cases went
  | writev result => exact writev_kind went
  | idle => exact idle_kind went
  | settle =>
    simp only [step,settle] at went
    split at went
    · rename_i s here
      cases Option.some.inj went
      exact .settled s here
    · cases went
  | readv result => exact readv_kind went
  | skip => exact skip_kind went
  | push codes out =>
    simp only [step,push] at went
    split at went
    · rename_i res here
      split at went
      · rename_i same
        cases Option.some.inj went
        exact .pushed codes out res here same
      · cases went
    · cases went
  | pause kept => exact pause_kind went
  | drain kept => exact drain_kind went

end Psocks.SessionTcp
