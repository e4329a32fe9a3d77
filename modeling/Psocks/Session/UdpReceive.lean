import Psocks.Lib.Runs
import Psocks.Session.Udp
import Psocks.Socks5.UdpStream

namespace Psocks.SessionUdp
open Socks5 Psocks.Task

-- The direction from the relay: the bytes that are still to come, `res_b` of the
-- splice loop, and what has been delivered.
structure Downlink where
  stream : List UInt8
  resB : Int
  sent : List Delivered
deriving DecidableEq

-- One turn of the splice loop as far as `fwd_b` goes: the memory of its slots, errno
-- as the tasks before left it, and what its calls meet.
structure Round where
  stack : List (Vector UInt8 1500)
  errno : Nat
  script : List Answer
  moments : List Moment

def Round.inlet (round : Round) (stream : List UInt8) : Inlet := ⟨stream,round.errno,round.script⟩

variable {stream : List UInt8} {s next : Downlink} {round : Round} {rounds : List Round}

def opened (stream : List UInt8) : Downlink := ⟨stream,1,[]⟩

def receive (s : Downlink) (round : Round) : Option Downlink :=
  if s.resB < 0 then some s
  else do
    let (res,sent,inlet) ← hevSocks5SessionUdpFwdB round.stack round.moments (round.inlet s.stream)
    pure ⟨inlet.stream,res,s.sent++sent⟩

-- The socket does not disturb the round, if `fwd_b` runs in it at all.
def Calm (s : Downlink) (round : Round) : Prop :=
  0 ≤ s.resB → Undisturbed true true (slots round.stack) (round.inlet s.stream)

instance : Decidable (Calm s round) := inferInstanceAs (Decidable (0 ≤ s.resB → Undisturbed true true (slots round.stack) (round.inlet s.stream)))

-- While the direction is open, what is still to come starts at a frame.
structure Aligned (stream : List UInt8) (s : Downlink) : Prop where
  front : s.sent.map Delivered.message <+: frames stream
  boundary : 0 ≤ s.resB → frames stream = s.sent.map Delivered.message++frames s.stream

theorem slots_fresh (stack : List (Vector UInt8 1500)) :
    ∀ msg ∈ slots stack, ∃ mem, msg = freshSlot mem ∧ mem.length = udpBufSize := by
  intro msg member
  obtain ⟨mem,_,rfl⟩ := List.mem_map.mp member
  exact ⟨mem.toList,rfl,slot_room mem⟩

theorem opened_aligned : Aligned stream (opened stream) := ⟨List.nil_prefix,fun _ => rfl⟩

theorem receive_aligned (before : Aligned stream s) (calm : Calm s round) (went : receive s round = some next) :
    Aligned stream next := by
  unfold receive at went
  split at went
  · cases Option.some.inj went
    exact before
  · rename_i going
    have going : 0 ≤ s.resB := Int.not_lt.mp going
    obtain ⟨⟨res,sent,inlet⟩,turn,same⟩ := Option.bind_eq_some_iff.mp went
    cases Option.some.inj same
    obtain ⟨⟨count,msgv,inlet⟩,received,step⟩ := Option.bind_eq_some_iff.mp turn
    obtain ⟨got,left,split,positive,quiet⟩ := recvmmsg_aligned (slots_fresh round.stack) (calm going) received
    have boundary := before.boundary going
    simp only at step
    split at step
    · cases Option.some.inj step
      refine ⟨by rw [List.append_nil]; exact before.front,fun open_still => ?_⟩
      by_cases waits : count = -1 ∧ inlet.errno = eagain
      · rw [List.append_nil,boundary]
        exact congrArg _ (quiet waits.1 waits.2).2
      · simp only [if_neg waits] at open_still
        omega
    · rename_i some_came
      obtain ⟨⟨code,delivered⟩,handed,last⟩ := Option.bind_eq_some_iff.mp step
      cases Option.some.inj last
      obtain ⟨counted,aligned⟩ := positive (by omega)
      have batch : msgv.take count.toNat = got := by
        rw [split,counted]
        simp
      obtain ⟨front,whole⟩ := deliver_front handed
      rw [batch] at front whole
      rw [show frames s.stream = _ from aligned] at boundary
      refine ⟨?_,fun open_still => ?_⟩
      · rw [List.map_append,boundary]
        exact (List.prefix_append_right_inj _).mpr (front.trans (List.prefix_append _ _))
      · rw [List.map_append,whole open_still,boundary,List.append_assoc]

theorem delivered_frames (went : Runs.exec receive (opened stream) rounds = some s)
    (calm : Runs.Along receive Calm (opened stream) rounds) : s.sent.map Delivered.message <+: frames stream :=
  (Runs.exec_along (Aligned stream) (fun _ _ _ => receive_aligned) opened_aligned calm went).front

def oneFrame : List UInt8 := [0,7,10,1,9,9,0,1,10,1,1,2,3,4,0,80,7]

def turn (errno : Nat) (script : List Answer) : Round :=
  ⟨[Vector.replicate 1500 0],errno,script,[⟨0,0,true,0⟩]⟩

-- Three frames, the last without a payload, and the beginning of a fourth.
def threeFrames : List UInt8 := oneFrame++[0,1,10,1,1,2,3,4,0,53,5]++([0,0,22,4]++List.replicate 16 2++[0,53])++[0,1]

-- Two frames in pieces, with waits between and within them; nothing; the third frame; a
-- header of which no more than two bytes come, which closes the direction.
def fiveRounds : List Round :=
  [⟨List.replicate 2 (.replicate 1500 0),eagain,
      [.ready 4,.again false,.ready 2,.ready 100,.ready 1,.again false,.ready 9,.ready 9],List.replicate 2 ⟨0,0,true,0⟩⟩,
    turn 0 [.again false],turn eagain [.ready 4,.ready 99],turn eagain [.ready 9,.again true],turn 0 [.ready 9]]

theorem delivered_frames_rounds : ∃ s, Runs.exec receive (opened threeFrames) fiveRounds = some s ∧ s.resB = -1 ∧
    s.sent.map (fun x => x.message.data) = [[1,2,3,4,0,80,7],[5],[]] ∧ s.sent.map Delivered.message <+: frames threeFrames := by
  have reached : (Runs.exec receive (opened threeFrames) fiveRounds).map (fun s => (s.resB,s.sent.map fun x => x.message.data)) =
      some (-1,[[1,2,3,4,0,80,7],[5],[]]) := by decide +kernel
  obtain ⟨s,went,same⟩ := Option.map_eq_some_iff.mp reached
  obtain ⟨closed,payloads⟩ := Prod.mk.inj same
  exact ⟨s,went,closed,payloads,delivered_frames went (by decide +kernel)⟩

-- The first byte arrives alone and the wait for the others ends; then the rest of the
-- frame is taken for a header that is refused, and once more for a whole frame.
def lostTurns : List Round :=
  [turn 0 [.ready 0,.again true],turn eagain [.ready 4],turn eagain [.ready 4,.ready 5]]

theorem lost_reached : Runs.exec receive (opened oneFrame) lostTurns =
    some ⟨[],1,[⟨⟨[1,1,2,3,4,0,80],[7]⟩,.relay (.v4 0x01020304) 80⟩]⟩ := by
  decide +kernel

theorem delivered_inside : ∃ s, Runs.exec receive (opened oneFrame) lostTurns = some s ∧
    frames oneFrame = [⟨[1,9,9,0,1,10,1],[1,2,3,4,0,80,7]⟩] ∧
    s.sent.map Delivered.message = [⟨[1,1,2,3,4,0,80],[7]⟩] ∧ ¬s.sent.map Delivered.message <+: frames oneFrame := by
  have parsed : frames oneFrame = [⟨[1,9,9,0,1,10,1],[1,2,3,4,0,80,7]⟩] := by
    rw [frames_cons (show parseFrame oneFrame = some (⟨[1,9,9,0,1,10,1],[1,2,3,4,0,80,7]⟩,[]) by decide +kernel),
      frames_none rfl]
  exact ⟨_,lost_reached,parsed,rfl,by rw [parsed]; decide⟩

end Psocks.SessionUdp
