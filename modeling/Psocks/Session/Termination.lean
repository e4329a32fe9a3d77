import Psocks.Lib.Runs
import Psocks.Socks5.Addr

namespace Psocks.Session
open Socks5

-- Where the task of a session is: not started, or in one of the calls of
-- hev_socks5_session_run.
inductive Phase where
  | created
  | connecting
  | handshaking
  | splicing
  | ended
deriving DecidableEq, Repr

-- A wait of the task with HEV_TASK_WAITIO: whether the session was terminated before it,
-- what the yielder returned and whether the task stopped.
structure Wait where
  terminated : Bool
  res : Int
  stopped : Bool
deriving DecidableEq, Repr

structure HevSocks5Session where
  type : HevSocks5Type
  timeout : Int
  phase : Phase
  terminated : Bool
  waits : List Wait
deriving DecidableEq, Repr

-- `terminate` comes from another task, the others are steps of its own. In `wait`, `gone`
-- is what the yielder of a UDP-in-UDP session sees of the TCP connection.
inductive Event where
  | terminate
  | run
  | connected (res : Int)
  | shaken (res : Int)
  | spliced
  | wait (type : HevTaskYieldType) (gone : Bool) (left : Nat)
deriving DecidableEq, Repr

def created (type : HevSocks5Type) (timeout : Int) : HevSocks5Session := ⟨type,timeout,.created,false,[]⟩

def HevSocks5Session.noted (s : HevSocks5Session) (type : HevTaskYieldType) (res : Int) (stopped : Bool) : HevSocks5Session :=
  if type = .waitio then {s with waits:=s.waits++[⟨s.terminated,res,stopped⟩]} else s

def ioYielder (s : HevSocks5Session) (type : HevTaskYieldType) (gone : Bool) (left : Nat) : HevSocks5Session :=
  if s.phase = .splicing ∧ s.type = .udpInUdp ∧ gone then {s with timeout:=0}.noted type (-1) false
  else s.noted type (hevSocks5TaskIoYielder type s.timeout left).1 (hevSocks5TaskIoYielder type s.timeout left).2

-- Between the phases nothing waits. A step the task is not at leaves all as it is.
def step (timeouts : Timeouts) (s : HevSocks5Session) (e : Event) : Option HevSocks5Session :=
  some <| match e, s.phase with
  | .terminate, _ => {s with timeout:=0,terminated:=true}
  | .run, .created => {s with timeout:=timeouts.connect,phase:=.connecting}
  | .connected res, .connecting =>
    if res < 0 then {s with phase:=.ended} else {s with timeout:=timeouts.tcp,phase:=.handshaking}
  | .shaken res, .handshaking =>
    let s := if s.type = .udpInTcp ∨ s.type = .udpInUdp then {s with timeout:=timeouts.udp} else s
    {s with phase:=if res < 0 then .ended else .splicing}
  | .spliced, .splicing => {s with phase:=.ended}
  | .wait type gone left, .connecting => ioYielder s type gone left
  | .wait type gone left, .handshaking => ioYielder s type gone left
  | .wait type gone left, .splicing => ioYielder s type gone left
  | _, _ => s

-- Once it is terminated its time-out is 0 and its waits fail without a stop.
structure Final (s : HevSocks5Session) : Prop where
  timeout : s.terminated → s.timeout = 0
  waits : ∀ wait ∈ s.waits, wait.terminated → wait.res = -1 ∧ wait.stopped = false

-- The steps that set the time-out anew come before the session is terminated, or set it to 0.
def Unrevived (timeouts : Timeouts) (s : HevSocks5Session) (e : Event) : Prop :=
  s.terminated → match e, s.phase with
  | .run, .created => timeouts.connect = 0
  | .connected res, .connecting => 0 ≤ res → timeouts.tcp = 0
  | .shaken _, .handshaking => s.type = .udpInTcp ∨ s.type = .udpInUdp → timeouts.udp = 0
  | _, _ => True

variable {timeouts : Timeouts} {s next : HevSocks5Session} {e : Event} {events : List Event}

theorem noted_final (final : Final s) (fails : s.terminated → type = .waitio → res = -1 ∧ stopped = false) :
    Final (s.noted type res stopped) := by
  unfold HevSocks5Session.noted
  split
  · rename_i waits
    refine ⟨final.timeout,fun wait member past => ?_⟩
    simp only [List.mem_append,List.mem_singleton] at member
    rcases member with old | rfl
    · exact final.waits wait old past
    · exact fails past waits
  · exact final

theorem yielder_final (final : Final s) (type : HevTaskYieldType) (gone : Bool) (left : Nat) : Final (ioYielder s type gone left) := by
  unfold ioYielder
  split
  · exact noted_final ⟨fun _ => rfl,final.waits⟩ fun _ _ => ⟨rfl,rfl⟩
  · refine noted_final final fun past waits => ?_
    rw [waits,final.timeout past,yielder_stopped]
    exact ⟨rfl,rfl⟩

-- A step that sets the time-out.
theorem revived_iff (final : Final s) (phase : Phase) (timeout : Int) :
    Final {s with timeout:=timeout,phase:=phase} ↔ (s.terminated → timeout = 0) :=
  ⟨fun after => after.timeout,fun unrevived => ⟨unrevived,final.waits⟩⟩

theorem step_final (final : Final s) (went : step timeouts s e = some next) : Final next ↔ Unrevived timeouts s e := by
  have same : ∀ phase, Final {s with phase:=phase} := fun phase => ⟨final.timeout,final.waits⟩
  unfold step at went
  unfold Unrevived
  cases e with
  | terminate =>
    cases went
    exact ⟨fun _ _ => trivial,fun _ => ⟨fun _ => rfl,final.waits⟩⟩
  | run =>
    cases here : s.phase with
    | created =>
      simp only [here] at went ⊢
      cases went
      exact revived_iff final .connecting timeouts.connect
    | _ =>
      simp only [here] at went ⊢
      cases went
      exact ⟨fun _ _ => trivial,fun _ => final⟩
  | connected res =>
    cases here : s.phase with
    | connecting =>
      simp only [here] at went ⊢
      cases went
      by_cases failed : res < 0
      · rw [if_pos failed]
        exact ⟨fun _ _ ok => absurd ok (Int.not_le.mpr failed),fun _ => same .ended⟩
      · rw [if_neg failed,revived_iff final]
        exact ⟨fun zero past _ => zero past,fun zero past => zero past (Int.not_lt.mp failed)⟩
    | _ =>
      simp only [here] at went ⊢
      cases went
      exact ⟨fun _ _ => trivial,fun _ => final⟩
  | shaken res =>
    cases here : s.phase with
    | handshaking =>
      simp only [here] at went ⊢
      cases went
      by_cases udp : s.type = .udpInTcp ∨ s.type = .udpInUdp
      · simp only [if_pos udp]
        rw [revived_iff final]
        exact ⟨fun zero past _ => zero past,fun zero past => zero past udp⟩
      · simp only [if_neg udp]
        exact ⟨fun _ _ kind => absurd kind udp,fun _ => same _⟩
    | _ =>
      simp only [here] at went ⊢
      cases went
      exact ⟨fun _ _ => trivial,fun _ => final⟩
  | spliced =>
    cases here : s.phase with
    | splicing =>
      simp only [here] at went ⊢
      cases went
      exact ⟨fun _ _ => trivial,fun _ => same .ended⟩
    | _ =>
      simp only [here] at went ⊢
      cases went
      exact ⟨fun _ _ => trivial,fun _ => final⟩
  | wait type gone left =>
    have yielded := yielder_final final type gone left
    cases here : s.phase with
    | created | ended =>
      simp only [here] at went ⊢
      cases went
      exact ⟨fun _ _ => trivial,fun _ => final⟩
    | _ =>
      simp only [here] at went ⊢
      cases went
      exact ⟨fun _ _ => trivial,fun _ => yielded⟩

theorem termination_final {type : HevSocks5Type} {timeout : Int} :
    Runs.Throughout (step timeouts) Final (created type timeout) events ↔
      Runs.Along (step timeouts) (Unrevived timeouts) (created type timeout) events :=
  Runs.throughout_along (fun _ _ _ => step_final) (fun _ _ _ stuck => by cases stuck)
    ⟨fun past => (by cases past),fun _ member => by cases member⟩

-- Evicted before its task runs for the first time, a session still waits ten seconds for
-- its server.
theorem termination_lost :
    Runs.exec (step ⟨10000,300000,60000⟩) (created .tcp 0) [.terminate,.run,.wait .waitio false 2000] =
        some ⟨.tcp,10000,.connecting,true,[⟨true,0,true⟩]⟩ ∧
      ¬Runs.Throughout (step ⟨10000,300000,60000⟩) Final (created .tcp 0) [.terminate,.run] := by
  refine ⟨rfl,fun all => ?_⟩
  have reached := (all.2 _ rfl).2 _ rfl
  exact absurd (reached.timeout rfl) (by decide)

end Psocks.Session
