import Mathlib.Data.List.Basic
import Psocks.Lib.Runs

namespace Psocks.Jni

-- Where the worker thread is: not there, in one of the calls of hev_socks5_tunnel_main
-- or hev_socks5_tunnel_init that can fail, in hev_socks5_tunnel_run, in the part of
-- hev_socks5_tunnel_fini up to event_task_fini, behind it, ended and not joined yet.
inductive Worker where
  | absent
  | config
  | logger
  | socks5Logger
  | taskSystem
  | tunnel
  | gateway
  | socketpair
  | nonblock
  | eventTask
  | lwipIo
  | lwipTimer
  | mappedDns
  | run
  | fini
  | closed
  | ended
deriving DecidableEq, Repr

-- From a call that has succeeded or failed. A failed initialisation cleans up what there
-- is; the calls before it return at once.
def Worker.next : Worker → Bool → Worker
  | .absent, _ => .absent
  | .config, ok => if ok then .logger else .ended
  | .logger, ok => if ok then .socks5Logger else .ended
  | .socks5Logger, ok => if ok then .taskSystem else .ended
  | .taskSystem, ok => if ok then .tunnel else .ended
  | .tunnel, ok => if ok then .gateway else .fini
  | .gateway, ok => if ok then .socketpair else .fini
  | .socketpair, ok => if ok then .nonblock else .fini
  | .nonblock, ok => if ok then .eventTask else .fini
  | .eventTask, ok => if ok then .lwipIo else .fini
  | .lwipIo, ok => if ok then .lwipTimer else .fini
  | .lwipTimer, ok => if ok then .mappedDns else .fini
  | .mappedDns, ok => if ok then .run else .fini
  | .run, _ => .fini
  | .fini, _ => .closed
  | .closed, _ => .ended
  | .ended, _ => .ended

-- Who holds the mutex of the service, and where in native_start_service or
-- native_stop_service it is; `waiting` is the loop of hev_socks5_tunnel_stop.
inductive Holder where
  | free
  | starting
  | created
  | stopping
  | waiting
  | writing (fd : Int)
  | joining
deriving DecidableEq, Repr

-- `eventFd` is event_fds[1]; `told` whether the other end has a byte to read; `aborted`
-- whether the assertion behind the write has failed.
structure Service where
  isWorking : Bool
  mutex : Holder
  worker : Worker
  eventFd : Int
  told : Bool
  aborted : Bool
deriving DecidableEq, Repr

def loaded : Service := ⟨false,.free,.absent,-1,false,false⟩

-- `jni` is the next step of the thread that holds the mutex (`ok`: what pthread_create
-- says), `worker` the next of the worker (`fd`: what socketpair gives).
inductive Event where
  | startService
  | stopService
  | jni (ok : Bool)
  | worker (ok : Bool) (fd : Nat)
deriving DecidableEq, Repr

def jniStep (s : Service) (ok : Bool) : Option Service :=
  match s.mutex with
  | .free => none
  | .starting =>
    if s.isWorking then some {s with mutex:=.free}
    else if ok then some {s with mutex:=.created,worker:=.config}
    else some {s with mutex:=.free}
  | .created => some {s with mutex:=.free,isWorking:=true}
  | .stopping => some {s with mutex:=if s.isWorking then .waiting else .free}
  | .waiting => some (if 0 ≤ s.eventFd then {s with mutex:=.writing s.eventFd} else s)
  | .writing fd =>
    -- The descriptor may have been closed since it was read.
    if fd = s.eventFd then some {s with mutex:=.joining,told:=true} else some {s with aborted:=true}
  | .joining => if s.worker = .ended then some {s with mutex:=.free,worker:=.absent,isWorking:=false} else none

-- hev_socks5_tunnel_run returns after the event task has read its byte.
def workerStep (s : Service) (ok : Bool) (fd : Nat) : Option Service :=
  match s.worker with
  | .absent | .ended => none
  | .run => if s.told then some {s with worker:=.fini} else none
  | .socketpair => some {s with worker:=s.worker.next ok,eventFd:=if ok then fd else s.eventFd}
  | .fini => some {s with worker:=.closed,eventFd:=-1,told:=false}
  | _ => some {s with worker:=s.worker.next ok}

def step (s : Service) (e : Event) : Option Service :=
  if s.aborted then none
  else match e with
    | .startService => if s.mutex = .free then some {s with mutex:=.starting} else none
    | .stopService => if s.mutex = .free then some {s with mutex:=.stopping} else none
    | .jni ok => jniStep s ok
    | .worker ok fd => workerStep s ok fd

-- Nothing will ever set the descriptor that the stop request waits for.
def Hangs (s : Service) : Prop := s.worker = .ended ∧ s.isWorking = true ∧ s.mutex = .waiting ∧ s.eventFd < 0

instance (s : Service) : Decidable (Hangs s) := inferInstanceAs (Decidable (_ ∧ _))

-- No stop request enters the loop when the worker has ended. While one is in it, no call of
-- the worker before its initialisation fails, and no clean-up comes to its end, as it does
-- when a call of the initialisation has failed.
def InTime (s : Service) (e : Event) : Prop :=
  match e with
  | .jni _ => s.mutex = .stopping → s.isWorking = true → s.worker ≠ .ended
  | .worker ok _ => s.mutex = .waiting →
      (s.worker ∈ [.config,.logger,.socks5Logger,.taskSystem] → ok = true) ∧ s.worker ≠ .closed
  | _ => True

-- These are the steps with which a worker ends.
theorem next_ended (w : Worker) (ok : Bool) (here : w ≠ .ended) :
    w.next ok = .ended ↔ ¬((w ∈ [.config,.logger,.socks5Logger,.taskSystem] → ok = true) ∧ w ≠ .closed) := by
  cases w <;> cases ok <;> revert here <;> decide

def Worker.dark (w : Worker) : Prop := w ∈ [.absent,.config,.logger,.socks5Logger,.taskSystem,.closed,.ended]

instance (w : Worker) : Decidable w.dark := inferInstanceAs (Decidable (w ∈ _))

-- Before the worker comes to its initialisation and behind its clean-up there is no
-- descriptor, and who waits for one has found the service working.
structure Kept (s : Service) : Prop where
  dark : s.worker.dark → s.eventFd < 0
  working : s.mutex = .waiting → s.isWorking = true
  idle : s.isWorking = false → s.mutex ≠ .created → s.worker = .absent
  crashed : s.aborted = true → s.mutex ≠ .stopping ∧ s.mutex ≠ .waiting

variable {s next : Service} {e : Event}

theorem loaded_kept : Kept loaded :=
  ⟨fun _ => by decide,fun waits => (by cases waits),fun _ _ => rfl,fun down => by cases down⟩

theorem jni_kept (ok : Bool) (kept : Kept s) (up : s.aborted = false) (went : jniStep s ok = some next) : Kept next := by
  have idle : s.mutex ≠ .created → s.isWorking = false → s.worker = .absent := fun other off => kept.idle off other
  -- Whoever lets the mutex go leaves the rest as it is.
  have leaves : s.mutex ≠ .created → ∀ holder, holder ≠ .waiting → Kept {s with mutex:=holder} := fun other holder apart =>
    ⟨kept.dark,fun waits => (apart waits).elim,fun off _ => idle other off,fun down => absurd (up.symm.trans down) (by decide)⟩
  unfold jniStep at went
  split at went
  · cases went
  · rename_i here
    have other : s.mutex ≠ .created := by rw [here]; decide
    split at went
    · cases went
      exact leaves other .free (by decide)
    · rename_i off
      have absent := idle other (by simpa using off)
      split at went
      · cases went
        exact ⟨fun _ => kept.dark (by rw [absent]; decide),fun waits => (by cases waits),fun _ other => (other rfl).elim,
          fun down => absurd (up.symm.trans down) (by decide)⟩
      · cases went
        exact leaves other .free (by decide)
  · cases went
    exact ⟨kept.dark,fun _ => rfl,fun off => (by cases off),fun down => absurd (up.symm.trans down) (by decide)⟩
  · rename_i here
    have other : s.mutex ≠ .created := by rw [here]; decide
    cases went
    cases works : s.isWorking with
    | true => exact ⟨kept.dark,fun _ => rfl,fun off => (by cases off),fun down => absurd (up.symm.trans down) (by decide)⟩
    | false =>
      have freed := leaves other .free (by decide)
      rwa [works] at freed
  · rename_i here
    have other : s.mutex ≠ .created := by rw [here]; decide
    split at went
    · cases went
      exact leaves other _ Holder.noConfusion
    · cases went
      exact kept
  · rename_i fd here
    have other : s.mutex ≠ .created := by rw [here]; exact Holder.noConfusion
    split at went
    · cases went
      exact ⟨kept.dark,fun waits => (by cases waits),fun off _ => idle other off,
        fun down => absurd (up.symm.trans down) (by decide)⟩
    · cases went
      exact ⟨kept.dark,kept.working,fun off _ => idle other off,
        fun _ => ⟨by rw [here]; exact Holder.noConfusion,by rw [here]; exact Holder.noConfusion⟩⟩
  · split at went
    · rename_i ended
      cases went
      exact ⟨fun _ => kept.dark (by rw [ended]; decide),fun waits => (by cases waits),fun _ _ => rfl,
        fun down => absurd (up.symm.trans down) (by decide)⟩
    · cases went

-- Into the dark the worker comes from the dark, or through event_task_fini.
theorem next_dark (w : Worker) (ok : Bool) (dark : (w.next ok).dark) : w.dark ∨ w = .fini := by
  cases w <;> cases ok <;> revert dark <;> decide

theorem worker_cases (ok : Bool) (fd : Nat) (went : workerStep s ok fd = some next) :
    s.worker ≠ .absent ∧ s.worker ≠ .ended ∧ (s.worker = .run → s.told = true) ∧
    next = {s with
      worker:=s.worker.next ok
      eventFd:=if s.worker = .socketpair ∧ ok = true then fd else if s.worker = .fini then -1 else s.eventFd
      told:=if s.worker = .fini then false else s.told} := by
  obtain ⟨isWorking,mutex,worker,eventFd,told,aborted⟩ := s
  cases worker with
  | absent => cases went
  | ended => cases went
  | run =>
    cases told with
    | false => cases went
    | true =>
      cases went
      simp [Worker.next]
  | _ =>
    cases went
    simp [Worker.next]

theorem worker_kept (ok : Bool) (fd : Nat) (kept : Kept s) (went : workerStep s ok fd = some next) : Kept next := by
  obtain ⟨some_,last,_,rfl⟩ := worker_cases ok fd went
  refine ⟨fun dark => ?_,kept.working,fun off other => absurd (kept.idle off other) some_,kept.crashed⟩
  dsimp only at dark ⊢
  rcases next_dark s.worker ok dark with before | final
  · have apart : s.worker ≠ .socketpair := fun same => by rw [same] at before; revert before; decide
    have running : s.worker ≠ .fini := fun same => by rw [same] at before; revert before; decide
    rw [if_neg fun both => apart both.1,if_neg running]
    exact kept.dark before
  · rw [final,if_neg fun both => Worker.noConfusion both.1,if_pos rfl]
    decide

theorem step_cases (went : step s e = some next) : s.aborted = false ∧
    ((∃ holder, (holder = .starting ∨ holder = .stopping) ∧ next = {s with mutex:=holder} ∧ s.mutex = .free ∧ InTime s e) ∨
      (∃ ok, e = .jni ok ∧ jniStep s ok = some next) ∨ ∃ ok fd, e = .worker ok fd ∧ workerStep s ok fd = some next) := by
  unfold step at went
  split at went
  · cases went
  · rename_i up
    refine ⟨by simpa using up,?_⟩
    cases e with
    | startService =>
      dsimp only at went
      split at went
      · rename_i free
        exact .inl ⟨_,.inl rfl,(Option.some.inj went).symm,free,trivial⟩
      · cases went
    | stopService =>
      dsimp only at went
      split at went
      · rename_i free
        exact .inl ⟨_,.inr rfl,(Option.some.inj went).symm,free,trivial⟩
      · cases went
    | jni ok => exact .inr (.inl ⟨ok,rfl,went⟩)
    | worker ok fd => exact .inr (.inr ⟨ok,fd,rfl,went⟩)

theorem step_kept (kept : Kept s) (went : step s e = some next) : Kept next := by
  obtain ⟨up,⟨holder,which,rfl,free,_⟩ | ⟨ok,rfl,stepped⟩ | ⟨ok,fd,rfl,stepped⟩⟩ := step_cases went
  · refine ⟨kept.dark,fun waits => ?_,fun off _ => kept.idle off (by rw [free]; exact Holder.noConfusion),
      fun down => absurd (up.symm.trans down) (by decide)⟩
    dsimp only at waits
    rcases which with rfl | rfl <;> cases waits
  · exact jni_kept ok kept up stepped
  · exact worker_kept ok fd kept stepped

theorem hangs_iff (kept : Kept s) : Hangs s ↔ s.worker = .ended ∧ s.mutex = .waiting :=
  ⟨fun hangs => ⟨hangs.1,hangs.2.2.1⟩,fun both =>
    ⟨both.1,kept.working both.2,both.2,kept.dark (by rw [both.1]; decide)⟩⟩

-- Of the steps of a request only its entry into the loop can make it hang.
theorem jni_in_time (ok : Bool) (before : ¬Hangs s) (went : jniStep s ok = some next) (still : Kept next) :
    ¬Hangs next ↔ InTime s (.jni ok) := by
  rw [hangs_iff still,InTime]
  by_cases entry : s.mutex = .stopping
  · simp only [jniStep,entry] at went
    cases went
    cases works : s.isWorking with
    | true => simp [entry]
    | false => simp
  · refine iff_of_true (fun both => ?_) fun here => absurd here entry
    unfold jniStep at went
    split at went
    · cases went
    · split at went
      · cases went
        cases both.2
      · split at went <;> (cases went; cases both.2)
    · cases went
      cases both.2
    · rename_i here
      exact entry here
    · split at went
      · cases went
        cases both.2
      · cases went
        exact before ((hangs_iff still).mpr both)
    · rename_i fd here
      split at went
      · cases went
        cases both.2
      · cases went
        rw [here] at both
        cases both.2
    · split at went
      · cases went
        cases both.2
      · cases went

theorem worker_in_time (ok : Bool) (fd : Nat) (kept : Kept s) (went : workerStep s ok fd = some next) :
    ¬Hangs next ↔ InTime s (.worker ok fd) := by
  obtain ⟨_,last,_,same⟩ := worker_cases ok fd went
  have still := worker_kept ok fd kept went
  rw [hangs_iff still,InTime,same,next_ended s.worker ok last]
  exact ⟨fun free waits => not_not.mp fun ends => free ⟨ends,waits⟩,fun free both => both.1 (free both.2)⟩

theorem step_in_time (kept : Kept s) (before : ¬Hangs s) (went : step s e = some next) : ¬Hangs next ↔ InTime s e := by
  have still := step_kept kept went
  obtain ⟨_,⟨holder,which,rfl,_,free⟩ | ⟨ok,rfl,stepped⟩ | ⟨ok,fd,rfl,stepped⟩⟩ := step_cases went
  · refine iff_of_true (fun hangs => ?_) free
    have waits : holder = .waiting := hangs.2.2.1
    rcases which with rfl | rfl <;> cases waits
  · exact jni_in_time ok before stepped still
  · exact worker_in_time ok fd kept stepped

theorem stuck_in_time (kept : Kept s) (stuck : step s e = none) : InTime s e := by
  cases e with
  | startService => trivial
  | stopService => trivial
  | jni ok =>
    intro entry works
    cases down : s.aborted with
    | true => exact ((kept.crashed down).1 entry).elim
    | false => simp [step,down,jniStep,entry] at stuck
  | worker ok fd =>
    intro waits
    cases down : s.aborted with
    | true => exact ((kept.crashed down).2 waits).elim
    | false =>
      simp only [step,down,workerStep] at stuck
      cases here : s.worker <;> simp [here] at stuck ⊢

def Event.Succeeds : Event → Prop
  | .worker ok _ => ok = true
  | _ => True

-- The worker comes to its end only on behalf of a request that has left the loop.
structure Asked (s : Service) : Prop where
  told : s.told = true → s.mutex = .joining
  last : s.worker ∈ [.fini,.closed,.ended] → s.mutex = .joining
  quiet : s.worker ∈ [.closed,.ended] → s.told = false

theorem next_last (w : Worker) (last : w.next true ∈ [.fini,.closed,.ended]) : w = .run ∨ w ∈ [.fini,.closed,.ended] := by
  cases w <;> revert last <;> decide

theorem next_closed (w : Worker) (closed : w.next true ∈ [.closed,.ended]) : w = .fini ∨ w ∈ [.closed,.ended] := by
  cases w <;> revert closed <;> decide

theorem asked_worker (fd : Nat) (asked : Asked s) (went : workerStep s true fd = some next) : Asked next := by
  obtain ⟨_,last,running,rfl⟩ := worker_cases true fd went
  refine ⟨fun told => ?_,fun ends => ?_,fun ends => ?_⟩
  · dsimp only at told
    split at told
    · cases told
    · exact asked.told told
  · rcases next_last s.worker ends with here | here
    · exact asked.told (running here)
    · exact asked.last here
  · by_cases final : s.worker = .fini
    · exact if_pos final
    · have closed := (next_closed s.worker ends).resolve_left final
      dsimp only
      rw [if_neg final]
      exact asked.quiet closed

-- A request that is not joining has the worker at work, and leaves it so.
theorem asked_apart (asked : Asked s) (apart : s.mutex ≠ .joining) : s.told = false ∧ s.worker ∉ [.fini,.closed,.ended] :=
  ⟨by by_contra told; exact apart (asked.told (by simpa using told)),fun last => apart (asked.last last)⟩

theorem asked_jni (ok : Bool) (asked : Asked s) (went : jniStep s ok = some next) : Asked next := by
  have keeps : s.mutex ≠ .joining → ∀ holder works down, Asked {s with mutex:=holder,isWorking:=works,aborted:=down} := by
    intro apart holder works down
    obtain ⟨untold,busy⟩ := asked_apart asked apart
    exact ⟨fun told => absurd (untold.symm.trans told) (by decide),fun last => (busy last).elim,fun _ => untold⟩
  cases here : s.mutex with
  | free =>
    simp only [jniStep,here] at went
    cases went
  | starting =>
    have apart : s.mutex ≠ .joining := by rw [here]; decide
    simp only [jniStep,here] at went
    split at went
    · cases went
      exact keeps apart .free s.isWorking s.aborted
    · split at went
      · cases went
        obtain ⟨untold,_⟩ := asked_apart asked apart
        exact ⟨fun told => absurd (untold.symm.trans told) (by decide),fun last => (by simp at last),fun _ => untold⟩
      · cases went
        exact keeps apart .free s.isWorking s.aborted
  | created =>
    simp only [jniStep,here] at went
    cases went
    exact keeps (by rw [here]; decide) .free true s.aborted
  | stopping =>
    simp only [jniStep,here] at went
    cases went
    exact keeps (by rw [here]; decide) _ s.isWorking s.aborted
  | waiting =>
    simp only [jniStep,here] at went
    split at went
    · cases went
      exact keeps (by rw [here]; decide) _ s.isWorking s.aborted
    · cases went
      exact asked
  | writing fd =>
    have apart : s.mutex ≠ .joining := by rw [here]; exact Holder.noConfusion
    simp only [jniStep,here] at went
    split at went
    · cases went
      obtain ⟨_,busy⟩ := asked_apart asked apart
      refine ⟨fun _ => rfl,fun last => (busy last).elim,fun last => (busy ?_).elim⟩
      exact List.mem_cons_of_mem _ last
    · cases went
      exact keeps apart _ s.isWorking true
  | joining =>
    simp only [jniStep,here] at went
    split at went
    · rename_i ended
      cases went
      have untold := asked.quiet (by rw [ended]; decide)
      exact ⟨fun told => absurd (untold.symm.trans told) (by decide),fun last => (by simp at last),fun _ => untold⟩
    · cases went

-- A service whose worker never fails is stopped whenever this is asked for.
theorem faultless_stops (events : List Event) (fine : ∀ e ∈ events, e.Succeeds) :
    Runs.Throughout step (fun s => ¬Hangs s) loaded events := by
  have fresh : Asked loaded := ⟨fun told => (by cases told),fun last => absurd last (by decide),fun _ => rfl⟩
  have along : Runs.Along step (fun _ e => e.Succeeds) loaded events := Runs.along_all fun e member _ => fine e member
  refine Runs.throughout_kept ?_ ?_ fresh along
  · intro s e next asked success went
    obtain ⟨_,⟨holder,_,rfl,free,_⟩ | ⟨ok,rfl,stepped⟩ | ⟨ok,fd,rfl,stepped⟩⟩ := step_cases went
    · obtain ⟨untold,busy⟩ := asked_apart asked (by rw [free]; decide)
      exact ⟨fun told => absurd (untold.symm.trans told) (by decide),fun last => (busy last).elim,fun _ => untold⟩
    · exact asked_jni ok asked stepped
    · obtain rfl : ok = true := success
      exact asked_worker fd asked stepped
  · intro s asked hangs
    have joins := asked.last (by rw [hangs.1]; decide)
    rw [hangs.2.2.1] at joins
    cases joins

-- No stop request hangs just when they come in time, and they do when the worker never fails.
theorem stop_in_time (events : List Event) :
    (Runs.Throughout step (fun s => ¬Hangs s) loaded events ↔ Runs.Along step InTime loaded events) ∧
    ((∀ e ∈ events, e.Succeeds) → Runs.Along step InTime loaded events) := by
  have exact_ : Runs.Throughout step (fun s => ¬Hangs s) loaded events ↔ Runs.Along step InTime loaded events :=
    Runs.throughout_within (fun _ _ _ kept _ => step_kept kept) (fun _ _ _ => step_in_time) (fun _ _ kept _ => stuck_in_time kept) loaded_kept
      (by decide)
  exact ⟨exact_,fun fine => exact_.mp (faultless_stops events fine)⟩

-- The configuration is rejected, then the service is stopped.
theorem stop_hangs : ∃ s, Runs.exec step loaded
    [.startService,.jni true,.jni true,.worker false 0,.stopService,.jni true] = some s ∧ Hangs s :=
  ⟨⟨true,.waiting,.ended,-1,false,false⟩,by decide,by decide⟩

end Psocks.Jni
