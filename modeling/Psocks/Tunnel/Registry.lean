import Psocks.Lib.Recency
import Psocks.Lib.Runs
import Psocks.Misc.HevList

namespace Psocks.Tunnel
open Linked Psocks.Lists Recency
variable {max : Int} {order : List Nat} {n : Nat}

def errOk : Int := 0
def errMem : Int := -1
def errRst : Int := -14

-- `session_set` and `session_count`, `run`, and on which sessions terminate was called, with
-- all its calls; a session is named by the address of its node.
structure Registry where
  sessionSet : HevList
  sessionCount : Int
  run : Bool
  terminated : Nat → Bool
  calls : List Nat

def hevSocks5SessionTerminate (s : Registry) (node : Nat) : Registry :=
  {s with terminated:=Function.update s.terminated node true,calls:=s.calls++[node]}

-- `none`: the first node of an empty list is read.
def hevSocks5TunnelInsertSession (max : Int) (s : Registry) (node : Nat) : Option Registry :=
  let s := {s with sessionSet:=hevListAddTail s.sessionSet node,sessionCount:=s.sessionCount+1}
  if max = 0 ∨ s.sessionCount < max then some s
  else (hevListFirst s.sessionSet).map (hevSocks5SessionTerminate s)

def hevSocks5TunnelDeleteSession (s : Registry) (node : Nat) : Registry :=
  {s with sessionSet:=hevListDel s.sessionSet node,sessionCount:=s.sessionCount-1}

def hevSocks5TunnelUpdateSession (max : Int) (s : Registry) (node : Nat) : Registry :=
  if max = 0 then s
  else {s with sessionSet:=hevListAddTail (hevListDel s.sessionSet node) node}

-- `session` is what hev_socks5_session_tcp_new gives, `task` whether hev_task_new does.
def tcpAcceptHandler (max : Int) (s : Registry) (err : Int) (session : Option Nat) (task : Bool) : Option (Int × Registry) :=
  if err ≠ errOk then some (err,s)
  else if s.run = false then some (errRst,s)
  else match session with
    | none => some (errMem,s)
    | some node =>
      if task = false then some (errMem,s)
      else (hevSocks5TunnelInsertSession max s node).map (errOk,·)

-- `dns`: there is a mapped DNS, and the datagram goes to it.
def udpRecvHandler (max : Int) (s : Registry) (dns : Bool) (session : Option Nat) (task : Bool) : Option Registry :=
  if s.run = false then some s
  else if dns then some s
  else match session with
    | none => some s
    | some node => if task = false then some s else hevSocks5TunnelInsertSession max s node

-- The loop of event_task_entry, from `node` on; `none`: it takes more turns than that.
def terminateAll : Nat → Registry → Option Nat → Option Registry
  | _, s, none => some s
  | 0, _, some _ => none
  | turns+1, s, some node =>
    let s := hevSocks5SessionTerminate s node
    terminateAll turns s (s.sessionSet.next node)

def eventTaskEntry (turns : Nat) (s : Registry) : Option Registry :=
  let s := {s with run:=false}
  terminateAll turns s (hevListFirst s.sessionSet)

-- What the tasks do between two yields: a flow is accepted, the task of a session comes
-- back from an I/O wait or ends, the event task is told to stop.
inductive Event where
  | tcpAccept (err : Int) (session : Option Nat) (task : Bool)
  | udpRecv (dns : Bool) (session : Option Nat) (task : Bool)
  | wait (node : Nat)
  | exit (node : Nat)
  | stop

def Event.handle (max : Int) (turns : Nat) (s : Registry) : Event → Option Registry
  | .tcpAccept err session task => (tcpAcceptHandler max s err session task).map Prod.snd
  | .udpRecv dns session task => udpRecvHandler max s dns session task
  | .wait node => some (hevSocks5TunnelUpdateSession max s node)
  | .exit node => some (hevSocks5TunnelDeleteSession s node)
  | .stop => eventTaskEntry turns s

-- What has happened beside the registry: the sessions whose task has been created and has not
-- ended, in what order sessions came or waited, and whether a new one has been told to end at
-- once while an older one was left.
structure Course extends Registry where
  created : List Nat
  touches : List Nat
  selfish : Bool

def started : Course := ⟨⟨.empty,0,true,fun _ => false,[]⟩,[],[],false⟩

variable {r : Registry} {s next : Course}

-- A registered session on which terminate has not been called.
def Course.living (s : Course) : List Nat := s.created.filter fun n => !s.terminated n

-- A session gets memory that none of those with a task has.
def Course.Free (s : Course) (session : Option Nat) : Prop := ∀ n ∈ session, n ∉ s.created

instance (s : Course) (session : Option Nat) : Decidable (s.Free session) :=
  inferInstanceAs (Decidable (∀ n ∈ session, n ∉ s.created))

-- A task waits or ends after it was created, and before it has ended.
def Event.Enabled (s : Course) : Event → Prop
  | .tcpAccept _ session _ => s.Free session
  | .udpRecv _ session _ => s.Free session
  | .wait node => node ∈ s.created
  | .exit node => node ∈ s.created
  | .stop => s.run = true

instance (s : Course) : ∀ e : Event, Decidable (e.Enabled s)
  | .tcpAccept _ session _ => inferInstanceAs (Decidable (s.Free session))
  | .udpRecv _ session _ => inferInstanceAs (Decidable (s.Free session))
  | .wait node => inferInstanceAs (Decidable (node ∈ s.created))
  | .exit node => inferInstanceAs (Decidable (node ∈ s.created))
  | .stop => inferInstanceAs (Decidable (s.run = true))

-- The session whose task an event creates.
def Event.admits (s : Course) : Event → Option Nat
  | .tcpAccept err session task => if s.Free session ∧ err = errOk ∧ s.run = true ∧ task = true then session else none
  | .udpRecv dns session task => if s.Free session ∧ s.run = true ∧ dns = false ∧ task = true then session else none
  | _ => none

-- A new session is an object on which nothing has been called.
def Course.fresh (s : Course) (n : Nat) : Registry := {s.toRegistry with terminated:=Function.update s.terminated n false}

def Course.joined (s : Course) (n : Nat) (r : Registry) : Course :=
  ⟨r,n::s.created,s.touches++[n],s.selfish || r.terminated n && decide (s.living ≠ [])⟩

def Course.noted (s : Course) (e : Event) (r : Registry) : Course :=
  match e with
  | .wait node => {s with toRegistry:=r,touches:=s.touches++[node]}
  | .exit node => {s with toRegistry:=r,created:=s.created.erase node}
  | _ => {s with toRegistry:=r}

def step (max : Int) (s : Course) (e : Event) : Option Course :=
  if e.Enabled s then
    match e.admits s with
    | some n => (e.handle max s.created.length (s.fresh n)).map (s.joined n)
    | none => (e.handle max s.created.length s.toRegistry).map (s.noted e)
  else none

-- The list is the registered sessions, least recently inserted or waiting first.
structure Tracks (max : Int) (s : Course) (order : List Nat) : Prop where
  listed : Holds s.sessionSet order
  members : order.Perm s.created
  count : s.sessionCount = order.length
  aged : max ≠ 0 → Aged s.touches order

theorem started_tracks : Tracks max started [] := ⟨empty_holds,.nil,rfl,fun _ => .nil⟩

theorem step_admits (e : Event) (admits : e.admits s = some n) :
    n ∉ s.created ∧ step max s e = (hevSocks5TunnelInsertSession max (s.fresh n) n).map (s.joined n) := by
  cases e with
  | tcpAccept err session task =>
    have known := admits
    simp only [Event.admits] at known
    split at known
    · rename_i all
      obtain ⟨free,rfl,running,rfl⟩ := all
      subst known
      refine ⟨free n rfl,?_⟩
      have enabled : (Event.tcpAccept errOk (some n) true).Enabled s := free
      simp only [step,if_pos enabled,admits,Event.handle,tcpAcceptHandler,show (s.fresh n).run = true from running]
      cases hevSocks5TunnelInsertSession max (s.fresh n) n <;> rfl
    · cases known
  | udpRecv dns session task =>
    have known := admits
    simp only [Event.admits] at known
    split at known
    · rename_i all
      obtain ⟨free,running,rfl,rfl⟩ := all
      subst known
      refine ⟨free n rfl,?_⟩
      have enabled : (Event.udpRecv false (some n) true).Enabled s := free
      simp only [step,if_pos enabled,admits,Event.handle,udpRecvHandler,show (s.fresh n).run = true from running]
      rfl
    · cases known
  | wait node => cases admits
  | exit node => cases admits
  | stop => cases admits

-- What a step that adds no session can do.
theorem step_other (e : Event) (adds : e.admits s = none) (went : step max s e = some next) :
    next = s ∨
      (∃ node ∈ s.created, next = {s with toRegistry:=hevSocks5TunnelUpdateSession max s.toRegistry node,touches:=s.touches++[node]}) ∨
      (∃ node ∈ s.created, next = {s with toRegistry:=hevSocks5TunnelDeleteSession s.toRegistry node,created:=s.created.erase node}) ∨
      ∃ r, eventTaskEntry s.created.length s.toRegistry = some r ∧ next = {s with toRegistry:=r} := by
  unfold step at went
  split at went
  · rename_i enabled
    rw [adds] at went
    obtain ⟨r,handled,rfl⟩ := Option.map_eq_some_iff.mp went
    cases e with
    | tcpAccept err session task =>
      left
      suffices r = s.toRegistry by rw [this]; rfl
      by_cases fine : err = errOk
      · by_cases running : s.run = true
        · cases session with
          | none =>
            simp only [Event.handle,tcpAcceptHandler,fine,running] at handled
            exact (Option.some.inj handled).symm
          | some node =>
            cases task with
            | false =>
              simp only [Event.handle,tcpAcceptHandler,fine,running] at handled
              exact (Option.some.inj handled).symm
            | true => simp [Event.admits,show s.Free (some node) from enabled,fine,running] at adds
        · simp only [Event.handle,tcpAcceptHandler,fine,running] at handled
          exact (Option.some.inj handled).symm
      · simp only [Event.handle,tcpAcceptHandler,ne_eq,fine,not_false_eq_true,if_true] at handled
        exact (Option.some.inj handled).symm
    | udpRecv dns session task =>
      left
      suffices r = s.toRegistry by rw [this]; rfl
      simp only [Event.handle,udpRecvHandler] at handled
      split at handled
      · exact (Option.some.inj handled).symm
      · rename_i running
        split at handled
        · exact (Option.some.inj handled).symm
        · rename_i other
          cases session with
          | none => exact (Option.some.inj handled).symm
          | some node =>
            cases task with
            | false => exact (Option.some.inj handled).symm
            | true =>
              simp [Event.admits,show s.Free (some node) from enabled,Bool.eq_true_of_not_eq_false running,
                Bool.eq_false_of_not_eq_true other] at adds
    | wait node => exact .inr (.inl ⟨node,enabled,by rw [← Option.some.inj handled]; rfl⟩)
    | exit node => exact .inr (.inr (.inl ⟨node,enabled,by rw [← Option.some.inj handled]; rfl⟩))
    | stop => exact .inr (.inr (.inr ⟨r,handled,rfl⟩))
  · cases went

theorem insert_tracks (tracks : Tracks max s order) (fresh : n ∉ s.created) :
    ∃ r first, hevSocks5TunnelInsertSession max (s.fresh n) n = some r ∧ Tracks max (s.joined n r) (order++[n]) ∧
      (order++[n]).head? = some first ∧
      ((max = 0 ∨ s.sessionCount+1 < max) ∧ r.terminated = Function.update s.terminated n false ∨
        ¬(max = 0 ∨ s.sessionCount+1 < max) ∧ r.terminated = Function.update (Function.update s.terminated n false) first true) := by
  have absent : n ∉ order := fun member => fresh (tracks.members.mem_iff.mp member)
  have listed := add_tail_holds tracks.listed absent
  have members : (order++[n]).Perm (n::s.created) := List.perm_append_comm.trans (tracks.members.cons n)
  have count : s.sessionCount+1 = ((order++[n]).length : Int) := by
    rw [List.length_append,tracks.count]
    rfl
  have aged : max ≠ 0 → Aged (s.touches++[n]) (order++[n]) := fun bounded => aged_push (tracks.aged bounded) absent
  obtain ⟨first,head⟩ : ∃ first, (order++[n]).head? = some first := by cases order <;> exact ⟨_,rfl⟩
  unfold hevSocks5TunnelInsertSession
  dsimp only [Course.fresh]
  by_cases low : max = 0 ∨ s.sessionCount+1 < max
  · rw [if_pos low]
    exact ⟨_,first,rfl,⟨listed,members,count,aged⟩,head,.inl ⟨low,rfl⟩⟩
  · rw [if_neg low,holds_first listed,head]
    exact ⟨_,first,rfl,⟨listed,members,count,aged⟩,rfl,.inr ⟨low,rfl⟩⟩

theorem update_tracks (tracks : Tracks max s order) (member : n ∈ s.created) :
    ∃ order, Tracks max {s with toRegistry:=hevSocks5TunnelUpdateSession max s.toRegistry n,touches:=s.touches++[n]} order := by
  have here : n ∈ order := tracks.members.mem_iff.mpr member
  have absent : n ∉ order.erase n := tracks.listed.distinct.not_mem_erase
  unfold hevSocks5TunnelUpdateSession
  by_cases unbounded : max = 0
  · rw [if_pos unbounded]
    exact ⟨order,tracks.listed,tracks.members,tracks.count,fun bounded => absurd unbounded bounded⟩
  · rw [if_neg unbounded]
    refine ⟨order.erase n++[n],add_tail_holds (del_holds tracks.listed here) absent,?_,?_,fun bounded => ?_⟩
    · exact (List.perm_append_comm.trans (List.perm_cons_erase here).symm).trans tracks.members
    · have positive : 0 < order.length := List.length_pos_of_mem here
      have count := tracks.count
      simp only [List.length_append,List.length_erase_of_mem here,List.length_singleton]
      omega
    · exact aged_push (List.Pairwise.sublist List.erase_sublist (tracks.aged bounded)) absent

theorem delete_tracks (tracks : Tracks max s order) (member : n ∈ s.created) :
    Tracks max {s with toRegistry:=hevSocks5TunnelDeleteSession s.toRegistry n,created:=s.created.erase n} (order.erase n) := by
  have here : n ∈ order := tracks.members.mem_iff.mpr member
  refine ⟨del_holds tracks.listed here,tracks.members.erase n,?_,fun bounded => ?_⟩
  · have positive : 0 < order.length := List.length_pos_of_mem here
    have count := tracks.count
    simp only [hevSocks5TunnelDeleteSession,List.length_erase_of_mem here]
    omega
  · exact List.Pairwise.sublist List.erase_sublist (tracks.aged bounded)

-- The walk of the event task: each node it comes to once.
theorem terminate_all {before rest : List Nat} {turns : Nat} (listed : Holds r.sessionSet (before++rest))
    (enough : rest.length ≤ turns) : terminateAll turns r rest.head? =
      some {r with terminated:=rest.foldl (fun t n => Function.update t n true) r.terminated,calls:=r.calls++rest} := by
  induction rest generalizing r before turns with
  | nil => cases turns <;> simp [terminateAll]
  | cons n rest ih =>
    cases turns with
    | zero => cases enough
    | succ turns =>
      have after : r.sessionSet.next n = rest.head? := (chain_middle listed).2
      have moved : Holds (hevSocks5SessionTerminate r n).sessionSet ((before++[n])++rest) := by
        simpa [hevSocks5SessionTerminate] using listed
      have later := ih moved (Nat.le_of_succ_le_succ enough)
      simp only [List.head?_cons,terminateAll]
      rw [show (hevSocks5SessionTerminate r n).sessionSet.next n = rest.head? from after,later]
      simp [hevSocks5SessionTerminate]

theorem stop_walks {turns : Nat} (tracks : Tracks max s order) (enough : order.length ≤ turns) :
    eventTaskEntry turns s.toRegistry = some {s.toRegistry with
      run:=false,terminated:=order.foldl (fun t n => Function.update t n true) s.terminated,calls:=s.calls++order} := by
  unfold eventTaskEntry
  dsimp only
  rw [holds_first tracks.listed]
  have whole : Holds {s.toRegistry with run:=false}.sessionSet ([]++order) := tracks.listed
  exact terminate_all whole enough

theorem step_tracks (e : Event) (tracks : ∃ order, Tracks max s order) (went : step max s e = some next) :
    ∃ order, Tracks max next order := by
  obtain ⟨order,tracks⟩ := tracks
  cases adds : e.admits s with
  | some n =>
    obtain ⟨fresh,inserts⟩ := @step_admits max n s e adds
    obtain ⟨after,_,inserted,still,_⟩ := insert_tracks tracks fresh
    rw [inserts,inserted] at went
    cases Option.some.inj went
    exact ⟨_,still⟩
  | none =>
    rcases step_other e adds went with rfl | ⟨node,member,rfl⟩ | ⟨node,member,rfl⟩ | ⟨r,stopped,rfl⟩
    · exact ⟨order,tracks⟩
    · exact update_tracks tracks member
    · exact ⟨_,delete_tracks tracks member⟩
    · rw [stop_walks tracks (Nat.le_of_eq tracks.members.length_eq)] at stopped
      cases Option.some.inj stopped
      exact ⟨order,tracks.listed,tracks.members,tracks.count,tracks.aged⟩

theorem registry_exact (max : Int) (events : List Event) (went : Runs.exec (step max) started events = some s) :
    ∃ order, Holds s.sessionSet order ∧ order.Nodup ∧ order.Perm s.created ∧ s.sessionCount = order.length ∧
      (max ≠ 0 → Aged s.touches order) ∧
      ∀ turns, order.length ≤ turns → ∃ next, eventTaskEntry turns s.toRegistry = some next ∧ next.calls = s.calls++order := by
  obtain ⟨order,tracks⟩ := Runs.exec_invariant (fun s => ∃ order, Tracks max s order) (fun _ e _ => step_tracks e)
    ⟨[],started_tracks⟩ went
  refine ⟨order,tracks.listed,tracks.listed.distinct,tracks.members,tracks.count,tracks.aged,fun turns enough => ?_⟩
  exact ⟨_,stop_walks tracks enough,rfl⟩

-- The third flow has the first session told to end; this one waits, and the second ends.
def flows : List Event :=
  [.tcpAccept errOk (some 1) true,.udpRecv false (some 2) true,.tcpAccept errOk none true,.tcpAccept errOk (some 3) true,.wait 1,.exit 2]

theorem registry_exact_flows : ∃ s, Runs.exec (step 3) started flows = some s ∧ s.created = [3,1] ∧ s.touches = [1,2,3,1] ∧
    Holds s.sessionSet [3,1] ∧ s.sessionCount = 2 ∧ Aged s.touches [3,1] ∧
    ∃ next, eventTaskEntry 2 s.toRegistry = some next ∧ next.calls = [1,3,1] := by
  have reached : (Runs.exec (step 3) started flows).any fun s => s.created = [3,1] ∧ s.touches = [1,2,3,1] ∧ s.calls = [1] ∧
      (eventTaskEntry 2 s.toRegistry).map (·.calls) = some [1,3,1] := by
    decide
  obtain ⟨s,went,facts⟩ := (Option.any_eq_true _ _).mp reached
  obtain ⟨created,touches,calls,walked⟩ := of_decide_eq_true facts
  obtain ⟨order,listed,_,members,count,aged,stops⟩ := registry_exact 3 _ went
  rw [created] at members
  obtain ⟨next,walks,called⟩ := stops 2 (Nat.le_of_eq members.length_eq)
  rw [walks,Option.map_some,called,calls] at walked
  obtain rfl : order = [3,1] := (List.cons.inj (Option.some.inj walked)).2
  exact ⟨s,went,created,touches,listed,count,aged (by decide),next,walks,by rw [called,calls]; rfl⟩

end Psocks.Tunnel
