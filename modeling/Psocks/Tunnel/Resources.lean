import Psocks.Lib.Ledger
import Psocks.Lib.Runs

namespace Psocks.Resources
open Psocks.Ledger

inductive Kind where
  | tun
  | tcpPcb
  | tcpPcbListen
  | udpPcb
  | eventFd
  | task
  | mappedDns
deriving DecidableEq, Repr

-- The static variables of the engine; `singleton` is that of the mapped DNS.
structure Engine where
  tunFd : Option Handle
  tunFdLocal : Bool
  tcp : Option Handle
  udp : Option Handle
  eventFds0 : Option Handle
  eventFds1 : Option Handle
  taskEvent : Option Handle
  taskLwipIo : Option Handle
  taskLwipTimer : Option Handle
  singleton : Option Handle
  book : Book Kind

def loaded : Engine := ⟨none,false,none,none,none,none,none,none,none,none,blank⟩

-- The argument of a run, what its configuration asks for, and whether each call succeeds.
-- An address that the configuration leaves out is `none`.
structure Plan where
  externTunFd : Int
  nonblock : Bool
  tunnelOpen : Bool
  setMtu : Bool
  setIpv4 : Option Bool
  setIpv6 : Option Bool
  setState : Bool
  tcpNew : Bool
  tcpListen : Bool
  udpNew : Bool
  socketpair : Bool
  eventNonblock : Bool
  taskEvent : Bool
  taskLwipIo : Bool
  taskLwipTimer : Bool
  cacheSize : Int
  mappedDnsNew : Bool
deriving DecidableEq, Repr

variable {s next : Engine} {p : Plan} {extra : List Handle}

def tunnelInit (p : Plan) (s : Engine) : Bool×Engine :=
  if 0 ≤ p.externTunFd then
    if p.nonblock then (true,{s with tunFd:=some (.foreign p.externTunFd)}) else (false,s)
  else if !p.tunnelOpen then (false,{s with tunFd:=none})
  else
    let s := {s with tunFd:=some s.book.fresh,book:=s.book.acquire .tun}
    if !p.setMtu then (false,s)
    else if p.setIpv4 = some false then (false,s)
    else if p.setIpv6 = some false then (false,s)
    else if !p.setState then (false,s)
    else (true,{s with tunFdLocal:=true})

def tunnelFini (s : Engine) : Engine :=
  if s.tunFdLocal then {s with book:=s.book.releaseHeld s.tunFd,tunFdLocal:=false,tunFd:=none} else s

-- tcp_listen gives a pcb of its own for the one it is given, which it frees; it leaves
-- that one alone when it has none.
def tcpListen (ok : Bool) (pcb : Handle) (b : Book Kind) : Option Handle×Book Kind :=
  if ok then (some b.fresh,(b.acquire .tcpPcbListen).release pcb) else (none,b)

-- The binding writes through the pointer to a new pcb without a test: `none` where the
-- process ends there.
def gatewayInit (p : Plan) (s : Engine) : Option Engine :=
  if !p.tcpNew then none
  else
    let (tcp,book) := tcpListen p.tcpListen s.book.fresh (s.book.acquire .tcpPcb)
    if !p.udpNew then none
    else some {s with tcp:=tcp,udp:=some book.fresh,book:=book.acquire .udpPcb}

-- The pointers keep what they are.
def gatewayFini (s : Engine) : Engine := {s with book:=(s.book.releaseHeld s.udp).releaseHeld s.tcp}

def hevTaskNew (ok : Bool) (b : Book Kind) : Option Handle×Book Kind :=
  if ok then (some b.fresh,b.acquire .task) else (none,b)

def eventTaskInit (p : Plan) (s : Engine) : Bool×Engine :=
  if !p.socketpair then (false,s)
  else
    let s := {s with eventFds0:=some s.book.fresh,book:=s.book.acquire .eventFd}
    let s := {s with eventFds1:=some s.book.fresh,book:=s.book.acquire .eventFd}
    if !p.eventNonblock then (false,s)
    else
      let (task,book) := hevTaskNew p.taskEvent s.book
      (task.isSome,{s with taskEvent:=task,book:=book})

def eventTaskFini (s : Engine) : Engine :=
  let s := {s with book:=s.book.unrefHeld s.taskEvent,taskEvent:=none}
  let s := {s with book:=s.book.releaseHeld s.eventFds0,eventFds0:=none}
  {s with book:=s.book.releaseHeld s.eventFds1,eventFds1:=none}

def lwipIoTaskInit (p : Plan) (s : Engine) : Bool×Engine :=
  let (task,book) := hevTaskNew p.taskLwipIo s.book
  (task.isSome,{s with taskLwipIo:=task,book:=book})

def lwipIoTaskFini (s : Engine) : Engine := {s with book:=s.book.unrefHeld s.taskLwipIo,taskLwipIo:=none}

def lwipTimerTaskInit (p : Plan) (s : Engine) : Bool×Engine :=
  let (task,book) := hevTaskNew p.taskLwipTimer s.book
  (task.isSome,{s with taskLwipTimer:=task,book:=book})

def lwipTimerTaskFini (s : Engine) : Engine := {s with book:=s.book.unrefHeld s.taskLwipTimer,taskLwipTimer:=none}

def mappedDnsInit (p : Plan) (s : Engine) : Bool×Engine :=
  if p.cacheSize = 0 then (true,s)
  else if p.mappedDnsNew then (true,{s with singleton:=some s.book.fresh,book:=s.book.acquire .mappedDns})
  else (false,s)

def mappedDnsFini (s : Engine) : Engine := {s with book:=s.book.unrefHeld s.singleton,singleton:=none}

def hevSocks5TunnelFini (s : Engine) : Engine :=
  tunnelFini (gatewayFini (eventTaskFini (lwipIoTaskFini (lwipTimerTaskFini (mappedDnsFini s)))))

-- if (res < 0) goto exit;
def exitOr (r : Bool×Engine) (f : Engine → Bool×Engine) : Bool×Engine := if r.1 then f r.2 else r

def serviceInit (p : Plan) (s : Engine) : Bool×Engine :=
  exitOr (exitOr (exitOr (eventTaskInit p s) (lwipIoTaskInit p)) (lwipTimerTaskInit p)) (mappedDnsInit p)

def hevSocks5TunnelInit (p : Plan) (s : Engine) : Option (Bool×Engine) :=
  let (opened,s) := tunnelInit p s
  if opened then
    (gatewayInit p s).map fun s =>
      let (ok,s) := serviceInit p s
      (ok,if ok then s else hevSocks5TunnelFini s)
  else some (false,hevSocks5TunnelFini s)

-- A task holds a reference to itself until it ends, and the event task is the last to.
def hevSocks5TunnelRun (s : Engine) : Engine :=
  let book := ((s.book.refHeld s.taskEvent).refHeld s.taskLwipIo).refHeld s.taskLwipTimer
  {s with book:=((book.unrefHeld s.taskLwipTimer).unrefHeld s.taskLwipIo).unrefHeld s.taskEvent}

def step (s : Engine) (p : Plan) : Option Engine :=
  (hevSocks5TunnelInit p s).map fun (ok,s) => if ok then hevSocks5TunnelFini (hevSocks5TunnelRun s) else s

def Plan.ready (p : Plan) : Bool :=
  if 0 ≤ p.externTunFd then p.nonblock
  else p.tunnelOpen && p.setMtu && p.setIpv4 ≠ some false && p.setIpv6 ≠ some false && p.setState

def Plan.opened (p : Plan) : Bool := p.externTunFd < 0 && p.tunnelOpen

-- A run that gets past tunnel_init finds a pcb to listen with; one that does not has
-- opened no descriptor, and no run before it has got past.
def Clean (s : Engine) (p : Plan) : Prop :=
  if p.ready then p.tcpNew → p.udpNew → p.tcpListen
  else p.opened = false ∧ s.tcp = none ∧ s.udp = none

instance (s : Engine) (p : Plan) : Decidable (Clean s p) := by unfold Clean; infer_instance

-- What is released at the end of a run, in this order.
def Engine.tunHeld (s : Engine) : List Handle := if s.tunFdLocal then s.tunFd.toList else []

def Engine.held (s : Engine) : List Handle :=
  s.singleton.toList++(s.taskLwipTimer.toList++(s.taskLwipIo.toList++(s.taskEvent.toList++
    (s.eventFds0.toList++(s.eventFds1.toList++(s.udp.toList++(s.tcp.toList++s.tunHeld)))))))

structure Vacant (s : Engine) : Prop where
  singleton : s.singleton = none
  taskLwipTimer : s.taskLwipTimer = none
  taskLwipIo : s.taskLwipIo = none
  taskEvent : s.taskEvent = none
  eventFds0 : s.eventFds0 = none
  eventFds1 : s.eventFds1 = none

-- Between two runs.
structure Idle (s : Engine) : Prop extends Vacant s where
  tun : s.tunFdLocal = false
  udp : ∀ h ∈ s.udp, s.book.Issued h
  tcp : ∀ h ∈ s.tcp, s.book.Issued h

-- The static variables hold what is to be released, all but `extra`.
def Stands (extra : List Handle) (s : Engine) : Prop := s.book.Keeps (s.held++extra)

theorem Stands.acquire (stands : Stands extra s) (k : Kind) (held : next.held.Perm (s.book.fresh::s.held))
    (book : next.book = s.book.acquire k) : Stands extra next := by
  unfold Stands
  rw [book]
  exact (Book.Keeps.acquire stands k).perm (held.append_right extra).symm

theorem tunnelFini_keeps (keeps : s.book.Keeps (s.tunHeld++extra)) : (tunnelFini s).book.Keeps extra := by
  unfold Engine.tunHeld at keeps
  unfold tunnelFini
  by_cases own : s.tunFdLocal = true
  · rw [if_pos own] at keeps ⊢
    exact keeps.releaseHeld s.tunFd
  · rw [if_neg own] at keeps ⊢
    exact keeps

theorem fini_keeps (stands : Stands extra s) : (hevSocks5TunnelFini s).book.Keeps extra := by
  unfold Stands Engine.held at stands
  simp only [List.append_assoc] at stands
  have dns := Book.Keeps.unrefHeld s.singleton stands
  have timer := Book.Keeps.unrefHeld s.taskLwipTimer dns
  have io := Book.Keeps.unrefHeld s.taskLwipIo timer
  have event := Book.Keeps.unrefHeld s.taskEvent io
  have fd0 := Book.Keeps.releaseHeld s.eventFds0 event
  have fd1 := Book.Keeps.releaseHeld s.eventFds1 fd0
  have udp := Book.Keeps.releaseHeld s.udp fd1
  have tcp := Book.Keeps.releaseHeld s.tcp udp
  exact tunnelFini_keeps tcp

theorem run_stands (stands : Stands extra s) : Stands extra (hevSocks5TunnelRun s) := by
  have event : ∀ h ∈ s.taskEvent, h ∈ s.held++extra := by
    intro h is_
    simp [Engine.held,Option.mem_def.mp is_]
  have io : ∀ h ∈ s.taskLwipIo, h ∈ s.taskEvent.toList++(s.held++extra) := by
    intro h is_
    simp [Engine.held,Option.mem_def.mp is_]
  have timer : ∀ h ∈ s.taskLwipTimer, h ∈ s.taskLwipIo.toList++(s.taskEvent.toList++(s.held++extra)) := by
    intro h is_
    simp [Engine.held,Option.mem_def.mp is_]
  have owes := ((stands.owes.refHeld s.taskEvent event).refHeld s.taskLwipIo io).refHeld s.taskLwipTimer timer
  exact ⟨((owes.unrefHeld s.taskLwipTimer).unrefHeld s.taskLwipIo).unrefHeld s.taskEvent,stands.distinct⟩

theorem exitOr_rule {before after : Engine → Prop} {r : Bool×Engine} {f : Engine → Bool×Engine}
    (weaker : ∀ s, before s → after s) (went : ∀ s, before s → after (f s).2) (here : before r.2) : after (exitOr r f).2 := by
  unfold exitOr
  split
  · exact went r.2 here
  · exact weaker r.2 here

theorem taskNew_cases (ok : Bool) (b : Book Kind) :
    hevTaskNew ok b = (none,b) ∨ hevTaskNew ok b = (some b.fresh,b.acquire .task) := by
  cases ok
  · exact .inl rfl
  · exact .inr rfl

theorem eventTaskInit_stands (p : Plan) (stands : Stands extra s) (vacant : Vacant s) :
    Stands extra (eventTaskInit p s).2 ∧ (eventTaskInit p s).2.taskLwipIo = none ∧
      (eventTaskInit p s).2.taskLwipTimer = none ∧ (eventTaskInit p s).2.singleton = none := by
  obtain ⟨dns,timer,io,event,fd0,fd1⟩ := vacant
  let one := {s with eventFds0:=some s.book.fresh,book:=s.book.acquire .eventFd}
  let two := {one with eventFds1:=some one.book.fresh,book:=one.book.acquire .eventFd}
  have first : Stands extra one := stands.acquire .eventFd (by simp [one,Engine.held,Engine.tunHeld,dns,timer,io,event,fd0,fd1]) rfl
  have second : Stands extra two := by
    refine first.acquire .eventFd ?_ rfl
    simp only [two,one,Engine.held,Engine.tunHeld,dns,timer,io,event,fd1,Option.toList_none,Option.toList_some,List.nil_append,
      List.singleton_append]
    exact .swap _ _ _
  unfold eventTaskInit
  split
  · exact ⟨stands,io,timer,dns⟩
  · dsimp only
    split
    · exact ⟨second,io,timer,dns⟩
    · refine ⟨?_,io,timer,dns⟩
      rcases taskNew_cases p.taskEvent two.book with none_ | some_
      · simp only [two,one] at none_
        rw [none_,← event]
        exact second
      · simp only [two,one] at some_
        rw [some_]
        exact second.acquire .task (by simp [two,one,Engine.held,Engine.tunHeld,dns,timer,io,event]) rfl

theorem lwipIoTaskInit_stands (p : Plan) (stands : Stands extra s) (io : s.taskLwipIo = none) (timer : s.taskLwipTimer = none)
    (dns : s.singleton = none) : Stands extra (lwipIoTaskInit p s).2 := by
  unfold lwipIoTaskInit
  rcases taskNew_cases p.taskLwipIo s.book with none_ | some_
  · rw [none_,← io]
    exact stands
  · rw [some_]
    exact stands.acquire .task (by simp [Engine.held,Engine.tunHeld,dns,timer,io]) rfl

theorem lwipTimerTaskInit_stands (p : Plan) (stands : Stands extra s) (timer : s.taskLwipTimer = none)
    (dns : s.singleton = none) : Stands extra (lwipTimerTaskInit p s).2 := by
  unfold lwipTimerTaskInit
  rcases taskNew_cases p.taskLwipTimer s.book with none_ | some_
  · rw [none_,← timer]
    exact stands
  · rw [some_]
    exact stands.acquire .task (by simp [Engine.held,Engine.tunHeld,dns,timer]) rfl

theorem mappedDnsInit_stands (p : Plan) (stands : Stands extra s) (dns : s.singleton = none) :
    Stands extra (mappedDnsInit p s).2 := by
  unfold mappedDnsInit
  split
  · exact stands
  · split
    · exact stands.acquire .mappedDns (by simp [Engine.held,Engine.tunHeld,dns]) rfl
    · exact stands

theorem serviceInit_stands (p : Plan) (stands : Stands extra s) (vacant : Vacant s) : Stands extra (serviceInit p s).2 := by
  have event := eventTaskInit_stands p stands vacant
  have io := @exitOr_rule (fun s => Stands extra s ∧ s.taskLwipIo = none ∧ s.taskLwipTimer = none ∧ s.singleton = none)
    (fun s => Stands extra s ∧ s.taskLwipTimer = none ∧ s.singleton = none) _ (lwipIoTaskInit p)
    (fun _ all => ⟨all.1,all.2.2⟩) (fun s all => ⟨lwipIoTaskInit_stands p all.1 all.2.1 all.2.2.1 all.2.2.2,all.2.2⟩) event
  have timer := @exitOr_rule (fun s => Stands extra s ∧ s.taskLwipTimer = none ∧ s.singleton = none)
    (fun s => Stands extra s ∧ s.singleton = none) _ (lwipTimerTaskInit p)
    (fun _ all => ⟨all.1,all.2.2⟩) (fun s all => ⟨lwipTimerTaskInit_stands p all.1 all.2.1 all.2.2,all.2.2⟩) io
  exact @exitOr_rule (fun s => Stands extra s ∧ s.singleton = none) (Stands extra) _ (mappedDnsInit p)
    (fun _ all => all.1) (fun s all => mappedDnsInit_stands p all.1 all.2) timer

-- The first pcb is lost where there is none to listen with.
theorem gatewayInit_stands (keeps : s.book.Keeps s.tunHeld) (vacant : Vacant s) (went : gatewayInit p s = some next) :
    Vacant next ∧ p.tcpNew = true ∧ p.udpNew = true ∧ ∃ extra, Stands extra next ∧ (extra = [] ↔ p.tcpListen = true) := by
  obtain ⟨dns,timer,io,event,fd0,fd1⟩ := vacant
  have first := keeps.acquire .tcpPcb
  unfold gatewayInit at went
  split at went
  · cases went
  · rename_i new
    dsimp only at went
    split at went
    · cases went
    · rename_i udp
      cases Option.some.inj went
      refine ⟨⟨dns,timer,io,event,fd0,fd1⟩,by simpa using new,by simpa using udp,?_⟩
      cases listen : p.tcpListen with
      | true =>
        have second := ((first.acquire .tcpPcbListen).perm (.swap _ _ _)).release
        refine ⟨[],?_,by simp⟩
        simpa [Stands,Engine.held,Engine.tunHeld,tcpListen,dns,timer,io,event,fd0,fd1] using second.acquire .udpPcb
      | false =>
        refine ⟨[s.book.fresh],?_,by simp⟩
        have second := first.acquire .udpPcb
        have last := second.perm (.cons _ (List.perm_append_singleton _ _).symm)
        simpa [Stands,Engine.held,Engine.tunHeld,tcpListen,dns,timer,io,event,fd0,fd1] using last

theorem tunnelInit_ok (p : Plan) (s : Engine) : (tunnelInit p s).1 = p.ready := by
  unfold tunnelInit Plan.ready
  split
  · cases p.nonblock <;> rfl
  · cases p.tunnelOpen with
    | false => rfl
    | true =>
      simp only [Bool.not_true,Bool.false_eq_true,if_false]
      split
      · simp_all
      · split
        · simp_all
        · split
          · simp_all
          · split <;> simp_all

theorem tunnelInit_ready (idle : Idle s) (settled : s.book.Settled) (ready : p.ready = true) :
    Vacant (tunnelInit p s).2 ∧ (tunnelInit p s).2.book.Keeps (tunnelInit p s).2.tunHeld := by
  have none_ : s.book.Keeps [] := ⟨(settled_owes s.book).mp settled,List.nodup_nil⟩
  unfold Plan.ready at ready
  unfold tunnelInit
  by_cases given : 0 ≤ p.externTunFd
  · simp only [given,if_true] at ready ⊢
    rw [if_pos ready]
    exact ⟨{idle with},by simpa [Engine.tunHeld,idle.tun] using none_⟩
  · simp only [given,if_false,Bool.and_eq_true,decide_eq_true_eq] at ready ⊢
    obtain ⟨⟨⟨⟨opens,mtu⟩,ipv4⟩,ipv6⟩,state⟩ := ready
    simp only [opens,mtu,ipv4,ipv6,state,Bool.not_true,Bool.false_eq_true,if_false]
    exact ⟨{idle with},by simpa [Engine.tunHeld] using none_.acquire .tun⟩

theorem tunnelInit_fails (idle : Idle s) (fails : p.ready = false) : Idle (tunnelInit p s).2 ∧
    (tunnelInit p s).2.udp = s.udp ∧ (tunnelInit p s).2.tcp = s.tcp ∧
    (tunnelInit p s).2.book = if p.opened then s.book.acquire .tun else s.book := by
  unfold Plan.ready at fails
  unfold tunnelInit Plan.opened
  by_cases given : 0 ≤ p.externTunFd
  · have other : ¬p.externTunFd < 0 := by omega
    simp only [given,if_true] at fails ⊢
    rw [fails]
    simp only [other,decide_false,Bool.false_and,Bool.false_eq_true,if_false]
    exact ⟨idle,trivial,trivial,trivial⟩
  · have own : p.externTunFd < 0 := by omega
    simp only [given,own,if_false,decide_true,Bool.true_and] at fails ⊢
    cases opens : p.tunnelOpen with
    | false => exact ⟨{idle with},rfl,rfl,rfl⟩
    | true =>
      have lost : Idle {s with tunFd:=some s.book.fresh,book:=s.book.acquire .tun} := by
        refine {idle with udp:=fun h is_ => ?_,tcp:=fun h is_ => ?_}
        · exact (issued_acquire _ _ _).mpr (.inl (idle.udp h is_))
        · exact (issued_acquire _ _ _).mpr (.inl (idle.tcp h is_))
      simp only [Bool.not_true,Bool.false_eq_true,if_false]
      split
      · exact ⟨lost,rfl,rfl,rfl⟩
      · split
        · exact ⟨lost,rfl,rfl,rfl⟩
        · split
          · exact ⟨lost,rfl,rfl,rfl⟩
          · split
            · exact ⟨lost,rfl,rfl,rfl⟩
            · simp_all

-- The clean-up resets all but the pointers to the pcbs, and acquires nothing.
theorem fini_shape (s : Engine) : Vacant (hevSocks5TunnelFini s) ∧ (hevSocks5TunnelFini s).tunFdLocal = false ∧
    (hevSocks5TunnelFini s).udp = s.udp ∧ (hevSocks5TunnelFini s).tcp = s.tcp ∧
    (hevSocks5TunnelFini s).book.acquired = s.book.acquired := by
  unfold hevSocks5TunnelFini tunnelFini
  split
  · exact ⟨⟨rfl,rfl,rfl,rfl,rfl,rfl⟩,rfl,rfl,rfl,
      by simp [gatewayFini,eventTaskFini,lwipIoTaskFini,lwipTimerTaskFini,mappedDnsFini]⟩
  · rename_i own
    exact ⟨⟨rfl,rfl,rfl,rfl,rfl,rfl⟩,by simpa using own,rfl,rfl,
      by simp [gatewayFini,eventTaskFini,lwipIoTaskFini,lwipTimerTaskFini,mappedDnsFini]⟩

theorem fini_idle (udp : ∀ h ∈ s.udp, s.book.Issued h) (tcp : ∀ h ∈ s.tcp, s.book.Issued h) : Idle (hevSocks5TunnelFini s) := by
  obtain ⟨vacant,tun,sameUdp,sameTcp,same⟩ := fini_shape s
  refine {vacant with tun:=tun,udp:=fun h is_ => (issued_same same).mpr (udp h (sameUdp ▸ is_)),tcp:=fun h is_ => ?_}
  exact (issued_same same).mpr (tcp h (sameTcp ▸ is_))

theorem fini_bare (idle : Idle s) : (hevSocks5TunnelFini s).book = (s.book.releaseHeld s.udp).releaseHeld s.tcp := by
  obtain ⟨⟨dns,timer,io,event,fd0,fd1⟩,tun,_,_⟩ := idle
  unfold hevSocks5TunnelFini tunnelFini
  rw [if_neg (by simpa [gatewayFini,eventTaskFini,lwipIoTaskFini,lwipTimerTaskFini,mappedDnsFini] using tun)]
  simp only [gatewayFini,eventTaskFini,lwipIoTaskFini,lwipTimerTaskFini,mappedDnsFini,dns,timer,io,event,fd0,fd1,
    Book.unrefHeld,Book.releaseHeld]

theorem stands_idle (stands : Stands extra s) : Idle (hevSocks5TunnelFini s) := by
  refine fini_idle (fun h is_ => stands.owes.issued ?_) (fun h is_ => stands.owes.issued ?_)
  · simp [Engine.held,Option.mem_def.mp is_]
  · simp [Engine.held,Option.mem_def.mp is_]

-- What a run that gets past tunnel_init leaves, whichever of the later steps fails.
theorem ready_step (idle : Idle s) (settled : s.book.Settled) (ready : p.ready = true) (went : step s p = some next) :
    Idle next ∧ p.tcpNew = true ∧ p.udpNew = true ∧ (next.book.Settled ↔ p.tcpListen = true) := by
  obtain ⟨vacant,keeps⟩ := tunnelInit_ready idle settled ready
  unfold step hevSocks5TunnelInit at went
  simp only [tunnelInit_ok,ready,if_true,Option.map_map,Option.map_eq_some_iff] at went
  obtain ⟨up,gateway,same⟩ := went
  obtain ⟨vacant,tcp,udp,extra,stands,listens⟩ := gatewayInit_stands keeps vacant gateway
  have service := serviceInit_stands p stands vacant
  have ends : ∃ last, Stands extra last ∧ hevSocks5TunnelFini last = next := by
    cases ok : (serviceInit p up).1 with
    | true => exact ⟨_,run_stands service,by simpa [ok] using same⟩
    | false => exact ⟨_,service,by simpa [ok] using same⟩
  obtain ⟨last,stands,rfl⟩ := ends
  exact ⟨stands_idle stands,tcp,udp,(fini_keeps stands).owes.settled.trans listens⟩

-- What a run that does not get past tunnel_init leaves.
theorem failed_step (idle : Idle s) (settled : s.book.Settled) (fails : p.ready = false) (went : step s p = some next) :
    Idle next ∧ (next.book.Settled ↔ p.opened = false ∧ s.tcp = none ∧ s.udp = none) := by
  obtain ⟨idle',sameUdp,sameTcp,book⟩ := tunnelInit_fails idle fails
  unfold step hevSocks5TunnelInit at went
  simp only [tunnelInit_ok,fails,Bool.false_eq_true,if_false,Option.map_some,Option.some.injEq] at went
  subst went
  refine ⟨fini_idle idle'.udp idle'.tcp,?_⟩
  have books := fini_bare idle'
  rw [sameUdp,sameTcp,book] at books
  have before : (if p.opened then s.book.acquire .tun else s.book).released = s.book.released := by split <;> rfl
  cases udp : s.udp with
  | some h =>
    refine iff_of_false (released_twice settled (idle.udp h udp) (List.mem_cons_self (l := s.tcp.toList)) ?_) (by simp)
    rw [books,udp]
    cases s.tcp <;> simp [Book.releaseHeld,before]
  | none =>
    cases tcp : s.tcp with
    | some h =>
      refine iff_of_false (released_twice settled (idle.tcp h tcp) (List.mem_singleton_self h) ?_) (by simp)
      rw [books,udp,tcp]
      simp [Book.releaseHeld,before]
    | none =>
      rw [books,udp,tcp]
      cases opened : p.opened with
      | true =>
        have leak := ((settled_owes s.book).mp settled).acquire .tun
        simpa [Book.releaseHeld] using leak.settled
      | false => simpa [Book.releaseHeld] using settled

-- A run crashes in gateway_init, or ends with everything released once when it is clean.
theorem step_settled (idle : Idle s) (settled : s.book.Settled) (went : step s p = some next) :
    Idle next ∧ (next.book.Settled ↔ Clean s p) := by
  unfold Clean
  cases ready : p.ready with
  | true =>
    obtain ⟨idle,tcp,udp,exact_⟩ := ready_step idle settled ready went
    simpa [tcp,udp] using And.intro idle exact_
  | false => simpa using failed_step idle settled ready went

theorem loaded_idle : Idle loaded := ⟨⟨rfl,rfl,rfl,rfl,rfl,rfl⟩,rfl,fun _ is_ => (nomatch is_),fun _ is_ => (nomatch is_)⟩

-- The process ends in gateway_init: nothing is left to be said of that run.
theorem step_stuck (stuck : step s p = none) : Clean s p := by
  unfold step hevSocks5TunnelInit at stuck
  unfold Clean
  simp only [tunnelInit_ok] at stuck
  cases ready : p.ready with
  | false => simp [ready] at stuck
  | true =>
    simp only [ready,if_true,Option.map_map,Option.map_eq_none_iff] at stuck ⊢
    intro tcp udp
    simp [gatewayInit,tcp,udp] at stuck

theorem resources_once (plans : List Plan) :
    Runs.Throughout step (fun s => s.book.Settled) loaded plans ↔ Runs.Along step Clean loaded plans :=
  Runs.throughout_within (fun _ _ _ idle settled went => (step_settled idle settled went).1)
    (fun _ _ _ idle settled went => (step_settled idle settled went).2) (fun _ _ _ _ stuck => step_stuck stuck)
    loaded_idle blank_settled

def smooth : Plan :=
  {externTunFd:=9,nonblock:=true,tunnelOpen:=true,setMtu:=true,setIpv4:=some true,setIpv6:=none,setState:=true,
   tcpNew:=true,tcpListen:=true,udpNew:=true,socketpair:=true,eventNonblock:=true,taskEvent:=true,taskLwipIo:=true,
   taskLwipTimer:=true,cacheSize:=100,mappedDnsNew:=true}

theorem books_differ {acquired : List Kind} {released : List Handle} {plans : List Plan} {h : Handle}
    (went : (Runs.exec step loaded plans).map (fun s => (s.book.acquired,s.book.released)) = some (acquired,released))
    (twice : released.count h ≠ if (⟨acquired,released,fun _ => 0⟩ : Book Kind).Issued h then 1 else 0) :
    ∃ s, Runs.exec step loaded plans = some s ∧ s.book.acquired = acquired ∧ s.book.released = released ∧ ¬s.book.Settled := by
  obtain ⟨s,ran,same⟩ := Option.map_eq_some_iff.mp went
  obtain ⟨rfl,rfl⟩ := Prod.mk.inj same
  exact ⟨s,ran,rfl,rfl,fun settled => twice (settled h)⟩

-- The interface's mtu cannot be set: its descriptor stays open. A run with a descriptor
-- given to it, and another whose descriptor is no good: the pcbs are freed twice.
theorem resources_astray :
    (∃ s, Runs.exec step loaded [{smooth with externTunFd:=-1,setMtu:=false}] = some s ∧ s.book.acquired = [.tun] ∧
      s.book.released = [] ∧ ¬s.book.Settled) ∧
    ∃ s, Runs.exec step loaded [smooth,{smooth with nonblock:=false}] = some s ∧
      s.book.acquired = [.tcpPcb,.tcpPcbListen,.udpPcb,.eventFd,.eventFd,.task,.task,.task,.mappedDns] ∧
      s.book.released = [.own 0,.own 8,.own 7,.own 6,.own 5,.own 3,.own 4,.own 2,.own 1,.own 2,.own 1] ∧ ¬s.book.Settled :=
  ⟨@books_differ _ _ _ (.own 0) (by decide) (by decide),@books_differ _ _ _ (.own 2) (by decide) (by decide)⟩

end Psocks.Resources
