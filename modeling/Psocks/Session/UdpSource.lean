import Psocks.Lib.Runs
import Psocks.Session.Udp

namespace Psocks.SessionUdp
open MappedDns Pbufs Socks5 Psocks.Task Utils
variable {os : Platform}

-- A call of udp_sendfrom for a reply: what the header of the reply says, where the
-- application has sent without a name until then, and where the pcb is told it is from.
structure SendFrom where
  header : Option (IpAddr × BitVec 16)
  direct : List (IpAddr × BitVec 16)
  source : Source

-- A session with the replies of a round that are still to be handed over; `resB` is
-- `res_b` of the splice loop.
structure FullCone where
  self : HevSocks5SessionUdp
  direct : List (IpAddr × BitVec 16)
  pending : List HevSocks5UdpMsg
  resB : Int
  calls : List SendFrom

inductive ConeEvent (os : Platform) where
  | recv (dns : Option (Dns os)) (p : List Pbuf) (allocated : Option HevSocks5Addr) (ip : IpAddr) (port : BitVec 16)
  | forwarded (count : Nat)
  | replies (msgv : List HevSocks5UdpMsg)
  | hand (allocated : Bool) (err : BitVec 8)

-- The name that stands for a destination, if it is a mapped one.
def mappedName (dns : Option (Dns os)) : IpAddr → Option CString
  | .v4 ip => dns.bind fun self => (hevMappedDnsLookup self ip).1
  | _ => none

def replyHeader (msg : HevSocks5UdpMsg) : Option (IpAddr × BitVec 16) :=
  match msg.addr with
  | .inside off => hevSocks5AddrIntoLwip (msg.mem.drop off)
  | _ => none

-- One turn of the loop of `fwd_b`. `none`: the address is read through a null pointer.
def handOver (s : FullCone) (allocated : Bool) (err : BitVec 8) (msg : HevSocks5UdpMsg) (later : List HevSocks5UdpMsg) :
    Option FullCone :=
  match messageSource ⟨s.self.addr,s.self.port,allocated,err⟩ msg with
  | none => none
  | some none => some {s with pending:=[],resB:=-1}
  | some (some source) =>
    if allocated = false then some {s with pending:=[],resB:=-1}
    else
      let call : SendFrom := ⟨replyHeader msg,s.direct,source⟩
      let s := {s with calls:=s.calls++[call]}
      if err ≠ 0 then some {s with pending:=[],resB:=-1} else some {s with pending:=later}

def coneStep (s : FullCone) : ConeEvent os → Option FullCone
  | .recv dns p allocated ip port => (udpRecvHandler s.self dns p allocated ip port).map fun self =>
    {s with self:=self,direct:=if p ≠ [] ∧ mappedName dns ip = none then s.direct++[(ip,port)] else s.direct}
  | .forwarded count => some {s with self:={s.self with frameList:=s.self.frameList.drop count,frames:=s.self.frames-count}}
  | .replies msgv => some (if s.resB < 0 ∨ s.pending ≠ [] then s else {s with pending:=msgv})
  | .hand allocated err => match s.pending with
    | [] => some s
    | msg::later => handOver s allocated err msg later

-- No mapped address is noted in the session when such a reply is handed over.
def Unnoted (s : FullCone) : ConeEvent os → Prop
  | .hand allocated _ => allocated = true → ∀ msg ∈ s.pending.head?, ∀ ip port, replyHeader msg = some (ip,port) →
    (ip,port) ∈ s.direct → s.self.addr = 0 ∨ s.self.port = 0
  | _ => True

variable {s next : FullCone} {e : ConeEvent os}

theorem from_lwip_unmapped {dns : Option (Dns os)} (named : ip ≠ .any) (unmapped : mappedName dns ip = none)
    (encoded : hevSocks5AddrFromLwip dns memory ip port = some (code,addr,later)) : addr.bytes[0]? ≠ some addrTypeName := by
  cases ip with
  | any => exact (named rfl).elim
  | v6 ip =>
    cases encoded
    rw [from_ipv6_bytes]
    exact fun same => by cases same
  | v4 ip =>
    simp only [mappedName] at unmapped
    cases dns with
    | none =>
      cases encoded
      rw [from_ipv4_bytes]
      exact fun same => by cases same
    | some self =>
      simp only [Option.bind_some] at unmapped
      simp only [hevSocks5AddrFromLwip,unmapped] at encoded
      cases encoded
      rw [from_ipv4_bytes]
      exact fun same => by cases same

theorem recv_notes {self after : HevSocks5SessionUdp} {dns : Option (Dns os)} (named : ip ≠ .any)
    (unmapped : mappedName dns ip = none) (went : udpRecvHandler self dns p allocated ip port = some after) :
    after.addr = self.addr ∧ after.port = self.port := by
  unfold udpRecvHandler at went
  split at went
  · split at went
    · cases went
      exact ⟨rfl,rfl⟩
    · cases allocated with
      | none =>
        cases went
        exact ⟨rfl,rfl⟩
      | some memory =>
        obtain ⟨⟨_,addr,_⟩,encoded,step⟩ := Option.bind_eq_some_iff.mp went
        simp only [if_neg (from_lwip_unmapped named unmapped encoded)] at step
        cases step
        exact ⟨rfl,rfl⟩
  · cases went
    exact ⟨rfl,rfl⟩

-- Its datagrams, if it is one, go to no mapped destination.
def ConeEvent.Unmapped : ConeEvent os → Prop
  | .recv dns _ _ ip _ => ip ≠ .any ∧ mappedName dns ip = none
  | _ => True

theorem hand_over_self (went : handOver s allocated err msg later = some next) : next.self = s.self := by
  unfold handOver at went
  split at went
  · cases went
  · cases went; rfl
  · split at went
    · cases went; rfl
    · simp only at went
      split at went
      · cases went; rfl
      · cases went; rfl

theorem step_notes (unmapped : e.Unmapped) (went : coneStep s e = some next) :
    next.self.addr = s.self.addr ∧ next.self.port = s.self.port := by
  cases e with
  | recv dns p allocated ip port =>
    obtain ⟨self,received,same⟩ := Option.map_eq_some_iff.mp went
    cases same
    exact recv_notes unmapped.1 unmapped.2 received
  | forwarded count =>
    cases went
    exact ⟨rfl,rfl⟩
  | replies msgv =>
    simp only [coneStep] at went
    split at went
    · cases went
      exact ⟨rfl,rfl⟩
    · cases went
      exact ⟨rfl,rfl⟩
  | hand allocated err =>
    simp only [coneStep] at went
    split at went
    · cases went
      exact ⟨rfl,rfl⟩
    · rw [hand_over_self went]
      exact ⟨rfl,rfl⟩

-- As long as no mapped destination is used, the condition holds.
theorem unmapped_unnoted {events : List (ConeEvent os)} (clear : s.self.addr = 0)
    (unmapped : ∀ e ∈ events, e.Unmapped) : Runs.Along coneStep Unnoted s events := by
  induction events generalizing s with
  | nil => trivial
  | cons e rest ih =>
    refine ⟨?_,fun next went => ?_⟩
    · cases e with
      | hand allocated err => exact fun _ _ _ _ _ _ _ => .inl clear
      | _ => trivial
    · exact ih ((step_notes (unmapped e List.mem_cons_self) went).1.trans clear)
        fun d member => unmapped d (List.mem_cons_of_mem _ member)

end Psocks.SessionUdp
