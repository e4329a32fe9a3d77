import Psocks.Socks5.Client

namespace Psocks.Socks5
open Program
variable {self : HevSocks5Client} {w : ClientWorld} {acts : List (Act ClientQuery)}

def sentWhole (data : List UInt8) : Act Query := .put data data.length

def HevSocks5Client.greeting (self : HevSocks5Client) : List UInt8 := [version5,1,self.method]

def HevSocks5Client.request (self : HevSocks5Client) : List UInt8 :=
  match requestCmd self.type, upstreamLength self.upstream.addr.bytes with
  | some cmd, some addrlen => [version5,cmd,0]++self.upstream.addr.bytes.take addrlen
  | _, _ => []

def HevSocks5Client.credsSent (self : HevSocks5Client) : List (Act ClientQuery) :=
  match self.auth with
  | none => []
  | some (user,pass) => [sentWhole (authCreds user pass)]

-- Nothing has happened, and all sends succeed.
structure Fresh (w : ClientWorld) : Prop where
  trace : w.trace = []
  sends : w.sends = []

theorem core_fresh (clear : w.sends = []) : Fresh w.core := ⟨rfl,clear⟩

theorem put_behind (fresh : Fresh w) (data : List UInt8) :
    (w.behind acts).put data = ((data.length : Int),w.behind (acts++[sentWhole data])) := by
  obtain ⟨trace,sends⟩ := fresh
  rw [put_whole (show (w.behind acts).sends = [] from sends)]
  simp [World.behind,trace,sentWhole]

theorem methods_whole (fresh : Fresh w) :
    (hevSocks5ClientWriteAuthMethods self).exec (w.behind acts) = (0,w.behind (acts++[sentWhole self.greeting])) := by
  simp only [hevSocks5ClientWriteAuthMethods,exec_bind,exec_send,put_behind fresh,exec_pure]
  rfl

theorem creds_whole (fresh : Fresh w) :
    (hevSocks5ClientWriteAuthCreds self).exec (w.behind acts) = (0,w.behind (acts++self.credsSent)) := by
  unfold hevSocks5ClientWriteAuthCreds HevSocks5Client.credsSent
  cases self.auth with
  | none => simp
  | some creds =>
    obtain ⟨user,pass⟩ := creds
    simp only [exec_bind,exec_send,put_behind fresh,exec_pure]
    rw [if_neg]
    simp [authCreds]
    omega

theorem request_known (self : HevSocks5Client) :
    ∃ cmd addrlen, requestCmd self.type = some cmd ∧ upstreamLength self.upstream.addr.bytes = some addrlen := by
  have commands : ∃ cmd, requestCmd self.type = some cmd := by
    cases type : self.type with
    | none => exact (self.typed type).elim
    | tcp => exact ⟨_,rfl⟩
    | udpInTcp => exact ⟨_,rfl⟩
    | udpInUdp => exact ⟨_,rfl⟩
  have lengths : ∃ addrlen, upstreamLength self.upstream.addr.bytes = some addrlen := by
    have size := self.upstream.addr.size
    rcases self.upstream.known with four | six | name
    · exact ⟨_,if_pos four⟩
    · unfold upstreamLength
      rw [six]
      exact ⟨_,rfl⟩
    · unfold upstreamLength
      rw [name,List.getElem?_eq_getElem (by omega)]
      exact ⟨_,rfl⟩
  obtain ⟨cmd,command⟩ := commands
  obtain ⟨addrlen,length⟩ := lengths
  exact ⟨cmd,addrlen,command,length⟩

theorem request_whole (fresh : Fresh w) :
    (hevSocks5ClientWriteRequest self).exec (w.behind acts) = (0,w.behind (acts++[sentWhole self.request])) := by
  obtain ⟨cmd,addrlen,type,length⟩ := request_known self
  unfold hevSocks5ClientWriteRequest HevSocks5Client.request
  rw [type,length]
  simp only [exec_bind,exec_send,put_behind fresh,exec_pure]
  rw [if_neg]
  simp
  omega

theorem read_method_mute : hevSocks5ClientReadAuthMethod.Mute := by
  unfold hevSocks5ClientReadAuthMethod
  refine mute_recv fun res auth => ?_
  by_cases all : res ≠ 2
  · simp only [if_pos all]
    trivial
  · simp only [if_neg all]
    split <;> trivial

theorem read_creds_mute : hevSocks5ClientReadAuthCreds.Mute := by
  unfold hevSocks5ClientReadAuthCreds
  refine mute_recv fun ret res => ?_
  by_cases all : ret ≠ 2
  · simp only [if_pos all]
    trivial
  · simp only [if_neg all]
    split <;> trivial

theorem read_response_mute : hevSocks5ClientReadResponse.Mute := by
  unfold hevSocks5ClientReadResponse
  refine mute_recv fun ret res => ?_
  by_cases all : ret ≠ 4
  · simp only [if_pos all]
    trivial
  simp only [if_neg all]
  split
  · split
    · trivial
    split
    · trivial
    split
    · trivial
    · refine mute_recv fun ret addr => ?_
      split
      · trivial
      · exact mute_ask fun _ => trivial
  · trivial

-- A read in a world where nothing has happened, and the same one later.
theorem read_behind (p : ClientProg Int) (w : ClientWorld) (acts : List (Act ClientQuery)) :
    p.exec (w.behind acts) = ((p.exec w).1,(p.exec w).2.core.behind (acts++(p.exec w).2.trace)) := by
  rw [exec_behind,← behind_behind,core_behind]

theorem read_fresh (p : ClientProg Int) (fresh : Fresh w) : Fresh (p.exec w).2.core := core_fresh (exec_sends p fresh.sends)

theorem read_quiet {p : ClientProg Int} (mute : p.Mute) (fresh : Fresh w) : wire (p.exec w).2.trace = [] := by
  rw [mute_wire mute,fresh.trace]
  rfl

@[simp] theorem wire_sent (data : List UInt8) (acts : List (Act Query)) : wire (sentWhole data::acts) = data++wire acts := by
  simp [wire,sentWhole,Act.said]

@[simp] theorem asked_sent (data : List UInt8) (acts : List (Act Query)) : asked (sentWhole data::acts) = asked acts := rfl

@[simp] theorem asked_creds : asked self.credsSent = [] := by
  unfold HevSocks5Client.credsSent
  cases self.auth <;> rfl

-- The outcomes of the two modes, from the same replies.
structure Alike (offered : Prop) (s p : Int × ClientWorld) : Prop where
  res : s.1 = p.1
  stream : s.2.stream = p.2.stream
  asked : asked s.2.trace = asked p.2.trace
  front : offered → wire s.2.trace <+: wire p.2.trace
  whole : offered → s.1 = 0 → wire s.2.trace = wire p.2.trace

theorem modes_alike (self : HevSocks5Client) (fresh : Fresh w) :
    Alike (w.stream[1]? = some self.method) ((hevSocks5ClientHandshakeStandard self).exec w)
      ((hevSocks5ClientHandshakePipeline self).exec w) := by
  have start : w = w.behind [] := by simp [World.behind]
  have unoffered := read_method_cases w
  have quiet := read_quiet read_method_mute fresh
  have clear := read_fresh hevSocks5ClientReadAuthMethod fresh
  generalize read : hevSocks5ClientReadAuthMethod.exec w = first at unoffered quiet clear
  obtain ⟨m,c⟩ := first
  simp only at unoffered quiet clear
  unfold hevSocks5ClientHandshakeStandard hevSocks5ClientHandshakePipeline
  rw [start]
  simp only [exec_bind,methods_whole fresh,creds_whole fresh,request_whole fresh,Int.lt_irrefl,if_false,
    read_behind hevSocks5ClientReadAuthMethod w,read,List.nil_append]
  by_cases refused : m < 0
  · simp only [if_pos refused,exec_pure]
    exact ⟨rfl,rfl,by simp,fun _ => by simp [quiet],fun _ same => by cases same⟩
  · simp only [if_neg refused]
    by_cases user : m = authMethodUser.toNat
    · have quieter := read_quiet read_creds_mute clear
      have clearer := read_fresh hevSocks5ClientReadAuthCreds clear
      simp only [if_pos user,exec_bind,creds_whole clear,Int.lt_irrefl,if_false,read_behind hevSocks5ClientReadAuthCreds c.core]
      generalize hevSocks5ClientReadAuthCreds.exec c.core = second at quieter clearer ⊢
      obtain ⟨v,d⟩ := second
      simp only at quieter clearer ⊢
      by_cases wrong : v < 0
      · simp only [if_pos wrong,exec_pure]
        exact ⟨rfl,rfl,by simp,fun _ => by simp [quiet,quieter],fun _ same => by cases same⟩
      · have quietest := read_quiet read_response_mute clearer
        simp only [if_neg wrong,exec_bind,request_whole clearer,Int.lt_irrefl,if_false,exec_pure,
          read_behind hevSocks5ClientReadResponse d.core]
        generalize hevSocks5ClientReadResponse.exec d.core = third at quietest ⊢
        exact ⟨rfl,rfl,by simp,fun _ => by simp [quiet,quieter,quietest],fun _ _ => by simp [quiet,quieter,quietest]⟩
    · simp only [if_neg user,exec_bind,exec_pure]
      by_cases other : m ≠ authMethodNone.toNat
      · simp only [if_pos other]
        exact ⟨rfl,rfl,by simp,fun _ => by simp [quiet],fun _ same => by cases same⟩
      · have quieter := read_quiet read_response_mute clear
        simp only [if_neg other,Int.lt_irrefl,if_false,exec_bind,exec_pure,request_whole clear,
          read_behind hevSocks5ClientReadResponse c.core]
        generalize hevSocks5ClientReadResponse.exec c.core = third at quieter ⊢
        -- Without credentials: the method that was offered is NONE.
        have plain : (w.behind []).stream[1]? = some self.method → self.credsSent = [] := by
          intro offered
          rcases unoffered with negative | ⟨method,cut,chosen⟩
          · omega
          · rw [behind_stream,cut] at offered
            have same : method = self.method := Option.some.inj offered
            cases creds : self.auth with
            | none => simp only [HevSocks5Client.credsSent,creds]
            | some pair =>
              rw [HevSocks5Client.method,creds] at same
              rw [same] at chosen
              exact (user chosen).elim
        refine ⟨rfl,rfl,by simp,fun offered => ?_,fun offered _ => ?_⟩
        · simp [quiet,quieter,plain offered]
        · simp [quiet,quieter,plain offered]

-- Any bytes from the server, in any pieces, to a client whose sends all succeed.
def replies (stream : List UInt8) (recvs : List Cut) (oracle : Nat → ClientQuery → Int) : ClientWorld :=
  ⟨stream,recvs,[],oracle,0,[]⟩

theorem modes_equivalent (self : HevSocks5Client) (stream : List UInt8) (recvs : List Cut) (oracle : Nat → ClientQuery → Int) :
    Alike (stream[1]? = some self.method) ((hevSocks5ClientHandshakeStandard self).exec (replies stream recvs oracle))
      ((hevSocks5ClientHandshakePipeline self).exec (replies stream recvs oracle)) := by
  have fresh : Fresh (replies stream recvs oracle) := ⟨rfl,rfl⟩
  exact modes_alike self fresh

end Psocks.Socks5
