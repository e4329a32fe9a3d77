import Psocks.Lib.Program
import Psocks.Socks5.Addr

namespace Psocks.Socks5
open Program

-- What a client does besides its calls on the socket; the virtual method returns an int.
inductive ClientQuery where
  | setUpstreamAddr (addr : List UInt8)
deriving DecidableEq

abbrev ClientProg := Prog ClientQuery fun _ => Int

abbrev ClientWorld := World ClientQuery fun _ => Int

-- What get_upstream_addr returns: an address of one of the three types.
structure Upstream where
  addr : HevSocks5Addr
  known : addr.bytes[0]? = some addrTypeIpv4 ∨ addr.bytes[0]? = some addrTypeIpv6 ∨ addr.bytes[0]? = some addrTypeName

structure HevSocks5Client where
  type : HevSocks5Type
  typed : type ≠ .none
  user : Option CString
  pass : Option CString
  upstream : Upstream

-- `auth`, when neither of its strings is missing.
def HevSocks5Client.auth (self : HevSocks5Client) : Option (CString × CString) :=
  match self.user, self.pass with
  | some user, some pass => some (user,pass)
  | _, _ => none

def HevSocks5Client.method (self : HevSocks5Client) : UInt8 :=
  if self.auth = none then authMethodNone else authMethodUser

def hevSocks5ClientWriteAuthMethods (self : HevSocks5Client) : ClientProg Int := do
  let res ← send [version5,1,self.method]
  pure (if res ≤ 0 then -1 else 0)

-- The lengths are kept in one byte each.
def authCreds (user pass : CString) : List UInt8 :=
  let ulen := UInt8.ofNat user.bytes.length
  let plen := UInt8.ofNat pass.bytes.length
  [authVersion1,ulen]++user.bytes.take ulen.toNat++[plen]++pass.bytes.take plen.toNat

def hevSocks5ClientWriteAuthCreds (self : HevSocks5Client) : ClientProg Int :=
  match self.auth with
  | none => pure 0
  | some (user,pass) => do
    let res ← send (authCreds user pass)
    pure (if res ≤ 0 then -1 else 0)

def requestCmd : HevSocks5Type → Option UInt8
  | .tcp => some reqCmdConnect
  | .udpInTcp => some reqCmdFwdUdp
  | .udpInUdp => some reqCmdUdpAsc
  | .none => none

def upstreamLength (addr : List UInt8) : Option Nat :=
  if addr[0]? = some addrTypeIpv4 then some 7
  else if addr[0]? = some addrTypeIpv6 then some 19
  else if addr[0]? = some addrTypeName then addr[1]?.map fun len => 4+len.toNat
  else none

def hevSocks5ClientWriteRequest (self : HevSocks5Client) : ClientProg Int :=
  match requestCmd self.type, upstreamLength self.upstream.addr.bytes with
  | some cmd, some addrlen => do
    let res ← send ([version5,cmd,0]++self.upstream.addr.bytes.take addrlen)
    pure (if res ≤ 0 then -1 else 0)
  | _, _ => pure (-1)

def hevSocks5ClientReadAuthMethod : ClientProg Int := do
  let (res,auth) ← recv 2
  if res ≠ 2 then pure (-1)
  else match auth with
    | [ver,method] => pure (if ver ≠ version5 then -1 else method.toNat)
    | _ => pure (-1)

def hevSocks5ClientReadAuthCreds : ClientProg Int := do
  let (ret,res) ← recv 2
  if ret ≠ 2 then pure (-1)
  else match res with
    | [ver,rep] => pure (if ver ≠ authVersion1 then -1 else if rep ≠ resRepSucc then -1 else 0)
    | _ => pure (-1)

-- The bytes behind `atype` in a response.
def responseLength (atype : UInt8) : Option Nat :=
  if atype = addrTypeIpv4 then some 6 else if atype = addrTypeIpv6 then some 18 else none

def hevSocks5ClientReadResponse : ClientProg Int := do
  let (ret,res) ← recv 4
  if ret ≠ 4 then pure (-1)
  else match res with
    | [ver,rep,_,atype] =>
      if ver ≠ version5 then pure (-1)
      else if rep ≠ resRepSucc then pure (-1)
      else match responseLength atype with
        | none => pure (-1)
        | some addrlen => do
          let (ret,addr) ← recv addrlen
          if ret ≠ addrlen then pure (-1)
          else
            let ret ← ask (.setUpstreamAddr (atype::addr))
            pure (if ret < 0 then -1 else 0)
    | _ => pure (-1)

def hevSocks5ClientHandshakeStandard (self : HevSocks5Client) : ClientProg Int := do
  let res ← hevSocks5ClientWriteAuthMethods self
  if res < 0 then pure (-1)
  else
    let res ← hevSocks5ClientReadAuthMethod
    if res < 0 then pure (-1)
    else
      let res ← if res = authMethodUser.toNat then do
          let res ← hevSocks5ClientWriteAuthCreds self
          if res < 0 then pure (-1) else hevSocks5ClientReadAuthCreds
        else pure (if res ≠ authMethodNone.toNat then -1 else 0)
      if res < 0 then pure (-1)
      else
        let res ← hevSocks5ClientWriteRequest self
        if res < 0 then pure (-1)
        else
          let res ← hevSocks5ClientReadResponse
          pure (if res < 0 then -1 else 0)

def hevSocks5ClientHandshakePipeline (self : HevSocks5Client) : ClientProg Int := do
  let res ← hevSocks5ClientWriteAuthMethods self
  if res < 0 then pure (-1)
  else
    let res ← hevSocks5ClientWriteAuthCreds self
    if res < 0 then pure (-1)
    else
      let res ← hevSocks5ClientWriteRequest self
      if res < 0 then pure (-1)
      else
        let res ← hevSocks5ClientReadAuthMethod
        if res < 0 then pure (-1)
        else
          let res ← if res = authMethodUser.toNat then hevSocks5ClientReadAuthCreds
            else pure (if res ≠ authMethodNone.toNat then -1 else 0)
          if res < 0 then pure (-1)
          else
            let res ← hevSocks5ClientReadResponse
            pure (if res < 0 then -1 else 0)

def hevSocks5ClientHandshake (self : HevSocks5Client) (pipeline : Bool) : ClientProg Int :=
  if pipeline then hevSocks5ClientHandshakePipeline self else hevSocks5ClientHandshakeStandard self

variable {w : ClientWorld}

-- A receive that got all it asked for, or one that did not.
theorem take_two (w : World Query Answer) :
    (w.take 2).1 ≠ 2 ∨ (w.take 2).1 = 2 ∧ ∃ a b, (w.take 2).2.1 = [a,b] ∧ w.stream = a::b::(w.take 2).2.2.stream := by
  by_cases all : (w.take 2).1 = 2
  · obtain ⟨a,b,data⟩ := List.length_eq_two.mp (take_all all)
    refine .inr ⟨all,a,b,data,?_⟩
    have cut := take_stream w 2
    rwa [data] at cut
  · exact .inl all

theorem read_method_cases (w : ClientWorld) : (hevSocks5ClientReadAuthMethod.exec w).1 = -1 ∨
    ∃ method, w.stream = version5::method::(hevSocks5ClientReadAuthMethod.exec w).2.stream ∧
      (hevSocks5ClientReadAuthMethod.exec w).1 = method.toNat := by
  unfold hevSocks5ClientReadAuthMethod
  simp only [exec_recv_bind]
  rcases take_two w with short | ⟨all,ver,method,data,cut⟩
  · rw [if_pos short]
    exact .inl rfl
  · rw [if_neg (not_not.mpr all),data]
    simp only [exec_pure]
    by_cases version : ver ≠ version5
    · exact .inl (if_pos version)
    · rw [if_neg version]
      exact .inr ⟨method,by rw [← not_not.mp version]; exact cut,rfl⟩

-- The front of a stream of replies that read_response takes.
def Accepts (stream : List UInt8) : Prop :=
  ∃ rsv atype addr rest, stream = version5::resRepSucc::rsv::atype::(addr++rest) ∧ responseLength atype = some addr.length

theorem read_response_cases (w : ClientWorld) : (hevSocks5ClientReadResponse.exec w).1 = -1 ∨
    (hevSocks5ClientReadResponse.exec w).1 = 0 ∧ Accepts w.stream := by
  unfold hevSocks5ClientReadResponse
  simp only [exec_recv_bind]
  by_cases all : (w.take 4).1 ≠ 4
  · rw [if_pos all]
    exact .inl rfl
  rw [if_neg all]
  have whole := take_all (not_not.mp all)
  have cut := take_stream w 4
  split
  · rename_i ver rep rsv atype data
    split
    · exact .inl rfl
    rename_i version
    split
    · exact .inl rfl
    rename_i code
    split
    · exact .inl rfl
    rename_i addrlen length
    simp only [exec_recv_bind]
    generalize (w.take 4).2.2 = later at cut ⊢
    by_cases short : (later.take addrlen).1 ≠ addrlen
    · rw [if_pos short]
      exact .inl rfl
    rw [if_neg short]
    simp only [exec_ask_bind,exec_pure]
    split
    · exact .inl rfl
    · refine .inr ⟨rfl,rsv,atype,(later.take addrlen).2.1,(later.take addrlen).2.2.stream,?_,?_⟩
      · rw [data,take_stream later addrlen,not_not.mp version,not_not.mp code] at cut
        exact cut
      · rw [take_all (not_not.mp short),length]
  · exact .inl rfl

-- A client of user "u" with password "p" that is to reach 1.2.3.4:80.
def member : HevSocks5Client where
  type := .tcp
  typed := by decide
  user := some ⟨[117],by decide⟩
  pass := some ⟨[112],by decide⟩
  upstream := ⟨(hevSocks5AddrFromIpv4 .zero 0x01020304 80).1,.inl (by decide)⟩

end Psocks.Socks5
