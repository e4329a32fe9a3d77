import Psocks.Socks5.ServerRequest

namespace Psocks.Socks5
open Program SearchTree
variable {rbtree : Balanced HevSocks5User} {self : HevSocks5Server rbtree} {w : ServerWorld} {name : CString}
variable {family : HevSocks5AddrFamily}

-- What is sent does not depend on what the stack held before.
def Sealed (self : HevSocks5Server rbtree) (w : ServerWorld) : Prop :=
  ∀ stack stack', wire ((hevSocks5ServerHandshake self stack).exec w).2.trace =
    wire ((hevSocks5ServerHandshake self stack').exec w).2.trace

-- Nothing knows the name.
def Unresolved (w : ServerWorld) (name : CString) (family : HevSocks5AddrFamily) : Prop :=
  w.oracle w.turn (.inetPton4 name) = none ∧ w.oracle (w.turn+1) (.inetPton6 name) = none ∧
    (w.oracle (w.turn+2) (.getaddrinfo name family) = none ∨ w.oracle (w.turn+2) (.getaddrinfo name family) = some .other)

-- A request that comes, but not with a version 5, a known type and a whole address that
-- can be resolved.
def Rejected (self : HevSocks5Server rbtree) (w : ServerWorld) : Prop :=
  ∃ ver cmd rsv atype len, (w.take 5).1 = 5 ∧ (w.take 5).2.1 = [ver,cmd,rsv,atype,len] ∧
    (ver ≠ version5 ∨ requestLength atype len = none ∨ ∃ addrlen, requestLength atype len = some addrlen ∧
      (((w.take 5).2.2.take addrlen).1 ≠ addrlen ∨
        atype = addrTypeName ∧ Unresolved ((w.take 5).2.2.take addrlen).2.2
          (cut (((w.take 5).2.2.take addrlen).2.1.take len.toNat)) self.addrFamily))

theorem resolve_ipv4_exec (w : ServerWorld) (name : CString) (saddr : SockaddrIn6) :
    (hevSocks5NameResolveIpv4 name saddr).exec w = (match w.oracle w.turn (.inetPton4 name) with
      | none => (-1,saddr.clear)
      | some ipv4 => (0,{saddr with addr:=v4Mapped ipv4}),(w.note (.inetPton4 name)).2) := by
  unfold hevSocks5NameResolveIpv4
  rw [exec_ask_bind]
  rw [show w.oracle w.turn (.inetPton4 name) = (w.note (.inetPton4 name)).1 from rfl]
  cases (w.note (.inetPton4 name)).1 <;> rfl

theorem resolve_ipv6_exec (w : ServerWorld) (name : CString) (saddr : SockaddrIn6) :
    (hevSocks5NameResolveIpv6 name saddr).exec w = (match w.oracle w.turn (.inetPton6 name) with
      | none => (-1,saddr)
      | some ipv6 => (0,{saddr with addr:=ipv6}),(w.note (.inetPton6 name)).2) := by
  unfold hevSocks5NameResolveIpv6
  rw [exec_ask_bind]
  rw [show w.oracle w.turn (.inetPton6 name) = (w.note (.inetPton6 name)).1 from rfl]
  cases (w.note (.inetPton6 name)).1 <;> rfl

theorem resolve_name_exec (w : ServerWorld) (name : CString) (saddr : SockaddrIn6) (family : HevSocks5AddrFamily) :
    (hevSocks5NameResolveName name saddr family).exec w = (match w.oracle w.turn (.getaddrinfo name family) with
      | none => (-1,saddr,family)
      | some (.inet ipv4) => (0,{saddr with addr:=v4Mapped ipv4},.ipv4)
      | some (.inet6 ipv6) => (0,{saddr with addr:=ipv6},.ipv6)
      | some .other => (-1,saddr,family),(w.note (.getaddrinfo name family)).2) := by
  unfold hevSocks5NameResolveName
  rw [exec_ask_bind]
  rw [show w.oracle w.turn (.getaddrinfo name family) = (w.note (.getaddrinfo name family)).1 from rfl]
  cases (w.note (.getaddrinfo name family)).1 with
  | none => rfl
  | some found => cases found <;> rfl

-- The three steps of a resolution that is not done after the first two.
theorem name_into_looks (four : w.oracle w.turn (.inetPton4 name) = none) (six : w.oracle (w.turn+1) (.inetPton6 name) = none)
    (port : Vector UInt8 2) (saddr : SockaddrIn6) (family : HevSocks5AddrFamily) :
    (hevSocks5NameIntoSockaddr6 name port saddr family).exec w =
      (match w.oracle (w.turn+2) (.getaddrinfo name family) with
        | none => (-1,({saddr with family:=afInet6,port:=port} : SockaddrIn6).clear,family)
        | some (.inet ipv4) => (0,⟨afInet6,port,v4Mapped ipv4⟩,.ipv4)
        | some (.inet6 ipv6) => (0,⟨afInet6,port,ipv6⟩,.ipv6)
        | some .other => (-1,({saddr with family:=afInet6,port:=port} : SockaddrIn6).clear,family),
        (((w.note (.inetPton4 name)).2.note (.inetPton6 name)).2.note (.getaddrinfo name family)).2) := by
  have minus : ¬(-1 : Int) = 0 := by decide
  have later : (w.note (.inetPton4 name)).2.oracle (w.note (.inetPton4 name)).2.turn (.inetPton6 name) = none := six
  unfold hevSocks5NameIntoSockaddr6
  rw [exec_bind,resolve_ipv4_exec,four]
  simp only [minus,if_false]
  rw [exec_bind,resolve_ipv6_exec,later]
  simp only [minus,if_false]
  exact resolve_name_exec _ _ _ _

theorem unresolved_exec (unresolved : Unresolved w name family) (port : Vector UInt8 2) :
    ∃ v, wire v.trace = wire w.trace ∧ v.sends = w.sends ∧
      ∀ saddr, (hevSocks5NameIntoSockaddr6 name port saddr family).exec w =
        ((-1,({saddr with family:=afInet6,port:=port} : SockaddrIn6).clear,family),v) := by
  obtain ⟨four,six,lookup⟩ := unresolved
  refine ⟨(((w.note (.inetPton4 name)).2.note (.inetPton6 name)).2.note (.getaddrinfo name family)).2,?_,rfl,?_⟩
  · simp [World.note,wire,Act.said]
  · intro saddr
    rw [name_into_looks four six]
    rcases lookup with none_ | other
    · rw [none_]
    · rw [other]

-- What a resolution that succeeds fills in is not what was there.
theorem resolved_exec (resolved : ¬Unresolved w name family) (port : Vector UInt8 2) :
    ∃ found v, ∀ saddr, (hevSocks5NameIntoSockaddr6 name port saddr family).exec w = ((0,found),v) := by
  cases four : w.oracle w.turn (.inetPton4 name) with
  | some ipv4 =>
    refine ⟨(⟨afInet6,port,v4Mapped ipv4⟩,.ipv4),(w.note (.inetPton4 name)).2,fun saddr => ?_⟩
    unfold hevSocks5NameIntoSockaddr6
    rw [exec_bind,resolve_ipv4_exec,four]
    rfl
  | none =>
    cases six : w.oracle (w.turn+1) (.inetPton6 name) with
    | some ipv6 =>
      refine ⟨(⟨afInet6,port,ipv6⟩,.ipv6),((w.note (.inetPton4 name)).2.note (.inetPton6 name)).2,fun saddr => ?_⟩
      have later : (w.note (.inetPton4 name)).2.oracle (w.note (.inetPton4 name)).2.turn (.inetPton6 name) = some ipv6 := six
      have minus : ¬(-1 : Int) = 0 := by decide
      unfold hevSocks5NameIntoSockaddr6
      rw [exec_bind,resolve_ipv4_exec,four]
      simp only [minus,if_false]
      rw [exec_bind,resolve_ipv6_exec,later]
      rfl
    | none =>
      let v : ServerWorld := (((w.note (.inetPton4 name)).2.note (.inetPton6 name)).2.note (.getaddrinfo name family)).2
      cases lookup : w.oracle (w.turn+2) (.getaddrinfo name family) with
      | none => exact (resolved ⟨four,six,.inl lookup⟩).elim
      | some found =>
        cases found with
        | other => exact (resolved ⟨four,six,.inr lookup⟩).elim
        | inet ipv4 =>
          refine ⟨(⟨afInet6,port,v4Mapped ipv4⟩,.ipv4),v,fun saddr => ?_⟩
          rw [name_into_looks four six,lookup]
        | inet6 ipv6 =>
          refine ⟨(⟨afInet6,port,ipv6⟩,.ipv6),v,fun saddr => ?_⟩
          rw [name_into_looks four six,lookup]

theorem five_cases (w : ServerWorld) : (w.take 5).1 ≠ 5 ∨
    (w.take 5).1 = 5 ∧ ∃ ver cmd rsv atype len, (w.take 5).2.1 = [ver,cmd,rsv,atype,len] := by
  by_cases all : (w.take 5).1 = 5
  · have size := take_all all
    match (w.take 5).2.1,size with
    | [ver,cmd,rsv,atype,len],_ => exact .inr ⟨all,ver,cmd,rsv,atype,len,rfl⟩
  · exact .inl all

theorem into_settled (known : requestLength atype len = some n) (resolved : ¬(atype = addrTypeName ∧
    Unresolved w (cut (addr.take len.toNat)) family)) :
    ∃ found v, ∀ saddr, (hevSocks5AddrIntoSockaddr6 (atype::len::addr) saddr family).exec w = ((0,found),v) := by
  simp only [into_cases]
  by_cases four : atype = addrTypeIpv4
  · simp only [if_pos four]
    exact ⟨_,w,fun saddr => rfl⟩
  by_cases six : atype = addrTypeIpv6
  · simp only [if_neg four,if_pos six]
    exact ⟨_,w,fun saddr => rfl⟩
  by_cases name : atype = addrTypeName
  · simp only [if_neg four,if_neg six,if_pos name]
    exact resolved_exec (fun unresolved => resolved ⟨name,unresolved⟩) _
  · unfold requestLength at known
    rw [if_neg four,if_neg six,if_neg name] at known
    cases known

theorem settled_request (settled : ¬Rejected self w) :
    (∃ v, ∀ out, (hevSocks5ServerReadRequest self out).exec w = ((-1,out,self),v)) ∨
      ∃ cmd saddr family v, ∀ out, (hevSocks5ServerReadRequest self out).exec w =
        ((0,{out with cmd:=cmd,addr:=saddr},{self with addrFamily:=family}),v) := by
  unfold hevSocks5ServerReadRequest
  simp only [exec_recv_bind]
  rcases five_cases w with short | ⟨all,ver,cmd,rsv,atype,len,data⟩
  · simp only [if_pos short]
    exact .inl ⟨_,fun out => rfl⟩
  right
  simp only [if_neg (not_not.mpr all),data]
  have version : ¬ver ≠ version5 := fun other => settled ⟨ver,cmd,rsv,atype,len,all,data,.inl other⟩
  simp only [if_neg version]
  cases length : requestLength atype len with
  | none => exact (settled ⟨ver,cmd,rsv,atype,len,all,data,.inr (.inl length)⟩).elim
  | some addrlen =>
    simp only [exec_recv_bind]
    have whole : ¬((w.take 5).2.2.take addrlen).1 ≠ addrlen := fun short =>
      settled ⟨ver,cmd,rsv,atype,len,all,data,.inr (.inr ⟨addrlen,length,.inl short⟩)⟩
    simp only [if_neg whole,exec_bind]
    obtain ⟨⟨saddr,family⟩,v,into⟩ := into_settled length fun unresolved =>
      settled ⟨ver,cmd,rsv,atype,len,all,data,.inr (.inr ⟨addrlen,length,.inr unresolved⟩)⟩
    refine ⟨cmd,saddr,family,v,fun out => ?_⟩
    rw [into]
    rfl

@[simp] theorem take_sends_wire (w : ServerWorld) (n : Nat) :
    (w.take n).2.2.sends = w.sends ∧ wire (w.take n).2.2.trace = wire w.trace := ⟨rfl,by simp [World.take,wire,Act.said]⟩

-- A rejected request leaves the address as it was, but for what a failed resolution
-- clears and sets.
theorem rejected_request (rejected : Rejected self w) :
    ∃ (rep : UInt8) (touch : SockaddrIn6 → SockaddrIn6) (v : ServerWorld), rep ≠ resRepSucc ∧ v.sends = w.sends ∧
    wire v.trace = wire w.trace ∧ (∀ a : SockaddrIn6, a.clear = a → (touch a).addr = a.addr) ∧
    ∀ out, (hevSocks5ServerReadRequest self out).exec w = ((0,{out with rep:=rep,addr:=touch out.addr},self),v) := by
  obtain ⟨ver,cmd,rsv,atype,len,all,data,cases_⟩ := rejected
  unfold hevSocks5ServerReadRequest
  simp only [exec_recv_bind,if_neg (not_not.mpr all),data]
  by_cases version : ver ≠ version5
  · simp only [if_pos version]
    exact ⟨resRepFail,id,_,by decide,(take_sends_wire w 5).1,(take_sends_wire w 5).2,fun _ _ => rfl,fun _ => rfl⟩
  simp only [if_neg version]
  cases length : requestLength atype len with
  | none => exact ⟨resRepAddr,id,_,by decide,(take_sends_wire w 5).1,(take_sends_wire w 5).2,fun _ _ => rfl,fun _ => rfl⟩
  | some addrlen =>
    simp only [exec_recv_bind]
    have sends : ((w.take 5).2.2.take addrlen).2.2.sends = w.sends := rfl
    have quiet : wire ((w.take 5).2.2.take addrlen).2.2.trace = wire w.trace :=
      (take_sends_wire _ _).2.trans (take_sends_wire w 5).2
    by_cases short : ((w.take 5).2.2.take addrlen).1 ≠ addrlen
    · simp only [if_pos short]
      exact ⟨resRepAddr,id,_,by decide,sends,quiet,fun _ _ => rfl,fun _ => rfl⟩
    simp only [if_neg short,exec_bind]
    rcases cases_ with wrong | none_ | ⟨n,same,cut | ⟨named,unresolved⟩⟩
    · exact (version wrong).elim
    · rw [length] at none_
      cases none_
    · rw [Option.some.inj (same.symm.trans length)] at cut
      exact (short cut).elim
    · rw [Option.some.inj (same.symm.trans length)] at unresolved
      let port : Vector UInt8 2 := bytesAt (atype::len::((w.take 5).2.2.take addrlen).2.1) (2+len.toNat) 2
      obtain ⟨v,said,kept,into⟩ := unresolved_exec unresolved port
      subst named
      refine ⟨resRepAddr,fun a => ({a with family:=afInet6,port:=port} : SockaddrIn6).clear,v,by decide,kept.trans sends,said.trans quiet,
        fun a same => (congrArg SockaddrIn6.addr same : a.clear.addr = a.addr),fun out => ?_⟩
      rw [into_cases,if_neg name_not_ipv4,if_neg name_not_ipv6,if_pos rfl]
      rw [show bytesAt _ (2+len.toNat) 2 = port from rfl,into]
      rfl

-- The reply to a rejected request shows the address.
theorem rejected_reply (passed : ¬((hevSocks5ServerAuth self).exec w).1 < 0) (rejected : Rejected self ((hevSocks5ServerAuth self).exec w).2) :
    ∃ (rep : UInt8) (touch : SockaddrIn6 → SockaddrIn6), (∀ a : SockaddrIn6, a.clear = a → (touch a).addr = a.addr) ∧
      ∀ stack, wire ((hevSocks5ServerHandshake self stack).exec w).2.trace =
        wire ((hevSocks5ServerAuth self).exec w).2.trace++(response rep (touch stack.addr)).take
          ((((hevSocks5ServerAuth self).exec w).2.sends.headD .whole).count (response rep (touch stack.addr)).length) := by
  obtain ⟨rep,touch,v,refuses,sends,quiet,shown,request⟩ := rejected_request rejected
  refine ⟨rep,touch,shown,fun stack => ?_⟩
  unfold hevSocks5ServerHandshake
  rw [exec_bind,if_neg passed,exec_bind,request]
  simp only [Int.lt_irrefl,if_false]
  unfold hevSocks5ServerServe
  rw [exec_bind,if_pos refuses,exec_pure]
  simp only
  rw [exec_bind,exec_pure,← quiet,← sends]
  unfold hevSocks5ServerWriteResponse
  rw [exec_send_bind,exec_pure]
  simp only [World.put,wire_append]
  congr 1
  simp [wire,Act.said,response]

theorem settled_reply (settled : ¬Rejected self ((hevSocks5ServerAuth self).exec w).2) (stack stack' : Request) :
    ((hevSocks5ServerHandshake self stack).exec w).2 = ((hevSocks5ServerHandshake self stack').exec w).2 := by
  unfold hevSocks5ServerHandshake
  simp only [exec_bind]
  split
  · rfl
  · rcases settled_request settled with ⟨v,request⟩ | ⟨cmd,saddr,family,v,request⟩
    · rw [exec_bind,exec_bind,request,request]
      rfl
    · rw [exec_bind,exec_bind,request,request]

theorem failed_reply (failed : ((hevSocks5ServerAuth self).exec w).1 < 0) (stack : Request) :
    ((hevSocks5ServerHandshake self stack).exec w).2 = ((hevSocks5ServerAuth self).exec w).2 := by
  unfold hevSocks5ServerHandshake
  rw [exec_bind,if_pos failed]
  rfl

-- The first three bytes of a reply are its own.
theorem count_few {cut : Cut} (few : cut.count 22 ≤ 3) (rep : UInt8) (addr : SockaddrIn6) :
    (response rep addr).take (cut.count (response rep addr).length) = [version5,rep,0].take (cut.count 22) := by
  cases cut with
  | whole => exact absurd few (by simp [Cut.count])
  | stopped limit why =>
    have long : 10 ≤ (response rep addr).length := by
      rw [response_length]
      split <;> omega
    simp only [Cut.count] at few ⊢
    rw [Nat.min_eq_left (by omega),Nat.min_eq_left (by omega),response,List.take_append_of_le_length (by simp; omega)]

theorem count_many {cut : Cut} (many : 3 < cut.count 22) (rep : UInt8) (addr : SockaddrIn6) :
    ((response rep addr).take (cut.count (response rep addr).length))[3]? =
      some (if isV4Mapped addr.addr then addrTypeIpv4 else addrTypeIpv6) := by
  have long : 10 ≤ (response rep addr).length := by
    rw [response_length]
    split <;> omega
  have inside : 3 < cut.count (response rep addr).length := by
    cases cut with
    | whole => simp only [Cut.count]; omega
    | stopped limit why => simp only [Cut.count] at many ⊢; omega
  rw [List.getElem?_take_of_lt inside,response,hevSocks5AddrFromSockaddr6]
  split <;> rfl

def cleared : SockaddrIn6 := ⟨afInet6,Vector.replicate 2 0,Vector.replicate 16 0⟩

def shownAsIpv4 : SockaddrIn6 := ⟨afInet6,Vector.replicate 2 0,v4Mapped (Vector.replicate 4 0)⟩

theorem rejected_unsealed (passed : 0 ≤ ((hevSocks5ServerAuth self).exec w).1)
    (rejected : Rejected self ((hevSocks5ServerAuth self).exec w).2)
    (many : 3 < (((hevSocks5ServerAuth self).exec w).2.sends.headD .whole).count 22) : ¬Sealed self w := by
  intro sealed_
  obtain ⟨rep,touch,shown,reply⟩ := rejected_reply (by omega) rejected
  have same := sealed_ ⟨0,0,cleared⟩ ⟨0,0,shownAsIpv4⟩
  rw [reply,reply] at same
  have third := congrArg (·[3]?) (List.append_cancel_left same)
  simp only [count_many many,shown cleared rfl,shown shownAsIpv4 rfl] at third
  exact absurd third (by decide)

theorem sealed_iff (self : HevSocks5Server rbtree) (w : ServerWorld) : Sealed self w ↔
    (0 ≤ ((hevSocks5ServerAuth self).exec w).1 → Rejected self ((hevSocks5ServerAuth self).exec w).2 →
      (((hevSocks5ServerAuth self).exec w).2.sends.headD .whole).count 22 ≤ 3) := by
  constructor
  · intro sealed_ passed rejected
    by_contra many
    exact rejected_unsealed passed rejected (Nat.lt_of_not_le many) sealed_
  · intro few stack stack'
    by_cases failed : ((hevSocks5ServerAuth self).exec w).1 < 0
    · rw [failed_reply failed,failed_reply failed]
    by_cases rejected : Rejected self ((hevSocks5ServerAuth self).exec w).2
    · obtain ⟨rep,touch,_,reply⟩ := rejected_reply failed rejected
      rw [reply,reply,count_few (few (by omega) rejected),count_few (few (by omega) rejected)]
    · rw [settled_reply rejected stack stack']

-- No authenticator, and a request of version 4.
def openServer : HevSocks5Server Balanced.plain := ⟨3,.none,.unspec,(-1,-1),none⟩

theorem stack_shown : ¬Sealed openServer ⟨[5,1,0,4,1,0,1,9],[],[],obliging,0,[]⟩ := by
  refine rejected_unsealed (by decide) ?_ (by decide)
  exact ⟨4,1,0,1,9,rfl,rfl,.inl (by decide)⟩

end Psocks.Socks5
