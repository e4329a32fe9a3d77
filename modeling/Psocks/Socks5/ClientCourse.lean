import Psocks.Lib.Whole
import Psocks.Socks5.ClientModes
import Psocks.Socks5.Target

namespace Psocks.Socks5
open Program
variable {self : HevSocks5Client} {oracle : Nat → ClientQuery → Int} {turn : Nat} {target : Target}

-- The verdict a client waits for.
def HevSocks5Client.verdict (self : HevSocks5Client) : List (Act ClientQuery) :=
  if self.auth = none then [] else [.got 2 [authVersion1,resRepSucc]]

-- All that the credentials decide.
theorem bare_client (bare : self.auth = none) : self.method = authMethodNone ∧ self.credsSent = [] ∧ self.verdict = [] :=
  ⟨if_pos bare,by rw [HevSocks5Client.credsSent,bare],if_pos bare⟩

theorem keyed_client {user pass : CString} (keyed : self.auth = some (user,pass)) : self.method = authMethodUser ∧
    self.credsSent = [sentWhole (authCreds user pass)] ∧ self.verdict = [.got 2 [authVersion1,resRepSucc]] := by
  refine ⟨?_,by rw [HevSocks5Client.credsSent,keyed],?_⟩
  · rw [HevSocks5Client.method,keyed]
    rfl
  · rw [HevSocks5Client.verdict,keyed]
    rfl

theorem write_methods_does (self : HevSocks5Client) (oracle : Nat → ClientQuery → Int) (turn : Nat) :
    Does oracle turn (hevSocks5ClientWriteAuthMethods self) [sentWhole self.greeting] 0 := does_write oracle turn (by simp)

theorem write_creds_does (self : HevSocks5Client) (oracle : Nat → ClientQuery → Int) (turn : Nat) :
    Does oracle turn (hevSocks5ClientWriteAuthCreds self) self.credsSent 0 := by
  unfold hevSocks5ClientWriteAuthCreds HevSocks5Client.credsSent
  cases self.auth with
  | none => exact .done
  | some creds => exact does_write oracle turn (by simp [authCreds])

theorem write_request_does (self : HevSocks5Client) (oracle : Nat → ClientQuery → Int) (turn : Nat) :
    Does oracle turn (hevSocks5ClientWriteRequest self) [sentWhole self.request] 0 := by
  obtain ⟨cmd,addrlen,type,length⟩ := request_known self
  unfold hevSocks5ClientWriteRequest HevSocks5Client.request
  rw [type,length]
  exact does_write oracle turn (by simp)

theorem method_does (method : UInt8) (oracle : Nat → ClientQuery → Int) (turn : Nat) :
    Does oracle turn hevSocks5ClientReadAuthMethod [.got 2 [version5,method]] (method.toNat : Int) := by
  unfold hevSocks5ClientReadAuthMethod
  exact does_recv rfl .done

theorem creds_does (oracle : Nat → ClientQuery → Int) (turn : Nat) :
    Does oracle turn hevSocks5ClientReadAuthCreds [.got 2 [authVersion1,resRepSucc]] 0 := by
  unfold hevSocks5ClientReadAuthCreds
  exact does_recv rfl .done

theorem accepted_does (length : responseLength atype = some addr.length) (accepts : ∀ turn q, 0 ≤ oracle turn q) (turn : Nat) :
    Does oracle turn hevSocks5ClientReadResponse [.got 4 [version5,resRepSucc,0,atype],.got addr.length addr,
      .asked (.setUpstreamAddr (atype::addr))] 0 := by
  unfold hevSocks5ClientReadResponse
  refine does_recv rfl ?_
  simp only [Int.cast_ofNat_Int,ne_eq,not_true,if_false,length]
  refine does_recv rfl ?_
  simp only [not_true,if_false]
  refine does_ask ?_
  rw [if_neg (Int.not_lt.mpr (accepts turn (.setUpstreamAddr (atype::addr))))]
  exact .done

theorem refused_does (refuses : rep ≠ resRepSucc) (atype : UInt8) (oracle : Nat → ClientQuery → Int) (turn : Nat) :
    Does oracle turn hevSocks5ClientReadResponse [.got 4 [version5,rep,0,atype]] (-1) := by
  unfold hevSocks5ClientReadResponse
  refine does_recv rfl ?_
  simp only [Int.cast_ofNat_Int,ne_eq,not_true,if_false,refuses,not_false_eq_true,if_true]
  exact .done

-- What a client does with a reply.
theorem response_does (rep : UInt8) (saddr : SockaddrIn6) (accepts : ∀ turn q, 0 ≤ oracle turn q) : ∃ acts rest res,
    (∀ turn, Does oracle turn (do
      let res ← hevSocks5ClientReadResponse
      pure (if res < 0 then -1 else 0)) acts (res : Int)) ∧
    response rep saddr = heard acts++rest ∧ wire acts = [] ∧ (res = 0 ↔ rep = resRepSucc) ∧ (res = 0 → rest = []) := by
  obtain ⟨atype,addr,shown,length⟩ : ∃ atype addr, hevSocks5AddrFromSockaddr6 saddr = atype::addr ∧ responseLength atype = some addr.length := by
    unfold hevSocks5AddrFromSockaddr6
    split
    · exact ⟨_,_,rfl,by simp [responseLength]⟩
    · exact ⟨_,_,rfl,by simp [responseLength]; decide⟩
  by_cases succ : rep = resRepSucc
  · subst succ
    refine ⟨[.got 4 [version5,resRepSucc,0,atype],.got addr.length addr,.asked (.setUpstreamAddr (atype::addr))]++[],[],0,
      fun turn => does_bind (accepted_does length accepts turn) .done,?_,rfl,?_,fun _ => rfl⟩
    · simp [response,shown]
    · simp
  · refine ⟨[.got 4 [version5,rep,0,atype]]++[],addr,-1,fun turn => does_bind (refused_does succ atype oracle turn) .done,?_,rfl,?_,?_⟩
    · simp [response,shown]
    · exact iff_of_false (by decide) succ
    · intro zero
      cases zero

-- From the request on, both with and without credentials.
theorem request_does (self : HevSocks5Client) (ends : ∀ turn, Does oracle turn (do
      let res ← hevSocks5ClientReadResponse
      pure (if res < 0 then -1 else 0)) acts (res : Int)) (turn : Nat) : Does oracle turn (do
      let res ← hevSocks5ClientWriteRequest self
      if res < 0 then pure (-1)
      else
        let res ← hevSocks5ClientReadResponse
        pure (if res < 0 then -1 else 0)) ([sentWhole self.request]++acts) res := by
  refine does_bind (write_request_does self oracle turn) ?_
  rw [if_neg (Int.lt_irrefl 0)]
  exact ends _

theorem standard_does (self : HevSocks5Client) (ends : ∀ turn, Does oracle turn (do
      let res ← hevSocks5ClientReadResponse
      pure (if res < 0 then -1 else 0)) acts (res : Int)) :
    Does oracle 0 (hevSocks5ClientHandshakeStandard self) ([sentWhole self.greeting]++([.got 2 [version5,self.method]]++
      (self.credsSent++(self.verdict++([sentWhole self.request]++acts))))) res := by
  unfold hevSocks5ClientHandshakeStandard
  refine does_bind (write_methods_does self oracle 0) ?_
  rw [if_neg (Int.lt_irrefl 0)]
  refine does_bind (method_does self.method oracle _) ?_
  rw [if_neg (by omega)]
  cases auth : self.auth with
  | none =>
    obtain ⟨method,silent,unjudged⟩ := bare_client auth
    have other : ¬(authMethodNone.toNat : Int) = authMethodUser.toNat := by decide
    rw [method,silent,unjudged,if_neg other]
    refine does_bind .done ?_
    simp only [ne_eq,not_true,if_false,Int.lt_irrefl]
    exact request_does self ends _
  | some creds =>
    obtain ⟨method,_,judged⟩ := keyed_client auth
    rw [method,judged,if_pos rfl]
    refine does_bind (write_creds_does self oracle _) ?_
    rw [if_neg (Int.lt_irrefl 0)]
    refine does_bind (creds_does oracle _) ?_
    simp only [Int.lt_irrefl,if_false]
    exact request_does self ends _

theorem pipeline_does (self : HevSocks5Client) (ends : ∀ turn, Does oracle turn (do
      let res ← hevSocks5ClientReadResponse
      pure (if res < 0 then -1 else 0)) acts (res : Int)) :
    Does oracle 0 (hevSocks5ClientHandshakePipeline self) ([sentWhole self.greeting]++(self.credsSent++([sentWhole self.request]++
      ([.got 2 [version5,self.method]]++(self.verdict++acts))))) res := by
  unfold hevSocks5ClientHandshakePipeline
  refine does_bind (write_methods_does self oracle 0) ?_
  rw [if_neg (Int.lt_irrefl 0)]
  refine does_bind (write_creds_does self oracle _) ?_
  rw [if_neg (Int.lt_irrefl 0)]
  refine does_bind (write_request_does self oracle _) ?_
  rw [if_neg (Int.lt_irrefl 0)]
  refine does_bind (method_does self.method oracle _) ?_
  rw [if_neg (by omega)]
  cases auth : self.auth with
  | none =>
    obtain ⟨method,_,unjudged⟩ := bare_client auth
    have other : ¬(authMethodNone.toNat : Int) = authMethodUser.toNat := by decide
    rw [method,unjudged,if_neg other]
    refine does_bind .done ?_
    simp only [ne_eq,not_true,if_false,Int.lt_irrefl]
    exact ends _
  | some creds =>
    obtain ⟨method,_,judged⟩ := keyed_client auth
    rw [method,judged,if_pos rfl]
    refine does_bind (creds_does oracle _) ?_
    simp only [Int.lt_irrefl,if_false]
    exact ends _

end Psocks.Socks5
