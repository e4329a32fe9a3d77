import Psocks.Socks5.ServerAuth
import Psocks.Socks5.Target

namespace Psocks.Socks5
open Program SearchTree
variable {rbtree : Balanced HevSocks5User} {self : HevSocks5Server rbtree} {auth : HevSocks5Authenticator rbtree}
variable {oracle : Nat → (q : ServerQuery) → ServerAnswer q} {target : Target} {first : List (Act ServerQuery)}

-- The request is the one for this target: its address is the target's, that of a name
-- what hev_socks5_name_into_sockaddr6 makes of just this name and port.
structure Decoded (oracle : Nat → (q : ServerQuery) → ServerAnswer q) (cmd : UInt8) (target : Target) (stack : Request)
    (family : HevSocks5AddrFamily) (request : Request) (log : List ServerQuery) : Prop where
  request : request =
    let found := ((target.into stack.addr family).exec (still oracle 0 [] [])).1
    if found.1 < 0 then ⟨stack.cmd,resRepAddr,found.2.1⟩ else ⟨cmd,resRepSucc,found.2.1⟩
  called : asked ((target.into stack.addr family).exec (still oracle 0 [] [])).2.trace <+: log

theorem received_silent {acts : List (Act ServerQuery)} (received : ∀ act ∈ acts, act.Received) : wire acts = [] := by
  refine List.flatMap_eq_nil_iff.mpr fun act inside => ?_
  cases act with
  | got n data => rfl
  | put data n => exact (received _ inside).elim
  | asked q => exact (received _ inside).elim

theorem auth_open_does (unset : self.auth = none) (oracle : Nat → (q : ServerQuery) → ServerAnswer q)
    (greeting : Greeting authMethodNone data) : ∃ reads, Does oracle 0 (hevSocks5ServerAuth self)
      (reads++[.put [version5,authMethodNone] 2]) 0 ∧ heard reads = data ∧ ∀ act ∈ reads, act.Received := by
  have method : self.method = authMethodNone := by simp [HevSocks5Server.method,unset]
  obtain ⟨reads,does,hears,received⟩ := read_method_does oracle 0 (method.symm ▸ greeting)
  rw [method] at does
  refine ⟨reads,?_,hears,received⟩
  unfold hevSocks5ServerAuth
  refine does_bind does ?_
  exact does_send .done

theorem auth_user_does (set : self.auth = some auth) (oracle : Nat → (q : ServerQuery) → ServerAnswer q)
    (greeting : Greeting authMethodUser data) (negotiation : Negotiation auth.users more) :
    ∃ reads reads', Does oracle 0 (hevSocks5ServerAuth self)
      (reads++(.put [version5,authMethodUser] 2::(reads'++[.put [authVersion1,0] 2]))) 0 ∧
      (heard reads = data ∧ ∀ act ∈ reads, act.Received) ∧ heard reads' = more ∧ ∀ act ∈ reads', act.Received := by
  have method : self.method = authMethodUser := by simp [HevSocks5Server.method,set]
  obtain ⟨reads,does,hears,received⟩ := read_method_does oracle 0 (method.symm ▸ greeting)
  obtain ⟨reads',does',hears',received'⟩ := read_user_does oracle 0 set negotiation
  rw [method] at does
  refine ⟨reads,reads',?_,⟨hears,received⟩,hears',received'⟩
  unfold hevSocks5ServerAuth
  refine does_bind does ?_
  rw [(received_quiet received).1]
  have goes : Does oracle 0 (hevSocks5ServerWriteAuthMethod authMethodUser.toNat) [.put [version5,authMethodUser] 2] 0 := does_send .done
  refine does_bind goes ?_
  have other : ¬(authMethodUser.toNat : Int) = authMethodNone.toNat := by decide
  rw [if_neg (Int.lt_irrefl 0),if_neg other,if_pos rfl]
  refine does_bind does' ?_
  rw [(received_quiet received').1]
  have told : Does oracle 0 (hevSocks5ServerWriteAuthUser 0) [.put [authVersion1,0] 2] 0 := does_send .done
  refine does_bind told .done

-- A handshake behind its authentication: the request, what it takes to serve it, the
-- reply.
theorem server_does (passed : Does oracle 0 (hevSocks5ServerAuth self) first 0) (silent : asked first = []) (fits : target.Fits)
    (cmd : UInt8) (stack : Request) : ∃ acts addr out, Does oracle 0 (hevSocks5ServerHandshake self stack)
      (first++(acts++[.put (response out.rep addr) (response out.rep addr).length])) out ∧
      heard acts = [version5,cmd,0]++target.bytes ∧ wire acts = [] ∧ (out.res = 0 ↔ out.rep = resRepSucc) ∧
      Decoded oracle cmd target stack self.addrFamily out.request (asked acts) := by
  obtain ⟨atype,len,addr,layout,length,reads⟩ := target_request target fits
  obtain ⟨call,resolves,trace,hears,quiet⟩ := asks_does (into_local target stack.addr self.addrFamily) oracle 0 []
  generalize found : ((target.into stack.addr self.addrFamily).exec (still oracle 0 [] [])).1 = answer at resolves
  obtain ⟨res,saddr,family⟩ := answer
  have into : Does oracle 0 (hevSocks5AddrIntoSockaddr6 (atype::len::addr) ({stack with rep:=resRepSucc} : Request).addr self.addrFamily)
      call (res,saddr,family) := by
    rw [reads]
    exact resolves
  have request : ∃ request other, Does oracle 0 (hevSocks5ServerReadRequest self {stack with rep:=resRepSucc})
      (.got 5 [version5,cmd,0,atype,len]::.got addr.length addr::call) (0,request,other) ∧
      request = if res < 0 then ⟨stack.cmd,resRepAddr,saddr⟩ else ⟨cmd,resRepSucc,saddr⟩ := by
    have does := read_request_does cmd 0 length into
    by_cases failed : res < 0
    · rw [if_pos failed] at does ⊢
      exact ⟨_,_,does,rfl⟩
    · rw [if_neg failed] at does ⊢
      exact ⟨_,_,does,rfl⟩
  obtain ⟨request,other,does,decoded⟩ := request
  obtain ⟨serving,serves,_,hears',quiet'⟩ := asks_does (serve_local other request) oracle (0+(asked call).length) []
  generalize ((hevSocks5ServerServe other request).exec (still oracle (0+(asked call).length) [] [])).1 = served at serves
  obtain ⟨rep,shown,last⟩ := served
  refine ⟨.got 5 [version5,cmd,0,atype,len]::.got addr.length addr::(call++serving),shown,
    ⟨if rep ≠ resRepSucc then -1 else 0,request,rep,last⟩,?_,?_,?_,?_,?_⟩
  · unfold hevSocks5ServerHandshake
    refine does_bind passed ?_
    rw [silent,if_neg (Int.lt_irrefl 0)]
    have parts : .got 5 [version5,cmd,0,atype,len]::.got addr.length addr::(call++serving)++
        [.put (response rep shown) (response rep shown).length] = (.got 5 [version5,cmd,0,atype,len]::.got addr.length addr::call)++
        (serving++[.put (response rep shown) (response rep shown).length]) := by simp
    rw [parts]
    refine does_bind does ?_
    simp only [Int.lt_irrefl,if_false]
    refine does_bind serves ?_
    have some_ : 0 < (response rep shown).length := by
      rw [response_length]
      split <;> omega
    have replied := fun turn => does_write oracle turn some_
    rw [← List.append_nil [Act.put _ _]]
    refine does_bind (replied _) ?_
    simp only [Int.lt_irrefl,false_or]
    exact .done
  · simp [hears,hears',layout]
  · simp [quiet,quiet']
  · simp only
    split
    · rename_i wrong
      exact iff_of_false (by decide) wrong
    · rename_i right
      exact iff_of_true rfl (not_not.mp right)
  · refine ⟨?_,?_⟩
    · simp only [found]
      exact decoded
    · rw [trace]
      simp

end Psocks.Socks5
