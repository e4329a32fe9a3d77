import Psocks.Socks5.ClientModes

namespace Psocks.Socks5
open Program
variable {self : HevSocks5Client} {w : ClientWorld} {stream : List UInt8} {out : Int × ClientWorld} {rest : ClientProg Int}

def Act.size : Act Query → Option Nat
  | .got n _ => some n
  | _ => none

-- How many bytes each receive asked for.
def receives (trace : List (Act Query)) : List Nat := trace.filterMap Act.size

-- Whatever the sends, the pieces of the replies and set_upstream_addr do: a handshake
-- that succeeds was told the method that was offered, and without credentials the
-- second receive is not the one of a verdict, which is of two bytes.
def Selected (self : HevSocks5Client) (pipeline : Bool) (stream : List UInt8) : Prop :=
  ∀ w : ClientWorld, w.trace = [] → w.stream = stream →
    (((hevSocks5ClientHandshake self pipeline).exec w).1 = 0 → stream[1]? = some self.method) ∧
      (self.auth = none → ¬[2,2] <+: receives ((hevSocks5ClientHandshake self pipeline).exec w).2.trace)

-- The server neither asks for credentials that are not there nor goes on without those
-- that are.
def Honest (self : HevSocks5Client) (stream : List UInt8) : Prop :=
  if self.auth = none then ∀ rest, stream ≠ version5::authMethodUser::rest
  else ∀ rest, stream = version5::authMethodNone::rest → ¬Accepts rest

@[simp] theorem receives_append (a b : List (Act Query)) : receives (a++b) = receives a++receives b := List.filterMap_append

-- What the three writes have in common.
structure Writes (w : ClientWorld) (out : Int × ClientWorld) : Prop where
  res : out.1 = -1 ∨ out.1 = 0
  stream : out.2.stream = w.stream
  receives : receives out.2.trace = receives w.trace

theorem send_writes (w : ClientWorld) (data : List UInt8) : Writes w (Prog.exec (do
    let res ← send data
    pure (if res ≤ 0 then -1 else 0)) w) := by
  simp only [exec_send_bind,exec_pure]
  refine ⟨?_,rfl,by simp [World.put,receives,Act.size]⟩
  split
  · exact .inl rfl
  · exact .inr rfl

theorem methods_writes (self : HevSocks5Client) (w : ClientWorld) : Writes w ((hevSocks5ClientWriteAuthMethods self).exec w) := send_writes w _

theorem creds_writes (self : HevSocks5Client) (w : ClientWorld) : Writes w ((hevSocks5ClientWriteAuthCreds self).exec w) := by
  unfold hevSocks5ClientWriteAuthCreds
  cases self.auth with
  | none => exact ⟨.inr rfl,rfl,rfl⟩
  | some creds => exact send_writes w _

theorem request_writes (self : HevSocks5Client) (w : ClientWorld) : Writes w ((hevSocks5ClientWriteRequest self).exec w) := by
  unfold hevSocks5ClientWriteRequest
  split
  · exact send_writes w _
  · exact ⟨.inl rfl,rfl,rfl⟩

theorem recv_receives (n : Nat) (next : Int → List UInt8 → ClientProg Int) (w : ClientWorld) :
    ∃ more, receives ((Prog.recv n next).exec w).2.trace = receives w.trace++n::more := by
  obtain ⟨acts,later⟩ := exec_extends (next (w.take n).1 (w.take n).2.1) (w.take n).2.2
  refine ⟨receives acts,?_⟩
  show receives (((next _ _).exec _).2.trace) = _
  rw [later.trace]
  simp [World.take,receives,Act.size]

theorem read_method_receives (w : ClientWorld) :
    receives (hevSocks5ClientReadAuthMethod.exec w).2.trace = receives w.trace++[2] := by
  unfold hevSocks5ClientReadAuthMethod
  simp only [exec_recv_bind]
  have asked : receives (w.take 2).2.2.trace = receives w.trace++[2] := by simp [World.take,receives,Act.size]
  split
  · exact asked
  · split <;> exact asked

-- What comes behind a method that needs no credentials.
structure Ends (w : ClientWorld) (out : Int × ClientWorld) : Prop where
  accepts : out.1 = 0 → Accepts w.stream
  receives : ∃ more, receives out.2.trace = receives w.trace++more ∧ (more = [] ∨ more.head? = some 4)

theorem response_ends (w : ClientWorld) : Ends w (Prog.exec (do
    let res ← hevSocks5ClientReadResponse
    pure (if res < 0 then -1 else 0)) w) := by
  simp only [exec_bind,exec_pure]
  constructor
  · intro zero
    rcases read_response_cases w with refused | ⟨_,accepts⟩
    · rw [refused] at zero
      cases zero
    · exact accepts
  · obtain ⟨more,asked⟩ := recv_receives 4 _ w
    exact ⟨4::more,asked,.inr rfl⟩

theorem request_ends (self : HevSocks5Client) (w : ClientWorld) : Ends w (Prog.exec (do
    let res ← hevSocks5ClientWriteRequest self
    if res < 0 then pure (-1)
    else
      let res ← hevSocks5ClientReadResponse
      pure (if res < 0 then -1 else 0)) w) := by
  have writes := request_writes self w
  rw [exec_bind]
  split
  · exact ⟨fun zero => (by cases zero),[],by rw [List.append_nil]; exact writes.receives,.inl rfl⟩
  · have ends := response_ends ((hevSocks5ClientWriteRequest self).exec w).2
    exact ⟨fun zero => writes.stream ▸ ends.accepts zero,by rw [← writes.receives]; exact ends.receives⟩

-- What a handshake in either mode comes to.
structure Course (stream : List UInt8) (out : Int × ClientWorld) : Prop where
  chosen : out.1 = 0 → ∃ method rest, stream = version5::method::rest ∧ (method = authMethodUser ∨ method = authMethodNone ∧ Accepts rest)
  verdict : [2,2] <+: receives out.2.trace → ∃ rest, stream = version5::authMethodUser::rest

theorem failed_course (failed : out.1 = -1) (single : receives out.2.trace = [] ∨ receives out.2.trace = [2]) : Course stream out := by
  refine ⟨fun zero => (by rw [failed] at zero; cases zero),fun two => ?_⟩
  rcases single with none_ | one
  · rw [none_] at two
    exact absurd two (by decide)
  · rw [one] at two
    exact absurd two (by decide)

-- Both modes go on like this once they have sent what they send first.
def chooses (user rest : ClientProg Int) : ClientProg Int := do
  let res ← hevSocks5ClientReadAuthMethod
  if res < 0 then pure (-1)
  else if res = authMethodUser.toNat then user
  else
    let res ← pure (if res ≠ authMethodNone.toNat then -1 else 0)
    if res < 0 then pure (-1) else rest

theorem method_course (quiet : receives w.trace = []) (user : ClientProg Int) (ends : ∀ v, Ends v (rest.exec v)) :
    Course w.stream ((chooses user rest).exec w) := by
  have single := read_method_receives w
  rw [quiet,List.nil_append] at single
  unfold chooses
  rw [exec_bind]
  rcases read_method_cases w with refused | ⟨method,cut,chosen⟩
  · rw [refused]
    exact failed_course rfl (.inr single)
  rw [chosen,if_neg (by omega)]
  by_cases named : method = authMethodUser
  · subst named
    exact ⟨fun _ => ⟨_,_,cut,.inl rfl⟩,fun _ => ⟨_,cut⟩⟩
  have other : ¬(method.toNat : Int) = authMethodUser.toNat := fun same => named (UInt8.toNat_inj.mp (Int.ofNat_inj.mp same))
  rw [if_neg other,exec_bind,exec_pure]
  by_cases unknown : (method.toNat : Int) ≠ authMethodNone.toNat
  · simp only [if_pos unknown]
    exact failed_course rfl (.inr single)
  · have plain : method = authMethodNone := UInt8.toNat_inj.mp (Int.ofNat_inj.mp (not_not.mp unknown))
    simp only [if_neg unknown,Int.lt_irrefl,if_false]
    have last := ends (hevSocks5ClientReadAuthMethod.exec w).2
    refine ⟨fun zero => ⟨_,_,cut,.inr ⟨plain,last.accepts zero⟩⟩,fun two => ?_⟩
    obtain ⟨more,asked,shape⟩ := last.receives
    rw [single] at asked
    simp only [asked] at two
    obtain ⟨l,same⟩ := two
    have second : more = 2::l := (List.cons.inj same).2.symm
    rw [second] at shape
    rcases shape with none_ | four
    · cases none_
    · cases four

theorem handshake_course (self : HevSocks5Client) (pipeline : Bool) (start : w.trace = []) :
    Course w.stream ((hevSocks5ClientHandshake self pipeline).exec w) := by
  have quiet : receives w.trace = [] := by rw [start]; rfl
  have first := methods_writes self w
  have quiet := first.receives.trans quiet
  cases pipeline with
  | false =>
    show Course w.stream ((hevSocks5ClientHandshakeStandard self).exec w)
    unfold hevSocks5ClientHandshakeStandard
    rw [exec_bind]
    split
    · exact failed_course rfl (.inl quiet)
    · rw [← first.stream]
      exact method_course quiet _ (request_ends self)
  | true =>
    show Course w.stream ((hevSocks5ClientHandshakePipeline self).exec w)
    unfold hevSocks5ClientHandshakePipeline
    rw [exec_bind]
    split
    · exact failed_course rfl (.inl quiet)
    rw [exec_bind]
    have second := creds_writes self ((hevSocks5ClientWriteAuthMethods self).exec w).2
    have quiet := second.receives.trans quiet
    split
    · exact failed_course rfl (.inl quiet)
    rw [exec_bind]
    have third := request_writes self ((hevSocks5ClientWriteAuthCreds self).exec ((hevSocks5ClientWriteAuthMethods self).exec w).2).2
    have quiet := third.receives.trans quiet
    split
    · exact failed_course rfl (.inl quiet)
    · rw [← first.stream,← second.stream,← third.stream]
      exact method_course quiet _ response_ends

-- Replies that come whole, sends that go whole, an address that is taken.
def plain (stream : List UInt8) : ClientWorld := ⟨stream,[],[],fun _ _ => 0,0,[]⟩

theorem plain_fresh (stream : List UInt8) : Fresh (plain stream) := ⟨rfl,rfl⟩

theorem plain_take (data rest : List UInt8) (acts : List (Act ClientQuery)) :
    ((plain (data++rest)).behind acts).take data.length =
      ((data.length : Int),data,(plain rest).behind (acts++[.got data.length data])) := by
  rw [take_whole rfl (by simp [plain])]
  simp [plain,World.behind]

theorem plain_method (method : UInt8) (acts : List (Act ClientQuery)) (rest : List UInt8) :
    hevSocks5ClientReadAuthMethod.exec ((plain (version5::method::rest)).behind acts) =
      ((method.toNat : Int),(plain rest).behind (acts++[.got 2 [version5,method]])) := by
  unfold hevSocks5ClientReadAuthMethod
  have first := plain_take [version5,method] rest acts
  rw [exec_recv_bind]
  simp only [List.cons_append,List.nil_append,List.length_cons,List.length_nil,Nat.zero_add,Nat.reduceAdd] at first
  simp only [first,Int.cast_ofNat_Int,ne_eq,not_true,if_false,exec_pure]

theorem plain_response (acts : List (Act ClientQuery)) (rest : List UInt8) (accepts : Accepts rest) :
    (hevSocks5ClientReadResponse.exec ((plain rest).behind acts)).1 = 0 := by
  obtain ⟨rsv,atype,addr,rest,rfl,length⟩ := accepts
  have first := plain_take [version5,resRepSucc,rsv,atype] (addr++rest) acts
  have second := plain_take addr rest (acts++[.got 4 [version5,resRepSucc,rsv,atype]])
  unfold hevSocks5ClientReadResponse
  rw [exec_recv_bind]
  simp only [List.cons_append,List.nil_append,List.length_cons,List.length_nil,Nat.zero_add,Nat.reduceAdd] at first
  simp only [first,Int.cast_ofNat_Int,ne_eq,not_true,if_false,length,exec_recv_bind,second,exec_ask_bind,exec_pure]
  rfl

theorem recv_again (next : Int → List UInt8 → ClientProg Int) (w : ClientWorld) (one : receives w.trace = [2]) :
    [2,2] <+: receives ((Prog.recv 2 next).exec w).2.trace := by
  obtain ⟨more,asked⟩ := recv_receives 2 next w
  rw [asked,one]
  exact ⟨more,rfl⟩

-- Without credentials a server that asks for them is believed.
theorem verdict_awaited (self : HevSocks5Client) (pipeline : Bool) (open_ : self.auth = none) (rest : List UInt8) :
    [2,2] <+: receives ((hevSocks5ClientHandshake self pipeline).exec (plain (version5::authMethodUser::rest))).2.trace := by
  have fresh := plain_fresh (version5::authMethodUser::rest)
  have start : plain (version5::authMethodUser::rest) = (plain (version5::authMethodUser::rest)).behind [] := by simp [World.behind]
  have silent : self.credsSent = [] := by rw [HevSocks5Client.credsSent,open_]
  have user : ¬(authMethodUser.toNat : Int) < 0 := by decide
  rw [start]
  cases pipeline with
  | false =>
    show [2,2] <+: receives ((hevSocks5ClientHandshakeStandard self).exec _).2.trace
    unfold hevSocks5ClientHandshakeStandard
    rw [exec_bind,methods_whole fresh]
    simp only [Int.lt_irrefl,if_false]
    rw [exec_bind,plain_method]
    simp only [user,if_false,if_true]
    rw [exec_bind,creds_whole (plain_fresh _),silent]
    simp only [Int.lt_irrefl,if_false]
    exact recv_again _ _ rfl
  | true =>
    show [2,2] <+: receives ((hevSocks5ClientHandshakePipeline self).exec _).2.trace
    unfold hevSocks5ClientHandshakePipeline
    rw [exec_bind,methods_whole fresh]
    simp only [Int.lt_irrefl,if_false]
    rw [exec_bind,creds_whole fresh,silent]
    simp only [Int.lt_irrefl,if_false]
    rw [exec_bind,request_whole fresh]
    simp only [Int.lt_irrefl,if_false]
    rw [exec_bind,plain_method]
    simp only [user,if_false,if_true]
    exact recv_again _ _ rfl

-- With credentials a server that wants none is believed.
theorem method_ignored (self : HevSocks5Client) (pipeline : Bool) (rest : List UInt8) (accepts : Accepts rest) :
    ((hevSocks5ClientHandshake self pipeline).exec (plain (version5::authMethodNone::rest))).1 = 0 := by
  have fresh := plain_fresh (version5::authMethodNone::rest)
  have start : plain (version5::authMethodNone::rest) = (plain (version5::authMethodNone::rest)).behind [] := by simp [World.behind]
  have chosen : (authMethodNone.toNat : Int) = 0 := rfl
  have other : ¬(0 : Int) = authMethodUser.toNat := by decide
  rw [start]
  cases pipeline with
  | false =>
    show ((hevSocks5ClientHandshakeStandard self).exec _).1 = 0
    unfold hevSocks5ClientHandshakeStandard
    simp only [exec_bind,exec_pure,methods_whole fresh,Int.lt_irrefl,if_false,plain_method,chosen,other,
      request_whole (plain_fresh _),ne_eq,not_true,plain_response _ rest accepts]
  | true =>
    show ((hevSocks5ClientHandshakePipeline self).exec _).1 = 0
    unfold hevSocks5ClientHandshakePipeline
    simp only [exec_bind,exec_pure,methods_whole fresh,creds_whole fresh,request_whole fresh,Int.lt_irrefl,if_false,plain_method,
      chosen,other,ne_eq,not_true,plain_response _ rest accepts]

theorem selected_iff (self : HevSocks5Client) (pipeline : Bool) (stream : List UInt8) :
    Selected self pipeline stream ↔ Honest self stream := by
  constructor
  · intro selected
    have course := selected (plain stream) rfl rfl
    unfold Honest
    split
    · rename_i open_
      rintro rest rfl
      exact course.2 open_ (verdict_awaited self pipeline open_ rest)
    · rename_i closed
      rintro rest rfl accepts
      have same := course.1 (method_ignored self pipeline rest accepts)
      rw [HevSocks5Client.method,if_neg closed] at same
      exact absurd (Option.some.inj same) (by decide)
  · rintro honest w start rfl
    have course := handshake_course self pipeline start
    unfold Honest at honest
    constructor
    · intro zero
      obtain ⟨method,rest,stream,chosen⟩ := course.chosen zero
      rw [stream,HevSocks5Client.method]
      split at honest
      · rename_i open_
        rw [if_pos open_]
        rcases chosen with user | ⟨none_,_⟩
        · rw [user] at stream
          exact (honest rest stream).elim
        · rw [none_]
          rfl
      · rename_i closed
        rw [if_neg closed]
        rcases chosen with user | ⟨none_,accepts⟩
        · rw [user]
          rfl
        · rw [none_] at stream
          exact (honest rest stream accepts).elim
    · intro open_ two
      rw [if_pos open_] at honest
      obtain ⟨rest,stream⟩ := course.verdict two
      exact honest rest stream

theorem method_unasked : ¬Selected member true [5,0,5,0,0,1,1,2,3,4,0,80] := by
  intro selected
  have done := method_ignored member true [5,0,0,1,1,2,3,4,0,80] ⟨0,1,[1,2,3,4,0,80],[],rfl,rfl⟩
  exact absurd ((selected (plain _) rfl rfl).1 done) (by decide)

end Psocks.Socks5
