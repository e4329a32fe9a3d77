import Psocks.Lib.Whole
import Psocks.Socks5.Server

namespace Psocks.Socks5
open Program SearchTree
variable {rbtree : Balanced HevSocks5User} {self : HevSocks5Server rbtree} {auth : HevSocks5Authenticator rbtree}
variable {w : ServerWorld} {users : List HevSocks5User}

-- The method the server asks for.
def HevSocks5Server.method (self : HevSocks5Server rbtree) : UInt8 := if self.auth.isSome then authMethodUser else authMethodNone

-- A greeting that lists the method.
def Greeting (method : UInt8) (data : List UInt8) : Prop :=
  ∃ len methods, data = version5::len::methods ∧ methods.length = len.toNat ∧ method ∈ methods

-- A sub-negotiation with the name and the password of one of the users, neither empty.
def Negotiation (users : List HevSocks5User) (data : List UInt8) : Prop :=
  ∃ nlen plen name pass, data = authVersion1::nlen::(name++plen::pass) ∧ name.length = nlen.toNat ∧ pass.length = plen.toNat ∧
    nlen ≠ 0 ∧ plen ≠ 0 ∧ ⟨name,pass⟩ ∈ users

def Authenticated (users : List HevSocks5User) (stream : List UInt8) : Prop :=
  ∃ greeting negotiation rest, stream = greeting++negotiation++rest ∧ Greeting authMethodUser greeting ∧
    Negotiation users negotiation

theorem greeting_unique (one : Greeting method a) (two : Greeting method b) (same : a++x = b++y) : a = b ∧ x = y := by
  obtain ⟨len,methods,rfl,size,_⟩ := one
  obtain ⟨len',methods',rfl,size',_⟩ := two
  simp only [List.cons_append,List.cons.injEq,true_and] at same
  obtain ⟨rfl,same⟩ := same
  obtain ⟨rfl,tail⟩ := List.append_inj same (size.trans size'.symm)
  exact ⟨rfl,tail⟩

theorem negotiation_some (negotiation : Negotiation users data) : data ≠ [] := by
  obtain ⟨_,_,_,_,rfl,_⟩ := negotiation
  exact List.cons_ne_nil _ _

theorem byte_count {n : Nat} (fits : 0 < n ∧ n < 256) : (UInt8.ofNat n).toNat = n ∧ UInt8.ofNat n ≠ 0 := by
  have same : (UInt8.ofNat n).toNat = n := UInt8.toNat_ofNat_of_lt' fits.2
  refine ⟨same,fun zero => ?_⟩
  rw [zero,UInt8.toNat_zero] at same
  omega

theorem encoded_negotiation {name pass : List UInt8} (named : 0 < name.length ∧ name.length < 256)
    (passed : 0 < pass.length ∧ pass.length < 256) (member : ⟨name,pass⟩ ∈ users) :
    Negotiation users (authVersion1::UInt8.ofNat name.length::(name++UInt8.ofNat pass.length::pass)) := by
  obtain ⟨nsize,nzero⟩ := byte_count named
  obtain ⟨psize,pzero⟩ := byte_count passed
  exact ⟨_,_,name,pass,rfl,nsize.symm,psize.symm,nzero,pzero,member⟩

theorem read_method_strict (self : HevSocks5Server rbtree) : (hevSocks5ServerReadAuthMethod self).Strict (-1) := by
  unfold hevSocks5ServerReadAuthMethod
  refine strict_recv (fun res data short => if_pos short) (fun zero => by cases zero) fun auth => ?_
  simp only [Int.cast_ofNat_Int,ne_eq,not_true,if_false]
  split
  · rename_i ver methodLen
    split
    · trivial
    · refine strict_recv (fun res data short => if_pos short) (fun zero => ?_) fun methods => ?_
      · simp only [zero]
        simp
        rfl
      · simp only [not_true,if_false]
        trivial
  · trivial

theorem read_user_strict (self : HevSocks5Server rbtree) : (hevSocks5ServerReadAuthUser self).Strict (-1) := by
  unfold hevSocks5ServerReadAuthUser
  refine strict_recv (fun res data short => if_pos short) (fun zero => by cases zero) fun head => ?_
  simp only [Int.cast_ofNat_Int,ne_eq,not_true,if_false]
  split
  · rename_i ver nlen
    split
    · trivial
    split
    · trivial
    refine strict_recv (fun res data short => if_pos short) (fun zero => by cases zero) fun name => ?_
    simp only [Int.natCast_add,Int.cast_ofNat_Int,not_true,if_false]
    split
    · trivial
    · rename_i plen
      refine strict_recv (fun res data short => if_pos short) (fun zero => ?_) fun pass => ?_
      · exact (plen (UInt8.toNat_inj.mp zero)).elim
      · simp only [not_true,if_false]
        split <;> trivial
  · trivial

theorem read_method_does (oracle : Nat → (q : ServerQuery) → ServerAnswer q) (turn : Nat) (greeting : Greeting self.method data) :
    ∃ acts, Does oracle turn (hevSocks5ServerReadAuthMethod self) acts (self.method.toNat : Int) ∧ heard acts = data ∧
      ∀ act ∈ acts, act.Received := by
  obtain ⟨len,methods,rfl,size,listed⟩ := greeting
  refine ⟨[.got 2 [version5,len],.got len.toNat methods],?_,by simp,by simp [Act.Received]⟩
  unfold hevSocks5ServerReadAuthMethod
  refine does_recv rfl ?_
  simp only [Int.cast_ofNat_Int,ne_eq,not_true,if_false]
  refine does_recv size ?_
  simp only [not_true,if_false]
  unfold HevSocks5Server.method at listed ⊢
  rw [if_pos listed]
  exact .done

theorem read_user_does (oracle : Nat → (q : ServerQuery) → ServerAnswer q) (turn : Nat) (set : self.auth = some auth)
    (negotiation : Negotiation auth.users data) :
    ∃ acts, Does oracle turn (hevSocks5ServerReadAuthUser self) acts 0 ∧ heard acts = data ∧ ∀ act ∈ acts, act.Received := by
  obtain ⟨nlen,plen,name,pass,rfl,nsize,psize,named,passed,member⟩ := negotiation
  refine ⟨[.got 2 [authVersion1,nlen],.got (nlen.toNat+1) (name++[plen]),.got plen.toNat pass],?_,by simp,
    by simp [Act.Received]⟩
  have user : hevSocks5AuthenticatorGet auth name = some ⟨name,pass⟩ := (authenticator_get auth).mpr ⟨member,rfl⟩
  unfold hevSocks5ServerReadAuthUser
  refine does_recv rfl ?_
  simp only [Int.cast_ofNat_Int,ne_eq,not_true,if_false,named]
  refine does_recv (by simp [nsize]) ?_
  have second : (name++[plen]).getD nlen.toNat 0 = plen := by simp [← nsize]
  have first : (name++[plen]).take nlen.toNat = name := List.take_left' nsize
  simp only [Int.natCast_add,Int.cast_ofNat_Int,not_true,if_false,second,first,passed]
  refine does_recv psize ?_
  simp only [not_true,if_false,set,Option.bind_some,user]
  simp [hevSocks5UserChecker]
  exact .done

theorem greeting_read (self : HevSocks5Server rbtree) (w : ServerWorld) : ((hevSocks5ServerReadAuthMethod self).exec w).1 = -1 ∨
    ((hevSocks5ServerReadAuthMethod self).exec w).1 = self.method.toNat ∧
      ∃ data, Greeting self.method data ∧ w.stream = data++((hevSocks5ServerReadAuthMethod self).exec w).2.stream := by
  unfold hevSocks5ServerReadAuthMethod
  simp only [exec_recv_bind]
  by_cases short : (w.take 2).1 ≠ 2
  · rw [if_pos short]
    exact .inl rfl
  rw [if_neg short]
  have cut := take_stream w 2
  split
  · rename_i ver len data
    split
    · exact .inl rfl
    rename_i version
    simp only [exec_recv_bind]
    generalize (w.take 2).2.2 = later at cut ⊢
    by_cases cutOff : (later.take len.toNat).1 ≠ len.toNat
    · rw [if_pos cutOff]
      exact .inl rfl
    rw [if_neg cutOff]
    have size := take_all (not_not.mp cutOff)
    simp only [exec_pure]
    by_cases listed : (if self.auth.isSome then authMethodUser else authMethodNone) ∈ (later.take len.toNat).2.1
    · rw [if_pos listed]
      refine .inr ⟨rfl,_,⟨len,_,rfl,size,listed⟩,?_⟩
      rw [cut,data,take_stream later len.toNat,not_not.mp version]
      rfl
    · exact .inl (if_neg listed)
  · exact .inl rfl

theorem split_last {name : List UInt8} (size : name.length = n+1) : name = name.take n++[name.getD n 0] := by
  obtain ⟨front,last,rfl⟩ : ∃ front last, name = front++[last] := by
    rcases List.eq_nil_or_concat name with rfl | ⟨front,last,rfl⟩
    · cases size
    · exact ⟨front,last,by simp⟩
  have inside : front.length = n := by simpa using size
  simp [← inside]

theorem checker_pass {user : HevSocks5User} {pass : List UInt8} (right : ¬hevSocks5UserChecker user pass < 0) : user.pass = pass := by
  unfold hevSocks5UserChecker at right
  split at right
  · omega
  split at right
  · omega
  · rename_i same
    exact not_not.mp same

theorem negotiation_read (self : HevSocks5Server rbtree) (w : ServerWorld) (set : self.auth = some auth) :
    ((hevSocks5ServerReadAuthUser self).exec w).1 = -1 ∨
    ((hevSocks5ServerReadAuthUser self).exec w).1 = 0 ∧
      ∃ data, Negotiation auth.users data ∧ w.stream = data++((hevSocks5ServerReadAuthUser self).exec w).2.stream := by
  unfold hevSocks5ServerReadAuthUser
  simp only [exec_recv_bind]
  by_cases short : (w.take 2).1 ≠ 2
  · rw [if_pos short]
    exact .inl rfl
  rw [if_neg short]
  have cut := take_stream w 2
  split
  · rename_i ver nlen data
    split
    · exact .inl rfl
    rename_i version
    split
    · exact .inl rfl
    rename_i named
    simp only [exec_recv_bind]
    generalize (w.take 2).2.2 = second at cut ⊢
    by_cases cutOff : (second.take (nlen.toNat+1)).1 ≠ (nlen.toNat : Int)+1
    · rw [if_pos cutOff]
      exact .inl rfl
    rw [if_neg cutOff]
    have size : (second.take (nlen.toNat+1)).2.1.length = nlen.toNat+1 := take_all (not_not.mp cutOff)
    have cutTwo := take_stream second (nlen.toNat+1)
    generalize (second.take (nlen.toNat+1)).2.2 = third at cutTwo ⊢
    generalize (second.take (nlen.toNat+1)).2.1 = name at size cutTwo ⊢
    split
    · exact .inl rfl
    rename_i passed
    simp only [exec_recv_bind]
    by_cases cutAgain : (third.take (name.getD nlen.toNat 0).toNat).1 ≠ (name.getD nlen.toNat 0).toNat
    · rw [if_pos cutAgain]
      exact .inl rfl
    rw [if_neg cutAgain]
    have psize := take_all (not_not.mp cutAgain)
    have cutThree := take_stream third (name.getD nlen.toNat 0).toNat
    generalize (third.take (name.getD nlen.toNat 0).toNat).2.2 = last at cutThree ⊢
    generalize (third.take (name.getD nlen.toNat 0).toNat).2.1 = pass at psize cutThree ⊢
    rw [set,Option.bind_some]
    split
    · exact .inl rfl
    rename_i user got
    simp only [exec_pure]
    by_cases wrong : hevSocks5UserChecker user pass < 0
    · exact .inl (if_pos wrong)
    rw [if_neg wrong]
    obtain ⟨member,same⟩ := (authenticator_get auth).mp got
    refine .inr ⟨rfl,_,⟨nlen,name.getD nlen.toNat 0,name.take nlen.toNat,pass,rfl,?_,psize,named,passed,?_⟩,?_⟩
    · rw [List.length_take,size]
      omega
    · rwa [← same,← checker_pass wrong]
    · rw [cut,data,cutTwo,cutThree,not_not.mp version]
      have whole := split_last size
      generalize name.getD nlen.toNat 0 = plen at whole ⊢
      rw [whole,List.take_left' (by rw [List.length_take]; omega)]
      simp
  · exact .inl rfl

-- The sub-negotiation is told to have succeeded.
def Verdict (acts : List (Act ServerQuery)) : Prop := ∃ n, Act.put [authVersion1,0] n ∈ acts

theorem received_quiet {acts : List (Act ServerQuery)} (received : ∀ act ∈ acts, act.Received) : asked acts = [] ∧ ¬Verdict acts := by
  constructor
  · refine List.filterMap_eq_nil_iff.mpr fun act inside => ?_
    cases act with
    | got n data => rfl
    | put data n => exact (received _ inside).elim
    | asked q => exact (received _ inside).elim
  · rintro ⟨n,inside⟩
    exact received _ inside

-- Every message is of two bytes.
def Brief (acts : List (Act ServerQuery)) : Prop := ∀ data n, Act.put data n ∈ acts → data.length = 2

theorem brief_append {a b : List (Act ServerQuery)} (one : Brief a) (two : Brief b) : Brief (a++b) :=
  fun data n inside => (List.mem_append.mp inside).elim (one data n) (two data n)

theorem brief_put {data : List UInt8} (two : data.length = 2) (n : Nat) : Brief [.put data n] := by
  intro other count inside
  cases List.mem_singleton.mp inside
  exact two

theorem brief_received {acts : List (Act ServerQuery)} (received : ∀ act ∈ acts, act.Received) : Brief acts :=
  fun _ _ inside => (received _ inside).elim

-- A write of one message: what it comes to, and what it does.
structure Wrote (w : ServerWorld) (data : List UInt8) (out : Int × ServerWorld) : Prop where
  res : out.1 = if (w.sends.headD .whole).count data.length = 0 then -1 else 0
  extends_ : Extends w out.2 [.put data ((w.sends.headD .whole).count data.length)]
  sends : out.2.sends = w.sends.tail

theorem result_pos (cut : Cut) (count : Nat) : cut.result count ≤ 0 ↔ count = 0 := by
  cases cut with
  | whole => exact ⟨fun low => by simp only [Cut.result] at low; omega,fun zero => by simp only [Cut.result]; omega⟩
  | stopped limit why =>
    simp only [Cut.result]
    split
    · rename_i zero
      refine ⟨fun _ => zero,fun _ => ?_⟩
      cases why <;> decide
    · omega

theorem Wrote.zero_or (wrote : Wrote w data out) : out.1 = 0 ∨ out.1 = -1 := by
  rw [wrote.res]
  split
  · exact .inr rfl
  · exact .inl rfl

theorem send_wrote (w : ServerWorld) (data : List UInt8) : Wrote w data (Prog.exec (do
    let res ← send data
    pure (if res ≤ 0 then -1 else 0)) w) := by
  rw [exec_send_bind,exec_pure]
  refine ⟨?_,⟨rfl,rfl,rfl⟩,rfl⟩
  have zero := result_pos (w.sends.headD .whole) ((w.sends.headD .whole).count data.length)
  exact if_congr zero rfl rfl

-- What the authentication does, to a server that has an authenticator.
structure AuthRun (users : List HevSocks5User) (w : ServerWorld) (out : Int × ServerWorld) (acts : List (Act ServerQuery)) :
    Prop where
  extends_ : Extends w out.2 acts
  quiet : asked acts = []
  told : Verdict acts ↔ Authenticated users (heard acts)
  brief : Brief acts
  res : out.1 = 0 ∨ out.1 = -1
  passed : out.1 = 0 → Authenticated users (heard acts) ∧ (w.sends.headD .whole).count 2 ≠ 0 ∧
    (w.sends.tail.headD .whole).count 2 ≠ 0 ∧ out.2.sends = w.sends.tail.tail

-- What a read that gave up has heard is not what it waited for.
theorem greeting_missed (listens : Extends w ((hevSocks5ServerReadAuthMethod self).exec w).2 acts)
    (refused : ((hevSocks5ServerReadAuthMethod self).exec w).1 = -1) (greeting : Greeting self.method data) :
    heard acts ≠ data++rest := by
  intro same
  obtain ⟨complete,does,hears,_⟩ := read_method_does w.oracle w.turn greeting
  have chosen := strict_does (read_method_strict self) does w listens.trace (by rw [same,hears])
  rw [refused] at chosen
  omega

theorem negotiation_missed (set : self.auth = some auth) (listens : Extends w ((hevSocks5ServerReadAuthUser self).exec w).2 acts)
    (refused : ((hevSocks5ServerReadAuthUser self).exec w).1 = -1) (negotiation : Negotiation auth.users data) :
    heard acts ≠ data++rest := by
  intro same
  obtain ⟨complete,does,hears,_⟩ := read_user_does w.oracle w.turn set negotiation
  have chosen := strict_does (read_user_strict self) does w listens.trace (by rw [same,hears])
  rw [refused] at chosen
  cases chosen

theorem greeting_heard (listens : Extends w out acts) (cut : w.stream = data++out.stream) : heard acts = data :=
  List.append_cancel_right (listens.stream.symm.trans cut)

theorem verdict_append (a b : List (Act ServerQuery)) : Verdict (a++b) ↔ Verdict a ∨ Verdict b := by
  simp only [Verdict,List.mem_append,exists_or]

theorem verdict_put (data : List UInt8) (n : Nat) : Verdict [.put data n] ↔ data = [authVersion1,0] := by
  simp [Verdict,eq_comm]

theorem failed_run (before : Extends w v acts) (quiet : asked acts = []) (untold : ¬Verdict acts) (brief : Brief acts)
    (unlike_ : ¬Authenticated users (heard acts)) : AuthRun users w (-1,v) acts :=
  ⟨before,quiet,iff_of_false untold unlike_,brief,.inr rfl,fun zero => by cases zero⟩

-- Behind the greeting a stream authenticates when a negotiation is next.
def Negotiated (users : List HevSocks5User) (stream : List UInt8) : Prop :=
  ∃ negotiation rest, stream = negotiation++rest ∧ Negotiation users negotiation

theorem authenticated_behind (greeting : Greeting authMethodUser data) :
    Authenticated users (data++rest) ↔ Negotiated users rest := by
  constructor
  · rintro ⟨data',negotiation,last,same,greeting',negotiates⟩
    rw [List.append_assoc] at same
    obtain ⟨_,tail⟩ := greeting_unique greeting greeting' same
    exact ⟨negotiation,last,tail,negotiates⟩
  · rintro ⟨negotiation,last,rfl,negotiates⟩
    exact ⟨data,negotiation,last,by rw [List.append_assoc],greeting,negotiates⟩

theorem nothing_negotiated : ¬Negotiated users [] := by
  rintro ⟨negotiation,rest,same,negotiates⟩
  exact negotiation_some negotiates (List.append_eq_nil_iff.mp same.symm).1

-- What the sub-negotiation does.
structure NegotiationRun (users : List HevSocks5User) (w : ServerWorld) (out : Int × ServerWorld) (acts : List (Act ServerQuery)) :
    Prop where
  extends_ : Extends w out.2 acts
  quiet : asked acts = []
  told : Verdict acts ↔ Negotiated users (heard acts)
  brief : Brief acts
  res : out.1 = 0 ∨ out.1 = -1
  passed : out.1 = 0 → Negotiated users (heard acts) ∧ (w.sends.headD .whole).count 2 ≠ 0 ∧ out.2.sends = w.sends.tail

theorem negotiation_run (set : self.auth = some auth) (w : ServerWorld) :
    ∃ acts, NegotiationRun auth.users w (Prog.exec (do
      let res ← hevSocks5ServerReadAuthUser self
      let written ← hevSocks5ServerWriteAuthUser res
      pure (if orInt res written < 0 then -1 else 0)) w) acts := by
  have user := negotiation_read self w set
  have missed := @negotiation_missed _ self auth w
  obtain ⟨acts,listens,received,sends,_⟩ := strict_listens (read_user_strict self) w
  obtain ⟨silent,untold⟩ := received_quiet received
  rw [exec_bind,exec_bind]
  generalize (hevSocks5ServerReadAuthUser self).exec w = u at user missed listens sends ⊢
  obtain ⟨u,c⟩ := u
  simp only at user missed listens sends ⊢
  have answered : Wrote c _ ((hevSocks5ServerWriteAuthUser u).exec c) := send_wrote c _
  generalize (hevSocks5ServerWriteAuthUser u).exec c = v at answered ⊢
  obtain ⟨v,d⟩ := v
  have all := extends_trans listens answered.extends_
  rw [exec_pure]
  rcases user with refused | ⟨passed,data,negotiation,cut⟩
  · subst refused
    have result : (if orInt (-1) v < 0 then -1 else 0) = (-1 : Int) := by
      rcases answered.zero_or with zero | minus
      · rw [show v = 0 from zero]
        decide
      · rw [show v = -1 from minus]
        decide
    rw [result]
    refine ⟨_,all,by simp [silent],iff_of_false ?_ ?_,brief_append (brief_received received) (brief_put rfl _),.inr rfl,
      fun zero => by cases zero⟩
    · rw [verdict_append,verdict_put]
      rintro (told | told)
      · exact untold told
      · cases told
    · rintro ⟨data,rest,same,negotiates⟩
      simp only [heard_append,heard_put,heard_nil,List.append_nil] at same
      exact missed set listens rfl negotiates same
  · subst passed
    have negotiated : Negotiated auth.users (heard (acts++[.put [authVersion1,UInt8.ofInt 0] ((c.sends.headD .whole).count 2)])) :=
      ⟨data,[],by simp [greeting_heard listens cut],negotiation⟩
    refine ⟨_,all,by simp [silent],?_,brief_append (brief_received received) (brief_put rfl _),?_,fun zero => ⟨negotiated,?_,?_⟩⟩
    · exact iff_of_true ((verdict_append _ _).mpr (.inr ((verdict_put _ _).mpr rfl))) negotiated
    · split
      · exact .inr rfl
      · exact .inl rfl
    · rw [← sends]
      intro none_
      have minus : v = -1 := answered.res.trans (if_pos none_)
      simp only [minus] at zero
      exact absurd zero (by decide)
    · rw [answered.sends,sends]

theorem auth_run (set : self.auth = some auth) (w : ServerWorld) :
    ∃ acts, AuthRun auth.users w ((hevSocks5ServerAuth self).exec w) acts := by
  have asks : self.method = authMethodUser := by simp [HevSocks5Server.method,set]
  have method := greeting_read self w
  have missed := @greeting_missed _ self w
  obtain ⟨one,listens,received,sends,_⟩ := strict_listens (read_method_strict self) w
  obtain ⟨silent,untold⟩ := received_quiet received
  unfold hevSocks5ServerAuth
  rw [exec_bind,exec_bind]
  generalize (hevSocks5ServerReadAuthMethod self).exec w = m at method missed listens sends ⊢
  obtain ⟨m,a⟩ := m
  simp only at method missed listens sends ⊢
  have wrote : Wrote a _ ((hevSocks5ServerWriteAuthMethod m).exec a) := send_wrote a _
  generalize (hevSocks5ServerWriteAuthMethod m).exec a = s at wrote ⊢
  obtain ⟨s,b⟩ := s
  have before : Extends w b (one++[.put [version5,UInt8.ofInt m] ((a.sends.headD .whole).count 2)]) :=
    extends_trans listens wrote.extends_
  have quiet : asked (one++[.put [version5,UInt8.ofInt m] ((a.sends.headD .whole).count 2)]) = [] := by simp [silent]
  have unverdict : ¬Verdict (one++[.put [version5,UInt8.ofInt m] ((a.sends.headD .whole).count 2)]) := by
    rw [verdict_append,verdict_put]
    rintro (told | told)
    · exact untold told
    · cases told
  have brief : Brief (one++[.put [version5,UInt8.ofInt m] ((a.sends.headD .whole).count 2)]) :=
    brief_append (brief_received received) (brief_put rfl _)
  have hearing : heard (one++[.put [version5,UInt8.ofInt m] ((a.sends.headD .whole).count 2)]) = heard one := by simp
  rcases method with refused | ⟨chosen,data,greeting,cut⟩
  · have unlike_ : ¬Authenticated auth.users (heard (one++[.put [version5,UInt8.ofInt m] ((a.sends.headD .whole).count 2)])) := by
      rintro ⟨data,negotiation,rest,same,greeting,_⟩
      rw [← asks] at greeting
      rw [hearing,List.append_assoc] at same
      exact missed listens refused greeting same
    have failed := failed_run before quiet unverdict brief unlike_
    subst refused
    split
    · exact ⟨_,failed⟩
    · rw [if_neg (by decide),if_neg (by decide)]
      exact ⟨_,failed⟩
  · rw [asks] at greeting
    have hears := greeting_heard listens cut
    split
    · refine ⟨_,failed_run before quiet unverdict brief ?_⟩
      rw [hearing,hears,← List.append_nil data,authenticated_behind greeting]
      exact nothing_negotiated
    rename_i went
    rw [chosen,asks,if_neg (by decide),if_pos rfl]
    obtain ⟨two,later,silent',told,brief',res,passed⟩ := negotiation_run set b
    have behind : Authenticated auth.users (heard (one++[.put [version5,UInt8.ofInt m] ((a.sends.headD .whole).count 2)]++two)) ↔
        Negotiated auth.users (heard two) := by
      rw [heard_append,hearing,hears,authenticated_behind greeting]
    rw [chosen,asks] at behind unverdict before quiet brief
    refine ⟨_,extends_trans before later,by simp [silent,silent'],?_,brief_append brief brief',res,fun zero => ⟨behind.mpr (passed zero).1,?_,?_,?_⟩⟩
    · rw [verdict_append,behind,← told]
      exact or_iff_right unverdict
    · rw [← sends]
      intro none_
      have minus : s = -1 := wrote.res.trans (if_pos none_)
      omega
    · rw [← sends,← wrote.sends]
      exact (passed zero).2.1
    · rw [(passed zero).2.2,wrote.sends,sends]

end Psocks.Socks5
