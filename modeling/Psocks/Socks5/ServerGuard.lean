import Psocks.Socks5.ServerAuth
import Psocks.Socks5.ServerRequest

namespace Psocks.Socks5
open Program SearchTree
variable {rbtree : Balanced HevSocks5User} {self : HevSocks5Server rbtree} {auth : HevSocks5Authenticator rbtree}
variable {w : ServerWorld} {users : List HevSocks5User}

def succReply (addr : SockaddrIn6) : List UInt8 := response resRepSucc addr

-- What is promised of a session: whatever it asks for is asked after the authentication,
-- the verdict follows it, and the service a whole reply.
structure Served (users : List HevSocks5User) (stream : List UInt8) (trace : List (Act ServerQuery)) : Prop where
  front : heard trace <+: stream
  opened : ∀ before q after, trace = before++.asked q::after → Authenticated users (heard before)
  told : Verdict trace ↔ Authenticated users (heard trace)
  replied : ∀ before q after, trace = before++.asked q::after → Service q →
    ∃ addr, .put (succReply addr) (succReply addr).length ∈ before

-- A session up to its reply: the request, the code and the address to reply, and the session then.
def beforeReply (self : HevSocks5Server rbtree) (stack : Request) :
    ServerProg (Option (Request × UInt8 × SockaddrIn6 × HevSocks5Server rbtree)) := do
  let res ← hevSocks5ServerAuth self
  if res < 0 then pure none
  else
    let (res,request,self) ← hevSocks5ServerReadRequest self {stack with rep:=resRepSucc}
    if res < 0 then pure none
    else
      let (rep,addr,self) ← hevSocks5ServerServe self request
      pure (some (request,rep,addr,self))

-- A reply of success, where the session comes to one, goes whole or not at all.
def Settles (self : HevSocks5Server rbtree) (stack : Request) (w : ServerWorld) : Prop :=
  ∀ request addr out v, (beforeReply self stack).exec w = (some (request,resRepSucc,addr,out),v) →
    (v.sends.headD .whole).count (succReply addr).length = 0 ∨
      (v.sends.headD .whole).count (succReply addr).length = (succReply addr).length

theorem authenticated_append (authenticated : Authenticated users a) (b : List UInt8) : Authenticated users (a++b) := by
  obtain ⟨greeting,negotiation,rest,rfl,listed,negotiates⟩ := authenticated
  exact ⟨greeting,negotiation,rest++b,by simp,listed,negotiates⟩

-- How it goes on from there.
def afterReply : Option (Request × UInt8 × SockaddrIn6 × HevSocks5Server rbtree) → ServerProg Int
  | none => pure (-1)
  | some (_,rep,addr,out) => do
    let res ← hevSocks5ServerWriteResponse rep addr
    if res < 0 ∨ rep ≠ resRepSucc then pure (-1) else hevSocks5ServerService out

theorem run_before (self : HevSocks5Server rbtree) (stack : Request) (w : ServerWorld) : ((hevSocks5ServerRun self stack).exec w).2 =
    ((afterReply ((beforeReply self stack).exec w).1).exec ((beforeReply self stack).exec w).2).2 := by
  unfold hevSocks5ServerRun hevSocks5ServerHandshake beforeReply
  simp only [exec_bind]
  generalize (hevSocks5ServerAuth self).exec w = a
  obtain ⟨a,v⟩ := a
  simp only
  split
  · rfl
  rw [exec_bind,exec_bind]
  generalize (hevSocks5ServerReadRequest self {stack with rep:=resRepSucc}).exec v = r
  obtain ⟨⟨r,request,self⟩,x⟩ := r
  simp only
  split
  · rfl
  simp only [exec_bind,exec_pure]
  generalize (hevSocks5ServerServe self request).exec x = s
  obtain ⟨⟨rep,addr,self⟩,y⟩ := s
  simp only [afterReply,exec_bind]
  generalize (hevSocks5ServerWriteResponse rep addr).exec y = z
  obtain ⟨z,last⟩ := z
  by_cases failed : z < 0 ∨ rep ≠ resRepSucc
  · simp only [if_pos failed]
    rfl
  · simp only [if_neg failed]
    rw [if_neg (Int.lt_irrefl 0),exec_bind,exec_pure]

-- What a session does before its reply, behind the authentication.
structure Approaches (users : List HevSocks5User) (w v : ServerWorld) (authenticated : Prop) (one more : List (Act ServerQuery)) : Prop where
  extends_ : Extends w v (one++more)
  quiet : asked one = []
  told : Verdict one ↔ Authenticated users (heard one)
  brief : Brief (one++more)
  prepares : ∀ q ∈ asked more, ¬Service q
  passed : more = [] ∨ Authenticated users (heard one)
  replied : authenticated → Authenticated users (heard one)

theorem before_reply (set : self.auth = some auth) (stack : Request) (w : ServerWorld) :
    ∃ one more, Approaches auth.users w ((beforeReply self stack).exec w).2 (((beforeReply self stack).exec w).1 ≠ none) one more := by
  obtain ⟨one,run⟩ := auth_run set w
  refine ⟨one,?_⟩
  unfold beforeReply
  rw [exec_bind]
  generalize (hevSocks5ServerAuth self).exec w = a at run ⊢
  obtain ⟨a,v⟩ := a
  simp only
  split
  · refine ⟨[],by rw [List.append_nil]; exact run.extends_,run.quiet,run.told,by rw [List.append_nil]; exact run.brief,?_,.inl rfl,?_⟩
    · exact fun _ inside => by cases inside
    · exact fun some_ => (some_ rfl).elim
  rename_i notNegative
  have passed : Authenticated auth.users (heard one) := by
    have either := run.res
    simp only at either
    exact (run.passed (by simp only; omega)).1
  have extended : ∀ {x more}, Extends v x more → (∀ q ∈ asked more, ¬Service q) → (∀ data n, .put data n ∉ more) →
      ∀ authenticated, Approaches auth.users w x authenticated one more := by
    intro x more acts prepares silent authenticated
    exact ⟨extends_trans run.extends_ acts,run.quiet,run.told,brief_append run.brief fun _ _ inside => (silent _ _ inside).elim,prepares,
      .inr passed,fun _ => passed⟩
  obtain ⟨two,reads,prepares,_,silent⟩ := inquires_exec (read_request_prepares self {stack with rep:=resRepSucc}) v
  rw [exec_bind]
  generalize (hevSocks5ServerReadRequest self {stack with rep:=resRepSucc}).exec v = r at reads ⊢
  obtain ⟨⟨r,request,self⟩,x⟩ := r
  simp only
  split
  · exact ⟨two,extended reads prepares silent _⟩
  obtain ⟨three,serves,prepares',_,silent'⟩ := inquires_exec (asks_inquires (serve_local self request)) x
  rw [exec_bind,exec_pure]
  refine ⟨two++three,extended (extends_trans reads serves) ?_ ?_ _⟩
  · intro q inside
    rw [asked_append] at inside
    exact (List.mem_append.mp inside).elim (prepares q) (prepares' q)
  · intro data n inside
    exact (List.mem_append.mp inside).elim (silent data n) (silent' data n)

-- Where a question is asked that was not asked in the first part.
theorem split_asked {a b before after : List (Act Query)} (quiet : q ∉ asked a) (same : a++b = before++.asked q::after) :
    ∃ rest, before = a++rest ∧ b = rest++.asked q::after := by
  rcases List.append_eq_append_iff.mp same with ⟨rest,left,right⟩ | ⟨rest,left,right⟩
  · exact ⟨rest,left,right⟩
  · cases rest with
    | nil => exact ⟨[],by rw [left,List.append_nil,List.append_nil],right.symm⟩
    | cons act rest =>
      obtain ⟨rfl,_⟩ := List.cons.inj right
      rw [left] at quiet
      simp at quiet

theorem serve_type {request : Request} {addr : SockaddrIn6} {out : HevSocks5Server rbtree}
    (served : ((hevSocks5ServerServe self request).exec w).1 = (resRepSucc,addr,out)) : out.type ≠ .none := by
  unfold hevSocks5ServerServe at served
  split at served
  · rename_i refuses
    exact (refuses (Prod.mk.inj served).1).elim
  split at served
  · rw [exec_bind,exec_pure] at served
    obtain ⟨_,_,rfl⟩ : _ ∧ _ ∧ _ = out := by simpa using served
    exact fun none_ => by cases none_
  split at served
  · rw [exec_bind,exec_pure] at served
    obtain ⟨_,_,rfl⟩ : _ ∧ _ ∧ _ = out := by simpa using served
    exact fun none_ => by cases none_
  split at served
  · rw [exec_bind,exec_pure] at served
    obtain ⟨_,_,rfl⟩ : _ ∧ _ ∧ _ = out := by simpa using served
    exact fun none_ => by cases none_
  · cases served

theorem before_reply_type {request : Request} {addr : SockaddrIn6} {out : HevSocks5Server rbtree} {v : ServerWorld} (stack : Request)
    (came : (beforeReply self stack).exec w = (some (request,resRepSucc,addr,out),v)) : out.type ≠ .none := by
  unfold beforeReply at came
  rw [exec_bind] at came
  split at came
  · cases congrArg Prod.fst came
  rw [exec_bind] at came
  generalize (hevSocks5ServerReadRequest self {stack with rep:=resRepSucc}).exec _ = r at came
  obtain ⟨⟨r,request,self⟩,x⟩ := r
  simp only at came
  split at came
  · cases congrArg Prod.fst came
  · rw [exec_bind,exec_pure] at came
    obtain ⟨_,served⟩ := Prod.mk.inj (Option.some.inj (congrArg Prod.fst came))
    exact serve_type served

theorem service_asks {v : ServerWorld} {out : HevSocks5Server rbtree} (typed : out.type ≠ .none) :
    ∃ q, Service q ∧ Extends v ((hevSocks5ServerService out).exec v).2 [.asked q] := by
  unfold hevSocks5ServerService
  split
  · exact ⟨.tcpSplice out.fds.1,trivial,rfl,rfl,rfl⟩
  · exact ⟨.udpSplice out.fds.1,trivial,rfl,rfl,rfl⟩
  · exact ⟨.udpSplice out.fds.1,trivial,rfl,rfl,rfl⟩
  · exact (typed ‹_›).elim

theorem succ_reply_length (addr : SockaddrIn6) : (succReply addr).length = 10 ∨ (succReply addr).length = 22 := by
  rw [succReply,response_length]
  split
  · exact .inl rfl
  · exact .inr rfl

theorem brief_unreplied (brief : Brief acts) (addr : SockaddrIn6) : .put (succReply addr) n ∉ acts := by
  intro inside
  have two := brief _ _ inside
  rcases succ_reply_length addr with ten | many <;> omega

-- What is said of the authentication holds of every session; `last` is what follows.
theorem approaches_served {v : ServerWorld} {asks : Prop} {one more last : List (Act ServerQuery)} (approaches : Approaches users w v asks one more)
    (front : heard (one++more++last) <+: w.stream) (passed : last = [] ∨ Authenticated users (heard one)) :
    Served users w.stream (one++more++last) ↔ ∀ before q after, last = before++.asked q::after → Service q →
      ∃ addr, .put (succReply addr) (succReply addr).length ∈ before := by
  have quiet : ∀ q, q ∉ asked one := fun q => by rw [approaches.quiet]; exact List.not_mem_nil
  have behind : more++last = [] ∨ Authenticated users (heard one) := by
    rcases passed with rfl | passed
    · rw [List.append_nil]
      exact approaches.passed
    · exact .inr passed
  rw [List.append_assoc] at front ⊢
  constructor
  · rintro ⟨_,_,_,replied⟩ before q after same service
    obtain ⟨addr,inside⟩ := replied (one++more++before) q after (by rw [same]; simp) service
    refine ⟨addr,(List.mem_append.mp inside).resolve_left (brief_unreplied approaches.brief addr)⟩
  · intro replied
    refine ⟨front,?_,?_,?_⟩
    · intro before q after same
      obtain ⟨rest,rfl,cut⟩ := split_asked (quiet q) same
      rcases behind with none_ | authenticated
      · rw [none_] at cut
        exact (List.append_ne_nil_of_right_ne_nil _ (List.cons_ne_nil _ _) cut.symm).elim
      · rw [heard_append]
        exact authenticated_append authenticated _
    · rcases behind with none_ | authenticated
      · rw [none_,List.append_nil]
        exact approaches.told
      · rw [verdict_append,heard_append]
        exact iff_of_true (.inl (approaches.told.mpr authenticated)) (authenticated_append authenticated _)
    · intro before q after same service
      obtain ⟨rest,rfl,cut⟩ := split_asked (quiet q) same
      obtain ⟨rest',rfl,tail⟩ := split_asked (fun inside => approaches.prepares q inside service) cut
      obtain ⟨addr,inside⟩ := replied rest' q after tail service
      exact ⟨addr,by simp [inside]⟩

-- A session whose reply is behind it does what is promised if and only if the reply stands whole before the service.
theorem serviced_served {v : ServerWorld} {asks : Prop} {one more : List (Act ServerQuery)} {addr : SockaddrIn6} {q : ServerQuery}
    (approaches : Approaches users w v asks one more) (service : Service q) (authenticated : Authenticated users (heard one))
    (front : heard (one++more++[.put (succReply addr) n,.asked q]) <+: w.stream) :
    Served users w.stream (one++more++[.put (succReply addr) n,.asked q]) ↔ n = (succReply addr).length := by
  rw [approaches_served approaches front (.inr authenticated)]
  constructor
  · intro replied
    obtain ⟨other,inside⟩ := replied [.put (succReply addr) n] q [] rfl service
    obtain ⟨same,count⟩ := Act.put.inj (List.mem_singleton.mp inside)
    rw [← count,same]
  · rintro rfl before q' after same _
    cases before with
    | nil => cases (List.cons.inj same).1
    | cons act before =>
      obtain ⟨rfl,_⟩ := List.cons.inj same
      exact ⟨addr,List.mem_cons_self⟩

theorem guards_iff (set : self.auth = some auth) (stack : Request) (stream : List UInt8) (recvs sends : List Cut)
    (oracle : Nat → (q : ServerQuery) → ServerAnswer q) :
    Served auth.users stream ((hevSocks5ServerRun self stack).exec ⟨stream,recvs,sends,oracle,0,[]⟩).2.trace ↔
      Settles self stack ⟨stream,recvs,sends,oracle,0,[]⟩ := by
  generalize start : (⟨stream,recvs,sends,oracle,0,[]⟩ : ServerWorld) = w
  have heard_ : stream = w.stream := by rw [← start]
  have clear : w.trace = [] := by rw [← start]
  obtain ⟨one,more,approaches⟩ := before_reply set stack w
  obtain ⟨acts,run⟩ := exec_extends (hevSocks5ServerRun self stack) w
  have front : heard acts <+: w.stream := ⟨_,run.stream.symm⟩
  have trace : ((hevSocks5ServerRun self stack).exec w).2.trace = acts := by rw [run.trace,clear,List.nil_append]
  rw [heard_,trace]
  rw [run_before] at trace
  cases came : (beforeReply self stack).exec w with
  | mk result v =>
    rw [came] at approaches trace
    have before : v.trace = one++more := by rw [approaches.extends_.trace,clear,List.nil_append]
    cases result with
    | none =>
      have all : acts = one++more++[] := by rw [List.append_nil,← before,← trace]; rfl
      subst all
      rw [approaches_served approaches front (.inl rfl)]
      refine iff_of_true (fun _ _ _ same => by simp at same) fun request addr out v' other => ?_
      cases came.symm.trans other
    | some reply =>
      obtain ⟨request,rep,addr,out⟩ := reply
      have authenticated := approaches.replied (by simp)
      have wrote : Wrote v (response rep addr) ((hevSocks5ServerWriteResponse rep addr).exec v) := send_wrote v _
      simp only [afterReply,exec_bind] at trace
      generalize (hevSocks5ServerWriteResponse rep addr).exec v = z at wrote trace
      obtain ⟨z,x⟩ := z
      simp only at trace
      have written : x.trace = one++more++[.put (response rep addr) ((v.sends.headD .whole).count (response rep addr).length)] := by
        rw [wrote.extends_.trace,before]
      by_cases failed : z < 0 ∨ rep ≠ resRepSucc
      · rw [if_pos failed,exec_pure,written] at trace
        subst trace
        rw [approaches_served approaches front (.inr authenticated)]
        refine iff_of_true (fun early q late same => ?_) fun request' addr' out' v' other => ?_
        · cases early with
          | nil => cases (List.cons.inj same).1
          | cons act early => simp at same
        · cases came.symm.trans other
          left
          by_contra some_
          have zero : z = 0 := wrote.res.trans (if_neg some_)
          rw [zero] at failed
          rcases failed with low | other
          · exact Int.lt_irrefl 0 low
          · exact other rfl
      · obtain ⟨up,code⟩ := not_or.mp failed
        obtain rfl : rep = resRepSucc := not_not.mp code
        obtain ⟨q,service,asks⟩ := service_asks (v:=x) (before_reply_type stack came)
        rw [if_neg failed,asks.trace,written,List.append_assoc] at trace
        subst trace
        have some_ : (v.sends.headD .whole).count (succReply addr).length ≠ 0 := by
          intro none_
          have minus : z = -1 := wrote.res.trans (if_pos none_)
          omega
        have exact_ := serviced_served approaches service authenticated front
        refine exact_.trans ⟨fun all request' addr' out' v' other => ?_,fun settles => ?_⟩
        · cases came.symm.trans other
          exact .inr all
        · exact (settles request addr out v came).resolve_left some_

-- A client with the name and the password of the user asks for a connection to 9.8.7.6:80.
def knocking : List UInt8 := [5,1,2]++[1,1,117,1,112]++[5,1,0,1,9,8,7,6,0,80]

def gate : HevSocks5Server Balanced.plain := ⟨3,.none,.unspec,(-1,-1),some lodge⟩

def anyAddr : SockaddrIn6 := ⟨afInet6,#v[0,80],Vector.replicate 16 0⟩

def target : SockaddrIn6 := ⟨afInet6,#v[0,80],v4Mapped #v[9,8,7,6]⟩

-- What happens when `n` bytes of the reply go.
def knocked (n : Nat) : List (Act ServerQuery) :=
  [.got 2 [5,1],.got 1 [2],.put [5,2] 2,.got 2 [1,1],.got 2 [117,1],.got 1 [112],.put [1,0] 2,.got 5 [5,1,0,1,9],.got 5 [8,7,6,0,80],
    .asked (.socket .stream),.asked (.binder 3 target),.asked (.connect 3 target),.put (succReply target) n]

def afterKnock (reply : Cut) : List (Act ServerQuery) :=
  ((hevSocks5ServerRun gate ⟨0,0,anyAddr⟩).exec ⟨knocking,[],[.whole,.whole,reply],obliging,0,[]⟩).2.trace

-- The third send may take 15 bytes, and the reply is one of 10.
theorem guards_iff_knock : afterKnock (.stopped 15 .timedOut) = knocked 10++[.asked (.tcpSplice 3)] ∧
    Served lodge.users knocking (afterKnock (.stopped 15 .timedOut)) := by
  refine ⟨by decide +kernel,(guards_iff rfl _ knocking [] [.whole,.whole,.stopped 15 .timedOut] obliging).mpr ?_⟩
  intro request addr out v came
  have seen : ((beforeReply gate ⟨0,0,anyAddr⟩).exec ⟨knocking,[],[.whole,.whole,.stopped 15 .timedOut],obliging,0,[]⟩).1.all
      fun reply => (succReply reply.2.2.1).length = 10 := by decide +kernel
  have sends : (((beforeReply gate ⟨0,0,anyAddr⟩).exec ⟨knocking,[],[.whole,.whole,.stopped 15 .timedOut],obliging,0,[]⟩).2.sends.headD
      .whole).count 10 = 10 := by decide +kernel
  rw [came] at seen sends
  have ten : (succReply addr).length = 10 := of_decide_eq_true seen
  rw [ten]
  exact .inr sends

-- One byte of the reply goes, then the time is up.
theorem reply_cut : ¬Served lodge.users knocking (afterKnock (.stopped 1 .timedOut)) := by
  intro served
  obtain ⟨addr,inside⟩ := served.replied (knocked 1) (.tcpSplice 3) [] (by decide +kernel) trivial
  have few : (succReply addr).length ≤ 2 := by
    simp only [knocked,List.mem_cons,List.not_mem_nil,or_false,Act.put.injEq,reduceCtorEq,false_or] at inside
    omega
  rcases succ_reply_length addr with ten | many <;> omega

end Psocks.Socks5
