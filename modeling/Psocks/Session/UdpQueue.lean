import Mathlib.Data.List.Perm.Basic
import Psocks.Lib.Runs
import Psocks.Misc.HevList
import Psocks.Session.Udp
import Psocks.Socks5.UdpDatagram
import Psocks.Task.IoSocket

namespace Psocks.UdpQueue
open MappedDns Pbufs SessionUdp Socks5 Psocks.Lists Psocks.Task Utils
variable {os : Platform} {num : Nat}

-- The queue as it lies in memory: `frame_list`, what the frames at the node addresses
-- hold, and which of them are allocated.
structure Queue where
  frameList : HevList
  frames : Int
  addr : BitVec 32
  port : BitVec 16
  frame : Nat → HevSocks5UdpFrame
  live : List Nat

-- `fwd_f` while it waits in sendmmsg: what the list was and what it offers, with the
-- number of messages that are out and the others.
structure Batch where
  waiting : List HevSocks5UdpFrame
  offered : List HevSocks5UdpFrame
  size : Nat
  left : List (List UInt8)

structure Round where
  waiting : List HevSocks5UdpFrame
  offered : List HevSocks5UdpFrame
  res : Int

-- A UDP-in-UDP session: the queue, `res_f` of the splice loop, the datagrams that
-- left; and what was queued, what was freed with its pbuf, and the rounds that ended.
structure Outbound where
  self : Queue
  resF : Int
  sending : Option Batch
  wire : List (List UInt8)
  queued : List HevSocks5UdpFrame
  freed : List HevSocks5UdpFrame
  rounds : List Round

def outbound (memory : Nat → HevSocks5UdpFrame) : Outbound :=
  ⟨⟨.empty,0,0,0,memory,[]⟩,1,none,[],[],[],[]⟩

inductive Event (os : Platform) where
  | recv (dns : Option (Dns os)) (p : List Pbuf) (allocated : Option (Nat × HevSocks5Addr)) (ip : IpAddr)
      (port : BitVec 16)
  | forward
  | answer (answer : Answer)

-- The handler on the memory. `none`: the block of hev_malloc is in use, or the encoder
-- reads outside the address.
def queueRecvHandler (self : Queue) (dns : Option (Dns os)) (p : List Pbuf)
    (allocated : Option (Nat × HevSocks5Addr)) (ip : IpAddr) (port : BitVec 16) : Option Queue :=
  if present : p ≠ [] then
    if (udpPoolSize : Int) < self.frames then some self
    else match allocated with
      | none => some self
      | some (node,memory) =>
        if node ∈ self.live then none
        else do
          let (_,addr,_) ← hevSocks5AddrFromLwip dns memory ip port
          let self := {self with live:=node::self.live,frame:=Function.update self.frame node ⟨addr,p,present⟩}
          let self := if addr.bytes[0]? = some addrTypeName then {self with addr:=ip2Ip4 ip,port:=port} else self
          pure {self with frames:=self.frames+1,frameList:=hevListAddTail self.frameList node}
  else some self

-- The first loop of `fwd_f`. `none`: it comes to a null node, or to one that is freed.
def gather (self : Queue) : Nat → Option Nat → Option (List HevSocks5UdpFrame)
  | 0, _ => some []
  | _+1, none => none
  | i+1, some node => if node ∈ self.live then (gather self i (self.frameList.next node)).map (self.frame node::·) else none

-- The last loop. `none`: as before.
def pop : Nat → Queue → List HevSocks5UdpFrame → Option (Queue × List HevSocks5UdpFrame)
  | 0, self, freed => some (self,freed)
  | i+1, self, freed => do
    let node ← hevListFirst self.frameList
    if node ∈ self.live then
      let list := hevListDel self.frameList node
      pop i {self with frameList:=list,live:=self.live.erase node,frames:=self.frames-1} (freed++[self.frame node])
    else none

def forward (num : Nat) (s : Outbound) : Option Outbound :=
  if s.resF < 0 ∨ s.sending.isSome then some s
  else if s.self.frames ≤ 0 then some {s with resF:=0}
  else do
    let offered ← gather s.self (min num s.self.frames.toNat) (hevListFirst s.self.frameList)
    match datagramBatch (offered.map HevSocks5UdpFrame.outgoing) with
    | none => pure {s with resF:=-1}
    | some left =>
      let batch : Batch := ⟨s.queued.drop s.freed.length,offered,0,left⟩
      pure {s with sending:=some batch}

def settle (s : Outbound) (batch : Batch) (res : Int) : Option Outbound :=
  let s := {s with sending:=none,rounds:=s.rounds++[Round.mk batch.waiting batch.offered res]}
  if res ≤ 0 then some {s with resF:=-1}
  else (pop res.toNat s.self s.freed).map fun (self,freed) => {s with self:=self,freed:=freed,resF:=1}

def answered (s : Outbound) (batch : Batch) (answer : Answer) : Option Outbound :=
  match pass ⟨false,true⟩ sendmmsg batch.offered.length batch.size ⟨batch.left,s.wire⟩ answer with
  | .retry size socket => some {s with sending:=some {batch with size:=size,left:=socket.left},wire:=socket.sent}
  | .done res socket => settle {s with wire:=socket.sent} batch res

-- The datagram of an arrival, where there is room for it and hev_malloc has a block.
def accepted (frames : Int) (dns : Option (Dns os)) (p : List Pbuf) (allocated : Option (Nat × HevSocks5Addr)) (ip : IpAddr)
    (port : BitVec 16) : Option HevSocks5UdpFrame :=
  if present : p ≠ [] ∧ frames ≤ udpPoolSize then do
    let (_,memory) ← allocated
    let (_,addr,_) ← hevSocks5AddrFromLwip dns memory ip port
    pure ⟨addr,p,present.1⟩
  else none

-- The task is only asked for what it is at: other steps leave everything as it is.
def step (num : Nat) (s : Outbound) : Event os → Option Outbound
  | .recv dns p allocated ip port => (queueRecvHandler s.self dns p allocated ip port).map fun self =>
    {s with self:=self,queued:=s.queued++(accepted s.self.frames dns p allocated ip port).toList}
  | .forward => forward num s
  | .answer answer => match s.sending with
    | some batch => answered s batch answer
    | none => some s

-- What the memory is: a list of allocated nodes and no other allocated ones.
structure Held (queue : Queue) (nodes : List Nat) : Prop where
  holds : Holds queue.frameList nodes
  counted : queue.frames = nodes.length
  room : nodes.length ≤ udpPoolSize+1
  live : queue.live.Perm nodes

-- The queue without its memory.
def view (self : Queue) (nodes : List Nat) : HevSocks5SessionUdp :=
  ⟨nodes.map self.frame,nodes.length,self.addr,self.port⟩

variable {self : Queue} {nodes : List Nat} {s next : Outbound} {batch : Batch}

theorem outbound_held (memory : Nat → HevSocks5UdpFrame) : Held (outbound memory).self [] :=
  ⟨empty_holds,rfl,Nat.zero_le _,List.Perm.refl _⟩

-- The handler is the one that knows no memory, and what it queues is the datagram.
theorem recv_view {next : Queue} {dns : Option (Dns os)} (held : Held self nodes)
    (went : queueRecvHandler self dns p allocated ip port = some next) :
    ∃ new, Held next (nodes++new) ∧
      (nodes++new).map next.frame = nodes.map self.frame++(accepted self.frames dns p allocated ip port).toList ∧
      udpRecvHandler (view self nodes) dns p (allocated.map Prod.snd) ip port = some (view next (nodes++new)) := by
  have dropped : next = self → accepted self.frames dns p allocated ip port = none →
      udpRecvHandler (view self nodes) dns p (allocated.map Prod.snd) ip port = some (view self nodes) →
      ∃ new, Held next (nodes++new) ∧
      (nodes++new).map next.frame = nodes.map self.frame++(accepted self.frames dns p allocated ip port).toList ∧
      udpRecvHandler (view self nodes) dns p (allocated.map Prod.snd) ip port = some (view next (nodes++new)) := by
    rintro rfl nothing same
    exact ⟨[],by simpa using held,by simp [nothing],by simpa using same⟩
  have full : ((udpPoolSize : Int) < self.frames) ↔ udpPoolSize < (view self nodes).frames := by
    rw [held.counted]
    exact Int.ofNat_lt
  unfold queueRecvHandler at went
  unfold udpRecvHandler accepted at dropped ⊢
  by_cases present : p ≠ []
  · simp only [dif_pos present] at went dropped ⊢
    by_cases above : udpPoolSize < (view self nodes).frames
    · rw [if_pos (full.mpr above)] at went
      rw [if_pos above] at dropped ⊢
      exact dropped (Option.some.inj went).symm (dif_neg fun inside => Int.not_le.mpr (full.mpr above) inside.2) rfl
    · have below := Int.not_lt.mp fun inside => above (full.mp inside)
      rw [if_neg (Int.not_lt.mpr below)] at went
      rw [if_neg above,dif_pos ⟨present,below⟩] at dropped
      rw [if_neg above,dif_pos ⟨present,below⟩]
      cases allocated with
      | none => exact dropped (Option.some.inj went).symm rfl rfl
      | some block =>
        obtain ⟨node,memory⟩ := block
        simp only at went
        split at went
        · cases went
        rename_i fresh
        obtain ⟨⟨_,addr,_⟩,encoded,made⟩ := Option.bind_eq_some_iff.mp went
        have outside : node ∉ nodes := fun inside => fresh (held.live.mem_iff.mpr inside)
        have kept : nodes.map (Function.update self.frame node ⟨addr,p,present⟩) = nodes.map self.frame := by
          refine List.map_congr_left fun x member => Function.update_of_ne ?_ _ _
          rintro rfl
          exact outside member
        have width : nodes.length < udpPoolSize+1 := by
          have low := Nat.not_lt.mp above
          exact Nat.lt_succ_of_le low
        have pushed := add_tail_holds held.holds outside
        have count : (nodes++[node]).length = nodes.length+1 := by simp
        have blocks : (node::self.live).Perm (nodes++[node]) :=
          (held.live.cons node).trans (List.perm_append_singleton node nodes).symm
        have counted : self.frames+1 = ((nodes++[node]).length : Int) := by
          rw [count,held.counted]
          rfl
        refine ⟨[node],?_,?_,?_⟩
        · cases Option.some.inj made
          by_cases named : addr.bytes[0]? = some addrTypeName
          · simp only [named,if_true]
            exact ⟨pushed,counted,by omega,blocks⟩
          · simp only [named,if_false]
            exact ⟨pushed,counted,by omega,blocks⟩
        · cases Option.some.inj made
          simp only [encoded,bind,Option.bind,pure,Option.toList_some]
          by_cases named : addr.bytes[0]? = some addrTypeName
          · simp only [named,if_true,List.map_append,kept,List.map_cons,List.map_nil,Function.update_self]
          · simp only [named,if_false,List.map_append,kept,List.map_cons,List.map_nil,Function.update_self]
        · cases Option.some.inj made
          simp only [Option.map_some,encoded,bind,Option.bind,view,pure]
          by_cases named : addr.bytes[0]? = some addrTypeName
          · simp only [named,if_true,List.map_append,kept,List.map_cons,List.map_nil,Function.update_self,count]
          · simp only [named,if_false,List.map_append,kept,List.map_cons,List.map_nil,Function.update_self,count]
  · simp only [dif_neg present] at went dropped ⊢
    exact dropped (Option.some.inj went).symm (dif_neg fun inside => present inside.1) trivial

theorem gather_from {before after : List Nat} (held : Held self (before++after)) (inside : i ≤ after.length) :
    gather self i after.head? = some ((after.take i).map self.frame) := by
  induction i generalizing before after with
  | zero => rfl
  | succ i ih =>
    cases after with
    | nil => cases inside
    | cons node rest =>
      have allocated : node ∈ self.live := held.live.mem_iff.mpr (by simp)
      have follows : self.frameList.next node = rest.head? := (Linked.chain_middle held.holds).2
      have moved : Held self ((before++[node])++rest) := by simpa using held
      have later := ih moved (Nat.le_of_succ_le_succ inside)
      simp only [List.head?_cons,gather,if_pos allocated,follows,later,Option.map_some,List.take_succ_cons,List.map_cons]

theorem gather_front (held : Held self nodes) (inside : i ≤ nodes.length) :
    gather self i (hevListFirst self.frameList) = some ((nodes.take i).map self.frame) := by
  rw [holds_first held.holds]
  have whole : Held self ([]++nodes) := held
  exact gather_from whole inside

-- Each turn frees the first node, and nothing else.
theorem pop_held (freed : List HevSocks5UdpFrame) (held : Held self nodes) (inside : i ≤ nodes.length) :
    ∃ next, pop i self freed = some (next,freed++(nodes.take i).map self.frame) ∧ Held next (nodes.drop i) ∧
      next.frame = self.frame := by
  induction i generalizing self nodes freed with
  | zero => exact ⟨self,by simp [pop],held,rfl⟩
  | succ i ih =>
    cases nodes with
    | nil => cases inside
    | cons node rest =>
      have allocated : node ∈ self.live := held.live.mem_iff.mpr (by simp)
      have distinct := List.nodup_cons.mp held.holds.distinct
      have blocks : (self.live.erase node).Perm rest := by
        simpa using held.live.erase node
      have counted := held.counted
      have room := held.room
      rw [List.length_cons] at counted room
      have unlinked : Held {self with frameList:=hevListDel self.frameList node,live:=self.live.erase node,frames:=self.frames-1} rest :=
        ⟨del_first_holds held.holds,by simp only; omega,by omega,blocks⟩
      obtain ⟨next,popped,after,same⟩ := ih (freed++[self.frame node]) unlinked (Nat.le_of_succ_le_succ inside)
      refine ⟨next,?_,after,same⟩
      simp only [pop,holds_first held.holds,List.head?_cons,bind,Option.bind,if_pos allocated,popped]
      simp

def Round.removed (round : Round) : List HevSocks5UdpFrame :=
  if round.res ≤ 0 then [] else round.offered.take round.res.toNat

-- The rounds of a session, each on what the ones before it left of the queue.
def Played (num : Nat) : List HevSocks5UdpFrame → List Round → Prop
  | _, [] => True
  | queue, round::rounds => round.waiting <+: queue ∧ round.offered = round.waiting.take num ∧
      round.res ≤ round.offered.length ∧ Played num (queue.drop round.removed.length) rounds

-- What fwd_f knows of the queue while it waits: it may have grown since, and the
-- datagrams that are out are the first of it.
structure Underway (num : Nat) (wire : List (List UInt8)) (freed list : List HevSocks5UdpFrame) (batch : Batch) : Prop where
  waiting : batch.waiting <+: list
  offered : batch.offered = batch.waiting.take num
  size : batch.size < batch.offered.length
  left : batch.left = (batch.offered.drop batch.size).map fun frame => encodeDatagram frame.outgoing
  wire : wire = (freed++batch.offered.take batch.size).map fun frame => encodeDatagram frame.outgoing

structure Kept (num : Nat) (s : Outbound) (nodes : List Nat) : Prop where
  held : Held s.self nodes
  queued : s.queued = s.freed++nodes.map s.self.frame
  idle : s.sending = none → s.wire = s.freed.map fun frame => encodeDatagram frame.outgoing
  busy : ∀ batch, s.sending = some batch → Underway num s.wire s.freed (nodes.map s.self.frame) batch
  freed : s.freed = s.rounds.flatMap Round.removed
  played : Played num s.queued s.rounds

theorem outbound_kept (memory : Nat → HevSocks5UdpFrame) : Kept num (outbound memory) [] :=
  ⟨outbound_held memory,rfl,fun _ => rfl,fun _ same => (by cases same),rfl,trivial⟩

theorem played_grows {queue more : List HevSocks5UdpFrame} {rounds : List Round} (played : Played num queue rounds) :
    Played num (queue++more) rounds := by
  induction rounds generalizing queue with
  | nil => trivial
  | cons round rounds ih =>
    obtain ⟨waiting,offered,fits,later⟩ := played
    have short : round.removed.length ≤ queue.length := by
      have front := waiting.length_le
      have part : round.offered.length ≤ round.waiting.length := by
        rw [offered,List.length_take]
        exact Nat.min_le_right _ _
      unfold Round.removed
      split
      · exact Nat.zero_le _
      · rw [List.length_take]
        omega
    refine ⟨waiting.trans (List.prefix_append _ _),offered,fits,?_⟩
    rw [List.drop_append_of_le_length short]
    exact ih later

theorem played_next {queue : List HevSocks5UdpFrame} {rounds : List Round} {round : Round} (played : Played num queue rounds)
    (waiting : round.waiting <+: queue.drop (rounds.flatMap Round.removed).length)
    (offered : round.offered = round.waiting.take num) (fits : round.res ≤ round.offered.length) :
    Played num queue (rounds++[round]) := by
  induction rounds generalizing queue with
  | nil => exact ⟨by simpa using waiting,offered,fits,trivial⟩
  | cons first rounds ih =>
    obtain ⟨front,same,bound,later⟩ := played
    refine ⟨front,same,bound,ih later ?_⟩
    simpa [List.drop_drop] using waiting

theorem recv_kept {dns : Option (Dns os)} (kept : Kept num s nodes)
    (went : step num s (.recv dns p allocated ip port) = some next) : ∃ nodes, Kept num next nodes := by
  obtain ⟨self,received,same⟩ := Option.map_eq_some_iff.mp went
  obtain ⟨new,held,frames,_⟩ := recv_view kept.held received
  cases same
  refine ⟨nodes++new,held,?_,kept.idle,?_,kept.freed,played_grows kept.played⟩
  · rw [kept.queued,frames,List.append_assoc]
  · intro batch busy
    have underway := kept.busy batch busy
    refine {underway with waiting:=?_}
    rw [frames]
    exact underway.waiting.trans (List.prefix_append _ _)

-- A call of `fwd_f`: what the open direction offers, or that there is nothing to offer.
structure Forwarded (num : Nat) (s next : Outbound) (list : List HevSocks5UdpFrame) : Prop where
  away : s.sending ≠ none ∨ s.resF < 0 → next = s
  empty : s.sending = none → 0 ≤ s.resF → s.self.frames = 0 → next = {s with resF:=0}
  refused : s.sending = none → 0 ≤ s.resF → 0 < s.self.frames →
    datagramBatch ((list.take (min s.self.frames.toNat num)).map HevSocks5UdpFrame.outgoing) = none → next = {s with resF:=-1}
  offers : s.sending = none → 0 ≤ s.resF → 0 < s.self.frames → ∀ left,
    datagramBatch ((list.take (min s.self.frames.toNat num)).map HevSocks5UdpFrame.outgoing) = some left →
    next = {s with sending:=some ⟨list,list.take (min s.self.frames.toNat num),0,left⟩}

theorem forward_offers (kept : Kept num s nodes) : ∃ next, forward num s = some next ∧ Forwarded num s next (nodes.map s.self.frame) := by
  have counted := kept.held.counted
  unfold forward
  by_cases stays : s.resF < 0 ∨ s.sending.isSome
  · have open_ : ¬(s.sending = none ∧ 0 ≤ s.resF) := by
      rintro ⟨idle,up⟩
      rw [idle] at stays
      exact stays.elim (fun down => Int.not_le.mpr down up) (fun busy => by cases busy)
    exact ⟨s,if_pos stays,fun _ => rfl,fun a b => (open_ ⟨a,b⟩).elim,fun a b => (open_ ⟨a,b⟩).elim,fun a b => (open_ ⟨a,b⟩).elim⟩
  rw [if_neg stays]
  have here : ¬(s.sending ≠ none ∨ s.resF < 0) := fun gone =>
    stays (gone.symm.imp_right Option.isSome_iff_ne_none.mpr)
  by_cases empty : s.self.frames ≤ 0
  · exact ⟨_,if_pos empty,fun gone => (here gone).elim,fun _ _ _ => rfl,fun _ _ some_ => by omega,fun _ _ some_ => by omega⟩
  rw [if_neg empty]
  have inside : min num s.self.frames.toNat ≤ nodes.length := by omega
  have list : s.queued.drop s.freed.length = nodes.map s.self.frame := by
    rw [kept.queued,List.drop_left]
  rw [gather_front kept.held inside,List.map_take,Nat.min_comm,Option.bind_eq_bind,Option.bind_some,list]
  cases built : datagramBatch (((nodes.map s.self.frame).take (min s.self.frames.toNat num)).map HevSocks5UdpFrame.outgoing) with
  | none =>
    refine ⟨_,rfl,fun gone => (here gone).elim,fun _ _ none_ => by omega,fun _ _ _ _ => rfl,?_⟩
    intro _ _ _ left same
    cases built.symm.trans same
  | some left =>
    refine ⟨_,rfl,fun gone => (here gone).elim,fun _ _ none_ => by omega,fun _ _ _ same => (by cases built.symm.trans same),?_⟩
    intro _ _ _ _ same
    cases built.symm.trans same
    rfl

-- A new round is under way with the first of the whole list.
theorem forward_kept (some_ : 0 < num) (kept : Kept num s nodes) (went : forward num s = some next) : Kept num next nodes := by
  obtain ⟨_,same,away,empty,refused,offers⟩ := forward_offers kept
  cases same.symm.trans went
  by_cases stays : s.sending ≠ none ∨ s.resF < 0
  · rw [away stays]
    exact kept
  have idle : s.sending = none := not_not.mp fun busy => stays (.inl busy)
  have up : 0 ≤ s.resF := Int.not_lt.mp fun down => stays (.inr down)
  have counted := kept.held.counted
  by_cases nothing : s.self.frames = 0
  · rw [empty idle up nothing]
    exact {kept with}
  have several : 0 < s.self.frames := by omega
  cases built : datagramBatch (((nodes.map s.self.frame).take (min s.self.frames.toNat num)).map HevSocks5UdpFrame.outgoing) with
  | none =>
    rw [refused idle up several built]
    exact {kept with}
  | some left =>
    rw [offers idle up several left built]
    refine {kept with idle:=fun idle => (by cases idle),busy:=?_}
    intro batch same
    cases same
    have count : (nodes.map s.self.frame).take (min s.self.frames.toNat num) = (nodes.map s.self.frame).take num := by
      have all : s.self.frames.toNat = (nodes.map s.self.frame).length := by
        rw [List.length_map]
        omega
      rw [all,Nat.min_comm,← List.take_eq_take_min]
    refine ⟨List.prefix_refl _,count,?_,?_,?_⟩
    · simp only [List.length_take,List.length_map]
      omega
    · rw [datagram_batch built,List.map_map]
      rfl
    · rw [kept.idle idle]
      simp

-- How many of the messages of a batch are out after an answer, and whether it is the last.
def Batch.gone (batch : Batch) : Answer → Nat
  | .ready n => min (batch.size+(n+1)) batch.offered.length
  | _ => batch.size

def Batch.Last (batch : Batch) : Answer → Prop
  | .ready n => batch.offered.length ≤ batch.size+(n+1)
  | .again stopped => stopped = true
  | .failed _ _ => True

-- An answer to sendmmsg: the wait goes on, or the round removes what went and nothing else.
structure Answered (num : Nat) (s next : Outbound) (nodes : List Nat) (batch : Batch) (answer : Answer) : Prop where
  wire : next.wire = (s.freed++batch.offered.take (batch.gone answer)).map fun frame => encodeDatagram frame.outgoing
  waits : ¬batch.Last answer → Kept num next nodes ∧
    ∃ left, next = {s with wire:=next.wire,sending:=some {batch with size:=batch.gone answer,left:=left}}
  removes : batch.Last answer → next.sending = none ∧ next.freed = s.freed++batch.offered.take (batch.gone answer) ∧
    next.self.frame = s.self.frame ∧ Kept num next (nodes.drop (batch.gone answer)) ∧ next.queued = s.queued ∧
    next.resF = if batch.gone answer = 0 then -1 else 1

-- A round that ends with `count` of its messages gone, or with none and an error.
theorem settle_exact (kept : Kept num s nodes) (busy : s.sending = some batch) (fits : count ≤ batch.offered.length)
    (tells : res = (count : Int) ∨ count = 0 ∧ res < 0) (wire : w = (s.freed++batch.offered.take count).map fun frame => encodeDatagram frame.outgoing) :
    ∃ next, settle {s with wire:=w} batch res = some next ∧ next.wire = w ∧ next.sending = none ∧
      next.freed = s.freed++batch.offered.take count ∧ next.self.frame = s.self.frame ∧ Kept num next (nodes.drop count) ∧
      next.queued = s.queued ∧ next.resF = if count = 0 then -1 else 1 := by
  have underway := kept.busy batch busy
  have behind : s.queued.drop (s.rounds.flatMap Round.removed).length = nodes.map s.self.frame := by
    rw [kept.queued,← kept.freed,List.drop_left]
  have played : Played num s.queued (s.rounds++[⟨batch.waiting,batch.offered,res⟩]) := by
    refine played_next kept.played (by rw [behind]; exact underway.waiting) underway.offered ?_
    simp only
    omega
  unfold settle
  by_cases failed : res ≤ 0
  · have nothing : count = 0 := by omega
    subst nothing
    have same : s.freed++batch.offered.take 0 = s.freed := by simp
    refine ⟨_,if_pos failed,rfl,rfl,same.symm,rfl,?_,rfl,rfl⟩
    refine ⟨kept.held,kept.queued,fun _ => by rw [wire,same],fun _ busy => (by cases busy),?_,played⟩
    simp only [List.flatMap_append,← kept.freed,List.flatMap_singleton,Round.removed,if_pos failed,List.append_nil]
  · have all : res.toNat = count := by omega
    -- The first of the list are still the ones that were offered.
    have front : (nodes.take count).map s.self.frame = batch.offered.take count := by
      obtain ⟨more,list⟩ := underway.waiting
      have short : count ≤ num ∧ count ≤ batch.waiting.length := by
        rw [underway.offered,List.length_take] at fits
        omega
      rw [List.map_take,← list,List.take_append_of_le_length short.2,underway.offered,List.take_take,Nat.min_eq_left short.1]
    have inside : count ≤ nodes.length := by
      have size := congrArg List.length front
      rw [List.length_map,List.length_take,List.length_take] at size
      omega
    obtain ⟨self,popped,held,frame⟩ := pop_held s.freed kept.held inside
    rw [front] at popped
    rw [if_neg failed,all]
    refine ⟨_,congrArg (Option.map _) popped,rfl,rfl,rfl,frame,?_,rfl,(if_neg (by omega)).symm⟩
    refine ⟨held,?_,fun _ => wire,fun _ busy => (by cases busy),?_,played⟩
    · rw [frame,kept.queued,← front,List.append_assoc,← List.map_append,List.take_append_drop]
    · simp only [List.flatMap_append,← kept.freed,List.flatMap_singleton,Round.removed,if_neg failed,all]

theorem answered_exact (kept : Kept num s nodes) (busy : s.sending = some batch) (answer : Answer) :
    ∃ next, answered s batch answer = some next ∧ Answered num s next nodes batch answer := by
  have underway := kept.busy batch busy
  have onward : ∀ {wire batch}, Underway num wire s.freed (nodes.map s.self.frame) batch →
      Kept num {s with wire:=wire,sending:=some batch} nodes := by
    intro wire batch underway
    refine {kept with idle:=fun idle => (by cases idle),busy:=?_}
    intro _ same
    cases same
    exact underway
  -- The round ends without another message.
  have stops : ∀ code : Int, code < 0 → batch.gone answer = batch.size → batch.Last answer →
      answered s batch answer = settle s batch (orSize batch.size code) →
      ∃ next, answered s batch answer = some next ∧ Answered num s next nodes batch answer := by
    intro code bad gone last_ same
    have tells : orSize batch.size code = (batch.size : Int) ∨ batch.size = 0 ∧ orSize batch.size code < 0 := by
      unfold orSize
      split <;> omega
    obtain ⟨next,settled,wire,after⟩ := settle_exact kept busy (Nat.le_of_lt underway.size) tells underway.wire
    refine ⟨next,same.trans settled,?_,fun waits => (waits last_).elim,fun _ => ?_⟩
    · rw [wire,gone]
      exact underway.wire
    · rw [gone]
      exact after
  cases answer with
  | again stopped =>
    cases stopped with
    | true => exact stops (-2) (by decide) rfl rfl rfl
    | false => exact ⟨_,rfl,underway.wire,fun _ => ⟨onward underway,batch.left,rfl⟩,fun last_ => by cases last_⟩
  | failed code other => exact stops (-1) (by decide) rfl trivial rfl
  | ready n =>
    have inside := underway.size
    have remain : batch.left.length = batch.offered.length-batch.size := by
      rw [underway.left,List.length_map,List.length_drop]
    have moved : batch.size+min (n+1) batch.left.length = batch.gone (.ready n) := by
      simp only [Batch.gone]
      omega
    have piece : ∀ k, batch.left.take k = ((batch.offered.drop batch.size).take k).map fun frame => encodeDatagram frame.outgoing := by
      intro k
      rw [underway.left,List.map_take]
    have sent : s.wire++batch.left.take (min (n+1) batch.left.length) =
        (s.freed++batch.offered.take (batch.gone (.ready n))).map fun frame => encodeDatagram frame.outgoing := by
      rw [piece,underway.wire,← moved,List.take_add,List.map_append,List.map_append,List.map_append,List.append_assoc]
    have some_ : min (n+1) batch.left.length ≠ 0 := by omega
    by_cases last_ : batch.offered.length ≤ batch.size+(n+1)
    · have fits : batch.gone (.ready n) ≤ batch.offered.length := Nat.min_le_right _ _
      obtain ⟨next,settled,wire,after⟩ := settle_exact kept busy fits (.inl rfl) sent
      refine ⟨next,?_,wire.trans sent,fun waits => (waits last_).elim,fun _ => after⟩
      rw [← settled,← moved]
      have ended : ¬batch.size+min (n+1) batch.left.length < batch.offered.length := by omega
      simp [answered,Task.pass,sendmmsg,some_,ended]
    · have more : batch.size+min (n+1) batch.left.length < batch.offered.length := by omega
      have rest : Underway num (s.wire++batch.left.take (min (n+1) batch.left.length)) s.freed (nodes.map s.self.frame)
          {batch with size:=batch.gone (.ready n),left:=batch.left.drop (min (n+1) batch.left.length)} := by
        refine ⟨underway.waiting,underway.offered,moved ▸ more,?_,sent⟩
        rw [← moved,← List.drop_drop,List.map_drop,underway.left]
      refine ⟨_,?_,sent,fun _ => ⟨onward rest,_,rfl⟩,fun ends => (last_ ends).elim⟩
      rw [← moved]
      simp [answered,Task.pass,sendmmsg,some_,more]

theorem answered_kept (kept : Kept num s nodes) (busy : s.sending = some batch) (answer : Answer)
    (went : answered s batch answer = some next) : ∃ nodes, Kept num next nodes := by
  obtain ⟨_,same,_,waits,removes⟩ := answered_exact kept busy answer
  cases same.symm.trans went
  by_cases last_ : batch.Last answer
  · obtain ⟨_,_,_,after,_⟩ := removes last_
    exact ⟨_,after⟩
  · exact ⟨nodes,(waits last_).1⟩

theorem step_kept (some_ : 0 < num) (e : Event os) (before : ∃ nodes, Kept num s nodes) (went : step num s e = some next) :
    ∃ nodes, Kept num next nodes := by
  obtain ⟨nodes,kept⟩ := before
  cases e with
  | recv dns p allocated ip port => exact recv_kept kept went
  | forward => exact ⟨nodes,forward_kept some_ kept went⟩
  | answer answer =>
    simp only [step] at went
    split at went
    · rename_i batch busy
      exact answered_kept kept busy answer went
    · cases went
      exact ⟨nodes,kept⟩

-- No step of the task comes to a null or freed node; those of lwIP need a free block.
theorem queue_exact (memory : Nat → HevSocks5UdpFrame) {events : List (Event os)} (some_ : 0 < num)
    (went : Runs.exec (step num) (outbound memory) events = some s) :
    ∃ nodes, Kept num s nodes ∧
      (∃ next, step num s (.forward : Event os) = some next ∧ Forwarded num s next (nodes.map s.self.frame)) ∧
      ∀ answer, ∃ next, step num s (.answer answer : Event os) = some next ∧ (s.sending = none → next = s) ∧
        ∀ batch, s.sending = some batch → Answered num s next nodes batch answer := by
  obtain ⟨nodes,kept⟩ := Runs.exec_invariant (fun s => ∃ nodes, Kept num s nodes) (fun _ e _ => step_kept some_ e)
    ⟨[],outbound_kept memory⟩ went
  refine ⟨nodes,kept,forward_offers kept,fun answer => ?_⟩
  cases busy : s.sending with
  | none => exact ⟨s,by simp only [step,busy],fun _ => rfl,fun _ same => by cases same⟩
  | some batch =>
    obtain ⟨next,done,exact_⟩ := answered_exact kept busy answer
    refine ⟨next,by simp only [step,busy,done],fun idle => (by cases idle),?_⟩
    intro _ same
    cases same
    exact exact_

theorem kept_list (kept : Kept num s nodes) :
    gather s.self s.self.frames.toNat (hevListFirst s.self.frameList) = some (nodes.map s.self.frame) := by
  have all : s.self.frames.toNat = nodes.length := by
    rw [kept.held.counted]
    rfl
  rw [all,gather_front kept.held (Nat.le_refl _),List.take_length]

def blank : HevSocks5UdpFrame := ⟨.zero,[⟨[],0⟩],List.cons_ne_nil _ _⟩

def payloads (frames : List HevSocks5UdpFrame) : List (List UInt8) := frames.map fun frame => frame.outgoing.data

def arrival (node : Nat) (data : UInt8) : Event .plain := .recv none [⟨[data],1⟩] (some (node,.zero)) (.v4 0x01020304) 53

def arriving : List (Event .plain) := [arrival 8 1,arrival 9 2,arrival 7 3]

-- The first of two goes, and a fourth datagram comes while the other one waits.
def sending : List (Event .plain) := arriving++[.forward,.answer (.ready 0),arrival 5 4]

theorem queue_exact_growing :
    (∃ s nodes next batch, Runs.exec (step 2) (outbound fun _ => blank) arriving = some s ∧ Kept 2 s nodes ∧
      payloads (nodes.map s.self.frame) = [[1],[2],[3]] ∧ step 2 s (.forward : Event .plain) = some next ∧ next.sending = some batch ∧
      batch.size = 0 ∧ payloads batch.offered = [[1],[2]]) ∧
    ∃ s nodes batch, Runs.exec (step 2) (outbound fun _ => blank) sending = some s ∧ Kept 2 s nodes ∧
      payloads (nodes.map s.self.frame) = [[1],[2],[3],[4]] ∧ s.sending = some batch ∧ batch.size = 1 ∧
      (∃ next, step 2 s (.answer (.again true) : Event .plain) = some next ∧ Kept 2 next (nodes.drop 1) ∧ payloads next.freed = [[1]] ∧
        next.resF = 1) ∧
      ∃ next, step 2 s (.answer (.ready 0) : Event .plain) = some next ∧ Kept 2 next (nodes.drop 2) ∧ payloads next.freed = [[1],[2]] ∧
        next.resF = 1 := by
  refine ⟨?_,?_⟩
  · have reached : (Runs.exec (step 2) (outbound fun _ => blank) arriving).any fun s => s.sending.isNone ∧ s.resF = 1 ∧ s.self.frames = 3 ∧
        (gather s.self s.self.frames.toNat (hevListFirst s.self.frameList)).map payloads = some [[1],[2],[3]] ∧
        (gather s.self 2 (hevListFirst s.self.frameList)).map payloads = some [[1],[2]] ∧
        ((gather s.self 2 (hevListFirst s.self.frameList)).bind fun two => datagramBatch (two.map HevSocks5UdpFrame.outgoing)).isSome := by
      decide +kernel
    obtain ⟨s,went,facts⟩ := (Option.any_eq_true _ _).mp reached
    obtain ⟨idle,up,three,list,two,built⟩ := of_decide_eq_true facts
    obtain ⟨nodes,kept,⟨next,goes,forwarded⟩,_⟩ := queue_exact _ (by decide) went
    rw [kept_list kept] at list
    have inside : 2 ≤ nodes.length := by
      have counted := kept.held.counted
      omega
    have few : min s.self.frames.toNat 2 = 2 := by
      rw [three]
      rfl
    rw [gather_front kept.held inside,List.map_take] at two built
    rw [Option.bind_some] at built
    obtain ⟨left,built⟩ := Option.isSome_iff_exists.mp built
    have made := forwarded.offers (Option.isNone_iff_eq_none.mp idle) (by omega) (by omega) left
    rw [few] at made
    exact ⟨s,nodes,next,⟨nodes.map s.self.frame,(nodes.map s.self.frame).take 2,0,left⟩,went,kept,Option.some.inj list,goes,by rw [made built],rfl,
      Option.some.inj two⟩
  · have reached : (Runs.exec (step 2) (outbound fun _ => blank) sending).any fun s => s.freed.isEmpty ∧
        (gather s.self s.self.frames.toNat (hevListFirst s.self.frameList)).map payloads = some [[1],[2],[3],[4]] ∧
        s.sending.map (fun batch => (batch.size,payloads batch.offered)) = some (1,[[1],[2]]) := by
      decide +kernel
    obtain ⟨s,went,facts⟩ := (Option.any_eq_true _ _).mp reached
    obtain ⟨unfreed,list,busy⟩ := of_decide_eq_true facts
    obtain ⟨nodes,kept,_,answers⟩ := queue_exact _ (by decide) went
    rw [kept_list kept] at list
    obtain ⟨batch,underway,same⟩ := Option.map_eq_some_iff.mp busy
    obtain ⟨size,offered⟩ := Prod.mk.inj same
    have long : batch.offered.length = 2 := by simpa [payloads] using congrArg List.length offered
    have ends : ∀ answer count, batch.gone answer = count → batch.Last answer → count ≠ 0 →
        ∃ next, step 2 s (.answer answer : Event .plain) = some next ∧ Kept 2 next (nodes.drop count) ∧
          payloads next.freed = (payloads batch.offered).take count ∧ next.resF = 1 := by
      intro answer count gone last_ some_
      obtain ⟨next,goes,_,answered⟩ := answers answer
      obtain ⟨_,freed,_,after,_,res⟩ := (answered batch underway).removes last_
      rw [gone] at freed after res
      rw [List.isEmpty_iff.mp unfreed,List.nil_append] at freed
      exact ⟨next,goes,after,by rw [freed,payloads,payloads,List.map_take],by rw [res,if_neg some_]⟩
    rw [offered] at ends
    exact ⟨s,nodes,batch,went,kept,Option.some.inj list,underway,size,ends (.again true) 1 size rfl (by decide),
      ends (.ready 0) 2 (by simp [Batch.gone,size,long]) (by simp [Batch.Last,size,long]) (by decide)⟩

end Psocks.UdpQueue
