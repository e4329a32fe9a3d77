import Psocks.Lib.Descriptors
import Psocks.Socks5.Server

namespace Psocks.Descriptors
open Socks5 SearchTree

-- What is called on a descriptor, and what is asked without one. A transfer that waits
-- makes its call again and again; here it is made once. `io` is a call of a splice.
inductive Op where
  | recv (n : Nat)
  | send (data : List UInt8)
  | ioctl
  | setsockopt
  | binder (dest : SockaddrIn6)
  | connect (addr : SockaddrIn6)
  | bind (addr : SockaddrIn6)
  | getsockname
  | io
  | resolve (q : ServerQuery)
  | malloc
  | transfers

abbrev OpAnswer : Op → Type
  | .recv _ => Int×List UInt8
  | .getsockname => Option SockaddrIn6
  | .resolve q => ServerAnswer q
  | .malloc => Bool
  | .transfers => List Nat
  | _ => Int

abbrev FdProg := Prog Op OpAnswer

-- A part that only transfers bytes on one descriptor and resolves names.
def onto (fd : Int) : ServerProg α → FdProg α
  | .done a => pure a
  | .recv n next => .call (.on fd (.recv n)) fun r => onto fd (next r.1 r.2)
  | .send data next => .call (.on fd (.send data)) fun r => onto fd (next r)
  | .ask q next => .call (.aside (.resolve q)) fun r => onto fd (next r)

def on (fd : Int) (op : Op) : FdProg (OpAnswer op) := call (.on fd op)

def aside (op : Op) : FdProg (OpAnswer op) := call (.aside op)

-- `sockNonblock` is whether there is SOCK_NONBLOCK.
def hevTaskIoSocketSocket (sockNonblock : Bool) : FdProg Int := do
  let fd : Int ← call .socket
  if sockNonblock then pure fd
  else if fd < 0 then pure fd
  else
    let res : Int ← on fd .ioctl
    if res < 0 then do
      let _ ← call (.close fd)
      pure (-2)
    else pure fd

-- hev_task_add_fd, or where it fails hev_task_mod_fd.
def addFd (fd : Int) : FdProg Unit := do
  let res : Int ← call (.add fd)
  if res < 0 then do
    let _ ← call (.mod fd)
    pure ()
  else pure ()

def modFd (fd : Int) : FdProg Unit := do
  let res : Int ← call (.mod fd)
  if res < 0 then do
    let _ ← call (.add fd)
    pure ()
  else pure ()

variable {rbtree : Balanced HevSocks5User}

def hevSocks5Socket (sockNonblock : Bool) (type : SocketType) : FdProg Int := do
  let fd ← hevTaskIoSocketSocket sockNonblock
  if fd < 0 then pure (-1)
  else
    let res : Int ← on fd .setsockopt
    if res < 0 then do
      let _ ← call (.close fd)
      pure (-1)
    else do
      addFd fd
      if type = .dgram then do
        let _ ← on fd .setsockopt
        pure fd
      else pure fd

def hevSocks5ServerConnect (sockNonblock : Bool) (self : HevSocks5Server rbtree) (addr : SockaddrIn6) :
    FdProg (Int×HevSocks5Server rbtree) := do
  let fd ← hevSocks5Socket sockNonblock .stream
  if fd < 0 then pure (-1,self)
  else
    let res : Int ← on fd (.binder addr)
    if res < 0 then do
      release fd
      pure (-1,self)
    else
      let res : Int ← on fd (.connect addr)
      if res < 0 then do
        release fd
        pure (-1,self)
      else pure (0,{self with fds:=(fd,self.fds.2)})

def hevSocks5ServerUdpBind (self : HevSocks5Server rbtree) (sock : Int) (src : SockaddrIn6) : FdProg (Int×SockaddrIn6) := do
  let own : Option SockaddrIn6 ← on self.fd .getsockname
  match own with
  | none => pure (-1,src)
  | some own => do
    let src := {own with port:=.replicate 2 0}
    let res : Int ← on sock (.bind src)
    if res < 0 then pure (-1,src)
    else
      let bound : Option SockaddrIn6 ← on sock .getsockname
      match bound with
      | none => pure (-1,src)
      | some bound => pure (0,bound)

def hevSocks5ServerBind (sockNonblock : Bool) (self : HevSocks5Server rbtree) (addr : Option SockaddrIn6) :
    FdProg (Int×Option SockaddrIn6×HevSocks5Server rbtree) := do
  let fd ← hevSocks5Socket sockNonblock .dgram
  if fd < 0 then pure (-1,addr,self)
  else
    let self := {self with fds:=(fd,self.fds.2)}
    match addr with
    | none => pure (0,none,self)
    | some addr => do
      let fd ← hevSocks5Socket sockNonblock .dgram
      if fd < 0 then pure (-1,some addr,self)
      else
        let res : Int ← on fd .setsockopt
        if res < 0 then do
          release fd
          pure (-1,some addr,self)
        else
          let (res,src) ← hevSocks5ServerUdpBind self fd addr
          if res < 0 then do
            release fd
            pure (-1,some src,self)
          else pure (0,some src,{self with fds:=(self.fds.1,fd)})

def hevSocks5ServerServe (sockNonblock : Bool) (self : HevSocks5Server rbtree) (request : Request) :
    FdProg (UInt8×SockaddrIn6×HevSocks5Server rbtree) :=
  if request.rep ≠ resRepSucc then pure (request.rep,request.addr,self)
  else if request.cmd = reqCmdConnect then do
    let (res,self) ← hevSocks5ServerConnect sockNonblock self request.addr
    pure (if res < 0 then resRepHost else resRepSucc,request.addr,{self with type:=.tcp})
  else if request.cmd = reqCmdUdpAsc then do
    let (res,addr,self) ← hevSocks5ServerBind sockNonblock self (some request.addr)
    pure (if res < 0 then resRepFail else resRepSucc,addr.getD request.addr,{self with type:=.udpInUdp})
  else if request.cmd = reqCmdFwdUdp then do
    let (res,_,self) ← hevSocks5ServerBind sockNonblock self none
    pure (if res < 0 then resRepFail else resRepSucc,request.addr,{self with type:=.udpInTcp})
  else pure (resRepImpl,request.addr,self)

def hevSocks5ServerHandshake (sockNonblock : Bool) (self : HevSocks5Server rbtree) (stack : Request) :
    FdProg (Int×HevSocks5Server rbtree) := do
  let res ← onto self.fd (hevSocks5ServerAuth self)
  if res < 0 then pure (-1,self)
  else
    let (res,request,self) ← onto self.fd (hevSocks5ServerReadRequest self {stack with rep:=resRepSucc})
    if res < 0 then pure (-1,self)
    else
      let (rep,addr,self) ← hevSocks5ServerServe sockNonblock self request
      let res ← onto self.fd (hevSocks5ServerWriteResponse rep addr)
      pure (if res < 0 ∨ rep ≠ resRepSucc then -1 else 0,self)

-- The loop of hev_task_io_splice, or of a datagram splice: calls on its descriptors, in
-- whatever order and number the readiness of the sockets brings.
def splice (fds : List Int) : FdProg Unit := do
  let script : List Nat ← aside .transfers
  calls fds Op.io script

def hevSocks5TcpSplicer (self : HevSocks5Server rbtree) (fd : Int) : FdProg Int := do
  let cfd := self.fd
  if cfd < 0 then pure (-1)
  else
    addFd fd
    splice [cfd,fd]
    pure 0

def hevSocks5ServerGetFd (self : HevSocks5Server rbtree) : Int :=
  match self.type with
  | .udpInTcp => self.fd
  | .udpInUdp => self.fds.2
  | _ => -1

-- The yielder receives on the connection.
def hevSocks5UdpSplicer (self : HevSocks5Server rbtree) (fdB : Int) : FdProg Int := do
  let buf : Bool ← aside .malloc
  if !buf then pure (-1)
  else
    let fdA := hevSocks5ServerGetFd self
    modFd fdA
    addFd fdB
    splice [fdA,fdB,self.fd]
    pure 0

def hevSocks5ServerService (self : HevSocks5Server rbtree) : FdProg Int :=
  match self.type with
  | .tcp => do
    let _ ← hevSocks5TcpSplicer self self.fds.1
    pure 0
  | .udpInUdp | .udpInTcp => do
    let _ ← hevSocks5UdpSplicer self self.fds.1
    pure 0
  | .none => pure (-1)

def hevSocks5ServerRun (sockNonblock : Bool) (self : HevSocks5Server rbtree) (stack : Request) :
    FdProg (Int×HevSocks5Server rbtree) := do
  addFd self.fd
  let (res,self) ← hevSocks5ServerHandshake sockNonblock self stack
  if res < 0 then pure (-1,self)
  else
    let res ← hevSocks5ServerService self
    pure (if res < 0 then -1 else 0,self)

def hevSocks5ServerConstruct (fd : Int) (auth : Option (HevSocks5Authenticator rbtree)) : HevSocks5Server rbtree :=
  ⟨fd,.none,.unspec,(-1,-1),auth⟩

-- A field that holds a descriptor.
def releaseHeld (fd : Int) : FdProg Unit := if 0 ≤ fd then release fd else pure ()

-- With hev_socks5_destruct at its end.
def hevSocks5ServerDestruct (self : HevSocks5Server rbtree) : FdProg Unit := do
  releaseHeld self.fds.1
  releaseHeld self.fds.2
  releaseHeld self.fd

variable {k : Kernel Op OpAnswer} {t : Table} {fds : List Int} {fd : Int} {self : HevSocks5Server rbtree} {P : α → Prop} {nonblock : Bool}

theorem on_safe (holds : t.Holds fds) (member : fd ∈ fds) (op : Op) : Safe k (on fd op) t fun _ t' => t' = t := safe_on holds member op

theorem aside_safe (op : Op) : Safe k (aside op) t fun _ t' => t' = t := safe_aside op

theorem addFd_safe (holds : t.Holds fds) (member : fd ∈ fds) : Safe k (addFd fd) t fun _ t' => t'.Holds fds := by
  refine safe_bind (safe_add holds member) fun res t' kept => ?_
  split
  · exact safe_bind (safe_mod kept member) fun _ t'' last => safe_pure last
  · exact safe_pure kept

theorem modFd_safe (holds : t.Holds fds) (member : fd ∈ fds) : Safe k (modFd fd) t fun _ t' => t'.Holds fds := by
  refine safe_bind (safe_mod holds member) fun res t' kept => ?_
  split
  · exact safe_bind (safe_add kept member) fun _ t'' last => safe_pure last
  · exact safe_pure kept

-- There is a new descriptor, or none.
def Opened (fds : List Int) (fd : Int) (t : Table) : Prop := fd < 0 ∧ t.Holds fds ∨ 0 ≤ fd ∧ t.Holds (fd::fds)

theorem task_socket_safe (holds : t.Holds fds) : Safe k (hevTaskIoSocketSocket nonblock) t fun fd t' =>
    fd < 0 ∧ t'.Holds fds ∨ 0 ≤ fd ∧ t'.Holds (fd::fds) ∧ fd ∉ t'.polled := by
  refine safe_bind (safe_socket holds) fun fd t' got => ?_
  split
  · exact safe_pure got
  split
  · exact safe_pure got
  rename_i valid
  obtain ⟨bad,_⟩ | ⟨_,kept,idle⟩ := got
  · exact (valid bad).elim
  refine safe_bind (on_safe kept List.mem_cons_self .ioctl) fun res t'' same => ?_
  rw [same]
  split
  · exact safe_bind (safe_close kept idle) fun _ t'' last => safe_pure (.inl ⟨by decide,last⟩)
  · exact safe_pure (.inr ⟨by omega,kept,idle⟩)

theorem socket_safe (holds : t.Holds fds) (type : SocketType) : Safe k (hevSocks5Socket nonblock type) t (Opened fds) := by
  refine safe_bind (task_socket_safe holds) fun fd t' got => ?_
  obtain ⟨bad,kept⟩ | ⟨valid,kept,idle⟩ := got
  · rw [if_pos bad]
    exact safe_pure (.inl ⟨by decide,kept⟩)
  rw [if_neg (by omega)]
  refine safe_bind (on_safe kept List.mem_cons_self .setsockopt) fun res t'' same => ?_
  rw [same]
  split
  · exact safe_bind (safe_close kept idle) fun _ t'' last => safe_pure (.inl ⟨by decide,last⟩)
  refine safe_bind (addFd_safe kept List.mem_cons_self) fun _ t₁ added => ?_
  split
  · refine safe_bind (on_safe added List.mem_cons_self .setsockopt) fun _ t₂ same => ?_
    rw [same]
    exact safe_pure (.inr ⟨valid,added⟩)
  · exact safe_pure (.inr ⟨valid,added⟩)

-- All that a part can come to.
def Results (P : α → Prop) : ServerProg α → Prop
  | .done a => P a
  | .recv _ next => ∀ res data, Results P (next res data)
  | .send _ next => ∀ res, Results P (next res)
  | .ask _ next => ∀ answer, Results P (next answer)

theorem onto_safe {p : ServerProg α} (holds : t.Holds fds) (member : fd ∈ fds) (results : Results P p) :
    Safe k (onto fd p) t fun a t' => P a ∧ t' = t := by
  induction p with
  | done a => exact safe_pure ⟨results,rfl⟩
  | recv n next ih =>
    refine safe_bind (on_safe holds member (.recv n)) fun r t' same => ?_
    rw [same]
    exact ih r.1 r.2 (results r.1 r.2)
  | send data next ih =>
    refine safe_bind (on_safe holds member (.send data)) fun r t' same => ?_
    rw [same]
    exact ih r (results r)
  | ask q next ih =>
    refine safe_bind (aside_safe (.resolve q)) fun r t' same => ?_
    rw [same]
    exact ih r (results r)

theorem results_any (p : ServerProg α) : Results (fun _ => True) p := by
  induction p with
  | done a => trivial
  | recv n next ih => exact ih
  | send data next ih => exact ih
  | ask q next ih => exact ih

theorem results_bind {Q : β → Prop} {p : ServerProg α} {f : α → ServerProg β} (later : ∀ a, Results Q (f a)) : Results Q (p >>= f) := by
  show Results Q (p.bind f)
  induction p with
  | done a => exact later a
  | recv n next ih => exact ih
  | send data next ih => exact ih
  | ask q next ih => exact ih

theorem read_request_keeps (self : HevSocks5Server rbtree) (out : Request) : Results
    (fun r => r.2.2.fd = self.fd ∧ r.2.2.fds = self.fds) (hevSocks5ServerReadRequest self out) := by
  refine results_bind fun ⟨res,req⟩ => ?_
  dsimp only
  split
  · exact ⟨rfl,rfl⟩
  split
  · split
    · exact ⟨rfl,rfl⟩
    split
    · exact ⟨rfl,rfl⟩
    refine results_bind fun ⟨res,addr⟩ => ?_
    dsimp only
    split
    · exact ⟨rfl,rfl⟩
    refine results_bind fun ⟨res,saddr,family⟩ => ?_
    dsimp only
    split
    · exact ⟨rfl,rfl⟩
    · exact ⟨rfl,rfl⟩
  · exact ⟨rfl,rfl⟩

-- The descriptors in the fields of a server, and the ones that its type needs.
def held (self : HevSocks5Server rbtree) : List Int := [self.fds.1,self.fds.2,self.fd].filter (0 ≤ ·)

def Serving (self : HevSocks5Server rbtree) : Prop :=
  match self.type with
  | .none => True
  | .tcp | .udpInTcp => 0 ≤ self.fds.1
  | .udpInUdp => 0 ≤ self.fds.1 ∧ 0 ≤ self.fds.2

structure Idle (server : HevSocks5Server rbtree) (t : Table) : Prop where
  fd : 0 ≤ server.fd
  fds : server.fds = (-1,-1)
  holds : t.Holds [server.fd]

theorem failed {Q : Prop} (fine : (0 : Int) ≤ -1) : Q := absurd fine (by decide)

theorem connect_safe (idle : Idle self t) (addr : SockaddrIn6) : Safe k (hevSocks5ServerConnect nonblock self addr) t fun r t' =>
    t'.Holds (held r.2) ∧ r.2.fd = self.fd ∧ (0 ≤ r.1 → 0 ≤ r.2.fds.1) := by
  obtain ⟨valid,fds,holds⟩ := idle
  have none_ : held self = [self.fd] := by simp [held,fds,valid]
  refine safe_bind (socket_safe holds .stream) fun fd t' got => ?_
  obtain ⟨bad,kept⟩ | ⟨good,kept⟩ := got
  · rw [if_pos bad]
    exact safe_pure ⟨none_ ▸ kept,rfl,failed⟩
  rw [if_neg (by omega)]
  refine safe_bind (on_safe kept List.mem_cons_self (.binder addr)) fun res t'' same => ?_
  rw [same]
  split
  · exact safe_bind (safe_release kept) fun _ t'' last => safe_pure ⟨none_ ▸ last,rfl,failed⟩
  refine safe_bind (on_safe kept List.mem_cons_self (.connect addr)) fun res t'' same => ?_
  rw [same]
  split
  · exact safe_bind (safe_release kept) fun _ t'' last => safe_pure ⟨none_ ▸ last,rfl,failed⟩
  · have one : held {self with fds:=(fd,self.fds.2)} = [fd,self.fd] := by simp [held,fds,valid,good]
    exact safe_pure ⟨one ▸ kept,rfl,fun _ => good⟩

theorem udp_bind_safe (self : HevSocks5Server rbtree) {sock : Int} (holds : t.Holds fds) (own : self.fd ∈ fds) (new : sock ∈ fds) (src : SockaddrIn6) :
    Safe k (hevSocks5ServerUdpBind self sock src) t fun _ t' => t' = t := by
  refine safe_bind (on_safe holds own .getsockname) fun name t' same => ?_
  rw [same]
  cases name with
  | none => exact safe_pure rfl
  | some name =>
    refine safe_bind (on_safe holds new _) fun res t'' same => ?_
    rw [same]
    split
    · exact safe_pure rfl
    refine safe_bind (on_safe holds new .getsockname) fun bound t'' same => ?_
    rw [same]
    cases bound with
    | none => exact safe_pure rfl
    | some bound => exact safe_pure rfl

theorem bind_safe (idle : Idle self t) (addr : Option SockaddrIn6) : Safe k (hevSocks5ServerBind nonblock self addr) t fun r t' =>
    t'.Holds (held r.2.2) ∧ r.2.2.fd = self.fd ∧ (0 ≤ r.1 → 0 ≤ r.2.2.fds.1 ∧ (addr.isSome → 0 ≤ r.2.2.fds.2)) := by
  obtain ⟨valid,fds,holds⟩ := idle
  have none_ : held self = [self.fd] := by simp [held,fds,valid]
  refine safe_bind (socket_safe holds .dgram) fun fd t' got => ?_
  obtain ⟨bad,kept⟩ | ⟨good,kept⟩ := got
  · rw [if_pos bad]
    exact safe_pure ⟨none_ ▸ kept,rfl,failed⟩
  rw [if_neg (by omega)]
  have one : held {self with fds:=(fd,self.fds.2)} = [fd,self.fd] := by simp [held,fds,valid,good]
  cases addr with
  | none => exact safe_pure ⟨one ▸ kept,rfl,fun _ => ⟨good,fun some_ => by cases some_⟩⟩
  | some addr =>
    refine safe_bind (socket_safe kept .dgram) fun fd' t'' got => ?_
    obtain ⟨bad,kept'⟩ | ⟨good',kept'⟩ := got
    · rw [if_pos bad]
      exact safe_pure ⟨one ▸ kept',rfl,failed⟩
    rw [if_neg (by omega)]
    refine safe_bind (on_safe kept' List.mem_cons_self .setsockopt) fun res t₁ same => ?_
    rw [same]
    split
    · exact safe_bind (safe_release kept') fun _ t₂ last => safe_pure ⟨one ▸ last,rfl,failed⟩
    refine safe_bind (udp_bind_safe {self with fds:=(fd,self.fds.2)} kept' (by simp) List.mem_cons_self addr) fun ⟨res,src⟩ t₁ same => ?_
    rw [same]
    dsimp only
    split
    · exact safe_bind (safe_release kept') fun _ t₂ last => safe_pure ⟨one ▸ last,rfl,failed⟩
    · have two : held {self with fds:=(fd,fd')} = [fd,fd',self.fd] := by simp [held,valid,good,good']
      refine safe_pure ⟨?_,rfl,fun _ => ⟨good,fun _ => good'⟩⟩
      exact two ▸ kept'.perm (List.Perm.swap fd fd' [self.fd])

theorem serve_safe (idle : Idle self t) (request : Request) :
    Safe k (hevSocks5ServerServe nonblock self request) t fun r t' =>
      t'.Holds (held r.2.2) ∧ r.2.2.fd = self.fd ∧ (r.1 = resRepSucc → Serving r.2.2) := by
  have none_ : held self = [self.fd] := by simp [held,idle.fds,idle.fd]
  have host : resRepHost ≠ resRepSucc := by decide
  have fail : resRepFail ≠ resRepSucc := by decide
  unfold hevSocks5ServerServe
  split
  · rename_i refused
    exact safe_pure ⟨none_ ▸ idle.holds,rfl,fun same => (refused same).elim⟩
  split
  · refine safe_bind (connect_safe idle request.addr) fun ⟨res,next⟩ t' ⟨kept,same,open_⟩ => safe_pure ⟨kept,same,?_⟩
    intro code
    by_cases bad : res < 0
    · exact (host (by simpa [bad] using code)).elim
    · exact open_ (by omega)
  split
  · refine safe_bind (bind_safe idle (some request.addr)) fun ⟨res,addr,next⟩ t' ⟨kept,same,open_⟩ => safe_pure ⟨kept,same,?_⟩
    intro code
    by_cases bad : res < 0
    · exact (fail (by simpa [bad] using code)).elim
    · obtain ⟨first,second⟩ := open_ (by simpa using bad)
      exact ⟨first,second rfl⟩
  split
  · refine safe_bind (bind_safe idle none) fun ⟨res,addr,next⟩ t' ⟨kept,same,open_⟩ => safe_pure ⟨kept,same,?_⟩
    intro code
    by_cases bad : res < 0
    · exact (fail (by simpa [bad] using code)).elim
    · exact (open_ (by simpa using bad)).1
  · exact safe_pure ⟨none_ ▸ idle.holds,rfl,fun code : resRepImpl = resRepSucc => absurd code (by decide)⟩

theorem handshake_safe (idle : Idle self t) (stack : Request) :
    Safe k (hevSocks5ServerHandshake nonblock self stack) t fun r t' =>
      t'.Holds (held r.2) ∧ 0 ≤ r.2.fd ∧ (0 ≤ r.1 → Serving r.2) := by
  have none_ : held self = [self.fd] := by simp [held,idle.fds,idle.fd]
  refine safe_bind (onto_safe idle.holds List.mem_cons_self (results_any _)) fun res t' ⟨_,same⟩ => ?_
  rw [same]
  split
  · exact safe_pure ⟨none_ ▸ idle.holds,idle.fd,failed⟩
  refine safe_bind (onto_safe idle.holds List.mem_cons_self (read_request_keeps _ _)) fun ⟨res,request,next⟩ t' ⟨⟨fd,fds⟩,same⟩ => ?_
  rw [same]
  dsimp only at fd fds ⊢
  have waiting : Idle next t := ⟨fd ▸ idle.fd,fds.trans idle.fds,fd ▸ idle.holds⟩
  have still : held next = [next.fd] := by simp [held,waiting.fds,waiting.fd]
  split
  · exact safe_pure ⟨still ▸ waiting.holds,waiting.fd,failed⟩
  refine safe_bind (serve_safe waiting request) fun ⟨rep,addr,last⟩ t' ⟨kept,same,serving⟩ => ?_
  dsimp only at kept same serving ⊢
  have valid : 0 ≤ last.fd := same ▸ waiting.fd
  have member : last.fd ∈ held last := by simp [held,valid]
  refine safe_bind (onto_safe kept member (results_any _)) fun res t'' ⟨_,same⟩ => ?_
  rw [same]
  refine safe_pure ⟨kept,valid,fun fine => serving ?_⟩
  by_contra other
  rw [if_pos (.inr other)] at fine
  exact failed fine

theorem splice_safe {some_ : List Int} (holds : t.Holds fds) (within : ∀ fd ∈ some_, fd ∈ fds) :
    Safe k (splice some_) t fun _ t' => t' = t := by
  refine safe_bind (aside_safe .transfers) fun script t' same => ?_
  rw [same]
  exact safe_calls holds within Op.io script

theorem held_mem (member : fd ∈ [self.fds.1,self.fds.2,self.fd]) (valid : 0 ≤ fd) : fd ∈ held self :=
  List.mem_filter.mpr ⟨member,by simpa using valid⟩

theorem tcp_splicer_safe (holds : t.Holds (held self)) (base : 0 ≤ self.fd) (member : fd ∈ held self) :
    Safe k (hevSocks5TcpSplicer self fd) t fun _ t' => t'.Holds (held self) := by
  unfold hevSocks5TcpSplicer
  dsimp only
  rw [if_neg (by omega)]
  refine safe_bind (addFd_safe holds member) fun _ t' kept => ?_
  have own : self.fd ∈ held self := held_mem (by simp) base
  refine safe_bind (splice_safe kept (by simp [own,member])) fun _ t'' same => ?_
  rw [same]
  exact safe_pure kept

theorem udp_splicer_safe (holds : t.Holds (held self)) (base : 0 ≤ self.fd) (member : fd ∈ held self)
    (near : hevSocks5ServerGetFd self ∈ held self) :
    Safe k (hevSocks5UdpSplicer self fd) t fun _ t' => t'.Holds (held self) := by
  refine safe_bind (aside_safe .malloc) fun buf t' same => ?_
  rw [same]
  split
  · exact safe_pure holds
  refine safe_bind (modFd_safe holds near) fun _ t₁ kept => ?_
  refine safe_bind (addFd_safe kept member) fun _ t₂ kept => ?_
  have own : self.fd ∈ held self := held_mem (by simp) base
  refine safe_bind (splice_safe kept (by simp [own,member,near])) fun _ t₃ same => ?_
  rw [same]
  exact safe_pure kept

theorem service_safe (holds : t.Holds (held self)) (base : 0 ≤ self.fd) (serving : Serving self) :
    Safe k (hevSocks5ServerService self) t fun _ t' => t'.Holds (held self) := by
  have member : 0 ≤ self.fds.1 → self.fds.1 ∈ held self := held_mem (by simp)
  unfold Serving at serving
  unfold hevSocks5ServerService
  cases type : self.type with
  | none => exact safe_pure holds
  | tcp =>
    rw [type] at serving
    exact safe_bind (tcp_splicer_safe holds base (member serving)) fun _ t' kept => safe_pure kept
  | udpInTcp =>
    rw [type] at serving
    have near : hevSocks5ServerGetFd self ∈ held self := by
      rw [hevSocks5ServerGetFd,type]
      exact held_mem (by simp) base
    exact safe_bind (udp_splicer_safe holds base (member serving) near) fun _ t' kept => safe_pure kept
  | udpInUdp =>
    rw [type] at serving
    have near : hevSocks5ServerGetFd self ∈ held self := by
      rw [hevSocks5ServerGetFd,type]
      exact held_mem (by simp) serving.2
    exact safe_bind (udp_splicer_safe holds base (member serving.1) near) fun _ t' kept => safe_pure kept

theorem run_safe (idle : Idle self t) (stack : Request) : Safe k (hevSocks5ServerRun nonblock self stack) t fun r t' =>
    t'.Holds (held r.2) := by
  refine safe_bind (addFd_safe idle.holds List.mem_cons_self) fun _ t' kept => ?_
  refine safe_bind (handshake_safe ⟨idle.fd,idle.fds,kept⟩ stack) fun ⟨res,next⟩ t'' ⟨kept,base,serving⟩ => ?_
  dsimp only at kept base serving ⊢
  split
  · exact safe_pure kept
  · exact safe_bind (service_safe kept base (serving (by omega))) fun _ t₁ kept => safe_pure kept

theorem releaseHeld_safe (holds : t.Holds ((fd::rest).filter (0 ≤ ·))) : Safe k (releaseHeld fd) t fun _ t' =>
    t'.Holds (rest.filter (0 ≤ ·)) := by
  unfold releaseHeld
  split
  · rename_i valid
    rw [List.filter_cons_of_pos (by simpa using valid)] at holds
    exact safe_release holds
  · rename_i missing
    rw [List.filter_cons_of_neg (by simpa using missing)] at holds
    exact safe_pure holds

theorem destruct_safe (holds : t.Holds (held self)) : Safe k (hevSocks5ServerDestruct self) t fun _ t' => t'.Holds [] := by
  refine safe_bind (releaseHeld_safe holds) fun _ t₁ kept => ?_
  refine safe_bind (releaseHeld_safe kept) fun _ t₂ kept => ?_
  exact releaseHeld_safe kept

-- A session from the descriptor that was accepted to its end, whether it was run or not.
def serverLife (nonblock : Bool) (fd : Int) (auth : Option (HevSocks5Authenticator rbtree)) (stack : Option Request) : FdProg Unit := do
  let self := hevSocks5ServerConstruct fd auth
  match stack with
  | some stack =>
    let (_,self) ← hevSocks5ServerRun nonblock self stack
    hevSocks5ServerDestruct self
  | none => hevSocks5ServerDestruct self

-- One descriptor is open, and polled or not.
def accepted (fd : Int) (polled : Bool) : Table := ⟨[(fd,0)],if polled then [fd] else [],1,[]⟩

theorem accepted_holds (fd : Int) (polled : Bool) : (accepted fd polled).Holds [fd] := by
  refine ⟨List.Perm.refl _,List.nodup_singleton fd,?_,List.Perm.refl _⟩
  intro other member
  unfold accepted at member
  split at member
  · exact member
  · cases member

theorem server_life_safe (k : Kernel Op OpAnswer) (nonblock : Bool) (valid : 0 ≤ fd) (polled : Bool)
    (auth : Option (HevSocks5Authenticator rbtree)) (stack : Option Request) :
    Safe k (serverLife nonblock fd auth stack) (accepted fd polled) fun _ t' => t'.Settled := by
  have idle : Idle (hevSocks5ServerConstruct fd auth) (accepted fd polled) := ⟨valid,rfl,accepted_holds fd polled⟩
  cases stack with
  | none =>
    have one : held (hevSocks5ServerConstruct fd auth) = [fd] := by simp [held,hevSocks5ServerConstruct,valid]
    exact safe_weaken (destruct_safe (one ▸ idle.holds)) fun _ t' last => last.settled
  | some stack =>
    refine safe_bind (run_safe idle stack) fun r t' kept => ?_
    exact safe_weaken (destruct_safe kept) fun _ t'' last => last.settled

end Psocks.Descriptors
