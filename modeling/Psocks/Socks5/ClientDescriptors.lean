import Psocks.Socks5.Client
import Psocks.Socks5.ServerDescriptors

namespace Psocks.Descriptors
open Socks5 SearchTree

-- A client with the descriptors in its fields: that of HevSocks5, and that which
-- HevSocks5ClientUDP has beside it.
structure ClientFds where
  base : HevSocks5Client
  addrFamily : HevSocks5AddrFamily
  fd : Int
  udpFd : Int

-- Where the server is, and what set_upstream_addr of a session makes of the address in a
-- reply before it hands it on.
structure Proxy where
  addr : CString
  port : Vector UInt8 2
  pipeline : Bool
  rename : List UInt8 → List UInt8

variable {rbtree : Balanced HevSocks5User} {k : Kernel Op OpAnswer} {t : Table} {fds : List Int} {fd : Int} {nonblock : Bool} {self : ClientFds}
variable {srv : Proxy}

def zeroAddr : SockaddrIn6 := ⟨0,.replicate 2 0,.replicate 16 0⟩

-- Names are resolved without any descriptor of the session's.
def resolving : ServerProg α → FdProg α := onto (-1)

def hevSocks5ClientConnect (nonblock : Bool) (srv : Proxy) (self : ClientFds) : FdProg (Int×ClientFds) := do
  let (res,saddr,family) ← resolving (hevSocks5NameIntoSockaddr6 srv.addr srv.port zeroAddr self.addrFamily)
  if res < 0 then pure (-1,self)
  else
    let fd ← hevSocks5Socket nonblock .stream
    if fd < 0 then pure (-1,self)
    else
      let res : Int ← on fd (.binder saddr)
      if res < 0 then do
        release fd
        pure (-1,self)
      else
        let res : Int ← on fd (.connect saddr)
        if res < 0 then do
          release fd
          pure (-1,self)
        else pure (0,{self with fd:=fd,addrFamily:=family})

def hevSocks5ClientUdpSetUpstreamAddr (nonblock : Bool) (self : ClientFds) (addr : List UInt8) : FdProg (Int×ClientFds) :=
  if self.base.type ≠ .udpInUdp then pure (0,self)
  else do
    let (res,saddr,_) ← resolving (hevSocks5AddrIntoSockaddr6 addr zeroAddr self.addrFamily)
    if res < 0 then pure (-1,self)
    else
      let fd ← hevSocks5Socket nonblock .dgram
      if fd < 0 then pure (-1,self)
      else
        let res : Int ← on fd (.binder saddr)
        if res < 0 then do
          release fd
          pure (-1,self)
        else
          let res : Int ← on fd (.connect saddr)
          if res < 0 then do
            release fd
            pure (-1,self)
          else pure (0,{self with udpFd:=fd})

-- The virtual method: of HevSocks5ClientTCP, or of HevSocks5SessionUDP.
def setUpstreamAddr (nonblock : Bool) (srv : Proxy) (self : ClientFds) (addr : List UInt8) : FdProg (Int×ClientFds) :=
  if self.base.type = .tcp then pure (0,self) else hevSocks5ClientUdpSetUpstreamAddr nonblock self (srv.rename addr)

-- A handshake on the connection of a client.
def handshakeOnto (nonblock : Bool) (srv : Proxy) : ClientProg α → ClientFds → FdProg (α×ClientFds)
  | .done a, self => pure (a,self)
  | .recv n next, self => .call (.on self.fd (.recv n)) fun r => handshakeOnto nonblock srv (next r.1 r.2) self
  | .send data next, self => .call (.on self.fd (.send data)) fun r => handshakeOnto nonblock srv (next r) self
  | .ask (.setUpstreamAddr addr) next, self => do
    let (res,self) ← setUpstreamAddr nonblock srv self addr
    handshakeOnto nonblock srv (next res) self

def hevSocks5SessionTcpSplice (self : ClientFds) : FdProg Unit := do
  let buffer : Bool ← aside .malloc
  if !buffer then pure ()
  else splice [self.fd]

def hevSocks5ClientUdpGetFd (self : ClientFds) : Int :=
  match self.base.type with
  | .udpInTcp => self.fd
  | .udpInUdp => self.udpFd
  | _ => -1

def hevSocks5SessionUdpSplice (self : ClientFds) : FdProg Unit := do
  let fd := hevSocks5ClientUdpGetFd self
  modFd fd
  splice [fd,self.fd]

def hevSocks5SessionSplice (self : ClientFds) : FdProg Unit :=
  if self.base.type = .tcp then hevSocks5SessionTcpSplice self else hevSocks5SessionUdpSplice self

def hevSocks5SessionRun (nonblock : Bool) (srv : Proxy) (self : ClientFds) : FdProg ClientFds := do
  let (res,self) ← hevSocks5ClientConnect nonblock srv self
  if res < 0 then pure self
  else
    let (res,self) ← handshakeOnto nonblock srv (hevSocks5ClientHandshake self.base srv.pipeline) self
    if res < 0 then pure self
    else do
      hevSocks5SessionSplice self
      pure self

def clientConstruct (base : HevSocks5Client) : ClientFds := ⟨base,.unspec,-1,-1⟩

def hevSocks5Destruct (self : ClientFds) : FdProg Unit := releaseHeld self.fd

def hevSocks5ClientUdpDestruct (self : ClientFds) : FdProg Unit := do
  releaseHeld self.udpFd
  hevSocks5Destruct self

-- The classes of a session lead to one of these two.
def hevSocks5SessionDestruct (self : ClientFds) : FdProg Unit :=
  if self.base.type = .tcp then hevSocks5Destruct self else hevSocks5ClientUdpDestruct self

-- Nothing but questions.
def Asking : ServerProg α → Prop
  | .done _ => True
  | .recv _ _ => False
  | .send _ _ => False
  | .ask _ next => ∀ answer, Asking (next answer)

theorem resolving_safe {p : ServerProg α} (asking : Asking p) : Safe k (resolving p) t fun _ t' => t' = t := by
  induction p with
  | done a => exact safe_pure rfl
  | recv n next ih => cases asking
  | send data next ih => cases asking
  | ask q next ih =>
    refine safe_bind (aside_safe (.resolve q)) fun r t' same => ?_
    rw [same]
    exact ih r (asking r)

theorem asking_bind {p : ServerProg α} {f : α → ServerProg β} (first : Asking p) (later : ∀ a, Asking (f a)) : Asking (p >>= f) := by
  show Asking (p.bind f)
  induction p with
  | done a => exact later a
  | recv n next ih => cases first
  | send data next ih => cases first
  | ask q next ih => exact fun answer => ih answer (first answer)

theorem name_asking (name : CString) (port : Vector UInt8 2) (saddr : SockaddrIn6) (family : HevSocks5AddrFamily) :
    Asking (hevSocks5NameIntoSockaddr6 name port saddr family) := by
  have ipv4 : ∀ saddr, Asking (hevSocks5NameResolveIpv4 name saddr) := by
    intro saddr answer
    cases answer <;> trivial
  have ipv6 : ∀ saddr, Asking (hevSocks5NameResolveIpv6 name saddr) := by
    intro saddr answer
    cases answer <;> trivial
  have named : ∀ saddr, Asking (hevSocks5NameResolveName name saddr family) := by
    intro saddr answer
    cases answer with
    | none => trivial
    | some found => cases found <;> trivial
  refine asking_bind (ipv4 _) fun ⟨res,saddr⟩ => ?_
  dsimp only
  split
  · trivial
  refine asking_bind (ipv6 _) fun ⟨res,saddr⟩ => ?_
  dsimp only
  split
  · trivial
  · exact named saddr

theorem addr_asking (addr : List UInt8) (saddr : SockaddrIn6) (family : HevSocks5AddrFamily) :
    Asking (hevSocks5AddrIntoSockaddr6 addr saddr family) := by
  unfold hevSocks5AddrIntoSockaddr6
  dsimp only
  split
  · trivial
  split
  · trivial
  split
  · exact name_asking _ _ _ _
  · trivial

-- The descriptors of a client that is connected.
def clientHeld (self : ClientFds) : List Int := [self.udpFd,self.fd].filter (0 ≤ ·)

structure Connected (client : ClientFds) (t : Table) : Prop where
  fd : 0 ≤ client.fd
  holds : t.Holds (clientHeld client)

theorem Connected.member (connected : Connected self t) : self.fd ∈ clientHeld self :=
  List.mem_filter.mpr ⟨by simp,by simpa using connected.fd⟩

structure Empty (client : ClientFds) (t : Table) : Prop where
  fd : client.fd = -1
  udpFd : client.udpFd = -1
  holds : t.Holds []

theorem client_connect_safe (none_ : Empty self t) : Safe k (hevSocks5ClientConnect nonblock srv self) t fun r t' =>
    r.2.base = self.base ∧ r.2.udpFd = -1 ∧ (r.1 < 0 ∧ Empty r.2 t' ∨ 0 ≤ r.1 ∧ Connected r.2 t') := by
  have gone : (-1 : Int) < 0 := by decide
  refine safe_bind (resolving_safe (name_asking _ _ _ _)) fun ⟨res,saddr,family⟩ t' same => ?_
  rw [same]
  dsimp only
  split
  · exact safe_pure ⟨rfl,none_.udpFd,.inl ⟨gone,none_⟩⟩
  refine safe_bind (socket_safe none_.holds .stream) fun fd t' got => ?_
  obtain ⟨bad,kept⟩ | ⟨good,kept⟩ := got
  · rw [if_pos bad]
    exact safe_pure ⟨rfl,none_.udpFd,.inl ⟨gone,none_.fd,none_.udpFd,kept⟩⟩
  rw [if_neg (by omega)]
  refine safe_bind (on_safe kept List.mem_cons_self (.binder saddr)) fun res t'' same => ?_
  rw [same]
  split
  · exact safe_bind (safe_release kept) fun _ t'' last => safe_pure ⟨rfl,none_.udpFd,.inl ⟨gone,none_.fd,none_.udpFd,last⟩⟩
  refine safe_bind (on_safe kept List.mem_cons_self (.connect saddr)) fun res t'' same => ?_
  rw [same]
  split
  · exact safe_bind (safe_release kept) fun _ t'' last => safe_pure ⟨rfl,none_.udpFd,.inl ⟨gone,none_.fd,none_.udpFd,last⟩⟩
  · have one : clientHeld {self with fd:=fd,addrFamily:=family} = [fd] := by simp [clientHeld,none_.udpFd,good]
    exact safe_pure ⟨rfl,none_.udpFd,.inr ⟨Int.le_refl 0,good,one ▸ kept⟩⟩

-- What a handshake leaves: a client on the same connection, with its second descriptor
-- where it needs one.
structure Ready (before : ClientFds) (res : Int) (after : ClientFds) (t : Table) : Prop where
  base : after.base = before.base
  connected : Connected after t
  associated : 0 ≤ res → after.base.type = .udpInUdp → 0 ≤ after.udpFd
  single : after.base.type = .tcp → after.udpFd = -1

theorem ready_same (connected : Connected self t) (unset : self.udpFd = -1) (bad : res < 0) : Ready self res self t :=
  ⟨rfl,connected,fun fine => by omega,fun _ => unset⟩

theorem udp_upstream_safe (connected : Connected self t) (unset : self.udpFd = -1) (datagrams : self.base.type ≠ .tcp) (addr : List UInt8) :
    Safe k (hevSocks5ClientUdpSetUpstreamAddr nonblock self addr) t fun r t' => Ready self r.1 r.2 t' := by
  have one : clientHeld self = [self.fd] := by simp [clientHeld,unset,connected.fd]
  have holds := one ▸ connected.holds
  have again : ∀ t', t'.Holds [self.fd] → Ready self (-1) self t' := fun t' kept =>
    ready_same ⟨connected.fd,one ▸ kept⟩ unset (by decide)
  unfold hevSocks5ClientUdpSetUpstreamAddr
  split
  · rename_i other
    exact safe_pure ⟨rfl,connected,fun _ same => (other same).elim,fun _ => unset⟩
  refine safe_bind (resolving_safe (addr_asking _ _ _)) fun ⟨res,saddr,family⟩ t' same => ?_
  rw [same]
  dsimp only
  split
  · exact safe_pure (again t holds)
  refine safe_bind (socket_safe holds .dgram) fun fd t' got => ?_
  obtain ⟨bad,kept⟩ | ⟨good,kept⟩ := got
  · rw [if_pos bad]
    exact safe_pure (again t' kept)
  rw [if_neg (by omega)]
  refine safe_bind (on_safe kept List.mem_cons_self (.binder saddr)) fun res t'' same => ?_
  rw [same]
  split
  · exact safe_bind (safe_release kept) fun _ t'' last => safe_pure (again t'' last)
  refine safe_bind (on_safe kept List.mem_cons_self (.connect saddr)) fun res t'' same => ?_
  rw [same]
  split
  · exact safe_bind (safe_release kept) fun _ t'' last => safe_pure (again t'' last)
  · have two : clientHeld {self with udpFd:=fd} = [fd,self.fd] := by simp [clientHeld,connected.fd,good]
    exact safe_pure ⟨rfl,⟨connected.fd,two ▸ kept⟩,fun _ _ => good,fun tcp => (datagrams tcp).elim⟩

theorem upstream_safe (connected : Connected self t) (unset : self.udpFd = -1) (addr : List UInt8) :
    Safe k (setUpstreamAddr nonblock srv self addr) t fun r t' => Ready self r.1 r.2 t' := by
  unfold setUpstreamAddr
  split
  · rename_i tcp
    exact safe_pure ⟨rfl,connected,fun _ same => (by rw [tcp] at same; cases same),fun _ => unset⟩
  · rename_i datagrams
    exact udp_upstream_safe connected unset datagrams _

-- Nothing but transfers.
def Quiet : ClientProg α → Prop
  | .done _ => True
  | .recv _ next => ∀ res data, Quiet (next res data)
  | .send _ next => ∀ res, Quiet (next res)
  | .ask _ _ => False

theorem handshake_bind (p : ClientProg α) (f : α → ClientProg β) (self : ClientFds) :
    handshakeOnto nonblock srv (p >>= f) self = handshakeOnto nonblock srv p self >>= fun r => handshakeOnto nonblock srv (f r.1) r.2 := by
  show handshakeOnto nonblock srv (p.bind f) self = (handshakeOnto nonblock srv p self).bind _
  induction p generalizing self with
  | done a => rfl
  | recv n next ih => simp only [Program.Prog.bind,handshakeOnto,Prog.bind,ih]
  | send data next ih => simp only [Program.Prog.bind,handshakeOnto,Prog.bind,ih]
  | ask q next ih =>
    obtain ⟨addr⟩ := q
    simp only [Program.Prog.bind,handshakeOnto,ih]
    exact (bind_assoc _ _ _).symm

theorem then_safe {p : ClientProg α} {f : α → ClientProg β} {first : α×ClientFds → Table → Prop} {post : β×ClientFds → Table → Prop}
    (safe : Safe k (handshakeOnto nonblock srv p self) t first)
    (later : ∀ a self' t', first (a,self') t' → Safe k (handshakeOnto nonblock srv (f a) self') t' post) :
    Safe k (handshakeOnto nonblock srv (p >>= f) self) t post := by
  rw [handshake_bind]
  exact safe_bind safe fun ⟨a,self'⟩ t' holds => later a self' t' holds

theorem quiet_safe {p : ClientProg α} (connected : Connected self t) (quiet : Quiet p) :
    Safe k (handshakeOnto nonblock srv p self) t fun r t' => r.2 = self ∧ t' = t := by
  induction p with
  | done a => exact safe_pure ⟨rfl,rfl⟩
  | recv n next ih =>
    refine safe_bind (on_safe connected.holds connected.member (.recv n)) fun r t' same => ?_
    rw [same]
    exact ih r.1 r.2 (quiet r.1 r.2)
  | send data next ih =>
    refine safe_bind (on_safe connected.holds connected.member (.send data)) fun r t' same => ?_
    rw [same]
    exact ih r (quiet r)
  | ask q next ih => cases quiet

theorem stage_safe {p : ClientProg α} {f : α → ClientProg β} {post : β×ClientFds → Table → Prop} (connected : Connected self t) (quiet : Quiet p)
    (later : ∀ a, Safe k (handshakeOnto nonblock srv (f a) self) t post) : Safe k (handshakeOnto nonblock srv (p >>= f) self) t post :=
  then_safe (quiet_safe connected quiet) fun a self' t' ⟨same,still⟩ => by
    cases (same : self' = self)
    cases still
    exact later a

theorem quiet_recv (n : Nat) : Quiet (Program.recv n : ClientProg _) := fun _ _ => trivial

theorem read_response_safe (connected : Connected self t) (unset : self.udpFd = -1) :
    Safe k (handshakeOnto nonblock srv hevSocks5ClientReadResponse self) t fun r t' => Ready self r.1 r.2 t' := by
  have bad : Safe k (handshakeOnto nonblock srv (pure (-1)) self) t fun r t' => Ready self r.1 r.2 t' :=
    safe_pure (ready_same connected unset (by decide : (-1 : Int) < 0))
  refine stage_safe connected (quiet_recv 4) fun ⟨ret,res⟩ => ?_
  dsimp only
  split
  · exact bad
  split
  · split
    · exact bad
    split
    · exact bad
    split
    · exact bad
    rename_i addrlen _
    refine stage_safe connected (quiet_recv addrlen) fun ⟨ret,addr⟩ => ?_
    dsimp only
    split
    · exact bad
    refine safe_bind (upstream_safe connected unset _) fun ⟨res,next⟩ t' ready => safe_pure ⟨ready.base,ready.connected,?_,ready.single⟩
    intro fine
    refine ready.associated ?_
    by_contra bad
    simp only [if_pos (show res < 0 by simpa using bad)] at fine
    exact failed fine
  · exact bad

theorem quiet_bind {p : ClientProg α} {f : α → ClientProg β} (first : Quiet p) (later : ∀ a, Quiet (f a)) : Quiet (p >>= f) := by
  show Quiet (p.bind f)
  induction p with
  | done a => exact later a
  | recv n next ih => exact fun res data => ih res data (first res data)
  | send data next ih => exact fun res => ih res (first res)
  | ask q next ih => cases first

theorem methods_quiet (client : HevSocks5Client) : Quiet (hevSocks5ClientWriteAuthMethods client) := fun _ => trivial

theorem creds_quiet (client : HevSocks5Client) : Quiet (hevSocks5ClientWriteAuthCreds client) := by
  unfold hevSocks5ClientWriteAuthCreds
  split
  · trivial
  · exact fun _ => trivial

theorem request_quiet (client : HevSocks5Client) : Quiet (hevSocks5ClientWriteRequest client) := by
  unfold hevSocks5ClientWriteRequest
  split
  · exact fun _ => trivial
  · trivial

theorem method_quiet : Quiet hevSocks5ClientReadAuthMethod := by
  refine quiet_bind (quiet_recv 2) fun ⟨res,auth⟩ => ?_
  dsimp only
  split
  · trivial
  split
  · trivial
  · trivial

theorem reply_quiet : Quiet hevSocks5ClientReadAuthCreds := by
  refine quiet_bind (quiet_recv 2) fun ⟨res,auth⟩ => ?_
  dsimp only
  split
  · trivial
  split
  · trivial
  · trivial

-- The last stages of the two handshakes.
theorem response_stage (connected : Connected self t) (unset : self.udpFd = -1) (res : Int) :
    Safe k (handshakeOnto nonblock srv (if res < 0 then pure (-1) else do
      let res ← hevSocks5ClientReadResponse
      pure (if res < 0 then -1 else 0 : Int)) self) t fun r t' => Ready self r.1 r.2 t' := by
  split
  · exact safe_pure (ready_same connected unset (by decide : (-1 : Int) < 0))
  refine then_safe (read_response_safe connected unset) fun res next t' ready => safe_pure ⟨ready.base,ready.connected,?_,ready.single⟩
  intro fine
  refine ready.associated ?_
  by_contra bad
  simp only [if_pos (show res < 0 by simpa using bad)] at fine
  exact failed fine

theorem request_stage (connected : Connected self t) (unset : self.udpFd = -1) (client : HevSocks5Client) (res : Int) :
    Safe k (handshakeOnto nonblock srv (if res < 0 then pure (-1) else do
      let res ← hevSocks5ClientWriteRequest client
      if res < 0 then pure (-1)
      else
        let res ← hevSocks5ClientReadResponse
        pure (if res < 0 then -1 else 0 : Int)) self) t fun r t' => Ready self r.1 r.2 t' := by
  split
  · exact safe_pure (ready_same connected unset (by decide : (-1 : Int) < 0))
  · exact stage_safe connected (request_quiet client) (response_stage connected unset)

theorem client_handshake_safe (connected : Connected self t) (unset : self.udpFd = -1) (client : HevSocks5Client) (pipeline : Bool) :
    Safe k (handshakeOnto nonblock srv (hevSocks5ClientHandshake client pipeline) self) t fun r t' => Ready self r.1 r.2 t' := by
  have bad : Safe k (handshakeOnto nonblock srv (pure (-1)) self) t fun r t' => Ready self r.1 r.2 t' :=
    safe_pure (ready_same connected unset (by decide : (-1 : Int) < 0))
  unfold hevSocks5ClientHandshake
  split
  · refine stage_safe connected (methods_quiet client) fun res => ?_
    split
    · exact bad
    refine stage_safe connected (creds_quiet client) fun res => ?_
    split
    · exact bad
    refine stage_safe connected (request_quiet client) fun res => ?_
    split
    · exact bad
    refine stage_safe connected method_quiet fun res => ?_
    split
    · exact bad
    dsimp only
    split
    · exact stage_safe connected reply_quiet (response_stage connected unset)
    · exact response_stage connected unset _
  · refine stage_safe connected (methods_quiet client) fun res => ?_
    split
    · exact bad
    refine stage_safe connected method_quiet fun res => ?_
    split
    · exact bad
    dsimp only
    split
    · refine stage_safe connected (creds_quiet client) fun res => ?_
      split
      · exact request_stage connected unset client (-1)
      · exact stage_safe connected reply_quiet (request_stage connected unset client)
    · exact request_stage connected unset client _

theorem session_splice_safe (connected : Connected self t) (associated : self.base.type = .udpInUdp → 0 ≤ self.udpFd) :
    Safe k (hevSocks5SessionSplice self) t fun _ t' => t'.Holds (clientHeld self) := by
  have own := connected.member
  unfold hevSocks5SessionSplice
  split
  · refine safe_bind (aside_safe .malloc) fun buffer t' same => ?_
    rw [same]
    split
    · exact safe_pure connected.holds
    · exact safe_weaken (splice_safe connected.holds (by simp [own])) fun _ t'' same => same ▸ connected.holds
  · rename_i datagrams
    have near : hevSocks5ClientUdpGetFd self ∈ clientHeld self := by
      have typed := self.base.typed
      unfold hevSocks5ClientUdpGetFd
      cases type : self.base.type with
      | none => exact (typed type).elim
      | tcp => exact (datagrams type).elim
      | udpInTcp => exact own
      | udpInUdp => exact List.mem_filter.mpr ⟨by simp,by simpa using associated type⟩
    refine safe_bind (modFd_safe connected.holds near) fun _ t' kept => ?_
    exact safe_weaken (splice_safe kept (by simp [own,near])) fun _ t'' same => same ▸ kept

theorem session_run_safe (none_ : Empty self t) : Safe k (hevSocks5SessionRun nonblock srv self) t fun r t' =>
    t'.Holds (clientHeld r) ∧ (r.base.type = .tcp → r.udpFd = -1) := by
  refine safe_bind (client_connect_safe none_) fun ⟨res,next⟩ t' ⟨_,unset,outcome⟩ => ?_
  dsimp only at unset outcome ⊢
  obtain ⟨bad,empty⟩ | ⟨fine,connected⟩ := outcome
  · rw [if_pos bad]
    have nothing : clientHeld next = [] := by simp [clientHeld,empty.fd,empty.udpFd]
    exact safe_pure ⟨nothing ▸ empty.holds,fun _ => unset⟩
  rw [if_neg (by omega)]
  refine safe_bind (client_handshake_safe connected unset next.base srv.pipeline) fun ⟨res,last⟩ t'' ready => ?_
  dsimp only at ready ⊢
  split
  · exact safe_pure ⟨ready.connected.holds,ready.single⟩
  · refine safe_bind (session_splice_safe ready.connected (ready.associated (by omega))) fun _ t₁ kept => ?_
    exact safe_pure ⟨kept,ready.single⟩

theorem session_destruct_safe (holds : t.Holds (clientHeld self)) (single : self.base.type = .tcp → self.udpFd = -1) :
    Safe k (hevSocks5SessionDestruct self) t fun _ t' => t'.Holds [] := by
  unfold hevSocks5SessionDestruct
  split
  · rename_i tcp
    have unset := single tcp
    have one : clientHeld self = [self.fd].filter (0 ≤ ·) := by simp [clientHeld,unset]
    exact releaseHeld_safe (one ▸ holds)
  · exact safe_bind (releaseHeld_safe holds) fun _ t' kept => releaseHeld_safe kept

def clientLife (nonblock : Bool) (srv : Proxy) (base : HevSocks5Client) (run : Bool) : FdProg Unit := do
  let self := clientConstruct base
  if run then
    let self ← hevSocks5SessionRun nonblock srv self
    hevSocks5SessionDestruct self
  else hevSocks5SessionDestruct self

def noFiles : Table := ⟨[],[],0,[]⟩

theorem noFiles_holds : noFiles.Holds [] := ⟨List.Perm.refl _,List.nodup_nil,by simp [noFiles],List.Perm.refl _⟩

theorem client_life_safe (k : Kernel Op OpAnswer) (nonblock : Bool) (srv : Proxy) (base : HevSocks5Client) (run : Bool) :
    Safe k (clientLife nonblock srv base run) noFiles fun _ t' => t'.Settled := by
  have empty : Empty (clientConstruct base) noFiles := ⟨rfl,rfl,noFiles_holds⟩
  unfold clientLife
  dsimp only
  split
  · refine safe_bind (session_run_safe empty) fun self t' ⟨kept,single⟩ => ?_
    exact safe_weaken (session_destruct_safe kept single) fun _ t'' last => last.settled
  · exact safe_weaken (session_destruct_safe noFiles_holds fun _ => rfl) fun _ t'' last => last.settled

-- Whatever the system and the peer do, a session makes no call on a descriptor it has not
-- open, polls none that it closes, and closes once what it opened or was given.
theorem sessions_settle (k : Kernel Op OpAnswer) (nonblock : Bool) (turn : Nat) :
    (∀ fd, 0 ≤ fd → ∀ polled (auth : Option (HevSocks5Authenticator rbtree)) stack, ∃ later t,
      (serverLife nonblock fd auth stack).exec k turn (accepted fd polled) = some ((),later,t) ∧ t.Settled) ∧
    ∀ srv base run, ∃ later t, (clientLife nonblock srv base run).exec k turn noFiles = some ((),later,t) ∧ t.Settled := by
  constructor
  · intro fd valid polled auth stack
    obtain ⟨_,later,t,went,settled⟩ := server_life_safe k nonblock valid polled auth stack turn
    exact ⟨later,t,went,settled⟩
  · intro srv base run
    obtain ⟨_,later,t,went,settled⟩ := client_life_safe k nonblock srv base run turn
    exact ⟨later,t,went,settled⟩

-- A system in which all goes well, with a peer that asks for a connection.
def willing : Kernel Op OpAnswer where
  socket := fun _ fds => some (fds.foldr max 2+1)
  fresh := by
    intro _ fds fd got
    cases Option.some.inj got
    have bound : ∀ other ∈ fds, other ≤ fds.foldr max 2 := by
      intro other member
      induction fds with
      | nil => cases member
      | cons first fds ih =>
        rw [List.foldr_cons]
        rcases List.mem_cons.mp member with rfl | member
        · exact Int.le_max_left _ _
        · exact Int.le_trans (ih rfl member) (Int.le_max_right _ _)
    have least : 2 ≤ fds.foldr max 2 := by
      clear bound got
      induction fds with
      | nil => exact Int.le_refl 2
      | cons first fds ih => exact Int.le_trans ih (Int.le_max_right _ _)
    refine ⟨by omega,fun member => ?_⟩
    have := bound _ member
    omega
  answer := fun _ op =>
    match op with
    | .recv n => if n = 2 then (2,[5,1]) else if n = 1 then (1,[0]) else (5,[5,1,0,1,127])
    | .send data => (data.length : Int)
    | .getsockname => some zeroAddr
    | .malloc => true
    | .transfers => [0,1]
    | .resolve q =>
      match q with
      | .inetPton4 _ => some (.replicate 4 1)
      | .inetPton6 _ | .getaddrinfo _ _ | .getsockname _ => none
      | .socket _ | .binder _ _ | .connect _ _ | .reuseaddr _ | .bind _ _ | .tcpSplice _ | .udpSplice _ => (0 : Int)
    | .ioctl | .setsockopt | .binder _ | .connect _ | .bind _ | .io => (0 : Int)
  status := fun _ => 0

theorem willing_settle : ∃ later t, (serverLife false 3 (none : Option (HevSocks5Authenticator Balanced.plain))
    (some ⟨0,0,zeroAddr⟩)).exec willing 0 (accepted 3 false) = some ((),later,t) ∧ t.Settled :=
  (sessions_settle willing false 0).1 3 (by decide) false none (some ⟨0,0,zeroAddr⟩)

-- It is served with a descriptor of its own.
example : ((serverLife false 3 (none : Option (HevSocks5Authenticator Balanced.plain)) (some ⟨0,0,zeroAddr⟩)).exec willing 0
    (accepted 3 false)).map (fun r => r.2.2.closed) = some [1,0] := by decide

end Psocks.Descriptors
