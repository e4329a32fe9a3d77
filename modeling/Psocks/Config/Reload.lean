import Psocks.Config.HevConfig

namespace Psocks.Config
open Psocks.Variables
variable {target : Target} {s t : Store} {doc a b : Document} {pairs : List (Int×Int)}

abbrev Static.Seen : Static → Type
  | .tunName | .tunIpv4Address | .tunIpv6Address | .tunPostUpScript | .tunPreDownScript => Option CString
  | .srvUser | .srvPass => Option CString
  | .srvUdpAddr | .srvAddr => CString
  | .mapdnsAddress | .mapdnsNetwork | .mapdnsNetmask => BitVec 32
  | .logFile => CString
  | .pidFile => Option CString
  | _ => Int

-- What the function that returns a variable makes of it.
def see : (v : Static) → v.Ty → v.Seen
  | .tunName, x | .tunIpv4Address, x | .tunIpv6Address, x | .tunPostUpScript, x | .tunPreDownScript, x | .pidFile, x => orNull x
  | .logFile, x => if x.bytes = [] then text "stderr" else x
  | .srvUser, x | .srvPass, x | .srvUdpAddr, x | .srvAddr, x => x
  | .mapdnsAddress, x | .mapdnsNetwork, x | .mapdnsNetmask, x => x
  | .tunMtu, x | .multiQueue, x | .srvMark, x | .srvUdpInUdp, x | .srvPort, x | .srvPipeline, x | .srvFastopen, x => x
  | .mapdnsPort, x | .mapdnsCacheSize, x | .maxSessionCount, x | .taskStackSize, x | .tcpBufferSize, x => x
  | .udpRecvBufferSize, x | .udpCopyBufferNums, x | .connectTimeout, x | .tcpReadWriteTimeout, x => x
  | .udpReadWriteTimeout, x | .limitNofile, x | .logLevel, x => x

theorem observe_exact : observe s = observe t ↔ ∀ v, see v (s v) = see v (t v) := by
  constructor
  · intro same v
    cases v with
    | tunName => exact congrArg (·.tunnelName) same
    | tunMtu => exact congrArg (·.tunnelMtu) same
    | multiQueue => exact congrArg (·.tunnelMultiQueue) same
    | tunIpv4Address => exact congrArg (·.tunnelIpv4Address) same
    | tunIpv6Address => exact congrArg (·.tunnelIpv6Address) same
    | tunPostUpScript => exact congrArg (·.tunnelPostUpScript) same
    | tunPreDownScript => exact congrArg (·.tunnelPreDownScript) same
    | srvUser => exact congrArg (·.socks5Server.user) same
    | srvPass => exact congrArg (·.socks5Server.pass) same
    | srvMark => exact congrArg (·.socks5Server.mark) same
    | srvUdpInUdp => exact congrArg (·.socks5Server.udpInUdp) same
    | srvPort => exact congrArg (·.socks5Server.port) same
    | srvPipeline => exact congrArg (·.socks5Server.pipeline) same
    | srvFastopen => exact congrArg (·.socks5Server.fastopen) same
    | srvUdpAddr => exact congrArg (·.socks5Server.udpAddr) same
    | srvAddr => exact congrArg (·.socks5Server.addr) same
    | mapdnsAddress => exact congrArg (·.mapdnsAddress) same
    | mapdnsPort => exact congrArg (·.mapdnsPort) same
    | mapdnsNetwork => exact congrArg (·.mapdnsNetwork) same
    | mapdnsNetmask => exact congrArg (·.mapdnsNetmask) same
    | mapdnsCacheSize => exact congrArg (·.mapdnsCacheSize) same
    | logFile => exact congrArg (·.miscLogFile) same
    | pidFile => exact congrArg (·.miscPidFile) same
    | maxSessionCount => exact congrArg (·.miscMaxSessionCount) same
    | taskStackSize => exact congrArg (·.miscTaskStackSize) same
    | tcpBufferSize => exact congrArg (·.miscTcpBufferSize) same
    | udpRecvBufferSize => exact congrArg (·.miscUdpRecvBufferSize) same
    | udpCopyBufferNums => exact congrArg (·.miscUdpCopyBufferNums) same
    | connectTimeout => exact congrArg (·.miscConnectTimeout) same
    | tcpReadWriteTimeout => exact congrArg (·.miscTcpReadWriteTimeout) same
    | udpReadWriteTimeout => exact congrArg (·.miscUdpReadWriteTimeout) same
    | limitNofile => exact congrArg (·.miscLimitNofile) same
    | logLevel => exact congrArg (·.miscLogLevel) same
  · intro same
    unfold observe
    rw [Observation.mk.injEq,hevConfigGetSocks5Server,hevConfigGetSocks5Server,HevConfigServer.mk.injEq]
    exact ⟨same .tunName,same .tunMtu,same .multiQueue,same .tunIpv4Address,same .tunIpv6Address,
      same .tunPostUpScript,same .tunPreDownScript,
      ⟨same .srvUser,same .srvPass,same .srvMark,same .srvUdpInUdp,same .srvPort,same .srvPipeline,same .srvFastopen,same .srvUdpAddr,same .srvAddr⟩,
      same .mapdnsAddress,same .mapdnsPort,same .mapdnsNetwork,same .mapdnsNetmask,same .mapdnsCacheSize,
      same .taskStackSize,same .tcpBufferSize,same .udpRecvBufferSize,same .udpCopyBufferNums,
      same .maxSessionCount,same .connectTimeout,same .tcpReadWriteTimeout,same .udpReadWriteTimeout,
      same .limitNofile,same .pidFile,same .logFile,same .logLevel⟩

-- What the sections of a document write before one is refused.
def assignments (target : Target) (doc : Document) : List (Int×Int) → Writes
  | [] => []
  | (key,value)::rest =>
    if value = 0 then []
    else match yamlDocumentGetNode doc key with
      | some (.scalar key) =>
        match parseSection target doc key (yamlDocumentGetNode doc value) with
        | some writes => writes++assignments target doc rest
        | none => []
      | _ => []

def Document.assignments (doc : Document) (target : Target) : Writes :=
  Config.assignments target doc ((mappingPairs (yamlDocumentGetRootNode doc)).getD [])

-- The value that the document gives a variable last.
def Document.gives (doc : Document) (target : Target) (v : Static) : Option v.Ty := given (doc.assignments target) v

-- The stack that the buffers of a document need, and the stack it leaves.
def Document.least (doc : Document) (target : Target) : Int :=
  minTaskStackSize (min ((doc.gives target .tcpBufferSize).getD (loaded .tcpBufferSize)) tcpSndBuf)
    ((doc.gives target .udpCopyBufferNums).getD (loaded .udpCopyBufferNums))

def Document.stack (doc : Document) (target : Target) : Int := max ((doc.gives target .taskStackSize).getD (loaded .taskStackSize)) (doc.least target)

-- The second document gives the variable a value, or the first none but what is built in:
-- of the buffer up to its limit, of the stack as far as the second document's buffers do
-- not need more.
def Forgets (target : Target) (a b : Document) : Static → Prop
  | .tcpBufferSize => (b.gives target .tcpBufferSize).isSome ∨
      min ((a.gives target .tcpBufferSize).getD (loaded .tcpBufferSize)) tcpSndBuf = min (loaded .tcpBufferSize) tcpSndBuf
  | .taskStackSize => (b.gives target .taskStackSize).isSome ∨ max (a.stack target) (b.least target) = max (loaded .taskStackSize) (b.least target)
  | v => (b.gives target v).isSome ∨ see v ((a.gives target v).getD (loaded v)) = see v (loaded v)

theorem sections_flag (doc : Document) (pairs : List (Int×Int)) (s t : Store) :
    (parseSections target doc pairs s).1 = (parseSections target doc pairs t).1 := by
  induction pairs generalizing s t with
  | nil => rfl
  | cons pair rest ih =>
    unfold parseSections
    split
    · rfl
    · split
      · split
        · exact ih _ _
        · rfl
      · rfl

theorem sections_run (fine : (parseSections target doc pairs s).1 = true) :
    (parseSections target doc pairs s).2 = run (assignments target doc pairs) s := by
  induction pairs generalizing s with
  | nil => rfl
  | cons pair rest ih =>
    obtain ⟨key,value⟩ := pair
    rw [parseSections] at fine ⊢
    rw [assignments]
    by_cases last : value = 0
    · rw [if_pos last,if_pos last]
      rfl
    · rw [if_neg last] at fine
      rw [if_neg last,if_neg last]
      cases found : yamlDocumentGetNode doc key with
      | none => rfl
      | some node =>
        cases node with
        | scalar key =>
          cases taken : parseSection target doc key (yamlDocumentGetNode doc value) with
          | none => simp [found,taken] at fine
          | some writes =>
            simp only [found,taken] at fine ⊢
            rw [run_append]
            exact ih fine
        | sequence => rfl
        | mapping pairs => rfl

def IsSet (w : Write Static.Ty) : Prop :=
  match w with
  | .set _ _ => True
  | .map _ _ => False

def Sets (writes : Writes) : Prop := ∀ w ∈ writes, IsSet w

theorem sets_nil : Sets [] := by simp [Sets]

theorem sets_one (v : Static) (x : v.Ty) : Sets [.set v x] := by
  intro w member
  exact List.mem_singleton.mp member ▸ trivial

theorem sets_append {one two : Writes} (first : Sets one) (second : Sets two) : Sets (one++two) :=
  fun w member => (List.mem_append.mp member).elim (first w) (second w)

theorem sets_ite {c : Prop} [Decidable c] {one two : Writes} (yes : Sets one) (no : Sets two) : Sets (if c then one else two) := by
  split
  · exact yes
  · exact no

theorem sets_map {α : Type} (value : Option α) (f : α → Write Static.Ty) (all : ∀ x, IsSet (f x)) :
    Sets (value.toList.map f) := by
  intro w member
  obtain ⟨x,_,rfl⟩ := List.mem_map.mp member
  exact all x

theorem sets_flatMap {α : Type} (xs : List α) (f : α → Writes) (all : ∀ x, Sets (f x)) : Sets (xs.flatMap f) := by
  intro w member
  obtain ⟨x,_,inside⟩ := List.mem_flatMap.mp member
  exact all x w inside

theorem address_sets {base : Option Node} {write : CString → Write Static.Ty} (all : ∀ value, Sets [write value]) :
    Sets ((parseTunnelAddress doc base write).getD []) := by
  unfold parseTunnelAddress
  cases mappingPairs base with
  | none => exact sets_nil
  | some pairs =>
    apply sets_flatMap
    intro pair
    exact sets_ite (all pair.2) sets_nil

theorem tunnelScalar_sets (target : Target) (key value : CString) : Sets (tunnelScalar target key value) := by
  unfold tunnelScalar
  repeat' apply sets_ite
  all_goals first | exact sets_one _ _ | exact sets_nil

theorem tunnelNode_sets (target : Target) (doc : Document) (key : CString) (node : Node) : Sets (tunnelNode target doc key node) := by
  unfold tunnelNode
  split
  · exact tunnelScalar_sets target key _
  · apply sets_ite
    · exact address_sets fun _ => sets_one _ _
    · apply sets_ite
      · exact address_sets fun _ => sets_one _ _
      · exact sets_nil

theorem socks5_sets {base : Option Node} {writes : Writes} (parsed : hevConfigParseSocks5 target doc base = some writes) :
    Sets writes := by
  simp only [hevConfigParseSocks5,Option.bind_eq_bind,Option.bind_eq_some_iff] at parsed
  obtain ⟨pairs,_,port,_,addr,_,parsed⟩ := parsed
  split at parsed
  · cases parsed
  · cases Option.some.inj parsed
    apply sets_append
    · apply sets_append
      · apply sets_append
        · apply sets_append
          · apply sets_append
            · apply sets_append
              · exact sets_append (sets_one _ _) (sets_one _ _)
              · exact sets_ite (sets_one _ _) sets_nil
            · exact sets_ite (sets_one _ _) sets_nil
          · exact sets_map _ _ fun _ => trivial
        · split
          · exact sets_append (sets_one _ _) (sets_one _ _)
          · exact sets_nil
      · exact sets_map _ _ fun _ => trivial
    · exact sets_map _ _ fun _ => trivial

theorem mapdnsScalar_sets (target : Target) (key value : CString) : Sets (mapdnsScalar target key value) := by
  unfold mapdnsScalar
  repeat' apply sets_ite
  all_goals first | exact sets_one _ _ | exact sets_nil | exact sets_map _ _ fun _ => trivial

theorem miscScalar_sets (target : Target) (key value : CString) : Sets (miscScalar target key value) := by
  unfold miscScalar
  repeat' apply sets_ite
  all_goals first | exact sets_one _ _ | exact sets_nil

def Usual (w : Write Static.Ty) : Prop := IsSet w ∨ w = .map .mapdnsNetwork ntohl ∨ w = .map .mapdnsNetmask ntohl

theorem section_usual {key : CString} {base : Option Node} {writes : Writes} (parsed : parseSection target doc key base = some writes) :
    ∀ w ∈ writes, Usual w := by
  unfold parseSection at parsed
  split_ifs at parsed
  · obtain ⟨pairs,_,rfl⟩ := Option.map_eq_some_iff.mp parsed
    have sets := sets_flatMap (nodePairs doc pairs) _ fun pair => tunnelNode_sets target doc pair.1 pair.2
    exact fun w member => .inl (sets w member)
  · exact fun w member => .inl (socks5_sets parsed w member)
  · obtain ⟨pairs,_,rfl⟩ := Option.map_eq_some_iff.mp parsed
    have sets := sets_flatMap (scalarPairs doc pairs) _ fun pair => mapdnsScalar_sets target pair.1 pair.2
    exact fun w member => (List.mem_append.mp member).imp (sets w) List.mem_pair.mp
  · obtain ⟨pairs,_,rfl⟩ := Option.map_eq_some_iff.mp parsed
    have sets := sets_flatMap (scalarPairs doc pairs) _ fun pair => miscScalar_sets target pair.1 pair.2
    intro w member
    left
    revert w
    apply sets_append
    · apply sets_append
      · exact sets
      · exact sets_ite (sets_one _ _) sets_nil
    · exact sets_ite (sets_one _ _) sets_nil
  · cases Option.some.inj parsed
    simp

theorem assignments_usual (doc : Document) (pairs : List (Int×Int)) : ∀ w ∈ assignments target doc pairs, Usual w := by
  induction pairs with
  | nil => simp [assignments]
  | cons pair rest ih =>
    unfold assignments
    split
    · simp
    · split
      · split
        · rename_i parsed
          intro w member
          exact (List.mem_append.mp member).elim (section_usual parsed w) (ih w)
        · simp
      · simp

theorem usual_tame {w : Write Static.Ty} (usual : Usual w) : Tame see loaded w := by
  have swap : ntohl 0 = 0 ∧ ∀ x y, ntohl x = ntohl y ↔ x = y := ⟨by decide,ntohl_exact⟩
  rcases usual with set | rfl | rfl
  · cases w with
    | set v x => trivial
    | map v f => cases set
  · exact swap
  · exact swap

theorem usual_unmapped {w : Write Static.Ty} {v : Static} (usual : Usual w) (network : v ≠ .mapdnsNetwork)
    (netmask : v ≠ .mapdnsNetmask) : ¬w.Maps v := by
  rcases usual with set | rfl | rfl
  · cases w with
    | set v x => exact id
    | map v f => cases set
  · exact fun same => network same.symm
  · exact fun same => netmask same.symm

theorem clamp_other {v : Static} (buffer : v ≠ .tcpBufferSize) (stack : v ≠ .taskStackSize) (s : Store) : clamp s v = s v := by
  unfold clamp
  rw [Function.update_of_ne stack,Function.update_of_ne buffer]

theorem at_most (x y : Int) : (if x > y then y else x) = min x y := by split <;> omega

theorem at_least (x y : Int) : (if x < y then y else x) = max x y := by split <;> omega

theorem clamp_buffer (s : Store) : clamp s .tcpBufferSize = min (s .tcpBufferSize) tcpSndBuf := by
  unfold clamp
  rw [Function.update_of_ne (by decide),Function.update_self]
  exact at_most _ _

-- A document that is taken, as what it writes.
theorem init_run (fine : (hevConfigInit target (some doc) t).1 = true) (s : Store) :
    hevConfigInit target (some doc) s = (true,clamp (run (doc.assignments target) s)) := by
  unfold hevConfigInit hevConfigParseDoc at fine ⊢
  unfold Document.assignments
  cases root : mappingPairs (yamlDocumentGetRootNode doc) with
  | none => simp [root] at fine
  | some pairs =>
    simp only [root,Option.getD_some] at fine ⊢
    have taken : (parseSections target doc pairs s).1 = true := by
      rw [sections_flag doc pairs s t]
      by_contra refused
      rw [if_neg refused] at fine
      exact refused fine
    rw [if_pos taken,sections_run taken]

theorem gives_plain {v : Static} (network : v ≠ .mapdnsNetwork) (netmask : v ≠ .mapdnsNetmask) (doc : Document) (s : Store) :
    run (doc.assignments target) s v = (doc.gives target v).getD (s v) :=
  run_unmapped (fun w member => usual_unmapped (assignments_usual doc _ w member) network netmask) s

theorem plain_exact {v : Static} (buffer : v ≠ .tcpBufferSize) (stack : v ≠ .taskStackSize) :
    see v (clamp (run (b.assignments target) (clamp (run (a.assignments target) loaded))) v) = see v (clamp (run (b.assignments target) loaded) v) ↔
      (b.gives target v).isSome = true ∨ see v ((a.gives target v).getD (loaded v)) = see v (loaded v) := by
  have tame (doc : Document) : ∀ w ∈ (doc.assignments target), Tame see loaded w :=
    fun w member => usual_tame (assignments_usual doc _ w member)
  rw [clamp_other buffer stack,clamp_other buffer stack]
  have same : run (b.assignments target) (clamp (run (a.assignments target) loaded)) v =
      run (b.assignments target) (run (a.assignments target) loaded) v := by
    obtain ⟨f,_,_,runs⟩ := run_given (tame b) v
    rw [runs,runs,clamp_other buffer stack]
  rw [same]
  exact rerun_exact (tame a) (tame b) v

theorem buffer_exact :
    clamp (run (b.assignments target) (clamp (run (a.assignments target) loaded))) .tcpBufferSize =
        clamp (run (b.assignments target) loaded) .tcpBufferSize ↔
      Forgets target a b .tcpBufferSize := by
  simp only [clamp_buffer,gives_plain (v := .tcpBufferSize) (by decide) (by decide),Forgets]
  cases b.gives target .tcpBufferSize <;> simp

theorem clamp_least (doc : Document) :
    minTaskStackSize (clamp (run (doc.assignments target) loaded) .tcpBufferSize) (clamp (run (doc.assignments target) loaded) .udpCopyBufferNums) =
      (doc.least target) := by
  rw [clamp_buffer,clamp_other (by decide) (by decide),gives_plain (by decide) (by decide),gives_plain (by decide) (by decide)]
  rfl

theorem clamp_stack (s : Store) : clamp s .taskStackSize =
    max (s .taskStackSize) (minTaskStackSize (clamp s .tcpBufferSize) (clamp s .udpCopyBufferNums)) := by
  rw [clamp_buffer,clamp_other (v := .udpCopyBufferNums) (by decide) (by decide)]
  unfold clamp
  rw [Function.update_self,at_most]
  exact at_least _ _

theorem stack_exact
    (buffer : clamp (run (b.assignments target) (clamp (run (a.assignments target) loaded))) .tcpBufferSize =
        clamp (run (b.assignments target) loaded) .tcpBufferSize)
    (nums : clamp (run (b.assignments target) (clamp (run (a.assignments target) loaded))) .udpCopyBufferNums =
      clamp (run (b.assignments target) loaded) .udpCopyBufferNums) :
    clamp (run (b.assignments target) (clamp (run (a.assignments target) loaded))) .taskStackSize =
        clamp (run (b.assignments target) loaded) .taskStackSize ↔
      Forgets target a b .taskStackSize := by
  have first : clamp (run (a.assignments target) loaded) .taskStackSize = (a.stack target) := by
    rw [clamp_stack,clamp_least,gives_plain (by decide) (by decide)]
    rfl
  rw [clamp_stack,buffer,nums,clamp_stack (run (b.assignments target) loaded),clamp_least,gives_plain (by decide) (by decide),
    gives_plain (by decide) (by decide),first,Forgets]
  cases b.gives target .taskStackSize <;> simp

theorem forgets_plain {v : Static} (buffer : v ≠ .tcpBufferSize) (stack : v ≠ .taskStackSize) : Forgets target a b v ↔
    (b.gives target v).isSome = true ∨ see v ((a.gives target v).getD (loaded v)) = see v (loaded v) := by
  cases v with
  | tcpBufferSize => exact absurd rfl buffer
  | taskStackSize => exact absurd rfl stack
  | _ => exact Iff.rfl

theorem reload_exact (first : (hevConfigInit target (some a) loaded).1 = true) (second : (hevConfigInit target (some b) loaded).1 = true) :
    observe (hevConfigInit target (some b) (hevConfigInit target (some a) loaded).2).2 = observe (hevConfigInit target (some b) loaded).2 ↔
      ∀ v, Forgets target a b v := by
  rw [init_run first,init_run second,init_run second,observe_exact]
  constructor
  · intro same v
    by_cases buffer : v = .tcpBufferSize
    · subst buffer
      exact buffer_exact.mp (same .tcpBufferSize)
    · by_cases stack : v = .taskStackSize
      · subst stack
        exact (stack_exact (same .tcpBufferSize) (same .udpCopyBufferNums)).mp (same .taskStackSize)
      · exact (forgets_plain buffer stack).mpr ((plain_exact buffer stack).mp (same v))
  · intro forgets v
    have plain {v : Static} (buffer : v ≠ .tcpBufferSize) (stack : v ≠ .taskStackSize) :=
      (@plain_exact target a b v buffer stack).mpr ((forgets_plain buffer stack).mp (forgets v))
    have size := buffer_exact.mpr (forgets .tcpBufferSize)
    by_cases buffer : v = .tcpBufferSize
    · subst buffer
      exact size
    · by_cases stack : v = .taskStackSize
      · subst stack
        exact (stack_exact size (plain (v := .udpCopyBufferNums) (by decide) (by decide))).mpr (forgets .taskStackSize)
      · exact plain buffer stack

def sectionAlone (name : String) (pairs : List (Int×Int)) (values : List String) : Document :=
  ⟨.mapping [(2,3)]::.scalar (text name)::.mapping pairs::values.map fun value => .scalar (text value)⟩

def account : Document :=
  sectionAlone "socks5" [(4,5),(6,7),(8,9),(10,11),(12,13)]
    ["port","1080","address","127.0.0.1","udp","udp","username","u","password","p"]

def guest : Document := sectionAlone "socks5" [(4,5),(6,7),(8,9)] ["port","1080","address","127.0.0.1","udp","tcp"]

-- An MTU that is the built-in one where a long has 64 bits, and another one where it has 32.
def wide : Document := sectionAlone "tunnel" [(4,5)] ["mtu","4294975796"]

theorem wide_forgotten (v : Static) : Forgets lp64 wide guest v := by
  cases v <;> exact .inr rfl

theorem reload_exact_pair : (hevConfigInit lp64 (some wide) loaded).1 = true ∧ (hevConfigInit lp64 (some guest) loaded).1 = true ∧
    observe (hevConfigInit lp64 (some guest) (hevConfigInit lp64 (some wide) loaded).2).2 = observe (hevConfigInit lp64 (some guest) loaded).2 ∧
    (hevConfigInit ilp32 (some wide) loaded).1 = true ∧ (hevConfigInit ilp32 (some guest) loaded).1 = true ∧
    observe (hevConfigInit ilp32 (some guest) (hevConfigInit ilp32 (some wide) loaded).2).2 ≠
      observe (hevConfigInit ilp32 (some guest) loaded).2 := by
  refine ⟨by decide,by decide,(reload_exact (by decide) (by decide)).mpr wide_forgotten,by decide,by decide,fun same => ?_⟩
  rcases (reload_exact (by decide) (by decide)).mp same .tunMtu with given_ | same
  · exact absurd given_ (by decide)
  · exact absurd same (by decide)

-- An account, and then none and UDP inside of TCP: the account and the mode stay.
theorem reload_remembers :
    (hevConfigInit lp64 (some account) loaded).1 = true ∧ (hevConfigInit lp64 (some guest) loaded).1 = true ∧
    ∃ later alone, later = hevConfigGetSocks5Server (hevConfigInit lp64 (some guest) (hevConfigInit lp64 (some account) loaded).2).2 ∧
      alone = hevConfigGetSocks5Server (hevConfigInit lp64 (some guest) loaded).2 ∧
      later.user = some (text "u") ∧ alone.user = none ∧ later.udpInUdp = 1 ∧ alone.udpInUdp = 0 ∧
      observe (hevConfigInit lp64 (some guest) (hevConfigInit lp64 (some account) loaded).2).2 ≠ observe (hevConfigInit lp64 (some guest) loaded).2 := by
  refine ⟨by decide,by decide,_,_,rfl,rfl,by decide,by decide,by decide,by decide,fun same => ?_⟩
  exact absurd (congrArg (·.socks5Server.udpInUdp) same) (by decide)

end Psocks.Config
