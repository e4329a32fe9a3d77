import Psocks.Config.EngineConfig

namespace Psocks.Config
open Psocks.Yaml Psocks.Variables
variable {target : Target} {cfg : Settings} {v : List Char} {front later : List Node} {entries : List Entry} {s : Section}
  {rest : List Section} {doc doc' : Document}
variable {pairs pairs' : List (Int×Int)} {i : Nat} {name : String}

def entryPair (e : Entry) : CString×CString := (cut (utf8 e.1),cut (utf8 e.2.value))

-- The pairs of a mapping lead to the keys and values of these entries.
def Lists (doc : Document) : List (Int×Int) → List Entry → Prop :=
  List.Forall₂ fun pair e =>
    yamlDocumentGetNode doc pair.1 = some (scalarNode e.1) ∧ yamlDocumentGetNode doc pair.2 = some (scalarNode e.2.value)

theorem node_at (front later : List Node) (node : Node) (place : i = front.length+1) :
    yamlDocumentGetNode ⟨front++node::later⟩ i = some node := by
  subst place
  have index : ((front.length+1 : Nat) : Int)-1 = (front.length : Int) := by omega
  rw [yamlDocumentGetNode,if_pos (by omega),index]
  simp

theorem entries_listed (front later : List Node) (entries : List Entry) (place : i = front.length+1) :
    Lists ⟨front++(entries.flatMap entryNodes++later)⟩ (entryPairs i entries) entries := by
  induction entries generalizing front i with
  | nil => exact .nil
  | cons e entries ih =>
    have shape : front++((e::entries).flatMap entryNodes++later) =
        (front++entryNodes e)++(entries.flatMap entryNodes++later) := by simp
    have key : front++((e::entries).flatMap entryNodes++later) =
        front++scalarNode e.1::(scalarNode e.2.value::(entries.flatMap entryNodes++later)) := by simp [entryNodes]
    have value : front++((e::entries).flatMap entryNodes++later) =
        (front++[scalarNode e.1])++scalarNode e.2.value::(entries.flatMap entryNodes++later) := by simp [entryNodes]
    refine .cons ⟨?_,?_⟩ ?_
    · rw [key]
      exact node_at _ _ _ place
    · rw [value]
      exact node_at _ _ _ (by simp [place])
    · rw [shape]
      exact ih _ (by simp [place,entryNodes])

theorem listed_scalars (lists : Lists doc pairs entries) : scalarPairs doc pairs = entries.map entryPair := by
  induction lists with
  | nil => rfl
  | cons here _ ih =>
    rw [scalarPairs,here.1,here.2,List.map_cons,← ih]
    rfl

theorem listed_nodes (lists : Lists doc pairs entries) :
    nodePairs doc pairs = entries.map fun e => (cut (utf8 e.1),scalarNode e.2.value) := by
  induction lists with
  | nil => rfl
  | cons here _ ih =>
    rw [nodePairs,here.1,here.2,List.map_cons,← ih]
    rfl

-- A section in a document of its own.
def sectionWrites (target : Target) (s : Section) : Option Writes :=
  parseSection target ⟨s.entries.flatMap entryNodes⟩ (cut (utf8 s.name)) (some (.mapping (entryPairs 1 s.entries)))

theorem section_alone (target : Target) (key : CString) (lists : Lists doc pairs entries) (lists' : Lists doc' pairs' entries) :
    parseSection target doc key (some (.mapping pairs)) = parseSection target doc' key (some (.mapping pairs')) := by
  have scalars := (listed_scalars lists).trans (listed_scalars lists').symm
  have tunnels : hevConfigParseTunnel target doc (some (.mapping pairs)) = hevConfigParseTunnel target doc' (some (.mapping pairs')) := by
    rw [hevConfigParseTunnel,hevConfigParseTunnel,mappingPairs,mappingPairs,Option.map_some,Option.map_some,
      listed_nodes lists,listed_nodes lists',List.flatMap_map,List.flatMap_map]
    rfl
  unfold parseSection
  rw [tunnels]
  simp only [hevConfigParseSocks5,hevConfigParseMapdns,hevConfigParseMisc,mappingPairs,Option.map_some,Option.bind_eq_bind,
    Option.bind_some,scalars]

def readSections (target : Target) : List Section → Store → Bool×Store
  | [],s => (true,s)
  | t::rest,s =>
    match sectionWrites target t with
    | some writes => readSections target rest (run writes s)
    | none => (false,s)

-- The pairs of the root lead to these sections.
def Holds (doc : Document) : List (Int×Int) → List Section → Prop :=
  List.Forall₂ fun pair t => pair.2 ≠ 0 ∧ yamlDocumentGetNode doc pair.1 = some (scalarNode t.name) ∧
    ∃ inner, yamlDocumentGetNode doc pair.2 = some (.mapping inner) ∧ Lists doc inner t.entries

theorem sections_held (front : List Node) (sections : List Section) (place : i = front.length+1) :
    Holds ⟨front++sectionsNodes i sections⟩ (sectionPairs i sections) sections := by
  induction sections generalizing front i with
  | nil => exact .nil
  | cons t rest ih =>
    have key : front++sectionsNodes i (t::rest) =
        front++scalarNode t.name::(.mapping (entryPairs (i+2) t.entries)::(t.entries.flatMap entryNodes++sectionsNodes (i+2+2*t.entries.length) rest)) := by
      simp [sectionsNodes,sectionNodes]
    have value : front++sectionsNodes i (t::rest) =
        (front++[scalarNode t.name])++.mapping (entryPairs (i+2) t.entries)::
          (t.entries.flatMap entryNodes++sectionsNodes (i+2+2*t.entries.length) rest) := by
      simp [sectionsNodes,sectionNodes]
    have inner : front++sectionsNodes i (t::rest) =
        (front++[scalarNode t.name,.mapping (entryPairs (i+2) t.entries)])++
          (t.entries.flatMap entryNodes++sectionsNodes (i+2+2*t.entries.length) rest) := by
      simp [sectionsNodes,sectionNodes]
    have past : front++sectionsNodes i (t::rest) =
        (front++sectionNodes i t)++sectionsNodes (i+2+2*t.entries.length) rest := by
      simp [sectionsNodes]
    have size : i+2+2*t.entries.length = (front++sectionNodes i t).length+1 := by
      simp [sectionNodes,entryNodes,List.length_flatMap,place]
      omega
    have filled : ((i+1 : Nat) : Int) ≠ 0 := by omega
    refine .cons ⟨filled,?_,entryPairs (i+2) t.entries,?_,?_⟩ ?_
    · rw [key]
      exact node_at _ _ _ place
    · rw [value]
      exact node_at _ _ _ (by simp [place])
    · rw [inner]
      exact entries_listed _ _ _ (by simp [place])
    · rw [past]
      exact ih _ size

theorem own_listed (entries : List Entry) : Lists ⟨entries.flatMap entryNodes⟩ (entryPairs 1 entries) entries := by
  simpa using entries_listed [] [] entries (i := 1) rfl

theorem sections_read {sections : List Section} (holds : Holds doc pairs sections) (s : Store) :
    parseSections target doc pairs s = readSections target sections s := by
  induction holds generalizing s with
  | nil => rfl
  | @cons pair t pairs rest here _ ih =>
    obtain ⟨filled,named,inner,held,lists⟩ := here
    have alone := section_alone target (cut (utf8 t.name)) lists (own_listed t.entries)
    rw [parseSections,if_neg filled,named,held,readSections]
    simp only [scalarNode]
    rw [alone,← sectionWrites]
    cases sectionWrites target t with
    | none => rfl
    | some writes => exact ih _

theorem document_held (sections : List Section) : Holds (document sections) (sectionPairs 2 sections) sections :=
  sections_held [.mapping (sectionPairs 2 sections)] sections rfl

theorem document_read (sections : List Section) (s : Store) :
    hevConfigParseDoc target (document sections) s =
      (if (readSections target sections s).1 then (true,clamp (readSections target sections s).2) else readSections target sections s) := by
  have root : mappingPairs (yamlDocumentGetRootNode (document sections)) = some (sectionPairs 2 sections) := rfl
  rw [hevConfigParseDoc,root]
  simp only
  rw [sections_read (document_held sections)]

-- The keys of a document, section by section.
def documentKeys (doc : Document) : List (CString×List CString) :=
  (nodePairs doc ((mappingPairs (yamlDocumentGetRootNode doc)).getD [])).map fun (key,node) =>
    (key,(nodePairs doc ((mappingPairs (some node)).getD [])).map Prod.fst)

theorem document_keys (sections : List Section) :
    documentKeys (document sections) = sections.map fun t => (cut (utf8 t.name),t.entries.map fun e => cut (utf8 e.1)) := by
  have root : mappingPairs (yamlDocumentGetRootNode (document sections)) = some (sectionPairs 2 sections) := rfl
  have all : ∀ {doc : Document} {pairs : List (Int×Int)} {sections : List Section}, Holds doc pairs sections →
      (nodePairs doc pairs).map (fun (key,node) => (key,(nodePairs doc ((mappingPairs (some node)).getD [])).map Prod.fst)) =
        sections.map fun t => (cut (utf8 t.name),t.entries.map fun e => cut (utf8 e.1)) := by
    intro doc pairs sections holds
    induction holds with
    | nil => rfl
    | @cons pair t pairs rest here _ ih =>
      obtain ⟨_,named,inner,held,lists⟩ := here
      rw [nodePairs,named,held]
      simp only [scalarNode,List.map_cons]
      rw [ih,mappingPairs,Option.getD_some,listed_nodes lists,List.map_map]
      rfl
  rw [documentKeys,root,Option.getD_some]
  exact all (document_held sections)

theorem misc_writes (target : Target) : sectionWrites target misc = some [.set .taskStackSize (81920 : Int)] := by
  have size : strtoul target (cut (utf8 (decimal 81920))) 10 = (81920 : Nat) := strtoul_small target rfl (by decide)
  have shape : sectionWrites target misc = some [.set .taskStackSize (toInt (strtoul target (cut (utf8 (decimal 81920))) 10))] := rfl
  rw [shape,size]
  rfl

theorem tunnel_writes (target : Target) : sectionWrites target tunnel = some [.set .tunMtu (8500 : Int)] := by
  have size : strtoul target (cut (utf8 (decimal 8500))) 10 = (8500 : Nat) := strtoul_small target rfl (by decide)
  have shape : sectionWrites target tunnel = some [.set .tunMtu (toUnsigned (strtoul target (cut (utf8 (decimal 8500))) 10))] := rfl
  rw [shape,size]
  rfl

def mapdnsWrites : Writes :=
  [.set .mapdnsAddress 0x020012c6,.set .mapdnsPort (53 : Int),.set .mapdnsNetwork 0x000000f0,.set .mapdnsNetmask 0x000000f0,
   .set .mapdnsCacheSize (10000 : Int),.map .mapdnsNetwork ntohl,.map .mapdnsNetmask ntohl]

theorem mapdns_writes (target : Target) : sectionWrites target mapdns = some mapdnsWrites := by
  have port : strtoul target (cut (utf8 (chars "53"))) 10 = (53 : Nat) := strtoul_small target rfl (by decide)
  have size : strtoul target (cut (utf8 (chars "10000"))) 10 = (10000 : Nat) := strtoul_small target rfl (by decide)
  have shape : sectionWrites target mapdns =
      some [.set .mapdnsAddress 0x020012c6,.set .mapdnsPort (toInt (strtoul target (cut (utf8 (chars "53"))) 10)),
        .set .mapdnsNetwork 0x000000f0,.set .mapdnsNetmask 0x000000f0,
        .set .mapdnsCacheSize (toInt (strtoul target (cut (utf8 (chars "10000"))) 10)),
        .map .mapdnsNetwork ntohl,.map .mapdnsNetmask ntohl] := rfl
  rw [shape,port,size]
  rfl

def string (v : List Char) : CString := cut (utf8 v)

theorem strncpy_fits (fits : Fits v) : strncpy (cut (utf8 v)) (256-1) = cut (utf8 v) := by
  apply CString.ext
  refine List.take_of_length_le ?_
  exact Nat.le_trans ((List.takeWhile_sublist _).length_le) fits.short

theorem socks5_values (cfg : Settings) :
    let pairs := (socks5 cfg).entries.map entryPair
    lastValue pairs "port" = some (string (decimal cfg.proxyPort.toInt)) ∧
    lastValue pairs "address" = some (string cfg.proxyHost) ∧
    lastValue pairs "udp" = some (string (if cfg.udpOverTcp then chars "tcp" else chars "udp")) ∧
    lastValue pairs "udp-address" = (if cfg.anyUdpHost then some (string cfg.proxyUdpHost) else none) ∧
    lastValue pairs "username" = (if cfg.anyCredentials then some (string cfg.proxyUser) else none) ∧
    lastValue pairs "password" = (if cfg.anyCredentials then some (string cfg.proxyPassword) else none) ∧
    ∀ name ∈ ["pipeline","mark","tcp-fastopen"], lastValue pairs name = none := by
  intro pairs
  have shape : pairs = (server cfg).map entryPair++(udpServer cfg).map entryPair++(credentials cfg).map entryPair := by
    simp only [pairs,socks5,List.map_append]
  rw [shape]
  unfold server udpServer credentials
  split_ifs
  all_goals refine ⟨rfl,rfl,rfl,rfl,rfl,rfl,?_⟩
  all_goals
    intro name member
    simp only [List.mem_cons,List.not_mem_nil,or_false] at member
    rcases member with rfl | rfl | rfl <;> rfl

def socks5Writes (cfg : Settings) : Writes :=
  [.set .srvAddr (string cfg.proxyHost),.set .srvPort (toUnsignedShort cfg.proxyPort.toInt)]++
  (if cfg.udpOverTcp = false then [.set .srvUdpInUdp (1 : Int)] else [])++
  (if cfg.anyUdpHost then [.set .srvUdpAddr (string cfg.proxyUdpHost)] else [])++
  (if cfg.anyCredentials then [.set .srvUser (some (string cfg.proxyUser)),.set .srvPass (some (string cfg.proxyPassword))] else [])

theorem socks5_writes (fit : cfg.Fit) : sectionWrites target (socks5 cfg) = some (socks5Writes cfg) := by
  have low : -2^31 ≤ cfg.proxyPort.toInt := BitVec.le_toInt _
  have high : cfg.proxyPort.toInt < 2^31 := BitVec.toInt_lt
  have printed : toUnsignedShort (strtoul target (string (decimal cfg.proxyPort.toInt)) 10) = toUnsignedShort cfg.proxyPort.toInt :=
    port_printed target _ low high
  have parsed : sectionWrites target (socks5 cfg) = hevConfigParseSocks5 target ⟨(socks5 cfg).entries.flatMap entryNodes⟩
      (some (.mapping (entryPairs 1 (socks5 cfg).entries))) := rfl
  obtain ⟨port,address,udp,udpAddress,username,password,others⟩ := socks5_values cfg
  have pipeline := others "pipeline" (by simp)
  have mark := others "mark" (by simp)
  have fastopen := others "tcp-fastopen" (by simp)
  have host := strncpy_fits fit.proxyHost
  have udpHost := strncpy_fits fit.proxyUdpHost
  have user := strncpy_fits fit.proxyUser
  have pass := strncpy_fits fit.proxyPassword
  have tcp : strcasecmp (string (chars "tcp")).bytes (ascii "udp") ≠ 0 := by decide
  have udp_ : strcasecmp (string (chars "udp")).bytes (ascii "udp") = 0 := by decide
  rw [parsed,hevConfigParseSocks5]
  simp only [mappingPairs,Option.bind_eq_bind,Option.bind_some,listed_scalars (own_listed _)]
  rw [port,address,udp,udpAddress,username,password,pipeline,mark,fastopen]
  simp only [Option.bind_some]
  rw [printed,socks5Writes]
  cases cfg.anyCredentials <;> cases cfg.anyUdpHost <;> cases cfg.udpOverTcp <;> simp_all [string]

def fixed (port : BitVec 32) (udpOverTcp remoteDns : Bool) : Store
  | .tunMtu => (8500 : Int)
  | .taskStackSize => (86008 : Int)
  | .tcpBufferSize => (65528 : Int)
  | .srvPort => toUnsignedShort port.toInt
  | .srvUdpInUdp => (if udpOverTcp then 0 else 1 : Int)
  | .mapdnsAddress => if remoteDns then 0x020012c6 else 0
  | .mapdnsPort => (if remoteDns then 53 else 0 : Int)
  | .mapdnsNetwork => if remoteDns then 0xf0000000 else 0
  | .mapdnsNetmask => if remoteDns then 0xf0000000 else 0
  | .mapdnsCacheSize => (if remoteDns then 10000 else 0 : Int)
  | v => loaded v

def secrets : List Static := [.srvAddr,.srvUdpAddr,.srvUser,.srvPass]

def expectedKeys (anyUdpHost anyCredentials remoteDns : Bool) : List (CString×List CString) :=
  [(text "misc",[text "task-stack-size"]),(text "tunnel",[text "mtu"]),
   (text "socks5",[text "port",text "address",text "udp"]++(if anyUdpHost then [text "udp-address"] else [])++
     (if anyCredentials then [text "username",text "password"] else []))]++
  (if remoteDns then [(text "mapdns",[text "address",text "port",text "network",text "netmask",text "cache-size"])] else [])

def settled (cfg : Settings) : Store := fun v => match v with
  | .srvAddr => string cfg.proxyHost
  | .srvUdpAddr => string cfg.proxyUdpHost
  | .srvUser => if cfg.anyCredentials then some (string cfg.proxyUser) else none
  | .srvPass => if cfg.anyCredentials then some (string cfg.proxyPassword) else none
  | v => fixed cfg.proxyPort cfg.udpOverTcp cfg.remoteDns v

theorem run_if (c : Prop) [Decidable c] (writes : Writes) (s : Store) : run (if c then writes else []) s = if c then run writes s else s := by
  split_ifs <;> rfl

theorem settings_read (target : Target) (fit : cfg.Fit) : hevConfigInit target (yamlParserLoad (writeEngineConfig cfg)) loaded = (true,settled cfg) := by
  have read : readSections target (sections cfg) loaded = (true,run (if cfg.remoteDns then mapdnsWrites else [])
      (run (socks5Writes cfg) (run [.set .tunMtu (8500 : Int)] (run [.set .taskStackSize (81920 : Int)] loaded)))) := by
    unfold sections
    cases cfg.remoteDns
    · simp [readSections,misc_writes,tunnel_writes,socks5_writes fit]
      rfl
    · simp [readSections,misc_writes,tunnel_writes,socks5_writes fit,mapdns_writes]
  have swapped : ntohl 240#32 = 4026531840#32 := by decide
  have absent : cfg.anyUdpHost = false → string cfg.proxyUdpHost = empty := by
    intro none_
    have nil : cfg.proxyUdpHost = [] := by simpa [Settings.anyUdpHost] using none_
    rw [nil]
    rfl
  rw [config_loaded fit,hevConfigInit,document_read,read,if_pos rfl,socks5Writes]
  simp only [run_append,run_if]
  congr 1
  funext v
  cases v
  case srvUdpAddr =>
    cases given : cfg.anyUdpHost
    · have nothing := absent given
      simp [nothing,settled,clamp,ite_apply,run,Write.apply,loaded,mapdnsWrites]
    · simp [settled,clamp,ite_apply,run,Write.apply,loaded,mapdnsWrites]
  case taskStackSize =>
    simp [settled,fixed,clamp,ite_apply,run,Write.apply,loaded,mapdnsWrites]
    decide
  case tcpBufferSize =>
    simp [settled,fixed,clamp,ite_apply,run,Write.apply,loaded,mapdnsWrites]
    decide
  case srvUdpInUdp =>
    simp [settled,fixed,clamp,ite_apply,run,Write.apply,loaded,mapdnsWrites]
    cases cfg.udpOverTcp <;> rfl
  all_goals simp [swapped,settled,fixed,clamp,ite_apply,run,Write.apply,loaded,mapdnsWrites]

theorem keys_read (fit : cfg.Fit) : ∃ doc, yamlParserLoad (writeEngineConfig cfg) = some doc ∧
    documentKeys doc = expectedKeys cfg.anyUdpHost cfg.anyCredentials cfg.remoteDns := by
  refine ⟨_,config_loaded fit,?_⟩
  rw [document_keys]
  unfold sections socks5 udpServer credentials
  cases cfg.anyUdpHost <;> cases cfg.anyCredentials <;> cases cfg.remoteDns <;> rfl

theorem string_bytes (fits : Fits v) : (string v).bytes = utf8 v := by
  apply cut_utf8
  intro c member zero
  have printed := (fits.chars c member).1
  simp [printable,zero] at printed

-- What the user entered reaches the engine byte for byte, and nothing else depends on it.
theorem settings_reach (target : Target) (cfg : Settings) (fit : cfg.Fit) : ∃ doc, ∃ s : Store,
    yamlParserLoad (writeEngineConfig cfg) = some doc ∧ hevConfigInit target (some doc) loaded = (true,s) ∧
    (s .srvAddr).bytes = utf8 cfg.proxyHost ∧ (s .srvUdpAddr).bytes = utf8 cfg.proxyUdpHost ∧
    (s .srvUser).map CString.bytes = (if cfg.anyCredentials then some (utf8 cfg.proxyUser) else none) ∧
    (s .srvPass).map CString.bytes = (if cfg.anyCredentials then some (utf8 cfg.proxyPassword) else none) ∧
    (∀ v, v ∉ secrets → s v = fixed cfg.proxyPort cfg.udpOverTcp cfg.remoteDns v) ∧
    documentKeys doc = expectedKeys cfg.anyUdpHost cfg.anyCredentials cfg.remoteDns := by
  obtain ⟨doc,read,keys⟩ := keys_read fit
  have init := settings_read target fit
  rw [read] at init
  refine ⟨doc,settled cfg,read,init,string_bytes fit.proxyHost,string_bytes fit.proxyUdpHost,?_,?_,?_,keys⟩
  · rw [settled]
    split_ifs
    · exact congrArg some (string_bytes fit.proxyUser)
    · rfl
  · rw [settled]
    split_ifs
    · exact congrArg some (string_bytes fit.proxyPassword)
    · rfl
  · intro v other
    cases v <;> first | rfl | exact (other (by decide)).elim

def sample : Settings where
  proxyHost := chars "proxy.example"
  proxyPort := 1080
  proxyUdpHost := []
  proxyUser := chars " o'brien: {x}"
  proxyPassword := chars "''#\\: '  "
  udpOverTcp := true
  remoteDns := true

theorem fits_of (all : v.all (fun c => printable c && !isBreak c) = true) (short : (utf8 v).length ≤ 255) : Fits v :=
  ⟨line_of all,short⟩

theorem sample_reach : ∃ doc, ∃ s : Store, yamlParserLoad (writeEngineConfig sample) = some doc ∧ hevConfigInit ilp32 (some doc) loaded = (true,s) ∧
    (s .srvUser).map CString.bytes = some (ascii " o'brien: {x}") ∧ (s .srvPass).map CString.bytes = some (ascii "''#\\: '  ") := by
  obtain ⟨doc,s,read,init,_,_,user,pass,_⟩ := settings_reach ilp32 sample
    ⟨fits_of (by decide) (by decide),fits_of (by decide) (by decide),fits_of (by decide) (by decide),fits_of (by decide) (by decide)⟩
  exact ⟨doc,s,read,init,user,pass⟩

end Psocks.Config
