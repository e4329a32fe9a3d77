import Psocks.Config.Printed

namespace Psocks.Config
open Psocks.Yaml Psocks.Variables

structure Settings where
  proxyHost : List Char
  proxyPort : BitVec 32
  proxyUdpHost : List Char
  proxyUser : List Char
  proxyPassword : List Char
  udpOverTcp : Bool
  remoteDns : Bool

def escapeYaml (value : List Char) : List Char := value.flatMap fun c => if c = quote then [quote,quote] else [c]

def chars (s : String) : List Char := s.toList

def Settings.anyUdpHost (cfg : Settings) : Bool := !cfg.proxyUdpHost.isEmpty

def Settings.anyCredentials (cfg : Settings) : Bool := !cfg.proxyUser.isEmpty && !cfg.proxyPassword.isEmpty

def configText (cfg : Settings) : List Char :=
  chars "misc:\n"++
  chars "  task-stack-size: "++decimal 81920++['\n']++
  chars "tunnel:\n"++
  chars "  mtu: "++decimal 8500++['\n']++
  chars "socks5:\n"++
  chars "  port: "++decimal cfg.proxyPort.toInt++['\n']++
  chars "  address: "++[quote]++escapeYaml cfg.proxyHost++[quote,'\n']++
  chars "  udp: "++[quote]++(if cfg.udpOverTcp then chars "tcp" else chars "udp")++[quote,'\n']++
  (if cfg.anyUdpHost then chars "  udp-address: "++[quote]++escapeYaml cfg.proxyUdpHost++[quote,'\n'] else [])++
  (if cfg.anyCredentials then
    chars "  username: "++[quote]++escapeYaml cfg.proxyUser++[quote,'\n']++
    chars "  password: "++[quote]++escapeYaml cfg.proxyPassword++[quote,'\n']
  else [])++
  (if cfg.remoteDns then
    chars "mapdns:\n"++
    chars "  address: 198.18.0.2\n"++
    chars "  port: 53\n"++
    chars "  network: 240.0.0.0\n"++
    chars "  netmask: 240.0.0.0\n"++
    chars "  cache-size: 10000\n"
  else [])

def writeEngineConfig (cfg : Settings) : List UInt8 := utf8 (configText cfg)

-- The same text as sections of entries.
def plain (key value : String) : Entry := (chars key,.plain (chars value))

def misc : Section := ⟨chars "misc",[(chars "task-stack-size",.plain (decimal 81920))]⟩

def tunnel : Section := ⟨chars "tunnel",[(chars "mtu",.plain (decimal 8500))]⟩

def server (cfg : Settings) : List Entry :=
  [(chars "port",.plain (decimal cfg.proxyPort.toInt)),(chars "address",.quoted cfg.proxyHost),
   (chars "udp",.quoted (if cfg.udpOverTcp then chars "tcp" else chars "udp"))]

def udpServer (cfg : Settings) : List Entry := if cfg.anyUdpHost then [(chars "udp-address",.quoted cfg.proxyUdpHost)] else []

def credentials (cfg : Settings) : List Entry :=
  if cfg.anyCredentials then [(chars "username",.quoted cfg.proxyUser),(chars "password",.quoted cfg.proxyPassword)] else []

def socks5 (cfg : Settings) : Section := ⟨chars "socks5",server cfg++udpServer cfg++credentials cfg⟩

def mapdns : Section :=
  ⟨chars "mapdns",[plain "address" "198.18.0.2",plain "port" "53",plain "network" "240.0.0.0",plain "netmask" "240.0.0.0",
    plain "cache-size" "10000"]⟩

def sections (cfg : Settings) : List Section := [misc,tunnel,socks5 cfg]++if cfg.remoteDns then [mapdns] else []

-- Text of a line that libyaml reads, and no more of it than the engine has room for.
structure Fits (v : List Char) : Prop where
  chars : ∀ c ∈ v, printable c = true ∧ isBreak c = false
  short : (utf8 v).length ≤ 255

structure Settings.Fit (cfg : Settings) : Prop where
  proxyHost : Fits cfg.proxyHost
  proxyUdpHost : Fits cfg.proxyUdpHost
  proxyUser : Fits cfg.proxyUser
  proxyPassword : Fits cfg.proxyPassword

variable {cfg : Settings} {v : List Char} {front later : List Node} {entries : List Entry} {s : Section} {rest : List Section} {doc doc' : Document}
variable {pairs pairs' : List (Int×Int)} {i : Nat}

theorem text_sections (cfg : Settings) : configText cfg = documentText (sections cfg) := by
  have same : escapeYaml = escape := rfl
  have tcp : escape (chars "tcp") = chars "tcp" := by decide
  have udp : escape (chars "udp") = chars "udp" := by decide
  unfold configText sections
  rw [same]
  split_ifs <;> simp_all [documentText,sectionText,misc,tunnel,socks5,server,udpServer,credentials,mapdns,plain,entryText,
    entryLine,Written.text,chars]

theorem key_of (word : List Char) (short : word.length ≤ 1024) (chars : word.all plainChar = true)
    (first : ∃ c ∈ word.head?, c ∉ indicators ∧ c ≠ '.') : Key word ∧ ∀ c ∈ word, printable c = true := by
  have parts : ∀ c ∈ word, (wordChar c = true ∧ printable c = true) ∧ c ≠ bom := by
    intro c member
    simpa [plainChar] using List.all_eq_true.mp chars c member
  obtain ⟨d,head,clear⟩ := first
  refine ⟨⟨short,⟨?_,fun c member => (parts c member).1.1,?_⟩⟩,fun c member => (parts c member).1.2⟩
  · rintro rfl
    cases head
  · intro c here
    cases Option.some.inj (head.symm.trans here)
    exact ⟨clear.1,clear.2,(parts d (List.mem_of_mem_head? head)).2⟩

theorem line_of (all : v.all (fun c => printable c && !isBreak c) = true) : ∀ c ∈ v, printable c = true ∧ isBreak c = false :=
  fun c member => by simpa using List.all_eq_true.mp all c member

theorem plain_word {word : List Char} (filled : word ≠ []) (chars : word.all plainChar = true)
    (first : word.head?.all (fun c => !indicators.contains c) = true) : Plain word ∧ ∀ c ∈ word, printable c = true := by
  refine plain_of filled (fun c member => List.all_eq_true.mp chars c member) fun c head => .inl ?_
  rw [show word.head? = some c from head] at first
  simpa using first

-- What can be written and read back.
structure Legible (e : Entry) : Prop where
  key : Key e.1
  proper : e.2.Proper
  printed : ∀ c ∈ entryText e, printable c = true

theorem legible_of {key : List Char} {w : Written} (named : Key key ∧ ∀ c ∈ key, printable c = true) (proper : w.Proper)
    (printed : ∀ c ∈ w.text, printable c = true) : Legible (key,w) := by
  refine ⟨named.1,proper,?_⟩
  intro c member
  simp only [entryText,entryLine,List.mem_append,List.mem_cons,List.not_mem_nil,or_false] at member
  rcases member with (rfl | rfl) | ((member | rfl | rfl) | member) | rfl
  any_goals decide
  · exact named.2 c member
  · exact printed c member

theorem legible_quoted {key : List Char} (named : Key key ∧ ∀ c ∈ key, printable c = true)
    (line : ∀ c ∈ v, printable c = true ∧ isBreak c = false) : Legible (key,.quoted v) := by
  refine legible_of named (fun c member => (line c member).2) ?_
  intro c member
  simp only [Written.text,List.mem_cons,List.mem_append,List.not_mem_nil,or_false] at member
  rcases member with rfl | member | rfl
  · decide
  · obtain ⟨d,inside,written⟩ := List.mem_flatMap.mp member
    split at written
    · rcases List.mem_pair.mp written with rfl | rfl
      · decide
      · decide
    · rw [List.mem_singleton.mp written]
      exact (line d inside).1
  · decide

theorem legible_plain {key word : List Char} (named : Key key ∧ ∀ c ∈ key, printable c = true)
    (plain_ : Plain word ∧ ∀ c ∈ word, printable c = true) : Legible (key,.plain word) := legible_of named plain_.1 plain_.2

theorem legible_server (fit : cfg.Fit) : ∀ e ∈ server cfg, Legible e := by
  have port : Key (chars "port") ∧ ∀ c ∈ chars "port", printable c = true := key_of _ (by decide) (by decide) ⟨'p',by decide⟩
  have address : Key (chars "address") ∧ ∀ c ∈ chars "address", printable c = true := key_of _ (by decide) (by decide) ⟨'a',by decide⟩
  have udp : Key (chars "udp") ∧ ∀ c ∈ chars "udp", printable c = true := key_of _ (by decide) (by decide) ⟨'u',by decide⟩
  intro e member
  simp only [server,List.mem_cons,List.not_mem_nil,or_false] at member
  rcases member with rfl | rfl | rfl
  · exact legible_plain port (decimal_plain _)
  · exact legible_quoted address fit.proxyHost.chars
  · apply legible_quoted udp
    split_ifs
    · exact line_of (by decide)
    · exact line_of (by decide)

theorem legible_udpServer (fit : cfg.Fit) : ∀ e ∈ udpServer cfg, Legible e := by
  have key : Key (chars "udp-address") ∧ ∀ c ∈ chars "udp-address", printable c = true :=
    key_of _ (by decide) (by decide) ⟨'u',by decide⟩
  intro e member
  unfold udpServer at member
  split_ifs at member
  · rw [List.mem_singleton.mp member]
    exact legible_quoted key fit.proxyUdpHost.chars
  · cases member

theorem legible_credentials (fit : cfg.Fit) : ∀ e ∈ credentials cfg, Legible e := by
  have user : Key (chars "username") ∧ ∀ c ∈ chars "username", printable c = true := key_of _ (by decide) (by decide) ⟨'u',by decide⟩
  have pass : Key (chars "password") ∧ ∀ c ∈ chars "password", printable c = true := key_of _ (by decide) (by decide) ⟨'p',by decide⟩
  intro e member
  unfold credentials at member
  split_ifs at member
  · rcases List.mem_pair.mp member with rfl | rfl
    · exact legible_quoted user fit.proxyUser.chars
    · exact legible_quoted pass fit.proxyPassword.chars
  · cases member

theorem legible_fixed : ∀ e ∈ misc.entries++tunnel.entries++mapdns.entries, Legible e := by
  have key : ∀ word ∈ [chars "task-stack-size",chars "mtu",chars "address",chars "port",chars "network",chars "netmask",
      chars "cache-size"], Key word ∧ ∀ c ∈ word, printable c = true := by
    intro word member
    simp only [List.mem_cons,List.not_mem_nil,or_false] at member
    rcases member with rfl | rfl | rfl | rfl | rfl | rfl | rfl
    · exact key_of _ (by decide) (by decide) ⟨'t',by decide⟩
    · exact key_of _ (by decide) (by decide) ⟨'m',by decide⟩
    · exact key_of _ (by decide) (by decide) ⟨'a',by decide⟩
    · exact key_of _ (by decide) (by decide) ⟨'p',by decide⟩
    · exact key_of _ (by decide) (by decide) ⟨'n',by decide⟩
    · exact key_of _ (by decide) (by decide) ⟨'n',by decide⟩
    · exact key_of _ (by decide) (by decide) ⟨'c',by decide⟩
  have word : ∀ word ∈ [chars "198.18.0.2",chars "53",chars "240.0.0.0",chars "10000"],
      Plain word ∧ ∀ c ∈ word, printable c = true := by
    intro word member
    simp only [List.mem_cons,List.not_mem_nil,or_false] at member
    rcases member with rfl | rfl | rfl | rfl
    all_goals exact plain_word (by decide) (by decide) (by decide)
  intro e member
  simp only [misc,tunnel,mapdns,plain,List.mem_append,List.mem_cons,List.not_mem_nil,or_false] at member
  rcases member with (rfl | rfl) | rfl | rfl | rfl | rfl | rfl
  · exact legible_plain (key _ (by decide)) (decimal_plain _)
  · exact legible_plain (key _ (by decide)) (decimal_plain _)
  all_goals exact legible_plain (key _ (by decide)) (word _ (by decide))

structure LegibleSection (s : Section) : Prop where
  proper : s.Proper
  printed : ∀ c ∈ sectionText s, printable c = true

theorem legible_section (named : Key s.name ∧ ∀ c ∈ s.name, printable c = true) (filled : s.entries ≠ [])
    (legible : ∀ e ∈ s.entries, Legible e) : LegibleSection s := by
  refine ⟨⟨named.1,filled,fun e member => ⟨(legible e member).key,(legible e member).proper⟩⟩,?_⟩
  intro c member
  simp only [sectionText,List.mem_append,List.mem_cons,List.not_mem_nil,or_false,List.mem_flatMap] at member
  rcases member with (member | rfl | rfl) | ⟨e,member,inside⟩
  · exact named.2 c member
  · decide
  · decide
  · exact (legible e member).printed c inside

theorem legible_sections (fit : cfg.Fit) : ∀ s ∈ sections cfg, LegibleSection s := by
  have fixed := legible_fixed
  have first : LegibleSection misc := by
    apply legible_section
    · exact key_of _ (by decide) (by decide) ⟨'m',by decide⟩
    · exact List.cons_ne_nil _ _
    · exact fun e member => fixed e (List.mem_append_left _ (List.mem_append_left _ member))
  have second : LegibleSection tunnel := by
    apply legible_section
    · exact key_of _ (by decide) (by decide) ⟨'t',by decide⟩
    · exact List.cons_ne_nil _ _
    · exact fun e member => fixed e (List.mem_append_left _ (List.mem_append_right _ member))
  have third : LegibleSection (socks5 cfg) := by
    apply legible_section
    · exact key_of (chars "socks5") (by decide) (by decide) ⟨'s',by decide⟩
    · simp [socks5,server]
    · intro e member
      rcases List.mem_append.mp member with member | member
      · rcases List.mem_append.mp member with member | member
        · exact legible_server fit e member
        · exact legible_udpServer fit e member
      · exact legible_credentials fit e member
  have fourth : LegibleSection mapdns := by
    apply legible_section
    · exact key_of _ (by decide) (by decide) ⟨'m',by decide⟩
    · exact List.cons_ne_nil _ _
    · exact fun e member => fixed e (List.mem_append_right _ member)
  intro s member
  simp only [sections,List.mem_append,List.mem_cons,List.not_mem_nil,or_false] at member
  rcases member with (rfl | rfl | rfl) | member
  · exact first
  · exact second
  · exact third
  · split_ifs at member
    · rw [List.mem_singleton.mp member]
      exact fourth
    · cases member

theorem config_loaded (fit : cfg.Fit) : yamlParserLoad (writeEngineConfig cfg) = some (document (sections cfg)) := by
  have legible := legible_sections fit
  have printed : ∀ c ∈ documentText (sections cfg), printable c = true := by
    intro c member
    obtain ⟨s,inside,here⟩ := List.mem_flatMap.mp member
    exact (legible s inside).printed c here
  rw [writeEngineConfig,text_sections]
  refine load_document (fun s member => (legible s member).proper) printed fun c head => ?_
  cases Option.some.inj head
  decide

end Psocks.Config
