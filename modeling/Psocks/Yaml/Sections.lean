import Psocks.Yaml.Written

namespace Psocks.Yaml

-- A value as it stands in the text.
inductive Written where
  | plain (word : List Char)
  | quoted (v : List Char)

def Written.value : Written → List Char
  | .plain word => word
  | .quoted v => v

def Written.text : Written → List Char
  | .plain word => word
  | .quoted v => quote::(escape v++[quote])

def Written.Proper : Written → Prop
  | .plain word => Plain word
  | .quoted v => OneLine v

abbrev Entry := List Char×Written

-- A key of the document with the mapping that is its value.
structure Section where
  name : List Char
  entries : List Entry

def entryLine (e : Entry) : List Char := e.1++[':',' ']++e.2.text++['\n']

def entryText (e : Entry) : List Char := [' ',' ']++entryLine e

def sectionText (s : Section) : List Char := s.name++[':','\n']++s.entries.flatMap entryText

def documentText (sections : List Section) : List Char := sections.flatMap sectionText

structure Key (word : List Char) : Prop where
  short : word.length ≤ 1024
  word : Word word

structure Section.Proper (s : Section) : Prop where
  name : Key s.name
  filled : s.entries ≠ []
  keys : ∀ e ∈ s.entries, Key e.1 ∧ e.2.Proper

def entryTokens (e : Entry) : List Token := [.key,.scalar e.1,.value,.scalar e.2.value]

def sectionTokens (s : Section) : List Token :=
  [.key,.scalar s.name,.value,.blockMappingStart]++s.entries.flatMap entryTokens++[.blockEnd]

def documentTokens (sections : List Section) : List Token :=
  [.streamStart,.blockMappingStart]++sections.flatMap sectionTokens++[.blockEnd,.streamEnd]

variable {text : List Char} {p q r : Scanner} {indent : Int} {indents : List Int} {tokens : List Token} {j k n : Nat} {e : Entry} {es : List Entry}

-- Some tokens are fetched, and the end is not among them.
def Turns (k : Nat) (p q : Scanner) : Prop := ∀ fuel, yamlParserFetchMoreTokens (fuel+k) p = yamlParserFetchMoreTokens fuel q

theorem turn_one (fetched : yamlParserFetchNextToken p = some q) (running : q.streamEndProduced = false) : Turns 1 p q := by
  intro fuel
  rw [yamlParserFetchMoreTokens,fetched]
  simp [running]

theorem turns_trans (first : Turns j p q) (second : Turns k q r) : Turns (k+j) p r := by
  intro fuel
  rw [← Nat.add_assoc,first,second]

theorem Word.starts {word : List Char} (word_ : Word word) : Starts (word++text) := word_.plain.solid

theorem key_turns {word more : List Char} {column : Nat} (comes : Comes p (word++ ':'::more) column indent indents tokens) (key : Key word)
    (gap : blankz more = true) (flush : indent ≤ column) :
    ∃ q, Turns 2 p q ∧ Behind q more column (if indent < column then indent::indents else indents)
      (tokens++(if indent < column then [.blockMappingStart] else [])++[.key,.scalar word,.value]) := by
  obtain ⟨r,fetched,keyed⟩ := key_fetched comes key.word key.short gap
  obtain ⟨q,colon,behind⟩ := colon_fetched keyed key.word.filled gap flush
  exact ⟨q,turns_trans (turn_one fetched keyed.running) (turn_one colon behind.running),behind⟩

theorem value_turns {w : Written} (behind : Behind p (' '::(w.text++ '\n'::(List.replicate n ' '++text))) indent indents tokens) (proper : w.Proper)
    (starts : Starts text) (shallow : n < indent+1) :
    ∃ q, Turns 1 p q ∧ Leads q text n indent indents (tokens++[.scalar w.value]) := by
  cases w with
  | plain word =>
    obtain ⟨q,fetched,running,leads⟩ := plain_fetched behind proper starts shallow
    exact ⟨q,turn_one fetched running,leads⟩
  | quoted v =>
    have shape : ' '::((Written.quoted v).text++ '\n'::(List.replicate n ' '++text)) =
        ' '::quote::(escape v++quote:: '\n'::(List.replicate n ' '++text)) := by simp [Written.text]
    rw [shape] at behind
    obtain ⟨q,fetched,after⟩ := quoted_fetched behind proper (by rw [List.head?_cons]; decide)
    exact ⟨q,turn_one fetched after.running,leads_line after starts⟩

theorem entry_turns (comes : Comes p (entryLine e++(List.replicate n ' '++text)) 2 indent indents tokens) (key : Key e.1) (proper : e.2.Proper)
    (flush : indent ≤ 2) (starts : Starts text) (shallow : n < 3) :
    ∃ q, Turns 3 p q ∧ Leads q text n 2 (if indent < 2 then indent::indents else indents)
      (tokens++(if indent < 2 then [.blockMappingStart] else [])++entryTokens e) := by
  have shape : entryLine e++(List.replicate n ' '++text) = e.1++ ':':: ' '::(e.2.text++ '\n'::(List.replicate n ' '++text)) := by
    simp [entryLine]
  rw [shape] at comes
  obtain ⟨q,turns,behind⟩ := key_turns comes key rfl flush
  obtain ⟨r,turn,leads⟩ := value_turns behind proper starts (by omega)
  refine ⟨r,turns_trans turns turn,?_⟩
  simpa [entryTokens] using leads

theorem entries_turns (comes : Comes p (entryLine e++(es.flatMap entryText++text)) 2 indent indents tokens)
    (proper : ∀ e' ∈ e::es, Key e'.1 ∧ e'.2.Proper) (flush : indent ≤ 2) (starts : Starts text) :
    ∃ q, Turns (3*(es.length+1)) p q ∧ Leads q text 0 2 (if indent < 2 then indent::indents else indents)
      (tokens++(if indent < 2 then [.blockMappingStart] else [])++(e::es).flatMap entryTokens) := by
  induction es generalizing e p indent indents tokens with
  | nil =>
    obtain ⟨key,here⟩ := proper e List.mem_cons_self
    have turns := entry_turns (n := 0) comes key here flush starts (by omega)
    simpa using turns
  | cons e' es ih =>
    obtain ⟨key,here⟩ := proper e List.mem_cons_self
    obtain ⟨next,_⟩ := proper e' (List.mem_cons_of_mem _ List.mem_cons_self)
    have shape : entryLine e++((e'::es).flatMap entryText++text) =
        entryLine e++(List.replicate 2 ' '++(entryLine e'++(es.flatMap entryText++text))) := by
      simp [entryText,List.replicate_succ]
    rw [shape] at comes
    have line : Starts (entryLine e'++(es.flatMap entryText++text)) := by
      rw [entryLine]
      simp only [List.append_assoc]
      exact next.word.starts
    obtain ⟨q,turns,leads⟩ := entry_turns comes key here flush line (by omega)
    obtain ⟨r,later,ended⟩ := ih (comes_same leads (by omega)) (fun d member => proper d (List.mem_cons_of_mem _ member)) (by omega)
    refine ⟨r,?_,?_⟩
    · have total := turns_trans turns later
      rwa [show 3*((e'::es).length+1) = 3*(es.length+1)+3 by rw [List.length_cons]; omega]
    · simpa using ended

theorem section_turns {s : Section} (comes : Comes p (sectionText s++text) 0 indent indents tokens) (proper : s.Proper) (flush : indent ≤ 0)
    (stack : (if indent < 0 then indent::indents else indents) = [-1]) (starts : Starts text) :
    ∃ q, Turns (3*s.entries.length+2) p q ∧ Comes q text 0 0 [-1]
      (tokens++(if indent < 0 then [.blockMappingStart] else [])++sectionTokens s) := by
  obtain ⟨e,es,same⟩ : ∃ e es, s.entries = e::es := by
    cases entries : s.entries with
    | nil => exact (proper.filled entries).elim
    | cons e es => exact ⟨e,es,rfl⟩
  have keys := proper.keys
  rw [same] at keys
  have shape : sectionText s++text = s.name++ ':':: '\n'::(List.replicate 2 ' '++(entryLine e++(es.flatMap entryText++text))) := by
    simp [sectionText,same,entryText,List.replicate_succ]
  rw [shape] at comes
  have line : Starts (entryLine e++(es.flatMap entryText++text)) := by
    rw [entryLine]
    simp only [List.append_assoc]
    exact (keys e List.mem_cons_self).1.word.starts
  obtain ⟨q,turns,behind⟩ := key_turns comes proper.name rfl flush
  rw [show ((0 : Nat) : Int) = 0 from rfl,stack] at behind
  obtain ⟨r,later,leads⟩ := entries_turns (comes_same (leads_line behind line) (by omega)) keys (by omega) starts
  refine ⟨r,?_,?_⟩
  · have total := turns_trans turns later
    rw [same,List.length_cons]
    exact total
  · have ended := comes_ended 0 leads (by omega) (by omega)
    simpa [sectionTokens,same] using ended

theorem Section.Proper.starts {s : Section} (proper : s.Proper) : Starts (sectionText s++text) := by
  rw [sectionText]
  simp only [List.append_assoc]
  exact proper.name.word.starts

theorem document_starts {sections : List Section} (proper : ∀ s ∈ sections, s.Proper) : Starts (documentText sections) := by
  cases sections with
  | nil =>
    intro c head
    cases head
  | cons s rest => exact (proper s List.mem_cons_self).starts

theorem entries_length (entries : List Entry) : 3*entries.length ≤ (entries.flatMap entryText).length := by
  induction entries with
  | nil => exact Nat.le_refl 0
  | cons e es ih =>
    rw [List.flatMap_cons,List.length_append,List.length_cons]
    have here : 3 ≤ (entryText e).length := by
      simp [entryText,entryLine]
      omega
    omega

theorem section_length (s : Section) : 3*s.entries.length+2 ≤ (sectionText s).length := by
  have inner := entries_length s.entries
  rw [sectionText,List.length_append,List.length_append]
  simp only [List.length_cons,List.length_nil]
  omega

theorem sections_turns {sections : List Section} (comes : Comes p (documentText sections) 0 0 [-1] tokens)
    (proper : ∀ s ∈ sections, s.Proper) :
    ∃ k q, k ≤ (documentText sections).length ∧ Turns k p q ∧ Comes q [] 0 0 [-1] (tokens++sections.flatMap sectionTokens) := by
  induction sections generalizing p tokens with
  | nil => exact ⟨0,p,Nat.zero_le _,fun _ => rfl,by simpa [documentText] using comes⟩
  | cons s rest ih =>
    have later : ∀ s' ∈ rest, s'.Proper := fun s' member => proper s' (List.mem_cons_of_mem _ member)
    obtain ⟨q,turns,after⟩ := section_turns comes (proper s List.mem_cons_self) (Int.le_refl 0) rfl (document_starts later)
    obtain ⟨k,r,bound,more,ended⟩ := ih after later
    have size := section_length s
    refine ⟨k+(3*s.entries.length+2),r,?_,turns_trans turns more,by simpa using ended⟩
    rw [documentText,List.flatMap_cons,List.length_append]
    rw [documentText] at bound
    omega

theorem end_fetched (comes : Comes p [] 0 0 [-1] tokens) :
    ∃ q, yamlParserFetchNextToken p = some q ∧ q.streamEndProduced = true ∧ q.tokens = tokens++[.blockEnd,.streamEnd] := by
  obtain ⟨q,led,idle,stands⟩ := comes
  rw [next_fetch led (stale_keeps idle)]
  generalize yamlParserUnrollIndent q q.mark.column = q at stands
  have dispatched : fetchToken q = yamlParserFetchStreamEnd q := by rw [fetchToken,stands.rest]
  have unrolled : yamlParserUnrollIndent q (-1) = {q with indent:=-1,indents:=[],tokens:=q.tokens++[.blockEnd]} :=
    unroll_once (by rw [stands.indent]; omega) stands.indents (Int.le_refl _)
  have ended : yamlParserFetchStreamEnd q = some {q with
      indent:=-1,indents:=[],simpleKey:={q.simpleKey with possible:=false},simpleKeyAllowed:=false,streamEndProduced:=true,
      tokens:=q.tokens++[.blockEnd]++[.streamEnd]} := by
    rw [yamlParserFetchStreamEnd,if_neg (by simp [stands.column])]
    simp only [unrolled]
    simp [yamlParserRemoveSimpleKey,stands.key]
  rw [dispatched]
  refine ⟨_,ended,rfl,?_⟩
  rw [stands.tokens]
  simp

-- Sections of entries are scanned as they were written.
theorem scan_document {s : Section} {rest : List Section} (proper : ∀ s' ∈ s::rest, s'.Proper) :
    yamlParserScan (documentText (s::rest)) = some (documentTokens (s::rest)) := by
  have later : ∀ s' ∈ rest, s'.Proper := fun s' member => proper s' (List.mem_cons_of_mem _ member)
  have starts := document_starts proper
  have leads : Leads (yamlParserFetchStreamStart (documentText (s::rest))) (sectionText s++documentText rest) 0 (-1) [] [.streamStart] :=
    ⟨_,scan_stays (p := yamlParserFetchStreamStart (documentText (s::rest))) starts,rfl,rfl,rfl,rfl,rfl,rfl,rfl,rfl⟩
  obtain ⟨q,turns,after⟩ := section_turns (comes_same leads (by omega)) (proper s List.mem_cons_self) (by omega) rfl (document_starts later)
  obtain ⟨k,r,bound,more,ended⟩ := sections_turns after later
  obtain ⟨z,fetched,over_,read⟩ := end_fetched ended
  have size := section_length s
  have fuel : (documentText (s::rest)).length+2 =
      (documentText (s::rest)).length-(k+(3*s.entries.length+2))+1+1+(k+(3*s.entries.length+2)) := by
    have whole : (documentText (s::rest)).length = (sectionText s).length+(documentText rest).length := by
      rw [documentText,List.flatMap_cons,List.length_append,documentText]
    omega
  rw [yamlParserScan,fuel,turns_trans turns more,yamlParserFetchMoreTokens,fetched]
  simp only [Option.bind_eq_bind,Option.bind_some,over_,if_true,read]
  simp [documentTokens]

end Psocks.Yaml
