import Mathlib.Data.List.TakeWhile
import Psocks.Yaml.Loader

namespace Psocks.Yaml
variable {text tail more word v run ws string : List Char} {c : Char} {n fuel : Nat} {p : Scanner} {indent : Int} {m : Mark}

-- A character that a token can start with after blanks, line breaks and comments.
structure Solid (c : Char) : Prop where
  blank : isBlank c = false
  line : isBreak c = false
  comment : c ≠ '#'
  mark : c ≠ bom

def Starts (text : List Char) : Prop := ∀ c ∈ text.head?, Solid c

def wordChar (c : Char) : Bool := !isBlank c && !isBreak c && c ≠ ':'

-- What may stand without quotes behind a colon, on the line of its key.
structure Plain (word : List Char) : Prop where
  filled : word ≠ []
  chars : ∀ c ∈ word, wordChar c
  first : ∀ c ∈ word.head?, c ≠ bom ∧ (c ∉ indicators ∨ c = '-' ∧ word.tail ≠ [])

-- What may also stand as a key, at the beginning of a line.
structure Word (word : List Char) : Prop where
  filled : word ≠ []
  chars : ∀ c ∈ word, wordChar c
  first : ∀ c ∈ word.head?, c ∉ indicators ∧ c ≠ '.' ∧ c ≠ bom

theorem Word.plain (word_ : Word word) : Plain word :=
  ⟨word_.filled,word_.chars,fun c head => ⟨(word_.first c head).2.2,.inl (word_.first c head).1⟩⟩

def escape (v : List Char) : List Char := v.flatMap fun c => if c = quote then [quote,quote] else [c]

-- No character of a quoted scalar is a line break.
def OneLine (v : List Char) : Prop := ∀ c ∈ v, isBreak c = false

theorem Solid.space (solid : Solid c) : c ≠ ' ' := by
  rintro rfl
  cases solid.blank

theorem scan_stays (starts : Starts p.rest) : yamlParserScanToNextToken (fuel+1) p = some p := by
  have none_ : ∀ q : Scanner, q.skip 0 = q := fun q => rfl
  rw [yamlParserScanToNextToken]
  cases shape : p.rest with
  | nil => simp [shape,none_]
  | cons c rest =>
    rw [shape] at starts
    have solid : Solid c := starts c rfl
    have tab : c.toNat ≠ 9 := by
      intro same
      simpa [isBlank,same] using solid.blank
    simp [shape,none_,solid.space,solid.mark,solid.comment,solid.line,tab]

theorem spaces_taken (f : Char → Bool) (space : f ' ' = true) (stops : ∀ c ∈ text.head?, f c = false) :
    (List.replicate n ' '++text).takeWhile f = List.replicate n ' ' := by
  rw [List.takeWhile_append_of_pos fun c member => by rw [List.eq_of_mem_replicate member]; exact space]
  cases text with
  | nil => simp
  | cons c rest => simp [stops c rfl]

theorem scan_spaces (shape : p.rest = List.replicate n ' '++text) (starts : Starts text) :
    yamlParserScanToNextToken (fuel+1) p = some (p.skip n) := by
  have clear : p.rest.head? ≠ some bom := by
    rw [shape]
    cases n with
    | zero => exact fun same => (starts bom same).mark rfl
    | succ n => simp [List.replicate_succ,bom]
  have taken : (p.rest.takeWhile fun c => c = ' ' || (!p.simpleKeyAllowed && c.toNat = 9)).length = n := by
    rw [shape,spaces_taken _ (by simp),List.length_replicate]
    intro c head
    have solid := starts c head
    have tab : c.toNat ≠ 9 := by
      intro same
      simpa [isBlank,same] using solid.blank
    simp [solid.space,tab]
  have left : (p.skip n).rest = text := by
    rw [Scanner.skip,shape]
    simp
  have comment : (p.skip n).rest.head? ≠ some '#' := by
    rw [left]
    exact fun same => (starts '#' same).comment rfl
  have ended : (p.skip n).rest.head?.any isBreak = false := by
    rw [left]
    cases text with
    | nil => rfl
    | cons c rest => exact (starts c rfl).line
  rw [yamlParserScanToNextToken]
  simp only [clear,and_false,if_false,taken,comment,ended,Bool.false_eq_true]

theorem scan_line (shape : p.rest = '\n'::(List.replicate n ' '++text)) (starts : Starts text) :
    yamlParserScanToNextToken (fuel+2) p =
      some {p with rest:=text,mark:=⟨p.mark.index+1+n,p.mark.line+1,n⟩,simpleKeyAllowed:=true} := by
  have line : p.skipLine = {p with rest:=List.replicate n ' '++text,mark:=⟨p.mark.index+1,p.mark.line+1,0⟩} := by
    rw [Scanner.skipLine,shape]
    rfl
  rw [yamlParserScanToNextToken]
  have none_ : p.skip 0 = p := rfl
  have first : p.rest.head? = some '\n' := by rw [shape]; rfl
  have taken : (p.rest.takeWhile fun c => c = ' ' || (!p.simpleKeyAllowed && c.toNat = 9)).length = 0 := by
    rw [shape,List.takeWhile_cons_of_neg (by simp),List.length_nil]
  have clear : (some '\n' : Option Char) ≠ some bom := by decide
  have text_ : (some '\n' : Option Char) ≠ some '#' := by decide
  have ended : (some '\n' : Option Char).any isBreak = true := by decide
  simp only [first,clear,and_false,if_false,taken,none_,text_,ended,if_true]
  rw [line,scan_spaces rfl starts]
  simp [Scanner.skip]

theorem skip_skip (p : Scanner) (a b : Nat) : (p.skip a).skip b = p.skip (a+b) := by
  simp [Scanner.skip,Nat.add_assoc]

theorem advance_behind (shape : p.rest = run++tail) : p.advance tail = p.skip run.length := by
  rw [Scanner.advance,shape,List.length_append,Nat.add_sub_cancel]

theorem skip_behind (shape : p.rest = run++tail) : (p.skip run.length).rest = tail := by
  rw [Scanner.skip,shape]
  exact List.drop_left

theorem indicator_inside (column : p.mark.column ≠ 0) : documentIndicator p = false := by simp [documentIndicator,column]

theorem quotedRun_cons (blank : isBlank c = false) (line : isBreak c = false) (other : c ≠ quote) :
    quotedRun (c::text) = (c::(quotedRun text).1,(quotedRun text).2) := by
  cases text with
  | nil => simp [quotedRun,blank,line,other]
  | cons d rest => simp [quotedRun,blank,line,other]

theorem quotedRun_doubled : quotedRun (quote::quote::text) = (quote::(quotedRun text).1,(quotedRun text).2) := by
  have blank : isBlank quote = false := by decide
  have line : isBreak quote = false := by decide
  simp [quotedRun,blank,line]

theorem quotedRun_closed (closed : tail.head? ≠ some quote) : quotedRun (quote::tail) = ([],quote::tail) := by
  have blank : isBlank quote = false := by decide
  have line : isBreak quote = false := by decide
  cases tail with
  | nil => simp [quotedRun]
  | cons d rest =>
    have other : d ≠ quote := by
      rintro rfl
      exact closed rfl
    simp [quotedRun,blank,line,other]

theorem quotedRun_blank (blank : isBlank c = true) : quotedRun (c::text) = ([],c::text) := by
  cases text with
  | nil => simp [quotedRun,blank]
  | cons d rest => simp [quotedRun,blank]

theorem quotedRun_escape (blank : ∀ c ∈ run, isBlank c = false) (line : OneLine run) (stops : quotedRun text = ([],text)) :
    quotedRun (escape run++text) = (run,text) := by
  induction run with
  | nil => exact stops
  | cons c run ih =>
    have rest := ih (fun d member => blank d (List.mem_cons_of_mem _ member)) fun d member => line d (List.mem_cons_of_mem _ member)
    by_cases same : c = quote
    · have doubled : escape (c::run)++text = quote::quote::(escape run++text) := by simp [escape,same]
      rw [doubled,quotedRun_doubled,rest,same]
    · have single : escape (c::run)++text = c::(escape run++text) := by simp [escape,same]
      rw [single,quotedRun_cons (blank c List.mem_cons_self) (line c List.mem_cons_self) same,rest]

theorem eat_spaces (blank : ∀ c ∈ ws, isBlank c = true) (stops : ∀ c ∈ text.head?, isBlank c = false ∧ isBreak c = false)
    (read : List Char) : eatBlanks indent (ws++text) m {whitespaces:=read} =
      some (text,⟨m.index+ws.length,m.line,m.column+ws.length⟩,{whitespaces:=read++ws}) := by
  induction ws generalizing m read with
  | nil =>
    cases text with
    | nil => simp [eatBlanks]
    | cons c rest =>
      obtain ⟨first,second⟩ := stops c rfl
      have return_ : c.toNat ≠ 13 := by
        intro same
        simp [isBreak,same] at second
      simp [eatBlanks,first,second,return_]
  | cons c ws ih =>
    have here := blank c List.mem_cons_self
    have rest := ih (m := ⟨m.index+1,m.line,m.column+1⟩) (fun d member => blank d (List.mem_cons_of_mem _ member)) (read++[c])
    rw [List.cons_append,eatBlanks,if_pos here]
    simp only [Bool.false_and,Bool.false_eq_true,if_false]
    rw [rest]
    simp [Nat.add_assoc,Nat.add_comm 1]

theorem escape_length (v : List Char) : v.length ≤ (escape v).length := by
  induction v with
  | nil => exact Nat.le_refl 0
  | cons c v ih =>
    rw [escape,List.flatMap_cons,List.length_append]
    have here : 1 ≤ (if c = quote then [quote,quote] else [c]).length := by split <;> simp
    rw [escape] at ih
    rw [List.length_cons]
    omega

theorem escape_append (run text : List Char) : escape (run++text) = escape run++escape text := List.flatMap_append

theorem escape_blank (blank : ∀ c ∈ ws, isBlank c = true) : escape ws = ws := by
  induction ws with
  | nil => rfl
  | cons c ws ih =>
    have other : c ≠ quote := by
      rintro rfl
      cases blank quote List.mem_cons_self
    have rest := ih fun d member => blank d (List.mem_cons_of_mem _ member)
    rw [escape,List.flatMap_cons,if_neg other]
    exact congrArg (c::·) rest

-- A text is a run without blanks, blanks and the rest of it.
theorem blanks_split (v : List Char) : ∃ run ws later, v = run++ws++later ∧ (∀ c ∈ run, isBlank c = false) ∧
    (∀ c ∈ ws, isBlank c = true) ∧ (∀ c ∈ later.head?, isBlank c = false) ∧ (ws = [] → later = []) := by
  refine ⟨v.takeWhile (!isBlank ·),(v.dropWhile (!isBlank ·)).takeWhile isBlank,(v.dropWhile (!isBlank ·)).dropWhile isBlank,?_,?_,?_,?_,?_⟩
  · rw [List.append_assoc,List.takeWhile_append_dropWhile,List.takeWhile_append_dropWhile]
  · intro c member
    simpa using List.mem_takeWhile_imp member
  · exact fun c member => List.mem_takeWhile_imp member
  · intro c head
    have stopped := List.head?_dropWhile_not isBlank (v.dropWhile (!isBlank ·))
    rw [head] at stopped
    simpa using stopped
  · intro none_
    have stopped := List.head?_dropWhile_not (!isBlank ·) v
    cases left : v.dropWhile (!isBlank ·) with
    | nil => rfl
    | cons c rest =>
      rw [left] at stopped none_
      have blank : isBlank c = true := by simpa using stopped
      rw [List.takeWhile_cons_of_pos blank] at none_
      cases none_

theorem quote_starts : isBlank quote = false ∧ isBreak quote = false := by decide

theorem escape_head (clear : ∀ c ∈ v.head?, isBlank c = false) (line : OneLine v) :
    ∀ c ∈ (escape v++quote::tail).head?, isBlank c = false ∧ isBreak c = false := by
  cases v with
  | nil =>
    rintro c ⟨⟩
    exact quote_starts
  | cons d v =>
    have here : isBlank d = false ∧ isBreak d = false := ⟨clear d rfl,line d List.mem_cons_self⟩
    intro c head
    by_cases same : d = quote
    · have first : quote = c := by simpa [escape,same] using head
      rw [← first]
      exact quote_starts
    · have first : d = c := by simpa [escape,same] using head
      rw [← first]
      exact here

theorem scanQuoted_exact (closed : tail.head? ≠ some quote) (column : p.mark.column ≠ 0) (line : OneLine v)
    (shape : p.rest = escape v++quote::tail) (more : v.length < fuel) :
    scanQuoted fuel string p = some (string++v,p.skip ((escape v).length+1)) := by
  induction fuel generalizing v string p with
  | zero => omega
  | succ fuel ih =>
    obtain ⟨run,ws,later,split,apart,blanks,clear,last⟩ := blanks_split v
    have lines : OneLine run ∧ OneLine ws ∧ OneLine later := by
      rw [split] at line
      refine ⟨fun c member => line c ?_,fun c member => line c ?_,fun c member => line c ?_⟩ <;> simp [member]
    have left : p.rest = escape run++(ws++(escape later++quote::tail)) := by
      rw [shape,split,escape_append,escape_append,escape_blank blanks]
      simp
    have stops : quotedRun (ws++(escape later++quote::tail)) = ([],ws++(escape later++quote::tail)) := by
      cases ws with
      | nil =>
        rw [last rfl]
        exact quotedRun_closed closed
      | cons c ws => exact quotedRun_blank (blanks c List.mem_cons_self)
    have filled : p.rest ≠ [] := by
      rw [shape]
      simp
    rw [scanQuoted,if_neg (by simp [indicator_inside column,filled])]
    dsimp only
    rw [left,quotedRun_escape apart lines.1 stops,advance_behind left,skip_behind left]
    cases ws with
    | nil =>
      rw [last rfl] at split ⊢
      have same : v = run := by simpa using split
      rw [if_pos (by simp [escape]),skip_skip,same]
    | cons b ws =>
      have blank := blanks b List.mem_cons_self
      have other : b ≠ quote := by
        rintro rfl
        cases blank
      rw [if_neg (by simp [other]),eat_spaces blanks (escape_head clear lines.2.2) []]
      have sizes : v.length = run.length+(b::ws).length+later.length := by
        rw [split,List.length_append,List.length_append]
      have written : (escape v).length = (escape run).length+(b::ws).length+(escape later).length := by
        rw [split,escape_append,escape_append,escape_blank blanks,List.length_append,List.length_append]
      have moved : p.skip ((escape run).length+(b::ws).length) =
          {p.skip (escape run).length with
            rest:=escape later++quote::tail,mark:=⟨(p.skip (escape run).length).mark.index+(b::ws).length,
              (p.skip (escape run).length).mark.line,(p.skip (escape run).length).mark.column+(b::ws).length⟩} := by
        rw [← skip_skip,Scanner.skip,skip_behind left,List.drop_left]
      simp only [Option.bind_eq_bind,Option.bind_some,← moved]
      rw [ih (v := later) (by simp only [Scanner.skip]; omega) lines.2.2 _ (by simp only [List.length_cons] at sizes; omega),
        skip_skip,written,split]
      · simp [Blanks.join,Nat.add_assoc]
      · rw [← skip_skip,Scanner.skip,skip_behind left,List.drop_left]

theorem plainRun_word (chars : ∀ c ∈ word, wordChar c) (stops : plainRun text = ([],text)) : plainRun (word++text) = (word,text) := by
  induction word with
  | nil => exact stops
  | cons c word ih =>
    have here : wordChar c := chars c List.mem_cons_self
    have rest := ih fun d member => chars d (List.mem_cons_of_mem _ member)
    have clear : ¬(isBlank c || isBreak c || (c = ':' && blankz (word++text))) = true := by
      simp only [wordChar,Bool.and_eq_true,decide_eq_true_eq,Bool.not_eq_true'] at here
      simp [here.1.1,here.1.2,here.2]
    rw [List.cons_append,plainRun,if_neg clear,rest]

theorem eat_line (starts : Starts text) : eatBlanks indent ('\n'::(List.replicate n ' '++text)) m {} =
    some (text,⟨m.index+1+n,m.line+1,n⟩,{leadingBlanks:=true,leadingBreak:=['\n']}) := by
  have spaces : ∀ m : Mark, eatBlanks indent (List.replicate n ' '++text) m {leadingBlanks:=true,leadingBreak:=['\n']} =
      some (text,⟨m.index+n,m.line,m.column+n⟩,{leadingBlanks:=true,leadingBreak:=['\n']}) := by
    induction n with
    | zero =>
      intro m
      cases text with
      | nil => simp [eatBlanks]
      | cons c rest =>
        have solid := starts c rfl
        have return_ : c.toNat ≠ 13 := by
          intro same
          simpa [isBreak,same] using solid.line
        simp [eatBlanks,solid.blank,solid.line,return_]
    | succ n ih =>
      intro m
      have blank : isBlank ' ' = true := by decide
      rw [List.replicate_succ,List.cons_append,eatBlanks,if_pos blank]
      simp [ih,Nat.add_assoc,Nat.add_comm 1]
  have blank : ¬isBlank '\n' = true := by decide
  have return_ : ¬('\n'.toNat = 13 ∧ (List.replicate n ' '++text).head? = some '\n') := fun both => absurd both.1 (by decide)
  have line : isBreak '\n' = true := by decide
  rw [eatBlanks,if_neg blank,if_neg return_,if_pos line]
  refine (spaces _).trans ?_
  simp

theorem plain_key (filled : word ≠ []) (chars : ∀ c ∈ word, wordChar c) (text_ : word.head? ≠ some '#') (gap : blankz more = true)
    (inside : documentIndicator p = false) (shape : p.rest = word++ ':'::more) :
    scanPlain indent (fuel+1) [] {} p = some (word,p.skip word.length) := by
  have stops : plainRun (':'::more) = ([],':'::more) := by simp [plainRun,gap]
  have first : p.rest.head? ≠ some '#' := by
    rw [shape,List.head?_append_of_ne_nil _ filled]
    exact text_
  rw [scanPlain]
  simp only [inside,Bool.false_eq_true,false_or,if_neg first]
  rw [shape,plainRun_word chars stops,advance_behind shape,skip_behind shape]
  have here : ((some ':' : Option Char).any fun c => isBlank c || isBreak c) = false := by decide
  simp [filled,Blanks.join,here,Scanner.skip,shape]

theorem plain_line (filled : word ≠ []) (chars : ∀ c ∈ word, wordChar c) (text_ : word.head? ≠ some '#') (starts : Starts text)
    (shallow : n < indent) (inside : documentIndicator p = false) (shape : p.rest = word++ '\n'::(List.replicate n ' '++text)) :
    scanPlain indent (fuel+1) [] {} p = some (word,
      {p with rest:=text,mark:=⟨p.mark.index+word.length+1+n,p.mark.line+1,n⟩,simpleKeyAllowed:=true}) := by
  have stops : plainRun ('\n'::(List.replicate n ' '++text)) = ([],'\n'::(List.replicate n ' '++text)) := by
    have line : isBreak '\n' = true := by decide
    simp [plainRun,line]
  have first : p.rest.head? ≠ some '#' := by
    rw [shape,List.head?_append_of_ne_nil _ filled]
    exact text_
  rw [scanPlain]
  simp only [inside,Bool.false_eq_true,false_or,if_neg first]
  rw [shape,plainRun_word chars stops,advance_behind shape,skip_behind shape]
  have here : ((some '\n' : Option Char).any fun c => isBlank c || isBreak c) = true := by decide
  simp only [if_neg filled,List.head?_cons,here,Bool.not_true,Bool.false_eq_true,if_false,eat_line starts,Option.bind_eq_bind,
    Option.bind_some,if_pos shallow]
  simp [Blanks.join,Scanner.skip]

variable {column : Nat} {indents : List Int} {tokens : List Token}

-- At the first character of a token that may be a key.
structure Stands (p : Scanner) (text : List Char) (column : Nat) (indent : Int) (indents : List Int) (tokens : List Token) : Prop where
  rest : p.rest = text
  column : p.mark.column = column
  indent : p.indent = indent
  indents : p.indents = indents
  tokens : p.tokens = tokens
  allowed : p.simpleKeyAllowed = true
  key : p.simpleKey.possible = false
  running : p.streamEndProduced = false

-- In front of blanks, comments and line breaks that lead there.
def Leads (p : Scanner) (text : List Char) (column : Nat) (indent : Int) (indents : List Int) (tokens : List Token) : Prop :=
  ∃ q, yamlParserScanToNextToken (p.rest.length+1) p = some q ∧ Stands q text column indent indents tokens

-- The same with the deeper mappings ended.
def Comes (p : Scanner) (text : List Char) (column : Nat) (indent : Int) (indents : List Int) (tokens : List Token) : Prop :=
  ∃ q, yamlParserScanToNextToken (p.rest.length+1) p = some q ∧ q.simpleKey.possible = false ∧
    Stands (yamlParserUnrollIndent q q.mark.column) text column indent indents tokens

-- Behind the colon of a key, or behind a value in quotes.
structure Behind (p : Scanner) (text : List Char) (indent : Int) (indents : List Int) (tokens : List Token) : Prop where
  rest : p.rest = text
  column : indent < p.mark.column ∧ 0 < p.mark.column
  indent : p.indent = indent
  indents : p.indents = indents
  tokens : p.tokens = tokens
  allowed : p.simpleKeyAllowed = false
  key : p.simpleKey.possible = false
  running : p.streamEndProduced = false

theorem stale_keeps (key : p.simpleKey.possible = false) : yamlParserStaleSimpleKeys p = some p := by
  simp [yamlParserStaleSimpleKeys,key]

theorem unroll_keeps {level : Int} (deep : p.indent ≤ level) : yamlParserUnrollIndent p level = p := by
  rw [yamlParserUnrollIndent]
  cases p.indents with
  | nil => rfl
  | cons above rest => rw [unrollFrom,if_neg (by omega)]

theorem unroll_once {above level : Int} (shallow : level < p.indent) (stack : p.indents = above::indents) (deep : above ≤ level) :
    yamlParserUnrollIndent p level = {p with indent:=above,indents:=indents,tokens:=p.tokens++[.blockEnd]} := by
  rw [yamlParserUnrollIndent,stack,unrollFrom,if_pos shallow]
  exact unroll_keeps (p := {p with indent:=above,indents:=indents,tokens:=p.tokens++[.blockEnd]}) deep

theorem comes_same (leads : Leads p text column indent indents tokens) (deep : indent ≤ column) : Comes p text column indent indents tokens := by
  obtain ⟨q,led,stands⟩ := leads
  refine ⟨q,led,stands.key,?_⟩
  rw [unroll_keeps (by rw [stands.column,stands.indent]; exact deep)]
  exact stands

theorem comes_ended (above : Int) (leads : Leads p text column indent (above::indents) tokens) (shallow : column < indent) (deep : above ≤ column) :
    Comes p text column above indents (tokens++[.blockEnd]) := by
  obtain ⟨q,led,stands⟩ := leads
  refine ⟨q,led,stands.key,?_⟩
  rw [unroll_once (by rw [stands.column,stands.indent]; exact shallow) stands.indents (by rw [stands.column]; exact deep)]
  exact ⟨stands.rest,stands.column,rfl,rfl,congrArg (·++[.blockEnd]) stands.tokens,stands.allowed,stands.key,stands.running⟩

theorem leads_line (behind : Behind p ('\n'::(List.replicate n ' '++text)) indent indents tokens) (starts : Starts text) :
    Leads p text n indent indents tokens := by
  refine ⟨{p with rest:=text,mark:=⟨p.mark.index+1+n,p.mark.line+1,n⟩,simpleKeyAllowed:=true},?_,
    rfl,rfl,behind.indent,behind.indents,behind.tokens,rfl,behind.key,behind.running⟩
  have size : p.rest.length+1 = (List.replicate n ' '++text).length+2 := by
    rw [behind.rest]
    rfl
  rw [size,scan_line behind.rest starts]

theorem indicator_word (plain : Word word) (shape : p.rest = word++text) : documentIndicator p = false := by
  cases word with
  | nil => exact (plain.filled rfl).elim
  | cons c word =>
    obtain ⟨other,point,_⟩ := plain.first c rfl
    have dash : c ≠ '-' := by
      rintro rfl
      exact other (by decide)
    simp [documentIndicator,shape,dash,point]

theorem fetch_plain (plain : Plain word) (inside : documentIndicator p = false) (shape : p.rest = word++text) :
    fetchToken p = yamlParserFetchPlainScalar p := by
  cases word with
  | nil => exact (plain.filled rfl).elim
  | cons c word =>
    obtain ⟨_,first⟩ := plain.first c rfl
    have here : wordChar c := plain.chars c List.mem_cons_self
    simp only [wordChar,Bool.and_eq_true,Bool.not_eq_true',decide_eq_true_eq] at here
    rw [List.cons_append] at shape
    rcases first with other | ⟨rfl,filled⟩
    · have start : plainStart c (word++text) = true := by simp [plainStart,here.1.1,here.1.2,other]
      have away : ∀ d ∈ indicators, c ≠ d := by
        rintro d member rfl
        exact other member
      have dash := away '-' (by decide)
      have mark := away '?' (by decide)
      have quoted := away quote (by decide)
      simp [fetchToken,shape,inside,dash,mark,here.2,quoted,start]
    · cases word with
      | nil => exact (filled rfl).elim
      | cons d word =>
        have second : wordChar d := plain.chars d (List.mem_cons_of_mem _ List.mem_cons_self)
        simp only [wordChar,Bool.and_eq_true,Bool.not_eq_true',decide_eq_true_eq] at second
        have dash : '-' ≠ quote := by decide
        simp [fetchToken,shape,inside,blankz,plainStart,second.1.1,second.1.2,dash]

theorem next_fetch {q : Scanner} (led : yamlParserScanToNextToken (p.rest.length+1) p = some q) (idle : yamlParserStaleSimpleKeys q = some q) :
    yamlParserFetchNextToken p = fetchToken (yamlParserUnrollIndent q q.mark.column) := by
  rw [yamlParserFetchNextToken,led]
  simp [idle]

-- At the colon of a key.
structure Keyed (p : Scanner) (word more : List Char) (column : Nat) (indent : Int) (indents : List Int) (tokens : List Token) : Prop where
  rest : p.rest = ':'::more
  possible : p.simpleKey.possible = true
  number : p.simpleKey.tokenNumber = tokens.length
  at_ : p.simpleKey.mark.column = column
  line : p.simpleKey.mark.line = p.mark.line
  near : p.mark.index ≤ p.simpleKey.mark.index+1024
  column : p.mark.column = column+word.length
  indent : p.indent = indent
  indents : p.indents = indents
  tokens : p.tokens = tokens++[.scalar word]
  running : p.streamEndProduced = false

theorem insertIdx_behind {α : Type} (front rest : List α) (x : α) : (front++rest).insertIdx front.length x = front++x::rest := by
  induction front with
  | nil => rfl
  | cons y front ih => exact congrArg (y::·) ih

theorem key_fetched (comes : Comes p (word++ ':'::more) column indent indents tokens) (plain : Word word) (short : word.length ≤ 1024)
    (gap : blankz more = true) : ∃ r, yamlParserFetchNextToken p = some r ∧ Keyed r word more column indent indents tokens := by
  obtain ⟨q,led,idle,stands⟩ := comes
  rw [next_fetch led (stale_keeps idle),fetch_plain plain.plain (indicator_word plain stands.rest) stands.rest]
  generalize yamlParserUnrollIndent q q.mark.column = q at stands
  have text_ : word.head? ≠ some '#' := fun same => absurd (plain.first '#' same).1 (by decide)
  let saved : Scanner := {q with simpleKeyAllowed:=false,simpleKey:=⟨true,q.indent = q.mark.column,q.tokens.length,q.mark⟩}
  have save : yamlParserSaveSimpleKey q = some {saved with simpleKeyAllowed:=true} := by
    simp [yamlParserSaveSimpleKey,yamlParserRemoveSimpleKey,stands.allowed,stands.key,saved]
  have scanned : yamlParserScanPlainScalar saved = some (word,saved.skip word.length) :=
    plain_key (p := saved) plain.filled plain.chars text_ gap (indicator_word (p := saved) plain stands.rest) stands.rest
  have fetched : yamlParserFetchPlainScalar q = some {saved.skip word.length with tokens:=q.tokens++[.scalar word]} := by
    rw [yamlParserFetchPlainScalar,fetchScalar,save]
    simp only [Option.bind_eq_bind,Option.bind_some]
    rw [show ({saved with simpleKeyAllowed:=false} : Scanner) = saved from rfl,scanned]
    rfl
  refine ⟨_,fetched,?_⟩
  exact {
    rest := skip_behind (p := saved) stands.rest
    column := by rw [← stands.column]; rfl
    indent := stands.indent
    indents := stands.indents
    tokens := by rw [← stands.tokens]
    possible := rfl
    number := by rw [← stands.tokens]; rfl
    at_ := stands.column
    line := rfl
    near := Nat.add_le_add_left short _
    running := stands.running}

-- The scanner with the key's tokens put in where the key begins.
def keyIn (p : Scanner) : Scanner :=
  yamlParserRollIndent {p with tokens:=p.tokens.insertIdx p.simpleKey.tokenNumber .key} p.simpleKey.mark.column p.simpleKey.tokenNumber
    .blockMappingStart

theorem value_fetched (possible : p.simpleKey.possible = true) :
    yamlParserFetchValue p = some {(keyIn p).skip 1 with
      simpleKeyAllowed:=false,simpleKey:={p.simpleKey with possible:=false},tokens:=(keyIn p).tokens++[.value]} := by
  rw [yamlParserFetchValue]
  simp only [possible,if_true]
  rfl

theorem keyIn_parts (keyed : Keyed p word more column indent indents tokens) (flush : indent ≤ column) :
    (keyIn p).rest = p.rest ∧ (keyIn p).mark = p.mark ∧ (keyIn p).indent = column ∧
      (keyIn p).indents = (if indent < column then indent::indents else indents) ∧
      (keyIn p).tokens = tokens++(if indent < column then [.blockMappingStart] else [])++[.key,.scalar word] ∧
      (keyIn p).streamEndProduced = false := by
  have key : p.tokens.insertIdx p.simpleKey.tokenNumber .key = tokens++[.key,.scalar word] := by
    rw [keyed.tokens,keyed.number,insertIdx_behind]
  have start : (tokens++[Token.key,.scalar word]).insertIdx p.simpleKey.tokenNumber .blockMappingStart =
      tokens++[.blockMappingStart,.key,.scalar word] := by
    rw [keyed.number,insertIdx_behind]
  rw [keyIn,yamlParserRollIndent,key]
  simp only [keyed.indent,keyed.indents,keyed.at_,start]
  by_cases deeper : indent < column
  · simp [deeper,keyed.running]
  · have level : indent = column := by omega
    simp [level,keyed.running]

theorem colon_fetched (keyed : Keyed p word more column indent indents tokens) (filled : word ≠ []) (gap : blankz more = true)
    (flush : indent ≤ column) :
    ∃ s, yamlParserFetchNextToken p = some s ∧ Behind s more column (if indent < column then indent::indents else indents)
      (tokens++(if indent < column then [.blockMappingStart] else [])++[.key,.scalar word,.value]) := by
  have solid : Solid ':' := ⟨by decide,by decide,by decide,by decide⟩
  have starts : Starts p.rest := by
    rw [keyed.rest]
    rintro c ⟨⟩
    exact solid
  have fresh : yamlParserStaleSimpleKeys p = some p := by
    have near : ¬p.simpleKey.mark.index+1024 < p.mark.index := Nat.not_lt.mpr keyed.near
    simp [yamlParserStaleSimpleKeys,keyed.line,near]
  have size := List.length_pos_of_ne_nil filled
  have deep : p.indent ≤ p.mark.column := by
    rw [keyed.indent,keyed.column]
    omega
  have dispatched : fetchToken p = yamlParserFetchValue p := by
    simp [fetchToken,keyed.rest,documentIndicator,gap]
  obtain ⟨rest,mark,level,stack,read,running⟩ := keyIn_parts keyed flush
  rw [next_fetch (scan_stays starts) fresh,unroll_keeps deep,dispatched]
  refine ⟨_,value_fetched keyed.possible,?_⟩
  exact {
    rest := by simp [Scanner.skip,rest,keyed.rest]
    column := by simp only [Scanner.skip,mark,keyed.column]; omega
    indent := level
    indents := stack
    tokens := by rw [read]; simp
    allowed := rfl
    key := rfl
    running := running}

theorem Plain.solid (plain : Plain word) : Starts (word++text) := by
  cases word with
  | nil => exact (plain.filled rfl).elim
  | cons c word =>
    rintro d ⟨⟩
    obtain ⟨mark,first⟩ := plain.first c rfl
    have here : wordChar c := plain.chars c List.mem_cons_self
    simp only [wordChar,Bool.and_eq_true,Bool.not_eq_true',decide_eq_true_eq] at here
    refine ⟨here.1.1,here.1.2,?_,mark⟩
    rintro rfl
    rcases first with other | ⟨other,_⟩
    · exact other (by decide)
    · cases other

-- One blank in front of the value.
theorem behind_value {rest : List Char} (behind : Behind p (' '::rest) indent indents tokens) (starts : Starts rest) :
    yamlParserFetchNextToken p = fetchToken (p.skip 1) ∧ Behind (p.skip 1) rest indent indents tokens := by
  have skipped : Behind (p.skip 1) rest indent indents tokens := by
    refine ⟨by rw [Scanner.skip,behind.rest]; rfl,?_,behind.indent,behind.indents,behind.tokens,behind.allowed,behind.key,behind.running⟩
    have inside := behind.column
    simp only [Scanner.skip]
    omega
  refine ⟨?_,skipped⟩
  have deep : (p.skip 1).indent ≤ (p.skip 1).mark.column := by
    rw [skipped.indent]
    exact Int.le_of_lt skipped.column.1
  rw [next_fetch (scan_spaces (n := 1) behind.rest starts) (stale_keeps skipped.key),unroll_keeps deep]

theorem value_saved (behind : Behind p text indent indents tokens) (scan : Scanner → Option (List Char×Scanner)) :
    fetchScalar scan p = (scan p).map fun r => {r.2 with tokens:=r.2.tokens++[.scalar r.1]} := by
  have kept : ({p with simpleKeyAllowed:=false} : Scanner) = p := by
    rw [← behind.allowed]
  have saved : yamlParserSaveSimpleKey p = some p := by
    rw [yamlParserSaveSimpleKey,behind.allowed]
    rfl
  rw [fetchScalar,saved]
  simp only [Option.bind_eq_bind,Option.bind_some,kept]
  cases scan p <;> rfl

theorem quoted_fetched {rest : List Char} (behind : Behind p (' '::quote::(escape v++quote::rest)) indent indents tokens)
    (line : OneLine v) (closed : rest.head? ≠ some quote) :
    ∃ q, yamlParserFetchNextToken p = some q ∧ Behind q rest indent indents (tokens++[.scalar v]) := by
  have solid : Solid quote := ⟨by decide,by decide,by decide,by decide⟩
  have starts : Starts (quote::(escape v++quote::rest)) := by
    rintro c ⟨⟩
    exact solid
  obtain ⟨fetched,behind⟩ := behind_value behind starts
  generalize p.skip 1 = p at fetched behind
  have outside : p.mark.column ≠ 0 := by
    have inside := behind.column.2
    omega
  have dispatched : fetchToken p = yamlParserFetchFlowScalar p := by
    have dash : quote ≠ '-' := by decide
    have mark : quote ≠ '?' := by decide
    have colon : quote ≠ ':' := by decide
    simp [fetchToken,behind.rest,indicator_inside outside,dash,mark,colon]
  have opened : (p.skip 1).rest = escape v++quote::rest := by
    rw [Scanner.skip,behind.rest]
    rfl
  have scanned : yamlParserScanFlowScalar p = some (v,(p.skip 1).skip ((escape v).length+1)) := by
    have more : v.length < (p.skip 1).rest.length+1 := by
      have size := escape_length v
      rw [opened,List.length_append]
      omega
    exact scanQuoted_exact closed (by simp [Scanner.skip]) line opened more
  have closing : (p.skip 1).rest = (escape v++[quote])++rest := by
    rw [opened]
    simp
  have ended := skip_behind closing
  rw [List.length_append,List.length_singleton] at ended
  rw [fetched,dispatched,yamlParserFetchFlowScalar,value_saved behind,scanned]
  refine ⟨_,rfl,ended,?_,behind.indent,behind.indents,by rw [← behind.tokens]; rfl,behind.allowed,behind.key,behind.running⟩
  have inside := behind.column
  simp only [Scanner.skip]
  omega

theorem plain_fetched (behind : Behind p (' '::(word++ '\n'::(List.replicate n ' '++text))) indent indents tokens) (plain : Plain word)
    (starts : Starts text) (shallow : n < indent+1) :
    ∃ q, yamlParserFetchNextToken p = some q ∧ q.streamEndProduced = false ∧ Leads q text n indent indents (tokens++[.scalar word]) := by
  obtain ⟨fetched,behind⟩ := behind_value behind plain.solid
  generalize p.skip 1 = p at fetched behind
  have outside : p.mark.column ≠ 0 := by
    have inside := behind.column.2
    omega
  have dispatched := fetch_plain plain (indicator_inside outside) behind.rest
  have text_ : word.head? ≠ some '#' := by
    intro same
    cases word with
    | nil => cases same
    | cons c word =>
      cases same
      exact ((plain.solid : Starts (_++[])) '#' rfl).comment rfl
  have scanned : yamlParserScanPlainScalar p = some (word,
      {p with rest:=text,mark:=⟨p.mark.index+word.length+1+n,p.mark.line+1,n⟩,simpleKeyAllowed:=true}) :=
    plain_line plain.filled plain.chars text_ starts (by rw [behind.indent]; exact shallow) (indicator_inside outside) behind.rest
  rw [fetched,dispatched,yamlParserFetchPlainScalar,value_saved behind,scanned]
  refine ⟨_,rfl,behind.running,_,scan_stays (by exact starts),?_⟩
  exact ⟨rfl,rfl,behind.indent,behind.indents,by rw [← behind.tokens],rfl,behind.key,behind.running⟩

end Psocks.Yaml
