namespace Psocks.Yaml

-- Block mappings with plain and single-quoted scalars. `none` is an error of the scanner, and
-- also a text that has anything else: a directive, a document indicator, a flow or a block
-- sequence, a flow mapping, an anchor, an alias, a tag, a block or a double-quoted scalar.

def bom : Char := Char.ofNat 0xfeff

def quote : Char := Char.ofNat 39

def isBlank (c : Char) : Bool := c = ' ' || c.toNat = 9

-- CR, LF, NEL, LS and PS.
def isBreak (c : Char) : Bool := c.toNat = 13 || c.toNat = 10 || c.toNat = 0x85 || c.toNat = 0x2028 || c.toNat = 0x2029

def blankz (text : List Char) : Bool := text.head?.all fun c => isBlank c || isBreak c

-- What the reader lets through.
def printable (c : Char) : Bool :=
  c.toNat = 9 || c.toNat = 10 || c.toNat = 13 || (0x20 ≤ c.toNat && c.toNat ≤ 0x7e) || c.toNat = 0x85 ||
    (0xa0 ≤ c.toNat && c.toNat ≤ 0xd7ff) || (0xe000 ≤ c.toNat && c.toNat ≤ 0xfffd) || (0x10000 ≤ c.toNat && c.toNat ≤ 0x10ffff)

-- UTF-8 with or without a byte order mark.
def yamlParserUpdateBuffer (bytes : List UInt8) : Option (List Char) :=
  if bytes.take 2 = [0xff,0xfe] ∨ bytes.take 2 = [0xfe,0xff] then none
  else
    let bytes := if bytes.take 3 = [0xef,0xbb,0xbf] then bytes.drop 3 else bytes
    (bytes.toByteArray.utf8Decode?.map Array.toList).filter fun text => text.all printable

structure Mark where
  index : Nat
  line : Nat
  column : Nat
deriving DecidableEq, Repr

inductive Token where
  | streamStart
  | streamEnd
  | blockMappingStart
  | blockEnd
  | key
  | value
  | scalar (value : List Char)
deriving DecidableEq, Repr

structure SimpleKey where
  possible : Bool
  required : Bool
  tokenNumber : Nat
  mark : Mark

-- Outside of flow collections there is one place for a simple key.
structure Scanner where
  rest : List Char
  mark : Mark
  streamEndProduced : Bool
  indent : Int
  indents : List Int
  simpleKeyAllowed : Bool
  simpleKey : SimpleKey
  tokens : List Token

def Scanner.skip (p : Scanner) (n : Nat) : Scanner :=
  {p with rest:=p.rest.drop n,mark:={p.mark with index:=p.mark.index+n,column:=p.mark.column+n}}

def Scanner.skipLine (p : Scanner) : Scanner :=
  let n := if p.rest.map Char.toNat |>.take 2 |> (· = [13,10]) then 2 else 1
  {p with rest:=p.rest.drop n,mark:=⟨p.mark.index+n,p.mark.line+1,0⟩}

def yamlParserScanToNextToken : Nat → Scanner → Option Scanner
  | 0, _ => none
  | fuel+1, p =>
    let p := if p.mark.column = 0 ∧ p.rest.head? = some bom then p.skip 1 else p
    let p := p.skip (p.rest.takeWhile fun c => c = ' ' || (!p.simpleKeyAllowed && c.toNat = 9)).length
    let p := if p.rest.head? = some '#' then p.skip (p.rest.takeWhile fun c => !isBreak c).length else p
    if p.rest.head?.any isBreak then yamlParserScanToNextToken fuel {p.skipLine with simpleKeyAllowed:=true}
    else some p

def yamlParserStaleSimpleKeys (p : Scanner) : Option Scanner :=
  let key := p.simpleKey
  if key.possible && (key.mark.line < p.mark.line || key.mark.index+1024 < p.mark.index) then
    if key.required then none else some {p with simpleKey:={key with possible:=false}}
  else some p

def yamlParserRemoveSimpleKey (p : Scanner) : Option Scanner :=
  if p.simpleKey.possible && p.simpleKey.required then none
  else some {p with simpleKey:={p.simpleKey with possible:=false}}

def yamlParserSaveSimpleKey (p : Scanner) : Option Scanner :=
  if p.simpleKeyAllowed then do
    let key : SimpleKey := ⟨true,p.indent = p.mark.column,p.tokens.length,p.mark⟩
    let p ← yamlParserRemoveSimpleKey p
    some {p with simpleKey:=key}
  else some p

def yamlParserRollIndent (p : Scanner) (column number : Nat) (token : Token) : Scanner :=
  if p.indent < column then {p with indents:=p.indent::p.indents,indent:=column,tokens:=p.tokens.insertIdx number token}
  else p

def unrollFrom (column : Int) : List Int → Scanner → Scanner
  | [], p => p
  | above::indents, p =>
    if p.indent > column then unrollFrom column indents {p with indent:=above,indents:=indents,tokens:=p.tokens++[.blockEnd]}
    else p

def yamlParserUnrollIndent (p : Scanner) (column : Int) : Scanner := unrollFrom column p.indents p

def yamlParserFetchStreamStart (text : List Char) : Scanner :=
  {rest:=text,mark:=⟨0,0,0⟩,streamEndProduced:=false,indent:=-1,indents:=[],simpleKeyAllowed:=true,
   simpleKey:=⟨false,false,0,⟨0,0,0⟩⟩,tokens:=[.streamStart]}

def yamlParserFetchStreamEnd (p : Scanner) : Option Scanner := do
  let mark : Mark := if p.mark.column ≠ 0 then ⟨p.mark.index,p.mark.line+1,0⟩ else p.mark
  let p := yamlParserUnrollIndent {p with mark:=mark} (-1)
  let p ← yamlParserRemoveSimpleKey p
  some {p with simpleKeyAllowed:=false,streamEndProduced:=true,tokens:=p.tokens++[.streamEnd]}

def yamlParserFetchKey (p : Scanner) : Option Scanner :=
  if p.simpleKeyAllowed then do
    let p := yamlParserRollIndent p p.mark.column p.tokens.length .blockMappingStart
    let p ← yamlParserRemoveSimpleKey p
    let p := ({p with simpleKeyAllowed:=true} : Scanner).skip 1
    some {p with tokens:=p.tokens++[.key]}
  else none

def yamlParserFetchValue (p : Scanner) : Option Scanner := do
  let key := p.simpleKey
  let p ←
    if key.possible then
      let p := {p with tokens:=p.tokens.insertIdx key.tokenNumber .key}
      let p := yamlParserRollIndent p key.mark.column key.tokenNumber .blockMappingStart
      some {p with simpleKey:={key with possible:=false},simpleKeyAllowed:=false}
    else if p.simpleKeyAllowed then
      some {yamlParserRollIndent p p.mark.column p.tokens.length .blockMappingStart with simpleKeyAllowed:=true}
    else none
  let p := p.skip 1
  some {p with tokens:=p.tokens++[.value]}

-- What a scalar has read of blanks and line breaks.
structure Blanks where
  leadingBlanks : Bool := false
  whitespaces : List Char := []
  leadingBreak : List Char := []
  trailingBreaks : List Char := []

def Blanks.line (b : Blanks) (read : List Char) : Blanks :=
  if b.leadingBlanks then {b with trailingBreaks:=b.trailingBreaks++read}
  else {b with whitespaces:=[],leadingBreak:=b.leadingBreak++read,leadingBlanks:=true}

-- A line break becomes a blank, and further ones stay.
def Blanks.join (b : Blanks) : List Char :=
  if b.leadingBlanks then
    if b.leadingBreak.head? = some '\n' then
      if b.trailingBreaks = [] then [' '] else b.trailingBreaks
    else b.leadingBreak++b.trailingBreaks
  else b.whitespaces

def readBreak (c : Char) : List Char := if c.toNat = 0x2028 ∨ c.toNat = 0x2029 then [c] else ['\n']

-- A tab must not stand in for indentation. CR in front of LF is one break with it.
def eatBlanks (indent : Int) : List Char → Mark → Blanks → Option (List Char×Mark×Blanks)
  | [], m, b => some ([],m,b)
  | c::rest, m, b =>
    if isBlank c then
      if b.leadingBlanks && m.column < indent && c.toNat = 9 then none
      else eatBlanks indent rest ⟨m.index+1,m.line,m.column+1⟩ (if b.leadingBlanks then b else {b with whitespaces:=b.whitespaces++[c]})
    else if c.toNat = 13 ∧ rest.head? = some '\n' then eatBlanks indent rest ⟨m.index+1,m.line,m.column⟩ b
    else if isBreak c then eatBlanks indent rest ⟨m.index+1,m.line+1,0⟩ (b.line (readBreak c))
    else some (c::rest,m,b)

def documentIndicator (p : Scanner) : Bool :=
  p.mark.column = 0 && (p.rest.take 3 = ['-','-','-'] || p.rest.take 3 = ['.','.','.']) && blankz (p.rest.drop 3)

-- Up to a blank, the end or the closing quote; a doubled quote is one.
def quotedRun : List Char → List Char×List Char
  | [] => ([],[])
  | [c] => if isBlank c || isBreak c || c = quote then ([],[c]) else ([c],[])
  | c::d::rest =>
    if isBlank c || isBreak c then ([],c::d::rest)
    else if c = quote then
      if d = quote then
        let r := quotedRun rest
        (quote::r.1,r.2)
      else ([],c::d::rest)
    else
      let r := quotedRun (d::rest)
      (c::r.1,r.2)

def Scanner.advance (p : Scanner) (rest : List Char) : Scanner := p.skip (p.rest.length-rest.length)

def scanQuoted : Nat → List Char → Scanner → Option (List Char×Scanner)
  | 0, _, _ => none
  | fuel+1, string, p =>
    if documentIndicator p ∨ p.rest = [] then none
    else
      let run := quotedRun p.rest
      let p := p.advance run.2
      if p.rest.head? = some quote then some (string++run.1,p.skip 1)
      else do
        let (rest,mark,blanks) ← eatBlanks 0 p.rest p.mark {}
        scanQuoted fuel (string++run.1++blanks.join) {p with rest:=rest,mark:=mark}

def yamlParserScanFlowScalar (p : Scanner) : Option (List Char×Scanner) :=
  let p := p.skip 1
  scanQuoted (p.rest.length+1) [] p

def plainRun : List Char → List Char×List Char
  | [] => ([],[])
  | c::rest =>
    if isBlank c || isBreak c || (c = ':' && blankz rest) then ([],c::rest)
    else
      let r := plainRun rest
      (c::r.1,r.2)

-- Blanks behind the scalar are eaten too.
def scanPlain (indent : Int) : Nat → List Char → Blanks → Scanner → Option (List Char×Scanner)
  | 0, _, _, _ => none
  | fuel+1, string, blanks, p =>
    let ended string (blanks : Blanks) (p : Scanner) : List Char×Scanner :=
      (string,{p with simpleKeyAllowed:=p.simpleKeyAllowed || blanks.leadingBlanks})
    if documentIndicator p ∨ p.rest.head? = some '#' then some (ended string blanks p)
    else
      let run := plainRun p.rest
      let p := p.advance run.2
      let (string,blanks) : List Char×Blanks := if run.1 = [] then (string,blanks) else (string++blanks.join++run.1,{})
      if !p.rest.head?.any fun c => isBlank c || isBreak c then some (ended string blanks p)
      else do
        let (rest,mark,blanks) ← eatBlanks indent p.rest p.mark blanks
        let p := {p with rest:=rest,mark:=mark}
        if mark.column < indent then some (ended string blanks p)
        else scanPlain indent fuel string blanks p

def yamlParserScanPlainScalar (p : Scanner) : Option (List Char×Scanner) :=
  scanPlain (p.indent+1) (p.rest.length+1) [] {} p

def fetchScalar (scan : Scanner → Option (List Char×Scanner)) (p : Scanner) : Option Scanner := do
  let p ← yamlParserSaveSimpleKey p
  let (string,p) ← scan {p with simpleKeyAllowed:=false}
  some {p with tokens:=p.tokens++[.scalar string]}

def yamlParserFetchFlowScalar (p : Scanner) : Option Scanner := fetchScalar yamlParserScanFlowScalar p

def yamlParserFetchPlainScalar (p : Scanner) : Option Scanner := fetchScalar yamlParserScanPlainScalar p

def indicators : List Char := ['-','?',':',',','[',']','{','}','#','&','*','!','|','>',quote,Char.ofNat 34,'%','@',Char.ofNat 96]

def plainStart (c : Char) (rest : List Char) : Bool :=
  !(isBlank c || isBreak c || c ∈ indicators) || (c = '-' && !rest.head?.any isBlank) || ((c = '?' || c = ':') && !blankz rest)

def fetchToken (p : Scanner) : Option Scanner :=
  match p.rest with
  | [] => yamlParserFetchStreamEnd p
  | c::rest =>
    if documentIndicator p ∨ (c = '-' ∧ blankz rest) then none
    else if c = '?' ∧ blankz rest then yamlParserFetchKey p
    else if c = ':' ∧ blankz rest then yamlParserFetchValue p
    else if c = quote then yamlParserFetchFlowScalar p
    else if plainStart c rest then yamlParserFetchPlainScalar p
    else none

def yamlParserFetchNextToken (p : Scanner) : Option Scanner := do
  let p ← yamlParserScanToNextToken (p.rest.length+1) p
  let p ← yamlParserStaleSimpleKeys p
  fetchToken (yamlParserUnrollIndent p p.mark.column)

def yamlParserFetchMoreTokens : Nat → Scanner → Option (List Token)
  | 0, _ => none
  | fuel+1, p => do
    let p ← yamlParserFetchNextToken p
    if p.streamEndProduced then some p.tokens else yamlParserFetchMoreTokens fuel p

def yamlParserScan (text : List Char) : Option (List Token) :=
  yamlParserFetchMoreTokens (text.length+2) (yamlParserFetchStreamStart text)

end Psocks.Yaml
