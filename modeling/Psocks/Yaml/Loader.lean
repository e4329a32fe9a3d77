import Psocks.Config.HevConfig
import Psocks.Yaml.Scanner

namespace Psocks.Yaml
open Psocks.Config

-- States and events that tokens of block mappings and scalars lead to.
inductive ParserState where
  | documentEnd
  | blockNode
  | blockMappingFirstKey
  | blockMappingKey
  | blockMappingValue
deriving DecidableEq, Repr

inductive Event where
  | scalar (value : List Char)
  | mappingStart
  | mappingEnd
  | documentEnd
deriving DecidableEq, Repr

structure Parser where
  state : ParserState
  states : List ParserState
  tokens : List Token

def Parser.pop (p : Parser) : Option Parser :=
  match p.states with
  | [] => none
  | state::states => some {p with state:=state,states:=states}

def yamlParserParseNode (p : Parser) : Option (Event×Parser) :=
  match p.tokens with
  | .scalar value::tokens => ({p with tokens:=tokens} : Parser).pop.map fun p => (.scalar value,p)
  | .blockMappingStart::_ => some (.mappingStart,{p with state:=.blockMappingFirstKey})
  | _ => none

-- No node stands before one of these.
def nodeMissing (tokens : List Token) : Bool := tokens.head?.any fun token => token = .key || token = .value || token = .blockEnd

-- A node behind KEY or VALUE, with the state that is next after it.
def parsePart (next : ParserState) (p : Parser) : Option (Event×Parser) :=
  if nodeMissing p.tokens then some (.scalar [],{p with state:=next})
  else yamlParserParseNode {p with states:=next::p.states}

def yamlParserParseBlockMappingKey (first : Bool) (p : Parser) : Option (Event×Parser) :=
  let p := if first then {p with tokens:=p.tokens.tail} else p
  match p.tokens with
  | .key::tokens => parsePart .blockMappingValue {p with tokens:=tokens}
  | .blockEnd::tokens => ({p with tokens:=tokens} : Parser).pop.map fun p => (.mappingEnd,p)
  | _ => none

def yamlParserParseBlockMappingValue (p : Parser) : Option (Event×Parser) :=
  match p.tokens with
  | .value::tokens => parsePart .blockMappingKey {p with tokens:=tokens}
  | _::_ => some (.scalar [],{p with state:=.blockMappingKey})
  | [] => none

def yamlParserStateMachine (p : Parser) : Option (Event×Parser) :=
  match p.state with
  | .documentEnd => if p.tokens = [] then none else some (.documentEnd,p)
  | .blockNode => yamlParserParseNode p
  | .blockMappingFirstKey => yamlParserParseBlockMappingKey true p
  | .blockMappingKey => yamlParserParseBlockMappingKey false p
  | .blockMappingValue => yamlParserParseBlockMappingValue p

def utf8 (text : List Char) : List UInt8 := text.flatMap String.utf8EncodeChar

def addPair (pairs : List (Int×Int)) (index : Int) : List (Int×Int) :=
  match pairs.getLast? with
  | some (key,0) => if key ≠ 0 then pairs.dropLast++[(key,index)] else pairs++[(index,0)]
  | _ => pairs++[(index,0)]

def yamlParserLoadNodeAdd (nodes : List Node) (ctx : List Nat) (index : Nat) : Option (List Node) :=
  match ctx with
  | [] => some nodes
  | parent::_ =>
    match nodes[parent-1]? with
    | some (.mapping pairs) => some (nodes.set (parent-1) (.mapping (addPair pairs index)))
    | _ => none

def yamlParserLoadNodes : Nat → Parser → List Node → List Nat → Option (List Node)
  | 0, _, _, _ => none
  | fuel+1, p, nodes, ctx => do
    let (event,p) ← yamlParserStateMachine p
    match event with
    | .scalar value =>
      let nodes ← yamlParserLoadNodeAdd (nodes++[.scalar (cut (utf8 value))]) ctx (nodes.length+1)
      yamlParserLoadNodes fuel p nodes ctx
    | .mappingStart =>
      let added ← yamlParserLoadNodeAdd (nodes++[.mapping []]) ctx (nodes.length+1)
      yamlParserLoadNodes fuel p added ((nodes.length+1)::ctx)
    | .mappingEnd => yamlParserLoadNodes fuel p nodes ctx.tail
    | .documentEnd => some nodes

def yamlParserLoadTokens (tokens : List Token) : Option Document :=
  match tokens with
  | .streamStart::tokens =>
    if tokens.head? = some .streamEnd then some ⟨[]⟩
    else (yamlParserLoadNodes (2*tokens.length+2) ⟨.blockNode,[.documentEnd],tokens⟩ [] []).map Document.mk
  | _ => none

def yamlParserLoad (bytes : List UInt8) : Option Document := do
  let text ← yamlParserUpdateBuffer bytes
  let tokens ← yamlParserScan text
  yamlParserLoadTokens tokens

end Psocks.Yaml
