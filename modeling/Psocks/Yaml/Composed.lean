import Psocks.Yaml.Sections

namespace Psocks.Yaml
open Psocks.Config
variable {nodes front later : List Node} {pairs : List (Int×Int)} {states : List ParserState} {tokens rest : List Token} {ctx : List Nat}
variable {e : Entry} {entries : List Entry} {s : Section} {sections : List Section} {fuel : Nat} {q : Parser}

def scalarNode (word : List Char) : Node := .scalar (cut (utf8 word))

def entryNodes (e : Entry) : List Node := [scalarNode e.1,scalarNode e.2.value]

-- Nodes are numbered in the order of the text; a pair has the numbers of its key and its value.
def entryPairs : Nat → List Entry → List (Int×Int)
  | _, [] => []
  | i, _::entries => ((i : Int),((i+1 : Nat) : Int))::entryPairs (i+2) entries

def sectionNodes (i : Nat) (s : Section) : List Node :=
  [scalarNode s.name,.mapping (entryPairs (i+2) s.entries)]++s.entries.flatMap entryNodes

def sectionsNodes : Nat → List Section → List Node
  | _, [] => []
  | i, s::sections => sectionNodes i s++sectionsNodes (i+2+2*s.entries.length) sections

def sectionPairs : Nat → List Section → List (Int×Int)
  | _, [] => []
  | i, s::sections => ((i : Int),((i+1 : Nat) : Int))::sectionPairs (i+2+2*s.entries.length) sections

def document (sections : List Section) : Document := ⟨.mapping (sectionPairs 2 sections)::sectionsNodes 2 sections⟩

-- No key waits for its value.
def Whole (pairs : List (Int×Int)) : Prop := ∀ pair ∈ pairs.getLast?, pair.2 ≠ 0

theorem addPair_key (whole : Whole pairs) (index : Int) : addPair pairs index = pairs++[(index,0)] := by
  rw [addPair]
  cases last : pairs.getLast? with
  | none => rfl
  | some pair =>
    obtain ⟨key,value⟩ := pair
    have filled : value ≠ 0 := whole _ last
    split
    · rename_i same
      cases same
      exact (filled rfl).elim
    · rfl

theorem addPair_value (key value : Int) (filled : key ≠ 0) : addPair (pairs++[(key,0)]) value = pairs++[(key,value)] := by
  simp [addPair,filled]

theorem whole_added (key value : Int) (filled : value ≠ 0) : Whole (pairs++[(key,value)]) := by
  simp [Whole,filled]

-- A node joins the mapping that is being loaded.
theorem node_added (node : Node) (index : Nat) : yamlParserLoadNodeAdd ((front++.mapping pairs::later)++[node]) ((front.length+1)::ctx) index =
    some (front++.mapping (addPair pairs index)::(later++[node])) := by
  simp [yamlParserLoadNodeAdd]

theorem scalar_loaded (front later : List Node) (pairs : List (Int×Int)) (ctx : List Nat) (fuel : Nat) {p : Parser}
    {word : List Char} (event : yamlParserStateMachine p = some (.scalar word,q)) :
    yamlParserLoadNodes (fuel+1) p (front++.mapping pairs::later) ((front.length+1)::ctx) =
      yamlParserLoadNodes fuel q
        (front++.mapping (addPair pairs ((front.length+later.length+2 : Nat) : Int))::(later++[scalarNode word])) ((front.length+1)::ctx) := by
  have size : (front++Node.mapping pairs::later).length+1 = front.length+later.length+2 := by
    simp
    omega
  rw [yamlParserLoadNodes,event]
  simp only [Option.bind_eq_bind,Option.bind_some,size]
  rw [node_added]
  rfl

theorem key_event (states : List ParserState) (rest : List Token) (word : List Char) :
    yamlParserStateMachine ⟨.blockMappingKey,states,.key::.scalar word::rest⟩ =
    some (.scalar word,⟨.blockMappingValue,states,rest⟩) := by
  simp [yamlParserStateMachine,yamlParserParseBlockMappingKey,parsePart,nodeMissing,yamlParserParseNode,Parser.pop]

theorem value_event (word : List Char) : yamlParserStateMachine ⟨.blockMappingValue,states,.value::.scalar word::rest⟩ =
    some (.scalar word,⟨.blockMappingKey,states,rest⟩) := by
  simp [yamlParserStateMachine,yamlParserParseBlockMappingValue,parsePart,nodeMissing,yamlParserParseNode,Parser.pop]

theorem start_event : yamlParserStateMachine ⟨.blockMappingValue,states,.value::.blockMappingStart::rest⟩ =
    some (.mappingStart,⟨.blockMappingFirstKey,.blockMappingKey::states,.blockMappingStart::rest⟩) := by
  simp [yamlParserStateMachine,yamlParserParseBlockMappingValue,parsePart,nodeMissing,yamlParserParseNode]

theorem end_event {state : ParserState} : yamlParserStateMachine ⟨.blockMappingKey,state::states,.blockEnd::rest⟩ =
    some (.mappingEnd,⟨state,states,rest⟩) := by
  simp [yamlParserStateMachine,yamlParserParseBlockMappingKey,Parser.pop]

theorem entry_loaded {n : Nat} (whole : Whole pairs) (size : front.length+later.length+2 = n) :
    yamlParserLoadNodes (fuel+2) ⟨.blockMappingKey,states,entryTokens e++rest⟩ (front++.mapping pairs::later) ((front.length+1)::ctx) =
      yamlParserLoadNodes fuel ⟨.blockMappingKey,states,rest⟩
        (front++.mapping (pairs++[((n : Int),((n+1 : Nat) : Int))])::(later++entryNodes e)) ((front.length+1)::ctx) := by
  have next : front.length+(later++[scalarNode e.1]).length+2 = n+1 := by
    simp
    omega
  have first := scalar_loaded front later pairs ctx (fuel+1) (key_event states (.value::.scalar e.2.value::rest) e.1)
  rw [addPair_key whole,size] at first
  refine first.trans ?_
  rw [scalar_loaded _ _ _ _ _ (value_event e.2.value),next,addPair_value _ _ (by omega)]
  simp [entryNodes]

theorem entries_loaded (entries : List Entry) (front later : List Node) (pairs : List (Int×Int)) (states : List ParserState) (rest : List Token)
    (ctx : List Nat) (fuel : Nat) {n : Nat} (whole : Whole pairs) (size : front.length+later.length+2 = n) :
    yamlParserLoadNodes (fuel+2*entries.length) ⟨.blockMappingKey,states,entries.flatMap entryTokens++rest⟩
        (front++.mapping pairs::later) ((front.length+1)::ctx) =
      yamlParserLoadNodes fuel ⟨.blockMappingKey,states,rest⟩
        (front++.mapping (pairs++entryPairs n entries)::(later++entries.flatMap entryNodes)) ((front.length+1)::ctx) := by
  induction entries generalizing pairs later n with
  | nil => simp [entryPairs]
  | cons e entries ih =>
    have fuels : fuel+2*(e::entries).length = fuel+2*entries.length+2 := by
      rw [List.length_cons]
      omega
    have next : front.length+(later++entryNodes e).length+2 = n+2 := by
      simp [entryNodes]
      omega
    rw [fuels,List.flatMap_cons,List.append_assoc,entry_loaded whole size,ih _ _ (whole_added _ _ (by omega)) next]
    simp [entryPairs]

theorem first_key (nodes : List Node) (ctx : List Nat) :
    yamlParserLoadNodes (fuel+1) ⟨.blockMappingFirstKey,states,.blockMappingStart::rest⟩ nodes ctx =
      yamlParserLoadNodes (fuel+1) ⟨.blockMappingKey,states,rest⟩ nodes ctx := by
  rw [yamlParserLoadNodes,yamlParserLoadNodes]
  rfl

theorem section_loaded {n : Nat} (whole : Whole pairs) (size : front.length+later.length+2 = n) :
    yamlParserLoadNodes (fuel+1+2*s.entries.length+2) ⟨.blockMappingKey,states,sectionTokens s++rest⟩
        (front++.mapping pairs::later) ((front.length+1)::ctx) =
      yamlParserLoadNodes fuel ⟨.blockMappingKey,states,rest⟩
        (front++.mapping (pairs++[((n : Int),((n+1 : Nat) : Int))])::(later++sectionNodes n s)) ((front.length+1)::ctx) := by
  have shape : sectionTokens s++rest =
      .key::.scalar s.name::.value::.blockMappingStart::(s.entries.flatMap entryTokens++.blockEnd::rest) := by simp [sectionTokens]
  have named := scalar_loaded front later pairs ctx (fuel+1+2*s.entries.length+1)
    (key_event states (.value::.blockMappingStart::(s.entries.flatMap entryTokens++.blockEnd::rest)) s.name)
  rw [addPair_key whole,size] at named
  rw [shape]
  refine named.trans ?_
  let pairs' := pairs++[((n : Int),((n+1 : Nat) : Int))]
  let front' := front++.mapping pairs'::(later++[scalarNode s.name])
  have inner : front'.length = n := by
    simp only [front',List.length_append,List.length_cons,List.length_nil]
    omega
  have opened : yamlParserLoadNodes (fuel+1+2*s.entries.length+1)
      ⟨.blockMappingValue,states,.value::.blockMappingStart::(s.entries.flatMap entryTokens++.blockEnd::rest)⟩
      (front++.mapping (pairs++[((n : Int),0)])::(later++[scalarNode s.name])) ((front.length+1)::ctx) =
      yamlParserLoadNodes (fuel+1+2*s.entries.length) ⟨.blockMappingFirstKey,.blockMappingKey::states,
        .blockMappingStart::(s.entries.flatMap entryTokens++.blockEnd::rest)⟩ (front'++[.mapping []]) ((front'.length+1)::(front.length+1)::ctx) := by
    have total : (front++Node.mapping (pairs++[((n : Int),0)])::(later++[scalarNode s.name])).length = n := by
      simp only [List.length_append,List.length_cons,List.length_nil]
      omega
    rw [yamlParserLoadNodes,start_event]
    simp only [Option.bind_eq_bind,Option.bind_some,total]
    rw [node_added,addPair_value _ _ (by omega),inner]
    simp [front',pairs']
  have loaded := entries_loaded s.entries front' [] [] (.blockMappingKey::states) (.blockEnd::rest) ((front.length+1)::ctx) (fuel+1)
    (n := n+2) (by simp [Whole]) (by simp [inner])
  have closed : yamlParserLoadNodes (fuel+1) ⟨.blockMappingKey,.blockMappingKey::states,.blockEnd::rest⟩
      (front'++.mapping ([]++entryPairs (n+2) s.entries)::([]++s.entries.flatMap entryNodes)) ((front'.length+1)::(front.length+1)::ctx) =
      yamlParserLoadNodes fuel ⟨.blockMappingKey,states,rest⟩
        (front'++.mapping (entryPairs (n+2) s.entries)::s.entries.flatMap entryNodes) ((front.length+1)::ctx) := by
    rw [yamlParserLoadNodes,end_event]
    rfl
  rw [opened,show fuel+1+2*s.entries.length = fuel+2*s.entries.length+1 by omega,first_key,
    show fuel+2*s.entries.length+1 = fuel+1+2*s.entries.length by omega,loaded,closed]
  simp [front',pairs',sectionNodes]

-- The events of sections.
def work : List Section → Nat
  | [] => 0
  | s::sections => 2*s.entries.length+3+work sections

theorem work_bound (sections : List Section) : work sections ≤ (sections.flatMap sectionTokens).length := by
  have entries : ∀ entries : List Entry, 2*entries.length ≤ (entries.flatMap entryTokens).length := by
    intro entries
    induction entries with
    | nil => exact Nat.le_refl 0
    | cons e entries ih =>
      rw [List.flatMap_cons,List.length_append,List.length_cons]
      simp only [entryTokens,List.length_cons,List.length_nil]
      omega
  induction sections with
  | nil => exact Nat.le_refl 0
  | cons s sections ih =>
    have inner := entries s.entries
    rw [work,List.flatMap_cons,List.length_append]
    simp only [sectionTokens,List.length_append,List.length_cons,List.length_nil]
    omega

theorem sections_loaded (sections : List Section) (front later : List Node) (pairs : List (Int×Int)) (states : List ParserState) (rest : List Token)
    (ctx : List Nat) (fuel : Nat) {n : Nat} (whole : Whole pairs) (size : front.length+later.length+2 = n) :
    yamlParserLoadNodes (fuel+work sections) ⟨.blockMappingKey,states,sections.flatMap sectionTokens++rest⟩
        (front++.mapping pairs::later) ((front.length+1)::ctx) =
      yamlParserLoadNodes fuel ⟨.blockMappingKey,states,rest⟩
        (front++.mapping (pairs++sectionPairs n sections)::(later++sectionsNodes n sections)) ((front.length+1)::ctx) := by
  induction sections generalizing pairs later n with
  | nil => simp [work,sectionPairs,sectionsNodes]
  | cons s sections ih =>
    have fuels : fuel+work (s::sections) = fuel+work sections+1+2*s.entries.length+2 := by
      rw [work]
      omega
    have inner : (sectionNodes n s).length = 2+2*s.entries.length := by
      rw [sectionNodes,List.length_append,List.length_flatMap]
      simp [entryNodes]
      omega
    have next : front.length+(later++sectionNodes n s).length+2 = n+2+2*s.entries.length := by
      rw [List.length_append,inner]
      omega
    rw [fuels,List.flatMap_cons,List.append_assoc,section_loaded whole size,ih _ _ (whole_added _ _ (by omega)) next]
    simp [sectionPairs,sectionsNodes]

theorem load_tokens (sections : List Section) : yamlParserLoadTokens (documentTokens sections) = some (document sections) := by
  let body := sections.flatMap sectionTokens++[Token.blockEnd,.streamEnd]
  have shape : documentTokens sections = .streamStart::.blockMappingStart::body := by simp [documentTokens,body]
  have bound := work_bound sections
  obtain ⟨k,fuel⟩ : ∃ k, 2*(Token.blockMappingStart::body).length+2 = k+2+work sections+1 := by
    refine ⟨2*(Token.blockMappingStart::body).length+2-work sections-3,?_⟩
    simp only [body,List.length_cons,List.length_append]
    omega
  have opened : yamlParserLoadNodes (k+2+work sections+1) ⟨.blockNode,[.documentEnd],.blockMappingStart::body⟩ [] [] =
      yamlParserLoadNodes (k+2+work sections) ⟨.blockMappingFirstKey,[.documentEnd],.blockMappingStart::body⟩ [.mapping []] [1] := rfl
  have loaded := sections_loaded sections [] [] [] [.documentEnd] [.blockEnd,.streamEnd] [] (k+2) (n := 2) (by simp [Whole]) rfl
  have ended : yamlParserLoadNodes (k+2) ⟨.blockMappingKey,[.documentEnd],[.blockEnd,.streamEnd]⟩
      (.mapping (sectionPairs 2 sections)::sectionsNodes 2 sections) [1] =
      some (.mapping (sectionPairs 2 sections)::sectionsNodes 2 sections) := rfl
  rw [shape,yamlParserLoadTokens,if_neg (by simp),fuel,opened,show k+2+work sections = k+1+work sections+1 by omega,first_key,
    show k+1+work sections+1 = k+2+work sections by omega]
  exact congrArg (Option.map Document.mk) (loaded.trans ended)

theorem utf8_byte {c : Char} {b : UInt8} (member : b ∈ String.utf8EncodeChar c) : b.toNat < 0xf8 ∧ (c.toNat ≠ 0 → b ≠ 0) := by
  have valid : c.val.toNat < 0x110000 := by
    have range := c.valid
    unfold UInt32.isValidChar Nat.isValidChar at range
    omega
  have byte : ∀ n, b = UInt8.ofNat n → n < 0xf8 → (c.toNat ≠ 0 → n ≠ 0) → b.toNat < 0xf8 ∧ (c.toNat ≠ 0 → b ≠ 0) := by
    rintro n rfl small filled
    have value : (UInt8.ofNat n).toNat = n := UInt8.toNat_ofNat_of_lt' (Nat.lt_trans small (by decide))
    refine ⟨by omega,fun some_ zero => filled some_ ?_⟩
    rw [← value,zero]
    rfl
  have code : c.toNat = c.val.toNat := rfl
  unfold String.utf8EncodeChar at member
  simp only at member
  split at member
  · rw [List.mem_singleton] at member
    exact byte _ member (by omega) (by omega)
  · split at member
    · simp only [List.mem_cons,List.not_mem_nil,or_false] at member
      rcases member with same | same
      · exact byte _ same (by omega) (by omega)
      · exact byte _ same (by omega) (by omega)
    · split at member
      · simp only [List.mem_cons,List.not_mem_nil,or_false] at member
        rcases member with same | same | same
        · exact byte _ same (by omega) (by omega)
        · exact byte _ same (by omega) (by omega)
        · exact byte _ same (by omega) (by omega)
      · simp only [List.mem_cons,List.not_mem_nil,or_false] at member
        rcases member with same | same | same | same
        · exact byte _ same (by omega) (by omega)
        · exact byte _ same (by omega) (by omega)
        · exact byte _ same (by omega) (by omega)
        · exact byte _ same (by omega) (by omega)

-- A text that begins with an ASCII character has no byte order mark.
theorem buffer_utf8 {text : List Char} (clean : ∀ c ∈ text, printable c) (first : ∀ c ∈ text.head?, c.toNat < 128) :
    yamlParserUpdateBuffer (utf8 text) = some text := by
  have decoded : (utf8 text).toByteArray.utf8Decode? = some text.toArray := List.utf8Decode?_utf8Encode
  have low : ∀ b ∈ (utf8 text).head?, b.toNat < 128 := by
    cases text with
    | nil => simp [utf8]
    | cons c text =>
      have small : c.val.toNat ≤ 0x7f := Nat.le_of_lt_succ (first c rfl)
      have byte : String.utf8EncodeChar c = [UInt8.ofNat c.val.toNat] := if_pos small
      intro b head
      rw [utf8,List.flatMap_cons,byte] at head
      have same : UInt8.ofNat c.val.toNat = b := Option.some.inj head
      rw [← same,UInt8.toNat_ofNat_of_lt' (Nat.lt_of_le_of_lt small (by decide))]
      omega
  have unmarked : ∀ n (mark : UInt8) (marks : List UInt8), 128 ≤ mark.toNat → (utf8 text).take n ≠ mark::marks := by
    intro n mark marks high same
    cases bytes : utf8 text with
    | nil =>
      rw [bytes,List.take_nil] at same
      cases same
    | cons b rest =>
      rw [bytes] at same low
      have small := low b rfl
      cases n with
      | zero => cases same
      | succ n =>
        have here : b = mark := (List.cons.inj same).1
        rw [here] at small
        omega
  have all : text.all printable = true := List.all_eq_true.mpr clean
  rw [yamlParserUpdateBuffer,if_neg (not_or.mpr ⟨unmarked _ _ _ (by decide),unmarked _ _ _ (by decide)⟩)]
  have plain : (utf8 text).take 3 ≠ [0xef,0xbb,0xbf] := unmarked _ _ _ (by decide)
  simp only [if_neg plain,decoded]
  simp only [Option.map_some,Option.filter,all,if_true]

-- What was written as sections of entries is loaded as that.
theorem load_document {s : Section} {rest : List Section} (proper : ∀ s' ∈ s::rest, s'.Proper)
    (clean : ∀ c ∈ documentText (s::rest), printable c) (first : ∀ c ∈ s.name.head?, c.toNat < 128) :
    yamlParserLoad (utf8 (documentText (s::rest))) = some (document (s::rest)) := by
  have head : ∀ c ∈ (documentText (s::rest)).head?, c.toNat < 128 := by
    have filled := (proper s List.mem_cons_self).name.word.filled
    cases name : s.name with
    | nil => exact (filled name).elim
    | cons d word =>
      rintro c head
      apply first
      simpa [documentText,sectionText,name] using head
  rw [yamlParserLoad,buffer_utf8 clean head]
  simp only [Option.bind_eq_bind,Option.bind_some]
  rw [scan_document proper]
  exact load_tokens _

end Psocks.Yaml
