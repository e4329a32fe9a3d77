import Psocks.MappedDns.Bounds
import Psocks.MappedDns.Fidelity

namespace Psocks.MappedDns
open SearchTree Psocks.Lists
variable {os : Platform} {dns start next : Dns os} {order : List Nat} {node : Nat → HevMappedDnsNode} {net mask : BitVec 32}
  {max : Int} {qs : List Question} {req res sb out record : List UInt8} {fl n off ipo : Nat} {ip : BitVec 32}

-- A store for no names: what is joined is evicted again at once.
structure Vacant (dns : Dns os) : Prop where
  linked : Linked dns []
  use : dns.use = 0
  small : dns.max ≤ 0
  bare : ∀ i, i ≠ 0 → dns.records i = none

theorem vacant_find (vacant : Vacant dns) (name : CString) :
    (hevMappedDnsFind dns name).1 = 0 ∧ Vacant (hevMappedDnsFind dns name).2 := by
  cases ended : descend (dns.turn name) dns.shape with
  | found n => cases (walk_found vacant.linked ended).1
  | slot path =>
    have joined := join_linked vacant.linked ended
    have first : hevListFirst (dns.joined name path).list = some (os.place dns.live) := holds_first joined.listed
    have full : ¬dns.use < dns.max := by
      have := vacant.use
      have := vacant.small
      omega
    have claimed : (dns.joined name path).claim = (0,(dns.joined name path).evict (os.place dns.live)) := by
      unfold HevMappedDns.claim
      rw [if_neg (show ¬(dns.joined name path).use < (dns.joined name path).max from full),first]
      simp [HevMappedDns.joined,HevMappedDns.join,HevMappedDns.enter,hevMappedDnsNodeAlloc]
    have went : hevMappedDnsFind dns name = (0,((dns.joined name path).evict (os.place dns.live)).record 0 (os.place dns.live)) := by
      rw [find_slot ended,claimed]
    rw [went]
    refine ⟨rfl,record_linked (evict_linked joined),vacant.use,vacant.small,fun i other => ?_⟩
    simp only [HevMappedDns.record,Function.update_of_ne other]
    exact vacant.bare i other

theorem vacant_lookup (vacant : Vacant dns) (ip : BitVec 32) : (hevMappedDnsLookup dns ip).2 = dns := by
  unfold hevMappedDnsLookup
  dsimp only
  split
  · rfl
  · rename_i low
    have small := vacant.small
    rw [vacant.bare _ (by omega)]

-- Whatever size it was made for, a store never gives a negative slot.
def Kept (dns : Dns os) : Prop := 0 < dns.max ∧ (∃ order, Valid dns order) ∨ Vacant dns

theorem kept_find (kept : Kept dns) (name : CString) : 0 ≤ (hevMappedDnsFind dns name).1 ∧ Kept (hevMappedDnsFind dns name).2 := by
  rcases kept with ⟨room,order,valid⟩ | vacant
  · have settled : Settled dns (hevMappedDnsFind dns name).2 := find_settled name
    exact ⟨(find_finds valid room name).range.1,.inl ⟨settled.max ▸ room,find_valid valid room name⟩⟩
  · obtain ⟨first,still⟩ := vacant_find vacant name
    exact ⟨by rw [first],.inr still⟩

theorem kept_call (kept : Kept dns) (c : Call) : Kept (call dns c) := by
  cases c with
  | find name => exact (kept_find kept name).2
  | lookup ip =>
    rcases kept with ⟨room,order,valid⟩ | vacant
    · have settled : Settled dns (hevMappedDnsLookup dns ip).2 := lookup_settled ip
      exact .inl ⟨settled.max ▸ room,lookup_valid valid ip⟩
    · rw [call,vacant_lookup vacant]
      exact .inr vacant

theorem kept_run (kept : Kept dns) (calls : List Call) : Kept (run dns calls) := by
  induction calls generalizing dns with
  | nil => exact kept
  | cons c rest ih => exact ih (kept_call kept c)

theorem kept_new (made : hevMappedDnsNew os node net mask max = some start) : Kept start := by
  by_cases room : 0 < max
  · exact .inl ⟨new_max made ▸ room,[],new_valid made room⟩
  · obtain ⟨use,bare⟩ := new_bare made
    exact .inr ⟨new_linked made,use,new_max made ▸ Int.not_lt.mp room,fun i _ => bare i⟩

theorem kept_history {events : List Event} (made : hevMappedDnsNew os node net mask max = some start)
    (went : history start events = some dns) : Kept dns := by
  obtain ⟨calls,rfl⟩ := history_calls went
  exact kept_run (kept_new made) calls

-- The questions that are answered, each with the offset its name starts at.
def inquiries (off : Nat) : List Question → List (Nat × Question)
  | [] => []
  | q::rest => if q.Asks then (off,q)::inquiries (off+q.bytes.length) rest else inquiries (off+q.bytes.length) rest

-- The slots the store gives to some names, one after another.
def given (dns : Dns os) : List CString → List Int
  | [] => []
  | name::rest =>
    let (idx,dns) := hevMappedDnsFind dns name
    idx::given dns rest

def slotsFor (dns : Dns os) (qs : List Question) : List Int := given dns ((inquiries 12 qs).map fun p => p.2.name)

theorem given_length (names : List CString) : (given dns names).length = names.length := by
  induction names generalizing dns with
  | nil => rfl
  | cons name rest ih => exact congrArg Nat.succ ih

theorem resolve_given (kept : Kept dns) : (resolve dns off qs).2 =
    List.zipWith (fun p idx => (p.1,dns.net ||| BitVec.ofInt 32 idx)) (inquiries off qs)
      (given dns ((inquiries off qs).map fun p => p.2.name)) := by
  induction qs generalizing dns off with
  | nil => rfl
  | cons q rest ih =>
    by_cases asks : q.Asks
    · obtain ⟨low,still⟩ := kept_find kept q.name
      have settled : Settled dns (hevMappedDnsFind dns q.name).2 := find_settled q.name
      simp only [resolve,Question.resolve,inquiries,asks,if_true,low,List.map_cons,given,List.zipWith_cons_cons]
      rw [ih still,settled.net]
      rfl
    · simp only [resolve,Question.resolve,inquiries,asks,if_false]
      exact ih kept

-- What a compression pointer points at.
def pointer : List UInt8 → Option Nat
  | high::low::_ => if 192 ≤ high.toNat then some ((high.toNat-192)*256+low.toNat) else none
  | _ => none

-- A record that answers the question at `off` with the address `ip`.
structure AnswerTo (off : Nat) (ip : BitVec 32) (record : List UInt8) : Prop where
  name : pointer record = some off
  type : readU16 record 2 = some 1
  cls : readU16 record 4 = some 1
  ttl : (record.drop 6).take 4 = [0,0,0,1]
  length : readU16 record 10 = some 4
  address : record.drop 12 = be32 ip.toNat

-- A response of `n` bytes to the questions of a request: bit 15 of the flags says that
-- it is one, bits 8 and 7 that recursion is desired and available.
structure WellFormed (dns : Dns os) (req : List UInt8) (slen : Nat) (qs : List Question) (out : List UInt8) (n : Nat) :
    Prop where
  room : n ≤ slen
  size : n = 12+(qs.flatMap Question.bytes).length+16*(inquiries 12 qs).length
  id : out.take 2 = req.take 2
  flags : ∃ asked answered, readU16 req 2 = some asked ∧ readU16 out 2 = some answered ∧
    ∀ i < 16, answered.testBit i = if i = 15 then true else if i = 7 then asked.testBit 7 || asked.testBit 8 else asked.testBit i
  questions : (out.drop 4).take 2 = (req.drop 4).take 2
  answers : readU16 out 6 = some (inquiries 12 qs).length
  others : (out.drop 8).take 4 = [0,0,0,0]
  section_ : (out.drop 12).take (qs.flatMap Question.bytes).length = (req.drop 12).take (qs.flatMap Question.bytes).length
  records : ∀ j off q idx, (inquiries 12 qs)[j]? = some (off,q) → (slotsFor dns qs)[j]? = some idx →
    AnswerTo off (dns.net ||| BitVec.ofInt 32 idx) ((out.drop (12+(qs.flatMap Question.bytes).length+16*j)).take 16)

-- The source packs the low byte of the offset only.
theorem record_answers : AnswerTo off ip (answerRecord ipo ip) ↔ ipo % 256 = off := by
  have decoded : pointer (answerRecord ipo ip) = some (ipo % 256) := by
    simp [pointer,answerRecord,UInt8.toNat_ofNat']
  constructor
  · intro answer
    exact Option.some.inj (decoded.symm.trans answer.name)
  · rintro rfl
    exact ⟨decoded,rfl,rfl,rfl,rfl,rfl⟩

theorem header_split (long : 12 ≤ req.length) : ∃ i j f g a b counts, req = i::j::f::g::a::b::counts++req.drop 12 ∧ counts.length = 6 := by
  match req,long with
  | i::j::f::g::a::b::k::l::m::n::o::p::body,_ => exact ⟨i,j,f,g,a,b,[k,l,m,n,o,p],rfl,rfl⟩

-- Up to the answers a response is its request without the other counts.
theorem composed_front {i j f g a b : UInt8} {counts body rest : List UInt8} (six : counts.length = 6)
    (composed : Composed dns next (i::j::f::g::a::b::counts++body) (i::j::f::g::a::b::counts++body).length res qs sb fl n)
    (layout : body = qs.flatMap Question.bytes++rest) :
    fl = f.toNat*256+g.toNat ∧ ∃ tail, sb = i::j::f::g::a::b::0::0::0::0::0::0::(qs.flatMap Question.bytes++tail) := by
  obtain ⟨k,l,m,o,p,r,rfl⟩ : ∃ k l m o p r, counts = [k,l,m,o,p,r] := by
    match counts,six with
    | [k,l,m,o,p,r],_ => exact ⟨k,l,m,o,p,r,rfl⟩
  have copied : overwrite res 0 ((i::j::f::g::a::b::[k,l,m,o,p,r]++body).take (i::j::f::g::a::b::[k,l,m,o,p,r]++body).length) =
      i::j::f::g::a::b::k::l::m::o::p::r::(body++res.drop (i::j::f::g::a::b::[k,l,m,o,p,r]++body).length) := by
    rw [List.take_length]
    simp [overwrite]
  have flags := composed.flags
  rw [copied] at flags
  refine ⟨(Option.some.inj flags).symm,?_⟩
  have front := (write_answers_frame composed.written).2
  have bare : cleared (i::j::f::g::a::b::[k,l,m,o,p,r]++body) (i::j::f::g::a::b::[k,l,m,o,p,r]++body).length res =
      i::j::f::g::a::b::0::0::0::0::0::0::(qs.flatMap Question.bytes++
        (rest++res.drop (i::j::f::g::a::b::[k,l,m,o,p,r]++body).length)) := by
    rw [cleared,copied,layout]
    simp [overwrite]
  refine ⟨sb.drop (12+(qs.flatMap Question.bytes).length),?_⟩
  conv_lhs => rw [← List.take_append_drop (12+(qs.flatMap Question.bytes).length) sb,front,bare]
  rw [Nat.add_comm]
  simp only [List.take_succ_cons,List.take_left,List.cons_append]

theorem response_flags (narrow : fl < 65536) : responseFlags fl < 65536 ∧ ∀ i < 16, (responseFlags fl).testBit i =
    if i = 15 then true else if i = 7 then fl.testBit 7 || fl.testBit 8 else fl.testBit i := by
  constructor
  · have low : fl &&& 256 ≤ 256 := Nat.and_le_right
    exact Nat.or_lt_two_pow (n := 16) (Nat.or_lt_two_pow narrow (by decide)) (by rw [Nat.shiftRight_eq_div_pow]; omega)
  · intro i small
    have sign : Nat.testBit 0x8000 i = decide (15 = i) := @Nat.testBit_two_pow 15 i
    have desired : Nat.testBit 0x100 (1+i) = decide (8 = 1+i) := @Nat.testBit_two_pow 8 (1+i)
    rw [responseFlags,Nat.testBit_or,Nat.testBit_or,Nat.testBit_shiftRight,Nat.testBit_and,sign,desired]
    by_cases top : i = 15
    · subst top
      simp
    · by_cases available : i = 7
      · subst available
        simp
      · have other : ¬8 = 1+i := by omega
        simp [top,available,other,Ne.symm top]

theorem inquiries_few : (inquiries off qs).length ≤ qs.length := by
  induction qs generalizing off with
  | nil => exact Nat.le_refl _
  | cons q rest ih =>
    unfold inquiries
    split
    · exact Nat.succ_le_succ ih
    · exact Nat.le_succ_of_le ih

theorem response_exact {events : List Event} (made : hevMappedDnsNew os node net mask max = some start)
    (went : history start events = some dns) (long : 12 ≤ req.length)
    (answered : hevMappedDnsHandle dns req req.length res = .ok (next,out,n)) :
    ∃ (qs : List Question) (rest : List UInt8), req.drop 12 = qs.flatMap Question.bytes++rest ∧
      readU16 req 4 = some qs.length ∧ (WellFormed dns req res.length qs out n ↔ ∀ p ∈ inquiries 12 qs, p.1 < 256) := by
  have kept := kept_history made went
  obtain ⟨qs,rest,sb,fl,layout,composed,written⟩ := answered_composed answered
  have count : (resolve dns 12 qs).2.length = (inquiries 12 qs).length := by
    rw [resolve_given kept,List.length_zipWith,given_length,List.length_map,Nat.min_self]
  have record : ∀ j off q idx, (inquiries 12 qs)[j]? = some (off,q) → (slotsFor dns qs)[j]? = some idx →
      (out.drop (12+(qs.flatMap Question.bytes).length+16*j)).take 16 = answerRecord off (dns.net ||| BitVec.ofInt 32 idx) := by
    intro j off q idx at_ slot
    refine composed_record composed written ?_
    rw [resolve_given kept,List.getElem?_zipWith_eq_some]
    exact ⟨(off,q),idx,at_,slot,rfl⟩
  refine ⟨qs,rest,layout,composed.count,?_⟩
  constructor
  · intro formed p member
    obtain ⟨j,inside,here⟩ := List.getElem_of_mem member
    have slotted : j < (slotsFor dns qs).length := by rwa [slotsFor,given_length,List.length_map]
    have at_ : (inquiries 12 qs)[j]? = some (p.1,p.2) := by rw [List.getElem?_eq_getElem inside,here]
    have slot := List.getElem?_eq_getElem slotted
    have answer := formed.records j p.1 p.2 _ at_ slot
    rw [record j p.1 p.2 _ at_ slot,record_answers] at answer
    omega
  · intro near
    obtain ⟨i,j,f,g,a,b,counts,shape,six⟩ := header_split long
    generalize req.drop 12 = body at shape layout
    subst shape
    obtain ⟨rfl,tail,rfl⟩ := composed_front six composed layout
    have narrow : f.toNat*256+g.toNat < 65536 := by
      have := f.toNat_lt
      have := g.toNat_lt
      omega
    have few : (resolve dns 12 qs).2.length < 65536 := by
      have announced := Option.some.inj composed.count
      have := a.toNat_lt
      have := b.toNat_lt
      have := @inquiries_few qs 12
      omega
    obtain ⟨wide,bits⟩ := response_flags narrow
    have same : (cleared (i::j::f::g::a::b::counts++body) (i::j::f::g::a::b::counts++body).length res).length = res.length :=
      cleared_length composed.room composed.header
    have inside := composed.room
    have length := congrArg List.length layout
    rw [List.length_append] at length
    have whole : (i::j::f::g::a::b::counts++body).length = 12+body.length := by
      simp only [List.length_append,List.length_cons,six]
    obtain ⟨size,fits⟩ := write_answers_end (by omega) composed.written
    subst written
    refine ⟨?_,by rw [size,count],rfl,⟨_,_,rfl,congrArg some (be16_value wide),bits⟩,rfl,?_,rfl,?_,?_⟩
    · omega
    · rw [← count]
      exact congrArg some (be16_value few)
    · have behind : (i::j::f::g::a::b::counts++body).drop 12 = body := by
        rw [List.cons_append,List.cons_append,List.cons_append,List.cons_append,List.cons_append,List.cons_append]
        exact List.drop_left' six
      rw [behind,layout,List.take_left]
      exact List.take_left
    · intro j off q idx at_ slot
      rw [record j off q idx at_ slot,record_answers]
      exact Nat.mod_eq_of_lt (near _ (List.mem_of_getElem? at_))

theorem response_exact_short : ∃ next out n q rest,
    hevMappedDnsHandle pair short.request short.request.length (List.replicate 512 0) = .ok (next,out,n) ∧
    short.request.drop 12 = [q].flatMap Question.bytes++rest ∧ (out.drop (short.request.length+12)).take 4 = be32 0xf0000000 ∧
    WellFormed pair short.request 512 [q] out n := by
  obtain ⟨next,out,n,answered,_,data⟩ := asked_cases short_asked
  obtain ⟨qs,rest,layout,count,formed⟩ := response_exact pair_new (show history pair [] = some pair from rfl) (by decide) answered
  have one : qs.length = 1 := (Option.some.inj ((show readU16 short.request 4 = some 1 by decide).symm.trans count)).symm
  obtain ⟨q,rfl⟩ := List.length_eq_one_iff.mp one
  rw [List.length_replicate] at formed
  refine ⟨next,out,n,q,rest,answered,layout,data,formed.mpr fun p member => ?_⟩
  -- The only question is at 12.
  have first : p.1 = 12 := by
    unfold inquiries at member
    split at member
    · cases List.mem_singleton.mp member
      rfl
    · cases member
  omega

-- A question of another type with four labels of 63 letters, and behind it one for `a`.
def broad : Question :=
  ⟨[List.replicate 63 97,List.replicate 63 97,List.replicate 63 97,List.replicate 63 97],by decide,[0,28,0,1],rfl⟩

def distant : List Question := [broad,short]

def distantRequest : List UInt8 := [0,1,1,0,0,2,0,0,0,0,0,0]++distant.flatMap Question.bytes

def distantAnswer : Option (List UInt8) :=
  match hevMappedDnsHandle pair distantRequest distantRequest.length (List.replicate 512 0) with
  | .ok (_,out,_) => some ((out.drop 280).take 16)
  | _ => none

-- The name of the answer points at byte 17, inside the name of the other question.
theorem response_astray : ∃ next out n,
    hevMappedDnsHandle pair distantRequest distantRequest.length (List.replicate 512 0) = .ok (next,out,n) ∧
    distantRequest.drop 12 = distant.flatMap Question.bytes ∧ ¬WellFormed pair distantRequest 512 distant out n := by
  have went : distantAnswer = some (answerRecord 273 0xf0000000) := by decide +kernel
  unfold distantAnswer at went
  split at went
  · rename_i next out n answered
    refine ⟨next,out,n,answered,rfl,fun formed => ?_⟩
    have first : broad.bytes.length = 261 := by decide +kernel
    have both : (distant.flatMap Question.bytes).length = 268 := by decide +kernel
    have placed : inquiries 12 distant = [(273,short)] := by
      simp only [inquiries,distant,if_neg (show ¬broad.Asks by decide),if_pos (show short.Asks by decide),first]
    have slot : slotsFor pair distant = [(hevMappedDnsFind pair short.name).1] := by rw [slotsFor,placed]; rfl
    have answer := formed.records 0 273 short _ (by rw [placed]; rfl) (by rw [slot]; rfl)
    rw [both,show out.drop (12+268+16*0) = out.drop 280 from rfl,Option.some.inj went] at answer
    have points : pointer (answerRecord 273 0xf0000000) = some 17 := rfl
    cases points.symm.trans answer.name
  · cases went

end Psocks.MappedDns
