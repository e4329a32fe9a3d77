import Psocks.MappedDns.Capture
import Psocks.MappedDns.Layout

namespace Psocks.MappedDns
open Socks5 Utils
variable {os : Platform} {dns start next later : Dns os} {order : List Nat} {node : Nat → HevMappedDnsNode}
  {net mask : BitVec 32} {max : Int} {j : Nat} {q : Question} {qs : List Question}

def asking (qs : List Question) : List Question := qs.filter fun q => decide q.Asks

theorem write_answers_room (went : writeAnswers dns answers sb off = .ok (sb',n)) (some_ : answers ≠ []) :
    off+16 ≤ sb.length := by
  cases answers with
  | nil => exact absurd rfl some_
  | cons first rest =>
    unfold writeAnswers at went
    split at went
    · cases went
    · omega

theorem answer_record_length : (answerRecord ipo ip).length = 16 := rfl

theorem write_answers_frame (went : writeAnswers dns answers sb off = .ok (sb',n)) :
    sb'.length = sb.length ∧ sb'.take off = sb.take off := by
  induction answers generalizing sb off with
  | nil => cases went; exact ⟨rfl,rfl⟩
  | cons first rest ih =>
    have room := write_answers_room went (List.cons_ne_nil _ _)
    unfold writeAnswers at went
    rw [if_neg (by omega)] at went
    have grown : (overwrite sb off (answerRecord first.1 first.2)).length = sb.length :=
      overwrite_length (by rw [answer_record_length]; omega)
    obtain ⟨length,front⟩ := ih went
    have kept := congrArg (List.take off) front
    rw [List.take_take,List.take_take,Nat.min_eq_left (by omega)] at kept
    exact ⟨length.trans grown,by rw [kept,overwrite_take (by omega) (Nat.le_refl off)]⟩

theorem write_answers_record (went : writeAnswers dns answers sb off = .ok (sb',n))
    (at_ : answers[j]? = some (ipo,ip)) : (sb'.drop (off+16*j)).take 16 = answerRecord ipo ip := by
  induction answers generalizing sb off j with
  | nil => cases at_
  | cons first rest ih =>
    have room := write_answers_room went (List.cons_ne_nil _ _)
    unfold writeAnswers at went
    rw [if_neg (by omega)] at went
    cases j with
    | zero =>
      cases at_
      have kept := congrArg (List.drop off) (write_answers_frame went).2
      rw [List.drop_take,List.drop_take,Nat.add_sub_cancel_left] at kept
      rw [Nat.mul_zero,Nat.add_zero,kept,overwrite,List.append_assoc]
      have front : (sb.take off).length = off := by rw [List.length_take]; omega
      rw [List.drop_left' front,List.take_left' answer_record_length]
    | succ j =>
      have tail := ih went at_
      rwa [Nat.mul_succ,Nat.add_comm (16*j),← Nat.add_assoc]

-- How a response was made: the questions as the request has them, then the records.
structure Composed (dns next : Dns os) (req : List UInt8) (qlen : Nat) (res : List UInt8) (qs : List Question)
    (sb : List UInt8) (fl n : Nat) : Prop where
  room : qlen ≤ res.length
  inside : qlen ≤ req.length
  header : 12 ≤ res.length
  count : readU16 req 4 = some qs.length
  flags : readU16 (overwrite res 0 (req.take qlen)) 2 = some fl
  ran : next = (resolve dns 12 qs).1
  written : writeAnswers next (resolve dns 12 qs).2 (cleared req qlen res) (12+(qs.flatMap Question.bytes).length) = .ok (sb,n)

theorem answered_composed (answered : hevMappedDnsHandle dns req qlen res = .ok (next,out,n)) :
    ∃ (qs : List Question) (rest sb : List UInt8) (fl : Nat), req.drop 12 = qs.flatMap Question.bytes++rest ∧
      Composed dns next req qlen res qs sb fl n ∧
      out = overwrite (overwrite sb 2 (be16 (responseFlags fl))) 6 (be16 (resolve dns 12 qs).2.length) := by
  obtain ⟨s,sb,fl,qd,parsed,rfl,rfl⟩ := handle_answered answered
  obtain ⟨qs,rest,count,layout,ran,gained,stop⟩ := scan_layout parsed.inside parsed.scanned
  have written := parsed.written
  rw [gained,stop] at written
  exact ⟨qs,rest,sb,fl,layout,⟨parsed.room,parsed.inside,parsed.header,by rw [parsed.count,count],parsed.flags,ran,written⟩,
    by rw [gained]⟩

theorem composed_size (composed : Composed dns next req qlen res qs sb fl n) : sb.length = res.length :=
  (write_answers_frame composed.written).1.trans (cleared_length composed.room composed.header)

-- The answers follow the questions, sixteen bytes each.
theorem composed_record (composed : Composed dns next req qlen res qs sb fl n)
    (made : out = overwrite (overwrite sb 2 (be16 (responseFlags fl))) 6 (be16 (resolve dns 12 qs).2.length))
    (at_ : (resolve dns 12 qs).2[j]? = some (ipo,ip)) :
    (out.drop (12+(qs.flatMap Question.bytes).length+16*j)).take 16 = answerRecord ipo ip := by
  have record := write_answers_record composed.written at_
  have size := composed_size composed
  have wide := composed.header
  have marked : (overwrite sb 2 (be16 (responseFlags fl))).length = res.length := by
    rw [overwrite_length (by rw [be16_length]; omega),size]
  rw [made,overwrite_drop (by omega) (by rw [be16_length]; omega),overwrite_drop (by omega) (by rw [be16_length]; omega),
    ← record]

def Question.request (q : Question) : List UInt8 := [0,1,1,0,0,1,0,0,0,0,0,0]++q.bytes

def short : Question := ⟨[[97]],by decide,[0,1,0,1],rfl⟩

-- Four labels of 64, 63, 63 and 63 letters make a name of 256.
def long : Question :=
  ⟨[List.replicate 64 97,List.replicate 63 97,List.replicate 63 97,List.replicate 63 97],by decide,[0,1,0,1],rfl⟩

-- The first slot and the address of the first answer after `q` has been asked of
-- the empty store.
def asked (q : Question) : Option (List UInt8 × List UInt8) :=
  match hevMappedDnsHandle pair q.request q.request.length (List.replicate 512 0) with
  | .ok (next,out,_) => (next.records 0).map fun n => ((next.node n).name.bytes,(out.drop (q.request.length+12)).take 4)
  | _ => none

theorem asked_cases (went : asked q = some (text,data)) : ∃ next out n,
    hevMappedDnsHandle pair q.request q.request.length (List.replicate 512 0) = .ok (next,out,n) ∧
    (∃ name : CString, Slotted next 0 name ∧ name.bytes = text) ∧ (out.drop (q.request.length+12)).take 4 = data := by
  unfold asked at went
  split at went
  · rename_i next out n answered
    obtain ⟨slot,record,same⟩ := Option.map_eq_some_iff.mp went
    cases same
    exact ⟨next,out,n,answered,⟨_,⟨slot,record,rfl⟩,rfl⟩,rfl⟩
  · cases went

theorem short_asked : asked short = some ([97],be32 0xf0000000) := by decide +kernel

end Psocks.MappedDns
