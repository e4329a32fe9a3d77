import Psocks.MappedDns.Layout

namespace Psocks.MappedDns
variable {os : Platform} {dns next : Dns os} {req res sb out : List UInt8} {s s' : Scan os} {off n : Nat}
  {answers : List (Nat × BitVec 32)}

-- The buffers are all the memory there is, so a `fault` is an access outside them; this
-- includes a name that does not end inside the request.
structure Contained (dns : Dns os) (req res : List UInt8) : Prop where
  accesses : hevMappedDnsHandle dns req req.length res ≠ .fault
  indices : ∀ qd i s, readU16 req 4 = some qd → qd ≤ 32 → i < qd → questions req.length i ⟨dns,req,12,[]⟩ = .ok s →
    s.answers.length < 32
  result : ∀ next out n, hevMappedDnsHandle dns req req.length res = .ok (next,out,n) → 12 ≤ n ∧ n ≤ res.length

-- The header is not there, or the request ends where a question that it announces begins.
def Overruns (req res : List UInt8) : Prop :=
  req.length ≤ res.length ∧ (req.length < 6 ∨ res.length < 12 ∨ ∃ (qd : Nat) (qs : List Question), readU16 req 4 = some qd ∧
    qd ≤ 32 ∧ qs.length < qd ∧ req.drop 12 = qs.flatMap Question.bytes)

theorem questions_fault {done m : List UInt8} :
    questions (done++m).length n ⟨dns,done++m,done.length,answers⟩ = .fault ↔
      ∃ qs : List Question, qs.length < n ∧ m = qs.flatMap Question.bytes := by
  induction n generalizing dns done m answers with
  | zero => exact ⟨fun fault => (by cases fault),fun ⟨_,few,_⟩ => (by cases few)⟩
  | succ n ih =>
    have tail : ∀ (q : Question) (rest : List UInt8), m = q.bytes++rest →
        (questions (done++m).length (n+1) ⟨dns,done++m,done.length,answers⟩ = .fault ↔
          ∃ qs : List Question, qs.length < n ∧ rest = qs.flatMap Question.bytes) := by
      rintro q rest rfl
      have size : (done++(q.bytes++rest)).length = ((done++q.walked)++rest).length := by
        simp only [List.length_append,walked_length]
        omega
      rw [questions,question_parses q (by simp only [List.length_append]; omega),Outcome.bind,size]
      exact ih
    constructor
    · intro fault
      rcases question_reads (Nat.le_refl (done++m).length) with ⟨_,rfl⟩ | refused | ⟨q,rest,rfl,_⟩
      · exact ⟨[],Nat.succ_pos n,rfl⟩
      · rw [questions,refused] at fault
        cases fault
      · obtain ⟨qs,few,rfl⟩ := (tail q rest rfl).mp fault
        exact ⟨q::qs,Nat.succ_lt_succ few,rfl⟩
    · rintro ⟨qs,few,rfl⟩
      cases qs with
      | nil => simp [questions,question,labelWalk,Outcome.bind]
      | cons q qs => exact (tail q _ rfl).mpr ⟨qs,Nat.lt_of_succ_lt_succ few,rfl⟩

theorem scan_fault : questions req.length n ⟨dns,req,12,[]⟩ = .fault ↔
    ∃ qs : List Question, qs.length < n ∧ req.drop 12 = qs.flatMap Question.bytes := by
  by_cases long : 12 ≤ req.length
  · have front : (req.take 12).length = 12 := by rw [List.length_take]; omega
    have cut := @questions_fault os dns n [] (req.take 12) (req.drop 12)
    rwa [List.take_append_drop,front] at cut
  · have nothing : req.drop 12 = [] := List.drop_of_length_le (by omega)
    rw [scan_short (by omega)]
    cases n with
    | zero => exact ⟨fun fault => (by cases fault),fun ⟨_,few,_⟩ => (by cases few)⟩
    | succ n => exact iff_of_true (if_neg (Nat.succ_ne_zero n)) ⟨[],Nat.succ_pos n,nothing⟩

theorem question_gains (went : question qlen s = .ok s') : s'.answers.length ≤ s.answers.length+1 := by
  unfold question at went
  split at went
  · cases went
  · cases went
  · dsimp only at went
    split at went
    · cases went
    · obtain ⟨type,_,went⟩ := outcome_bind went
      obtain ⟨cls,_,went⟩ := outcome_bind went
      split at went
      · obtain ⟨name,_,went⟩ := outcome_bind went
        cases went
        dsimp only
        split <;> simp
      · cases went
        simp

-- Every question gains one answer at most.
theorem questions_gain (went : questions qlen n s = .ok s') : s'.answers.length ≤ s.answers.length+n := by
  induction n generalizing s with
  | zero =>
    cases went
    exact Nat.le_refl _
  | succ n ih =>
    obtain ⟨middle,first,later⟩ := outcome_bind went
    have one := question_gains first
    have rest := ih later
    omega

theorem write_answers_inside : writeAnswers dns answers sb off ≠ .fault := by
  induction answers generalizing sb off with
  | nil => exact fun same => by cases same
  | cons first rest ih =>
    unfold writeAnswers
    split
    · exact fun same => by cases same
    · exact ih

theorem write_answers_end (inside : off ≤ sb.length) (went : writeAnswers dns answers sb off = .ok (sb',n)) :
    n = off+16*answers.length ∧ n ≤ sb.length := by
  induction answers generalizing sb off with
  | nil =>
    cases went
    exact ⟨rfl,inside⟩
  | cons first rest ih =>
    unfold writeAnswers at went
    split at went
    · cases went
    · rename_i room
      have size : (overwrite sb off (answerRecord first.1 first.2)).length = sb.length :=
        overwrite_length (by simp only [answerRecord,List.length_append,List.length_cons,be16_length,be32_length,List.length_nil]; omega)
      obtain ⟨count,high⟩ := ih (by omega) went
      rw [List.length_cons]
      omega

theorem read_inside (inside : off+1 < sb.length) : ∃ v, readU16 sb off = some v := by
  simp [readU16,List.getElem?_eq_getElem inside,List.getElem?_eq_getElem (Nat.lt_of_succ_lt inside)]

theorem handle_fault : hevMappedDnsHandle dns req req.length res = .fault ↔ Overruns req res := by
  unfold hevMappedDnsHandle
  split
  · rename_i small
    exact iff_of_false (fun same => by cases same) fun overruns => absurd overruns.1 (by omega)
  · rename_i room
    split
    · rename_i outside
      exact iff_of_true rfl ⟨by omega,outside.elim (fun short => absurd short (by omega)) fun rest => rest.elim .inl fun few => .inr (.inl few)⟩
    · rename_i inside
      obtain ⟨qd,count⟩ := @read_inside req 4 (by omega)
      have copied : (overwrite res 0 (req.take req.length)).length = res.length :=
        overwrite_length (by rw [List.take_length]; omega)
      obtain ⟨fl,flags⟩ := @read_inside (overwrite res 0 (req.take req.length)) 2 (by rw [copied]; omega)
      simp only [count,flags,Outcome.ofOption,Outcome.bind]
      split
      · rename_i many
        refine iff_of_false (fun same => by cases same) ?_
        rintro ⟨_,short | short | ⟨qd',qs,same,few,_⟩⟩
        · omega
        · omega
        · cases count.symm.trans same
          omega
      · rename_i few
        have announced : Overruns req res ↔ ∃ qs : List Question, qs.length < qd ∧ req.drop 12 = qs.flatMap Question.bytes := by
          constructor
          · rintro ⟨_,short | short | ⟨qd',qs,same,_,fewer,layout⟩⟩
            · omega
            · omega
            · cases count.symm.trans same
              exact ⟨qs,fewer,layout⟩
          · rintro ⟨qs,fewer,layout⟩
            exact ⟨by omega,.inr (.inr ⟨qd,qs,count,by omega,fewer,layout⟩)⟩
        rw [announced,← @scan_fault os dns]
        cases scanned : questions req.length qd ⟨dns,req,12,[]⟩ with
        | fault => exact iff_of_true rfl rfl
        | reject other => exact iff_of_false (fun same => by cases same) fun same => by cases same
        | ok s =>
          refine iff_of_false ?_ fun same => by cases same
          dsimp only
          cases written : writeAnswers s.dns s.answers _ s.off with
          | fault => exact (write_answers_inside written).elim
          | reject other => exact fun same => by cases same
          | ok both => exact fun same => by cases same

theorem scan_end (few : req.length ≤ res.length) (wide : 12 ≤ res.length)
    (went : questions req.length n ⟨dns,req,12,[]⟩ = .ok s) : 12 ≤ s.off ∧ s.off ≤ res.length := by
  obtain ⟨qs,rest,_,layout,_,_,stop⟩ := scan_layout (Nat.le_refl _) went
  have size := congrArg List.length layout
  rw [List.length_drop,List.length_append] at size
  omega

-- The one way out of the buffers is an announced question that begins where they end.
theorem handle_contained (dns : Dns os) (req res : List UInt8) : Contained dns req res ↔ ¬Overruns req res := by
  constructor
  · intro contained overruns
    exact contained.accesses (handle_fault.mpr overruns)
  · intro inside
    refine ⟨fun fault => inside (handle_fault.mp fault),fun qd i s _ few early went => ?_,fun next out n answered => ?_⟩
    · have gained := questions_gain went
      simp only [List.length_nil] at gained
      omega
    · obtain ⟨s,sb,fl,qd,parsed,_,_⟩ := handle_answered answered
      obtain ⟨low,high⟩ := scan_end parsed.room parsed.header parsed.scanned
      have size : (cleared req req.length res).length = res.length := cleared_length parsed.room parsed.header
      have ends := write_answers_end (by rw [size]; exact high) parsed.written
      omega

-- A header alone that announces one question.
theorem handle_overruns : ¬Contained pair [0,1,1,0,0,1,0,0,0,0,0,0] (List.replicate 512 0) := by
  intro contained
  exact contained.accesses (handle_fault.mpr ⟨by rw [List.length_replicate]; decide,.inr (.inr ⟨1,[],rfl,by decide,by decide,rfl⟩)⟩)

end Psocks.MappedDns
