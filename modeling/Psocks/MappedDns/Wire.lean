import Psocks.Lib.Bytes
import Psocks.Lib.Runs
import Psocks.MappedDns.Invariant

namespace Psocks.MappedDns
variable {os : Platform}

-- `fault`: a byte outside the request or the response memory is touched.
-- `reject`: -1 is returned, with what the questions before have already cached.
inductive Outcome (os : Platform) (α : Type) where
  | fault
  | reject (dns : Dns os)
  | ok (value : α)

def Outcome.bind (x : Outcome os α) (f : α → Outcome os β) : Outcome os β :=
  match x with
  | .fault => .fault
  | .reject dns => .reject dns
  | .ok value => f value

def Outcome.ofOption : Option α → Outcome os α
  | none => .fault
  | some value => .ok value

-- Where the walk over one name stands: the request, already dotted up to `off`.
inductive Walk where
  | fault
  | past
  | ended (rb : List UInt8) (off : Nat)
deriving DecidableEq

-- Every label moves `off` on and the walk stops at `qlen`, so that much fuel is
-- never used up.
def labelWalk (qlen : Nat) : Nat → List UInt8 → Nat → Walk
  | 0, _, _ => .past
  | fuel+1, rb, off =>
    match rb[off]? with
    | none => .fault
    | some n =>
      if n = 0 then .ended rb off
      else if qlen ≤ off+(1+n.toNat) then .past
      else labelWalk qlen fuel (rb.set off 46) (off+(1+n.toNat))

-- The loop over the questions: `answers` is the filled part of `ipo` and `ips`.
structure Scan (os : Platform) where
  dns : Dns os
  rb : List UInt8
  off : Nat
  answers : List (Nat × BitVec 32)

def question (qlen : Nat) (s : Scan os) : Outcome os (Scan os) :=
  match labelWalk qlen (qlen+1) s.rb s.off with
  | .fault => .fault
  | .past => .reject s.dns
  | .ended rb stop =>
    let off := stop+1
    if qlen ≤ off+3 then .reject s.dns
    else
      (Outcome.ofOption (readU16 rb off)).bind fun type =>
      (Outcome.ofOption (readU16 rb (off+2))).bind fun cls =>
      if type = 1 ∧ cls = 1 then
        (Outcome.ofOption (cstrAt rb (s.off+1))).bind fun name =>
        let (idx,dns) := hevMappedDnsFind s.dns name
        let answers := if 0 ≤ idx then s.answers++[(s.off,s.dns.net ||| BitVec.ofInt 32 idx)] else s.answers
        .ok ⟨dns,rb,off+4,answers⟩
      else .ok {s with rb:=rb,off:=off+4}

def questions (qlen : Nat) : Nat → Scan os → Outcome os (Scan os)
  | 0, s => .ok s
  | n+1, s => (question qlen s).bind (questions qlen n)

def answerRecord (ipo : Nat) (ip : BitVec 32) : List UInt8 :=
  [0xc0,UInt8.ofNat ipo]++be16 1++be16 1++be32 1++be16 4++be32 ip.toNat

-- `sb` has `slen` bytes, so the check before each record keeps it inside.
def writeAnswers (dns : Dns os) : List (Nat × BitVec 32) → List UInt8 → Nat → Outcome os (List UInt8 × Nat)
  | [], sb, off => .ok (sb,off)
  | (ipo,ip)::rest, sb, off =>
    if sb.length ≤ off+15 then .reject dns
    else writeAnswers dns rest (overwrite sb off (answerRecord ipo ip)) (off+16)

def responseFlags (fl : Nat) : Nat := fl ||| 0x8000 ||| ((fl &&& 0x100) >>> 1)

-- The count and the flags the source swaps in place in the buffers are locals
-- here: no later access is to those bytes before they are written for good.
def hevMappedDnsHandle (self : Dns os) (req : List UInt8) (qlen : Nat) (res : List UInt8) :
    Outcome os (Dns os × List UInt8 × Nat) :=
  if res.length < qlen then .reject self
  else if req.length < qlen ∨ req.length < 6 ∨ res.length < 12 then .fault
  else
    let sb := overwrite res 0 (req.take qlen)
    (Outcome.ofOption (readU16 req 4)).bind fun qd =>
    (Outcome.ofOption (readU16 sb 2)).bind fun fl =>
    let sb := overwrite sb 6 [0,0,0,0,0,0]
    if 32 < qd then .reject self
    else
      (questions qlen qd ⟨self,req,12,[]⟩).bind fun s =>
      (writeAnswers s.dns s.answers sb s.off).bind fun (sb,off) =>
      let sb := overwrite (overwrite sb 2 (be16 (responseFlags fl))) 6 (be16 s.answers.length)
      .ok (s.dns,sb,off)

theorem outcome_bind {x : Outcome os α} {f : α → Outcome os β} (went : x.bind f = .ok b) :
    ∃ a, x = .ok a ∧ f a = .ok b := by
  cases x with
  | fault => cases went
  | reject dns => cases went
  | ok a => exact ⟨a,rfl,went⟩

theorem outcome_refused {x : Outcome os α} {f : α → Outcome os β} (refused : x.bind f = .reject dns) :
    x = .reject dns ∨ ∃ a, x = .ok a ∧ f a = .reject dns := by
  cases x with
  | fault => cases refused
  | reject inner => exact .inl (by cases refused; rfl)
  | ok a => exact .inr ⟨a,rfl,refused⟩

theorem outcome_option {x : Option α} (went : (Outcome.ofOption x : Outcome os α) = .ok a) : x = some a := by
  cases x with
  | none => cases went
  | some b => cases went; rfl

inductive Event where
  | call (c : Call)
  | handle (req : List UInt8) (qlen : Nat) (res : List UInt8)

-- After a fault the program has no defined state.
def happen (self : Dns os) : Event → Option (Dns os)
  | .call c => some (call self c)
  | .handle req qlen res =>
    match hevMappedDnsHandle self req qlen res with
    | .fault => none
    | .reject dns => some dns
    | .ok (dns,_,_) => some dns

def history (self : Dns os) (events : List Event) : Option (Dns os) := Runs.exec happen self events

theorem question_cases (s : Scan os) (qlen : Nat) :
    question qlen s = .fault ∨ question qlen s = .reject s.dns ∨
    ∃ s' calls, question qlen s = .ok s' ∧ s'.dns = run s.dns calls := by
  unfold question
  split
  · exact .inl rfl
  · exact .inr (.inl rfl)
  · dsimp only
    split
    · exact .inr (.inl rfl)
    · cases readU16 _ _ with
      | none => exact .inl rfl
      | some type =>
        cases readU16 _ _ with
        | none => exact .inl rfl
        | some cls =>
          simp only [Outcome.ofOption,Outcome.bind]
          split
          · cases cstrAt _ _ with
            | none => exact .inl rfl
            | some name => exact .inr (.inr ⟨_,[.find name],rfl,rfl⟩)
          · exact .inr (.inr ⟨_,[],rfl,rfl⟩)

theorem questions_cases (n : Nat) (s : Scan os) (qlen : Nat) :
    questions qlen n s = .fault ∨ (∃ calls, questions qlen n s = .reject (run s.dns calls)) ∨
    ∃ s' calls, questions qlen n s = .ok s' ∧ s'.dns = run s.dns calls := by
  induction n generalizing s with
  | zero => exact .inr (.inr ⟨s,[],rfl,rfl⟩)
  | succ n ih =>
    unfold questions
    rcases question_cases s qlen with fault | refused | ⟨s',calls,went,ran⟩
    · rw [fault]; exact .inl rfl
    · rw [refused]; exact .inr (.inl ⟨[],rfl⟩)
    · rw [went]
      simp only [Outcome.bind]
      rcases ih s' with fault | ⟨more,refused⟩ | ⟨s'',more,ended,later⟩
      · exact .inl fault
      · exact .inr (.inl ⟨calls++more,by rw [refused,ran,run_append]⟩)
      · exact .inr (.inr ⟨s'',calls++more,ended,by rw [later,ran,run_append]⟩)

theorem questions_ran (scanned : questions qlen n s = .ok s') : ∃ calls, s'.dns = run s.dns calls := by
  rcases questions_cases n s qlen with fault | ⟨_,stopped⟩ | ⟨_,calls,ended,ran⟩
  · rw [fault] at scanned; cases scanned
  · rw [stopped] at scanned; cases scanned
  · rw [ended] at scanned; cases scanned; exact ⟨calls,ran⟩

theorem questions_refused (refused : questions qlen n s = .reject dns) : ∃ calls, dns = run s.dns calls := by
  rcases questions_cases n s qlen with fault | ⟨calls,stopped⟩ | ⟨_,_,ended,_⟩
  · rw [fault] at refused; cases refused
  · rw [stopped] at refused; cases refused; exact ⟨calls,rfl⟩
  · rw [ended] at refused; cases refused

theorem write_answers_refused (refused : writeAnswers dns answers sb off = .reject dns') : dns' = dns := by
  induction answers generalizing sb off with
  | nil => cases refused
  | cons first rest ih =>
    unfold writeAnswers at refused
    split at refused
    · cases refused; rfl
    · exact ih refused

-- The response before any answer: the request, with the three counts cleared.
def cleared (req : List UInt8) (qlen : Nat) (res : List UInt8) : List UInt8 :=
  overwrite (overwrite res 0 (req.take qlen)) 6 [0,0,0,0,0,0]

theorem cleared_length (room : qlen ≤ res.length) (header : 12 ≤ res.length) : (cleared req qlen res).length = res.length := by
  have copied : (overwrite res 0 (req.take qlen)).length = res.length :=
    overwrite_length (by rw [List.length_take]; omega)
  rw [cleared,overwrite_length (by rw [copied]; exact header),copied]

structure Answered (dns : Dns os) (req : List UInt8) (qlen : Nat) (res : List UInt8)
    (s : Scan os) (sb : List UInt8) (fl qd n : Nat) : Prop where
  room : qlen ≤ res.length
  inside : qlen ≤ req.length
  header : 12 ≤ res.length
  count : readU16 req 4 = some qd
  flags : readU16 (overwrite res 0 (req.take qlen)) 2 = some fl
  few : qd ≤ 32
  scanned : questions qlen qd ⟨dns,req,12,[]⟩ = .ok s
  written : writeAnswers s.dns s.answers (cleared req qlen res) s.off = .ok (sb,n)

theorem handle_answered {self : Dns os}
    (answered : hevMappedDnsHandle self req qlen res = .ok (next,out,n)) :
    ∃ s sb fl qd, Answered self req qlen res s sb fl qd n ∧ next = s.dns ∧
      out = overwrite (overwrite sb 2 (be16 (responseFlags fl))) 6 (be16 s.answers.length) := by
  unfold hevMappedDnsHandle at answered
  split at answered
  · cases answered
  rename_i room
  split at answered
  · cases answered
  rename_i inside
  obtain ⟨qd,count,answered⟩ := outcome_bind answered
  obtain ⟨fl,flags,answered⟩ := outcome_bind answered
  dsimp only at answered
  split at answered
  · cases answered
  rename_i few
  obtain ⟨s,scanned,answered⟩ := outcome_bind answered
  obtain ⟨⟨sb,off⟩,written,answered⟩ := outcome_bind answered
  cases answered
  exact ⟨s,sb,fl,qd,⟨by omega,by omega,by omega,outcome_option count,outcome_option flags,by omega,scanned,written⟩,
    rfl,rfl⟩

theorem handle_refused {self dns : Dns os} (refused : hevMappedDnsHandle self req qlen res = .reject dns) :
    ∃ calls, dns = run self calls := by
  unfold hevMappedDnsHandle at refused
  split at refused
  · cases refused; exact ⟨[],rfl⟩
  split at refused
  · cases refused
  rcases outcome_refused refused with early | ⟨qd,_,refused⟩
  · cases count : readU16 req 4 <;> simp [count,Outcome.ofOption] at early
  rcases outcome_refused refused with early | ⟨fl,_,refused⟩
  · cases flags : readU16 (overwrite res 0 (req.take qlen)) 2 <;> simp [flags,Outcome.ofOption] at early
  dsimp only at refused
  split at refused
  · cases refused; exact ⟨[],rfl⟩
  rcases outcome_refused refused with early | ⟨s,scanned,refused⟩
  · exact questions_refused early
  · obtain ⟨calls,ran⟩ := questions_ran scanned
    rcases outcome_refused refused with early | ⟨_,_,late⟩
    · exact ⟨calls,(write_answers_refused early).trans ran⟩
    · cases late

-- To the store, a request is a sequence of finds.
theorem happen_calls {self next : Dns os} (went : happen self e = some next) : ∃ calls, next = run self calls := by
  cases e with
  | call c => cases Option.some.inj went; exact ⟨[c],rfl⟩
  | handle req qlen res =>
    simp only [happen] at went
    split at went
    · cases went
    · rename_i refused
      cases Option.some.inj went
      exact handle_refused refused
    · rename_i answered
      cases Option.some.inj went
      obtain ⟨s,_,_,_,parsed,rfl,_⟩ := handle_answered answered
      exact questions_ran parsed.scanned

theorem history_calls {self next : Dns os} (went : history self events = some next) :
    ∃ calls, next = run self calls := by
  refine Runs.exec_invariant (fun dns => ∃ calls, dns = run self calls) ?_ ⟨[],rfl⟩ went
  rintro _ e after ⟨calls,rfl⟩ first
  obtain ⟨more,rfl⟩ := happen_calls first
  exact ⟨calls++more,(run_append self calls more).symm⟩

end Psocks.MappedDns
