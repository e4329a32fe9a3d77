import Psocks.MappedDns.Wire

namespace Psocks.MappedDns
variable {os : Platform} {dns : Dns os} {order : List Nat}

-- One question as a request carries it: the labels of its name, then type and
-- class. A label has the length its length byte can say.
structure Question where
  labels : List (List UInt8)
  sized : ∀ l ∈ labels, 0 < l.length ∧ l.length < 256
  kind : List UInt8
  whole : kind.length = 4

def counted (l : List UInt8) : List UInt8 := UInt8.ofNat l.length::l

def dotted (l : List UInt8) : List UInt8 := 46::l

def Question.bytes (q : Question) : List UInt8 := q.labels.flatMap counted++0::q.kind

def Question.walked (q : Question) : List UInt8 := q.labels.flatMap dotted++0::q.kind

def Question.host (q : Question) : List UInt8 := [46].intercalate q.labels

-- An address question of the Internet class.
def Question.Asks (q : Question) : Prop := q.kind = [0,1,0,1]

instance (q : Question) : Decidable q.Asks := inferInstanceAs (Decidable (q.kind = [0,1,0,1]))

-- The C string that starts at the first label.
def Question.name (q : Question) : CString := cut q.host

theorem walked_labels (labels : List (List UInt8)) :
    (labels.flatMap dotted).length = (labels.flatMap counted).length := by
  induction labels with
  | nil => rfl
  | cons l rest ih => simp [dotted,counted,ih]

theorem walked_length (q : Question) : q.walked.length = q.bytes.length := by
  simp only [Question.walked,Question.bytes,List.length_append,walked_labels]

theorem host_dotted (l : List UInt8) (rest : List (List UInt8)) :
    (l::rest).flatMap dotted = 46::[46].intercalate (l::rest) := by
  induction rest generalizing l with
  | nil => simp [dotted,List.intercalate]
  | cons next rest ih =>
    rw [List.flatMap_cons,ih next]
    simp [dotted,List.intercalate,List.intersperse]

theorem walk_layout {done m : List UInt8} (fits : qlen ≤ (done++m).length)
    (ended : labelWalk qlen fuel (done++m) done.length = .ended rb off) :
    ∃ (labels : List (List UInt8)) (rest : List UInt8), (∀ l ∈ labels, 0 < l.length ∧ l.length < 256) ∧ m = labels.flatMap counted++0::rest ∧
      rb = done++(labels.flatMap dotted++0::rest) ∧ off = done.length+(labels.flatMap counted).length := by
  induction fuel generalizing done m with
  | zero => cases ended
  | succ fuel ih =>
    unfold labelWalk at ended
    cases m with
    | nil => simp at ended
    | cons n m =>
      rw [show (done++n::m)[done.length]? = some n by simp] at ended
      dsimp only at ended
      split at ended
      · rename_i zero
        subst zero
        cases ended
        exact ⟨[],m,by simp,rfl,rfl,rfl⟩
      · rename_i positive
        split at ended
        · cases ended
        · rename_i inside
          have size : n.toNat ≤ m.length := by
            simp only [List.length_append,List.length_cons] at fits
            omega
          have moved : (done++n::m).set done.length 46 = (done++dotted (m.take n.toNat))++m.drop n.toNat := by
            rw [List.set_append_right _ _ (Nat.le_refl _)]
            simp [dotted]
          have past : done.length+(1+n.toNat) = (done++dotted (m.take n.toNat)).length := by
            simp [dotted,List.length_take,Nat.min_eq_left size]
            omega
          rw [moved,past] at ended
          have room : qlen ≤ (done++dotted (m.take n.toNat)++m.drop n.toNat).length := by
            rw [← moved,List.length_set]
            exact fits
          obtain ⟨labels,rest,sized,left,whole,stop⟩ := ih room ended
          have some_ : 0 < n.toNat := byte_pos positive
          have narrow := n.toNat_lt
          have count : (m.take n.toNat).length = n.toNat := by rw [List.length_take,Nat.min_eq_left size]
          have lead : counted (m.take n.toNat) = n::m.take n.toNat := by
            simp [counted,count]
          refine ⟨m.take n.toNat::labels,rest,?_,?_,?_,?_⟩
          · intro l member
            rcases List.mem_cons.mp member with rfl | old
            · rw [count]; exact ⟨some_,narrow⟩
            · exact sized l old
          · rw [List.flatMap_cons,lead,List.append_assoc,← left]
            simp
          · rw [whole]
            simp
          · rw [stop,← past,List.flatMap_cons,lead]
            simp [count]
            omega

-- A walk that starts inside the memory stays inside.
theorem walk_inside (here : off < rb.length) (fits : qlen ≤ rb.length) : labelWalk qlen fuel rb off ≠ .fault := by
  induction fuel generalizing rb off with
  | zero => simp [labelWalk]
  | succ fuel ih =>
    rw [labelWalk,List.getElem?_eq_getElem here]
    dsimp only
    split
    · exact Walk.noConfusion
    · split
      · exact Walk.noConfusion
      · exact ih (by rw [List.length_set]; omega) (by rwa [List.length_set])

theorem walk_parses {done rest : List UInt8} {labels : List (List UInt8)} (sized : ∀ l ∈ labels, 0 < l.length ∧ l.length < 256)
    (inside : done.length+(labels.flatMap counted).length < qlen) (enough : (labels.flatMap counted).length < fuel) :
    labelWalk qlen fuel (done++(labels.flatMap counted++0::rest)) done.length =
      .ended (done++(labels.flatMap dotted++0::rest)) (done.length+(labels.flatMap counted).length) := by
  induction labels generalizing done fuel with
  | nil =>
    cases fuel with
    | zero => cases enough
    | succ fuel => simp [labelWalk]
  | cons l labels ih =>
    cases fuel with
    | zero => cases enough
    | succ fuel =>
      obtain ⟨some_,narrow⟩ := sized l List.mem_cons_self
      have width : (UInt8.ofNat l.length).toNat = l.length := UInt8.toNat_ofNat_of_lt' narrow
      have positive : UInt8.ofNat l.length ≠ 0 := fun zero => by
        rw [zero,UInt8.toNat_zero] at width
        omega
      simp only [List.flatMap_cons,counted,List.cons_append,List.length_cons,List.length_append] at inside enough
      have within : ¬qlen ≤ done.length+(1+l.length) := by omega
      have moved : (done++UInt8.ofNat l.length::(l++(labels.flatMap counted++0::rest))).set done.length 46 =
          (done++dotted l)++(labels.flatMap counted++0::rest) := by
        rw [List.set_append_right _ _ (Nat.le_refl _)]
        simp [dotted]
      have past : done.length+(1+l.length) = (done++dotted l).length := by
        simp only [dotted,List.length_append,List.length_cons]
        omega
      have first : (done++((l::labels).flatMap counted++0::rest))[done.length]? = some (UInt8.ofNat l.length) := by
        simp [counted]
      have later : labelWalk qlen fuel ((done++dotted l)++(labels.flatMap counted++0::rest)) (done++dotted l).length = _ :=
        ih (fun x member => sized x (List.mem_cons_of_mem _ member)) (by rw [← past]; omega) (by omega)
      rw [labelWalk,first]
      simp only [positive,if_false,width,within]
      rw [show (l::labels).flatMap counted++0::rest = UInt8.ofNat l.length::(l++(labels.flatMap counted++0::rest)) by
        simp [counted],moved,past,later]
      simp only [List.flatMap_cons,List.append_assoc,List.length_append,counted,dotted,List.length_cons]
      rw [Walk.ended.injEq]
      refine ⟨rfl,by omega⟩

-- What the answer section gains from one question at offset `off`, and from all.
def Question.resolve (q : Question) (dns : Dns os) (off : Nat) : Dns os × List (Nat × BitVec 32) :=
  if q.Asks then
    let (idx,next) := hevMappedDnsFind dns q.name
    (next,if 0 ≤ idx then [(off,dns.net ||| BitVec.ofInt 32 idx)] else [])
  else (dns,[])

def resolve (dns : Dns os) (off : Nat) : List Question → Dns os × List (Nat × BitVec 32)
  | [] => (dns,[])
  | q::rest =>
    let (dns,first) := q.resolve dns off
    let (dns,later) := resolve dns (off+q.bytes.length) rest
    (dns,first++later)

theorem name_read {done rest : List UInt8} (q : Question) (asks : q.Asks) :
    cstrAt (done++(q.walked++rest)) (done.length+1) = some q.name := by
  have skip : (done++(q.walked++rest)).drop (done.length+1) = (q.walked++rest).drop 1 := by
    rw [← List.drop_drop,List.drop_left]
  have layout : (done++(q.walked++rest)).drop (done.length+1) =
      q.host++0::((if q.labels = [] then [1,0,1] else q.kind)++rest) := by
    rw [skip,Question.walked,Question.host]
    cases q.labels with
    | nil => rw [asks]; rfl
    | cons l labels => rw [host_dotted]; simp
  exact cstrAt_cut layout

theorem pair_one (a b : UInt8) : a.toNat*256+b.toNat = 1 ↔ a = 0 ∧ b = 1 := by
  rw [← UInt8.toNat_inj,← UInt8.toNat_inj]
  have narrow := b.toNat_lt
  simp only [UInt8.toNat_zero,UInt8.toNat_one]
  omega

theorem asks_exact (q : Question) (shape : q.kind = [a,b,c,d]) :
    q.Asks ↔ a.toNat*256+b.toNat = 1 ∧ c.toNat*256+d.toNat = 1 := by
  rw [pair_one,pair_one,Question.Asks,shape]
  simp [and_assoc]

theorem question_parses {done rest : List UInt8} {answers : List (Nat × BitVec 32)} (q : Question)
    (inside : done.length+q.bytes.length ≤ qlen) :
    question qlen ⟨dns,done++(q.bytes++rest),done.length,answers⟩ =
      .ok ⟨(q.resolve dns done.length).1,(done++q.walked)++rest,(done++q.walked).length,
        answers++(q.resolve dns done.length).2⟩ := by
  obtain ⟨labels,sized,kind,whole⟩ := q
  obtain ⟨a,b,c,d,rfl⟩ : ∃ a b c d, kind = [a,b,c,d] := by
    match kind,whole with
    | [a,b,c,d],_ => exact ⟨a,b,c,d,rfl⟩
  let q : Question := ⟨labels,sized,[a,b,c,d],rfl⟩
  have size : q.bytes.length = (labels.flatMap counted).length+5 := by simp [q,Question.bytes]
  have given : done.length+q.bytes.length ≤ qlen := inside
  have walked : labelWalk qlen (qlen+1) (done++(q.bytes++rest)) done.length =
      .ended (done++(q.walked++rest)) (done.length+(labels.flatMap counted).length) := by
    have parsed := @walk_parses qlen (qlen+1) done (a::b::c::d::rest) labels sized (by omega) (by omega)
    simpa [q,Question.bytes,Question.walked] using parsed
  have past : done.length+(labels.flatMap counted).length+1+4 = (done++q.walked).length := by
    rw [List.length_append,walked_length]
    omega
  have type : readU16 (done++(q.walked++rest)) (done.length+(labels.flatMap counted).length+1) =
      some (a.toNat*256+b.toNat) := by
    have front : done++(q.walked++rest) = (done++labels.flatMap dotted++[0])++a::b::(c::d::rest) := by
      simp [q,Question.walked]
    rw [front]
    exact readU16_append (by simp only [List.length_append,walked_labels,List.length_singleton])
  have cls : readU16 (done++(q.walked++rest)) (done.length+(labels.flatMap counted).length+1+2) =
      some (c.toNat*256+d.toNat) := by
    have front : done++(q.walked++rest) = (done++labels.flatMap dotted++[0,a,b])++c::d::rest := by
      simp [q,Question.walked]
    rw [front]
    exact readU16_append (by simp only [List.length_append,walked_labels,List.length_cons,List.length_nil])
  have exactly := asks_exact q rfl
  show question qlen ⟨dns,done++(q.bytes++rest),done.length,answers⟩ = _
  simp only [question,walked]
  rw [if_neg (by omega),type,cls,past]
  simp only [Outcome.ofOption,Outcome.bind]
  split
  · rename_i one
    have asks := exactly.mpr one
    rw [name_read q asks]
    simp only [Question.resolve]
    rw [if_pos (show Question.Asks ⟨labels,sized,[a,b,c,d],whole⟩ from asks)]
    simp only [q,List.append_assoc,Outcome.ok.injEq,Scan.mk.injEq,true_and]
    split <;> simp [Question.name,Question.host]
  · rename_i other
    have silent : ¬q.Asks := fun asks => other (exactly.mp asks)
    simp only [Question.resolve]
    rw [if_neg (show ¬Question.Asks ⟨labels,sized,[a,b,c,d],whole⟩ from silent)]
    simp [q,Question.walked]

-- What one turn of the loop over the questions meets: the end of the memory, a question
-- that does not end before `qlen`, or a whole one.
theorem question_reads {done m : List UInt8} {answers : List (Nat × BitVec 32)} (fits : qlen ≤ (done++m).length) :
    question qlen ⟨dns,done++m,done.length,answers⟩ = .fault ∧ m = [] ∨
      question qlen ⟨dns,done++m,done.length,answers⟩ = .reject dns ∨
      ∃ (q : Question) (rest : List UInt8), m = q.bytes++rest ∧ done.length+q.bytes.length ≤ qlen := by
  cases ended : labelWalk qlen (qlen+1) (done++m) done.length with
  | fault =>
    refine .inl ⟨by simp only [question,ended],?_⟩
    by_contra some_
    have here : done.length < (done++m).length := by
      have := List.length_pos_iff.mpr some_
      rw [List.length_append]
      omega
    exact walk_inside here fits ended
  | past => exact .inr (.inl (by simp only [question,ended]))
  | ended rb stop =>
    obtain ⟨labels,tail,sized,rfl,rfl,rfl⟩ := walk_layout fits ended
    by_cases cut : qlen ≤ done.length+(labels.flatMap counted).length+1+3
    · exact .inr (.inl (by simp only [question,ended,if_pos cut]))
    · have room : 4 ≤ tail.length := by
        simp only [List.length_append,List.length_cons] at fits
        omega
      obtain ⟨a,b,c,d,rest,rfl⟩ : ∃ a b c d rest, tail = a::b::c::d::rest := by
        match tail,room with
        | a::b::c::d::rest,_ => exact ⟨a,b,c,d,rest,rfl⟩
      refine .inr (.inr ⟨⟨labels,sized,[a,b,c,d],rfl⟩,rest,by simp [Question.bytes],?_⟩)
      simp only [Question.bytes,List.length_append,List.length_cons,List.length_nil]
      omega

theorem question_layout {done m : List UInt8} {answers : List (Nat × BitVec 32)} (fits : qlen ≤ (done++m).length)
    (went : question qlen ⟨dns,done++m,done.length,answers⟩ = .ok s) :
    ∃ (q : Question) (rest : List UInt8), m = q.bytes++rest ∧ done.length+q.bytes.length ≤ qlen ∧
      s = ⟨(q.resolve dns done.length).1,(done++q.walked)++rest,(done++q.walked).length,
        answers++(q.resolve dns done.length).2⟩ := by
  rcases question_reads fits with ⟨fault,_⟩ | refused | ⟨q,rest,rfl,inside⟩
  · rw [fault] at went
    cases went
  · rw [refused] at went
    cases went
  · rw [question_parses q inside] at went
    cases went
    exact ⟨q,rest,rfl,inside,rfl⟩

theorem questions_layout {done m : List UInt8} {answers : List (Nat × BitVec 32)} (fits : qlen ≤ (done++m).length)
    (went : questions qlen n ⟨dns,done++m,done.length,answers⟩ = .ok s) :
    ∃ (qs : List Question) (rest : List UInt8), qs.length = n ∧ m = qs.flatMap Question.bytes++rest ∧
      s.dns = (resolve dns done.length qs).1 ∧ s.answers = answers++(resolve dns done.length qs).2 ∧
      s.off = done.length+(qs.flatMap Question.bytes).length := by
  induction n generalizing dns done m answers with
  | zero => cases went; exact ⟨[],m,rfl,rfl,rfl,by simp [resolve],rfl⟩
  | succ n ih =>
    obtain ⟨middle,first,later⟩ := outcome_bind went
    obtain ⟨q,tail,rfl,_,rfl⟩ := question_layout fits first
    have grown : (done++q.walked).length = done.length+q.bytes.length := by rw [List.length_append,walked_length]
    have room : qlen ≤ ((done++q.walked)++tail).length := by
      simp only [List.length_append,walked_length] at fits ⊢
      omega
    obtain ⟨qs,rest,count,rfl,ran,gained,stop⟩ := ih room later
    rw [grown] at ran gained stop
    refine ⟨q::qs,rest,by simp [count],by simp,ran,?_,?_⟩
    · rw [gained]
      simp [resolve]
    · rw [stop]
      simp
      omega

-- A request without the end of its header has no byte where the first question would be.
theorem scan_short (short : req.length < 12) (n : Nat) : questions qlen n ⟨dns,req,12,[]⟩ =
    if n = 0 then .ok ⟨dns,req,12,[]⟩ else .fault := by
  have outside : req[12]? = none := List.getElem?_eq_none (by omega)
  cases n with
  | zero => rfl
  | succ n => simp [questions,question,labelWalk,outside,Outcome.bind]

theorem scan_layout (fits : qlen ≤ req.length) (scanned : questions qlen n ⟨dns,req,12,[]⟩ = .ok s) :
    ∃ (qs : List Question) (rest : List UInt8), qs.length = n ∧ req.drop 12 = qs.flatMap Question.bytes++rest ∧
      s.dns = (resolve dns 12 qs).1 ∧ s.answers = (resolve dns 12 qs).2 ∧ s.off = 12+(qs.flatMap Question.bytes).length := by
  by_cases long : 12 ≤ req.length
  · have front : (req.take 12).length = 12 := by rw [List.length_take]; omega
    have split : (⟨dns,req,12,[]⟩ : Scan os) = ⟨dns,req.take 12++req.drop 12,(req.take 12).length,[]⟩ := by
      rw [List.take_append_drop,front]
    rw [split] at scanned
    have layout := questions_layout (by rwa [List.take_append_drop]) scanned
    simpa only [front,List.nil_append] using layout
  · rw [scan_short (by omega)] at scanned
    split at scanned
    · rename_i none_
      cases scanned
      exact ⟨[],req.drop 12,none_.symm,rfl,rfl,rfl,rfl⟩
    · cases scanned

end Psocks.MappedDns
