import Psocks.Lib.Runs
import Psocks.Lib.Whole

namespace Psocks.Dialogue
open Program
variable {Query Query' : Type} {Answer : Query → Type} {Answer' : Query' → Type} {α β : Type}

-- One of two programs that talk over a connection: the bytes that have come to it and
-- that it has not taken yet, and what it has asked.
structure Party (Query : Type) (Answer : Query → Type) (α : Type) where
  prog : Prog Query Answer α
  inbox : List UInt8
  turn : Nat
  log : List Query

-- The next thing a party does, with what it sends by it. Bytes go one at a time: a
-- receive takes what is there and goes on to wait, a send is written piece by piece.
def Party.act (oracle : Nat → (q : Query) → Answer q) (p : Party Query Answer α) : Option (Party Query Answer α × List UInt8) :=
  match p.prog with
  | .done _ => none
  | .recv 0 next => some ({p with prog:=next 0 []},[])
  | .recv (n+1) next =>
    match p.inbox with
    | [] => none
    | b::rest => some ({p with prog:=.recv n fun res data => next (res+1) (b::data),inbox:=rest},[])
  | .send [] next => some ({p with prog:=next 0},[])
  | .send (b::data) next => some ({p with prog:=.send data fun res => next (res+1)},[b])
  | .ask q next => some ({p with prog:=next (oracle p.turn q),turn:=p.turn+1,log:=p.log++[q]},[])

def Party.hear (p : Party Query Answer α) (data : List UInt8) : Party Query Answer α := {p with inbox:=p.inbox++data}

variable {oracle : Nat → (q : Query) → Answer q} {oracle' : Nat → (q : Query') → Answer' q}
variable {p next : Party Query Answer α} {said : List UInt8}

-- What more arrives does not change what a party does next.
theorem act_hear (did : p.act oracle = some (next,said)) (data : List UInt8) :
    (p.hear data).act oracle = some (next.hear data,said) := by
  obtain ⟨prog,inbox,turn,log⟩ := p
  cases prog with
  | done a => cases did
  | recv n wait =>
    cases n with
    | zero =>
      cases did
      rfl
    | succ n =>
      cases inbox with
      | nil => cases did
      | cons b rest =>
        cases did
        rfl
  | send bytes wait =>
    cases bytes <;>
    · cases did
      rfl
  | ask q wait =>
    cases did
    rfl

inductive Side where
  | left
  | right
deriving DecidableEq

structure Pair (Query : Type) (Answer : Query → Type) (α : Type) (Query' : Type) (Answer' : Query' → Type) (β : Type) where
  left : Party Query Answer α
  right : Party Query' Answer' β

-- One of the two does what it does next, and what it sends is on its way to the other.
def step (oracle : Nat → (q : Query) → Answer q) (oracle' : Nat → (q : Query') → Answer' q)
    (s : Pair Query Answer α Query' Answer' β) : Side → Option (Pair Query Answer α Query' Answer' β)
  | .left => (s.left.act oracle).map fun did => ⟨did.1,s.right.hear did.2⟩
  | .right => (s.right.act oracle').map fun did => ⟨s.left.hear did.2,did.1⟩

theorem step_commutes : Runs.Commutes (step (α:=α) (β:=β) oracle oracle') := by
  have both : ∀ s x y, step (α:=α) (β:=β) oracle oracle' s .left = some x → step oracle oracle' s .right = some y →
      ∃ z, step oracle oracle' x .right = some z ∧ step oracle oracle' y .left = some z := by
    intro s x y one two
    obtain ⟨⟨l,out⟩,did,rfl⟩ := Option.map_eq_some_iff.mp one
    obtain ⟨⟨r,out'⟩,did',rfl⟩ := Option.map_eq_some_iff.mp two
    refine ⟨⟨l.hear out',r.hear out⟩,?_,?_⟩
    · simp only [step,act_hear did' out,Option.map_some]
    · simp only [step,act_hear did out',Option.map_some]
  intro s a b x y other one two
  cases a with
  | left =>
    cases b with
    | left => exact (other rfl).elim
    | right => exact both s x y one two
  | right =>
    cases b with
    | right => exact (other rfl).elim
    | left =>
      obtain ⟨z,first,second⟩ := both s y x two one
      exact ⟨z,second,first⟩

-- What one party does in a row, and what it sends by it.
inductive Acts (oracle : Nat → (q : Query) → Answer q) :
    Party Query Answer α → List UInt8 → Party Query Answer α → Prop where
  | idle {p : Party Query Answer α} : Acts oracle p [] p
  | act {p middle next : Party Query Answer α} {said more : List UInt8} :
      p.act oracle = some (middle,said) → Acts oracle middle more next → Acts oracle p (said++more) next

theorem acts_trans (one : Acts oracle p said middle) (two : Acts oracle middle more next) : Acts oracle p (said++more) next := by
  induction one with
  | idle => exact two
  | act did _ ih =>
    rw [List.append_assoc]
    exact .act did (ih two)

theorem acts_take (data : List UInt8) (wait : Int → List UInt8 → Prog Query Answer α) (rest : List UInt8) (turn : Nat)
    (log : List Query) : Acts oracle ⟨.recv data.length wait,data++rest,turn,log⟩ [] ⟨wait data.length data,rest,turn,log⟩ := by
  induction data generalizing wait with
  | nil =>
    have first : Party.act oracle ⟨.recv 0 wait,rest,turn,log⟩ = some (⟨wait 0 [],rest,turn,log⟩,[]) := rfl
    exact .act first .idle
  | cons b data ih =>
    have first : Party.act oracle ⟨.recv (data.length+1) wait,b::(data++rest),turn,log⟩ =
        some (⟨.recv data.length fun res data => wait (res+1) (b::data),data++rest,turn,log⟩,[]) := rfl
    exact .act first (ih fun res data => wait (res+1) (b::data))

theorem acts_put (data : List UInt8) (wait : Int → Prog Query Answer α) (inbox : List UInt8) (turn : Nat) (log : List Query) :
    Acts oracle ⟨.send data wait,inbox,turn,log⟩ data ⟨wait data.length,inbox,turn,log⟩ := by
  induction data generalizing wait with
  | nil =>
    have first : Party.act oracle ⟨.send [] wait,inbox,turn,log⟩ = some (⟨wait 0,inbox,turn,log⟩,[]) := rfl
    exact .act first .idle
  | cons b data ih =>
    have first : Party.act oracle ⟨.send (b::data) wait,inbox,turn,log⟩ =
        some (⟨.send data fun res => wait (res+1),inbox,turn,log⟩,[b]) := rfl
    exact .act first (ih fun res => wait (res+1))

-- The first part of a complete run, in a party that has heard what it hears.
theorem does_acts {one two : List (Act Query)} (does : Does oracle turn prog (one++two) a) (rest : List UInt8) (log : List Query) :
    ∃ after, Acts oracle ⟨prog,heard one++rest,turn,log⟩ (wire one) ⟨after,rest,turn+(asked one).length,log++asked one⟩ ∧
      Does oracle (turn+(asked one).length) after two a := by
  induction one generalizing turn prog log with
  | nil =>
    refine ⟨prog,?_,does⟩
    rw [asked_nil,List.append_nil]
    exact .idle
  | cons first one ih =>
    cases does with
    | recv size later =>
      obtain ⟨after,acts,does⟩ := ih later log
      subst size
      refine ⟨after,?_,does⟩
      rw [heard_got,List.append_assoc]
      exact acts_trans (acts_take _ _ _ _ _) acts
    | send later =>
      obtain ⟨after,acts,does⟩ := ih later log
      refine ⟨after,?_,does⟩
      rw [heard_put,wire_put,List.take_length]
      exact acts_trans (acts_put _ _ _ _ _) acts
    | ask later =>
      rename_i q next
      obtain ⟨after,acts,does⟩ := ih later (log++[q])
      have count : turn+(asked (.asked q::one)).length = turn+1+(asked one).length := by
        rw [asked_asked,List.length_cons]
        omega
      have did : Party.act oracle ⟨.ask q next,heard one++rest,turn,log⟩ =
          some (⟨next (oracle turn q),heard one++rest,turn+1,log++[q]⟩,[]) := rfl
      rw [count]
      refine ⟨after,?_,does⟩
      rw [heard_asked,wire_asked,asked_asked,List.append_cons]
      exact .act did acts

-- Runs of two parties, part by part, each part when what it hears has been said.
inductive Meets : List (Act Query) → List UInt8 → List (Act Query') → List UInt8 → List UInt8 → List UInt8 → Prop where
  | ends {inbox inbox' : List UInt8} : Meets [] inbox [] inbox' inbox inbox'
  | left {one two : List (Act Query)} {acts : List (Act Query')} {rest inbox' last last' : List UInt8} :
      Meets two rest acts (inbox'++wire one) last last' → Meets (one++two) (heard one++rest) acts inbox' last last'
  | right {acts : List (Act Query)} {one two : List (Act Query')} {inbox rest last last' : List UInt8} :
      Meets acts (inbox++wire one) two rest last last' → Meets acts inbox (one++two) (heard one++rest) last last'

theorem meets_left {one two : List (Act Query)} {acts : List (Act Query')} (cut : inbox = heard one++rest)
    (meets : Meets two rest acts (inbox'++wire one) last last') : Meets (one++two) inbox acts inbox' last last' :=
  cut ▸ .left meets

theorem meets_right {acts : List (Act Query)} {one two : List (Act Query')} (cut : inbox' = heard one++rest)
    (meets : Meets acts (inbox++wire one) two rest last last') : Meets acts inbox (one++two) inbox' last last' :=
  cut ▸ .right meets

-- One hears what the other says: the other only says it, and one says nothing, and takes
-- all of it but `rest`.
structure Hears (one : List (Act Query)) (two : List (Act Query')) (rest : List UInt8) : Prop where
  told : wire two = heard one++rest
  quiet : wire one = []
  deaf : heard two = []

theorem left_tells {xs g : List (Act Query)} {ys a : List (Act Query')} (hears : Hears a g [])
    (meets : Meets xs inbox ys [] last last') : Meets (g++xs) inbox (a++ys) [] last last' := by
  obtain ⟨told,quiet,deaf⟩ := hears
  refine meets_left (show inbox = heard g++inbox by rw [deaf,List.nil_append]) ?_
  refine meets_right (show []++wire g = heard a++[] by rw [told]; rfl) ?_
  rwa [quiet,List.append_nil]

theorem right_tells {xs a : List (Act Query)} {ys g : List (Act Query')} (hears : Hears a g rest)
    (meets : Meets xs rest ys inbox' last last') : Meets (a++xs) [] (g++ys) inbox' last last' := by
  obtain ⟨told,quiet,deaf⟩ := hears
  refine meets_right (show inbox' = heard g++inbox' by rw [deaf,List.nil_append]) ?_
  refine meets_left (show []++wire g = heard a++rest by rw [told]; rfl) ?_
  rwa [quiet,List.append_nil]

theorem both_tell {l : List (Act Query)} {l' : List (Act Query')} (deaf : heard l = []) (deaf' : heard l' = []) :
    Meets l inbox l' inbox' (inbox++wire l') (inbox'++wire l) := by
  rw [← List.append_nil l,← List.append_nil l']
  refine meets_left (show inbox = heard l++inbox by rw [deaf,List.nil_append]) ?_
  refine meets_right (show inbox'++wire l = heard l'++(inbox'++wire l) by rw [deaf',List.nil_append]) ?_
  rw [List.append_nil,List.append_nil]
  exact .ends

theorem hear_nil (p : Party Query Answer α) : p.hear [] = p := by
  simp [Party.hear]

theorem hear_hear (p : Party Query Answer α) (a b : List UInt8) : (p.hear a).hear b = p.hear (a++b) := by
  simp [Party.hear]

theorem acts_left (acts : Acts oracle p said next) (q : Party Query' Answer' β) :
    ∃ path, Runs.exec (step oracle oracle') ⟨p,q⟩ path = some ⟨next,q.hear said⟩ := by
  induction acts generalizing q with
  | idle => exact ⟨[],by rw [hear_nil]; rfl⟩
  | @act p middle next said more did _ ih =>
    obtain ⟨path,went⟩ := ih (q.hear said)
    refine ⟨.left::path,?_⟩
    rw [Runs.exec,step,did,← hear_hear]
    exact went

theorem acts_right {q next : Party Query' Answer' β} (acts : Acts oracle' q said next) (p : Party Query Answer α) :
    ∃ path, Runs.exec (step oracle oracle') ⟨p,q⟩ path = some ⟨p.hear said,next⟩ := by
  induction acts generalizing p with
  | idle => exact ⟨[],by rw [hear_nil]; rfl⟩
  | @act q middle next said more did _ ih =>
    obtain ⟨path,went⟩ := ih (p.hear said)
    refine ⟨.right::path,?_⟩
    rw [Runs.exec,step,did,← hear_hear]
    exact went

theorem does_nothing (does : Does oracle turn prog [] a) : prog = .done a := by
  cases does
  rfl

-- Runs that meet are a run of the pair.
theorem meets_exec {f : Prog Query Answer α} {g : Prog Query' Answer' β} {xs : List (Act Query)} {ys : List (Act Query')}
    (meets : Meets xs inbox ys inbox' last last') (left : Does oracle turn f xs a) (right : Does oracle' turn' g ys b)
    (log : List Query) (log' : List Query') :
    ∃ path, Runs.exec (step oracle oracle') ⟨⟨f,inbox,turn,log⟩,⟨g,inbox',turn',log'⟩⟩ path =
      some ⟨⟨.done a,last,turn+(asked xs).length,log++asked xs⟩,⟨.done b,last',turn'+(asked ys).length,log'++asked ys⟩⟩ := by
  induction meets generalizing f g turn turn' log log' with
  | ends =>
    rw [does_nothing left,does_nothing right]
    exact ⟨[],by simp [Runs.exec]⟩
  | @left one two acts rest inbox' last last' _ ih =>
    obtain ⟨after,did,later⟩ := does_acts left rest log
    obtain ⟨path,went⟩ := acts_left did ⟨g,inbox',turn',log'⟩
    obtain ⟨more,ended⟩ := ih later right (log++asked one) log'
    refine ⟨path++more,?_⟩
    rw [Runs.exec_append,went,Option.bind_some,asked_append,List.length_append,← Nat.add_assoc,← List.append_assoc]
    exact ended
  | @right acts one two inbox rest last last' _ ih =>
    obtain ⟨after,did,later⟩ := does_acts right rest log'
    obtain ⟨path,went⟩ := acts_right did ⟨f,inbox,turn,log⟩
    obtain ⟨more,ended⟩ := ih left later log (log'++asked one)
    refine ⟨path++more,?_⟩
    rw [Runs.exec_append,went,Option.bind_some,asked_append,List.length_append,← Nat.add_assoc,← List.append_assoc]
    exact ended

theorem done_stuck {s : Pair Query Answer α Query' Answer' β} (left : s.left.prog = .done a) (right : s.right.prog = .done b) :
    Runs.Stuck (step oracle oracle') s := by
  obtain ⟨⟨l,inbox,turn,log⟩,⟨r,inbox',turn',log'⟩⟩ := s
  cases left
  cases right
  intro side
  cases side <;> rfl

-- The pair before either has done anything.
def opening (f : Prog Query Answer α) (g : Prog Query' Answer' β) : Pair Query Answer α Query' Answer' β :=
  ⟨⟨f,[],0,[]⟩,⟨g,[],0,[]⟩⟩

def ending (a : α) (xs : List (Act Query)) (last : List UInt8) (b : β) (ys : List (Act Query')) (last' : List UInt8) :
    Pair Query Answer α Query' Answer' β :=
  ⟨⟨.done a,last,(asked xs).length,asked xs⟩,⟨.done b,last',(asked ys).length,asked ys⟩⟩

-- In whatever order they act and in whatever pieces their bytes go, two parties whose
-- complete runs meet come to the end of these runs, and to no other.
theorem meets_ends {f : Prog Query Answer α} {g : Prog Query' Answer' β} {xs : List (Act Query)} {ys : List (Act Query')}
    (meets : Meets xs [] ys [] last last') (left : Does oracle 0 f xs a) (right : Does oracle' 0 g ys b)
    (run : Runs.exec (step oracle oracle') (opening f g) events = some s) :
    (∃ rest, Runs.exec (step oracle oracle') s rest = some (ending a xs last b ys last')) ∧
      (Runs.Stuck (step oracle oracle') s → s = ending a xs last b ys last') := by
  obtain ⟨path,went⟩ := meets_exec meets left right [] []
  simp only [Nat.zero_add,List.nil_append] at went
  have stuck : Runs.Stuck (step oracle oracle') (ending a xs last b ys last') := done_stuck rfl rfl
  obtain ⟨rest,ended,_⟩ := Runs.exec_complete step_commutes stuck went run
  exact ⟨⟨rest,ended⟩,Runs.exec_ends step_commutes stuck went run⟩

end Psocks.Dialogue
