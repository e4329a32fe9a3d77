import Mathlib.Data.List.Basic

namespace Psocks.Program

-- A program over one stream socket that waits in each of its calls: it receives or
-- sends a given number of bytes, or asks the system for something else.
inductive Prog (Query : Type) (Answer : Query → Type) (α : Type) where
  | done (a : α)
  | recv (n : Nat) (next : Int → List UInt8 → Prog Query Answer α)
  | send (data : List UInt8) (next : Int → Prog Query Answer α)
  | ask (q : Query) (next : Answer q → Prog Query Answer α)

variable {Query : Type} {Answer : Query → Type} {α β : Type}

def Prog.bind : Prog Query Answer α → (α → Prog Query Answer β) → Prog Query Answer β
  | .done a, k => k a
  | .recv n next, k => .recv n fun res data => (next res data).bind k
  | .send data next, k => .send data fun res => (next res).bind k
  | .ask q next, k => .ask q fun answer => (next answer).bind k

instance : Monad (Prog Query Answer) where
  pure := .done
  bind := .bind

def recv (n : Nat) : Prog Query Answer (Int × List UInt8) := .recv n fun res data => .done (res,data)

def send (data : List UInt8) : Prog Query Answer Int := .send data .done

def ask (q : Query) : Prog Query Answer (Answer q) := .ask q .done

-- Why a call ends before its last byte: the end of the stream, an error, a time-out.
inductive Stop where
  | closed
  | failed
  | timedOut
deriving DecidableEq, Repr

def Stop.code : Stop → Int
  | .closed => 0
  | .failed => -1
  | .timedOut => -2

inductive Cut where
  | whole
  | stopped (limit : Nat) (why : Stop)
deriving DecidableEq, Repr

def Cut.count : Cut → Nat → Nat
  | .whole, n => n
  | .stopped limit _, n => min limit n

-- What has been moved is the result, if anything has.
def Cut.result : Cut → Nat → Int
  | .whole, count => count
  | .stopped _ why, count => if count = 0 then why.code else count

-- One call of the program, with what came of it.
inductive Act (Query : Type) where
  | got (n : Nat) (data : List UInt8)
  | put (data : List UInt8) (count : Nat)
  | asked (q : Query)
deriving DecidableEq

-- All that a run meets: the bytes on their way to it, where its calls are cut (those
-- that are left out are not), what its questions are answered; and what it did so far.
structure World (Query : Type) (Answer : Query → Type) where
  stream : List UInt8
  recvs : List Cut
  sends : List Cut
  oracle : Nat → (q : Query) → Answer q
  turn : Nat
  trace : List (Act Query)

def World.take (w : World Query Answer) (n : Nat) : Int × List UInt8 × World Query Answer :=
  let cut := w.recvs.headD .whole
  let data := w.stream.take (cut.count n)
  (cut.result data.length,data,
    {w with stream:=w.stream.drop (cut.count n),recvs:=w.recvs.tail,trace:=w.trace++[.got n data]})

def World.put (w : World Query Answer) (data : List UInt8) : Int × World Query Answer :=
  let cut := w.sends.headD .whole
  let count := cut.count data.length
  (cut.result count,{w with sends:=w.sends.tail,trace:=w.trace++[.put data count]})

def World.note (w : World Query Answer) (q : Query) : Answer q × World Query Answer :=
  (w.oracle w.turn q,{w with turn:=w.turn+1,trace:=w.trace++[.asked q]})

def Prog.exec : Prog Query Answer α → World Query Answer → α × World Query Answer
  | .done a, w => (a,w)
  | .recv n next, w => (next (w.take n).1 (w.take n).2.1).exec (w.take n).2.2
  | .send data next, w => (next (w.put data).1).exec (w.put data).2
  | .ask q next, w => (next (w.note q).1).exec (w.note q).2

def Act.heard : Act Query → List UInt8
  | .got _ data => data
  | _ => []

def Act.said : Act Query → List UInt8
  | .put data count => data.take count
  | _ => []

def Act.query : Act Query → Option Query
  | .asked q => some q
  | _ => none

def heard (trace : List (Act Query)) : List UInt8 := trace.flatMap Act.heard

def wire (trace : List (Act Query)) : List UInt8 := trace.flatMap Act.said

def asked (trace : List (Act Query)) : List Query := trace.filterMap Act.query

variable {p : Prog Query Answer α} {k : α → Prog Query Answer β} {w : World Query Answer}

theorem bind_pure (p : Prog Query Answer α) : p.bind .done = p := by
  induction p with
  | done a => rfl
  | recv n next ih => simp only [Prog.bind,ih]
  | send data next ih => simp only [Prog.bind,ih]
  | ask q next ih => simp only [Prog.bind,ih]

theorem bind_assoc (p : Prog Query Answer α) (k : α → Prog Query Answer β) (l : β → Prog Query Answer γ) :
    (p.bind k).bind l = p.bind fun a => (k a).bind l := by
  induction p with
  | done a => rfl
  | recv n next ih => simp only [Prog.bind,ih]
  | send data next ih => simp only [Prog.bind,ih]
  | ask q next ih => simp only [Prog.bind,ih]

instance : LawfulMonad (Prog Query Answer) := LawfulMonad.mk' _ bind_pure (fun _ _ => rfl) bind_assoc

@[simp] theorem exec_pure (a : α) : (pure a : Prog Query Answer α).exec w = (a,w) := rfl

@[simp] theorem exec_bind : (p >>= k).exec w = (k (p.exec w).1).exec (p.exec w).2 := by
  show (p.bind k).exec w = _
  induction p generalizing w with
  | done a => rfl
  | recv n next ih => exact ih _ _
  | send data next ih => exact ih _
  | ask q next ih => exact ih _

@[simp] theorem exec_recv (n : Nat) :
    (recv n : Prog Query Answer _).exec w = (((w.take n).1,(w.take n).2.1),(w.take n).2.2) := rfl

@[simp] theorem exec_send (data : List UInt8) : (send data : Prog Query Answer _).exec w = w.put data := rfl

@[simp] theorem exec_ask (q : Query) : (ask q : Prog Query Answer _).exec w = w.note q := rfl

theorem exec_recv_bind (k : Int × List UInt8 → Prog Query Answer β) :
    (recv n >>= k).exec w = (k ((w.take n).1,(w.take n).2.1)).exec (w.take n).2.2 := rfl

theorem exec_send_bind (k : Int → Prog Query Answer β) : (send data >>= k).exec w = (k (w.put data).1).exec (w.put data).2 := rfl

theorem exec_ask_bind (q : Query) (k : Answer q → Prog Query Answer β) :
    (ask q >>= k).exec w = (k (w.note q).1).exec (w.note q).2 := rfl

@[simp] theorem heard_append (a b : List (Act Query)) : heard (a++b) = heard a++heard b := List.flatMap_append

@[simp] theorem wire_append (a b : List (Act Query)) : wire (a++b) = wire a++wire b := List.flatMap_append

@[simp] theorem asked_append (a b : List (Act Query)) : asked (a++b) = asked a++asked b := List.filterMap_append

@[simp] theorem heard_nil : heard ([] : List (Act Query)) = [] := rfl

@[simp] theorem heard_got (n : Nat) (data : List UInt8) (acts : List (Act Query)) : heard (.got n data::acts) = data++heard acts := rfl

@[simp] theorem heard_put (data : List UInt8) (n : Nat) (acts : List (Act Query)) : heard (.put data n::acts) = heard acts := rfl

@[simp] theorem heard_asked (q : Query) (acts : List (Act Query)) : heard (.asked q::acts) = heard acts := rfl

@[simp] theorem asked_nil : asked ([] : List (Act Query)) = [] := rfl

@[simp] theorem asked_got (n : Nat) (data : List UInt8) (acts : List (Act Query)) : asked (.got n data::acts) = asked acts := rfl

@[simp] theorem asked_put (data : List UInt8) (n : Nat) (acts : List (Act Query)) : asked (.put data n::acts) = asked acts := rfl

@[simp] theorem asked_asked (q : Query) (acts : List (Act Query)) : asked (.asked q::acts) = q::asked acts := rfl

@[simp] theorem wire_nil : wire ([] : List (Act Query)) = [] := rfl

@[simp] theorem wire_got (n : Nat) (data : List UInt8) (acts : List (Act Query)) : wire (.got n data::acts) = wire acts := rfl

@[simp] theorem wire_put (data : List UInt8) (n : Nat) (acts : List (Act Query)) :
    wire (.put data n::acts) = data.take n++wire acts := rfl

@[simp] theorem wire_asked (q : Query) (acts : List (Act Query)) : wire (.asked q::acts) = wire acts := rfl

-- What a run leaves as it was, and what it only adds to.
structure Extends (w next : World Query Answer) (acts : List (Act Query)) : Prop where
  oracle : next.oracle = w.oracle
  trace : next.trace = w.trace++acts
  stream : w.stream = heard acts++next.stream

theorem extends_refl (w : World Query Answer) : Extends w w [] := ⟨rfl,(List.append_nil _).symm,rfl⟩

theorem extends_trans (one : Extends w middle a) (two : Extends middle next b) : Extends w next (a++b) :=
  ⟨two.oracle.trans one.oracle,by rw [two.trace,one.trace,List.append_assoc],
    by rw [one.stream,two.stream,heard_append,List.append_assoc]⟩

theorem count_le (cut : Cut) (n : Nat) : cut.count n ≤ n := by
  cases cut with
  | whole => exact Nat.le_refl n
  | stopped limit why => exact Nat.min_le_right limit n

theorem take_stream (w : World Query Answer) (n : Nat) : w.stream = (w.take n).2.1++(w.take n).2.2.stream :=
  (List.take_append_drop _ _).symm

theorem take_le (w : World Query Answer) (n : Nat) : (w.take n).2.1.length ≤ n :=
  Nat.le_trans (List.length_take_le _ _) (count_le _ _)

-- A result that says all says so because all has come.
theorem result_all {cut : Cut} (_ : count ≤ n) (all : cut.result count = n) : count = n := by
  cases cut with
  | whole => exact Int.ofNat_inj.mp all
  | stopped limit why =>
    simp only [Cut.result] at all
    split at all
    · rename_i nothing
      cases why <;> simp only [Stop.code] at all <;> omega
    · exact Int.ofNat_inj.mp all

theorem take_all (all : (w.take n).1 = n) : (w.take n).2.1.length = n := result_all (take_le w n) all

theorem take_whole (clear : w.recvs = []) (enough : n ≤ w.stream.length) :
    w.take n = ((n : Int),w.stream.take n,{w with stream:=w.stream.drop n,trace:=w.trace++[.got n (w.stream.take n)]}) := by
  have all : (w.stream.take n).length = n := List.length_take_of_le enough
  simp only [World.take,clear,List.headD_nil,Cut.count,Cut.result,all,List.tail_nil]

theorem put_whole (clear : w.sends = []) (data : List UInt8) :
    w.put data = ((data.length : Int),{w with trace:=w.trace++[.put data data.length]}) := by
  simp only [World.put,clear,List.headD_nil,Cut.count,Cut.result,List.tail_nil]

theorem exec_extends (p : Prog Query Answer α) (w : World Query Answer) : ∃ acts, Extends w (p.exec w).2 acts := by
  induction p generalizing w with
  | done a => exact ⟨[],extends_refl w⟩
  | recv n next ih =>
    obtain ⟨acts,later⟩ := ih (w.take n).1 (w.take n).2.1 (w.take n).2.2
    have first : Extends w (w.take n).2.2 [.got n (w.take n).2.1] :=
      ⟨rfl,rfl,by simpa [heard,Act.heard] using take_stream w n⟩
    exact ⟨_,extends_trans first later⟩
  | send data next ih =>
    obtain ⟨acts,later⟩ := ih (w.put data).1 (w.put data).2
    have first : Extends w (w.put data).2 [.put data ((w.sends.headD .whole).count data.length)] := ⟨rfl,rfl,rfl⟩
    exact ⟨_,extends_trans first later⟩
  | ask q next ih =>
    obtain ⟨acts,later⟩ := ih (w.note q).1 (w.note q).2
    have first : Extends w (w.note q).2 [.asked q] := ⟨rfl,rfl,rfl⟩
    exact ⟨_,extends_trans first later⟩

-- The same world behind what happened before.
def World.behind (w : World Query Answer) (acts : List (Act Query)) : World Query Answer := {w with trace:=acts++w.trace}

def World.core (w : World Query Answer) : World Query Answer := {w with trace:=[]}

theorem core_behind (w : World Query Answer) : w.core.behind w.trace = w := by
  simp [World.behind,World.core]

theorem behind_behind (w : World Query Answer) (a b : List (Act Query)) : (w.behind a).behind b = w.behind (b++a) := by
  simp [World.behind]

@[simp] theorem behind_stream (w : World Query Answer) (acts : List (Act Query)) : (w.behind acts).stream = w.stream := rfl

@[simp] theorem behind_trace (w : World Query Answer) (acts : List (Act Query)) : (w.behind acts).trace = acts++w.trace := rfl

@[simp] theorem core_trace (w : World Query Answer) : w.core.trace = [] := rfl

@[simp] theorem core_stream (w : World Query Answer) : w.core.stream = w.stream := rfl

-- What a program does next does not depend on the past.
theorem exec_behind (p : Prog Query Answer α) (w : World Query Answer) (acts : List (Act Query)) :
    p.exec (w.behind acts) = ((p.exec w).1,(p.exec w).2.behind acts) := by
  induction p generalizing w with
  | done a => rfl
  | recv n next ih =>
    have same : (w.behind acts).take n = ((w.take n).1,(w.take n).2.1,(w.take n).2.2.behind acts) := by
      simp [World.take,World.behind]
    simp only [Prog.exec,same,ih]
  | send data next ih =>
    have same : (w.behind acts).put data = ((w.put data).1,(w.put data).2.behind acts) := by
      simp [World.put,World.behind]
    simp only [Prog.exec,same,ih]
  | ask q next ih =>
    have same : (w.behind acts).note q = ((w.note q).1,(w.note q).2.behind acts) := by
      simp [World.note,World.behind]
    simp only [Prog.exec,same,ih]

theorem exec_sends (p : Prog Query Answer α) (clear : w.sends = []) : (p.exec w).2.sends = [] := by
  induction p generalizing w with
  | done a => exact clear
  | recv n next ih => exact ih _ _ clear
  | send data next ih => exact ih _ (by simp [World.put,clear])
  | ask q next ih => exact ih _ clear

-- A program that sends nothing.
def Prog.Mute : Prog Query Answer α → Prop
  | .done _ => True
  | .recv _ next => ∀ res data, (next res data).Mute
  | .send _ _ => False
  | .ask _ next => ∀ answer, (next answer).Mute

theorem mute_recv {k : Int × List UInt8 → Prog Query Answer β} (later : ∀ res data, (k (res,data)).Mute) :
    (recv n >>= k).Mute := later

theorem mute_ask {q : Query} {k : Answer q → Prog Query Answer β} (later : ∀ answer, (k answer).Mute) :
    (ask q >>= k).Mute := later

-- A program that sends nothing and asks only what it may.
def Prog.Inquires (allowed : Query → Prop) : Prog Query Answer α → Prop
  | .done _ => True
  | .recv _ next => ∀ res data, (next res data).Inquires allowed
  | .send _ _ => False
  | .ask q next => allowed q ∧ ∀ answer, (next answer).Inquires allowed

theorem inquires_bind {allowed : Query → Prop} {p : Prog Query Answer α} {k : α → Prog Query Answer β}
    (first : p.Inquires allowed) (later : ∀ a, (k a).Inquires allowed) : (p >>= k).Inquires allowed := by
  show (p.bind k).Inquires allowed
  induction p with
  | done a => exact later a
  | recv n next ih => exact fun res data => ih res data (first res data)
  | send data next ih => exact first.elim
  | ask q next ih => exact ⟨first.1,fun answer => ih answer (first.2 answer)⟩

theorem inquires_recv {allowed : Query → Prop} {k : Int × List UInt8 → Prog Query Answer β}
    (later : ∀ res data, (k (res,data)).Inquires allowed) : (recv n >>= k).Inquires allowed := later

theorem inquires_exec {allowed : Query → Prop} (inquires : p.Inquires allowed) (w : World Query Answer) :
    ∃ acts, Extends w (p.exec w).2 acts ∧ (∀ q ∈ asked acts, allowed q) ∧ (p.exec w).2.sends = w.sends ∧
      ∀ data n, .put data n ∉ acts := by
  induction p generalizing w with
  | done a => exact ⟨[],extends_refl w,fun _ inside => (by cases inside),rfl,fun _ _ => List.not_mem_nil⟩
  | recv n next ih =>
    obtain ⟨acts,later,may,sends,silent⟩ := ih _ _ (inquires _ _) (w.take n).2.2
    have first : Extends w (w.take n).2.2 [.got n (w.take n).2.1] :=
      ⟨rfl,rfl,by simpa [heard,Act.heard] using take_stream w n⟩
    exact ⟨_,extends_trans first later,may,sends,fun data n inside => silent data n (by simpa using inside)⟩
  | send data next ih => exact inquires.elim
  | ask q next ih =>
    obtain ⟨acts,later,may,sends,silent⟩ := ih _ (inquires.2 _) (w.note q).2
    have first : Extends w (w.note q).2 [.asked q] := ⟨rfl,rfl,rfl⟩
    refine ⟨_,extends_trans first later,?_,sends,fun data n inside => silent data n (by simpa using inside)⟩
    intro other inside
    rcases List.mem_cons.mp inside with rfl | inside
    · exact inquires.1
    · exact may other inside

theorem mute_wire (mute : p.Mute) : wire (p.exec w).2.trace = wire w.trace := by
  induction p generalizing w with
  | done a => rfl
  | recv n next ih =>
    have same : wire (w.take n).2.2.trace = wire w.trace := by simp [World.take,wire,Act.said]
    exact (ih _ _ (mute _ _)).trans same
  | send data next ih => exact mute.elim
  | ask q next ih =>
    have same : wire (w.note q).2.trace = wire w.trace := by simp [World.note,wire,Act.said]
    exact (ih _ (mute _)).trans same

end Psocks.Program
