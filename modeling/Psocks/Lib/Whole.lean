import Psocks.Lib.Program

namespace Psocks.Program
variable {Query : Type} {Answer : Query → Type} {α β : Type}

-- A run of a program whose receives and sends are all complete, what it did on the way
-- and what it comes to.
inductive Does (oracle : Nat → (q : Query) → Answer q) : Nat → Prog Query Answer α → List (Act Query) → α → Prop where
  | done {turn : Nat} {a : α} : Does oracle turn (.done a) [] a
  | recv {turn n : Nat} {data : List UInt8} {acts : List (Act Query)} {a : α} {next : Int → List UInt8 → Prog Query Answer α} :
      data.length = n → Does oracle turn (next n data) acts a → Does oracle turn (.recv n next) (.got n data::acts) a
  | send {turn : Nat} {data : List UInt8} {acts : List (Act Query)} {a : α} {next : Int → Prog Query Answer α} :
      Does oracle turn (next data.length) acts a → Does oracle turn (.send data next) (.put data data.length::acts) a
  | ask {turn : Nat} {q : Query} {acts : List (Act Query)} {a : α} {next : Answer q → Prog Query Answer α} :
      Does oracle (turn+1) (next (oracle turn q)) acts a → Does oracle turn (.ask q next) (.asked q::acts) a

variable {oracle : Nat → (q : Query) → Answer q} {turn : Nat} {p : Prog Query Answer α} {k : α → Prog Query Answer β}
variable {acts more : List (Act Query)} {a : α} {b : β} {w : World Query Answer}

-- A world that cuts no call.
def still (oracle : Nat → (q : Query) → Answer q) (turn : Nat) (stream : List UInt8) (trace : List (Act Query)) :
    World Query Answer := ⟨stream,[],[],oracle,turn,trace⟩

theorem still_take (data rest : List UInt8) (size : data.length = n) :
    (still oracle turn (data++rest) acts).take n = ((n : Int),data,still oracle turn rest (acts++[.got n data])) := by
  subst size
  rw [take_whole rfl (by simp [still])]
  simp [still]

theorem still_put (stream data : List UInt8) :
    (still oracle turn stream acts).put data = ((data.length : Int),still oracle turn stream (acts++[.put data data.length])) :=
  put_whole rfl data

theorem still_note (stream : List UInt8) (q : Query) :
    (still oracle turn stream acts).note q = (oracle turn q,still oracle (turn+1) stream (acts++[.asked q])) := rfl

theorem does_bind (first : Does oracle turn p acts a) (second : Does oracle (turn+(asked acts).length) (k a) more b) :
    Does oracle turn (p >>= k) (acts++more) b := by
  show Does oracle turn (p.bind k) (acts++more) b
  induction first with
  | done => exact second
  | recv size _ ih => exact .recv size (ih second)
  | send _ ih => exact .send (ih second)
  | ask _ ih =>
    refine .ask (ih ?_)
    rwa [asked_asked,List.length_cons,Nat.add_comm (asked _).length,← Nat.add_assoc] at second

theorem does_recv {n : Nat} {data : List UInt8} {k : Int × List UInt8 → Prog Query Answer β} (size : data.length = n)
    (later : Does oracle turn (k (n,data)) acts b) : Does oracle turn (recv n >>= k) (.got n data::acts) b := .recv size later

theorem does_send {data : List UInt8} {k : Int → Prog Query Answer β} (later : Does oracle turn (k data.length) acts b) :
    Does oracle turn (send data >>= k) (.put data data.length::acts) b := .send later

-- A message that is sent, where every count above zero counts as success.
theorem does_write (oracle : Nat → (q : Query) → Answer q) (turn : Nat) {data : List UInt8} (some_ : 0 < data.length) :
    Does oracle turn (do
      let res ← send data
      pure (if res ≤ 0 then -1 else 0)) [.put data data.length] (0 : Int) := by
  refine does_send ?_
  rw [if_neg (by omega)]
  exact .done

theorem does_ask {q : Query} {k : Answer q → Prog Query Answer β} (later : Does oracle (turn+1) (k (oracle turn q)) acts b) :
    Does oracle turn (ask q >>= k) (.asked q::acts) b := .ask later

theorem does_exec (does : Does oracle turn p acts a) (rest : List UInt8) (past : List (Act Query)) :
    p.exec (still oracle turn (heard acts++rest) past) =
      (a,still oracle (turn+(asked acts).length) rest (past++acts)) := by
  induction does generalizing past with
  | done => simp [Prog.exec]
  | recv size _ ih => rw [heard_got,List.append_assoc,Prog.exec,still_take _ _ size,ih]; simp
  | send _ ih => rw [heard_put,Prog.exec,still_put,ih]; simp
  | ask _ ih => rw [heard_asked,Prog.exec,still_note,ih]; simp [Nat.add_assoc,Nat.add_comm 1]

-- A program that only asks, and only what it may.
def Prog.Asks (allowed : Query → Prop) : Prog Query Answer α → Prop
  | .done _ => True
  | .recv _ _ => False
  | .send _ _ => False
  | .ask q next => allowed q ∧ ∀ answer, (next answer).Asks allowed

theorem asks_bind {allowed : Query → Prop} {p : Prog Query Answer α} {k : α → Prog Query Answer β}
    (first : p.Asks allowed) (later : ∀ a, (k a).Asks allowed) : (p >>= k).Asks allowed := by
  show (p.bind k).Asks allowed
  induction p with
  | done a => exact later a
  | recv n next ih => exact first.elim
  | send data next ih => exact first.elim
  | ask q next ih => exact ⟨first.1,fun answer => ih answer (first.2 answer)⟩

theorem asks_ask {allowed : Query → Prop} {q : Query} {k : Answer q → Prog Query Answer β} (may : allowed q)
    (later : ∀ answer, (k answer).Asks allowed) : (ask q >>= k).Asks allowed := ⟨may,later⟩

theorem asks_inquires {allowed : Query → Prop} (asks : p.Asks allowed) : p.Inquires allowed := by
  induction p with
  | done a => trivial
  | recv n next ih => exact asks.elim
  | send data next ih => exact asks.elim
  | ask q next ih => exact ⟨asks.1,fun answer => ih answer (asks.2 answer)⟩

theorem asks_runs {allowed : Query → Prop} (asks : p.Asks allowed) (oracle : Nat → (q : Query) → Answer q) (turn : Nat) :
    ∃ acts a, Does oracle turn p acts a ∧ heard acts = [] ∧ wire acts = [] := by
  induction p generalizing turn with
  | done a => exact ⟨[],a,.done,rfl,rfl⟩
  | recv n next ih => exact asks.elim
  | send data next ih => exact asks.elim
  | ask q next ih =>
    obtain ⟨acts,a,does,hears,quiet⟩ := ih _ (asks.2 (oracle turn q)) (turn+1)
    exact ⟨.asked q::acts,a,.ask does,by rw [heard_asked,hears],by rw [wire_asked,quiet]⟩

-- It runs to its end whatever the answers are.
theorem asks_does {allowed : Query → Prop} (asks : p.Asks allowed) (oracle : Nat → (q : Query) → Answer q) (turn : Nat)
    (past : List (Act Query)) : ∃ acts, Does oracle turn p acts (p.exec (still oracle turn [] past)).1 ∧
      (p.exec (still oracle turn [] past)).2.trace = past++acts ∧ heard acts = [] ∧ wire acts = [] := by
  obtain ⟨acts,a,does,hears,quiet⟩ := asks_runs asks oracle turn
  have ran := does_exec does [] past
  rw [hears,List.append_nil] at ran
  rw [ran]
  exact ⟨acts,does,rfl,hears,quiet⟩

-- A program that only receives, and gives up at a receive that is not complete.
def Prog.Strict (fail : α) : Prog Query Answer α → Prop
  | .done _ => True
  | .recv n next => (∀ res data, res ≠ (n : Int) → next res data = .done fail) ∧ (n = 0 → next 0 [] = .done fail) ∧
      ∀ data, (next n data).Strict fail
  | .send _ _ => False
  | .ask _ _ => False

theorem strict_recv {n : Nat} {fail : β} {k : Int × List UInt8 → Prog Query Answer β}
    (gives : ∀ res data, res ≠ (n : Int) → k (res,data) = .done fail) (empty : n = 0 → k (0,[]) = .done fail)
    (steady : ∀ data, (k (n,data)).Strict fail) : (recv n >>= k).Strict fail := ⟨gives,empty,steady⟩

def Act.Received : Act Query → Prop
  | .got _ _ => True
  | _ => False

theorem strict_listens {fail : α} (strict : p.Strict fail) (w : World Query Answer) :
    ∃ acts, Extends w (p.exec w).2 acts ∧ (∀ act ∈ acts, act.Received) ∧ (p.exec w).2.sends = w.sends ∧
      (p.exec w).2.turn = w.turn := by
  induction p generalizing w with
  | done a => exact ⟨[],extends_refl w,fun _ inside => (by cases inside),rfl,rfl⟩
  | recv n next ih =>
    have first : Extends w (w.take n).2.2 [.got n (w.take n).2.1] :=
      ⟨rfl,rfl,by simpa using take_stream w n⟩
    have steady : (next (w.take n).1 (w.take n).2.1).Strict fail := by
      by_cases all : (w.take n).1 = n
      · rw [all]
        exact strict.2.2 _
      · rw [strict.1 _ _ all]
        trivial
    obtain ⟨acts,later,received,sends,turn⟩ := ih _ _ steady (w.take n).2.2
    refine ⟨_,extends_trans first later,?_,sends,turn⟩
    intro act inside
    rcases List.mem_cons.mp inside with rfl | inside
    · trivial
    · exact received act inside
  | send _ _ _ => exact strict.elim
  | ask _ _ _ => exact strict.elim

theorem take_full (all : (w.take n).2.1.length = n) (some_ : 0 < n) : (w.take n).1 = n := by
  show (w.recvs.headD .whole).result (w.take n).2.1.length = n
  rw [all]
  cases w.recvs.headD .whole with
  | whole => rfl
  | stopped limit why => exact if_neg (by omega)

-- However its calls are cut: once it has heard what a complete run hears, it is that run.
theorem strict_does {fail : α} (strict : p.Strict fail) (does : Does oracle turn p acts a) (w : World Query Answer)
    (told : (p.exec w).2.trace = w.trace++later) (front : heard later = heard acts++rest) : (p.exec w).1 = a := by
  induction does generalizing w later with
  | done => rfl
  | send _ _ => exact strict.elim
  | ask _ _ => exact strict.elim
  | @recv turn n data acts a next size does ih =>
    obtain ⟨gives,empty,steady⟩ := strict
    obtain ⟨after,extends_⟩ := exec_extends (next (w.take n).1 (w.take n).2.1) (w.take n).2.2
    have split : later = .got n (w.take n).2.1::after := by
      have all := extends_.trace
      rw [show (w.take n).2.2.trace = w.trace++[.got n (w.take n).2.1] from rfl,List.append_assoc] at all
      exact List.append_cancel_left (told.symm.trans all)
    rw [split,heard_got,heard_got,List.append_assoc] at front
    by_cases all : (w.take n).1 = n
    · obtain ⟨same,front⟩ := List.append_inj front ((take_all all).trans size.symm)
      show ((next (w.take n).1 (w.take n).2.1).exec (w.take n).2.2).1 = a
      rw [all,same] at extends_ ⊢
      exact ih (steady data) (w.take n).2.2 extends_.trace front
    · have over_ := gives (w.take n).1 (w.take n).2.1 all
      have last : after = [] := by
        rw [over_] at extends_
        exact List.append_right_eq_self.mp extends_.trace.symm
      subst last
      have failed : (Prog.exec (.recv n next) w).1 = fail := by
        rw [Prog.exec,over_]
        rfl
      -- What came is as long as what was asked for: nothing was asked for.
      have bound := take_le w n
      have long := congrArg List.length front
      simp only [heard_nil,List.append_nil,List.length_append] at long
      have zero : n = 0 := by
        by_contra some_
        exact all (take_full (by omega) (by omega))
      subst zero
      have quiet : data = [] := List.eq_nil_of_length_eq_zero size
      subst quiet
      rw [failed]
      have ended : next ((0 : Nat) : Int) [] = .done fail := empty rfl
      rw [ended] at does
      cases does
      rfl

end Psocks.Program
