import Mathlib.Data.List.Perm.Basic
import Mathlib.Data.List.Range

namespace Psocks.Descriptors

-- A program opens a descriptor, calls something on one, or without any; it adds one to
-- the set that its task polls, takes it out again, and closes it.
inductive Call (Op : Type) where
  | socket
  | on (fd : Int) (op : Op)
  | aside (op : Op)
  | add (fd : Int)
  | mod (fd : Int)
  | del (fd : Int)
  | close (fd : Int)

abbrev Call.Answer {Op : Type} (Answer : Op → Type) : Call Op → Type
  | .on _ op | .aside op => Answer op
  | _ => Int

inductive Prog (Op : Type) (Answer : Op → Type) (α : Type) where
  | done (a : α)
  | call (c : Call Op) (next : c.Answer Answer → Prog Op Answer α)

variable {Op : Type} {Answer : Op → Type} {α β : Type}

def Prog.bind : Prog Op Answer α → (α → Prog Op Answer β) → Prog Op Answer β
  | .done a, k => k a
  | .call c next, k => .call c fun answer => (next answer).bind k

instance : Monad (Prog Op Answer) where
  pure := .done
  bind := .bind

def call (c : Call Op) : Prog Op Answer (c.Answer Answer) := .call c .done

-- What the system answers at each turn. A new descriptor is none that is open.
structure Kernel (Op : Type) (Answer : Op → Type) where
  socket : Nat → List Int → Option Int
  fresh : ∀ turn fds fd, socket turn fds = some fd → 0 ≤ fd ∧ fd ∉ fds
  answer : Nat → (op : Op) → Answer op
  status : Nat → Int

-- The open descriptors by the order they were opened in, those that are polled, and the
-- ones that have been closed.
structure Table where
  files : List (Int×Nat)
  polled : List Int
  serial : Nat
  closed : List Nat

def Table.fds (t : Table) : List Int := t.files.map Prod.fst

def Table.opened (t : Table) (fd : Int) : Table := {t with files:=(fd,t.serial)::t.files,serial:=t.serial+1}

def Table.watched (t : Table) (fd status : Int) : Table := if 0 ≤ status then {t with polled:=fd::t.polled} else t

def Table.unwatched (t : Table) (fd : Int) : Table := {t with polled:=t.polled.filter (· ≠ fd)}

def Table.shut (t : Table) (fd : Int) : Table :=
  {t with files:=t.files.filter fun file => file.1 ≠ fd,closed:=t.closed++(t.files.filter fun file => file.1 = fd).map Prod.snd}

variable {k : Kernel Op Answer} {t t' : Table} {fds : List Int} {fd : Int} {p : Prog Op Answer α} {post : α → Table → Prop}

-- A call on a descriptor that is not open has no outcome, nor has closing one that is
-- polled.
def Table.step (k : Kernel Op Answer) (turn : Nat) (t : Table) : (c : Call Op) → Option (c.Answer Answer×Table)
  | .socket =>
    match k.socket turn t.fds with
    | some fd => some (fd,t.opened fd)
    | none => some ((-1 : Int),t)
  | .on fd op => if fd ∈ t.fds then some (k.answer turn op,t) else none
  | .aside op => some (k.answer turn op,t)
  | .add fd => if fd ∈ t.fds then some (k.status turn,t.watched fd (k.status turn)) else none
  | .mod fd => if fd ∈ t.fds then some (k.status turn,t.watched fd (k.status turn)) else none
  | .del fd => if fd ∈ t.fds then some (k.status turn,t.unwatched fd) else none
  | .close fd => if fd ∈ t.fds ∧ fd ∉ t.polled then some (k.status turn,t.shut fd) else none

def Prog.exec (k : Kernel Op Answer) : Prog Op Answer α → Nat → Table → Option (α×Nat×Table)
  | .done a, turn, t => some (a,turn,t)
  | .call c next, turn, t => (t.step k turn c).bind fun r => (next r.1).exec k (turn+1) r.2

-- These descriptors are open and no others, and each that has been closed was closed once.
structure Table.Holds (t : Table) (fds : List Int) : Prop where
  exact : t.fds.Perm fds
  distinct : fds.Nodup
  polled : ∀ fd ∈ t.polled, fd ∈ fds
  ledger : (t.closed++t.files.map Prod.snd).Perm (List.range t.serial)

-- Nothing is open, and all that was ever opened has been closed once.
structure Table.Settled (t : Table) : Prop where
  files : t.files = []
  polled : t.polled = []
  closed : t.closed.Perm (List.range t.serial)

theorem Table.Holds.settled (holds : t.Holds []) : t.Settled := by
  have files : t.files = [] := List.map_eq_nil_iff.mp holds.exact.eq_nil
  have ledger := holds.ledger
  rw [files,List.map_nil,List.append_nil] at ledger
  exact ⟨files,List.eq_nil_iff_forall_not_mem.mpr fun fd member => List.not_mem_nil (holds.polled fd member),ledger⟩

theorem Table.Holds.perm (holds : t.Holds fds) (same : fds.Perm fds') : t.Holds fds' :=
  ⟨holds.exact.trans same,same.nodup_iff.mp holds.distinct,fun fd member => same.mem_iff.mp (holds.polled fd member),holds.ledger⟩

theorem Table.Holds.mem (holds : t.Holds fds) : fd ∈ t.fds ↔ fd ∈ fds := holds.exact.mem_iff

theorem Table.Holds.opened (holds : t.Holds fds) (new : fd ∉ t.fds) : (t.opened fd).Holds (fd::fds) := by
  refine ⟨holds.exact.cons fd,List.nodup_cons.mpr ⟨fun member => new (holds.mem.mpr member),holds.distinct⟩,?_,?_⟩
  · exact fun other member => List.mem_cons_of_mem fd (holds.polled other member)
  · show (t.closed++t.serial::t.files.map Prod.snd).Perm (List.range (t.serial+1))
    rw [List.range_succ]
    exact List.perm_middle.trans ((holds.ledger.cons t.serial).trans (List.perm_append_singleton _ _).symm)

theorem Table.Holds.watched (holds : t.Holds fds) (member : fd ∈ fds) (status : Int) : (t.watched fd status).Holds fds := by
  unfold Table.watched
  split
  · refine ⟨holds.exact,holds.distinct,?_,holds.ledger⟩
    intro other polled
    rcases List.mem_cons.mp polled with rfl | polled
    · exact member
    · exact holds.polled other polled
  · exact holds

theorem Table.Holds.unwatched (holds : t.Holds fds) (fd : Int) : (t.unwatched fd).Holds fds ∧ fd ∉ (t.unwatched fd).polled := by
  refine ⟨⟨holds.exact,holds.distinct,fun other member => holds.polled other (List.mem_of_mem_filter member),holds.ledger⟩,?_⟩
  simp [Table.unwatched]

theorem Table.Holds.shut (holds : t.Holds (fd::fds)) (idle : fd ∉ t.polled) : (t.shut fd).Holds fds := by
  obtain ⟨out,distinct⟩ := List.nodup_cons.mp holds.distinct
  refine ⟨?_,distinct,?_,?_⟩
  · have kept : (t.shut fd).fds = t.fds.filter (· ≠ fd) := by simp [Table.shut,Table.fds,List.filter_map,Function.comp_def]
    have rest : (fd::fds).filter (· ≠ fd) = fds := by
      rw [List.filter_cons_of_neg (by simp)]
      exact List.filter_eq_self.mpr fun other member => by simpa using fun same : other = fd => out (same ▸ member)
    rw [kept,← rest]
    exact holds.exact.filter _
  · intro other member
    have different : other ≠ fd := fun same => idle (same ▸ member)
    exact (List.mem_cons.mp (holds.polled other member)).resolve_left different
  · have split : ((t.files.filter fun file => file.1 = fd)++t.files.filter fun file => file.1 ≠ fd).Perm t.files := by
      simpa using List.filter_append_perm (fun file : Int×Nat => decide (file.1 = fd)) t.files
    have serials := (split.map Prod.snd).append_left t.closed
    rw [List.map_append,← List.append_assoc] at serials
    exact serials.trans holds.ledger

-- Whatever the system answers, the program makes all its calls and ends as `post` has it.
def Safe (k : Kernel Op Answer) (p : Prog Op Answer α) (t : Table) (post : α → Table → Prop) : Prop :=
  ∀ turn, ∃ a turn' t', p.exec k turn t = some (a,turn',t') ∧ post a t'

theorem safe_pure {a : α} (holds : post a t) : Safe k (pure a) t post := fun turn => ⟨a,turn,t,rfl,holds⟩

theorem bind_assoc {γ : Type} (p : Prog Op Answer α) (f : α → Prog Op Answer β) (g : β → Prog Op Answer γ) :
    (p >>= f) >>= g = p >>= fun a => f a >>= g := by
  show (p.bind f).bind g = p.bind fun a => (f a).bind g
  induction p with
  | done a => rfl
  | call c next ih => simp only [Prog.bind,ih]

theorem exec_bind (p : Prog Op Answer α) (f : α → Prog Op Answer β) (turn : Nat) (t : Table) :
    (p >>= f).exec k turn t = (p.exec k turn t).bind fun r => (f r.1).exec k r.2.1 r.2.2 := by
  show (p.bind f).exec k turn t = _
  induction p generalizing turn t with
  | done a => rfl
  | call c next ih =>
    rw [Prog.bind,Prog.exec,Prog.exec,Option.bind_assoc]
    exact congrArg _ (funext fun r => ih _ _ _)

theorem safe_bind {f : α → Prog Op Answer β} {last : β → Table → Prop} (first : Safe k p t post)
    (then_ : ∀ a t', post a t' → Safe k (f a) t' last) : Safe k (p >>= f) t last := by
  intro turn
  obtain ⟨a,turn',t',went,holds⟩ := first turn
  obtain ⟨b,later,t'',ended,kept⟩ := then_ a t' holds turn'
  exact ⟨b,later,t'',by rw [exec_bind,went]; exact ended,kept⟩

theorem safe_weaken {last : α → Table → Prop} (safe : Safe k p t post) (weaker : ∀ a t', post a t' → last a t') : Safe k p t last := by
  intro turn
  obtain ⟨a,turn',t',went,holds⟩ := safe turn
  exact ⟨a,turn',t',went,weaker a t' holds⟩

theorem safe_call {c : Call Op} {post : c.Answer Answer → Table → Prop} (steps : ∀ turn, ∃ r, t.step k turn c = some r ∧ post r.1 r.2) :
    Safe k (call c) t post := by
  intro turn
  obtain ⟨r,took,holds⟩ := steps turn
  refine ⟨r.1,turn+1,r.2,?_,holds⟩
  rw [call,Prog.exec,took]
  rfl

theorem safe_socket (holds : t.Holds fds) : Safe k (call .socket) t fun fd t' =>
    fd < 0 ∧ t'.Holds fds ∨ 0 ≤ fd ∧ t'.Holds (fd::fds) ∧ fd ∉ t'.polled := by
  apply safe_call
  intro turn
  cases got : k.socket turn t.fds with
  | none => exact ⟨((-1 : Int),t),by simp [Table.step,got],.inl ⟨(by decide : (-1 : Int) < 0),holds⟩⟩
  | some fd =>
    obtain ⟨valid,new⟩ := k.fresh turn t.fds fd got
    have idle : fd ∉ t.polled := fun member => new (holds.mem.mpr (holds.polled fd member))
    exact ⟨(fd,t.opened fd),by simp [Table.step,got],.inr ⟨valid,holds.opened new,idle⟩⟩

theorem safe_on (holds : t.Holds fds) (member : fd ∈ fds) (op : Op) : Safe k (call (.on fd op)) t fun _ t' => t' = t :=
  safe_call fun turn => ⟨(k.answer turn op,t),if_pos (holds.mem.mpr member),rfl⟩

theorem safe_aside (op : Op) : Safe k (call (.aside op)) t fun _ t' => t' = t := safe_call fun turn => ⟨(k.answer turn op,t),rfl,rfl⟩

theorem safe_add (holds : t.Holds fds) (member : fd ∈ fds) : Safe k (call (.add fd)) t fun _ t' => t'.Holds fds :=
  safe_call fun turn => ⟨(k.status turn,t.watched fd (k.status turn)),if_pos (holds.mem.mpr member),holds.watched member _⟩

theorem safe_mod (holds : t.Holds fds) (member : fd ∈ fds) : Safe k (call (.mod fd)) t fun _ t' => t'.Holds fds :=
  safe_call fun turn => ⟨(k.status turn,t.watched fd (k.status turn)),if_pos (holds.mem.mpr member),holds.watched member _⟩

theorem safe_close (holds : t.Holds (fd::fds)) (idle : fd ∉ t.polled) : Safe k (call (.close fd)) t fun _ t' => t'.Holds fds :=
  safe_call fun turn => ⟨(k.status turn,t.shut fd),if_pos ⟨holds.mem.mpr List.mem_cons_self,idle⟩,holds.shut idle⟩

-- A descriptor leaves the polled set and is closed.
def release (fd : Int) : Prog Op Answer Unit := do
  let _ ← call (.del fd)
  let _ ← call (.close fd)
  pure ()

theorem safe_release (holds : t.Holds (fd::fds)) : Safe k (release fd) t fun _ t' => t'.Holds fds := by
  have removed : Safe k (call (.del fd)) t fun _ t' => t'.Holds (fd::fds) ∧ fd ∉ t'.polled :=
    safe_call fun turn => ⟨(k.status turn,t.unwatched fd),if_pos (holds.mem.mpr List.mem_cons_self),holds.unwatched fd⟩
  refine safe_bind removed fun _ t' ⟨kept,idle⟩ => ?_
  exact safe_bind (safe_close kept idle) fun _ t'' rest => safe_pure rest

-- As many calls as come, on any of these descriptors.
def calls (fds : List Int) (op : Op) : List Nat → Prog Op Answer Unit
  | [] => pure ()
  | i::script => do
    match fds[i]? with
    | some fd =>
      let _ ← call (.on fd op)
      calls fds op script
    | none => calls fds op script

theorem safe_calls {some_ : List Int} (holds : t.Holds fds) (within : ∀ fd ∈ some_, fd ∈ fds) (op : Op) (script : List Nat) :
    Safe k (calls some_ op script) t fun _ t' => t' = t := by
  induction script with
  | nil => exact safe_pure rfl
  | cons i script ih =>
    rw [calls]
    cases found : some_[i]? with
    | none => exact ih
    | some fd =>
      refine safe_bind (safe_on holds (within fd (List.mem_of_getElem? found)) op) fun _ t' same => ?_
      rw [same]
      exact ih

end Psocks.Descriptors
