import Mathlib.Data.List.Nodup
import Mathlib.Logic.Function.Basic

namespace Psocks.Linked
variable {α : Type} {next prev : α → Option α}

-- Consecutive nodes of `xs` point at each other; `p` is what stands before the
-- first of them and `q` behind the last.
def Segment (next prev : α → Option α) : Option α → List α → Option α → Prop
  | _, [], _ => True
  | p, x::rest, q => prev x = p ∧ next x = rest.head?.or q ∧ Segment next prev (some x) rest q

structure Chain (next prev : α → Option α) (head tail : Option α) (xs : List α) : Prop where
  distinct : xs.Nodup
  head : head = xs.head?
  tail : tail = xs.getLast?
  links : Segment next prev none xs none

theorem segment_append : Segment next prev p (xs++ys) q ↔
    Segment next prev p xs (ys.head?.or q) ∧ Segment next prev (xs.getLast?.or p) ys q := by
  induction xs generalizing p with
  | nil => simp [Segment]
  | cons x rest ih =>
    have last : (rest.getLast?.or (some x)) = ((x::rest).getLast?.or p) := by
      cases rest with
      | nil => rfl
      | cons y rest =>
        rw [List.getLast?_cons_cons,List.getLast?_eq_some_getLast (List.cons_ne_nil y rest)]
        rfl
    have first : (rest++ys).head?.or q = rest.head?.or (ys.head?.or q) := by cases rest <;> rfl
    simp only [List.cons_append,Segment,ih,first,last,and_assoc]

theorem segment_frame (segment : Segment next prev p xs q)
    (same : ∀ x ∈ xs, next' x = next x ∧ prev' x = prev x) : Segment next' prev' p xs q := by
  induction xs generalizing p with
  | nil => trivial
  | cons x rest ih =>
    obtain ⟨before,after,tail⟩ := segment
    obtain ⟨sameNext,samePrev⟩ := same x (by simp)
    exact ⟨samePrev.trans before,sameNext.trans after,ih tail fun y member => same y (by simp [member])⟩

theorem chain_middle (chain : Chain next prev head tail (xs++n::ys)) :
    prev n = xs.getLast? ∧ next n = ys.head? := by
  have links := chain.links
  rw [segment_append] at links
  obtain ⟨_,before,after,_⟩ := links
  exact ⟨by simpa using before,by simpa using after⟩

variable [DecidableEq α]

-- A link field written through a pointer that may be NULL.
def link (field : α → Option α) : Option α → Option α → α → Option α
  | none, _ => field
  | some x, value => Function.update field x value

theorem link_other {node : Option α} (apart : node ≠ some x) : link field node value x = field x := by
  cases node with
  | none => rfl
  | some y => exact Function.update_of_ne (fun same => apart (congrArg some same.symm)) _ _

theorem segment_last (distinct : xs.Nodup) (segment : Segment next prev p xs q) :
    Segment (link next xs.getLast? r) prev p xs r := by
  induction xs generalizing p with
  | nil => trivial
  | cons x rest ih =>
    obtain ⟨before,after,tail⟩ := segment
    obtain ⟨fresh,others⟩ := List.nodup_cons.mp distinct
    cases rest with
    | nil => exact ⟨before,Function.update_self _ _ _,trivial⟩
    | cons y rest =>
      rw [List.getLast?_cons_cons]
      refine ⟨before,?_,ih others tail⟩
      rw [link_other]
      · exact after
      · intro same
        exact fresh (List.mem_of_getLast? same)

theorem segment_first (distinct : xs.Nodup) (segment : Segment next prev p xs q) :
    Segment next (link prev xs.head? r) r xs q := by
  cases xs with
  | nil => trivial
  | cons x rest =>
    obtain ⟨before,after,tail⟩ := segment
    obtain ⟨fresh,others⟩ := List.nodup_cons.mp distinct
    refine ⟨Function.update_self _ _ _,after,segment_frame tail ?_⟩
    intro y member
    refine ⟨rfl,link_other ?_⟩
    intro same
    cases Option.some.inj same
    exact fresh member

theorem chain_push (chain : Chain next prev head tail xs) (fresh : n ∉ xs) :
    Chain (link (Function.update next n none) tail (some n)) (Function.update prev n tail)
      (if tail = none then some n else head) (some n) (xs++[n]) := by
  obtain ⟨distinct,rfl,rfl,links⟩ := chain
  refine ⟨?_,?_,by simp,?_⟩
  · exact List.Nodup.append distinct (List.nodup_singleton n) (by simpa using fresh)
  · cases xs with
    | nil => rfl
    | cons x rest => simp
  · rw [segment_append]
    have old : Segment (Function.update next n none) (Function.update prev n xs.getLast?) none xs none :=
      segment_frame links fun x member =>
        have ne : x ≠ n := fun same => fresh (same ▸ member)
        ⟨Function.update_of_ne ne _ _,Function.update_of_ne ne _ _⟩
    refine ⟨segment_last distinct old,?_,?_,trivial⟩
    · simp
    · rw [link_other]
      · simp
      · intro same
        exact fresh (List.mem_of_getLast? same)

theorem chain_unlink (chain : Chain next prev head tail (xs++n::ys)) :
    Chain (link next (prev n) (next n)) (link prev (next n) (prev n))
      (if prev n = none then next n else head) (if next n = none then prev n else tail) (xs++ys) := by
  obtain ⟨before,after⟩ := chain_middle chain
  obtain ⟨distinct,rfl,rfl,links⟩ := chain
  rw [segment_append] at links
  obtain ⟨left,_,_,right⟩ := links
  obtain ⟨leftDistinct,rest,apart⟩ := List.nodup_append'.mp distinct
  obtain ⟨fresh,rightDistinct⟩ := List.nodup_cons.mp rest
  have disjoint : ∀ x ∈ xs, x ∉ ys := fun x first second => apart first (List.mem_cons_of_mem _ second)
  rw [before,after]
  refine ⟨?_,?_,?_,?_⟩
  · exact List.nodup_append'.mpr ⟨leftDistinct,rightDistinct,fun x first second => disjoint x first second⟩
  · cases xs with
    | nil => simp
    | cons x xs => simp
  · cases ys with
    | nil => simp
    | cons y ys => simp [List.getLast?_append]
  · rw [segment_append]
    constructor
    · refine segment_frame (segment_last leftDistinct left) ?_
      intro x member
      refine ⟨by simp,link_other ?_⟩
      intro same
      exact disjoint x member (List.mem_of_head? same)
    · refine segment_frame (segment_first rightDistinct right) ?_
      intro x member
      refine ⟨link_other ?_,by simp⟩
      intro same
      exact disjoint x (List.mem_of_getLast? same) member

theorem chain_front (chain : Chain next prev head tail xs) (fresh : n ∉ xs) :
    Chain (Function.update next n head) (link (Function.update prev n none) head (some n)) (some n) (if tail = none then some n else tail) (n::xs) := by
  obtain ⟨distinct,rfl,rfl,links⟩ := chain
  have apart : ∀ x ∈ xs, x ≠ n := fun x member same => fresh (same ▸ member)
  refine ⟨List.nodup_cons.mpr ⟨fresh,distinct⟩,rfl,?_,?_,?_,?_⟩
  · cases xs with
    | nil => rfl
    | cons x rest => simp [List.getLast?_cons_cons]
  · rw [link_other]
    · exact Function.update_self ..
    · intro same
      exact fresh (List.mem_of_head? same)
  · rw [Function.update_self]
    cases xs <;> rfl
  · have old : Segment (Function.update next n xs.head?) (Function.update prev n none) none xs none :=
      segment_frame links fun x member => ⟨Function.update_of_ne (apart x member) ..,Function.update_of_ne (apart x member) ..⟩
    exact segment_first distinct old

end Psocks.Linked
