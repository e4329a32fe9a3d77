import Psocks.Lib.Linked

namespace Psocks.Lists
open Linked

-- The list head together with the `next`/`prev` fields of every node that may
-- be on it; a node is named by its address.
structure HevList where
  head : Option Nat
  tail : Option Nat
  next : Nat → Option Nat
  prev : Nat → Option Nat

-- `hev_malloc0`: both fields of every node are NULL.
def HevList.empty : HevList := ⟨none,none,fun _ => none,fun _ => none⟩

def hevListFirst (self : HevList) : Option Nat := self.head

def hevListAddTail (self : HevList) (new_ : Nat) : HevList :=
  let prev := Function.update self.prev new_ self.tail
  let next := Function.update self.next new_ none
  match self.tail with
  | some tail => {self with tail:=some new_,next:=Function.update next tail (some new_),prev:=prev}
  | none => {self with head:=some new_,tail:=some new_,next:=next,prev:=prev}

def hevListDel (self : HevList) (node : Nat) : HevList :=
  let before := self.prev node
  let after := self.next node
  let unlinked := match before with
    | some p => {self with next:=Function.update self.next p after}
    | none => {self with head:=after}
  match after with
  | some n => {unlinked with prev:=Function.update self.prev n before}
  | none => {unlinked with tail:=before}

def Holds (self : HevList) (nodes : List Nat) : Prop :=
  Chain self.next self.prev self.head self.tail nodes

theorem empty_holds : Holds .empty [] := ⟨List.nodup_nil,rfl,rfl,trivial⟩

theorem holds_first (holds : Holds self nodes) : hevListFirst self = nodes.head? := holds.head

theorem add_tail_holds (holds : Holds self nodes) (fresh : new_ ∉ nodes) :
    Holds (hevListAddTail self new_) (nodes++[new_]) := by
  have pushed := chain_push holds fresh
  unfold Holds hevListAddTail
  cases tail : self.tail with
  | none => simpa [tail,link] using pushed
  | some last => simpa [tail,link] using pushed

-- The fields are read before either neighbour is written, as in the source a
-- node is never its own neighbour.
theorem del_holds (holds : Holds self nodes) (member : node ∈ nodes) :
    Holds (hevListDel self node) (nodes.erase node) := by
  obtain ⟨before,after,rfl⟩ := List.append_of_mem member
  have fresh : node ∉ before := by
    have distinct := holds.distinct
    rw [List.nodup_append'] at distinct
    exact fun inside => distinct.2.2 inside (by simp)
  have erased : (before++node::after).erase node = before++after := by
    rw [List.erase_append_right _ fresh,List.erase_cons_head]
  have unlinked := chain_unlink holds
  rw [erased]
  unfold Holds hevListDel
  cases p : self.prev node <;> cases n : self.next node <;> simpa [p,n,link] using unlinked

theorem del_first_holds (holds : Holds self (node::rest)) : Holds (hevListDel self node) rest := by
  simpa using del_holds holds (List.mem_cons_self (a:=node) (l:=rest))

end Psocks.Lists
