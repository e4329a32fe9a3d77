import Mathlib.Data.List.Nodup
import Mathlib.Data.Tree.Basic
import Mathlib.Order.Lattice

namespace Psocks.SearchTree
variable {α : Type} {κ : Type} [LinearOrder κ]

inductive Side where
  | left
  | right
deriving DecidableEq, Repr

def Side.other : Side → Side
  | .left => .right
  | .right => .left

def inorder : BinaryTree α → List α
  | .nil => []
  | .node x l r => inorder l++x::inorder r

def first : BinaryTree α → Option α
  | .nil => none
  | .node x .nil _ => some x
  | .node _ l _ => first l

-- Where a search ends: at a node, or at the empty child reached along a path.
inductive Descent (α : Type) where
  | found (x : α)
  | slot (path : List Side)
deriving DecidableEq, Repr

def Descent.below (side : Side) : Descent α → Descent α
  | .found x => .found x
  | .slot path => .slot (side::path)

-- `go x` says which way to turn at the node `x`.
def descend (go : α → Ordering) : BinaryTree α → Descent α
  | .nil => .slot []
  | .node x l r =>
    match go x with
    | .lt => (descend go l).below .left
    | .gt => (descend go r).below .right
    | .eq => .found x

-- A leaf put at the end of the path; other paths change nothing.
def link : BinaryTree α → List Side → α → BinaryTree α
  | .nil, [], n => .node n .nil .nil
  | .node x l r, .left::path, n => .node x (link l path n) r
  | .node x l r, .right::path, n => .node x l (link r path n)
  | t, _, _ => t

def IsSlot : BinaryTree α → List Side → Prop
  | .nil, path => path = []
  | .node _ l _, .left::path => IsSlot l path
  | .node _ _ r, .right::path => IsSlot r path
  | .node .., [] => False

theorem slot_short {t : BinaryTree α} (slot : IsSlot t path) : path.length ≤ (inorder t).length := by
  induction t generalizing path with
  | nil =>
    cases slot
    exact Nat.zero_le _
  | node x l r left right =>
    rw [inorder,List.length_append,List.length_cons]
    cases path with
    | nil => exact slot.elim
    | cons d path =>
      rw [List.length_cons]
      cases d with
      | left =>
        have short := left slot
        omega
      | right =>
        have short := right slot
        omega

def Sorted (key : α → κ) (t : BinaryTree α) : Prop := (inorder t).Pairwise (key · < key ·)

-- The turns taken at each node agree with the order of the keys.
def Guides (key : α → κ) (target : κ) (go : α → Ordering) : Prop :=
  ∀ x, (go x = .lt → target < key x) ∧ (go x = .gt → key x < target) ∧ (go x = .eq → key x = target)

theorem sorted_node {key : α → κ} (sorted : Sorted key (.node x l r)) :
    Sorted key l ∧ Sorted key r ∧ (∀ y ∈ inorder l, key y < key x) ∧ ∀ y ∈ inorder r, key x < key y := by
  unfold Sorted inorder at sorted
  obtain ⟨left,rest,across⟩ := List.pairwise_append.mp sorted
  obtain ⟨above,right⟩ := List.pairwise_cons.mp rest
  exact ⟨left,right,fun y member => across y member x (by simp),above⟩

theorem first_head (t : BinaryTree α) : first t = (inorder t).head? := by
  induction t with
  | nil => rfl
  | node x l r left _ =>
    cases l with
    | nil => rfl
    | node y a b =>
      have filled : inorder (.node y a b) ≠ [] := by simp [inorder]
      rw [first,left]
      · exact (List.head?_append_of_ne_nil _ filled).symm
      · exact fun same => by cases same

theorem first_member (leftmost : first t = some x) : x ∈ inorder t := by
  rw [first_head] at leftmost
  exact List.mem_of_mem_head? leftmost

theorem descend_found (ended : descend go t = .found x) : x ∈ inorder t ∧ go x = .eq := by
  induction t with
  | nil => cases ended
  | node y l r left right =>
    simp only [descend] at ended
    cases turn : go y with
    | lt =>
      rw [turn] at ended
      cases inner : descend go l with
      | slot path => simp [inner,Descent.below] at ended
      | found z =>
        simp only [inner,Descent.below,Descent.found.injEq] at ended
        subst ended
        exact ⟨by simp [inorder,(left inner).1],(left inner).2⟩
    | gt =>
      rw [turn] at ended
      cases inner : descend go r with
      | slot path => simp [inner,Descent.below] at ended
      | found z =>
        simp only [inner,Descent.below,Descent.found.injEq] at ended
        subst ended
        exact ⟨by simp [inorder,(right inner).1],(right inner).2⟩
    | eq =>
      simp only [turn,Descent.found.injEq] at ended
      subst ended
      exact ⟨by simp [inorder],turn⟩

-- A search that fails ends where the target belongs.
theorem descend_slot {t : BinaryTree α} {key : α → κ} (sorted : Sorted key t) (guides : Guides key target go)
    (ended : descend go t = .slot path) :
    IsSlot t path ∧ ∃ before after, inorder t = before++after ∧
      (∀ n, inorder (link t path n) = before++n::after) ∧
      (∀ x ∈ before, key x < target) ∧ ∀ x ∈ after, target < key x := by
  induction t generalizing path with
  | nil =>
    cases ended
    exact ⟨rfl,[],[],rfl,fun _ => rfl,by simp,by simp⟩
  | node y l r left right =>
    obtain ⟨sortedLeft,sortedRight,low,high⟩ := sorted_node sorted
    simp only [descend] at ended
    cases turn : go y with
    | lt =>
      rw [turn] at ended
      cases inner : descend go l with
      | found z => simp [inner,Descent.below] at ended
      | slot deeper =>
        simp only [inner,Descent.below,Descent.slot.injEq] at ended
        subst ended
        obtain ⟨slot,before,after,split,linked,small,large⟩ := left sortedLeft inner
        have here := (guides y).1 turn
        refine ⟨slot,before,after++y::inorder r,by simp [inorder,split],?_,small,?_⟩
        · intro n
          simp [link,inorder,linked n]
        · intro x member
          rcases List.mem_append.mp member with old | rest
          · exact large x old
          · rcases List.mem_cons.mp rest with rfl | beyond
            · exact here
            · exact lt_trans here (high x beyond)
    | gt =>
      rw [turn] at ended
      cases inner : descend go r with
      | found z => simp [inner,Descent.below] at ended
      | slot deeper =>
        simp only [inner,Descent.below,Descent.slot.injEq] at ended
        subst ended
        obtain ⟨slot,before,after,split,linked,small,large⟩ := right sortedRight inner
        have here := (guides y).2.1 turn
        refine ⟨slot,inorder l++y::before,after,by simp [inorder,split],?_,?_,large⟩
        · intro n
          simp [link,inorder,linked n]
        · intro x member
          rcases List.mem_append.mp member with old | rest
          · exact lt_trans (low x old) here
          · rcases List.mem_cons.mp rest with rfl | beyond
            · exact here
            · exact small x beyond
    | eq => simp [turn] at ended

theorem descend_absent {t : BinaryTree α} {key : α → κ} (sorted : Sorted key t) (guides : Guides key target go)
    (ended : descend go t = .slot path) (member : x ∈ inorder t) : key x ≠ target := by
  obtain ⟨_,before,after,split,_,small,large⟩ := descend_slot sorted guides ended
  rw [split] at member
  rcases List.mem_append.mp member with low | high
  · exact ne_of_lt (small x low)
  · exact (ne_of_lt (large x high)).symm

theorem link_perm {t : BinaryTree α} {key : α → κ} (sorted : Sorted key t) (guides : Guides key target go)
    (ended : descend go t = .slot path) : (inorder (link t path n)).Perm (inorder t++[n]) := by
  obtain ⟨_,before,after,split,linked,_⟩ := descend_slot sorted guides ended
  rw [split,linked n]
  exact List.perm_middle.trans (List.perm_append_singleton _ _).symm

-- Linking keeps the order under any keys that agree on the nodes already there.
theorem link_sorted {t : BinaryTree α} {key key' : α → κ} (sorted : Sorted key t) (guides : Guides key target go)
    (ended : descend go t = .slot path) (same : ∀ x ∈ inorder t, key' x = key x) (at_ : key' n = target) :
    Sorted key' (link t path n) := by
  obtain ⟨_,before,after,split,linked,small,large⟩ := descend_slot sorted guides ended
  unfold Sorted at sorted ⊢
  rw [split] at sorted same
  rw [linked n]
  obtain ⟨low,high,across⟩ := List.pairwise_append.mp sorted
  have left : ∀ x ∈ before, key' x = key x := fun x member => same x (by simp [member])
  have right : ∀ x ∈ after, key' x = key x := fun x member => same x (by simp [member])
  refine List.pairwise_append.mpr ⟨?_,List.pairwise_cons.mpr ⟨?_,?_⟩,?_⟩
  · exact low.imp_of_mem fun mx my below => by rwa [left _ mx,left _ my]
  · exact fun x member => by rw [at_,right x member]; exact large x member
  · exact high.imp_of_mem fun mx my below => by rwa [right _ mx,right _ my]
  · intro x mx y my
    rcases List.mem_cons.mp my with rfl | my
    · rw [at_,left x mx]; exact small x mx
    · rw [left x mx,right y my]; exact across x mx y my

-- A balanced tree as its users see it: insertion at an empty child and erasure
-- may restructure, but not reorder.
structure Balanced (α : Type) [DecidableEq α] where
  T : Type
  shape : T → BinaryTree α
  empty : T
  insert : T → List Side → α → T
  erase : T → α → T
  shape_empty : shape empty = .nil
  insert_inorder : ∀ t path n, IsSlot (shape t) path → n ∉ inorder (shape t) →
    inorder (shape (insert t path n)) = inorder (link (shape t) path n)
  erase_inorder : ∀ t n, (inorder (shape t)).Nodup → n ∈ inorder (shape t) →
    inorder (shape (erase t n)) = (inorder (shape t)).erase n

def join : BinaryTree α → BinaryTree α → BinaryTree α
  | .nil, t => t
  | .node x l r, t => .node x l (join r t)

theorem join_inorder : inorder (join s t) = inorder s++inorder t := by
  induction s with
  | nil => rfl
  | node x l r _ right => simp [join,inorder,right]

variable [DecidableEq α]

def remove : BinaryTree α → α → BinaryTree α
  | .nil, _ => .nil
  | .node x l r, n =>
    if x = n then join l r
    else if n ∈ inorder l then .node x (remove l n) r
    else .node x l (remove r n)

theorem remove_inorder {t : BinaryTree α} (distinct : (inorder t).Nodup) :
    inorder (remove t n) = (inorder t).erase n := by
  induction t with
  | nil => rfl
  | node x l r left right =>
    obtain ⟨leftDistinct,rest,apart⟩ := List.nodup_append'.mp distinct
    have rightDistinct := (List.nodup_cons.mp rest).2
    simp only [remove]
    split
    · rename_i same
      subst same
      have fresh : x ∉ inorder l := fun inside => apart inside (by simp)
      rw [join_inorder,inorder,List.erase_append_right _ fresh,List.erase_cons_head]
    · rename_i other
      split
      · rename_i inside
        rw [inorder,inorder,left leftDistinct,List.erase_append_left _ inside]
      · rename_i outside
        rw [inorder,inorder,right rightDistinct,List.erase_append_right _ outside,
          List.erase_cons_tail (by simpa using other)]

def Balanced.plain : Balanced α where
  T := BinaryTree α
  shape := id
  empty := .nil
  insert := link
  erase := remove
  shape_empty := rfl
  insert_inorder _ _ _ _ _ := rfl
  erase_inorder _ _ distinct _ := remove_inorder distinct

end Psocks.SearchTree
