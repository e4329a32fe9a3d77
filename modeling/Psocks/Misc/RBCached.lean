import Mathlib.Data.List.Sort
import Psocks.Lib.Runs
import Psocks.Misc.RBWalk

namespace Psocks.RBTree
open SearchTree RedBlack
variable {w : Nat}

structure HevRBTreeCached (w : Nat) where
  base : HevRBTree w
  leftmost : BitVec w

def hevRbtreeCachedFirst (self : HevRBTreeCached w) : BitVec w := self.leftmost

def hevRbtreeCachedInsertColor (fuel : Nat) (self : HevRBTreeCached w) (node : BitVec w) (leftmost : Bool) : Option (HevRBTreeCached w) := do
  let self := if leftmost then {self with leftmost:=node} else self
  let base ← hevRbtreeInsertColor fuel self.base node
  some {self with base:=base}

def hevRbtreeCachedReplace (self : HevRBTreeCached w) (victim new_ : BitVec w) : Option (HevRBTreeCached w) := do
  let base ← hevRbtreeReplace self.base victim new_
  if self.leftmost = victim then some ⟨base,new_⟩ else some ⟨base,self.leftmost⟩

def hevRbtreeCachedErase (fuel : Nat) (self : HevRBTreeCached w) (node : BitVec w) : Option (HevRBTreeCached w) := do
  let leftmost ← if node = self.leftmost then hevRbtreeNodeNext fuel self.base node else some self.leftmost
  let base ← hevRbtreeErase fuel self.base node
  some ⟨base,leftmost⟩

-- A caller's way down: to the left of the nodes that the new one goes before.
def descendCached (before : BitVec w → Bool) : Nat → HevRBTree w → BitVec w → Link w → Bool → Option (BitVec w × Link w × Bool)
  | 0, _, _, _, _ => none
  | fuel+1, self, parent, link, leftmost =>
    let this := self.read link
    if this = 0 then some (parent,link,leftmost)
    else if before this then descendCached before fuel self this (.child this .left) leftmost
    else descendCached before fuel self this (.child this .right) false

def insertSorted (before : BitVec w → Bool) (fuel : Nat) (self : HevRBTreeCached w) (node : BitVec w) : Option (HevRBTreeCached w) := do
  let (parent,link,leftmost) ← descendCached before fuel self.base 0 .root true
  let base ← hevRbtreeNodeLink self.base node parent link
  hevRbtreeCachedInsertColor fuel {self with base:=base} node leftmost

-- The nodes in order, with the first of them cached.
structure Keeps (m : HevRBTreeCached w) (nodes : List (BitVec w)) : Prop where
  tree : ∃ t, Holds m.base t ∧ IsRedBlack t ∧ t.list = nodes
  leftmost : m.leftmost = nodes.headD 0

variable {self : HevRBTreeCached w} {x : BitVec w} {before : BitVec w → Bool} {t : Colored (BitVec w)} {nodes : List (BitVec w)}

-- The slot found lies between the nodes that stay before the new one and the others; it is
-- the leftmost one when there are none of the former.
theorem descend_slot {base : HevRBTree w} (outer : List (Frame (BitVec w))) (focus : Focus base outer t) {early late : List (BitVec w)}
    (order : t.list = early++late) (stay : ∀ y ∈ early, before y = false) (pass : ∀ y ∈ late, before y = true) :
    ∃ path, IsSlot t.shape path ∧ path.length ≤ t.list.length ∧ (∀ x, inorder (link t.shape path x) = early++x::late) ∧
      ∀ fuel leftmost, t.list.length < fuel → descendCached before fuel base (top 0 outer) (linkOf outer) leftmost =
        (base.slot path (top 0 outer) (linkOf outer)).map fun place => (place.1,place.2,leftmost && early.isEmpty) := by
  induction t generalizing outer early late with
  | nil =>
    have nothing : early = [] ∧ late = [] := List.append_eq_nil_iff.mp order.symm
    obtain ⟨rfl,rfl⟩ := nothing
    refine ⟨[],rfl,Nat.le_refl _,fun x => rfl,fun fuel leftmost enough => ?_⟩
    obtain ⟨k,rfl⟩ := Nat.exists_eq_add_of_lt enough
    rw [descendCached,HevRBTree.slot,read_link outer focus.hangs]
    simp [addr_leaf]
  | node c l z r left right =>
    have filled : z ≠ 0 := focus.heap.1.filled
    have seen : base.read (linkOf outer) = z := read_link outer focus.hangs
    simp only [Colored.list] at order
    cases goes : before z with
    | true =>
      -- The node and what is right of it come after the new one.
      have late_ : z ∉ early := fun member => by simp [stay z member] at goes
      obtain ⟨middle,lower,rest⟩ : ∃ middle, l.list = early++middle ∧ late = middle++z::r.list := by
        rcases List.append_eq_append_iff.mp order with ⟨middle,first,second⟩ | ⟨middle,first,second⟩
        · cases middle with
          | nil => exact ⟨[],by simpa using first.symm,by simpa using second.symm⟩
          | cons y middle =>
            obtain ⟨rfl,_⟩ := List.cons.inj second
            exact absurd (by simp [first]) late_
        · exact ⟨middle,first,second⟩
      have inner := child_focus focus .left
      obtain ⟨path,slot,short,place,way⟩ := left _ inner lower stay fun y member => pass y (by simp [rest,member])
      refine ⟨.left::path,slot,?_,fun x => ?_,fun fuel leftmost enough => ?_⟩
      · simp only [List.length_cons,Colored.list,List.length_append]
        omega
      · simp [Colored.shape,link,inorder,place,shape_inorder,rest]
      · obtain ⟨k,rfl⟩ := Nat.exists_eq_add_of_lt enough
        rw [descendCached,HevRBTree.slot,seen,if_neg filled,if_neg filled,goes,if_pos rfl]
        exact way _ leftmost (by simp only [Colored.list,List.length_append,List.length_cons]; omega)
    | false =>
      have early_ : z ∉ late := fun member => by simp [pass z member] at goes
      obtain ⟨middle,upper,rest⟩ : ∃ middle, r.list = middle++late ∧ early = l.list++z::middle := by
        rcases List.append_eq_append_iff.mp order with ⟨middle,first,second⟩ | ⟨middle,first,second⟩
        · cases middle with
          | nil => exact absurd ((show z::r.list = late from second) ▸ List.mem_cons_self) early_
          | cons y middle =>
            obtain ⟨rfl,tail⟩ := List.cons.inj second
            exact ⟨middle,tail,first⟩
        · exact absurd (second ▸ List.mem_append_right _ List.mem_cons_self) early_
      have inner := child_focus focus .right
      obtain ⟨path,slot,short,place,way⟩ := right _ inner upper (fun y member => stay y (by simp [rest,member])) pass
      refine ⟨.right::path,slot,?_,fun x => ?_,fun fuel leftmost enough => ?_⟩
      · simp only [List.length_cons,Colored.list,List.length_append]
        omega
      · simp [Colored.shape,link,inorder,place,shape_inorder,rest]
      · obtain ⟨k,rfl⟩ := Nat.exists_eq_add_of_lt enough
        rw [descendCached,HevRBTree.slot,seen,if_neg filled,if_neg filled,goes,if_neg (by simp)]
        have result := way ((Colored.node c l z r).list.length+k) false (by simp only [Colored.list,List.length_append,List.length_cons]; omega)
        rw [show linkOf (⟨.right,c,z,(Colored.node c l z r).child Side.right.other⟩::outer) = Link.child z .right from rfl] at result
        have some_ : (l.list++z::middle).isEmpty = false := by simp
        simpa [top,rest,some_] using result

theorem insertSorted_keeps (before : BitVec w → Bool) (keeps : Keeps self nodes) {early late : List (BitVec w)} (order : nodes = early++late)
    (stay : ∀ y ∈ early, before y = false) (pass : ∀ y ∈ late, before y = true) (address : Address x) (fresh : x ∉ nodes) :
    ∃ next bound, (∀ fuel, bound < fuel → insertSorted before fuel self x = some next) ∧ Keeps next (early++x::late) := by
  obtain ⟨⟨t,holds,balanced,listed⟩,leftmost⟩ := keeps
  subst listed
  obtain ⟨path,slot,short,place,way⟩ := descend_slot [] ((holds_focus [] t).mp holds) order stay pass
  obtain ⟨base,t',ends,after,sound,moved⟩ := insertAt_holds holds balanced slot address fresh
  refine ⟨⟨base,if early.isEmpty then x else self.leftmost⟩,t.list.length,fun fuel enough => ?_,⟨t',after,sound,moved.trans (place x)⟩,?_⟩
  · have inserted := ends fuel (by omega)
    have found := way fuel true enough
    unfold HevRBTree.insertAt at inserted
    rw [insertSorted,show descendCached before fuel self.base 0 .root true = _ from found]
    cases here : self.base.slot path (top 0 []) (linkOf []) with
    | none =>
      rw [show self.base.slot path 0 .root = none from here] at inserted
      cases inserted
    | some spot =>
      rw [show self.base.slot path 0 .root = some spot from here] at inserted
      simp only [Option.bind_eq_bind,Option.bind_some,Option.map_some,Bool.true_and] at inserted ⊢
      cases linking : hevRbtreeNodeLink self.base x spot.1 spot.2 with
      | none =>
        rw [linking] at inserted
        cases inserted
      | some linked =>
        rw [linking,Option.bind_some] at inserted
        rw [Option.bind_some]
        cases front : early.isEmpty with
        | true => simp [hevRbtreeCachedInsertColor,inserted]
        | false => simp [hevRbtreeCachedInsertColor,inserted]
  · cases early with
    | nil => rfl
    | cons y early => simpa [order] using leftmost

theorem cachedErase_keeps (keeps : Keeps self nodes) (member : x ∈ nodes) :
    ∃ next bound, (∀ fuel, bound < fuel → hevRbtreeCachedErase fuel self x = some next) ∧ Keeps next (nodes.erase x) := by
  obtain ⟨⟨t,holds,balanced,listed⟩,leftmost⟩ := keeps
  subst listed
  obtain ⟨base,t',ends,after,sound,without⟩ := erase_holds holds balanced member
  refine ⟨⟨base,(t.list.erase x).headD 0⟩,2*t.list.length,fun fuel enough => ?_,⟨t',after,sound,without⟩,rfl⟩
  have erased := ends fuel (by omega)
  cases nodes : t.list with
  | nil => simp [nodes] at member
  | cons y rest =>
    rw [nodes,List.headD_cons] at leftmost
    by_cases first : x = y
    · subst first
      have next := neighbour_list holds (show t.toward .right = []++x::rest from nodes) fuel (by omega)
      simp [hevRbtreeCachedErase,leftmost,hevRbtreeNodeNext,next,erased]
    · rw [hevRbtreeCachedErase,leftmost,if_neg first,List.erase_cons_tail (by simpa using Ne.symm first)]
      simp [erased]

theorem cachedReplace_keeps {victim : BitVec w} {early late : List (BitVec w)} (keeps : Keeps self (early++victim::late)) (address : Address x)
    (fresh : x ∉ early++victim::late) :
    ∃ next, hevRbtreeCachedReplace self victim x = some next ∧ Keeps next (early++x::late) := by
  obtain ⟨⟨t,holds,balanced,listed⟩,leftmost⟩ := keeps
  obtain ⟨base,t',replaced,after,sound,order⟩ := replace_holds holds balanced listed address (listed ▸ fresh)
  have distinct := holds.distinct
  rw [listed,List.nodup_middle,List.nodup_cons,List.mem_append,not_or] at distinct
  rw [hevRbtreeCachedReplace,replaced,Option.bind_eq_bind,Option.bind_some]
  cases early with
  | nil =>
    rw [if_pos (show self.leftmost = victim from leftmost)]
    exact ⟨_,rfl,⟨t',after,sound,order⟩,rfl⟩
  | cons y early =>
    rw [if_neg]
    · exact ⟨_,rfl,⟨t',after,sound,order⟩,leftmost⟩
    · rw [show self.leftmost = y from leftmost]
      rintro rfl
      exact distinct.1.1 List.mem_cons_self

section Desk
variable {κ : Type} [LinearOrder κ]

-- What callers do with such a tree: a node comes in under a key, goes out, comes in anew
-- under another key, or gives its place to another node.
inductive Visit (w : Nat) (κ : Type) where
  | enter (x : BitVec w) (k : κ)
  | leave (x : BitVec w)
  | renew (x : BitVec w) (k : κ)
  | swap (victim x : BitVec w)

-- The tree with the keys that the nodes' structures hold.
structure Desk (w : Nat) (κ : Type) where
  tree : HevRBTreeCached w
  key : BitVec w → κ

def Desk.enter (fuel : Nat) (desk : Desk w κ) (x : BitVec w) (k : κ) : Option (Desk w κ) := do
  let key := Function.update desk.key x k
  let tree ← insertSorted (fun this => decide (key x < key this)) fuel desk.tree x
  some ⟨tree,key⟩

def Desk.leave (fuel : Nat) (desk : Desk w κ) (x : BitVec w) : Option (Desk w κ) := do
  let tree ← hevRbtreeCachedErase fuel desk.tree x
  some {desk with tree:=tree}

def Desk.step (fuel : Nat) (desk : Desk w κ) : Visit w κ → Option (Desk w κ)
  | .enter x k => desk.enter fuel x k
  | .leave x => desk.leave fuel x
  | .renew x k => do
    let desk ← desk.leave fuel x
    desk.enter fuel x k
  | .swap victim x => do
    let tree ← hevRbtreeCachedReplace desk.tree victim x
    some ⟨tree,Function.update desk.key x (desk.key victim)⟩

def Desk.empty (node : BitVec w → HevRBTreeNode w) (key : BitVec w → κ) : Desk w κ := ⟨⟨⟨0,node⟩,0⟩,key⟩

-- Who is present, under which key, and since when.
structure Guests (w : Nat) (κ : Type) where
  present : List (BitVec w)
  key : BitVec w → κ
  since : BitVec w → Nat
  clock : Nat

def Guests.arrive (g : Guests w κ) (x : BitVec w) (k : κ) : Guests w κ :=
  ⟨x::g.present,Function.update g.key x k,Function.update g.since x g.clock,g.clock+1⟩

def Guests.step (g : Guests w κ) : Visit w κ → Option (Guests w κ)
  | .enter x k => if x ≠ 0 ∧ x &&& 3 = 0 ∧ x ∉ g.present then some (g.arrive x k) else none
  | .leave x => if x ∈ g.present then some {g with present:=g.present.erase x} else none
  | .renew x k => if x ∈ g.present then some ({g with present:=g.present.erase x}.arrive x k) else none
  | .swap victim x =>
    if victim ∈ g.present ∧ x ≠ 0 ∧ x &&& 3 = 0 ∧ x ∉ g.present then
      some {g with present:=x::g.present.erase victim,key:=Function.update g.key x (g.key victim),since:=Function.update g.since x (g.since victim)}
    else none

def Guests.empty (key : BitVec w → κ) : Guests w κ := ⟨[],key,fun _ => 0,0⟩

-- A lesser key, or the same key and an earlier arrival.
def Guests.Before (g : Guests w κ) (a b : BitVec w) : Prop := g.key a < g.key b ∨ g.key a = g.key b ∧ g.since a < g.since b

structure Serves (desk : Desk w κ) (g : Guests w κ) (nodes : List (BitVec w)) : Prop where
  keeps : Keeps desk.tree nodes
  keys : desk.key = g.key
  present : nodes.Perm g.present
  ordered : nodes.Pairwise g.Before
  past : ∀ x ∈ nodes, g.since x < g.clock
  address : ∀ x ∈ nodes, Address x

variable {desk next : Desk w κ} {g g' : Guests w κ} {k : κ}

theorem keeps_nodup (keeps : Keeps self nodes) : nodes.Nodup := by
  obtain ⟨t,holds,_,listed⟩ := keeps.tree
  exact listed ▸ holds.distinct

theorem ordered_split (ordered : nodes.Pairwise g.Before) (k : κ) : ∃ early late, nodes = early++late ∧
    (∀ y ∈ early, g.key y ≤ k) ∧ ∀ y ∈ late, k < g.key y := by
  induction nodes with
  | nil => exact ⟨[],[],rfl,by simp,by simp⟩
  | cons z nodes ih =>
    rw [List.pairwise_cons] at ordered
    by_cases small : g.key z ≤ k
    · obtain ⟨early,late,rfl,low,high⟩ := ih ordered.2
      refine ⟨z::early,late,rfl,?_,high⟩
      simpa [small] using low
    · refine ⟨[],z::nodes,rfl,by simp,?_⟩
      have large := not_le.mp small
      intro y member
      rcases List.mem_cons.mp member with rfl | member
      · exact large
      · rcases ordered.1 y member with less | ⟨equal,_⟩
        · exact large.trans less
        · exact equal ▸ large

theorem enter_serves (serves : Serves desk g nodes) (address : Address x) (fresh : x ∉ nodes) (k : κ) :
    ∃ next nodes' bound, (∀ fuel, bound < fuel → desk.enter fuel x k = some next) ∧ Serves next (g.arrive x k) nodes' := by
  obtain ⟨keeps,keys,present,ordered,past,addresses⟩ := serves
  obtain ⟨early,late,order,low,high⟩ := ordered_split ordered k
  have apart : ∀ y ∈ nodes, y ≠ x := fun y member same => fresh (same ▸ member)
  have kept : ∀ y ∈ nodes, Function.update desk.key x k y = g.key y := by
    intro y member
    rw [Function.update_of_ne (apart y member),keys]
  obtain ⟨tree,bound,ends,after⟩ := insertSorted_keeps (fun this => decide (Function.update desk.key x k x < Function.update desk.key x k this))
    keeps order (fun y member => by
      rw [kept y (by simp [order,member]),Function.update_self,decide_eq_false_iff_not,not_lt]
      exact low y member) (fun y member => by
      rw [kept y (by simp [order,member]),Function.update_self,decide_eq_true_eq]
      exact high y member) address fresh
  subst order
  have moved : ∀ y ∈ early++late, (g.arrive x k).key y = g.key y ∧ (g.arrive x k).since y = g.since y := by
    intro y member
    exact ⟨Function.update_of_ne (apart y member) ..,Function.update_of_ne (apart y member) ..⟩
  have own : (g.arrive x k).key x = k ∧ (g.arrive x k).since x = g.clock := ⟨Function.update_self ..,Function.update_self ..⟩
  refine ⟨⟨tree,Function.update desk.key x k⟩,early++x::late,bound,fun fuel enough => ?_,after,?_,?_,?_,?_,?_⟩
  · rw [Desk.enter,ends fuel enough]
    rfl
  · change Function.update desk.key x k = Function.update g.key x k
    rw [keys]
  · exact List.perm_middle.trans (present.cons x)
  · have same : ∀ a ∈ early++late, ∀ b ∈ early++late, g.Before a b → (g.arrive x k).Before a b := by
      intro a ha b hb less
      rwa [Guests.Before,(moved a ha).1,(moved b hb).1,(moved a ha).2,(moved b hb).2]
    rw [List.pairwise_append] at ordered ⊢
    refine ⟨ordered.1.imp_of_mem fun ha hb less => ?_,List.pairwise_cons.mpr ⟨fun b hb => ?_,ordered.2.1.imp_of_mem fun ha hb less => ?_⟩,
      fun a ha b hb => ?_⟩
    · exact same _ (List.mem_append_left _ ha) _ (List.mem_append_left _ hb) less
    · left
      rw [own.1,(moved b (List.mem_append_right _ hb)).1]
      exact high b hb
    · exact same _ (List.mem_append_right _ ha) _ (List.mem_append_right _ hb) less
    · rcases List.mem_cons.mp hb with rfl | hb
      · rw [Guests.Before,own.1,own.2,(moved a (List.mem_append_left _ ha)).1,(moved a (List.mem_append_left _ ha)).2]
        rcases (low a ha).lt_or_eq with less | equal
        · exact .inl less
        · exact .inr ⟨equal,past a (List.mem_append_left _ ha)⟩
      · exact same _ (List.mem_append_left _ ha) _ (List.mem_append_right _ hb) (ordered.2.2 a ha b hb)
  · intro y member
    change _ < g.clock+1
    by_cases new_ : y = x
    · rw [new_,own.2]
      omega
    · have old : y ∈ early++late := by
        simp only [List.mem_append,List.mem_cons,new_,false_or] at member ⊢
        exact member
      rw [(moved y old).2]
      have := past y old
      omega
  · intro y member
    by_cases new_ : y = x
    · exact new_ ▸ address
    · apply addresses
      simp only [List.mem_append,List.mem_cons,new_,false_or] at member ⊢
      exact member

theorem leave_serves (serves : Serves desk g nodes) (member : x ∈ nodes) :
    ∃ next bound, (∀ fuel, bound < fuel → desk.leave fuel x = some next) ∧ Serves next {g with present:=g.present.erase x} (nodes.erase x) := by
  obtain ⟨keeps,keys,present,ordered,past,addresses⟩ := serves
  obtain ⟨tree,bound,ends,after⟩ := cachedErase_keeps keeps member
  refine ⟨{desk with tree:=tree},bound,fun fuel enough => ?_,after,keys,present.erase x,?_,?_,?_⟩
  · rw [Desk.leave,ends fuel enough]
    rfl
  · exact ordered.sublist List.erase_sublist
  · exact fun y inside => past y (List.mem_of_mem_erase inside)
  · exact fun y inside => addresses y (List.mem_of_mem_erase inside)

theorem swap_serves {victim : BitVec w} (serves : Serves desk g nodes) (member : victim ∈ nodes) (address : Address x) (fresh : x ∉ nodes) :
    ∃ tree nodes', hevRbtreeCachedReplace desk.tree victim x = some tree ∧
      Serves ⟨tree,Function.update desk.key x (desk.key victim)⟩
        {g with present:=x::g.present.erase victim,key:=Function.update g.key x (g.key victim),
                since:=Function.update g.since x (g.since victim)} nodes' := by
  obtain ⟨keeps,keys,present,ordered,past,addresses⟩ := serves
  obtain ⟨early,late,rfl⟩ := List.append_of_mem member
  obtain ⟨tree,replaced,after⟩ := cachedReplace_keeps keeps address fresh
  -- A node's key and arrival are those of the node whose place it has now.
  let was : BitVec w → BitVec w := fun y => if y = x then victim else y
  have keyed : ∀ y, Function.update g.key x (g.key victim) y = g.key (was y) := by
    intro y
    by_cases new_ : y = x
    · simp [was,new_]
    · simp [was,new_]
  have timed : ∀ y, Function.update g.since x (g.since victim) y = g.since (was y) := by
    intro y
    by_cases new_ : y = x
    · simp [was,new_]
    · simp [was,new_]
  have old : (early++x::late).map was = early++victim::late := by
    have same : ∀ y ∈ early++late, was y = y := by
      intro y member
      apply if_neg
      rintro rfl
      exact fresh (by simp only [List.mem_append,List.mem_cons] at member ⊢; tauto)
    rw [List.map_append,List.map_cons,show was x = victim from if_pos rfl,
      List.map_congr_left (g:=id) fun y member => same y (List.mem_append_left _ member),
      List.map_congr_left (g:=id) fun y member => same y (List.mem_append_right _ member),List.map_id,List.map_id]
  have place : ∀ y ∈ early++x::late, was y ∈ early++victim::late := fun y member => old ▸ List.mem_map_of_mem member
  refine ⟨tree,early++x::late,replaced,after,?_,?_,?_,?_,?_⟩
  · change Function.update desk.key x (desk.key victim) = Function.update g.key x (g.key victim)
    rw [keys]
  · have rest := (List.perm_middle.symm.trans present).erase victim
    rw [List.erase_cons_head] at rest
    exact List.perm_middle.trans (rest.cons x)
  · rw [← old,List.pairwise_map] at ordered
    apply ordered.imp
    intro a b less
    simp only [Guests.Before,keyed,timed]
    exact less
  · intro y inside
    change Function.update g.since x (g.since victim) y < g.clock
    rw [timed]
    exact past _ (place y inside)
  · intro y inside
    by_cases new_ : y = x
    · exact new_ ▸ address
    · have earlier := addresses _ (place y inside)
      rwa [show was y = y from if_neg new_] at earlier

theorem step_serves (serves : Serves desk g nodes) {visit : Visit w κ} (went : g.step visit = some g') :
    ∃ next nodes' bound, (∀ fuel, bound < fuel → desk.step fuel visit = some next) ∧ Serves next g' nodes' := by
  have here : ∀ y, y ∈ nodes ↔ y ∈ g.present := fun y => serves.present.mem_iff
  cases visit with
  | enter x k =>
    rw [Guests.step,Option.ite_none_right_eq_some,Option.some.injEq] at went
    obtain ⟨⟨filled,aligned,fresh⟩,rfl⟩ := went
    exact enter_serves serves ⟨filled,aligned⟩ (mt (here x).mp fresh) k
  | leave x =>
    rw [Guests.step,Option.ite_none_right_eq_some,Option.some.injEq] at went
    obtain ⟨member,rfl⟩ := went
    obtain ⟨next,bound,ends,after⟩ := leave_serves serves ((here x).mpr member)
    exact ⟨next,_,bound,ends,after⟩
  | renew x k =>
    rw [Guests.step,Option.ite_none_right_eq_some,Option.some.injEq] at went
    obtain ⟨member,rfl⟩ := went
    have inside := (here x).mpr member
    have distinct := keeps_nodup serves.keeps
    obtain ⟨middle,first,left,out⟩ := leave_serves serves inside
    obtain ⟨next,nodes',second,entered,after⟩ := enter_serves out (serves.address x inside) distinct.not_mem_erase k
    refine ⟨next,nodes',max first second,fun fuel enough => ?_,after⟩
    rw [Desk.step,left fuel (by omega),Option.bind_eq_bind,Option.bind_some]
    exact entered fuel (by omega)
  | swap victim x =>
    rw [Guests.step,Option.ite_none_right_eq_some,Option.some.injEq] at went
    obtain ⟨⟨member,filled,aligned,fresh⟩,rfl⟩ := went
    obtain ⟨tree,nodes',replaced,after⟩ := swap_serves serves ((here victim).mpr member) ⟨filled,aligned⟩ (mt (here x).mp fresh)
    refine ⟨_,nodes',0,fun fuel _ => ?_,after⟩
    rw [Desk.step,replaced]
    rfl

theorem run_serves (serves : Serves desk g nodes) {visits : List (Visit w κ)} (went : Runs.exec Guests.step g visits = some g') :
    ∃ next nodes' bound, (∀ fuel, bound < fuel → Runs.exec (Desk.step fuel) desk visits = some next) ∧ Serves next g' nodes' := by
  induction visits generalizing desk g nodes with
  | nil =>
    cases went
    exact ⟨desk,nodes,0,fun _ _ => rfl,serves⟩
  | cons visit visits ih =>
    obtain ⟨middle,first,rest⟩ := Runs.exec_cons went
    obtain ⟨desk',nodes',bound,stepped,served⟩ := step_serves serves first
    obtain ⟨next,nodes'',bound',ran,after⟩ := ih served rest
    refine ⟨next,nodes'',max bound bound',fun fuel enough => ?_,after⟩
    rw [Runs.exec,stepped fuel (by omega),Option.bind_some]
    exact ran fuel (by omega)

theorem empty_serves (node : BitVec w → HevRBTreeNode w) (key : BitVec w → κ) : Serves (.empty node key) (.empty key) [] :=
  ⟨⟨⟨.nil,⟨rfl,trivial,List.nodup_nil⟩,⟨0,.nil⟩,rfl⟩,rfl⟩,rfl,List.Perm.nil,List.Pairwise.nil,by simp,by simp⟩

-- Every sequence of visits is served in memory: no call reaches NULL or goes on for ever, the
-- walk lists who is present by key and, under one key, by arrival, and the cached node is the first of them.
theorem cached_tree_exact (node : BitVec w → HevRBTreeNode w) (key : BitVec w → κ) {visits : List (Visit w κ)}
    (went : Runs.exec Guests.step (.empty key) visits = some g) :
    ∃ next nodes bound, nodes.Perm g.present ∧ nodes.Pairwise g.Before ∧ next.key = g.key ∧ hevRbtreeCachedFirst next.tree = nodes.headD 0 ∧
      ∀ fuel, bound < fuel → Runs.exec (Desk.step fuel) (.empty node key) visits = some next ∧ walk fuel next.tree.base = some nodes := by
  obtain ⟨next,nodes,bound,ran,after⟩ := run_serves (empty_serves node key) went
  obtain ⟨t,holds,_,listed⟩ := after.keeps.tree
  refine ⟨next,nodes,max bound (2*t.list.length),after.present,after.ordered,after.keys,after.keeps.leftmost,fun fuel enough => ?_⟩
  exact ⟨ran fuel (by omega),listed ▸ walk_list holds fuel (by omega)⟩

def tied : List (Visit 64 Nat) := [.enter 8 5,.enter 16 5,.enter 24 3,.renew 8 5,.leave 24]

theorem tied_exact : ∃ (next : Desk 64 Nat) (nodes : List (BitVec 64)) (bound : Nat), nodes.Perm [8,16] ∧
    hevRbtreeCachedFirst next.tree = nodes.headD 0 ∧ ∀ fuel, bound < fuel →
      Runs.exec (Desk.step fuel) (.empty (fun _ => ⟨1,0,0⟩) fun _ => 0) tied = some next ∧ walk fuel next.tree.base = some nodes := by
  obtain ⟨next,nodes,bound,present,_,_,first,served⟩ := cached_tree_exact (fun _ => ⟨1,0,0⟩) (fun _ => 0)
    (show Runs.exec Guests.step (.empty fun _ => 0) tied = some _ from rfl)
  exact ⟨next,nodes,bound,present,first,served⟩

end Desk

end Psocks.RBTree
