import Psocks.Lib.TreeWalk
import Psocks.Misc.RBReached

namespace Psocks.RBTree
open SearchTree RedBlack Apart
variable {w : Nat}

def hevRbtreeNodeEmpty (self : HevRBTree w) (node : BitVec w) : Option Bool :=
  (self.load node).map fun n => n.parentColor = node

-- Down as far as there is a child on the side `d`.
def endBelow (d : Side) : Nat → HevRBTree w → BitVec w → Option (BitVec w)
  | 0, _, _ => none
  | fuel+1, self, node => do
    let n ← self.load node
    if n.child d = 0 then some node else endBelow d fuel self (n.child d)

-- Up as long as the node is its parent's child on the side `d`; the parent, or NULL.
def turnAbove (d : Side) : Nat → HevRBTree w → BitVec w → Option (BitVec w)
  | 0, _, _ => none
  | fuel+1, self, node => do
    let n ← self.load node
    let parent := hevRbtreeNodeParent n
    if parent = 0 then some 0
    else do
      let p ← self.load parent
      if node = p.child d then turnAbove d fuel self parent else some parent

def nodeNeighbour (d : Side) (fuel : Nat) (self : HevRBTree w) (node : BitVec w) : Option (BitVec w) := do
  let empty ← hevRbtreeNodeEmpty self node
  if empty then some 0
  else
    let n ← self.load node
    if n.child d ≠ 0 then endBelow d.other fuel self (n.child d)
    else turnAbove d fuel self node

def hevRbtreeNodePrev (fuel : Nat) (self : HevRBTree w) (node : BitVec w) : Option (BitVec w) := nodeNeighbour .left fuel self node

def hevRbtreeNodeNext (fuel : Nat) (self : HevRBTree w) (node : BitVec w) : Option (BitVec w) := nodeNeighbour .right fuel self node

def treeEnd (d : Side) (fuel : Nat) (self : HevRBTree w) : Option (BitVec w) :=
  if self.root = 0 then some 0 else endBelow d fuel self self.root

def hevRbtreeFirst (fuel : Nat) (self : HevRBTree w) : Option (BitVec w) := treeEnd .left fuel self

def hevRbtreeLast (fuel : Nat) (self : HevRBTree w) : Option (BitVec w) := treeEnd .right fuel self

def hevRbtreeReplace (self : HevRBTree w) (victim new_ : BitVec w) : Option (HevRBTree w) := do
  let v ← self.load victim
  let parent := hevRbtreeNodeParent v
  let self ← self.store new_ fun _ => v
  let v ← self.load victim
  let self ← self.adoptKept v.left new_
  let v ← self.load victim
  let self ← self.adoptKept v.right new_
  hevRbtreeChangeChild self victim new_ parent

-- A caller's loop over the nodes.
def walkFrom (step : BitVec w → Option (BitVec w)) : Nat → BitVec w → Option (List (BitVec w))
  | 0, _ => none
  | turns+1, node =>
    if node = 0 then some []
    else do
      let next ← step node
      let rest ← walkFrom step turns next
      some (node::rest)

def walk (fuel : Nat) (self : HevRBTree w) : Option (List (BitVec w)) := do
  let start ← hevRbtreeFirst fuel self
  walkFrom (hevRbtreeNodeNext fuel self) fuel start

def walkBack (fuel : Nat) (self : HevRBTree w) : Option (List (BitVec w)) := do
  let start ← hevRbtreeLast fuel self
  walkFrom (hevRbtreeNodePrev fuel self) fuel start

variable {self : HevRBTree w} {x up : BitVec w} {c : Color} {d : Side} {t l r : Colored (BitVec w)} {path : List (Frame (BitVec w))}

theorem load_heap (heap : Heap self.node up (.node c l x r)) : self.load x = some ⟨word up c,addr r,addr l⟩ := by
  rw [load_filled heap.1.filled,heap.2.1]

theorem child_heap (heap : Heap self.node up (.node c l x r)) (d : Side) : Heap self.node x ((Colored.node c l x r).child d) := by
  cases d with
  | left => exact heap.2.2.1
  | right => exact heap.2.2.2

theorem node_child (d : Side) : HevRBTreeNode.child ⟨word up c,addr r,addr l⟩ d = addr ((Colored.node c l x r).child d) := by
  cases d <;> rfl

theorem child_smaller (d : Side) : ((Colored.node c l x r).child d).list.length < (Colored.node c l x r).list.length := by
  cases d with
  | left =>
    simp only [Colored.child,Colored.list,List.length_append,List.length_cons]
    omega
  | right =>
    simp only [Colored.child,Colored.list,List.length_append,List.length_cons]
    omega

theorem endBelow_first (d : Side) (heap : Heap self.node up t) (filled : t ≠ .nil) (fuel : Nat) (enough : t.list.length < fuel) :
    endBelow d.other fuel self (addr t) = (t.toward d).head? := by
  induction fuel generalizing t up with
  | zero => omega
  | succ fuel ih =>
    cases t with
    | nil => exact (filled rfl).elim
    | node c l x r =>
      have below := child_heap heap d.other
      rw [addr,endBelow,load_heap heap,Option.bind_eq_bind,Option.bind_some,node_child (x:=x),toward_node d]
      by_cases leaf : (Colored.node c l x r).child d.other = .nil
      · rw [leaf,addr_leaf,if_pos rfl]
        simp
      · rw [if_neg (mt (addr_nil below).mp leaf),ih below leaf (by have := child_smaller (c:=c) (l:=l) (x:=x) (r:=r) d.other; omega),
          List.head?_append_of_ne_nil _ (mt (toward_empty d).mp leaf)]

theorem aligned_parent (aligned : x &&& 3 = 0) : wordParent x = x := by
  have red := parent_word aligned .red
  rwa [word_red] at red

theorem turnAbove_up (d : Side) (fuel : Nat) (address : Address x) (here : (self.node x).parentColor = word up c) (aligned : up &&& 3 = 0) :
    turnAbove d (fuel+1) self x =
      if up = 0 then some 0 else (self.load up).bind fun p => if x = p.child d then turnAbove d fuel self up else some up := by
  simp only [turnAbove,load_filled address.filled,Option.bind_eq_bind,Option.bind_some,hevRbtreeNodeParent,here,parent_word aligned]

theorem turnAbove_beyond (d : Side) (path : List (Frame (BitVec w))) (hangs : Hangs self.node 0 self.root x path) (address : Address x)
    (here : (self.node x).parentColor = word (top 0 path) c) (distinct : (x::keys path).Nodup) (fuel : Nat) (enough : path.length < fuel) :
    turnAbove d fuel self x = some ((beyond d path).headD 0) := by
  induction path generalizing x c fuel with
  | nil =>
    obtain ⟨k,rfl⟩ := Nat.exists_eq_add_of_lt enough
    rw [turnAbove_up d _ address here BitVec.zero_and]
    rfl
  | cons f rest ih =>
    obtain ⟨k,rfl⟩ := Nat.exists_eq_add_of_lt enough
    obtain ⟨fAddress,fWord,hole,other,_,outer⟩ := hangs
    rw [turnAbove_up d _ address here fAddress.aligned,top,if_neg fAddress.filled,load_filled fAddress.filled,Option.bind_some,beyond]
    rcases side_cases f.side d with side | side
    · have inner : (f.x::keys rest).Nodup := by
        simp only [keys,List.nodup_cons,List.mem_append,List.nodup_append',not_or] at distinct ⊢
        exact ⟨distinct.2.1.2,distinct.2.2.2.1⟩
      rw [if_pos side,← side,if_pos hole.symm,side]
      exact ih outer fAddress fWord inner _ (by simp at enough ⊢; omega)
    · have apart : addr f.sibling ≠ x := by
        apply addr_ne address.filled
        intro member
        simp [keys,member] at distinct
      rw [side,other_other] at other
      rw [other,if_neg apart.symm,if_neg (by simp [side])]
      rfl

theorem neighbour_focus (focus : Focus self path (.node c l x r)) (d : Side) (fuel : Nat)
    (enough : (Colored.node c l x r).list.length+path.length < fuel) :
    nodeNeighbour d fuel self x = some ((((Colored.node c l x r).child d).toward d++beyond d path).headD 0) := by
  have distinct : (x::keys path).Nodup := by
    have whole := focus.distinct
    simp only [Colored.list,List.nodup_append',List.nodup_cons,List.mem_append,List.mem_cons,List.disjoint_left] at whole ⊢
    exact ⟨whole.2.2 (.inr (.inl rfl)),whole.2.1⟩
  have address := focus.heap.1
  have aligned := top_aligned path focus.hangs
  have linked : word (top 0 path) c ≠ x := by
    intro same
    have above : top 0 path = x := by rw [← parent_word aligned c,same,aligned_parent address.aligned]
    cases path with
    | nil => exact address.filled above.symm
    | cons f rest => simp [keys,show f.x = x from above] at distinct
  have below := child_heap focus.heap d
  rw [nodeNeighbour,hevRbtreeNodeEmpty,load_heap focus.heap]
  simp only [Option.map_some,Option.bind_eq_bind,Option.bind_some,linked,decide_false,Bool.false_eq_true,if_false,node_child (x:=x)]
  by_cases leaf : (Colored.node c l x r).child d = .nil
  · rw [leaf,if_neg (by simp [addr]),toward_nil,List.nil_append]
    exact turnAbove_beyond d path focus.hangs address (congrArg HevRBTreeNode.parentColor focus.heap.2.1) distinct fuel (by omega)
  · rw [if_pos (mt (addr_nil below).mp leaf),endBelow_first d below leaf fuel (by have := child_smaller (c:=c) (l:=l) (x:=x) (r:=r) d; omega)]
    have some_ := mt (toward_empty d).mp leaf
    rw [List.headD_eq_head?_getD,List.head?_append_of_ne_nil _ some_,List.head?_eq_some_head some_]
    rfl

-- The neighbour on the side `d` is the next node of a walk to this side.
theorem neighbour_list (holds : Holds self t) {before after : List (BitVec w)} (nodes : t.toward d = before++x::after) (fuel : Nat)
    (enough : 2*t.list.length < fuel) : nodeNeighbour d fuel self x = some (after.headD 0) := by
  obtain ⟨path,c,l,r,rfl⟩ := plug_of_member ((toward_member d).mp (nodes ▸ by simp : x ∈ t.toward d))
  have long := plug_length path (.node c l x r)
  rw [neighbour_focus ((holds_focus _ _).mp holds) d fuel (by omega),← plug_after holds.distinct nodes]

theorem treeEnd_list (holds : Holds self t) (d : Side) (fuel : Nat) (enough : t.list.length < fuel) :
    treeEnd d.other fuel self = some ((t.toward d).headD 0) := by
  rw [treeEnd,holds.root]
  by_cases leaf : t = .nil
  · subst leaf
    simp [addr_leaf]
  · have some_ := mt (toward_empty d).mp leaf
    rw [if_neg (mt (addr_nil holds.heap).mp leaf),endBelow_first d holds.heap leaf fuel enough,List.headD_eq_head?_getD,
      List.head?_eq_some_head some_]
    rfl

theorem heap_filled (heap : Heap self.node up t) : ∀ y ∈ t.list, Address y := by
  induction t generalizing up with
  | nil => simp [Colored.list]
  | node c l x r left right =>
    obtain ⟨address,_,low,high⟩ := heap
    intro y member
    simp only [Colored.list,List.mem_append,List.mem_cons] at member
    rcases member with member | rfl | member
    · exact left low y member
    · exact address
    · exact right high y member

theorem walkFrom_list (holds : Holds self t) (fuel : Nat) (enough : 2*t.list.length < fuel) (before after : List (BitVec w))
    (nodes : t.toward d = before++after) (turns : Nat) (long : after.length < turns) :
    walkFrom (nodeNeighbour d fuel self) turns (after.headD 0) = some after := by
  induction after generalizing before turns with
  | nil =>
    obtain ⟨k,rfl⟩ := Nat.exists_eq_add_of_lt long
    rfl
  | cons x after ih =>
    obtain ⟨k,rfl⟩ := Nat.exists_eq_add_of_lt long
    have member : x ∈ t.list := (toward_member d).mp (nodes ▸ by simp)
    have later := ih (before++[x]) (by simpa using nodes) ((x::after).length+k) (by simp; omega)
    rw [walkFrom,List.headD_cons,if_neg (heap_filled holds.heap x member).filled,neighbour_list holds nodes fuel enough,
      Option.bind_eq_bind,Option.bind_some,later]
    rfl

theorem side_walk (holds : Holds self t) (d : Side) (fuel : Nat) (enough : 2*t.list.length < fuel) :
    ((treeEnd d.other fuel self).bind fun start => walkFrom (nodeNeighbour d fuel self) fuel start) = some (t.toward d) := by
  have long : (t.toward d).length = t.list.length := by cases d <;> simp [Colored.toward]
  rw [treeEnd_list holds d fuel (by omega),Option.bind_some]
  exact walkFrom_list holds fuel enough [] (t.toward d) rfl fuel (by omega)

theorem walk_list (holds : Holds self t) (fuel : Nat) (enough : 2*t.list.length < fuel) : walk fuel self = some t.list :=
  side_walk holds .right fuel enough

theorem walkBack_list (holds : Holds self t) (fuel : Nat) (enough : 2*t.list.length < fuel) : walkBack fuel self = some t.list.reverse :=
  side_walk holds .left fuel enough

theorem replace_focus {victim new_ : BitVec w} (focus : Focus self path (.node c l victim r)) (address : Address new_)
    (fresh : new_ ∉ (Colored.node c l victim r).list++keys path) :
    ∃ next, hevRbtreeReplace self victim new_ = some next ∧ Focus next path (.node c l new_ r) := by
  obtain ⟨hangs,⟨vAddress,here,left,right⟩,distinct⟩ := focus
  have apart : [[victim],[new_],l.list,r.list,keys path].flatten.Nodup := by
    have perm : ([[victim],[new_],l.list,r.list,keys path].flatten).Perm (new_::((Colored.node c l victim r).list++keys path)) := by
      apply List.perm_iff_count.mpr
      intro y
      simp only [Colored.list,List.count_append,List.count_cons,List.flatten_cons,List.flatten_nil,List.count_nil]
      omega
    exact perm.nodup_iff.mpr (List.nodup_cons.mpr ⟨fresh,distinct⟩)
  obtain ⟨tag,atV,atN,inL,inR,inK,_⟩ := exists_tag 0 _ apart
  rw [List.forall_mem_singleton] at atV atN
  have alone := (List.nodup_flatten.mp apart).1
  have aligned := top_aligned path hangs
  let adopt : HevRBTreeNode w → HevRBTreeNode w := fun n => setWord (n.parentColor &&& 1 ||| new_) n
  let m₁ := self.put new_ fun _ => self.node victim
  let m₂ := m₁.putAt (addr l) adopt
  let m₃ := m₂.putAt (addr r) adopt
  have untouched : ∀ {y k}, tag y = k → k ≠ 1 → (y ∈ l.list → y ≠ addr l) → (y ∈ r.list → y ≠ addr r) → m₃.node y = self.node y := by
    intro y k tagged notN notL notR
    rw [putAt_away notR,putAt_away notL,put_node,if_neg (differ tagged atN notN)]
  have outL : ∀ {y k}, tag y = k → k ≠ 2 → y ∈ l.list → y ≠ addr l := fun tagged notL inside => absurd (inL _ inside) (by omega)
  have outR : ∀ {y k}, tag y = k → k ≠ 3 → y ∈ r.list → y ≠ addr r := fun tagged notR inside => absurd (inR _ inside) (by omega)
  have vKept : m₃.node victim = self.node victim := untouched atV (by decide) (outL atV (by decide)) (outR atV (by decide))
  have vKept₂ : m₂.node victim = self.node victim := by
    rw [putAt_away (outL atV (by decide)),put_node,if_neg (differ atV atN (by decide))]
  have vKept₁ : m₁.node victim = self.node victim := by rw [put_node,if_neg (differ atV atN (by decide))]
  have nNode : m₃.node new_ = ⟨word (top 0 path) c,addr r,addr l⟩ := by
    rw [putAt_away (outR atN (by decide)),putAt_away (outL atN (by decide)),put_node,if_pos rfl,here]
  have around : Hangs m₃.node 0 m₃.root victim path := by
    rw [show m₃.root = self.root by simp [m₃,m₂,m₁]]
    apply hangs_same path hangs
    intro y member
    have tagged := inK y member
    exact untouched tagged (by decide) (outL tagged (by decide)) (outR tagged (by decide))
  obtain ⟨next,changed,moved,same⟩ := change_child path around (alone _ (by simp)) vAddress.filled (absent atV inK (by simp)) new_
  refine ⟨next,?_,⟨moved,⟨address,?_,?_,?_⟩,?_⟩⟩
  · have adopted : ∀ (m : HevRBTree w) p, m.adoptKept p new_ = some (m.putAt p adopt) := fun m p => store_if p adopt
    unfold hevRbtreeReplace
    simp only [load_filled vAddress.filled,store_filled address.filled,Option.bind_eq_bind,Option.bind_some,adopted]
    rw [show (self.put new_ fun _ => self.node victim).node victim = self.node victim from vKept₁,
      show (self.node victim).left = addr l from congrArg HevRBTreeNode.left here,
      show (HevRBTree.putAt (self.put new_ fun _ => self.node victim) (addr l) adopt).node victim = self.node victim from vKept₂,
      show (self.node victim).right = addr r from congrArg HevRBTreeNode.right here,hevRbtreeNodeParent,
      show (self.node victim).parentColor = word (top 0 path) c from congrArg HevRBTreeNode.parentColor here,parent_word aligned]
    exact changed
  · rw [same new_ (absent atN inK (by simp)),nNode]
  · rw [← paint_color l]
    apply heap_moved left (alone _ (by simp))
    · intro y member other
      have tagged := inL y member
      rw [same y (absent tagged inK (by simp)),untouched tagged (by decide) (fun _ => other) (outR tagged (by decide))]
    · intro some_
      have tagged := inL _ (addr_member some_)
      obtain ⟨_,lWord,_,_⟩ := heap_root left some_ .left
      rw [same _ (absent tagged inK (by simp)),putAt_away (outR tagged (by decide)),putAt_at left some_,put_node,
        if_neg (differ tagged atN (by decide))]
      change setWord _ _ = _
      rw [lWord,word_moved vAddress.aligned]
  · rw [← paint_color r]
    apply heap_moved right (alone _ (by simp))
    · intro y member other
      have tagged := inR y member
      rw [same y (absent tagged inK (by simp)),untouched tagged (by decide) (outL tagged (by decide)) (fun _ => other)]
    · intro some_
      have tagged := inR _ (addr_member some_)
      obtain ⟨_,rWord,_,_⟩ := heap_root right some_ .left
      rw [same _ (absent tagged inK (by simp)),putAt_at right some_,putAt_away (outL tagged (by decide)),put_node,
        if_neg (differ tagged atN (by decide))]
      change setWord _ _ = _
      rw [rWord,word_moved vAddress.aligned]
  · have perm : ([new_]++(l.list++r.list++keys path)).Perm ((Colored.node c l new_ r).list++keys path) := by
      apply List.perm_iff_count.mpr
      intro y
      simp only [Colored.list,List.count_append,List.count_cons,List.count_nil]
      omega
    refine perm.nodup_iff.mp ?_
    have tail := (List.nodup_append'.mp apart).2.1
    simpa using tail

-- The new node stands where the other one stood, in the order of the nodes.
theorem replace_holds (holds : Holds self t) (balanced : IsRedBlack t) {victim new_ : BitVec w} {before after : List (BitVec w)}
    (nodes : t.list = before++victim::after) (address : Address new_) (fresh : new_ ∉ t.list) :
    ∃ next t', hevRbtreeReplace self victim new_ = some next ∧ Holds next t' ∧ IsRedBlack t' ∧ t'.list = before++new_::after := by
  obtain ⟨path,c,l,r,rfl⟩ := plug_of_member (nodes ▸ by simp : victim ∈ t.list)
  have focus := (holds_focus _ _).mp holds
  have out := mt (plug_perm path (.node c l victim r)).mem_iff.mpr fresh
  obtain ⟨next,replaced,moved⟩ := replace_focus focus address out
  obtain ⟨above,color,n,fits,node,allowed⟩ := fits_of_plug balanced
  have renamed : (Colored.node c l new_ r).Balanced color n := by
    cases node with
    | red left right => exact .red left right
    | black left right => exact .black left right
  refine ⟨next,plug path (.node c l new_ r),replaced,(holds_focus _ _).mpr moved,?_,?_⟩
  · exact fits.plug renamed allowed
  · obtain ⟨early,late,whole⟩ := plug_list path
    have distinct := holds.distinct
    rw [nodes,List.nodup_middle,List.nodup_cons,List.mem_append,not_or] at distinct
    rw [whole,Colored.list,← List.append_assoc,List.append_assoc,List.cons_append] at nodes
    obtain ⟨first,_,second⟩ := (List.append_cons_inj_of_notMem distinct.1.1 distinct.1.2).mp nodes.symm
    rw [whole,Colored.list,first,second]
    simp

-- A history as for `Reached`, where a node can also be put in the place of another.
inductive Lived : HevRBTree w → Prop
  | empty (self : HevRBTree w) (none_ : self.root = 0) : Lived self
  | insert {self next : HevRBTree w} {x : BitVec w} (before : Lived self) (path : List Side) (slot : self.slot path 0 .root ≠ none)
    (address : Address x) (fresh : ¬Within self x) (went : Completes (fun fuel => self.insertAt fuel path x) next) : Lived next
  | erase {self next : HevRBTree w} {x : BitVec w} (before : Lived self) (inside : Within self x)
    (went : Completes (fun fuel => hevRbtreeErase fuel self x) next) : Lived next
  | replace {self next : HevRBTree w} {victim x : BitVec w} (before : Lived self) (inside : Within self victim) (address : Address x)
    (fresh : ¬Within self x) (went : hevRbtreeReplace self victim x = some next) : Lived next

theorem lived_holds (lived : Lived self) : ∃ t, Holds self t ∧ IsRedBlack t := by
  induction lived with
  | empty self none_ => exact ⟨.nil,⟨none_,trivial,List.nodup_nil⟩,0,.nil⟩
  | insert before path slot address fresh went ih =>
    obtain ⟨t,holds,balanced⟩ := ih
    have empty := slot_empty [] path ((holds_focus [] t).mp holds) slot
    obtain ⟨next,t',ends,after,sound,_⟩ := insertAt_holds holds balanced empty address (mt (within_member holds).mpr fresh)
    cases completes_same went ⟨_,ends⟩
    exact ⟨t',after,sound⟩
  | erase before inside went ih =>
    obtain ⟨t,holds,balanced⟩ := ih
    obtain ⟨next,t',ends,after,sound,_⟩ := erase_holds holds balanced ((within_member holds).mp inside)
    cases completes_same went ⟨_,ends⟩
    exact ⟨t',after,sound⟩
  | replace before inside address fresh went ih =>
    obtain ⟨t,holds,balanced⟩ := ih
    obtain ⟨early,late,nodes⟩ := List.append_of_mem ((within_member holds).mp inside)
    obtain ⟨next,t',replaced,after,sound,_⟩ := replace_holds holds balanced nodes address (mt (within_member holds).mpr fresh)
    cases went.symm.trans replaced
    exact ⟨t',after,sound⟩

theorem reached_lived (reached : Reached self) : Lived self := by
  induction reached with
  | empty self none_ => exact .empty self none_
  | insert _ path slot address fresh went ih => exact .insert ih path slot address fresh went
  | erase _ inside went ih => exact .erase ih inside went

-- Both walks over a tree with any history end, and meet each node once, in one order and its reverse;
-- a replaced node leaves its place in it to the new one.
theorem lived_walks (lived : Lived self) : ∃ nodes : List (BitVec w), nodes.Nodup ∧ (∀ x, Within self x ↔ x ∈ nodes) ∧
    (∃ bound, ∀ fuel, bound < fuel → walk fuel self = some nodes ∧ walkBack fuel self = some nodes.reverse) ∧
    ∀ before victim after new_, nodes = before++victim::after → Address new_ → ¬Within self new_ →
      ∃ next, hevRbtreeReplace self victim new_ = some next ∧
        ∃ bound, ∀ fuel, bound < fuel → walk fuel next = some (before++new_::after) := by
  obtain ⟨t,holds,balanced⟩ := lived_holds lived
  refine ⟨t.list,holds.distinct,fun x => within_member holds,⟨2*t.list.length,fun fuel enough => ?_⟩,?_⟩
  · exact ⟨walk_list holds fuel enough,walkBack_list holds fuel enough⟩
  · intro before victim after new_ nodes address fresh
    obtain ⟨next,t',replaced,held,_,order⟩ := replace_holds holds balanced nodes address (mt (within_member holds).mpr fresh)
    refine ⟨next,replaced,2*t'.list.length,fun fuel enough => ?_⟩
    rw [walk_list held fuel enough,order]

-- The grown tree, in which the node 40 has been replaced by 56; in the end also 16 by 64.
theorem grown_walks : ∃ s m, tend 8 bare .nil growing = some s ∧ hevRbtreeReplace s 40 56 = some m ∧
    (∃ bound, ∀ fuel, bound < fuel → walk fuel m = some [16,24,32,56,48] ∧ walkBack fuel m = some [48,56,32,24,16]) ∧
    ∃ next, hevRbtreeReplace m 16 64 = some next ∧ ∃ bound, ∀ fuel, bound < fuel → walk fuel next = some [64,24,32,56,48] := by
  obtain ⟨s,went,reached,holds⟩ := grown_reached
  obtain ⟨t,same,balanced⟩ := reached_holds reached
  cases holds_tree same holds
  have nodes : grown.list = [16,24,32]++40::[48] := rfl
  have address : Address (56 : BitVec 64) := ⟨by decide,by decide⟩
  obtain ⟨m,u,replaced,moved,_,order⟩ := replace_holds holds balanced nodes address (by decide)
  have lived := (reached_lived reached).replace ((within_member holds).mpr (by decide)) address
    (mt (within_member holds).mp (by decide)) replaced
  obtain ⟨nodes,_,member,⟨bound,walks⟩,replaces⟩ := lived_walks lived
  have here : nodes = [16,24,32,56,48] := by
    have walked := (walks (max bound (2*u.list.length)+1) (by omega)).1
    rw [walk_list moved _ (by omega),order] at walked
    exact (Option.some.inj walked).symm
  subst here
  exact ⟨s,m,went,replaced,⟨bound,walks⟩,replaces [] 16 [24,32,56,48] 64 rfl ⟨by decide,by decide⟩ (mt (member 64).mp (by decide))⟩

end Psocks.RBTree
