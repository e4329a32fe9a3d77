import Psocks.Misc.RBHeap

namespace Psocks.RBTree
open SearchTree RedBlack Apart
variable {w n : Nat} {self : HevRBTree w} {node next : BitVec w → HevRBTreeNode w} {x up up' root a a' : BitVec w} {c shade : Color}
variable {l r t : Colored (BitVec w)} {f g : Frame (BitVec w)} {rest path : List (Frame (BitVec w))}

-- Where the loop starts once the node over `t` is gone: at the parent of an empty place
-- that is short of a black node.
def start (path : List (Frame (BitVec w))) (gone : Color) : Colored (BitVec w) → BitVec w
  | .nil => if gone = .black then top 0 path else 0
  | .node .. => 0

-- Case 1, with a child on the right at most.
theorem erase_right (path : List (Frame (BitVec w))) (focus : Focus self path (.node c .nil x r)) :
    ∃ next, (∀ fuel, hevRbtreeEraseNode fuel self x = some (next,start path c r)) ∧ Focus next path (r.paint c) := by
  obtain ⟨hangs,⟨address,here,_,right⟩,distinct⟩ := focus
  have hangs : Hangs self.node 0 self.root x path := hangs
  have aligned := top_aligned path hangs
  have apart : [[x],r.list,keys path].flatten.Nodup := by simpa [Colored.list] using distinct
  obtain ⟨tag,atX,inR,inK,_⟩ := exists_tag 0 _ apart
  rw [List.forall_mem_singleton] at atX
  have alone := (List.nodup_flatten.mp apart).1
  obtain ⟨next,changed,moved,same⟩ :=
    change_child path hangs (alone _ (by simp)) address.filled (absent atX inK (by simp)) (addr r)
  have kept : ∀ y ∈ r.list, next.node y = self.node y := fun y member => same y (absent (inR y member) inK (by simp))
  have left : (r.list++keys path).Nodup := distinct.sublist (by simp [Colored.list])
  unfold hevRbtreeEraseNode
  simp only [load_filled address.filled,Option.bind_eq_bind,Option.bind_some,here,addr_leaf,if_true,parent_word aligned,changed]
  cases r with
  | nil =>
    refine ⟨next,fun fuel => ?_,moved,trivial,left⟩
    simp only [addr_leaf,ne_eq,not_true,if_false,black_word aligned address.filled,start]
    cases c <;> rfl
  | node c' l' y r' =>
    have filled := right.1.filled
    refine ⟨next.put y (setWord (word (top 0 path) c)),fun fuel => ?_,?_,?_,left⟩
    · rw [addr,if_pos filled,store_filled filled]
      rfl
    · apply hangs_same path moved
      intro z member
      exact (put_node ..).trans (if_neg (differ (inK z member) (inR y (by simp [Colored.list])) (by simp)))
    · apply heap_moved right (alone _ (by simp))
      · intro z member other
        exact (put_node ..).trans ((if_neg other).trans (kept z member))
      · intro _
        rw [put_node,addr,if_pos rfl,kept y (by simp [Colored.list])]

-- Case 1, with a child on the left only.
theorem erase_left (path : List (Frame (BitVec w))) (focus : Focus self path (.node c l x .nil)) (some_ : l ≠ .nil) :
    ∃ next, (∀ fuel, hevRbtreeEraseNode fuel self x = some (next,0)) ∧ Focus next path (l.paint c) := by
  obtain ⟨hangs,⟨address,here,left,_⟩,distinct⟩ := focus
  have hangs : Hangs self.node 0 self.root x path := hangs
  have aligned := top_aligned path hangs
  have apart : [[x],l.list,keys path].flatten.Nodup := by
    simpa [Colored.list] using (put_perm.append_right (keys path)).nodup_iff.mp (show ((put Side.left c x l .nil).list++keys path).Nodup from distinct)
  obtain ⟨tag,atX,inL,inK,_⟩ := exists_tag 0 _ apart
  rw [List.forall_mem_singleton] at atX
  have alone := (List.nodup_flatten.mp apart).1
  have filled := (heap_root left some_ .left).1.filled
  have atL := inL _ (addr_member some_)
  let m := self.put (addr l) (setWord (word (top 0 path) c))
  have around : Hangs m.node 0 m.root x path := by
    apply hangs_same path hangs
    intro y member
    exact (put_node ..).trans (if_neg (differ (inK y member) atL (by simp)))
  obtain ⟨next,changed,moved,same⟩ := change_child path around (alone _ (by simp)) address.filled (absent atX inK (by simp)) (addr l)
  refine ⟨next,fun fuel => ?_,?_,?_,?_⟩
  · unfold hevRbtreeEraseNode
    simp only [load_filled address.filled,Option.bind_eq_bind,Option.bind_some,here,filled,addr_leaf,if_false,if_true,
      store_filled filled,parent_word aligned]
    rw [show hevRbtreeChangeChild _ x (addr l) (top 0 path) = some next from changed]
    rfl
  · rw [addr_paint]
    exact moved
  · apply heap_moved left (alone _ (by simp))
    · intro y member other
      rw [same y (absent (inL y member) inK (by simp))]
      exact (put_node ..).trans (if_neg other)
    · intro _
      rw [same _ (absent atL inK (by simp))]
      exact (put_node ..).trans (if_pos rfl)
  · rw [paint_list]
    exact distinct.sublist (List.Sublist.append_right (by simp [Colored.list]) _)

-- Along the left spine, to a node without a left child.
theorem leftmost_spine {inner : List (Frame (BitVec w))} {gone : Color} {s : BitVec w} {child : Colored (BitVec w)}
    (path : List (Frame (BitVec w))) (hangs : Hangs self.node up root x path) (heap : Heap self.node (top up path) (.node c l x r))
    (some_ : path ≠ []) (first : takeFirst path c l x r = (inner,gone,s,child)) :
    Hangs self.node up root s inner ∧ Heap self.node (top up inner) (.node gone .nil s child) ∧ inner ≠ [] ∧
      ∀ fuel, inner.length < path.length+fuel → leftmostBelow fuel self (top up path) x = some (top up inner,s) := by
  induction l generalizing path c x r with
  | nil =>
    cases first
    obtain ⟨address,here,_⟩ := id heap
    refine ⟨hangs,heap,some_,fun fuel more => ?_⟩
    obtain ⟨k,rfl⟩ := Nat.exists_eq_succ_of_ne_zero (show fuel ≠ 0 by omega)
    rw [leftmostBelow,load_filled address.filled]
    simp [here,addr_leaf]
  | node c' l' y r' left _ =>
    obtain ⟨address,here,lower,right⟩ := heap
    have deeper : Hangs self.node up root y (⟨.left,c,x,r⟩::path) := by
      refine ⟨address,?_,?_,?_,right,hangs⟩
      · rw [here]
      · rw [here]
        rfl
      · rw [here]
        rfl
    obtain ⟨hang,heap,filled,found⟩ := left (⟨.left,c,x,r⟩::path) deeper lower (by simp) first
    have longer := takeFirst_length (⟨.left,c,x,r⟩::path) c' l' y r'
    rw [show takeFirst (⟨.left,c,x,r⟩::path) c' l' y r' = (inner,gone,s,child) from first,List.length_cons] at longer
    dsimp only at longer
    refine ⟨hang,heap,filled,fun fuel more => ?_⟩
    obtain ⟨k,rfl⟩ := Nat.exists_eq_succ_of_ne_zero (show fuel ≠ 0 by omega)
    rw [leftmostBelow,load_filled address.filled,Option.bind_eq_bind,Option.bind_some,here]
    refine (if_neg lower.1.filled).trans ?_
    exact found k (by rw [List.length_cons]; omega)

-- The successor and its only child, with the rest of the right subtree below the successor.
structure Detached (m : HevRBTree w) (inner : List (Frame (BitVec w))) (gone : Color) (s : BitVec w) (child : Colored (BitVec w)) : Prop where
  address : Address s
  color : wordIsBlack (m.node s).parentColor = (gone = .black : Bool)
  rest : Hangs m.node s (m.node s).right (addr child) inner
  child : Heap m.node s child

theorem detach (up : BitVec w) (aligned : up &&& 3 = 0) (heap : Heap self.node up (.node c l x r)) (distinct : (Colored.node c l x r).list.Nodup)
    {inner : List (Frame (BitVec w))} {gone : Color} {s : BitVec w} {child : Colored (BitVec w)}
    (first : takeFirst [] c l x r = (inner,gone,s,child)) :
    ∃ m, (∀ fuel, inner.length < fuel → detachSuccessor fuel self x = some (m,top s inner,s,addr child)) ∧ Detached m inner gone s child ∧
      m.root = self.root ∧ ∀ y ∉ (Colored.node c l x r).list, m.node y = self.node y := by
  obtain ⟨address,here,left,right⟩ := heap
  cases l with
  | nil =>
    cases first
    refine ⟨self,fun fuel more => ?_,⟨address,?_,?_,right⟩,rfl,fun y _ => rfl⟩
    · rw [detachSuccessor,load_filled address.filled,Option.bind_eq_bind,Option.bind_some,here]
      exact if_pos rfl
    · rw [here,black_word aligned address.filled]
    · rw [here]
      rfl
  | node c' l' y r' =>
    have begun : Hangs self.node up x y [⟨.left,c,x,r⟩] := by
      refine ⟨address,?_,?_,?_,right,rfl⟩
      · rw [here]
        rfl
      · rw [here]
        rfl
      · rw [here]
        rfl
    obtain ⟨hangs,lower,some_,found⟩ := leftmost_spine [⟨.left,c,x,r⟩] begun left (by simp) first
    obtain ⟨sAddress,sNode,_,low⟩ := lower
    have order := takeFirst_plug [] c (.node c' l' y r') x r
    have leftmost := takeFirst_left (p:=[]) (by simp) c (.node c' l' y r') x r
    simp only [first] at order leftmost
    have perm := plug_perm inner (.node gone .nil s child)
    rw [order,plug] at perm
    have apart : [[s],child.list,keys inner].flatten.Nodup := by simpa [Colored.list] using perm.nodup_iff.mp distinct
    obtain ⟨tag,atS,inC,inK,_⟩ := exists_tag 0 _ apart
    rw [List.forall_mem_singleton] at atS
    have alone := (List.nodup_flatten.mp apart).1 _ (List.mem_cons_of_mem _ (List.mem_cons_of_mem _ List.mem_cons_self))
    have atX := inK x (root_member inner hangs some_)
    cases inner with
    | nil => exact (some_ rfl).elim
    | cons f rest =>
      have side : f.side = .left := leftmost f List.mem_cons_self
      have atF := inK f.x List.mem_cons_self
      have fAddress := hangs.1
      have sf : s ≠ f.x := differ atS atF (by simp)
      have sx : s ≠ x := differ atS atX (by simp)
      let m₁ := self.put f.x (·.setChild .left (addr child))
      let m₂ := m₁.put s (·.setChild .right x)
      let m₃ := m₂.put x fun n => setWord (n.parentColor &&& 1 ||| s) n
      have sNode₃ : m₃.node s = (self.node s).setChild .right x := by
        rw [put_node,if_neg sx,put_node,if_pos rfl,put_node,if_neg sf]
      have hole : Hangs m₁.node up x (addr child) (f::rest) := by
        apply hangs_hole hangs alone
        · rw [put_node,if_pos rfl,side]
        · intro y _ other
          rw [put_node,if_neg other]
      have same : Hangs m₂.node up x (addr child) (f::rest) := by
        apply hangs_same _ hole
        intro y member
        rw [put_node,if_neg (differ (inK y member) atS (by simp))]
      have moved : Hangs m₃.node s x (addr child) (f::rest) := by
        apply hangs_up _ same some_ aligned alone
        · exact (put_node ..).trans (if_pos rfl)
        · intro y _ other
          exact (put_node ..).trans (if_neg other)
      refine ⟨m₃,fun fuel more => ?_,⟨sAddress,?_,?_,?_⟩,rfl,fun y outside => ?_⟩
      · have down : leftmostBelow fuel self x y = some (f.x,s) := found fuel (by rw [List.length_singleton]; omega)
        unfold detachSuccessor
        simp only [load_filled address.filled,Option.bind_eq_bind,Option.bind_some,here,addr,left.1.filled,if_false,down,
          load_filled sAddress.filled,sNode,child_filled fAddress.filled,child_filled sAddress.filled,hevRbtreeNodeSetParent,
          store_filled address.filled]
        rfl
      · rw [sNode₃,setChild_word,sNode]
        exact black_word fAddress.aligned sAddress.filled gone
      · rw [show (m₃.node s).right = x by rw [sNode₃]; rfl]
        exact moved
      · apply heap_same low
        intro y member
        have here := inC y member
        rw [put_node,if_neg (differ here atX (by simp)),put_node,if_neg (differ here atS (by simp)),put_node,if_neg (differ here atF (by simp))]
      · have out : ∀ z ∈ (Colored.node gone .nil s child).list++keys (f::rest), y ≠ z := by
          intro z member equal
          exact outside (perm.mem_iff.mpr (equal ▸ member))
        rw [put_node,if_neg (out x (List.mem_append_right _ (root_member _ hangs some_))),put_node,
          if_neg (out s (by simp [Colored.list])),put_node,if_neg (out f.x (by simp [keys]))]

theorem top_under (inner : List (Frame (BitVec w))) (f : Frame (BitVec w)) : top up (inner++f::path) = top f.x inner := by
  cases inner <;> rfl

-- What the code does once the successor is out: the node's left child and its place under the
-- frames go to the successor, and the successor's own child turns black.
theorem replace_run {m m' : HevRBTree w} {inner : List (Frame (BitVec w))} {gone : Color} {s : BitVec w} {child : Colored (BitVec w)}
    (path : List (Frame (BitVec w))) (address : Address x) (sAddress : Address s) (lAddress : Address (addr l)) (low : Heap m.node s child)
    (xs : x ≠ s) (xl : x ≠ addr l) (aligned : top 0 path &&& 3 = 0) (xWord : (m.node x).parentColor = word (top 0 path) c)
    (xLeft : (m.node x).left = addr l) (sColor : wordIsBlack (m'.node s).parentColor = (gone = .black : Bool))
    (changed : hevRbtreeChangeChild ((m.put s (·.setChild .left (addr l))).put (addr l) fun n => setWord (n.parentColor &&& 1 ||| s) n) x s
      (top 0 path) = some m') :
    replaceNode m x (top s inner) s (addr child) =
      some ((m'.putAt (addr child) (setWord (word (top s inner) .black))).put s (setWord (word (top 0 path) c)),
        start (inner++⟨.right,c,s,l⟩::path) gone child) := by
  have xKept : ((m.put s (·.setChild .left (addr l))).put (addr l) fun n => setWord (n.parentColor &&& 1 ||| s) n).node x = m.node x := by
    rw [put_node,if_neg xl,put_node,if_neg xs]
  unfold replaceNode
  simp only [load_filled address.filled,Option.bind_eq_bind,Option.bind_some,xLeft,child_filled sAddress.filled,hevRbtreeNodeSetParent,
    store_filled lAddress.filled]
  rw [show (HevRBTree.put _ _ _).node x = m.node x from xKept,hevRbtreeNodeParent,xWord,parent_word aligned,
    show hevRbtreeChangeChild _ x s (top 0 path) = some m' from changed]
  cases child with
  | nil =>
    have same : m'.putAt (addr .nil) (setWord (word (top s inner) .black)) = m' := if_pos rfl
    rw [Option.bind_some,addr_leaf,if_neg (by simp),load_filled sAddress.filled,store_filled sAddress.filled,start,top_under,
      ← addr_leaf,same,Option.bind_some,Option.bind_some,hevRbtreeNodeIsBlack,sColor]
    simp only [decide_eq_true_eq]
  | node c' l' y r' =>
    have filled : y ≠ 0 := low.1.filled
    have same : m'.putAt (addr (.node c' l' y r')) (setWord (word (top s inner) .black)) = m'.put y (setWord (word (top s inner) .black)) :=
      if_neg filled
    rw [same,Option.bind_some,addr,if_pos filled,color_filled filled,Option.bind_some,store_filled sAddress.filled]
    rfl

theorem replaced_parts {inner : List (Frame (BitVec w))} {s : BitVec w} {child : Colored (BitVec w)} :
    ((Colored.node c l s (plug inner (child.paint .black))).list++keys path).Perm
      [[s],l.list,child.list,keys inner,keys path].flatten := by
  have perm := plug_perm inner (child.paint .black)
  rw [paint_list] at perm
  apply List.perm_iff_count.mpr
  intro y
  simp only [Colored.list,List.count_append,List.count_cons,perm.count_eq,List.flatten_cons,List.flatten_nil,List.count_nil]
  omega

theorem replace_node {m : HevRBTree w} {inner : List (Frame (BitVec w))} {gone : Color} {s : BitVec w} {child : Colored (BitVec w)}
    (path : List (Frame (BitVec w))) (hangs : Hangs m.node 0 m.root x path) (address : Address x)
    (xWord : (m.node x).parentColor = word (top 0 path) c) (xLeft : (m.node x).left = addr l) (left : Heap m.node x l) (some_ : l ≠ .nil)
    (detached : Detached m inner gone s child) (apart : [[x],[s],l.list,child.list,keys inner,keys path].flatten.Nodup) :
    ∃ next, replaceNode m x (top s inner) s (addr child) = some (next,start (inner++⟨.right,c,s,l⟩::path) gone child) ∧
      Focus next (inner++⟨.right,c,s,l⟩::path) (child.paint .black) := by
  obtain ⟨sAddress,sColor,beyond,low⟩ := detached
  obtain ⟨tag,atX,atS,inL,inC,inI,inK,_⟩ := exists_tag 0 _ apart
  rw [List.forall_mem_singleton] at atX atS
  have alone := (List.nodup_flatten.mp apart).1
  obtain ⟨lAddress,lWord,_,_⟩ := heap_root left some_ .left
  have atL := inL _ (addr_member some_)
  have xs : x ≠ s := differ atX atS (by simp)
  have xl : x ≠ addr l := differ atX atL (by simp)
  have sl : s ≠ addr l := differ atS atL (by simp)
  have cs : addr child ≠ s := addr_ne sAddress.filled (absent atS inC (by simp))
  obtain ⟨m₂,given⟩ : ∃ m₂, m₂ = (m.put s (·.setChild .left (addr l))).put (addr l) fun n => setWord (n.parentColor &&& 1 ||| s) n :=
    ⟨_,rfl⟩
  have clear : ∀ y, y ≠ s → y ≠ addr l → m₂.node y = m.node y := by
    intro y notS notL
    rw [given,put_node,if_neg notL,put_node,if_neg notS]
  have around : Hangs m₂.node 0 m₂.root x path := by
    rw [show m₂.root = m.root by simp [given]]
    apply hangs_same path hangs
    intro y member
    exact clear y (differ (inK y member) atS (by simp)) (differ (inK y member) atL (by simp))
  obtain ⟨m₃,changed,moved,same⟩ := change_child path around (alone _ (by simp)) address.filled (absent atX inK (by simp)) s
  obtain ⟨next,ended⟩ : ∃ next, next = (m₃.putAt (addr child) (setWord (word (top s inner) .black))).put s (setWord (word (top 0 path) c)) :=
    ⟨_,rfl⟩
  have sNode : m₃.node s = (m.node s).setChild .left (addr l) := by
    rw [same s (absent atS inK (by simp)),given,put_node,if_neg sl,put_node,if_pos rfl]
  have sNext : next.node s = setWord (word (top 0 path) c) ((m.node s).setChild .left (addr l)) := by
    rw [ended,put_node,if_pos rfl,putAt_node,if_neg fun both => cs both.1.symm,sNode]
  have untouched : ∀ {y k}, tag y = k → k ≠ 1 → k ≠ 5 → y ≠ addr l → (y ∈ child.list → y ≠ addr child) → next.node y = m.node y := by
    intro y k here notS notK notL notC
    have ys : y ≠ s := differ here atS notS
    rw [ended,put_node,if_neg ys,putAt_away notC,same y (absent here inK notK),clear y ys notL]
  have lower : Heap next.node (top s inner) (child.paint .black) := by
    apply heap_moved low (alone _ (by simp))
    · intro y member other
      have here := inC y member
      exact untouched here (by decide) (by decide) (differ here atL (by simp)) fun _ => other
    · intro filled
      have here := inC _ (addr_member filled)
      rw [ended,put_node,if_neg cs,putAt_at low filled,same _ (absent here inK (by simp)),clear _ cs (differ here atL (by simp))]
  have inner_ : Hangs next.node s (m.node s).right (addr (child.paint .black)) inner := by
    rw [addr_paint]
    apply hangs_same inner beyond
    intro y member
    have here := inI y member
    exact untouched here (by decide) (by decide) (differ here atL (by simp)) fun inside => absurd inside (absent here inC (by simp))
  obtain ⟨root,right⟩ := (heap_plug inner (child.paint .black)).mpr ⟨inner_,lower⟩
  refine ⟨next,?_,(holds_focus _ _).mp ?_⟩
  · rw [ended]
    refine replace_run path address sAddress lAddress low xs xl (top_aligned path hangs) xWord xLeft ?_ (given ▸ changed)
    rw [sNode,setChild_word,sColor]
  · rw [plug_under]
    refine (holds_focus _ _).mpr ⟨?_,⟨sAddress,?_,?_,right⟩,replaced_parts.nodup_iff.mpr (List.nodup_append'.mp apart).2.1⟩
    · rw [show next.root = m₃.root by simp [ended]]
      apply hangs_same path moved
      intro y member
      have here := inK y member
      rw [ended,put_node,if_neg (differ here atS (by simp)),putAt_away fun inside => absurd inside (absent here inC (by simp))]
    · rw [sNext,← root]
      rfl
    · rw [← paint_color l]
      apply heap_moved left (alone _ (by simp))
      · intro y member other
        have here := inL y member
        exact untouched here (by decide) (by decide) other fun inside => absurd inside (absent here inC (by simp))
      · intro _
        rw [ended,put_node,if_neg sl.symm,putAt_away fun inside => absurd inside (absent atL inC (by simp)),
          same _ (absent atL inK (by simp)),given,put_node,if_pos rfl,put_node,if_neg sl.symm,lWord,word_moved address.aligned]

-- What is around a node with its sibling, taken apart.
theorem sibling_parts {s : BitVec w} {near far : Colored (BitVec w)} (shape : f.sibling = put d c s near far) :
    (t.list++keys (f::rest)).Perm [[s],[f.x],t.list,near.list,far.list,keys rest].flatten := by
  apply List.perm_iff_count.mpr
  intro y
  have parts := (@put_perm _ d c near far s).count_eq y
  rw [keys,shape]
  simp only [List.count_append,List.count_cons,List.flatten_cons,List.flatten_nil,List.count_nil] at parts ⊢
  omega

theorem word_same (n : HevRBTreeNode w) : setWord n.parentColor n = n := rfl

-- Case 2: the sibling turns red, and with it the shortage moves up or ends at a red parent.
theorem erase_flip {s : BitVec w} {near far : Colored (BitVec w)} (shape : f.sibling = put f.side .black s near far)
    (focus : Focus self (f::rest) t) (light : near.color = .black) (dark : far.color = .black) :
    ∃ next, eraseColorBlack f.side self f.x s =
        some (if f.color = .red ∨ rest = [] then .over_ next else .again next f.x (top 0 rest)) ∧
      Focus next rest (put f.side .black f.x t (put f.side .red s near far)) := by
  obtain ⟨⟨address,here,hole,other,sibling,outer⟩,heap,distinct⟩ := focus
  have aligned := top_aligned rest outer
  rw [shape,addr_put] at other
  rw [shape] at sibling
  obtain ⟨sAddress,sWord,sNear,sFar,nearHeap,farHeap⟩ := heap_put.mp sibling
  have apart := (sibling_parts shape).nodup_iff.mp distinct
  obtain ⟨tag,atS,atP,inT,inN,inF,inK,_⟩ := exists_tag 0 _ apart
  rw [List.forall_mem_singleton] at atS atP
  have ps : f.x ≠ s := differ atP atS (by simp)
  have build : ∀ next : HevRBTree w, next.root = self.root → next.node s = setWord (word f.x .red) (self.node s) →
      next.node f.x = setWord (word (top 0 rest) .black) (self.node f.x) → (∀ y, y ≠ s → y ≠ f.x → next.node y = self.node y) →
      Focus next rest (put f.side .black f.x t (put f.side .red s near far)) := by
    intro next rooted sNode pNode same
    refine ⟨?_,?_,?_⟩
    · rw [addr_put,rooted]
      apply hangs_same rest outer
      intro y member
      exact same y (differ (inK y member) atS (by simp)) (differ (inK y member) atP (by simp))
    · rw [heap_put,heap_put,addr_put,pNode,sNode]
      refine ⟨address,rfl,?_,?_,?_,sAddress,rfl,?_,?_,?_,?_⟩
      · rw [setWord_child,hole]
      · rw [setWord_child,other]
      · exact heap_same heap fun y member => same y (differ (inT y member) atS (by simp)) (differ (inT y member) atP (by simp))
      · rw [setWord_child,sNear]
      · rw [setWord_child,sFar]
      · exact heap_same nearHeap fun y member => same y (differ (inN y member) atS (by simp)) (differ (inN y member) atP (by simp))
      · exact heap_same farHeap fun y member => same y (differ (inF y member) atS (by simp)) (differ (inF y member) atP (by simp))
    · have order : (put f.side .black f.x t (put f.side .red s near far)).list = (f.fill t).list := by
        rw [Frame.fill,shape]
        cases f.side <;> simp [put,Colored.list]
      rw [order]
      exact (fill_perm f t).nodup_iff.mpr distinct
  let m := self.put s (setWord (word f.x .red))
  have pKept : m.node f.x = self.node f.x := by rw [put_node,if_neg ps]
  have sTurned : m.node s = setWord (word f.x .red) (self.node s) := by rw [put_node,if_pos rfl]
  have stays : eraseColorBlack f.side self f.x s = if f.color = .red then some (.over_ (m.put f.x fun n => setWord (n.parentColor ||| 1) n))
      else if top 0 rest ≠ 0 then some (.again m f.x (top 0 rest)) else some (.over_ m) := by
    unfold eraseColorBlack
    simp only [load_filled sAddress.filled,Option.bind_eq_bind,Option.bind_some,sFar,blackAt_root farHeap sAddress.aligned,dark,
      decide_true,if_true,sNear,blackAt_root nearHeap sAddress.aligned,light,color_filled sAddress.filled,load_filled address.filled]
    rw [show (HevRBTree.put _ _ _).node f.x = self.node f.x from pKept,hevRbtreeNodeIsRed,here,black_word aligned address.filled,
      hevRbtreeNodeParent,here,parent_word aligned,hevRbtreeNodeSetBlack,store_filled address.filled]
    cases f.color <;> rfl
  rw [stays]
  by_cases color : f.color = .red
  · rw [if_pos color]
    refine ⟨m.put f.x fun n => setWord (n.parentColor ||| 1) n,by rw [if_pos (.inl color)],build _ rfl ?_ ?_ fun y notS notP => ?_⟩
    · rw [put_node,if_neg ps.symm,sTurned]
    · rw [put_node,if_pos rfl,pKept,here,word_blacken]
    · rw [put_node,if_neg notP,put_node,if_neg notS]
  · have black : f.color = .black := by
      cases shade : f.color with
      | red => exact (color shade).elim
      | black => rfl
    refine ⟨m,?_,build m rfl sTurned ?_ fun y notS _ => (put_node ..).trans (if_neg notS)⟩
    · rw [if_neg color]
      cases rest with
      | nil => simp [top]
      | cons g rest =>
        have filled : g.x ≠ 0 := outer.1.filled
        rw [top,if_pos filled,if_neg (by simp [color])]
    · rw [pKept,← black,← here]
      exact (word_same _).symm

-- Case 4: the sibling takes the parent's place and colour.
theorem erase_outer {s : BitVec w} {near far : Colored (BitVec w)} (shape : f.sibling = put f.side .black s near far)
    (focus : Focus self (f::rest) t) (filled : far.color = .red) :
    ∃ next, eraseColorBlack f.side self f.x s = some (.over_ next) ∧
      Focus next rest (put f.side f.color s (put f.side .black f.x t near) (far.paint .black)) := by
  obtain ⟨⟨address,here,hole,other,sibling,outer⟩,heap,distinct⟩ := focus
  have heap : Heap self.node f.x t := heap
  rw [shape,addr_put] at other
  rw [shape] at sibling
  obtain ⟨sAddress,sWord,sNear,sFar,nearHeap,farHeap⟩ := heap_put.mp sibling
  have some_ : far ≠ .nil := by
    rintro rfl
    cases filled
  obtain ⟨rAddress,rWord,_,_⟩ := heap_root farHeap some_ .left
  have apart := (sibling_parts shape).nodup_iff.mp distinct
  obtain ⟨tag,atS,atP,inT,inN,inF,inK,_⟩ := exists_tag 0 _ apart
  rw [List.forall_mem_singleton] at atS atP
  have alone := (List.nodup_flatten.mp apart).1
  have atR := inF _ (addr_member some_)
  have ps : f.x ≠ s := differ atP atS (by simp)
  have pr : f.x ≠ addr far := differ atP atR (by simp)
  have sr : s ≠ addr far := differ atS atR (by simp)
  have np : addr near ≠ f.x := addr_ne address.filled (absent atP inN (by simp))
  have ns : addr near ≠ s := addr_ne sAddress.filled (absent atS inN (by simp))
  have nr : addr near ≠ addr far := addr_ne rAddress.filled (absent atR inN (by simp))
  obtain ⟨m,turned⟩ : ∃ m, m = (((self.put f.x (·.setChild f.side.other (addr near))).put s (·.setChild f.side f.x)).put (addr far)
    (setWord (word s .black))).putAt (addr near) fun n => setWord (n.parentColor &&& 1 ||| f.x) n := ⟨_,rfl⟩
  have away : ∀ {y k}, tag y = k → 1 < k → y ≠ addr far → (y ∈ near.list → y ≠ addr near) → m.node y = self.node y := by
    intro y k here above notR notN
    rw [turned,putAt_away notN,put_node,if_neg notR,put_node,if_neg (differ here atS (by omega)),put_node,if_neg (differ here atP (by omega))]
  have pTurned : m.node f.x = (self.node f.x).setChild f.side.other (addr near) := by
    rw [turned,putAt_node,if_neg fun both => np both.1.symm,put_node,if_neg pr,put_node,if_neg ps,put_node,if_pos rfl]
  have sTurned : m.node s = (self.node s).setChild f.side f.x := by
    rw [turned,putAt_node,if_neg fun both => ns both.1.symm,put_node,if_neg sr,put_node,if_pos rfl,put_node,if_neg ps.symm]
  have around : Hangs m.node 0 m.root f.x rest := by
    rw [show m.root = self.root by simp [turned]]
    apply hangs_same rest outer
    intro y member
    have here := inK y member
    exact away here (by decide) (differ here atR (by simp)) fun inside => absurd inside (absent here inN (by simp))
  have below : Heap m.node f.x t := by
    apply heap_same heap
    intro y member
    have here := inT y member
    exact away here (by decide) (differ here atR (by simp)) fun inside => absurd inside (absent here inN (by simp))
  have moved : Heap m.node f.x near := by
    rw [← paint_color near]
    apply heap_moved nearHeap (alone _ (by simp))
    · intro y member other
      have here := inN y member
      exact away here (by decide) (differ here atR (by simp)) fun _ => other
    · intro leaf
      rw [turned,putAt_at nearHeap leaf,put_node,if_neg nr,put_node,if_neg ns,put_node,if_neg np,
        (heap_root nearHeap leaf .left).2.1,word_moved sAddress.aligned]
  have painted : Heap m.node s (far.paint .black) := by
    apply heap_moved farHeap (alone _ (by simp))
    · intro y member other
      have here := inF y member
      exact away here (by decide) other fun inside => absurd inside (absent here inN (by simp))
    · intro _
      rw [turned,putAt_node,if_neg fun both => nr both.1.symm,put_node,if_pos rfl,put_node,if_neg sr.symm,put_node,if_neg pr.symm]
  obtain ⟨next,rotated,after⟩ := rotate_focus (d:=f.side) (c:=f.color) rest around address sAddress
    (by rw [pTurned,setChild_word,here]) (by rw [pTurned,setOther_child,hole]) (by rw [pTurned,setChild_child])
    (by rw [sTurned,setChild_child]) (by rw [sTurned,setChild_other,sFar,addr_paint]) below moved painted
    (by rwa [paint_list]) .black
  refine ⟨next,?_,after⟩
  unfold eraseColorBlack eraseColorLast
  simp only [load_filled sAddress.filled,Option.bind_eq_bind,Option.bind_some,sFar,blackAt_root farHeap sAddress.aligned,filled,
    reduceCtorEq,decide_false,Bool.false_eq_true,if_false,sNear,child_filled address.filled,child_filled sAddress.filled,
    color_filled rAddress.filled,HevRBTree.adoptKept,hevRbtreeNodeSetParent,store_if,← turned,rotated]

theorem inner_parts {s y : BitVec w} {a b far : Colored (BitVec w)} (shape : f.sibling = put f.side .black s (put f.side .red y a b) far) :
    (t.list++keys (f::rest)).Perm [[y],[s],[f.x],far.list,b.list,a.list,t.list,keys rest].flatten := by
  apply List.perm_iff_count.mpr
  intro z
  have outside : (t.list++keys (f::rest)).count z = _ := (sibling_parts shape).count_eq z
  have inside := (@put_perm _ f.side .red a b y).count_eq z
  simp only [List.count_append,List.count_cons,List.flatten_cons,List.flatten_nil,List.count_nil] at outside inside ⊢
  omega

-- The two turns of cases 3 and 4: the sibling and the parent give up a child each to the node that
-- will stand over them.
theorem inner_lifted {m n : HevRBTree w} {p s y : BitVec w} {a b : Colored (BitVec w)} (d : Side) (aHeap : Heap self.node y a)
    (bHeap : Heap self.node y b) (yAddress : Address y) (ps : p ≠ s) (py : p ≠ y) (sy : s ≠ y)
    (outA : ∀ z, z = p ∨ z = s ∨ z = y → addr a ≠ z) (outB : ∀ z, z = p ∨ z = s ∨ z = y → addr b ≠ z)
    (apart : ∀ z ∈ a.list, z ∉ b.list)
    (turned : m = (((self.put s (·.setChild d (addr b))).put y (·.setChild d.other s)).put p (·.setChild d.other y)).putAt (addr b)
      (setWord (word s .black)))
    (lifted : n = (((m.put p (·.setChild d.other (addr a))).put y (·.setChild d p)).put s (setWord (word y .black))).putAt (addr a)
      fun n => setWord (n.parentColor &&& 1 ||| p) n) :
    m.node y = (self.node y).setChild d.other s ∧ Lifted self n d.other y s p b a .black .black a.color := by
  have ap := outA p (by simp)
  have as_ := outA s (by simp)
  have ay := outA y (by simp)
  have bp := outB p (by simp)
  have bs := outB s (by simp)
  have by_ := outB y (by simp)
  have yTurned : m.node y = (self.node y).setChild d.other s := by
    rw [turned,putAt_node,if_neg fun both => by_ both.1.symm,put_node,if_neg py.symm,put_node,if_pos rfl,put_node,if_neg sy.symm]
  refine ⟨yTurned,by simp [lifted,turned],?_,?_,?_,?_,?_,?_⟩
  · rw [lifted,putAt_node,if_neg fun both => ay both.1.symm,put_node,if_neg sy.symm,put_node,if_pos rfl,put_node,if_neg py.symm,yTurned,
      other_other]
  · rw [lifted,putAt_node,if_neg fun both => as_ both.1.symm,put_node,if_pos rfl,put_node,if_neg sy,put_node,if_neg ps.symm,turned,
      putAt_node,if_neg fun both => bs both.1.symm,put_node,if_neg ps.symm,put_node,if_neg sy,put_node,if_pos rfl,other_other]
  · rw [lifted,putAt_node,if_neg fun both => ap both.1.symm,put_node,if_neg ps,put_node,if_neg py,put_node,if_pos rfl,turned,
      putAt_node,if_neg fun both => bp both.1.symm,put_node,if_pos rfl,put_node,if_neg py,put_node,if_neg ps,setChild_setChild]
  · intro leaf
    have out : addr b ∉ a.list := fun within => apart _ within (addr_member leaf)
    rw [lifted,putAt_away fun within => absurd within out,put_node,if_neg bs,put_node,if_neg by_,put_node,if_neg bp,turned,
      putAt_at bHeap leaf,put_node,if_neg bp,put_node,if_neg by_,put_node,if_neg bs]
  · intro leaf
    have out : addr a ∉ b.list := apart _ (addr_member leaf)
    rw [lifted,putAt_at aHeap leaf,put_node,if_neg as_,put_node,if_neg ay,put_node,if_neg ap,turned,
      putAt_away fun within => absurd within out,put_node,if_neg ap,put_node,if_neg ay,put_node,if_neg as_,
      (heap_root aHeap leaf .left).2.1,word_moved yAddress.aligned]
  · intro z notY notS notP notB notA
    rw [lifted,putAt_away notA,put_node,if_neg notS,put_node,if_neg notY,put_node,if_neg notP,turned,putAt_away notB,put_node,if_neg notP,
      put_node,if_neg notY,put_node,if_neg notS]

-- Cases 3 and 4: the sibling's inner child takes the parent's place and colour.
theorem erase_inner {s y : BitVec w} {a b far : Colored (BitVec w)} (shape : f.sibling = put f.side .black s (put f.side .red y a b) far)
    (focus : Focus self (f::rest) t) (dark : far.color = .black) (inner : b.color = .black) :
    ∃ next, eraseColorBlack f.side self f.x s = some (.over_ next) ∧
      Focus next rest (put f.side f.color y (put f.side .black f.x t a) (put f.side .black s b far)) := by
  obtain ⟨⟨address,here,hole,other,sibling,outer⟩,heap,distinct⟩ := focus
  have heap : Heap self.node f.x t := heap
  rw [shape,addr_put] at other
  rw [shape] at sibling
  obtain ⟨sAddress,sWord,sNear,sFar,nearHeap,farHeap⟩ := heap_put.mp sibling
  obtain ⟨yAddress,yWord,yNear,yFar,aHeap,bHeap⟩ := heap_put.mp nearHeap
  rw [addr_put] at sNear
  have apart := (inner_parts shape).nodup_iff.mp distinct
  obtain ⟨tag,atY,atS,atP,inF,inB,inA,inT,inK,_⟩ := exists_tag 0 _ apart
  rw [List.forall_mem_singleton] at atY atS atP
  obtain ⟨m,turned⟩ : ∃ m, m = (((self.put s (·.setChild f.side (addr b))).put y (·.setChild f.side.other s)).put f.x
    (·.setChild f.side.other y)).putAt (addr b) (setWord (word s .black)) := ⟨_,rfl⟩
  obtain ⟨n,lifted⟩ : ∃ n, n = (((m.put f.x (·.setChild f.side.other (addr a))).put y (·.setChild f.side f.x)).put s
    (setWord (word y .black))).putAt (addr a) fun n => setWord (n.parentColor &&& 1 ||| f.x) n := ⟨_,rfl⟩
  have outA : ∀ z, z = f.x ∨ z = s ∨ z = y → addr a ≠ z := by
    rintro z (rfl | rfl | rfl)
    · exact addr_ne address.filled (absent atP inA (by simp))
    · exact addr_ne sAddress.filled (absent atS inA (by simp))
    · exact addr_ne yAddress.filled (absent atY inA (by simp))
  have outB : ∀ z, z = f.x ∨ z = s ∨ z = y → addr b ≠ z := by
    rintro z (rfl | rfl | rfl)
    · exact addr_ne address.filled (absent atP inB (by simp))
    · exact addr_ne sAddress.filled (absent atS inB (by simp))
    · exact addr_ne yAddress.filled (absent atY inB (by simp))
  obtain ⟨yTurned,stands⟩ := inner_lifted f.side aHeap bHeap yAddress (differ atP atS (by simp)) (differ atP atY (by simp))
    (differ atS atY (by simp)) outA outB (fun z member => absent (inA z member) inB (by simp)) turned lifted
  obtain ⟨next,rotated,after⟩ := lifted_focus rest stands outer yAddress sAddress address here sFar
    (by rw [other_other,hole]) farHeap bHeap aHeap heap apart .black
  refine ⟨next,?_,?_⟩
  · unfold eraseColorBlack eraseColorLast
    simp only [load_filled sAddress.filled,Option.bind_eq_bind,Option.bind_some,sFar,blackAt_root farHeap sAddress.aligned,dark,
      decide_true,if_true,sNear,show self.blackAt y = some false by simpa using blackAt_root nearHeap sAddress.aligned,
      Bool.false_eq_true,if_false,load_filled yAddress.filled,yFar,child_filled address.filled,child_filled sAddress.filled,
      child_filled yAddress.filled,adopt_if,← turned,yTurned,setOther_child,yNear,color_filled sAddress.filled,HevRBTree.adoptKept,
      hevRbtreeNodeSetParent,store_if,← lifted,rotated]
  · rw [put_other,put_other,put_other,paint_color,← inner,paint_color] at after
    rw [← inner]
    exact after

-- Case 1: a red sibling takes the parent's place, and its inner child is the new sibling.
theorem erase_lift {s : BitVec w} {near far : Colored (BitVec w)} (shape : f.sibling = put f.side .red s near far)
    (focus : Focus self (f::rest) t) (some_ : near ≠ .nil) (dark : near.color = .black) :
    ∃ next, eraseColorTurn f.side self f.x s = eraseColorBlack f.side next f.x (addr near) ∧
      Focus next (⟨f.side,.red,f.x,near⟩::⟨f.side,f.color,s,far⟩::rest) t := by
  obtain ⟨⟨address,here,hole,other,sibling,outer⟩,heap,distinct⟩ := focus
  have heap : Heap self.node f.x t := heap
  rw [shape,addr_put] at other
  rw [shape] at sibling
  obtain ⟨sAddress,sWord,sNear,sFar,nearHeap,farHeap⟩ := heap_put.mp sibling
  obtain ⟨nAddress,nWord,_,_⟩ := heap_root nearHeap some_ .left
  have apart := (sibling_parts shape).nodup_iff.mp distinct
  obtain ⟨tag,atS,atP,inT,inN,inF,inK,_⟩ := exists_tag 0 _ apart
  rw [List.forall_mem_singleton] at atS atP
  have alone := (List.nodup_flatten.mp apart).1
  have atN := inN _ (addr_member some_)
  have ps : f.x ≠ s := differ atP atS (by simp)
  have pn : f.x ≠ addr near := differ atP atN (by simp)
  have sn : s ≠ addr near := differ atS atN (by simp)
  obtain ⟨m,turned⟩ : ∃ m, m = ((self.put f.x (·.setChild f.side.other (addr near))).put s (·.setChild f.side f.x)).put (addr near)
    (setWord (word f.x .black)) := ⟨_,rfl⟩
  have away : ∀ {y k}, tag y = k → 1 < k → y ≠ addr near → m.node y = self.node y := by
    intro y k here above notN
    rw [turned,put_node,if_neg notN,put_node,if_neg (differ here atS (by omega)),put_node,if_neg (differ here atP (by omega))]
  have pTurned : m.node f.x = (self.node f.x).setChild f.side.other (addr near) := by
    rw [turned,put_node,if_neg pn,put_node,if_neg ps,put_node,if_pos rfl]
  have sTurned : m.node s = (self.node s).setChild f.side f.x := by
    rw [turned,put_node,if_neg sn,put_node,if_pos rfl,put_node,if_neg ps.symm]
  have around : Hangs m.node 0 m.root f.x rest := by
    rw [show m.root = self.root by simp [turned]]
    apply hangs_same rest outer
    intro y member
    exact away (inK y member) (by decide) (differ (inK y member) atN (by simp))
  have below : Heap m.node f.x t := heap_same heap fun y member =>
    away (inT y member) (by decide) (differ (inT y member) atN (by simp))
  have beyond : Heap m.node s far := heap_same farHeap fun y member =>
    away (inF y member) (by decide) (differ (inF y member) atN (by simp))
  have painted : Heap m.node f.x near := by
    rw [← paint_color near,dark]
    apply heap_moved nearHeap (alone _ (by simp))
    · exact fun y member other => away (inN y member) (by decide) other
    · intro _
      rw [turned,put_node,if_pos rfl,put_node,if_neg sn.symm,put_node,if_neg pn.symm]
  obtain ⟨next,rotated,after⟩ := rotate_focus (d:=f.side) (c:=f.color) rest around address sAddress
    (by rw [pTurned,setChild_word,here]) (by rw [pTurned,setOther_child,hole]) (by rw [pTurned,setChild_child])
    (by rw [sTurned,setChild_child]) (by rw [sTurned,setChild_other,sFar]) below painted beyond apart .red
  have held : Holds next (plug rest (put f.side f.color s (put f.side .red f.x t near) far)) := (holds_focus _ _).mpr after
  refine ⟨next,?_,(holds_focus (⟨f.side,.red,f.x,near⟩::⟨f.side,f.color,s,far⟩::rest) t).mp held⟩
  have red : hevRbtreeNodeIsRed (self.node s) = true := by
    rw [hevRbtreeNodeIsRed,sWord,black_word address.aligned sAddress.filled]
    rfl
  unfold eraseColorTurn
  simp only [load_filled sAddress.filled,Option.bind_eq_bind,Option.bind_some,red,if_true,sNear,child_filled address.filled,
    child_filled sAddress.filled,color_filled nAddress.filled,← turned,rotated]

theorem turn_dark {s : BitVec w} {near far : Colored (BitVec w)} (shape : f.sibling = put f.side .black s near far)
    (focus : Focus self (f::rest) t) : eraseColorTurn f.side self f.x s = eraseColorBlack f.side self f.x s := by
  obtain ⟨⟨address,_,_,_,sibling,_⟩,_,_⟩ := focus
  rw [shape] at sibling
  obtain ⟨sAddress,sWord,_⟩ := heap_put.mp sibling
  have black : hevRbtreeNodeIsRed (self.node s) = false := by
    rw [hevRbtreeNodeIsRed,sWord,black_word address.aligned sAddress.filled]
    rfl
  unfold eraseColorTurn
  simp only [load_filled sAddress.filled,Option.bind_eq_bind,Option.bind_some,black,Bool.false_eq_true,if_false]

theorem mend_turn (focus : Focus self (f::rest) t) (sibling : f.sibling.Balanced .black (n+1)) :
    ∃ next, eraseColorBlack f.side self f.x (addr f.sibling) =
        some (if (mend f t).2 = true ∧ rest ≠ [] then .again next f.x (top 0 rest) else .over_ next) ∧
      Focus next rest (mend f t).1 := by
  cases same : f.sibling with
  | nil =>
    rw [same] at sibling
    cases sibling
  | node c a s b =>
    rw [same] at sibling
    cases sibling.rooted
    obtain ⟨shadeNear,shadeFar,left,right⟩ := sibling.sides f.side
    have shape : f.sibling = put f.side .black s ((Colored.node .black a s b).child f.side) ((Colored.node .black a s b).child f.side.other) :=
      same.trans (node_put f.side)
    unfold mend
    rw [same]
    dsimp only [addr]
    split
    · rename_i red
      obtain ⟨next,turned,after⟩ := erase_outer shape focus red
      exact ⟨next,turned.trans (congrArg some (if_neg (by simp)).symm),after⟩
    · rename_i notRed
      have darkFar : ((Colored.node Color.black a s b).child f.side.other).color = .black := by
        cases shade : ((Colored.node Color.black a s b).child f.side.other).color with
        | red => exact (notRed shade).elim
        | black => rfl
      split
      · rename_i a' y b' inner
        rw [inner] at left
        cases left.rooted
        rw [inner,node_put f.side] at shape
        obtain ⟨next,turned,after⟩ := erase_inner shape focus darkFar (left.red_sides f.side.other).rooted
        exact ⟨next,turned.trans (congrArg some (if_neg (by simp)).symm),after⟩
      · rename_i other
        obtain ⟨next,turned,after⟩ := erase_flip shape focus (not_red other) darkFar
        have flat : put f.side .red s ((Colored.node .black a s b).child f.side) ((Colored.node .black a s b).child f.side.other) =
            .node .red a s b := by
          cases f.side <;> rfl
        rw [flat] at after
        refine ⟨next,turned.trans (congrArg some ?_),after⟩
        by_cases ended : rest = [] <;> cases color : f.color <;> simp [ended]

theorem mend_addr (short : (mend f t).2 = true) : addr (mend f t).1 = f.x := by
  unfold mend at short ⊢
  split
  · exact addr_put
  · rename_i c a s b same
    rw [same] at short
    dsimp only at short ⊢
    split
    · rename_i red
      rw [if_pos red] at short
      cases short
    · rename_i notRed
      rw [if_neg notRed] at short
      split
      · rename_i inner
        rw [inner] at short
        cases short
      · exact addr_put

theorem erase_side (focus : Focus self (f::rest) t) (some_ : f.sibling ≠ .nil) (fuel : Nat) :
    eraseColorLoop (fuel+1) self (addr t) f.x = (eraseColorTurn f.side self f.x (addr f.sibling)).bind
      (LoopTurn.follow (eraseColorLoop fuel)) := by
  obtain ⟨⟨address,_,hole,other,sibling,_⟩,_,distinct⟩ := focus
  have apart : addr f.sibling ≠ addr t := by
    intro same
    have inside := addr_member some_
    cases t with
    | nil => exact (heap_root sibling some_ .left).1.filled same
    | node c l x r =>
      have both := (List.nodup_append'.mp distinct).2.2 (addr_member (by simp : Colored.node c l x r ≠ .nil))
      exact both (by simp [keys,← same,inside])
  rw [eraseColorLoop,load_filled address.filled]
  simp only [Option.bind_eq_bind,Option.bind_some]
  cases side : f.side with
  | left =>
    rw [side] at other
    have right : (self.node f.x).right = addr f.sibling := other
    rw [right,if_pos apart.symm]
  | right =>
    rw [side] at hole other
    have right : (self.node f.x).right = addr t := hole
    have left : (self.node f.x).left = addr f.sibling := other
    rw [right,left,if_neg (by simp)]

theorem dark_turn (focus : Focus self (f::rest) t) (sibling : f.sibling.Balanced .black (n+1)) :
    ∃ next, eraseColorTurn f.side self f.x (addr f.sibling) =
        some (if (mend f t).2 = true ∧ rest ≠ [] then .again next f.x (top 0 rest) else .over_ next) ∧
      Focus next rest (mend f t).1 := by
  cases same : f.sibling with
  | nil =>
    rw [same] at sibling
    cases sibling
  | node c a s b =>
    have color := sibling.rooted
    rw [same] at color
    cases color
    have whole := mend_turn focus sibling
    rw [same] at whole
    rw [show addr (Colored.node Color.black a s b) = s from rfl,turn_dark (same.trans (node_put f.side)) focus]
    exact whole

-- A turn either is the last one, or passes the shortage on to the parent.
def Turns (m : HevRBTree w) (f : Frame (BitVec w)) (rest : List (Frame (BitVec w))) (t : Colored (BitVec w)) (n : Nat) : Prop :=
  (∃ next, eraseColorTurn f.side m f.x (addr f.sibling) = some (.over_ next) ∧ Holds next (fixErase (f::rest) t)) ∨
    ∃ next, rest ≠ [] ∧ eraseColorTurn f.side m f.x (addr f.sibling) = some (.again next f.x (top 0 rest)) ∧
      Focus next rest (mend f t).1 ∧ addr (mend f t).1 = f.x ∧ fixErase (f::rest) t = fixErase rest (mend f t).1 ∧
      (mend f t).1.Balanced .black (n+1) ∧ ∃ shade, Fits rest shade (n+1+1)

theorem dark_turns (focus : Focus self (f::rest) t) (short : t.Balanced .black n) (sibling : f.sibling.Balanced .black (n+1))
    (outer : f.color = .black → ∃ shade, Fits rest shade (n+1+1)) : Turns self f rest t n := by
  obtain ⟨next,turned,after⟩ := dark_turn focus sibling
  unfold Turns
  rw [fixErase_dark sibling.rooted,turned]
  rcases mend_balanced short sibling with ⟨flag,_⟩ | ⟨flag,color,mended⟩
  · rw [if_neg (by simp [flag]),flag]
    exact .inl ⟨next,rfl,(holds_focus _ _).mpr after⟩
  · rw [if_pos flag]
    by_cases ended : rest = []
    · subst ended
      rw [if_neg (by simp)]
      exact .inl ⟨next,rfl,(holds_focus _ _).mpr after⟩
    · rw [if_pos ⟨flag,ended⟩]
      exact .inr ⟨next,ended,rfl,after,mend_addr flag,rfl,mended,outer color⟩

-- Behind a red sibling the parent is red, and the turn is the last one.
theorem red_turns (focus : Focus self (f::rest) t) (short : t.Balanced .black n) (sibling : f.sibling.Balanced .red (n+1)) :
    Turns self f rest t n := by
  cases same : f.sibling with
  | nil =>
    rw [same] at sibling
    cases sibling
  | node c a s b =>
    rw [same] at sibling
    cases sibling.rooted
    have near := sibling.red_sides f.side
    have some_ : (Colored.node Color.red a s b).child f.side ≠ .nil := by
      intro leaf
      rw [leaf] at near
      cases near
    obtain ⟨middle,lifted,inner⟩ := erase_lift (same.trans (node_put f.side)) focus some_ near.rooted
    obtain ⟨next,turned,after⟩ := mend_turn inner near
    let f' : Frame (BitVec w) := ⟨f.side,.red,f.x,(Colored.node Color.red a s b).child f.side⟩
    have ended : (mend f' t).2 = false := by
      rcases mend_balanced (f:=f') short near with ⟨flag,_⟩ | ⟨_,dark,_⟩
      · exact flag
      · cases dark
    refine .inl ⟨next,?_,?_⟩
    · rw [same,addr,lifted,turned,if_neg fun both => by cases ended.symm.trans both.1]
    · simp only [fixErase,same]
      exact (holds_focus _ _).mpr after

theorem erase_turns (focus : Focus self (f::rest) t) (fits : Fits (f::rest) shade (n+1)) (short : t.Balanced .black n) :
    Turns self f rest t n := by
  cases shade with
  | red =>
    obtain ⟨color,sibling,_⟩ := fits.parent
    exact dark_turns focus short sibling fun black => (by cases color.symm.trans black)
  | black =>
    obtain ⟨color,c,above,sibling,outer⟩ := fits.black_parent
    cases c with
    | black => exact dark_turns focus short sibling fun _ => ⟨above,outer⟩
    | red => exact red_turns focus short sibling

theorem sibling_exists (fits : Fits (f::rest) shade (n+1)) : f.sibling ≠ .nil := by
  intro leaf
  cases fits with
  | red color sibling outer =>
    rw [leaf] at sibling
    cases sibling
  | black color sibling outer =>
    rw [leaf] at sibling
    cases sibling

-- Upwards from the parent of a short subtree: the loop does to the memory what the
-- tree's own function does.
theorem erase_loop (rest : List (Frame (BitVec w))) (focus : Focus self (f::rest) t) (fits : Fits (f::rest) shade (n+1))
    (short : t.Balanced .black n) : ∃ next, (∀ fuel, (f::rest).length < fuel → eraseColorLoop fuel self (addr t) f.x = some next) ∧
      Holds next (fixErase (f::rest) t) := by
  induction rest generalizing f self t n shade with
  | nil =>
    have some_ := sibling_exists fits
    rcases erase_turns focus fits short with ⟨next,turned,holds⟩ | ⟨_,ended,_⟩
    · refine ⟨next,fun fuel more => ?_,holds⟩
      obtain ⟨k,rfl⟩ := Nat.exists_eq_add_of_lt more
      rw [erase_side focus some_,turned]
      rfl
    · exact (ended rfl).elim
  | cons g rest ih =>
    have some_ := sibling_exists fits
    rcases erase_turns focus fits short with ⟨next,turned,holds⟩ | ⟨middle,_,turned,after,here,same,mended,shade,outer⟩
    · refine ⟨next,fun fuel more => ?_,holds⟩
      obtain ⟨k,rfl⟩ := Nat.exists_eq_add_of_lt more
      rw [erase_side focus some_,turned]
      rfl
    · obtain ⟨next,ends,holds⟩ := ih after outer mended
      rw [same]
      refine ⟨next,fun fuel more => ?_,holds⟩
      obtain ⟨k,rfl⟩ := Nat.exists_eq_add_of_lt more
      rw [erase_side focus some_,turned,← here]
      exact ends _ (by simp only [List.length_cons] at more ⊢; omega)

theorem close_holds {gone kept : Color} (path : List (Frame (BitVec w))) (focus : Focus self path (t.paint kept)) (fits : Fits path shade n)
    (balanced : (Colored.node gone .nil x t).Balanced gone n) :
    ∃ next, (∀ fuel, path.length < fuel →
        (if start path gone t ≠ 0 then eraseColorLoop fuel self 0 (start path gone t) else some self) = some next) ∧
      Holds next (close path gone kept t) := by
  have ended : start path gone t = 0 → close path gone kept t = plug path (t.paint kept) →
      ∃ next, (∀ fuel, path.length < fuel →
        (if start path gone t ≠ 0 then eraseColorLoop fuel self 0 (start path gone t) else some self) = some next) ∧
      Holds next (close path gone kept t) := by
    intro none same
    rw [same]
    exact ⟨self,fun fuel _ => if_neg (fun filled => filled none),(holds_focus _ _).mpr focus⟩
  cases t with
  | node c l y r => exact ended rfl rfl
  | nil =>
    cases gone with
    | red => exact ended rfl rfl
    | black =>
      cases path with
      | nil => exact ended rfl rfl
      | cons f rest =>
        cases balanced with
        | black a b =>
          cases a
          obtain ⟨next,ends,holds⟩ := erase_loop rest focus fits .nil
          refine ⟨next,fun fuel more => ?_,holds⟩
          rw [start,if_pos rfl,top,if_pos focus.hangs.1.filled]
          exact ends fuel more

-- Cases 2 and 3.
theorem erase_both {rc gone : Color} {rl rr child : Colored (BitVec w)} {z s : BitVec w} {inner : List (Frame (BitVec w))}
    (path : List (Frame (BitVec w))) (focus : Focus self path (.node c l x (.node rc rl z rr))) (some_ : l ≠ .nil)
    (first : takeFirst [] rc rl z rr = (inner,gone,s,child)) :
    ∃ next, (∀ fuel, inner.length < fuel →
        hevRbtreeEraseNode fuel self x = some (next,start (inner++⟨.right,c,s,l⟩::path) gone child)) ∧
      Focus next (inner++⟨.right,c,s,l⟩::path) (child.paint .black) := by
  obtain ⟨hangs,⟨address,here,left,right⟩,distinct⟩ := focus
  have hangs : Hangs self.node 0 self.root x path := hangs
  have order := takeFirst_plug [] rc rl z rr
  simp only [first] at order
  have perm := plug_perm inner (.node gone .nil s child)
  rw [order,plug] at perm
  have listed : ((Colored.node c l x (.node rc rl z rr)).list++keys path).Perm
      [[x],[s],l.list,child.list,keys inner,keys path].flatten := by
    apply List.perm_iff_count.mpr
    intro y
    have inside := perm.count_eq y
    simp only [Colored.list,List.count_append,List.count_cons,List.flatten_cons,List.flatten_nil,List.count_nil] at inside ⊢
    omega
  have apart := listed.nodup_iff.mp distinct
  obtain ⟨tag,atX,atS,inL,inC,inI,inK,_⟩ := exists_tag 0 _ apart
  rw [List.forall_mem_singleton] at atX atS
  have member : ∀ y ∈ (Colored.node rc rl z rr).list, tag y = 1 ∨ tag y = 3 ∨ tag y = 4 := by
    intro y inside
    rcases List.mem_append.mp (perm.mem_iff.mp inside) with low | high
    · rcases List.mem_cons.mp low with rfl | low
      · exact .inl atS
      · exact .inr (.inl (inC y low))
    · exact .inr (.inr (inI y high))
  have away : ∀ {y k}, tag y = k → k = 0 ∨ k = 2 ∨ k = 5 → y ∉ (Colored.node rc rl z rr).list := by
    intro y k here place inside
    have := member y inside
    omega
  have alone : (Colored.node rc rl z rr).list.Nodup := by
    have whole := (List.nodup_append'.mp distinct).1
    exact (List.nodup_cons.mp (List.nodup_append'.mp whole).2.1).2
  obtain ⟨m,detached,parts,rooted,same⟩ := detach x address.aligned right alone first
  have xSame := same x (away atX (.inl rfl))
  have around : Hangs m.node 0 m.root x path := by
    rw [rooted]
    apply hangs_same path hangs
    exact fun y inside => same y (away (inK y inside) (.inr (.inr rfl)))
  obtain ⟨next,replaced,after⟩ := replace_node path around address (by rw [xSame,here]) (by rw [xSame,here])
    (heap_same left fun y inside => same y (away (inL y inside) (.inr (.inl rfl)))) some_ parts apart
  refine ⟨next,fun fuel more => ?_,after⟩
  have filled := (heap_root left some_ .left).1.filled
  unfold hevRbtreeEraseNode
  simp only [load_filled address.filled,Option.bind_eq_bind,Option.bind_some,here,filled,if_false,addr_node,right.1.filled,detached fuel more]
  exact replaced

-- An erasure ends, and leaves the red-black tree without the node.
theorem erase_holds (holds : Holds self t) (balanced : IsRedBlack t) (member : x ∈ t.list) :
    ∃ next t', (∀ fuel, t.list.length < fuel → hevRbtreeErase fuel self x = some next) ∧ Holds next t' ∧ IsRedBlack t' ∧
      t'.list = t.list.erase x := by
  obtain ⟨path,c,l,r,rfl⟩ := plug_of_member member
  have focus := (holds_focus path _).mp holds
  obtain ⟨above,_,n,fits,node,_⟩ := fits_of_plug balanced
  cases node.rooted
  have order : (eraseAt path (.node c l x r)).list = (plug path (.node c l x r)).list.erase x := by
    obtain ⟨before,after,whole,without⟩ := eraseAt_list path c l x r
    have distinct := holds.distinct
    rw [whole] at distinct ⊢
    have fresh : x ∉ before := fun inside => (List.nodup_append'.mp distinct).2.2 inside List.mem_cons_self
    rw [without,List.erase_append_right _ fresh,List.erase_cons_head]
  have sound := eraseAt_balanced balanced
  suffices ∃ next, (∀ fuel, (plug path (.node c l x r)).list.length < fuel → hevRbtreeErase fuel self x = some next) ∧
      Holds next (eraseAt path (.node c l x r)) by
    obtain ⟨next,ends,after⟩ := this
    exact ⟨next,_,ends,after,sound,order⟩
  have short := plug_length path (.node c l x r)
  cases l with
  | nil =>
    obtain ⟨middle,erased,after⟩ := erase_right path focus
    obtain ⟨next,ends,holds⟩ := close_holds path after fits node
    refine ⟨next,fun fuel more => ?_,holds⟩
    rw [hevRbtreeErase,erased]
    exact ends fuel (by omega)
  | node lc ll y lr =>
    cases r with
    | nil =>
      obtain ⟨next,erased,after⟩ := erase_left path focus (by simp)
      refine ⟨next,fun fuel _ => ?_,(holds_focus _ _).mpr after⟩
      simp only [hevRbtreeErase,erased,Option.bind_eq_bind,Option.bind_some]
      exact if_neg (not_not.mpr rfl)
    | node rc rl z rr =>
      have first := takeFirst_plug [] rc rl z rr
      simp only [eraseAt]
      cases taken : takeFirst [] rc rl z rr with
      | mk inner rest =>
        obtain ⟨gone,s,child⟩ := rest
        rw [taken] at first
        have whole : plug path (.node c (.node lc ll y lr) x (.node rc rl z rr)) =
            plug (inner++⟨.right,c,x,.node lc ll y lr⟩::path) (.node gone .nil s child) := by
          rw [plug_under]
          exact congrArg (fun t => plug path (.node c (.node lc ll y lr) x t)) first.symm
        rw [whole] at balanced ⊢
        have deep := plug_length (inner++⟨.right,c,x,.node lc ll y lr⟩::path) (.node gone .nil s child)
        rw [List.length_append,List.length_cons] at deep
        obtain ⟨above,_,n,fits,node,_⟩ := fits_of_plug balanced
        cases node.rooted
        obtain ⟨middle,erased,after⟩ := erase_both path focus (by simp) taken
        obtain ⟨next,ends,holds⟩ := close_holds _ after (fits_rename s fits) node
        refine ⟨next,fun fuel more => ?_,holds⟩
        rw [hevRbtreeErase,erased fuel (by omega)]
        exact ends fuel (by rw [List.length_append,List.length_cons]; omega)

end Psocks.RBTree
