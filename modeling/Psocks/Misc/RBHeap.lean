import Mathlib.Algebra.Group.Nat.Defs
import Psocks.Lib.Apart
import Psocks.Misc.HevRBTree

namespace Psocks.RBTree
open SearchTree RedBlack Apart
variable {w : Nat}

-- Node addresses are not NULL, and the two bits under the alignment are clear.
structure Address (x : BitVec w) : Prop where
  filled : x ≠ 0
  aligned : x &&& 3 = 0

def word (up : BitVec w) (color : Color) : BitVec w := up ||| bits color

def addr : Colored (BitVec w) → BitVec w
  | .nil => 0
  | .node _ _ x _ => x

-- The memory holds the tree with its root's parent at `up`.
def Heap (node : BitVec w → HevRBTreeNode w) (up : BitVec w) : Colored (BitVec w) → Prop
  | .nil => True
  | .node c l x r => Address x ∧ node x = ⟨word up c,addr r,addr l⟩ ∧ Heap node x l ∧ Heap node x r

def top (up : BitVec w) : List (Frame (BitVec w)) → BitVec w
  | [] => up
  | f::_ => f.x

-- The memory holds what is around a hole, with `a` in the hole and the whole at `root`.
def Hangs (node : BitVec w → HevRBTreeNode w) (up root a : BitVec w) : List (Frame (BitVec w)) → Prop
  | [] => root = a
  | f::rest => Address f.x ∧ (node f.x).parentColor = word (top up rest) f.color ∧ (node f.x).child f.side = a ∧
    (node f.x).child f.side.other = addr f.sibling ∧ Heap node f.x f.sibling ∧ Hangs node up root f.x rest

structure Holds (m : HevRBTree w) (t : Colored (BitVec w)) : Prop where
  root : m.root = addr t
  heap : Heap m.node 0 t
  distinct : t.list.Nodup

variable {node next : BitVec w → HevRBTreeNode w} {self : HevRBTree w} {root up up' a a' x y : BitVec w} {c : Color} {d : Side}
variable {t l r near far : Colored (BitVec w)} {f : Frame (BitVec w)} {rest : List (Frame (BitVec w))}

theorem three_bits (i : Nat) (inside : i < w) : (3 : BitVec w)[i] = decide (i < 2) := by
  have bit : (3 : BitVec w)[i] = Nat.testBit 3 i := by
    rw [← BitVec.getLsbD_eq_getElem inside]
    exact (BitVec.getLsbD_ofNat w 3 i).trans (by simp [inside])
  rw [bit]
  rcases i with _ | _ | i
  · rfl
  · rfl
  · have wide : 2^2 ≤ 2^(i+1+1) := Nat.pow_le_pow_right (by decide) (by omega)
    rw [Nat.testBit_lt_two_pow (by omega)]
    simp

theorem low_clear (aligned : up &&& 3 = 0) (i : Nat) (inside : i < w) (low : i < 2) : up[i] = false := by
  have bit : (up &&& 3)[i] = false := by
    rw [aligned]
    simp
  rw [BitVec.getElem_and,three_bits i inside] at bit
  simpa [low] using bit

theorem parent_word (aligned : up &&& 3 = 0) (c : Color) : wordParent (word up c) = up := by
  unfold wordParent word
  ext i inside
  rw [BitVec.getElem_and,BitVec.getElem_or,BitVec.getElem_not,three_bits i inside]
  by_cases low : i < 2
  · simp [low,low_clear aligned i inside low]
  · cases c with
    | red => simp [bits,low]
    | black =>
      have high : i ≠ 0 := by omega
      simp [bits,low,high]

theorem color_word (aligned : up &&& 3 = 0) (c : Color) : word up c &&& 1 = bits c := by
  unfold word
  ext i inside
  rw [BitVec.getElem_and,BitVec.getElem_or]
  by_cases low : i = 0
  · subst low
    rw [low_clear aligned 0 inside (by decide)]
    cases c <;> simp [bits]
  · cases c <;> simp [bits,low]

theorem black_word (aligned : up &&& 3 = 0) (exists_ : x ≠ 0) (c : Color) : wordIsBlack (word up c) = (c = .black : Bool) := by
  unfold wordIsBlack
  rw [color_word aligned]
  cases c with
  | red => simp [bits]
  | black =>
    have wide : w ≠ 0 := by
      rintro rfl
      exact exists_ (BitVec.eq_nil x)
    simp [bits,wide]

theorem word_red (up : BitVec w) : word up .red = up := BitVec.or_zero

theorem word_blacken (up : BitVec w) (c : Color) : word up c ||| 1 = word up .black := by
  unfold word
  rw [BitVec.or_assoc]
  cases c <;> simp [bits]

theorem word_moved (aligned : up &&& 3 = 0) (up' : BitVec w) (c : Color) : word up c &&& 1 ||| up' = word up' c := by
  rw [color_word aligned,BitVec.or_comm]
  rfl

theorem put_node (self : HevRBTree w) (p y : BitVec w) (f : HevRBTreeNode w → HevRBTreeNode w) :
    (self.put p f).node y = if y = p then f (self.node p) else self.node y := Function.update_apply ..

@[simp] theorem put_root (self : HevRBTree w) (p : BitVec w) (f : HevRBTreeNode w → HevRBTreeNode w) : (self.put p f).root = self.root := rfl

@[simp] theorem setChild_child (n : HevRBTreeNode w) (d : Side) (v : BitVec w) : (n.setChild d v).child d = v := by cases d <;> rfl

@[simp] theorem setChild_other (n : HevRBTreeNode w) (d : Side) (v : BitVec w) : (n.setChild d v).child d.other = n.child d.other := by
  cases d <;> rfl

@[simp] theorem setOther_child (n : HevRBTreeNode w) (d : Side) (v : BitVec w) : (n.setChild d.other v).child d = n.child d := by
  cases d <;> rfl

@[simp] theorem setChild_setChild (n : HevRBTreeNode w) (d : Side) (u v : BitVec w) : (n.setChild d u).setChild d v = n.setChild d v := by
  cases d <;> rfl

@[simp] theorem setChild_word (n : HevRBTreeNode w) (d : Side) (v : BitVec w) : (n.setChild d v).parentColor = n.parentColor := by
  cases d <;> rfl

@[simp] theorem setWord_child (word : BitVec w) (n : HevRBTreeNode w) (d : Side) : (setWord word n).child d = n.child d := by
  cases d <;> rfl

@[simp] theorem setWord_word (word : BitVec w) (n : HevRBTreeNode w) : (setWord word n).parentColor = word := rfl

theorem load_filled (filled : x ≠ 0) : self.load x = some (self.node x) := if_neg filled

theorem store_filled (filled : x ≠ 0) (g : HevRBTreeNode w → HevRBTreeNode w) : self.store x g = some (self.put x g) := if_neg filled

theorem color_filled (filled : x ≠ 0) (up : BitVec w) (c : Color) :
    hevRbtreeNodeSetParentColor self x up c = some (self.put x (setWord (word up c))) := if_neg filled

theorem child_filled (filled : x ≠ 0) (d : Side) (v : BitVec w) : self.setChild x d v = some (self.put x (·.setChild d v)) := if_neg filled

theorem addr_leaf : addr (.nil : Colored (BitVec w)) = 0 := rfl

theorem addr_node : addr (.node c l x r) = x := rfl

@[simp] theorem addr_put : addr (put d c x near far) = x := by cases d <;> rfl

@[simp] theorem addr_paint (t : Colored (BitVec w)) : addr (t.paint c) = addr t := by cases t <;> rfl

theorem addr_member (filled : t ≠ .nil) : addr t ∈ t.list := by
  cases t with
  | nil => exact (filled rfl).elim
  | node c l x r => simp [addr,Colored.list]

theorem heap_put : Heap node up (put d c x near far) ↔ Address x ∧ (node x).parentColor = word up c ∧ (node x).child d = addr near ∧
    (node x).child d.other = addr far ∧ Heap node x near ∧ Heap node x far := by
  cases d <;> simp only [Heap,put,HevRBTreeNode.ext_iff,HevRBTreeNode.child,Side.other] <;> tauto

theorem heap_plug (path : List (Frame (BitVec w))) (t : Colored (BitVec w)) :
    (root = addr (plug path t) ∧ Heap node up (plug path t)) ↔ Hangs node up root (addr t) path ∧ Heap node (top up path) t := by
  induction path generalizing t with
  | nil => exact Iff.rfl
  | cons f rest ih =>
    rw [plug,ih]
    simp only [Frame.fill,heap_put,addr_put,Hangs,top]
    tauto

theorem heap_same (heap : Heap node up t) (same : ∀ y ∈ t.list, next y = node y) : Heap next up t := by
  induction t generalizing up with
  | nil => trivial
  | node c l x r left right =>
    obtain ⟨address,here,low,high⟩ := heap
    refine ⟨address,(same x (by simp [Colored.list])).trans here,left low ?_,right high ?_⟩
    · exact fun y member => same y (by simp [Colored.list,member])
    · exact fun y member => same y (by simp [Colored.list,member])

theorem heap_root (heap : Heap node up t) (filled : t ≠ .nil) (d : Side) : Address (addr t) ∧
    (node (addr t)).parentColor = word up t.color ∧ (node (addr t)).child d = addr (t.child d) ∧ Heap node (addr t) (t.child d) := by
  cases t with
  | nil => exact (filled rfl).elim
  | node c l x r =>
    obtain ⟨address,here,left,right⟩ := heap
    simp only [addr,here]
    cases d with
    | left => exact ⟨address,rfl,rfl,left⟩
    | right => exact ⟨address,rfl,rfl,right⟩

theorem addr_ne (filled : y ≠ 0) (out : y ∉ t.list) : addr t ≠ y := by
  rintro rfl
  cases t with
  | nil => exact filled rfl
  | node c l x r => exact out (addr_member (by simp))

theorem addr_nil (heap : Heap node up t) : addr t = 0 ↔ t = .nil := by
  constructor
  · intro none
    by_contra filled
    exact (heap_root heap filled .left).1.filled none
  · rintro rfl
    rfl

theorem redAt_root (heap : Heap self.node up t) (aligned : up &&& 3 = 0) : self.redAt (addr t) = some (t.color = .red : Bool) := by
  by_cases leaf : t = .nil
  · subst leaf
    exact if_pos rfl
  · obtain ⟨address,here,_⟩ := heap_root heap leaf .left
    rw [HevRBTree.redAt,if_neg address.filled,load_filled address.filled,Option.map_some,hevRbtreeNodeIsRed,here,
      black_word aligned address.filled]
    cases t.color <;> rfl

theorem blackAt_root (heap : Heap self.node up t) (aligned : up &&& 3 = 0) : self.blackAt (addr t) = some (t.color = .black : Bool) := by
  by_cases leaf : t = .nil
  · subst leaf
    exact if_pos rfl
  · obtain ⟨address,here,_⟩ := heap_root heap leaf .left
    rw [HevRBTree.blackAt,if_neg address.filled,load_filled address.filled,Option.map_some,hevRbtreeNodeIsBlack,here,
      black_word aligned address.filled]

-- Another parent, or another colour, of the root.
theorem heap_moved (heap : Heap node up t) (distinct : t.list.Nodup) (same : ∀ y ∈ t.list, y ≠ addr t → next y = node y)
    (moved : t ≠ .nil → next (addr t) = setWord (word up' c) (node (addr t))) : Heap next up' (t.paint c) := by
  cases t with
  | nil => trivial
  | node c' l x r =>
    obtain ⟨address,here,left,right⟩ := heap
    simp only [Colored.list,List.nodup_append,List.nodup_cons] at distinct
    refine ⟨address,?_,heap_same left fun y member => ?_,heap_same right fun y member => ?_⟩
    · rw [show next x = _ from moved (by simp)]
      simp only [addr,here,setWord]
    · exact same y (by simp [Colored.list,member]) fun equal => distinct.2.2 y member x (by simp) equal
    · apply same y (by simp [Colored.list,member])
      rintro rfl
      exact distinct.2.1.1 member

theorem hangs_same (path : List (Frame (BitVec w))) (hangs : Hangs node up root a path) (same : ∀ y ∈ keys path, next y = node y) :
    Hangs next up root a path := by
  induction path generalizing a with
  | nil => exact hangs
  | cons f rest ih =>
    obtain ⟨address,here,hole,other,sibling,outer⟩ := hangs
    rw [← same f.x (by simp [keys])] at here hole other
    refine ⟨address,here,hole,other,heap_same sibling fun y member => ?_,ih outer fun y member => ?_⟩
    · exact same y (by simp [keys,member])
    · exact same y (by simp [keys,member])

theorem top_aligned (path : List (Frame (BitVec w))) (hangs : Hangs node 0 root a path) : top 0 path &&& 3 = 0 := by
  cases path with
  | nil => exact BitVec.zero_and
  | cons f rest => exact hangs.1.aligned

-- The memory holds a subtree and what is around it.
structure Focus (m : HevRBTree w) (path : List (Frame (BitVec w))) (t : Colored (BitVec w)) : Prop where
  hangs : Hangs m.node 0 m.root (addr t) path
  heap : Heap m.node (top 0 path) t
  distinct : (t.list++keys path).Nodup

theorem holds_focus (path : List (Frame (BitVec w))) (t : Colored (BitVec w)) : Holds self (plug path t) ↔ Focus self path t := by
  have split := @heap_plug _ self.node self.root 0 path t
  have order := (plug_perm path t).nodup_iff
  constructor
  · intro holds
    obtain ⟨hangs,heap⟩ := split.mp ⟨holds.root,holds.heap⟩
    exact ⟨hangs,heap,order.mp holds.distinct⟩
  · intro focus
    obtain ⟨root,heap⟩ := split.mpr ⟨focus.hangs,focus.heap⟩
    exact ⟨root,heap,order.mpr focus.distinct⟩

-- Another address in the hole.
theorem hangs_hole (hangs : Hangs node up root a (f::rest)) (distinct : (keys (f::rest)).Nodup)
    (hole : next f.x = (node f.x).setChild f.side a') (same : ∀ y ∈ keys (f::rest), y ≠ f.x → next y = node y) :
    Hangs next up root a' (f::rest) := by
  obtain ⟨address,here,_,other,sibling,outer⟩ := hangs
  simp only [keys,List.nodup_cons,List.mem_append,not_or] at distinct
  refine ⟨address,?_,?_,?_,?_,?_⟩
  · rw [hole,setChild_word,here]
  · rw [hole,setChild_child]
  · rw [hole,setChild_other,other]
  · apply heap_same sibling
    intro y member
    exact same y (by simp [keys,member]) fun equal => distinct.1.1 (equal ▸ member)
  · apply hangs_same rest outer
    intro y member
    exact same y (by simp [keys,member]) fun equal => distinct.1.2 (equal ▸ member)

theorem root_member (path : List (Frame (BitVec w))) (hangs : Hangs node up root a path) (some_ : path ≠ []) : root ∈ keys path := by
  induction path generalizing a with
  | nil => exact (some_ rfl).elim
  | cons f rest ih =>
    cases rest with
    | nil =>
      rw [show root = f.x from hangs.2.2.2.2.2]
      exact List.mem_cons_self
    | cons g rest =>
      have later := ih hangs.2.2.2.2.2 (by simp)
      rw [keys]
      exact List.mem_cons_of_mem _ (List.mem_append_right _ later)

-- Another parent over the outermost frame.
theorem hangs_up (path : List (Frame (BitVec w))) (hangs : Hangs node up root a path) (some_ : path ≠ []) (aligned : up &&& 3 = 0)
    (distinct : (keys path).Nodup) (moved : next root = setWord ((node root).parentColor &&& 1 ||| up') (node root))
    (same : ∀ y ∈ keys path, y ≠ root → next y = node y) : Hangs next up' root a path := by
  induction path generalizing a with
  | nil => exact (some_ rfl).elim
  | cons f rest ih =>
    obtain ⟨address,here,hole,other,sibling,outer⟩ := hangs
    simp only [keys,List.nodup_cons,List.nodup_append',List.mem_append,not_or] at distinct
    cases rest with
    | nil =>
      cases (show root = f.x from outer)
      refine ⟨address,?_,?_,?_,?_,rfl⟩
      · rw [moved,setWord_word,here]
        exact word_moved aligned up' f.color
      · rw [moved,setWord_child,hole]
      · rw [moved,setWord_child,other]
      · apply heap_same sibling
        intro y member
        exact same y (by simp [keys,member]) fun equal => distinct.1.1 (equal ▸ member)
    | cons g rest =>
      have inside := root_member (g::rest) outer (by simp)
      have apart : f.x ≠ root := fun equal => distinct.1.2 (equal ▸ inside)
      have fNode := same f.x (by simp [keys]) apart
      refine ⟨address,?_,?_,?_,?_,?_⟩
      · rw [fNode]
        exact here
      · rw [fNode,hole]
      · rw [fNode,other]
      · apply heap_same sibling
        intro y member
        exact same y (by simp [keys,member]) fun equal => distinct.2.2.2 member (equal ▸ inside)
      · apply ih outer (by simp) distinct.2.2.1
        intro y member
        exact same y (by rw [keys]; exact List.mem_cons_of_mem _ (List.mem_append_right _ member))

-- The child of a frame's node that pointed at `old` points at `new_`.
theorem change_child (path : List (Frame (BitVec w))) (hangs : Hangs self.node 0 self.root a path) (distinct : (keys path).Nodup)
    (filled : a ≠ 0) (apart : a ∉ keys path) (new_ : BitVec w) :
    ∃ next, hevRbtreeChangeChild self a new_ (top 0 path) = some next ∧ Hangs next.node 0 next.root new_ path ∧
      ∀ y ∉ keys path, next.node y = self.node y := by
  cases path with
  | nil => exact ⟨{self with root:=new_},if_neg (by simp [top]),rfl,fun _ _ => rfl⟩
  | cons f rest =>
    obtain ⟨address,_,hole,other,_,_⟩ := id hangs
    have set : hevRbtreeChangeChild self a new_ (top 0 (f::rest)) = some (self.put f.x (·.setChild f.side new_)) := by
      unfold hevRbtreeChangeChild
      rw [top,if_pos address.filled,load_filled address.filled]
      simp only [HevRBTree.setChild,store_filled address.filled,Option.bind_eq_bind,Option.bind_some]
      cases side : f.side with
      | left =>
        rw [side] at hole
        exact if_pos hole
      | right =>
        rw [side] at other
        have differs : addr f.sibling ≠ a := addr_ne filled fun member => apart (by simp [keys,member])
        exact if_neg fun same => differs (other.symm.trans same)
    refine ⟨_,set,?_,fun y outside => ?_⟩
    · apply hangs_hole hangs distinct
      · rw [put_node,if_pos rfl]
      · intro y _ differs
        rw [put_node,if_neg differs]
    · rw [put_node,if_neg]
      exact fun same => outside (by simp [same,keys])

def HevRBTree.putAt (self : HevRBTree w) (p : BitVec w) (f : HevRBTreeNode w → HevRBTreeNode w) : HevRBTree w :=
  if p = 0 then self else self.put p f

theorem store_if (p : BitVec w) (f : HevRBTreeNode w → HevRBTreeNode w) :
    (if p ≠ 0 then self.store p f else some self) = some (self.putAt p f) := by
  unfold HevRBTree.store HevRBTree.putAt
  split
  · rfl
  · rename_i none
    rw [if_pos (not_not.mp none)]

theorem adopt_if (p up : BitVec w) (c : Color) : self.adopt p up c = some (self.putAt p (setWord (word up c))) := store_if ..

@[simp] theorem putAt_root (p : BitVec w) (f : HevRBTreeNode w → HevRBTreeNode w) : (self.putAt p f).root = self.root := by
  unfold HevRBTree.putAt
  split <;> rfl

theorem putAt_node (self : HevRBTree w) (p y : BitVec w) (f : HevRBTreeNode w → HevRBTreeNode w) :
    (self.putAt p f).node y = if y = p ∧ p ≠ 0 then f (self.node p) else self.node y := by
  unfold HevRBTree.putAt
  split
  · rename_i none
    rw [if_neg (fun both => both.2 none)]
  · rename_i filled
    rw [put_node,if_congr (and_iff_left filled) rfl rfl]

theorem putAt_away (out : y ∈ t.list → y ≠ addr t) (f : HevRBTreeNode w → HevRBTreeNode w) :
    (self.putAt (addr t) f).node y = self.node y := by
  rw [putAt_node,if_neg]
  rintro ⟨same,filled⟩
  cases t with
  | nil => exact filled rfl
  | node c l x r => exact out (same ▸ addr_member (by simp)) same

theorem putAt_at (heap : Heap node up t) (filled : t ≠ .nil) (f : HevRBTreeNode w → HevRBTreeNode w) :
    (self.putAt (addr t) f).node (addr t) = f (self.node (addr t)) := by
  rw [putAt_node,if_pos ⟨rfl,(heap_root heap filled .left).1.filled⟩]

-- `new_` takes the place of `old` under the frames, and `old` becomes its child.
theorem rotate_parents {old new_ : BitVec w} (path : List (Frame (BitVec w))) (hangs : Hangs self.node 0 self.root old path)
    (distinct : (keys path).Nodup) (oldAddress : Address old) (newAddress : Address new_) (apart : old ≠ new_) (oldOut : old ∉ keys path)
    (newOut : new_ ∉ keys path) (here : (self.node old).parentColor = word (top 0 path) c) (color : Color) :
    ∃ next, hevRbtreeRotateSetParents self old new_ color = some next ∧ Hangs next.node 0 next.root new_ path ∧
      next.node new_ = setWord (word (top 0 path) c) (self.node new_) ∧ next.node old = setWord (word new_ color) (self.node old) ∧
      ∀ y, y ≠ new_ → y ≠ old → y ∉ keys path → next.node y = self.node y := by
  have aligned := top_aligned path hangs
  let m := (self.put new_ (setWord (word (top 0 path) c))).put old (setWord (word new_ color))
  have around : Hangs m.node 0 m.root old path := by
    apply hangs_same path hangs
    intro y member
    simp only [m,put_node]
    grind
  obtain ⟨next,changed,moved,same⟩ := change_child path around distinct oldAddress.filled oldOut new_
  refine ⟨next,?_,moved,?_,?_,?_⟩
  · simp only [hevRbtreeRotateSetParents,load_filled oldAddress.filled,store_filled newAddress.filled,color_filled oldAddress.filled,
      Option.bind_eq_bind,Option.bind_some,hevRbtreeNodeParent,here,parent_word aligned]
    exact changed
  · rw [same new_ newOut]
    simp [m,put_node,apart.symm]
  · rw [same old oldOut]
    simp [m,put_node,apart]
  · intro y notNew notOld outside
    rw [same y outside]
    simp [m,put_node,notNew,notOld]

-- The end of every rotation: once the three subtrees are where they go, the two nodes change places
-- under the frames, and the memory holds the rotated tree.
theorem rotate_focus {old new_ : BitVec w} {near mid far : Colored (BitVec w)} (path : List (Frame (BitVec w)))
    (hangs : Hangs self.node 0 self.root old path) (oldAddress : Address old) (newAddress : Address new_)
    (here : (self.node old).parentColor = word (top 0 path) c) (oldNear : (self.node old).child d = addr near)
    (oldFar : (self.node old).child d.other = addr mid) (newNear : (self.node new_).child d = old)
    (newFar : (self.node new_).child d.other = addr far) (nearHeap : Heap self.node old near) (midHeap : Heap self.node old mid)
    (farHeap : Heap self.node new_ far) (apart : [[new_],[old],near.list,mid.list,far.list,keys path].flatten.Nodup) (color : Color) :
    ∃ next, hevRbtreeRotateSetParents self old new_ color = some next ∧
      Focus next path (put d c new_ (put d color old near mid) far) := by
  obtain ⟨tag,atNew,atOld,inN,inM,inF,inK,_⟩ := exists_tag 0 _ apart
  rw [List.forall_mem_singleton] at atNew atOld
  have alone := (List.nodup_flatten.mp apart).1 _ (show keys path ∈ _ by simp)
  obtain ⟨next,rotated,moved,newNode,oldNode,same⟩ := rotate_parents path hangs alone oldAddress newAddress
    (differ atOld atNew (by simp)) (absent atOld inK (by simp)) (absent atNew inK (by simp)) here color
  have kept : ∀ {u : Colored (BitVec w)} {up : BitVec w} {k : Nat}, Heap self.node up u → (∀ y ∈ u.list, tag y = k) →
      1 < k → k < 5 → Heap next.node up u := by
    intro u up k heap inside low high
    apply heap_same heap
    intro y member
    have here := inside y member
    exact same y (differ here atNew (by omega)) (differ here atOld (by omega)) (absent here inK (by omega))
  refine ⟨next,rotated,?_,?_,?_⟩
  · rw [addr_put]
    exact moved
  · rw [heap_put,heap_put,addr_put,newNode,oldNode]
    refine ⟨newAddress,rfl,?_,?_,⟨oldAddress,rfl,?_,?_,?_,?_⟩,?_⟩
    · rw [setWord_child,newNear]
    · rw [setWord_child,newFar]
    · rw [setWord_child,oldNear]
    · rw [setWord_child,oldFar]
    · exact kept nearHeap inN (by decide) (by decide)
    · exact kept midHeap inM (by decide) (by decide)
    · exact kept farHeap inF (by decide) (by decide)
  · have order : ((put d c new_ (put d color old near mid) far).list++keys path).Perm
        [[new_],[old],near.list,mid.list,far.list,keys path].flatten := by
      apply List.perm_iff_count.mpr
      intro y
      have outside := (@put_perm _ d c (put d color old near mid) far new_).count_eq y
      have inside := (@put_perm _ d color near mid old).count_eq y
      simp only [List.count_append,List.count_cons,List.flatten_cons,List.flatten_nil,List.count_nil] at outside inside ⊢
      omega
    exact order.nodup_iff.mpr apart

-- A double rotation before its end: `y` stands over `q` and `p`, which have taken its children.
structure Lifted (m₀ m : HevRBTree w) (d : Side) (y q p : BitVec w) (a b : Colored (BitVec w)) (c ca cb : Color) : Prop where
  root : m.root = m₀.root
  top : m.node y = ((m₀.node y).setChild d q).setChild d.other p
  near : m.node q = setWord (word y c) ((m₀.node q).setChild d.other (addr a))
  far : m.node p = (m₀.node p).setChild d (addr b)
  inner : a ≠ .nil → m.node (addr a) = setWord (word q ca) (m₀.node (addr a))
  outer : b ≠ .nil → m.node (addr b) = setWord (word p cb) (m₀.node (addr b))
  away : ∀ z, z ≠ y → z ≠ q → z ≠ p → (z ∈ a.list → z ≠ addr a) → (z ∈ b.list → z ≠ addr b) → m.node z = m₀.node z

theorem lifted_focus {m : HevRBTree w} {p q : BitVec w} {u v v' u' : Colored (BitVec w)} {cq cv cv' : Color} (path : List (Frame (BitVec w)))
    (lifted : Lifted self m d y q p v v' cq cv cv') (hangs : Hangs self.node 0 self.root p path) (yAddress : Address y) (qAddress : Address q)
    (pAddress : Address p) (here : (self.node p).parentColor = word (top 0 path) c) (qNear : (self.node q).child d = addr u)
    (pFar : (self.node p).child d.other = addr u') (uHeap : Heap self.node q u) (vHeap : Heap self.node up v) (vHeap' : Heap self.node up' v')
    (uHeap' : Heap self.node p u') (apart : [[y],[q],[p],u.list,v.list,v'.list,u'.list,keys path].flatten.Nodup) (color : Color) :
    ∃ next, hevRbtreeRotateSetParents m p y color = some next ∧
      Focus next path (put d c y (put d cq q u (v.paint cv)) (put d color p (v'.paint cv') u')) := by
  obtain ⟨tag,atY,atQ,atP,inU,inV,inV',inU',inK,_⟩ := exists_tag 0 _ apart
  rw [List.forall_mem_singleton] at atY atQ atP
  have alone := (List.nodup_flatten.mp apart).1
  have away : ∀ {z k}, tag z = k → 2 < k → (z ∈ v.list → z ≠ addr v) → (z ∈ v'.list → z ≠ addr v') → m.node z = self.node z :=
    fun here above => lifted.away _ (differ here atY (by omega)) (differ here atQ (by omega)) (differ here atP (by omega))
  have out : ∀ {z k j} {t : Colored (BitVec w)}, tag z = k → (∀ y ∈ t.list, tag y = j) → k ≠ j → z ∈ t.list → z ≠ addr t :=
    fun here inside other member => absurd member (absent here inside other)
  have around : Hangs m.node 0 m.root p path := by
    rw [lifted.root]
    apply hangs_same path hangs
    intro z member
    have here := inK z member
    exact away here (by decide) (out here inV (by decide)) (out here inV' (by decide))
  have near : Heap m.node p u' := by
    apply heap_same uHeap'
    intro z member
    have here := inU' z member
    exact away here (by decide) (out here inV (by decide)) (out here inV' (by decide))
  have mid : Heap m.node p (v'.paint cv') := by
    apply heap_moved vHeap' (alone _ (by simp)) _ lifted.outer
    intro z member other
    have here := inV' z member
    exact away here (by decide) (out here inV (by decide)) fun _ => other
  have low : Heap m.node q u := by
    apply heap_same uHeap
    intro z member
    have here := inU z member
    exact away here (by decide) (out here inV (by decide)) (out here inV' (by decide))
  have high : Heap m.node q (v.paint cv) := by
    apply heap_moved vHeap (alone _ (by simp)) _ lifted.inner
    intro z member other
    have here := inV z member
    exact away here (by decide) (fun _ => other) (out here inV' (by decide))
  have far : Heap m.node y (put d cq q u (v.paint cv)) := by
    refine heap_put.mpr ⟨qAddress,?_,?_,?_,low,high⟩
    · rw [lifted.near,setWord_word]
    · rw [lifted.near,setWord_child,setOther_child,qNear]
    · rw [lifted.near,setWord_child,setChild_child,addr_paint]
  have order : [[y],[p],u'.list,(v'.paint cv').list,(put d cq q u (v.paint cv)).list,keys path].flatten.Perm
      [[y],[q],[p],u.list,v.list,v'.list,u'.list,keys path].flatten := by
    apply List.perm_iff_count.mpr
    intro z
    have inside := (@put_perm _ d cq u (v.paint cv) q).count_eq z
    simp only [paint_list,List.count_append,List.count_cons,List.flatten_cons,List.flatten_nil,List.count_nil] at inside ⊢
    omega
  have ends := rotate_focus (d:=d.other) path around pAddress yAddress (by rw [lifted.far,setChild_word,here])
    (by rw [lifted.far,setChild_other,pFar]) (by rw [lifted.far,other_other,setChild_child,addr_paint])
    (by rw [lifted.top,setChild_child]) (by rw [lifted.top,other_other,setOther_child,setChild_child,addr_put])
    near mid far (order.nodup_iff.mpr apart) color
  rwa [put_other,put_other] at ends

end Psocks.RBTree
