import Psocks.Misc.RBErase
import Psocks.Misc.RBInsert

namespace Psocks.RBTree
open SearchTree RedBlack
variable {w : Nat}

-- The nodes that child pointers lead to from the root.
inductive Within (m : HevRBTree w) : BitVec w → Prop
  | root (filled : m.root ≠ 0) : Within m m.root
  | child {p : BitVec w} (above : Within m p) (d : Side) (filled : (m.node p).child d ≠ 0) : Within m ((m.node p).child d)

-- With enough turns for its loops a call ends, and with no access to NULL.
def Completes (call : Nat → Option (HevRBTree w)) (next : HevRBTree w) : Prop := ∃ bound, ∀ fuel, bound < fuel → call fuel = some next

-- From a tree without nodes, by linking a node that is not in the tree at an empty child and
-- colouring it, and by erasing a node that is in it.
inductive Reached : HevRBTree w → Prop
  | empty (self : HevRBTree w) (none_ : self.root = 0) : Reached self
  | insert {self next : HevRBTree w} {x : BitVec w} (before : Reached self) (path : List Side) (slot : self.slot path 0 .root ≠ none)
    (address : Address x) (fresh : ¬Within self x) (went : Completes (fun fuel => self.insertAt fuel path x) next) : Reached next
  | erase {self next : HevRBTree w} {x : BitVec w} (before : Reached self) (inside : Within self x)
    (went : Completes (fun fuel => hevRbtreeErase fuel self x) next) : Reached next

variable {self : HevRBTree w} {x up : BitVec w} {t : Colored (BitVec w)}

theorem completes_same {call : Nat → Option (HevRBTree w)} {a b : HevRBTree w} (left : Completes call a) (right : Completes call b) : a = b := by
  obtain ⟨m,first⟩ := left
  obtain ⟨n,second⟩ := right
  exact Option.some.inj ((first (m+n+1) (by omega)).symm.trans (second (m+n+1) (by omega)))

theorem member_within (heap : Heap self.node up t) (above : t ≠ .nil → Within self (addr t)) : ∀ y ∈ t.list, Within self y := by
  induction t generalizing up with
  | nil => simp [Colored.list]
  | node c l z r left right =>
    have here : Within self z := above (by simp)
    have below : ∀ d, (Colored.node c l z r).child d ≠ .nil → Within self (addr ((Colored.node c l z r).child d)) := by
      intro d filled
      obtain ⟨_,_,pointer,inner⟩ := heap_root heap (by simp) d
      have some_ := (heap_root inner filled .left).1.filled
      rw [← pointer] at some_ ⊢
      exact .child here d some_
    obtain ⟨_,_,low,high⟩ := heap
    intro y member
    rcases List.mem_append.mp member with inside | rest
    · exact left low (below .left) y inside
    · rcases List.mem_cons.mp rest with rfl | inside
      · exact here
      · exact right high (below .right) y inside

theorem within_member (holds : Holds self t) : Within self x ↔ x ∈ t.list := by
  constructor
  · intro within
    induction within with
    | root filled =>
      rw [holds.root] at filled ⊢
      exact addr_member fun leaf => filled (leaf ▸ rfl)
    | @child p above d filled ih =>
      obtain ⟨path,c,l,r,rfl⟩ := plug_of_member ih
      have focus := (holds_focus path _).mp holds
      obtain ⟨_,_,pointer,_⟩ := heap_root focus.heap (by simp) d
      have pointer : (self.node p).child d = addr ((Colored.node c l p r).child d) := pointer
      rw [pointer] at filled ⊢
      have inside : addr ((Colored.node c l p r).child d) ∈ ((Colored.node c l p r).child d).list :=
        addr_member fun leaf => filled (leaf ▸ rfl)
      apply (plug_perm path _).mem_iff.mpr
      apply List.mem_append_left
      rw [(node_perm d).mem_iff]
      exact List.mem_cons_of_mem _ (List.mem_append_left _ inside)
  · intro member
    apply member_within holds.heap
    · intro filled
      have some_ := (heap_root holds.heap filled .left).1.filled
      rw [← holds.root] at some_ ⊢
      exact .root some_
    · exact member

theorem slot_empty (outer : List (Frame (BitVec w))) (path : List Side) (focus : Focus self outer t)
    (slot : self.slot path (top 0 outer) (linkOf outer) ≠ none) : IsSlot t.shape path := by
  induction path generalizing t outer with
  | nil =>
    rw [HevRBTree.slot,read_link outer focus.hangs] at slot
    have none_ : addr t = 0 := by
      by_contra filled
      exact slot (if_neg filled)
    rw [(addr_nil focus.heap).mp none_]
    rfl
  | cons d path ih =>
    rw [HevRBTree.slot,read_link outer focus.hangs] at slot
    cases t with
    | nil => exact (slot (if_pos rfl)).elim
    | node c l x r =>
      have filled : x ≠ 0 := focus.heap.1.filled
      rw [addr_node,if_neg filled] at slot
      have deeper := ih (⟨d,c,x,(Colored.node c l x r).child d.other⟩::outer) (child_focus focus d) slot
      cases d with
      | left => exact deeper
      | right => exact deeper

theorem reached_holds (reached : Reached self) : ∃ t, Holds self t ∧ IsRedBlack t := by
  induction reached with
  | empty self none_ => exact ⟨.nil,⟨none_,trivial,List.nodup_nil⟩,0,.nil⟩
  | insert before path slot address fresh went ih =>
    obtain ⟨t,holds,balanced⟩ := ih
    have empty := slot_empty [] path ((holds_focus [] t).mp holds) slot
    obtain ⟨next,t',ends,after,sound,_⟩ := insertAt_holds holds balanced empty address (mt (within_member holds).mpr fresh)
    rw [completes_same went ⟨_,ends⟩]
    exact ⟨t',after,sound⟩
  | erase before inside went ih =>
    obtain ⟨t,holds,balanced⟩ := ih
    obtain ⟨next,t',ends,after,sound,_⟩ := erase_holds holds balanced ((within_member holds).mp inside)
    rw [completes_same went ⟨_,ends⟩]
    exact ⟨t',after,sound⟩

-- A tree that such calls have come to holds a red-black tree, and the next call ends, with
-- its node in its place or missing.
theorem reached_correct (reached : Reached self) : ∃ t, Holds self t ∧ IsRedBlack t ∧
    (∀ path x, self.slot path 0 .root ≠ none → Address x → ¬Within self x →
      ∃ next t', Completes (fun fuel => self.insertAt fuel path x) next ∧ Holds next t' ∧ IsRedBlack t' ∧
        t'.list = inorder (link t.shape path x)) ∧
    ∀ x, Within self x →
      ∃ next t', Completes (fun fuel => hevRbtreeErase fuel self x) next ∧ Holds next t' ∧ IsRedBlack t' ∧ t'.list = t.list.erase x := by
  obtain ⟨t,holds,balanced⟩ := reached_holds reached
  refine ⟨t,holds,balanced,fun path x slot address fresh => ?_,fun x inside => ?_⟩
  · have empty := slot_empty [] path ((holds_focus [] t).mp holds) slot
    obtain ⟨next,t',ends,after⟩ := insertAt_holds holds balanced empty address (mt (within_member holds).mpr fresh)
    exact ⟨next,t',⟨_,ends⟩,after⟩
  · obtain ⟨next,t',ends,after⟩ := erase_holds holds balanced ((within_member holds).mp inside)
    exact ⟨next,t',⟨_,ends⟩,after⟩

-- The memory determines the tree that it holds.
theorem heap_tree {node : BitVec w → HevRBTreeNode w} {up up' : BitVec w} {t u : Colored (BitVec w)} (left : Heap node up t)
    (right : Heap node up' u) (aligned : up &&& 3 = 0) (aligned' : up' &&& 3 = 0) (same : addr t = addr u) : t = u := by
  induction t generalizing up up' u with
  | nil => exact ((addr_nil right).mp same.symm).symm
  | node c l x r low high =>
    obtain ⟨address,here,inL,inR⟩ := left
    cases u with
    | nil => exact absurd same address.filled
    | node c' l' x' r' =>
      cases same
      obtain ⟨_,there,inL',inR'⟩ := right
      injection here.symm.trans there with word right left
      cases low inL inL' address.aligned address.aligned left
      cases high inR inR' address.aligned address.aligned right
      have dark := black_word aligned address.filled c
      rw [word,black_word aligned' address.filled] at dark
      cases c <;> cases c' <;> simp at dark ⊢

theorem holds_tree {t u : Colored (BitVec w)} (left : Holds self t) (right : Holds self u) : t = u :=
  heap_tree left.heap right.heap BitVec.zero_and BitVec.zero_and (left.root.symm.trans right.root)

instance decAddress (x : BitVec w) : Decidable (Address x) :=
  decidable_of_iff (x ≠ 0 ∧ x &&& 3 = 0) ⟨fun ⟨a,b⟩ => ⟨a,b⟩,fun ⟨a,b⟩ => ⟨a,b⟩⟩

instance decHeap (node : BitVec w → HevRBTreeNode w) : ∀ (up : BitVec w) (t : Colored (BitVec w)), Decidable (Heap node up t)
  | _, .nil => .isTrue trivial
  | up, .node c l x r =>
    have := decHeap node x l
    have := decHeap node x r
    inferInstanceAs (Decidable (Address x ∧ node x = ⟨word up c,addr r,addr l⟩ ∧ Heap node x l ∧ Heap node x r))

instance decHolds (self : HevRBTree w) (t : Colored (BitVec w)) : Decidable (Holds self t) :=
  decidable_of_iff (self.root = addr t ∧ Heap self.node 0 t ∧ t.list.Nodup) ⟨fun ⟨a,b,c⟩ => ⟨a,b,c⟩,fun ⟨a,b,c⟩ => ⟨a,b,c⟩⟩

inductive Call (w : Nat) where
  | insert (path : List Side) (x : BitVec w)
  | erase (x : BitVec w)

def Call.run (fuel : Nat) (self : HevRBTree w) : Call w → Option (HevRBTree w)
  | .insert path x => self.insertAt fuel path x
  | .erase x => hevRbtreeErase fuel self x

-- That it may be made on a tree, with turns enough for it.
def Call.Fits (fuel : Nat) (t : Colored (BitVec w)) : Call w → Prop
  | .insert path x => Address x ∧ x ∉ t.list ∧ path.length < fuel
  | .erase x => x ∈ t.list ∧ t.list.length < fuel

instance decFits (fuel : Nat) (t : Colored (BitVec w)) : ∀ call : Call w, Decidable (call.Fits fuel t)
  | .insert path x => inferInstanceAs (Decidable (Address x ∧ x ∉ t.list ∧ path.length < fuel))
  | .erase x => inferInstanceAs (Decidable (x ∈ t.list ∧ t.list.length < fuel))

-- Calls from a tree on, each with the tree that it is said to make.
def tend (fuel : Nat) (self : HevRBTree w) (t : Colored (BitVec w)) : List (Call w × Colored (BitVec w)) → Option (HevRBTree w)
  | [] => some self
  | (call,u)::later => (call.run fuel self).bind fun next =>
    if call.Fits fuel t ∧ Holds next u then tend fuel next u later else none

theorem insertAt_slot {path : List Side} {next : HevRBTree w} {fuel : Nat} (went : self.insertAt fuel path x = some next) :
    self.slot path 0 .root ≠ none := by
  intro missing
  have nothing : self.insertAt fuel path x = none := by rw [HevRBTree.insertAt,missing]; rfl
  cases nothing.symm.trans went

theorem run_reached {call : Call w} {next : HevRBTree w} {fuel : Nat} (reached : Reached self) (holds : Holds self t) (fits : call.Fits fuel t)
    (went : call.run fuel self = some next) : Reached next := by
  obtain ⟨u,same,balanced⟩ := reached_holds reached
  cases holds_tree same holds
  cases call with
  | insert path x =>
    obtain ⟨address,fresh,short⟩ := fits
    have slot := insertAt_slot went
    have empty := slot_empty [] path ((holds_focus [] t).mp holds) slot
    obtain ⟨after,_,ends,_⟩ := insertAt_holds holds balanced empty address fresh
    cases (ends fuel short).symm.trans went
    exact reached.insert path slot address (mt (within_member holds).mp fresh) ⟨_,ends⟩
  | erase x =>
    obtain ⟨inside,short⟩ := fits
    obtain ⟨after,_,ends,_⟩ := erase_holds holds balanced inside
    cases (ends fuel short).symm.trans went
    exact reached.erase ((within_member holds).mpr inside) ⟨_,ends⟩

theorem tend_reached {calls : List (Call w × Colored (BitVec w))} {last : HevRBTree w} {fuel : Nat} (reached : Reached self) (holds : Holds self t)
    (went : tend fuel self t calls = some last) : Reached last := by
  induction calls generalizing self t with
  | nil => exact Option.some.inj went ▸ reached
  | cons call later ih =>
    obtain ⟨next,ran,rest⟩ := Option.bind_eq_some_iff.mp went
    split at rest
    · rename_i made
      exact ih (run_reached reached holds made.1 ran) made.2 rest
    · cases rest

def bare : HevRBTree 64 := {root:=0,node:=fun _ => ⟨1,0,0⟩}

theorem bare_reached : Reached bare := .empty bare rfl

def leaf (c : Color) (x : BitVec 64) : Colored (BitVec 64) := .node c .nil x .nil

def grown : Colored (BitVec 64) :=
  .node .black (.node .black .nil 16 (leaf .red 24)) 32 (.node .black .nil 40 (leaf .red 48))

-- The third and the fifth node are rotated into place and the fourth and the sixth recoloured;
-- without its first node the tree lacks a black one, beside a red sibling.
def growing : List (Call 64 × Colored (BitVec 64)) :=
  [(.insert [] 8,leaf .black 8),
    (.insert [.right] 16,.node .black .nil 8 (leaf .red 16)),
    (.insert [.right,.right] 24,.node .black (leaf .red 8) 16 (leaf .red 24)),
    (.insert [.right,.right] 32,.node .black (leaf .black 8) 16 (.node .black .nil 24 (leaf .red 32))),
    (.insert [.right,.right,.right] 40,.node .black (leaf .black 8) 16 (.node .black (leaf .red 24) 32 (leaf .red 40))),
    (.insert [.right,.right,.right] 48,
      .node .black (leaf .black 8) 16 (.node .red (leaf .black 24) 32 (.node .black .nil 40 (leaf .red 48)))),
    (.erase 8,grown)]

theorem grown_reached : ∃ s, tend 8 bare .nil growing = some s ∧ Reached s ∧ Holds s grown := by
  have made : (tend 8 bare .nil growing).any fun s => Holds s grown := by decide +kernel
  obtain ⟨s,went,holds⟩ := (Option.any_eq_true _ _).mp made
  have empty : Holds bare .nil := ⟨rfl,trivial,List.nodup_nil⟩
  exact ⟨s,went,tend_reached bare_reached empty went,of_decide_eq_true holds⟩

theorem grown_correct : ∃ s, tend 8 bare .nil growing = some s ∧ Holds s grown ∧ IsRedBlack grown ∧
    (∃ next t, Completes (fun fuel => s.insertAt fuel [.right,.right,.right] 56) next ∧ Holds next t ∧ IsRedBlack t ∧
      t.list = [16,24,32,40,48,56]) ∧
    ∃ next t, Completes (fun fuel => hevRbtreeErase fuel s 32) next ∧ Holds next t ∧ IsRedBlack t ∧ t.list = [16,24,40,48] := by
  obtain ⟨s,went,reached,here⟩ := grown_reached
  obtain ⟨t,holds,balanced,inserted,erased⟩ := reached_correct reached
  cases holds_tree holds here
  have empty : IsSlot grown.shape [.right,.right,.right] := rfl
  have address : Address (56 : BitVec 64) := ⟨by decide,by decide⟩
  obtain ⟨_,_,ends,_⟩ := insertAt_holds holds balanced empty address (by decide)
  have free := insertAt_slot (ends 8 (by decide))
  exact ⟨s,went,holds,balanced,inserted _ 56 free address (mt (within_member here).mp (by decide)),
    erased 32 ((within_member here).mpr (by decide))⟩

end Psocks.RBTree
