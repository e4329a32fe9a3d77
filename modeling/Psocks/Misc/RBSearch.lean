import Psocks.Misc.RBWalk

namespace Psocks.RBTree
open SearchTree RedBlack
variable {w : Nat}

inductive Search (w : Nat) where
  | held (this : BitVec w)
  | free (parent : BitVec w) (link : Link w)

-- A caller's loop down from the root, which may end at a node.
def searchTree (go : BitVec w → Ordering) : Nat → HevRBTree w → BitVec w → Link w → Option (Search w)
  | 0, _, _, _ => none
  | fuel+1, self, parent, link =>
    let this := self.read link
    if this = 0 then some (.free parent link)
    else
      match go this with
      | .lt => searchTree go fuel self this (.child this .left)
      | .gt => searchTree go fuel self this (.child this .right)
      | .eq => some (.held this)

variable {self : HevRBTree w} {t : Colored (BitVec w)} {go : BitVec w → Ordering} {x : BitVec w} {path : List Side}

-- Where a search through the tree's shape ends, as the loop has it.
def landing (self : HevRBTree w) (parent : BitVec w) (link : Link w) : Descent (BitVec w) → Option (Search w)
  | .found x => some (.held x)
  | .slot path => (self.slot path parent link).map fun place => .free place.1 place.2

theorem landing_below {parent : BitVec w} {link : Link w} (seen : self.read link = x) (filled : x ≠ 0) (d : Side) (ended : Descent (BitVec w)) :
    landing self parent link (ended.below d) = landing self x (.child x d) ended := by
  cases ended with
  | found y => rfl
  | slot path => simp only [Descent.below,landing,HevRBTree.slot,seen,if_neg filled]

theorem search_lands (outer : List (Frame (BitVec w))) (focus : Focus self outer t) (fuel : Nat) (enough : t.list.length < fuel) :
    searchTree go fuel self (top 0 outer) (linkOf outer) = landing self (top 0 outer) (linkOf outer) (descend go t.shape) := by
  induction t generalizing outer fuel with
  | nil =>
    obtain ⟨k,rfl⟩ := Nat.exists_eq_add_of_lt enough
    have seen : self.read (linkOf outer) = 0 := read_link outer focus.hangs
    simp [searchTree,Colored.shape,descend,landing,HevRBTree.slot,seen]
  | node c l z r left right =>
    obtain ⟨k,rfl⟩ : ∃ k, fuel = k+1 := ⟨fuel-1,by omega⟩
    have filled : z ≠ 0 := focus.heap.1.filled
    have seen : self.read (linkOf outer) = z := read_link outer focus.hangs
    simp only [Colored.list,List.length_append,List.length_cons] at enough
    rw [searchTree,Colored.shape,descend]
    simp only [seen,if_neg filled]
    cases go z with
    | lt => exact (left _ (child_focus focus .left) k (by omega)).trans (landing_below seen filled .left _).symm
    | gt => exact (right _ (child_focus focus .right) k (by omega)).trans (landing_below seen filled .right _).symm
    | eq => rfl

theorem search_ends (holds : Holds self t) (fuel : Nat) (enough : t.list.length < fuel) :
    searchTree go fuel self 0 .root = landing self 0 .root (descend go t.shape) := search_lands [] ((holds_focus [] t).mp holds) fuel enough

theorem search_held (holds : Holds self t) (ended : descend go t.shape = .found x) (fuel : Nat) (enough : t.list.length < fuel) :
    searchTree go fuel self 0 .root = some (.held x) := by
  rw [search_ends holds fuel enough,ended]
  rfl

-- The empty child that is found takes a new node.
theorem search_free (holds : Holds self t) (balanced : IsRedBlack t) (slot : IsSlot t.shape path) (ended : descend go t.shape = .slot path) :
    ∃ parent link, (∀ fuel, t.list.length < fuel → searchTree go fuel self 0 .root = some (.free parent link)) ∧
      ∀ x, Address x → x ∉ t.list → ∃ next t', Holds next t' ∧ IsRedBlack t' ∧ t'.list = inorder (SearchTree.link t.shape path x) ∧
        ∀ fuel, path.length < fuel → ∃ linked, hevRbtreeNodeLink self x parent link = some linked ∧
          hevRbtreeInsertColor fuel linked x = some next := by
  obtain ⟨frames,_,_,way,_⟩ := slot_frames [] path ((holds_focus [] t).mp holds) slot
  have way : self.slot path 0 .root = some _ := way
  refine ⟨top 0 (frames++[]),linkOf (frames++[]),fun fuel enough => ?_,fun x address fresh => ?_⟩
  · rw [search_ends holds fuel enough,ended,landing,way]
    rfl
  · obtain ⟨next,t',inserted,holds',balanced',order⟩ := insertAt_holds holds balanced slot address fresh
    refine ⟨next,t',holds',balanced',order,fun fuel enough => ?_⟩
    have went := inserted fuel enough
    rw [HevRBTree.insertAt,way,Option.bind_eq_bind,Option.bind_some] at went
    exact Option.bind_eq_some_iff.mp went

theorem member_filled (holds : Holds self t) (member : x ∈ t.list) : x ≠ 0 := by
  obtain ⟨path,c,l,r,rfl⟩ := plug_of_member member
  exact ((holds_focus path _).mp holds).heap.1.filled

end Psocks.RBTree
