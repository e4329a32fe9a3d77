import Mathlib.Logic.Function.Basic
import Psocks.Lib.RedBlack

namespace Psocks.RBTree
open SearchTree RedBlack
variable {w : Nat}

-- A word holds the parent's address and, in its lowest bit, the colour.
@[ext]
structure HevRBTreeNode (w : Nat) where
  parentColor : BitVec w
  right : BitVec w
  left : BitVec w
deriving DecidableEq

-- The root pointer with the memory of the nodes; NULL is 0.
structure HevRBTree (w : Nat) where
  root : BitVec w
  node : BitVec w → HevRBTreeNode w

-- Where a pointer to a node is kept.
inductive Link (w : Nat) where
  | root
  | child (parent : BitVec w) (side : Side)

def bits : Color → BitVec w
  | .red => 0
  | .black => 1

def HevRBTreeNode.child (node : HevRBTreeNode w) : Side → BitVec w
  | .left => node.left
  | .right => node.right

def HevRBTreeNode.setChild (node : HevRBTreeNode w) (side : Side) (child : BitVec w) : HevRBTreeNode w :=
  match side with
  | .left => {node with left:=child}
  | .right => {node with right:=child}

def HevRBTree.load (self : HevRBTree w) (p : BitVec w) : Option (HevRBTreeNode w) :=
  if p = 0 then none else some (self.node p)

def HevRBTree.put (self : HevRBTree w) (p : BitVec w) (f : HevRBTreeNode w → HevRBTreeNode w) : HevRBTree w :=
  {self with node:=Function.update self.node p (f (self.node p))}

def HevRBTree.store (self : HevRBTree w) (p : BitVec w) (f : HevRBTreeNode w → HevRBTreeNode w) : Option (HevRBTree w) :=
  if p = 0 then none else some (self.put p f)

def wordIsBlack (pc : BitVec w) : Bool := pc &&& 1 ≠ 0

def wordParent (pc : BitVec w) : BitVec w := pc &&& ~~~3

def hevRbtreeNodeIsBlack (node : HevRBTreeNode w) : Bool := wordIsBlack node.parentColor

def hevRbtreeNodeIsRed (node : HevRBTreeNode w) : Bool := !wordIsBlack node.parentColor

def hevRbtreeNodeParent (node : HevRBTreeNode w) : BitVec w := wordParent node.parentColor

def hevRbtreeNodeRedParent (node : HevRBTreeNode w) : BitVec w := node.parentColor

def setWord (word : BitVec w) (node : HevRBTreeNode w) : HevRBTreeNode w := {node with parentColor:=word}

def HevRBTree.setChild (self : HevRBTree w) (p : BitVec w) (side : Side) (child : BitVec w) : Option (HevRBTree w) :=
  self.store p (·.setChild side child)

def hevRbtreeNodeSetBlack (self : HevRBTree w) (node : BitVec w) : Option (HevRBTree w) :=
  self.store node fun n => setWord (n.parentColor ||| 1) n

def hevRbtreeNodeSetParent (self : HevRBTree w) (node parent : BitVec w) : Option (HevRBTree w) :=
  self.store node fun n => setWord (n.parentColor &&& 1 ||| parent) n

def hevRbtreeNodeSetParentColor (self : HevRBTree w) (node parent : BitVec w) (color : Color) : Option (HevRBTree w) :=
  self.store node (setWord (parent ||| bits color))

def hevRbtreeChangeChild (self : HevRBTree w) (old new_ parent : BitVec w) : Option (HevRBTree w) :=
  if parent ≠ 0 then do
    let p ← self.load parent
    if p.left = old then self.setChild parent .left new_
    else self.setChild parent .right new_
  else some {self with root:=new_}

def hevRbtreeRotateSetParents (self : HevRBTree w) (old new_ : BitVec w) (color : Color) : Option (HevRBTree w) := do
  let o ← self.load old
  let self ← self.store new_ (setWord o.parentColor)
  let self ← hevRbtreeNodeSetParentColor self old new_ color
  hevRbtreeChangeChild self old new_ (hevRbtreeNodeParent o)

def hevRbtreeNodeLink (self : HevRBTree w) (node parent : BitVec w) (link : Link w) : Option (HevRBTree w) := do
  let self ← self.store node fun _ => ⟨parent,0,0⟩
  match link with
  | .root => some {self with root:=node}
  | .child p side => self.setChild p side node

-- What a test for a red child, or for a black or missing one, says.
def HevRBTree.redAt (self : HevRBTree w) (tmp : BitVec w) : Option Bool :=
  if tmp = 0 then some false else (self.load tmp).map hevRbtreeNodeIsRed

def HevRBTree.blackAt (self : HevRBTree w) (tmp : BitVec w) : Option Bool :=
  if tmp = 0 then some true else (self.load tmp).map hevRbtreeNodeIsBlack

-- For a child that may be missing.
def HevRBTree.adopt (self : HevRBTree w) (tmp parent : BitVec w) (color : Color) : Option (HevRBTree w) :=
  if tmp ≠ 0 then hevRbtreeNodeSetParentColor self tmp parent color else some self

def HevRBTree.adoptKept (self : HevRBTree w) (tmp parent : BitVec w) : Option (HevRBTree w) :=
  if tmp ≠ 0 then hevRbtreeNodeSetParent self tmp parent else some self

-- How one turn of a loop ends.
inductive LoopTurn (w : Nat) where
  | over_ (self : HevRBTree w)
  | again (self : HevRBTree w) (node parent : BitVec w)

def LoopTurn.follow (loop : HevRBTree w → BitVec w → BitVec w → Option (HevRBTree w)) : LoopTurn w → Option (HevRBTree w)
  | .over_ self => some self
  | .again self node parent => loop self node parent

-- The branch for a parent that is on the side `side` of the grandparent.
def insertColorTurn (side : Side) (self : HevRBTree w) (node parent gparent : BitVec w) : Option (LoopTurn w) := do
  let g ← self.load gparent
  let tmp := g.child side.other
  let red ← self.redAt tmp
  if red then
    -- Case 1
    let self ← hevRbtreeNodeSetParentColor self tmp gparent .black
    let self ← hevRbtreeNodeSetParentColor self parent gparent .black
    let g ← self.load gparent
    let above := hevRbtreeNodeParent g
    let self ← hevRbtreeNodeSetParentColor self gparent above .red
    some (.again self gparent above)
  else
    let p ← self.load parent
    let tmp := p.child side.other
    let (self,parent,tmp) ←
      if node = tmp then do
        -- Case 2
        let n ← self.load node
        let tmp := n.child side
        let self ← self.setChild parent side.other tmp
        let self ← self.setChild node side parent
        let self ← self.adopt tmp parent .black
        let self ← hevRbtreeNodeSetParentColor self parent node .red
        let n ← self.load node
        some (self,node,n.child side.other)
      else some (self,parent,tmp)
    -- Case 3
    let self ← self.setChild gparent side tmp
    let self ← self.setChild parent side.other gparent
    let self ← self.adopt tmp gparent .black
    let self ← hevRbtreeRotateSetParents self gparent parent .red
    some (.over_ self)

def insertColorLoop : Nat → HevRBTree w → BitVec w → BitVec w → Option (HevRBTree w)
  | 0, _, _, _ => none
  | fuel+1, self, node, parent =>
    if parent = 0 then hevRbtreeNodeSetParentColor self node 0 .black
    else do
      let p ← self.load parent
      if hevRbtreeNodeIsBlack p then some self
      else
        let gparent := hevRbtreeNodeRedParent p
        let g ← self.load gparent
        let turn ← if parent ≠ g.right then insertColorTurn .left self node parent gparent
          else insertColorTurn .right self node parent gparent
        turn.follow (insertColorLoop fuel)

def hevRbtreeInsertColor (fuel : Nat) (self : HevRBTree w) (node : BitVec w) : Option (HevRBTree w) := do
  let n ← self.load node
  insertColorLoop fuel self node (hevRbtreeNodeRedParent n)

-- From a node down to the last one on the left, and the one above it.
def leftmostBelow : Nat → HevRBTree w → BitVec w → BitVec w → Option (BitVec w × BitVec w)
  | 0, _, _, _ => none
  | fuel+1, self, successor, tmp => do
    let n ← self.load tmp
    if n.left = 0 then some (successor,tmp)
    else leftmostBelow fuel self tmp n.left

-- The successor is taken out of the right subtree; with the node above its only child, the
-- successor and the child.
def detachSuccessor (fuel : Nat) (self : HevRBTree w) (child : BitVec w) :
    Option (HevRBTree w × BitVec w × BitVec w × BitVec w) := do
  let c ← self.load child
  if c.left = 0 then
    -- Case 2
    some (self,child,child,c.right)
  else
    -- Case 3
    let (parent,successor) ← leftmostBelow fuel self child c.left
    let s ← self.load successor
    let self ← self.setChild parent .left s.right
    let self ← self.setChild successor .right child
    let self ← hevRbtreeNodeSetParent self child successor
    some (self,parent,successor,s.right)

-- The successor takes the place of the node.
def replaceNode (self : HevRBTree w) (node parent successor child2 : BitVec w) : Option (HevRBTree w × BitVec w) := do
  let n ← self.load node
  let self ← self.setChild successor .left n.left
  let self ← hevRbtreeNodeSetParent self n.left successor
  let n ← self.load node
  let self ← hevRbtreeChangeChild self node successor (hevRbtreeNodeParent n)
  if child2 ≠ 0 then
    let self ← hevRbtreeNodeSetParentColor self child2 parent .black
    let self ← self.store successor (setWord n.parentColor)
    some (self,0)
  else
    let s ← self.load successor
    let self ← self.store successor (setWord n.parentColor)
    some (self,if hevRbtreeNodeIsBlack s then parent else 0)

-- With the node whose subtrees are out of balance, or NULL.
def hevRbtreeEraseNode (fuel : Nat) (self : HevRBTree w) (node : BitVec w) : Option (HevRBTree w × BitVec w) := do
  let n ← self.load node
  let child := n.right
  let tmp := n.left
  let pc := n.parentColor
  if tmp = 0 then
    -- Case 1
    let self ← hevRbtreeChangeChild self node child (wordParent pc)
    if child ≠ 0 then
      let self ← self.store child (setWord pc)
      some (self,0)
    else some (self,if wordIsBlack pc then wordParent pc else 0)
  else if child = 0 then
    let self ← self.store tmp (setWord pc)
    let self ← hevRbtreeChangeChild self node tmp (wordParent pc)
    some (self,0)
  else
    let (self,parent,successor,child2) ← detachSuccessor fuel self child
    replaceNode self node parent successor child2

-- Case 4, with the child `tmp1` of the sibling on its outer side.
def eraseColorLast (side : Side) (self : HevRBTree w) (parent sibling tmp1 : BitVec w) : Option (LoopTurn w) := do
  let s ← self.load sibling
  let tmp2 := s.child side
  let self ← self.setChild parent side.other tmp2
  let self ← self.setChild sibling side parent
  let self ← hevRbtreeNodeSetParentColor self tmp1 sibling .black
  let self ← self.adoptKept tmp2 parent
  let self ← hevRbtreeRotateSetParents self parent sibling .black
  some (.over_ self)

-- Cases 2 to 4, for a black sibling.
def eraseColorBlack (side : Side) (self : HevRBTree w) (parent sibling : BitVec w) : Option (LoopTurn w) := do
  let s ← self.load sibling
  let tmp1 := s.child side.other
  let black ← self.blackAt tmp1
  if black then
    let tmp2 := s.child side
    let black ← self.blackAt tmp2
    if black then
      -- Case 2
      let self ← hevRbtreeNodeSetParentColor self sibling parent .red
      let p ← self.load parent
      if hevRbtreeNodeIsRed p then
        let self ← hevRbtreeNodeSetBlack self parent
        some (.over_ self)
      else
        let above := hevRbtreeNodeParent p
        if above ≠ 0 then some (.again self parent above)
        else some (.over_ self)
    else
      -- Case 3
      let t ← self.load tmp2
      let tmp1 := t.child side.other
      let self ← self.setChild sibling side tmp1
      let self ← self.setChild tmp2 side.other sibling
      let self ← self.setChild parent side.other tmp2
      let self ← self.adopt tmp1 sibling .black
      eraseColorLast side self parent tmp2 sibling
  else eraseColorLast side self parent sibling tmp1

-- The branch for a node that is on the side `side` of the parent.
def eraseColorTurn (side : Side) (self : HevRBTree w) (parent sibling : BitVec w) : Option (LoopTurn w) := do
  let s ← self.load sibling
  if hevRbtreeNodeIsRed s then
    -- Case 1
    let tmp1 := s.child side
    let self ← self.setChild parent side.other tmp1
    let self ← self.setChild sibling side parent
    let self ← hevRbtreeNodeSetParentColor self tmp1 parent .black
    let self ← hevRbtreeRotateSetParents self parent sibling .red
    eraseColorBlack side self parent tmp1
  else eraseColorBlack side self parent sibling

def eraseColorLoop : Nat → HevRBTree w → BitVec w → BitVec w → Option (HevRBTree w)
  | 0, _, _, _ => none
  | fuel+1, self, node, parent => do
    let p ← self.load parent
    let turn ← if node ≠ p.right then eraseColorTurn .left self parent p.right
      else eraseColorTurn .right self parent p.left
    turn.follow (eraseColorLoop fuel)

def hevRbtreeErase (fuel : Nat) (self : HevRBTree w) (node : BitVec w) : Option (HevRBTree w) := do
  let (self,rebalance) ← hevRbtreeEraseNode fuel self node
  if rebalance ≠ 0 then eraseColorLoop fuel self 0 rebalance else some self

def HevRBTree.read (self : HevRBTree w) : Link w → BitVec w
  | .root => self.root
  | .child p side => (self.node p).child side

-- A caller's way down to an empty child, from the root pointer.
def HevRBTree.slot (self : HevRBTree w) : List Side → BitVec w → Link w → Option (BitVec w × Link w)
  | [], parent, link => if self.read link = 0 then some (parent,link) else none
  | side::path, _, link =>
    if self.read link = 0 then none
    else self.slot path (self.read link) (.child (self.read link) side)

def HevRBTree.insertAt (fuel : Nat) (self : HevRBTree w) (path : List Side) (node : BitVec w) : Option (HevRBTree w) := do
  let (parent,link) ← self.slot path 0 .root
  let self ← hevRbtreeNodeLink self node parent link
  hevRbtreeInsertColor fuel self node

end Psocks.RBTree
