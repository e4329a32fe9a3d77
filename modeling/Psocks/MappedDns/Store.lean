import Psocks.Lib.CString
import Psocks.Lib.SearchTree
import Psocks.Misc.HevList

namespace Psocks.MappedDns
open SearchTree Psocks.Lists

-- What the store is linked with: an allocator that never hands out a block that
-- is still in use, and hev_rbtree.
structure Platform where
  place : List Nat → Nat
  fresh : ∀ live, place live ∉ live
  rbtree : Balanced Nat

theorem above_all (live : List Nat) (member : n ∈ live) : n ≤ live.foldr Nat.max 0 := by
  induction live with
  | nil => cases member
  | cons x rest ih =>
    simp only [List.foldr_cons]
    rcases List.mem_cons.mp member with rfl | later
    · exact Nat.le_max_left _ _
    · exact Nat.le_trans (ih later) (Nat.le_max_right _ _)

-- Addresses only grow, and the tree never rebalances.
def Platform.plain : Platform where
  place live := live.foldr Nat.max 0+1
  fresh live member := by have := above_all live member; omega
  rbtree := .plain

structure HevMappedDnsNode where
  name : CString
  idx : Int

-- `int` fields that are compared are `Int`, those that are masked are words.
-- `node` is the memory behind the node addresses, `live` the allocated ones, `τ` what the tree is.
structure HevMappedDns (τ : Type) where
  use : Int
  max : Int
  net : BitVec 32
  mask : BitVec 32
  list : HevList
  tree : τ
  records : Int → Option Nat
  node : Nat → HevMappedDnsNode
  live : List Nat

abbrev Dns (os : Platform) := HevMappedDns os.rbtree.T

variable {os : Platform} {τ : Type}

def HevMappedDns.zero (os : Platform) (node : Nat → HevMappedDnsNode) : Dns os :=
  ⟨0,0,0,0,.empty,os.rbtree.empty,fun _ => none,node,[]⟩

def hevMappedDnsConstruct (self : Dns os) (net mask : BitVec 32) (max : Int) :
    Option (Dns os) :=
  if (~~~mask).toInt < max then none else some {self with max:=max,net:=net,mask:=mask}

-- The memory nodes will be allocated from is whatever it was.
def hevMappedDnsNew (os : Platform) (node : Nat → HevMappedDnsNode) (net mask : BitVec 32) (max : Int) :
    Option (Dns os) :=
  hevMappedDnsConstruct (.zero os node) net mask max

def pair : Dns .plain :=
  {HevMappedDns.zero .plain fun _ => ⟨⟨[],by simp⟩,0⟩ with max:=2,net:=0xf0000000,mask:=0xf0000000}

theorem pair_new : hevMappedDnsNew .plain (fun _ => ⟨⟨[],by simp⟩,0⟩) 0xf0000000 0xf0000000 2 = some pair := rfl

def hevMappedDnsNodeAlloc (place : List Nat → Nat) (self : HevMappedDns τ) (name : CString) : Nat × HevMappedDns τ :=
  let node := place self.live
  (node,{self with node:=Function.update self.node node ⟨name,0⟩,live:=node::self.live})

def hevMappedDnsNodeFree (self : HevMappedDns τ) (node : Nat) : HevMappedDns τ :=
  {self with live:=self.live.erase node}

-- `hev_list_del` and `hev_list_add_tail` of a node that is hit.
def HevMappedDns.touch (self : HevMappedDns τ) (node : Nat) : HevMappedDns τ :=
  {self with list:=hevListAddTail (hevListDel self.list node) node}

-- Which child of `node` the walk for `name` follows.
def HevMappedDns.turn (self : HevMappedDns τ) (name : CString) (node : Nat) : Ordering :=
  let res := strcmp (self.node node).name.bytes name.bytes
  if res < 0 then .lt else if 0 < res then .gt else .eq

-- `tree` is the tree with the node that enters, or without the one that leaves.
def HevMappedDns.enter (self : HevMappedDns τ) (tree : τ) (node : Nat) : HevMappedDns τ :=
  {self with tree:=tree,list:=hevListAddTail self.list node}

def HevMappedDns.leave (self : HevMappedDns τ) (tree : τ) (nf : Nat) : HevMappedDns τ :=
  hevMappedDnsNodeFree {self with tree:=tree,list:=hevListDel self.list nf} nf

def HevMappedDns.join (self : Dns os) (path : List Side) (node : Nat) : Dns os := self.enter (os.rbtree.insert self.tree path node) node

def HevMappedDns.evict (self : Dns os) (nf : Nat) : Dns os := self.leave (os.rbtree.erase self.tree nf) nf

-- The new node is already on the list, so there is a first one.
def HevMappedDns.claim (self : Dns os) : Int × Dns os :=
  if self.use < self.max then (self.use,{self with use:=self.use+1})
  else match hevListFirst self.list with
    | some nf => ((self.node nf).idx,self.evict nf)
    | none => (self.use,self)

def HevMappedDns.record (self : HevMappedDns τ) (idx : Int) (node : Nat) : HevMappedDns τ :=
  {self with records:=Function.update self.records idx (some node),node:=Function.update self.node node ⟨(self.node node).name,idx⟩}

def hevMappedDnsFind (self : Dns os) (name : CString) : Int × Dns os :=
  match descend (self.turn name) (os.rbtree.shape self.tree) with
  | .found node => ((self.node node).idx,self.touch node)
  | .slot path =>
    let (node,self) := hevMappedDnsNodeAlloc os.place self name
    let (idx,self) := (self.join path node).claim
    (idx,self.record idx node)

def hevMappedDnsLookup (self : HevMappedDns τ) (ip : BitVec 32) : Option CString × HevMappedDns τ :=
  let idx := (ip &&& ~~~self.mask).toInt
  if self.max ≤ idx then (none,self)
  else match self.records idx with
    | none => (none,self)
    | some node => (some (self.node node).name,self.touch node)

inductive Call where
  | find (name : CString)
  | lookup (ip : BitVec 32)

def call (self : Dns os) : Call → Dns os
  | .find name => (hevMappedDnsFind self name).2
  | .lookup ip => (hevMappedDnsLookup self ip).2

def run (self : Dns os) (calls : List Call) : Dns os := calls.foldl call self

theorem run_append (self : Dns os) (a b : List Call) : run self (a++b) = run (run self a) b :=
  List.foldl_append

def Slotted (self : Dns os) (i : Int) (name : CString) : Prop :=
  ∃ node, self.records i = some node ∧ (self.node node).name = name

end Psocks.MappedDns
