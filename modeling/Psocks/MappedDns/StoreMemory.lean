import Mathlib.Algebra.Group.Int.Defs
import Mathlib.Algebra.Group.Nat.Defs
import Psocks.Lib.Runs
import Psocks.MappedDns.Invariant
import Psocks.Misc.RBSearch

namespace Psocks.MappedDns.InMemory
open SearchTree RedBlack Psocks.Lists
open Psocks.RBTree (HevRBTree HevRBTreeNode searchTree hevRbtreeNodeLink hevRbtreeInsertColor hevRbtreeErase Address)
variable {w : Nat}

-- The store with the nodes of its tree in memory, at the addresses of the mapped nodes.
abbrev MemoryDns (w : Nat) := HevMappedDns (HevRBTree w)

def claimInMemory (fuel : Nat) (m : MemoryDns w) : Option (Int × MemoryDns w) :=
  if m.use < m.max then some (m.use,{m with use:=m.use+1})
  else do
    let nf ← hevListFirst m.list
    let tree ← hevRbtreeErase fuel m.tree (BitVec.ofNat w nf)
    some ((m.node nf).idx,m.leave tree nf)

-- `place` is the allocator, which looks at the blocks that are in use.
def findInMemory (place : List Nat → Nat) (fuel : Nat) (m : MemoryDns w) (name : CString) : Option (Int × MemoryDns w) := do
  match ← searchTree (fun x => m.turn name x.toNat) fuel m.tree 0 .root with
  | .held this => some ((m.node this.toNat).idx,m.touch this.toNat)
  | .free parent link =>
    let (node,m) := hevMappedDnsNodeAlloc place m name
    let tree ← hevRbtreeNodeLink m.tree (BitVec.ofNat w node) parent link
    let tree ← hevRbtreeInsertColor fuel tree (BitVec.ofNat w node)
    let (idx,m) ← claimInMemory fuel (m.enter tree node)
    some (idx,m.record idx node)

inductive Answer where
  | index (idx : Int)
  | name (name : Option CString)

def callInMemory (place : List Nat → Nat) (fuel : Nat) (m : MemoryDns w) : Call → Option (Answer × MemoryDns w)
  | .find name => (findInMemory place fuel m name).map fun found => (.index found.1,found.2)
  | .lookup ip => some (.name (hevMappedDnsLookup m ip).1,(hevMappedDnsLookup m ip).2)

def runInMemory (place : List Nat → Nat) (fuel : Nat) (m : MemoryDns w) : List Call → Option (List Answer × MemoryDns w)
  | [] => some ([],m)
  | c::calls => do
    let (answer,m) ← callInMemory place fuel m c
    let (answers,m) ← runInMemory place fuel m calls
    some (answer::answers,m)

variable {os : Platform} {dns : Dns os} {order : List Nat} {tree : HevRBTree w} {name : CString} {path : List Side} {n : Nat}

def answer (self : Dns os) : Call → Answer
  | .find name => .index (hevMappedDnsFind self name).1
  | .lookup ip => .name (hevMappedDnsLookup self ip).1

def answers (self : Dns os) : List Call → List Answer
  | [] => []
  | c::calls => answer self c::answers (call self c) calls

-- A block that a new node would lie in is aligned, and its address has `w` bits.
def Placed (w : Nat) (self : Dns os) : Call → Prop
  | .find _ => os.place self.live < 2^w ∧ Address (BitVec.ofNat w (os.place self.live))
  | .lookup _ => True

def inMemory (self : Dns os) (tree : HevRBTree w) : MemoryDns w :=
  ⟨self.use,self.max,self.net,self.mask,self.list,tree,self.records,self.node,self.live⟩

-- The tree in memory has the nodes of the store's tree in its order.
def Mirrors (tree : HevRBTree w) (shape : BinaryTree Nat) : Prop :=
  ∃ t, RBTree.Holds tree t ∧ IsRedBlack t ∧ t.list.map BitVec.toNat = inorder shape

theorem toNat_injective : Function.Injective (BitVec.toNat : BitVec w → Nat) := fun _ _ => BitVec.eq_of_toNat_eq

theorem mirror_sorted {t : Colored (BitVec w)} {key : Nat → (List Nat)ᵒᵈ} {shape : BinaryTree Nat} (listed : t.list.map BitVec.toNat = inorder shape)
    (sorted : Sorted key shape) : Sorted (fun x : BitVec w => key x.toNat) t.shape := by
  unfold Sorted at sorted ⊢
  rw [← listed,List.pairwise_map] at sorted
  rwa [shape_inorder]

-- The first part of a list, where a test tells the two parts from each other.
theorem parts_same {α : Type} {p : α → Bool} {as bs cs ds : List α} (same : as++bs = cs++ds)
    (low : ∀ x ∈ as, p x = true) (high : ∀ x ∈ bs, p x = false)
    (low' : ∀ x ∈ cs, p x = true) (high' : ∀ x ∈ ds, p x = false) : as = cs ∧ bs = ds := by
  have first : as = cs := by
    have whole := congrArg (List.filter p) same
    rwa [List.filter_append,List.filter_append,List.filter_eq_self.mpr low,List.filter_eq_self.mpr low',
      List.filter_eq_nil_iff.mpr fun x member => (by simp [high x member]),List.filter_eq_nil_iff.mpr fun x member => (by simp [high' x member]),
      List.append_nil,List.append_nil] at whole
  subst first
  exact ⟨rfl,List.append_cancel_left same⟩

theorem mirror_guides (dns : Dns os) (name : CString) :
    Guides (fun x : BitVec w => dns.key x.toNat) (OrderDual.toDual name.rank) fun x => dns.turn name x.toNat := fun x => turn_guides dns name x.toNat

theorem found_held (linked : Linked dns order) (mirrors : Mirrors tree dns.shape) (ended : descend (dns.turn name) dns.shape = .found n) :
    ∃ x : BitVec w, x.toNat = n ∧ ∃ bound, ∀ fuel, bound < fuel →
      searchTree (fun x => dns.turn name x.toNat) fuel tree 0 .root = some (.held x) := by
  obtain ⟨t,holds,_,listed⟩ := mirrors
  obtain ⟨member,named⟩ := walk_found linked ended
  have inside := linked.treed.mem_iff.mpr member
  rw [← listed] at inside
  obtain ⟨x,here,rfl⟩ := List.mem_map.mp inside
  have sorted := mirror_sorted listed linked.sorted
  have guides := mirror_guides (w:=w) dns name
  refine ⟨x,rfl,t.list.length,fun fuel enough => ?_⟩
  cases place : descend (fun x : BitVec w => dns.turn name x.toNat) t.shape with
  | found y =>
    obtain ⟨there,turned⟩ := descend_found place
    rw [shape_inorder] at there
    have also : y.toNat ∈ order := by
      have inside : y.toNat ∈ t.list.map BitVec.toNat := List.mem_map_of_mem there
      rw [listed] at inside
      exact linked.treed.mem_iff.mp inside
    have same : y.toNat = x.toNat := name_injective linked also member ((key_name ((guides y).2.2 turned)).trans named.symm)
    rw [toNat_injective same] at place
    exact RBTree.search_held holds place fuel enough
  | slot path =>
    have absent := descend_absent sorted guides place (by rwa [shape_inorder] : x ∈ inorder t.shape)
    exact (absent (by simp only [HevMappedDns.key,named])).elim

theorem slot_free (linked : Linked dns order) (mirrors : Mirrors tree dns.shape) (ended : descend (dns.turn name) dns.shape = .slot path)
    (small : os.place dns.live < 2^w) (address : Address (BitVec.ofNat w (os.place dns.live))) :
    ∃ parent link next, Mirrors next (dns.joined name path).shape ∧
      ∃ bound, ∀ fuel, bound < fuel → searchTree (fun x => dns.turn name x.toNat) fuel tree 0 .root = some (.free parent link) ∧
        ∃ base, hevRbtreeNodeLink tree (BitVec.ofNat w (os.place dns.live)) parent link = some base ∧
          hevRbtreeInsertColor fuel base (BitVec.ofNat w (os.place dns.live)) = some next := by
  obtain ⟨t,holds,balanced,listed⟩ := mirrors
  have sorted := mirror_sorted listed linked.sorted
  have guides := mirror_guides (w:=w) dns name
  have back : (BitVec.ofNat w (os.place dns.live)).toNat = os.place dns.live := by
    rw [BitVec.toNat_ofNat,Nat.mod_eq_of_lt small]
  have unplaced : os.place dns.live ∉ inorder dns.shape := fun member => place_fresh linked (linked.treed.mem_iff.mp member)
  have fresh : BitVec.ofNat w (os.place dns.live) ∉ t.list := by
    intro member
    have inside := List.mem_map_of_mem (f:=BitVec.toNat) member
    rw [back,listed] at inside
    exact unplaced inside
  cases place : descend (fun x : BitVec w => dns.turn name x.toNat) t.shape with
  | found y =>
    obtain ⟨there,turned⟩ := descend_found place
    rw [shape_inorder] at there
    have inside : y.toNat ∈ t.list.map BitVec.toNat := List.mem_map_of_mem there
    rw [listed] at inside
    exact (walk_absent linked ended (linked.treed.mem_iff.mp inside) (key_name ((guides y).2.2 turned))).elim
  | slot path' =>
    obtain ⟨slot,before',after',split',linked',low',high'⟩ := descend_slot sorted guides place
    obtain ⟨slot_,before,after,split,linked_,low,high⟩ := descend_slot linked.sorted (turn_guides dns name) ended
    obtain ⟨parent,link,search,takes⟩ := RBTree.search_free holds balanced slot place
    obtain ⟨next,t',holds',balanced',order',inserted⟩ := takes _ address fresh
    refine ⟨parent,link,next,⟨t',holds',balanced',?_⟩,max t.list.length path'.length,
      fun fuel enough => ⟨search fuel (by omega),inserted fuel (by omega)⟩⟩
    have abstract_ : inorder (dns.joined name path).shape = before++os.place dns.live::after :=
      (os.rbtree.insert_inorder _ _ _ slot_ unplaced).trans (linked_ _)
    have both : before'.map BitVec.toNat++after'.map BitVec.toNat = before++after := by
      rw [← List.map_append,← split',shape_inorder,listed,split]
    obtain ⟨first,last⟩ := parts_same (p:=fun x => decide (dns.key x < OrderDual.toDual name.rank)) both
      (by
        intro y member
        obtain ⟨x,inside,rfl⟩ := List.mem_map.mp member
        exact decide_eq_true (low' x inside))
      (by
        intro y member
        obtain ⟨x,inside,rfl⟩ := List.mem_map.mp member
        exact decide_eq_false (lt_asymm (high' x inside)))
      (fun y member => decide_eq_true (low y member)) fun y member => decide_eq_false (lt_asymm (high y member))
    rw [order',linked',abstract_,List.map_append,List.map_cons,back,first,last]

theorem erase_mirrors {nf : Nat} (linked : Linked dns (nf::order)) (mirrors : Mirrors tree dns.shape) :
    ∃ next, Mirrors next (dns.evict nf).shape ∧ ∃ bound, ∀ fuel, bound < fuel → hevRbtreeErase fuel tree (BitVec.ofNat w nf) = some next := by
  obtain ⟨t,holds,balanced,listed⟩ := mirrors
  have distinct : (inorder dns.shape).Nodup := linked.treed.nodup_iff.mpr (linked_nodup linked)
  have member : nf ∈ inorder dns.shape := linked.treed.mem_iff.mpr (by simp)
  have erased : inorder (dns.evict nf).shape = (inorder dns.shape).erase nf := os.rbtree.erase_inorder _ _ distinct member
  rw [← listed] at member
  obtain ⟨x,inside,rfl⟩ := List.mem_map.mp member
  obtain ⟨next,t',ends,holds',balanced',order'⟩ := RBTree.erase_holds holds balanced inside
  refine ⟨next,⟨t',holds',balanced',?_⟩,t.list.length,fun fuel enough => ?_⟩
  · rw [order',erased,← listed,List.map_erase toNat_injective]
  · rw [BitVec.ofNat_toNat,BitVec.setWidth_eq]
    exact ends fuel enough

theorem claim_free {fuel : Nat} (free : dns.use < dns.max) :
    claimInMemory fuel (inMemory dns tree) = some (dns.use,inMemory {dns with use:=dns.use+1} tree) := if_pos free

theorem claim_full {fuel nf : Nat} {next : HevRBTree w} (full : ¬dns.use < dns.max) (first : hevListFirst dns.list = some nf)
    (erased : hevRbtreeErase fuel tree (BitVec.ofNat w nf) = some next) :
    claimInMemory fuel (inMemory dns tree) = some ((dns.node nf).idx,inMemory (dns.evict nf) next) := by
  rw [claimInMemory,if_neg (show ¬(inMemory dns tree).use < (inMemory dns tree).max from full)]
  change (hevListFirst dns.list).bind _ = _
  rw [first,Option.bind_some]
  change (hevRbtreeErase fuel tree (BitVec.ofNat w nf)).bind _ = _
  rw [erased]
  rfl

theorem find_mirrors (valid : Valid dns order) (room : 0 < dns.max) (mirrors : Mirrors tree dns.shape) (placed : Placed w dns (.find name)) :
    ∃ next bound, (∀ fuel, bound < fuel → findInMemory os.place fuel (inMemory dns tree) name =
      some ((hevMappedDnsFind dns name).1,inMemory (hevMappedDnsFind dns name).2 next)) ∧ Mirrors next (hevMappedDnsFind dns name).2.shape := by
  cases ended : descend (dns.turn name) dns.shape with
  | found n =>
    obtain ⟨x,rfl,bound,held⟩ := found_held valid.linked mirrors ended
    have found : hevMappedDnsFind dns name = ((dns.node x.toNat).idx,dns.touch x.toNat) := by
      unfold hevMappedDnsFind
      rw [show descend (dns.turn name) (os.rbtree.shape dns.tree) = .found x.toNat from ended]
    rw [found]
    refine ⟨tree,bound,fun fuel enough => ?_,mirrors⟩
    rw [findInMemory,show searchTree (fun x => (inMemory dns tree).turn name x.toNat) fuel (inMemory dns tree).tree 0 .root = _ from held fuel enough]
    rfl
  | slot path =>
    obtain ⟨parent,link,middle,joined,bound,way⟩ := slot_free valid.linked mirrors ended placed.1 placed.2
    have entered : ∀ fuel, bound < fuel → findInMemory os.place fuel (inMemory dns tree) name =
        (claimInMemory fuel (inMemory (dns.joined name path) middle)).map fun claimed => (claimed.1,claimed.2.record claimed.1 (os.place dns.live)) := by
      intro fuel enough
      obtain ⟨search,base,linking,coloring⟩ := way fuel enough
      rw [findInMemory,show searchTree (fun x => (inMemory dns tree).turn name x.toNat) fuel (inMemory dns tree).tree 0 .root = _ from search,
        Option.bind_eq_bind,Option.bind_some]
      change (hevRbtreeNodeLink tree (BitVec.ofNat w (os.place dns.live)) parent link).bind _ = _
      rw [linking,Option.bind_some]
      change (hevRbtreeInsertColor fuel base (BitVec.ofNat w (os.place dns.live))).bind _ = _
      rw [coloring,Option.bind_some,Option.map_eq_bind]
      rfl
    rcases find_cases valid room name with ⟨n,member,named,_⟩ | ⟨path',ended',⟨free,found⟩ | ⟨nf,rest,rfl,full,found⟩⟩
    · exact (walk_absent valid.linked ended member named).elim
    · cases ended.symm.trans ended'
      rw [found]
      refine ⟨middle,bound,fun fuel enough => ?_,joined⟩
      have claimed : claimInMemory fuel (inMemory (dns.joined name path) middle) =
        some (dns.use,inMemory {dns.joined name path with use:=dns.use+1} middle) := claim_free free
      rw [entered fuel enough,claimed]
      rfl
    · cases ended.symm.trans ended'
      rw [found]
      have linked : Linked (dns.joined name path) (nf::(rest++[os.place dns.live])) := join_linked valid.linked ended
      have other : nf ≠ os.place dns.live := fun same => place_fresh valid.linked (by simp [← same])
      have same : ((dns.joined name path).node nf).idx = (dns.node nf).idx := congrArg HevMappedDnsNode.idx (joined_other other)
      obtain ⟨next,left,bound',erased⟩ := erase_mirrors linked joined
      refine ⟨next,max bound bound',fun fuel enough => ?_,left⟩
      have claimed := claim_full (show ¬(dns.joined name path).use < (dns.joined name path).max from Int.not_lt.mpr (Int.le_of_eq full.symm))
        (holds_first linked.listed) (erased fuel (by omega))
      rw [entered fuel (by omega),claimed,same]
      rfl

-- A lookup does the same to the store whatever its tree is, and leaves the tree as it is.
theorem lookup_mirrors (dns : Dns os) (tree : HevRBTree w) (ip : BitVec 32) :
    hevMappedDnsLookup (inMemory dns tree) ip = ((hevMappedDnsLookup dns ip).1,inMemory (hevMappedDnsLookup dns ip).2 tree) ∧
      (hevMappedDnsLookup dns ip).2.tree = dns.tree := by
  by_cases beyond : dns.max ≤ (ip &&& ~~~dns.mask).toInt
  · have within : hevMappedDnsLookup dns ip = (none,dns) := if_pos beyond
    have memory : hevMappedDnsLookup (inMemory dns tree) ip = (none,inMemory dns tree) := if_pos beyond
    rw [within,memory]
    exact ⟨rfl,rfl⟩
  · cases record : dns.records (ip &&& ~~~dns.mask).toInt with
    | none =>
      have within : hevMappedDnsLookup dns ip = (none,dns) := (if_neg beyond).trans (by simp only [record])
      have memory : hevMappedDnsLookup (inMemory dns tree) ip = (none,inMemory dns tree) := (if_neg beyond).trans (by simp only [inMemory,record])
      rw [within,memory]
      exact ⟨rfl,rfl⟩
    | some n =>
      have within : hevMappedDnsLookup dns ip = (some (dns.node n).name,dns.touch n) := (if_neg beyond).trans (by simp only [record])
      have memory : hevMappedDnsLookup (inMemory dns tree) ip = (some (dns.node n).name,inMemory (dns.touch n) tree) :=
        (if_neg beyond).trans (by simp only [inMemory,record]; rfl)
      rw [within,memory]
      exact ⟨rfl,rfl⟩

theorem call_mirrors (valid : Valid dns order) (room : 0 < dns.max) (mirrors : Mirrors tree dns.shape) {c : Call} (placed : Placed w dns c) :
    ∃ next bound, (∀ fuel, bound < fuel → callInMemory os.place fuel (inMemory dns tree) c = some (answer dns c,inMemory (call dns c) next)) ∧
      Mirrors next (call dns c).shape := by
  cases c with
  | find name =>
    obtain ⟨next,bound,went,after⟩ := find_mirrors valid room mirrors placed
    refine ⟨next,bound,fun fuel enough => ?_,after⟩
    rw [callInMemory,went fuel enough]
    rfl
  | lookup ip =>
    have same := lookup_mirrors dns tree ip
    refine ⟨tree,0,fun fuel _ => ?_,?_⟩
    · rw [callInMemory,same.1]
      rfl
    · change Mirrors tree (os.rbtree.shape (hevMappedDnsLookup dns ip).2.tree)
      rw [same.2]
      exact mirrors

theorem run_mirrors {calls : List Call} (valid : Valid dns order) (room : 0 < dns.max) (mirrors : Mirrors tree dns.shape)
    (placed : Runs.Along (fun dns c => some (call dns c)) (Placed w) dns calls) :
    ∃ next bound, (∀ fuel, bound < fuel → runInMemory os.place fuel (inMemory dns tree) calls =
      some (answers dns calls,inMemory (run dns calls) next)) ∧
      Mirrors next (run dns calls).shape := by
  induction calls generalizing dns order tree with
  | nil => exact ⟨tree,0,fun _ _ => rfl,mirrors⟩
  | cons c calls ih =>
    obtain ⟨middle,bound,went,after⟩ := call_mirrors valid room mirrors placed.1
    obtain ⟨order',valid'⟩ := call_valid valid room c
    have room' : 0 < (call dns c).max := (call_settled c).max.symm ▸ room
    obtain ⟨next,bound',ran,last⟩ := ih valid' room' after (placed.2 _ rfl)
    refine ⟨next,max bound bound',fun fuel enough => ?_,last⟩
    rw [runInMemory,went fuel (by omega),Option.bind_eq_bind,Option.bind_some]
    simp only [ran fuel (by omega),Option.bind_eq_bind,Option.bind_some]
    rfl

-- Whatever is asked of a new store: on the red-black tree in memory every call ends, reaches no
-- NULL, and answers as the store on any other balanced tree does.
theorem store_in_memory {node : Nat → HevMappedDnsNode} {net mask : BitVec 32} {max : Int} (made : hevMappedDnsNew os node net mask max = some dns)
    (room : 1 ≤ max) (nodes : BitVec w → HevRBTreeNode w) {calls : List Call}
    (placed : Runs.Along (fun dns c => some (call dns c)) (Placed w) dns calls) :
    ∃ tree bound, (∀ fuel, bound < fuel → runInMemory os.place fuel (inMemory dns ⟨0,nodes⟩) calls =
      some (answers dns calls,inMemory (run dns calls) tree)) ∧ Mirrors tree (run dns calls).shape := by
  have size := new_max made
  have bare : inorder dns.shape = [] := (new_linked made).treed.eq_nil
  exact run_mirrors (new_valid made (by omega)) (by omega) ⟨.nil,⟨rfl,trivial,List.nodup_nil⟩,⟨0,.nil⟩,bare.symm⟩ placed

-- Addresses that are multiples of 8.
def aligned : Platform where
  place live := 8*(live.foldr Nat.max 0+1)
  fresh live member := by have := above_all live member; omega
  rbtree := .plain

def alignedPair : Dns aligned :=
  {HevMappedDns.zero aligned pair.node with max:=2,net:=0xf0000000,mask:=0xf0000000}

theorem aligned_new : hevMappedDnsNew aligned pair.node 0xf0000000 0xf0000000 2 = some alignedPair := rfl

-- The third name takes the place of the first one.
def threeNames : List Call := [.find ⟨[120],by decide⟩,.find ⟨[121],by decide⟩,.find ⟨[122],by decide⟩]

theorem store_in_memory_pair : ∃ (tree : HevRBTree 64) (bound : Nat), (∀ fuel, bound < fuel →
    runInMemory aligned.place fuel (inMemory alignedPair ⟨0,fun _ => ⟨1,0,0⟩⟩) threeNames =
      some ([.index 0,.index 1,.index 0],inMemory (run alignedPair threeNames) tree)) ∧
    Mirrors tree (run alignedPair threeNames).shape := by
  refine store_in_memory aligned_new (by decide) _ ?_
  refine ⟨⟨by decide,by decide,by decide⟩,fun s went => ?_⟩
  cases went
  refine ⟨⟨by decide,by decide,by decide⟩,fun s went => ?_⟩
  cases went
  exact ⟨⟨by decide,by decide,by decide⟩,fun _ _ => trivial⟩

end Psocks.MappedDns.InMemory
