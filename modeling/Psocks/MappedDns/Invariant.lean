import Psocks.MappedDns.Store

namespace Psocks.MappedDns
open SearchTree Psocks.Lists
variable {os : Platform} {dns : Dns os} {order : List Nat} {node : Nat → HevMappedDnsNode} {net mask : BitVec 32} {max : Int}

-- The strings fall from left to right: a node below the target is left of it.
def HevMappedDns.key (self : Dns os) (node : Nat) : (List Nat)ᵒᵈ := OrderDual.toDual (self.node node).name.rank

def HevMappedDns.shape (self : Dns os) : BinaryTree Nat := os.rbtree.shape self.tree

def HevMappedDns.names (self : Dns os) (order : List Nat) : List CString :=
  order.map fun node => (self.node node).name

-- The two linked structures and the heap hold the same nodes.
structure Linked (dns : Dns os) (order : List Nat) : Prop where
  listed : Holds dns.list order
  treed : (inorder dns.shape).Perm order
  sorted : Sorted dns.key dns.shape
  alive : dns.live.Perm order

-- The index table names every node of `order` once, in the slots below `use`.
structure Indexed (dns : Dns os) (order : List Nat) : Prop where
  count : (order.length : Int) = dns.use
  slot : ∀ node ∈ order, 0 ≤ (dns.node node).idx ∧ (dns.node node).idx < dns.use
  indexed : ∀ node ∈ order, dns.records (dns.node node).idx = some node
  recorded : ∀ i node, dns.records i = some node → node ∈ order ∧ (dns.node node).idx = i
  filled : ∀ i, 0 ≤ i → i < dns.use → dns.records i ≠ none

structure Valid (dns : Dns os) (order : List Nat) : Prop where
  linked : Linked dns order
  table : Indexed dns order
  fits : dns.use ≤ dns.max

theorem new_max (made : hevMappedDnsNew os node net mask max = some dns) : dns.max = max := by
  unfold hevMappedDnsNew hevMappedDnsConstruct at made
  split at made
  · cases made
  · cases Option.some.inj made; rfl

theorem new_linked (made : hevMappedDnsNew os node net mask max = some dns) : Linked dns [] := by
  unfold hevMappedDnsNew hevMappedDnsConstruct at made
  split at made
  · cases made
  · cases Option.some.inj made
    have bare : inorder (os.rbtree.shape os.rbtree.empty) = [] := by rw [os.rbtree.shape_empty]; rfl
    refine ⟨empty_holds,?_,?_,.nil⟩
    · exact bare ▸ .nil
    · unfold Sorted HevMappedDns.shape
      simp [HevMappedDns.zero,bare]

theorem new_bare (made : hevMappedDnsNew os node net mask max = some dns) : dns.use = 0 ∧ ∀ i, dns.records i = none := by
  unfold hevMappedDnsNew hevMappedDnsConstruct at made
  split at made
  · cases made
  · cases Option.some.inj made
    exact ⟨rfl,fun _ => rfl⟩

theorem new_valid (made : hevMappedDnsNew os node net mask max = some dns) (room : 0 < max) : Valid dns [] := by
  obtain ⟨use,bare⟩ := new_bare made
  have size := new_max made
  refine ⟨new_linked made,⟨use.symm,by simp,by simp,?_,?_⟩,by omega⟩
  · intro i node found
    rw [bare i] at found
    cases found
  · intro i low high
    omega

theorem linked_nodup (linked : Linked dns order) : order.Nodup := linked.listed.distinct

-- Only the names of the nodes in the tree matter to its order.
theorem sorted_frame {a b : Dns os} (sorted : Sorted a.key t)
    (same : ∀ n ∈ inorder t, (b.node n).name = (a.node n).name) : Sorted b.key t := by
  refine List.Pairwise.imp_of_mem ?_ sorted
  intro x y mx my below
  simpa only [HevMappedDns.key,same x mx,same y my] using below

theorem linked_frame {a b : Dns os} (linked : Linked a order) (list : b.list = a.list)
    (tree : b.tree = a.tree) (live : b.live = a.live)
    (same : ∀ n ∈ order, (b.node n).name = (a.node n).name) : Linked b order := by
  have shape : b.shape = a.shape := by simp only [HevMappedDns.shape,tree]
  refine ⟨list ▸ linked.listed,shape ▸ linked.treed,?_,live ▸ linked.alive⟩
  rw [shape]
  exact sorted_frame linked.sorted fun n member => same n (linked.treed.mem_iff.mp member)

theorem indexed_frame {a b : Dns os} (table : Indexed a order) (use : b.use = a.use)
    (records : b.records = a.records) (same : ∀ n ∈ order, (b.node n).idx = (a.node n).idx) : Indexed b order := by
  refine ⟨use ▸ table.count,?_,?_,?_,?_⟩
  · intro n member
    rw [same n member,use]
    exact table.slot n member
  · intro n member
    rw [same n member,records]
    exact table.indexed n member
  · intro i n found
    rw [records] at found
    obtain ⟨member,at_⟩ := table.recorded i n found
    exact ⟨member,(same n member).trans at_⟩
  · intro i low high
    rw [records]
    exact table.filled i low (use ▸ high)

theorem turn_guides (dns : Dns os) (name : CString) :
    Guides dns.key (OrderDual.toDual name.rank) (dns.turn name) := by
  intro n
  have below := CString.strcmp_lt (dns.node n).name name
  have above := CString.strcmp_gt (dns.node n).name name
  have level := CString.strcmp_eq (dns.node n).name name
  unfold HevMappedDns.turn
  dsimp only
  refine ⟨?_,?_,?_⟩
  · intro turned
    split at turned
    · rename_i less
      exact OrderDual.toDual_lt_toDual.mpr (below.mp less)
    · split at turned <;> cases turned
  · intro turned
    split at turned
    · cases turned
    · split at turned
      · rename_i more
        exact OrderDual.toDual_lt_toDual.mpr (above.mp more)
      · cases turned
  · intro turned
    split at turned
    · cases turned
    · split at turned
      · cases turned
      · have same : strcmp (dns.node n).name.bytes name.bytes = 0 := by omega
        unfold HevMappedDns.key
        rw [level.mp same]

theorem key_name {name : CString} (same : dns.key n = OrderDual.toDual name.rank) : (dns.node n).name = name :=
  CString.rank_injective (OrderDual.toDual_inj.mp same)

theorem walk_found (linked : Linked dns order) (ended : descend (dns.turn name) dns.shape = .found n) :
    n ∈ order ∧ (dns.node n).name = name := by
  obtain ⟨member,level⟩ := descend_found ended
  exact ⟨linked.treed.mem_iff.mp member,key_name ((turn_guides dns name n).2.2 level)⟩

theorem walk_absent (linked : Linked dns order) (ended : descend (dns.turn name) dns.shape = .slot path)
    (member : n ∈ order) : (dns.node n).name ≠ name := by
  intro same
  refine descend_absent linked.sorted (turn_guides dns name) ended (linked.treed.mem_iff.mpr member) ?_
  unfold HevMappedDns.key
  rw [same]

theorem touch_valid (valid : Valid dns order) (member : n ∈ order) :
    Valid (dns.touch n) (order.erase n++[n]) := by
  have distinct := linked_nodup valid.linked
  have moved : (order.erase n++[n]).Perm order :=
    (List.perm_append_comm.trans (List.perm_cons_erase member).symm)
  have inside : ∀ x, x ∈ order.erase n++[n] → x ∈ order := fun x => moved.mem_iff.mp
  refine ⟨⟨?_,?_,valid.linked.sorted,?_⟩,⟨?_,?_,?_,?_,valid.table.filled⟩,valid.fits⟩
  · exact add_tail_holds (del_holds valid.linked.listed member) distinct.not_mem_erase
  · exact valid.linked.treed.trans moved.symm
  · exact valid.linked.alive.trans moved.symm
  · rw [moved.length_eq]
    exact valid.table.count
  · exact fun x more => valid.table.slot x (inside x more)
  · exact fun x more => valid.table.indexed x (inside x more)
  · intro i x found
    obtain ⟨member,at_⟩ := valid.table.recorded i x found
    exact ⟨moved.mem_iff.mpr member,at_⟩

theorem place_fresh (linked : Linked dns order) : os.place dns.live ∉ order :=
  fun member => os.fresh dns.live (linked.alive.mem_iff.mpr member)

theorem join_linked (linked : Linked dns order) (ended : descend (dns.turn name) dns.shape = .slot path) :
    Linked ((hevMappedDnsNodeAlloc os.place dns name).2.join path (os.place dns.live)) (order++[os.place dns.live]) := by
  have fresh := place_fresh linked
  have absent : os.place dns.live ∉ inorder dns.shape := fun member => fresh (linked.treed.mem_iff.mp member)
  have guides := turn_guides dns name
  have inserted : inorder (os.rbtree.shape (os.rbtree.insert dns.tree path (os.place dns.live))) =
      inorder (link dns.shape path (os.place dns.live)) :=
    os.rbtree.insert_inorder _ _ _ (descend_slot linked.sorted guides ended).1 absent
  refine ⟨add_tail_holds linked.listed fresh,?_,?_,?_⟩
  · show (inorder (os.rbtree.shape (os.rbtree.insert dns.tree path (os.place dns.live)))).Perm _
    rw [inserted]
    exact (link_perm linked.sorted guides ended).trans (linked.treed.append_right _)
  · show (inorder (os.rbtree.shape (os.rbtree.insert dns.tree path (os.place dns.live)))).Pairwise _
    rw [inserted]
    refine link_sorted linked.sorted guides ended ?_ ?_
    · intro x member
      have other : x ≠ os.place dns.live := fun same => absent (same ▸ member)
      simp [HevMappedDns.key,HevMappedDns.join,HevMappedDns.enter,hevMappedDnsNodeAlloc,other]
    · simp [HevMappedDns.key,HevMappedDns.join,HevMappedDns.enter,hevMappedDnsNodeAlloc]
  · exact (linked.alive.cons _).trans (List.perm_append_singleton _ _).symm

theorem evict_linked (linked : Linked dns (nf::rest)) : Linked (dns.evict nf) rest := by
  have distinct : (inorder dns.shape).Nodup := linked.treed.nodup_iff.mpr (linked_nodup linked)
  have member : nf ∈ inorder dns.shape := linked.treed.mem_iff.mpr (by simp)
  have erased : inorder (os.rbtree.shape (os.rbtree.erase dns.tree nf)) = (inorder dns.shape).erase nf :=
    os.rbtree.erase_inorder _ _ distinct member
  refine ⟨del_first_holds linked.listed,?_,?_,?_⟩
  · show (inorder (os.rbtree.shape (os.rbtree.erase dns.tree nf))).Perm _
    rw [erased]
    simpa using linked.treed.erase nf
  · show (inorder (os.rbtree.shape (os.rbtree.erase dns.tree nf))).Pairwise _
    rw [erased]
    exact List.Pairwise.sublist List.erase_sublist linked.sorted
  · show (dns.live.erase nf).Perm rest
    simpa using linked.alive.erase nf

-- A new node in the first slot that was never used.
theorem grow_indexed (table : Indexed dns order) (fresh : n ∉ order) :
    Indexed (HevMappedDns.record {dns with use:=dns.use+1} dns.use n) (order++[n]) := by
  have old : ∀ x ∈ order, x ≠ n := fun x member same => fresh (same ▸ member)
  have count := table.count
  refine ⟨by simp only [HevMappedDns.record,List.length_append,List.length_singleton]; omega,?_,?_,?_,?_⟩
  · intro x member
    rcases List.mem_append.mp member with here | last
    · have slot := table.slot x here
      simp only [HevMappedDns.record,Function.update_of_ne (old x here)]
      omega
    · rw [List.mem_singleton.mp last]
      simp only [HevMappedDns.record,Function.update_self]
      omega
  · intro x member
    rcases List.mem_append.mp member with here | last
    · have slot := table.slot x here
      simp only [HevMappedDns.record,Function.update_of_ne (old x here)]
      rw [Function.update_of_ne (by omega)]
      exact table.indexed x here
    · rw [List.mem_singleton.mp last]
      simp [HevMappedDns.record]
  · intro i x found
    simp only [HevMappedDns.record] at found ⊢
    by_cases at_ : i = dns.use
    · rw [at_,Function.update_self] at found
      cases Option.some.inj found
      exact ⟨by simp,by simp [at_]⟩
    · rw [Function.update_of_ne at_] at found
      obtain ⟨member,here⟩ := table.recorded i x found
      exact ⟨by simp [member],by rw [Function.update_of_ne (old x member)]; exact here⟩
  · intro i low high
    simp only [HevMappedDns.record] at high ⊢
    by_cases at_ : i = dns.use
    · simp [at_]
    · rw [Function.update_of_ne at_]
      exact table.filled i low (by omega)

-- A new node in the slot the oldest one leaves.
theorem reuse_indexed (table : Indexed dns (nf::rest)) (distinct : (nf::rest).Nodup) (fresh : n ∉ nf::rest) :
    Indexed (dns.record (dns.node nf).idx n) (rest++[n]) := by
  have old : ∀ x ∈ rest, x ≠ n := fun x member same => fresh (by simp [← same,member])
  have gone : nf ∉ rest := (List.nodup_cons.mp distinct).1
  have slots : ∀ x ∈ rest, (dns.node x).idx ≠ (dns.node nf).idx := by
    intro x member same
    have here := table.indexed x (by simp [member])
    rw [same,table.indexed nf (by simp)] at here
    exact gone (Option.some.inj here ▸ member)
  have count := table.count
  refine ⟨by simpa [HevMappedDns.record] using count,?_,?_,?_,?_⟩
  · intro x member
    rcases List.mem_append.mp member with here | last
    · simp only [HevMappedDns.record,Function.update_of_ne (old x here)]
      exact table.slot x (by simp [here])
    · rw [List.mem_singleton.mp last]
      simp only [HevMappedDns.record,Function.update_self]
      exact table.slot nf (by simp)
  · intro x member
    rcases List.mem_append.mp member with here | last
    · simp only [HevMappedDns.record,Function.update_of_ne (old x here),Function.update_of_ne (slots x here)]
      exact table.indexed x (by simp [here])
    · rw [List.mem_singleton.mp last]
      simp [HevMappedDns.record]
  · intro i x found
    simp only [HevMappedDns.record] at found ⊢
    by_cases at_ : i = (dns.node nf).idx
    · rw [at_,Function.update_self] at found
      cases Option.some.inj found
      exact ⟨by simp,by simp [at_]⟩
    · rw [Function.update_of_ne at_] at found
      obtain ⟨member,here⟩ := table.recorded i x found
      have kept : x ∈ rest := (List.mem_cons.mp member).resolve_left fun same => at_ (by rw [← here,same])
      exact ⟨by simp [kept],by rw [Function.update_of_ne (old x kept)]; exact here⟩
  · intro i low high
    simp only [HevMappedDns.record] at high ⊢
    by_cases at_ : i = (dns.node nf).idx
    · simp [at_]
    · rw [Function.update_of_ne at_]
      exact table.filled i low high

-- The store after the walk has failed and the new node is in the tree and on the
-- list, but in no slot.
def HevMappedDns.joined (self : Dns os) (name : CString) (path : List Side) : Dns os :=
  (hevMappedDnsNodeAlloc os.place self name).2.join path (os.place self.live)

theorem joined_other (other : x ≠ os.place dns.live) : (dns.joined name path).node x = dns.node x :=
  Function.update_of_ne other _ _

theorem joined_indexed (valid : Valid dns order) : Indexed (dns.joined name path) order := by
  refine indexed_frame valid.table rfl rfl ?_
  intro x member
  rw [joined_other fun same => place_fresh valid.linked (same ▸ member)]

theorem find_slot (ended : descend (dns.turn name) dns.shape = .slot path) :
    hevMappedDnsFind dns name = ((dns.joined name path).claim.1,
      (dns.joined name path).claim.2.record (dns.joined name path).claim.1 (os.place dns.live)) := by
  unfold hevMappedDnsFind
  rw [show descend (dns.turn name) (os.rbtree.shape dns.tree) = .slot path from ended]
  rfl

theorem find_cases (valid : Valid dns order) (room : 0 < dns.max) (name : CString) :
    (∃ n ∈ order, (dns.node n).name = name ∧ hevMappedDnsFind dns name = ((dns.node n).idx,dns.touch n)) ∨
    ∃ path, descend (dns.turn name) dns.shape = .slot path ∧
      ((dns.use < dns.max ∧ hevMappedDnsFind dns name =
        (dns.use,HevMappedDns.record {dns.joined name path with use:=dns.use+1} dns.use (os.place dns.live))) ∨
      ∃ nf rest, order = nf::rest ∧ dns.use = dns.max ∧ hevMappedDnsFind dns name =
        ((dns.node nf).idx,((dns.joined name path).evict nf).record (dns.node nf).idx (os.place dns.live))) := by
  cases ended : descend (dns.turn name) dns.shape with
  | found n =>
    obtain ⟨member,named⟩ := walk_found valid.linked ended
    refine .inl ⟨n,member,named,?_⟩
    unfold hevMappedDnsFind
    rw [show descend (dns.turn name) (os.rbtree.shape dns.tree) = .found n from ended]
  | slot path =>
    refine .inr ⟨path,rfl,?_⟩
    have unfolded := find_slot ended
    by_cases free : dns.use < dns.max
    · have claimed : (dns.joined name path).claim = (dns.use,{dns.joined name path with use:=dns.use+1}) := if_pos free
      exact .inl ⟨free,by rw [unfolded,claimed]⟩
    · have full : dns.use = dns.max := Int.le_antisymm valid.fits (Int.not_lt.mp free)
      have count := valid.table.count
      cases order with
      | nil => simp only [List.length_nil] at count; omega
      | cons nf rest =>
        have first : hevListFirst (dns.joined name path).list = some nf :=
          holds_first (join_linked valid.linked ended).listed
        have other : nf ≠ os.place dns.live := fun same => place_fresh valid.linked (by simp [← same])
        have claimed : (dns.joined name path).claim = ((dns.node nf).idx,(dns.joined name path).evict nf) := by
          unfold HevMappedDns.claim
          rw [if_neg (show ¬ (dns.joined name path).use < (dns.joined name path).max from free),first]
          simp only [joined_other other]
        exact .inr ⟨nf,rest,rfl,full,by rw [unfolded,claimed]⟩

theorem record_linked (linked : Linked dns order) : Linked (dns.record i n) order := by
  refine linked_frame linked rfl rfl rfl ?_
  intro x _
  by_cases same : x = n
  · subst same
    simp [HevMappedDns.record]
  · simp [HevMappedDns.record,same]

theorem grow_valid (valid : Valid dns order) (ended : descend (dns.turn name) dns.shape = .slot path)
    (free : dns.use < dns.max) :
    Valid (HevMappedDns.record {dns.joined name path with use:=dns.use+1} dns.use (os.place dns.live))
      (order++[os.place dns.live]) := by
  have joined := join_linked valid.linked ended
  refine ⟨record_linked ⟨joined.listed,joined.treed,joined.sorted,joined.alive⟩,?_,?_⟩
  · have table : Indexed (dns.joined name path) order := joined_indexed valid
    exact grow_indexed table (place_fresh valid.linked)
  · show dns.use+1 ≤ dns.max
    omega

theorem reuse_valid (valid : Valid dns (nf::rest)) (ended : descend (dns.turn name) dns.shape = .slot path) :
    Valid (((dns.joined name path).evict nf).record (dns.node nf).idx (os.place dns.live))
      (rest++[os.place dns.live]) := by
  have joined := join_linked valid.linked ended
  have fresh := place_fresh valid.linked
  have other : nf ≠ os.place dns.live := fun same => fresh (by simp [← same])
  refine ⟨record_linked (evict_linked joined),?_,valid.fits⟩
  have slot : (((dns.joined name path).evict nf).node nf).idx = (dns.node nf).idx := by
    show ((dns.joined name path).node nf).idx = _
    rw [joined_other other]
  rw [← slot]
  have whole : Indexed (dns.joined name path) (nf::rest) := joined_indexed valid
  have table : Indexed ((dns.joined name path).evict nf) (nf::rest) := indexed_frame whole rfl rfl fun _ _ => rfl
  exact reuse_indexed table (linked_nodup valid.linked) fresh

theorem names_distinct (linked : Linked dns order) : (dns.names order).Nodup := by
  have apart : (dns.names (inorder dns.shape)).Nodup := by
    refine List.pairwise_map.mpr (linked.sorted.imp ?_)
    intro x y below same
    exact ne_of_lt below (by simp only [HevMappedDns.key,same])
  exact (linked.treed.map _).nodup_iff.mp apart

theorem name_injective (linked : Linked dns order) (mx : x ∈ order) (my : y ∈ order)
    (same : (dns.node x).name = (dns.node y).name) : x = y :=
  List.inj_on_of_nodup_map (names_distinct linked) mx my same

theorem find_valid (valid : Valid dns order) (room : 0 < dns.max) (name : CString) :
    ∃ next, Valid (hevMappedDnsFind dns name).2 next := by
  rcases find_cases valid room name with ⟨n,member,_,found⟩ | ⟨path,ended,⟨free,found⟩ | ⟨nf,rest,rfl,_,found⟩⟩
  · rw [found]; exact ⟨_,touch_valid valid member⟩
  · rw [found]; exact ⟨_,grow_valid valid ended free⟩
  · rw [found]; exact ⟨_,reuse_valid valid ended⟩

theorem lookup_cases (valid : Valid dns order) (ip : BitVec 32) :
    (hevMappedDnsLookup dns ip = (none,dns) ∧ ∀ name, (ip &&& ~~~dns.mask).toInt < dns.max →
      ¬Slotted dns (ip &&& ~~~dns.mask).toInt name) ∨
    ∃ n ∈ order, (dns.node n).idx = (ip &&& ~~~dns.mask).toInt ∧
      hevMappedDnsLookup dns ip = (some (dns.node n).name,dns.touch n) := by
  unfold hevMappedDnsLookup
  dsimp only
  split
  · rename_i beyond
    exact .inl ⟨rfl,fun name inside => absurd inside (Int.not_lt.mpr beyond)⟩
  · cases record : dns.records (ip &&& ~~~dns.mask).toInt with
    | none =>
      refine .inl ⟨rfl,fun name _ slotted => ?_⟩
      obtain ⟨n,found,_⟩ := slotted
      rw [record] at found
      cases found
    | some n =>
      obtain ⟨member,here⟩ := valid.table.recorded _ n record
      exact .inr ⟨n,member,here,rfl⟩

theorem lookup_valid (valid : Valid dns order) (ip : BitVec 32) :
    ∃ next, Valid (hevMappedDnsLookup dns ip).2 next := by
  rcases lookup_cases valid ip with ⟨missed,_⟩ | ⟨n,member,_,hit⟩
  · rw [missed]; exact ⟨_,valid⟩
  · rw [hit]; exact ⟨_,touch_valid valid member⟩

structure Settled (dns next : Dns os) : Prop where
  max : next.max = dns.max
  net : next.net = dns.net
  mask : next.mask = dns.mask

theorem claim_settled : Settled dns dns.claim.2 := by
  unfold HevMappedDns.claim
  split
  · exact ⟨rfl,rfl,rfl⟩
  · split <;> exact ⟨rfl,rfl,rfl⟩

theorem find_settled (name : CString) : Settled dns (hevMappedDnsFind dns name).2 := by
  unfold hevMappedDnsFind
  split
  · exact ⟨rfl,rfl,rfl⟩
  · rename_i path _
    have claimed : Settled (dns.joined name path) (dns.joined name path).claim.2 := claim_settled
    exact ⟨claimed.max,claimed.net,claimed.mask⟩

theorem lookup_settled (ip : BitVec 32) : Settled dns (hevMappedDnsLookup dns ip).2 := by
  unfold hevMappedDnsLookup
  dsimp only
  split
  · exact ⟨rfl,rfl,rfl⟩
  · split <;> exact ⟨rfl,rfl,rfl⟩

theorem call_settled (c : Call) : Settled dns (call dns c) := by
  cases c with
  | find name => exact find_settled name
  | lookup ip => exact lookup_settled ip

theorem call_valid (valid : Valid dns order) (room : 0 < dns.max) (c : Call) : ∃ next, Valid (call dns c) next := by
  cases c with
  | find name => exact find_valid valid room name
  | lookup ip => exact lookup_valid valid ip

theorem run_settled (calls : List Call) : Settled dns (run dns calls) := by
  induction calls generalizing dns with
  | nil => exact ⟨rfl,rfl,rfl⟩
  | cons c rest ih =>
    have first : Settled dns (call dns c) := call_settled c
    have later : Settled (call dns c) (run dns (c::rest)) := ih
    exact ⟨later.max.trans first.max,later.net.trans first.net,later.mask.trans first.mask⟩

theorem run_valid (valid : Valid dns order) (room : 0 < dns.max) (calls : List Call) :
    ∃ next, Valid (run dns calls) next := by
  induction calls generalizing dns order with
  | nil => exact ⟨_,valid⟩
  | cons c rest ih =>
    obtain ⟨middle,went⟩ := call_valid valid room c
    have kept : (call dns c).max = dns.max := (call_settled c).max
    exact ih went (kept ▸ room)

-- The index table, the list, the tree and the heap seen from outside.
structure Consistent (dns : Dns os) : Prop where
  bounds : 0 ≤ dns.use ∧ dns.use ≤ dns.max
  filled : ∀ i, dns.records i ≠ none ↔ 0 ≤ i ∧ i < dns.use
  indexed : ∀ i n, dns.records i = some n → (dns.node n).idx = i
  shared : ∃ order, Holds dns.list order ∧ order.Nodup ∧ (inorder dns.shape).Perm order ∧ dns.live.Perm order ∧
    ∀ n, n ∈ order ↔ ∃ i, dns.records i = some n
  distinct : ∀ i j name, Slotted dns i name → Slotted dns j name → i = j
  sorted : (inorder dns.shape).Pairwise fun x y => 0 < strcmp (dns.node x).name.bytes (dns.node y).name.bytes

theorem valid_slot (valid : Valid dns order) (slotted : Slotted dns i name) : 0 ≤ i ∧ i < dns.use := by
  obtain ⟨n,found,_⟩ := slotted
  obtain ⟨member,rfl⟩ := valid.table.recorded i n found
  exact valid.table.slot n member

theorem valid_consistent (valid : Valid dns order) : Consistent dns := by
  have count := valid.table.count
  refine ⟨⟨by omega,valid.fits⟩,?_,fun i n found => (valid.table.recorded i n found).2,?_,?_,?_⟩
  · intro i
    constructor
    · intro taken
      obtain ⟨n,found⟩ := Option.ne_none_iff_exists'.mp taken
      obtain ⟨member,rfl⟩ := valid.table.recorded i n found
      exact valid.table.slot n member
    · exact fun ⟨low,high⟩ => valid.table.filled i low high
  · refine ⟨order,valid.linked.listed,linked_nodup valid.linked,valid.linked.treed,valid.linked.alive,?_⟩
    exact fun n => ⟨fun member => ⟨_,valid.table.indexed n member⟩,fun ⟨i,found⟩ => (valid.table.recorded i n found).1⟩
  · intro i j name first second
    obtain ⟨a,atFirst,named⟩ := first
    obtain ⟨b,atSecond,named'⟩ := second
    obtain ⟨ma,rfl⟩ := valid.table.recorded i a atFirst
    obtain ⟨mb,rfl⟩ := valid.table.recorded j b atSecond
    rw [name_injective valid.linked ma mb (named.trans named'.symm)]
  · refine valid.linked.sorted.imp ?_
    intro x y below
    exact (CString.strcmp_gt _ _).mpr (OrderDual.toDual_lt_toDual.mp below)

structure Finds (dns next : Dns os) (name : CString) (idx : Int) : Prop where
  range : 0 ≤ idx ∧ idx < dns.max
  slot : Slotted next idx name
  added : ∀ a b, a ∈ next.live → a ∉ dns.live → b ∈ next.live → b ∉ dns.live → a = b
  removed : ∀ n ∈ dns.live, n ∉ next.live →
    (∀ x ∈ dns.live, (dns.node x).name ≠ name) ∧ dns.use = dns.max ∧ (dns.node n).idx = idx

theorem find_finds (valid : Valid dns order) (room : 0 < dns.max) (name : CString) :
    Finds dns (hevMappedDnsFind dns name).2 name (hevMappedDnsFind dns name).1 := by
  have fits := valid.fits
  have count := valid.table.count
  have fresh := os.fresh dns.live
  have absent : ∀ {path}, descend (dns.turn name) dns.shape = .slot path → ∀ x ∈ dns.live, (dns.node x).name ≠ name :=
    fun ended x member => walk_absent valid.linked ended (valid.linked.alive.mem_iff.mp member)
  rcases find_cases valid room name with ⟨n,member,named,found⟩ | ⟨path,ended,⟨free,found⟩ | ⟨nf,rest,rfl,full,found⟩⟩
  · have slot := valid.table.slot n member
    rw [found]
    refine ⟨⟨slot.1,by omega⟩,⟨n,valid.table.indexed n member,named⟩,?_,?_⟩
    · exact fun a b new old => absurd new old
    · exact fun n old gone => absurd old gone
  · rw [found]
    refine ⟨⟨by omega,free⟩,⟨os.place dns.live,by simp [HevMappedDns.record],?_⟩,?_,?_⟩
    · simp [HevMappedDns.record,HevMappedDns.joined,HevMappedDns.join,HevMappedDns.enter,hevMappedDnsNodeAlloc]
    · intro a b newA oldA newB oldB
      rw [(List.mem_cons.mp newA).resolve_right oldA,(List.mem_cons.mp newB).resolve_right oldB]
    · exact fun n old gone => absurd (List.mem_cons_of_mem _ old) gone
  · have slot := valid.table.slot nf (by simp)
    have distinct : (os.place dns.live::dns.live).Nodup :=
      List.nodup_cons.mpr ⟨fresh,valid.linked.alive.nodup_iff.mpr (linked_nodup valid.linked)⟩
    rw [found]
    refine ⟨⟨slot.1,by simp only; omega⟩,⟨os.place dns.live,by simp [HevMappedDns.record],?_⟩,?_,?_⟩
    · simp [HevMappedDns.record,HevMappedDns.evict,HevMappedDns.leave,hevMappedDnsNodeFree,HevMappedDns.joined,HevMappedDns.join,HevMappedDns.enter,
        hevMappedDnsNodeAlloc]
    · intro a b newA oldA newB oldB
      rw [(List.mem_cons.mp (List.mem_of_mem_erase newA)).resolve_right oldA,
        (List.mem_cons.mp (List.mem_of_mem_erase newB)).resolve_right oldB]
    · intro n old gone
      have erased : n = nf := by
        by_contra other
        exact gone ((List.mem_erase_of_ne other).mpr (List.mem_cons_of_mem _ old))
      exact ⟨absent ended,full,by rw [erased]⟩

theorem store_consistent (made : hevMappedDnsNew os node net mask max = some dns) (room : 1 ≤ max) (calls : List Call) :
    (run dns calls).max = max ∧ Consistent (run dns calls) ∧
    ∀ name, Finds (run dns calls) (hevMappedDnsFind (run dns calls) name).2 name (hevMappedDnsFind (run dns calls) name).1 := by
  have size := new_max made
  have kept : (run dns calls).max = max := (run_settled calls).max.trans size
  obtain ⟨order,valid⟩ := run_valid (new_valid made (by omega)) (size ▸ room) calls
  exact ⟨kept,valid_consistent valid,fun name => find_finds valid (kept ▸ room) name⟩

-- Three names: the third takes over the slot of the second, which is the oldest
-- once the first has been looked up.
theorem store_consistent_pair :
    Consistent (run pair [.find ⟨[97],by decide⟩,.find ⟨[98],by decide⟩,.lookup 0xf0000000,.find ⟨[99],by decide⟩]) :=
  (store_consistent pair_new (by decide) _).2.1

end Psocks.MappedDns
