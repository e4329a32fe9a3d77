import Psocks.Lib.Runs
import Psocks.Misc.RBSearch
import Psocks.Socks5.Accounts

namespace Psocks.Users
open Psocks.RBTree SearchTree RedBlack
open Socks5 (HevSocks5User UserObject AccountCall AccountReply Accounts turnName nameKey turn_guides key_name)
variable {w : Nat}

-- The tree of an authenticator in memory, with the users whose objects its nodes lie in.
structure UserTree (w : Nat) where
  tree : HevRBTree w
  user : BitVec w → HevSocks5User

def UserTree.object (m : UserTree w) (x : BitVec w) : UserObject := ⟨x.toNat,m.user x⟩

def UserTree.search (fuel : Nat) (m : UserTree w) (name : List UInt8) : Option (Search w) :=
  searchTree (fun x => turnName name (m.user x)) fuel m.tree 0 .root

def hevSocks5AuthenticatorAdd (fuel : Nat) (m : UserTree w) (x : BitVec w) : Option (Int × UserTree w) := do
  match ← m.search fuel (m.user x).name with
  | .held _ => some (-1,m)
  | .free parent link =>
    let tree ← hevRbtreeNodeLink m.tree x parent link
    let tree ← hevRbtreeInsertColor fuel tree x
    some (0,{m with tree:=tree})

-- With the user whose reference is dropped.
def hevSocks5AuthenticatorDel (fuel : Nat) (m : UserTree w) (name : List UInt8) : Option (Int × List UserObject × UserTree w) := do
  match ← m.search fuel name with
  | .held this =>
    let tree ← hevRbtreeErase fuel m.tree this
    some (0,[m.object this],{m with tree:=tree})
  | .free _ _ => some (-1,[],m)

def hevSocks5AuthenticatorGet (fuel : Nat) (m : UserTree w) (name : List UInt8) : Option (Option (BitVec w)) := do
  match ← m.search fuel name with
  | .held this => some (some this)
  | .free _ _ => some none

def clearLoop (fuel : Nat) : Nat → UserTree w → Option (List UserObject × UserTree w)
  | 0, _ => none
  | turns+1, m => do
    let n ← hevRbtreeFirst fuel m.tree
    if n = 0 then some ([],m)
    else
      let tree ← hevRbtreeErase fuel m.tree n
      let (unrefs,next) ← clearLoop fuel turns {m with tree:=tree}
      some (m.object n::unrefs,next)

def hevSocks5AuthenticatorClear (fuel : Nat) (m : UserTree w) : Option (List UserObject × UserTree w) := clearLoop fuel fuel m

-- The calls on an authenticator, where `add` is given a user's object.
inductive UserCall (w : Nat) where
  | add (x : BitVec w) (user : HevSocks5User)
  | del (name : List UInt8)
  | get (name : List UInt8)
  | clear

def UserCall.call : UserCall w → AccountCall
  | .add x user => .add ⟨x.toNat,user⟩
  | .del name => .del name
  | .get name => .get name
  | .clear => .clear

def UserTree.perform (fuel : Nat) (m : UserTree w) : UserCall w → Option ((AccountReply × List UserObject) × UserTree w)
  | .add x user => do
    let (res,m) ← hevSocks5AuthenticatorAdd fuel {m with user:=Function.update m.user x user} x
    some ((.code res,[]),m)
  | .del name => do
    let (res,unrefs,m) ← hevSocks5AuthenticatorDel fuel m name
    some ((.code res,unrefs),m)
  | .get name => do
    let found ← hevSocks5AuthenticatorGet fuel m name
    some ((.found (found.map m.object),[]),m)
  | .clear => do
    let (unrefs,m) ← hevSocks5AuthenticatorClear fuel m
    some ((.done,unrefs),m)

def UserTree.performAll (fuel : Nat) (m : UserTree w) : List (UserCall w) → Option (List (AccountReply × List UserObject) × UserTree w)
  | [] => some ([],m)
  | call::calls => do
    let (reply,m) ← m.perform fuel call
    let (replies,m) ← m.performAll fuel calls
    some (reply::replies,m)

-- A new object is aligned and not one of those in the tree.
def Fits (m : UserTree w) : UserCall w → Prop
  | .add x _ => Address x ∧ ¬Within m.tree x
  | _ => True

def step (fuel : Nat) (m : UserTree w) (call : UserCall w) : Option (UserTree w) := (m.perform fuel call).map Prod.snd

variable {m next : UserTree w} {t : Colored (BitVec w)} {accounts : Accounts} {x : BitVec w} {name : List UInt8} {path : List Side}

-- The users in the tree, as the map they stand for.
structure Stands (m : UserTree w) (t : Colored (BitVec w)) (accounts : Accounts) : Prop where
  holds : Holds m.tree t
  balanced : IsRedBlack t
  sorted : Sorted (fun x => (m.user x).key) t.shape
  map : ∀ name object, accounts name = some object ↔ ∃ x ∈ t.list, (m.user x).name = name ∧ m.object x = object

theorem turns_guide (m : UserTree w) (name : List UInt8) : Guides (fun x => (m.user x).key) (nameKey name) fun x => turnName name (m.user x) :=
  fun x => turn_guides name (m.user x)

theorem name_unique (stands : Stands m t accounts) {y : BitVec w} (left : x ∈ t.list) (right : y ∈ t.list)
    (same : (m.user x).name = (m.user y).name) : x = y := by
  have sorted := stands.sorted
  unfold Sorted at sorted
  rw [shape_inorder] at sorted
  have keys : (t.list.map fun x => (m.user x).key).Nodup := List.pairwise_map.mpr (sorted.imp fun less => ne_of_lt less)
  exact List.inj_on_of_nodup_map keys left right (congrArg nameKey same)

theorem found_user (stands : Stands m t accounts) (ended : descend (fun x => turnName name (m.user x)) t.shape = .found x) :
    x ∈ t.list ∧ (m.user x).name = name ∧ accounts name = some (m.object x) := by
  obtain ⟨member,turn⟩ := descend_found ended
  rw [shape_inorder] at member
  have named : (m.user x).name = name := key_name ((turn_guides name (m.user x)).2.2 turn)
  exact ⟨member,named,(stands.map _ _).mpr ⟨x,member,named,rfl⟩⟩

theorem missing_user (stands : Stands m t accounts) (ended : descend (fun x => turnName name (m.user x)) t.shape = .slot path) :
    accounts name = none := by
  by_contra some_
  obtain ⟨object,held⟩ := Option.ne_none_iff_exists'.mp some_
  obtain ⟨x,member,named,_⟩ := (stands.map _ _).mp held
  rw [← shape_inorder] at member
  exact descend_absent stands.sorted (turns_guide m name) ended member (congrArg nameKey named)

theorem other_user (stands : Stands m t accounts) (fresh : x ∉ t.list) (user : HevSocks5User) :
    Stands {m with user:=Function.update m.user x user} t accounts := by
  have same : ∀ y ∈ t.list, Function.update m.user x user y = m.user y := by
    intro y member
    have apart : y ≠ x := fun equal => fresh (equal ▸ member)
    exact Function.update_of_ne apart ..
  refine ⟨stands.holds,stands.balanced,?_,fun name object => ?_⟩
  · have sorted := stands.sorted
    unfold Sorted at sorted ⊢
    rw [shape_inorder] at sorted ⊢
    apply sorted.imp_of_mem
    intro a b ha hb less
    change (Function.update m.user x user a).key < (Function.update m.user x user b).key
    rwa [same a ha,same b hb]
  · rw [stands.map]
    apply exists_congr
    intro y
    apply and_congr_right
    intro member
    rw [UserTree.object,UserTree.object]
    change _ ↔ (Function.update m.user x user y).name = name ∧ UserObject.mk y.toNat (Function.update m.user x user y) = object
    rw [same y member]

theorem search_free (stands : Stands m t accounts) (ended : descend (fun x => turnName name (m.user x)) t.shape = .slot path) :
    ∃ parent link, (∀ fuel, t.list.length < fuel → m.search fuel name = some (.free parent link)) ∧
      ∀ x, Address x → x ∉ t.list → ∃ next t', Holds next t' ∧ IsRedBlack t' ∧ t'.list = inorder (SearchTree.link t.shape path x) ∧
        ∀ fuel, path.length < fuel → ∃ linked, hevRbtreeNodeLink m.tree x parent link = some linked ∧
          hevRbtreeInsertColor fuel linked x = some next := by
  have slot := (SearchTree.descend_slot stands.sorted (turns_guide m name) ended).1
  exact RBTree.search_free stands.holds stands.balanced slot ended

theorem search_held (stands : Stands m t accounts) (ended : descend (fun x => turnName name (m.user x)) t.shape = .found x) (fuel : Nat)
    (enough : t.list.length < fuel) : m.search fuel name = some (.held x) := RBTree.search_held stands.holds ended fuel enough

theorem get_ends (stands : Stands m t accounts) (name : List UInt8) :
    ∃ found, (∀ fuel, t.list.length < fuel → hevSocks5AuthenticatorGet fuel m name = some found) ∧ found.map m.object = accounts name := by
  cases ended : descend (fun x => turnName name (m.user x)) t.shape with
  | found x =>
    refine ⟨some x,fun fuel enough => ?_,(found_user stands ended).2.2.symm⟩
    rw [hevSocks5AuthenticatorGet,search_held stands ended fuel enough]
    rfl
  | slot path =>
    obtain ⟨parent,link,free,_⟩ := search_free stands ended
    refine ⟨none,fun fuel enough => ?_,(missing_user stands ended).symm⟩
    rw [hevSocks5AuthenticatorGet,free fuel enough]
    rfl

-- A new user is linked where the search for its name ends.
theorem linked_stands (stands : Stands m t accounts) (ended : descend (fun y => turnName (m.user x).name (m.user y)) t.shape = .slot path)
    (address : Address x) (fresh : x ∉ t.list) :
    ∃ next t', (∀ fuel, t.list.length < fuel → hevSocks5AuthenticatorAdd fuel m x = some (0,next)) ∧
      (∀ y, y ∈ t'.list ↔ y ∈ t.list ∨ y = x) ∧ t'.list.length = t.list.length+1 ∧
      Stands next t' (Function.update accounts (m.user x).name (some (m.object x))) := by
  obtain ⟨parent,link,free,takes⟩ := search_free stands ended
  obtain ⟨tree,t',holds,balanced,order,inserted⟩ := takes x address fresh
  have guides := turns_guide m (m.user x).name
  have joined : t'.list.Perm (t.list++[x]) := by
    rw [order,← shape_inorder]
    exact link_perm stands.sorted guides ended
  have members : ∀ y, y ∈ t'.list ↔ y ∈ t.list ∨ y = x := by
    intro y
    rw [joined.mem_iff,List.mem_append,List.mem_singleton]
  have short : path.length ≤ t.list.length := by
    rw [← shape_inorder]
    exact slot_short (descend_slot stands.sorted guides ended).1
  refine ⟨{m with tree:=tree},t',fun fuel enough => ?_,members,?_,holds,balanced,?_,fun name object => ?_⟩
  · obtain ⟨linked,linking,coloring⟩ := inserted fuel (by omega)
    rw [hevSocks5AuthenticatorAdd,free fuel (by omega),Option.bind_eq_bind,Option.bind_some]
    exact Option.bind_eq_some_iff.mpr ⟨linked,linking,Option.bind_eq_some_iff.mpr ⟨tree,coloring,rfl⟩⟩
  · rw [joined.length_eq,List.length_append,List.length_singleton]
  · have sorted := link_sorted (n:=x) stands.sorted guides ended (fun _ _ => rfl) rfl
    unfold Sorted at sorted ⊢
    rwa [shape_inorder,order]
  · by_cases same : name = (m.user x).name
    · rw [same,Function.update_self]
      constructor
      · intro held
        exact ⟨x,(members x).mpr (.inr rfl),rfl,Option.some.inj held⟩
      · rintro ⟨y,inside,named,rfl⟩
        rcases (members y).mp inside with old | rfl
        · have held := (stands.map _ _).mpr ⟨y,old,named,rfl⟩
          rw [missing_user stands ended] at held
          cases held
        · rfl
    · rw [Function.update_of_ne same,stands.map]
      apply exists_congr
      intro y
      constructor
      · rintro ⟨old,held⟩
        exact ⟨(members y).mpr (.inl old),held⟩
      · rintro ⟨inside,named,held⟩
        rcases (members y).mp inside with old | rfl
        · exact ⟨old,named,held⟩
        · exact (same named.symm).elim

theorem erased_stands (stands : Stands m t accounts) (member : x ∈ t.list) :
    ∃ tree t', (∀ fuel, t.list.length < fuel → hevRbtreeErase fuel m.tree x = some tree) ∧ t'.list = t.list.erase x ∧
      Stands {m with tree:=tree} t' (Function.update accounts (m.user x).name none) := by
  obtain ⟨tree,t',ends,holds,balanced,order⟩ := erase_holds stands.holds stands.balanced member
  have distinct := stands.holds.distinct
  refine ⟨tree,t',ends,order,holds,balanced,?_,fun name object => ?_⟩
  · have sorted := stands.sorted
    unfold Sorted at sorted ⊢
    rw [shape_inorder] at sorted ⊢
    rw [order]
    exact sorted.sublist List.erase_sublist
  · rw [order]
    by_cases same : name = (m.user x).name
    · rw [same,Function.update_self]
      refine ⟨fun held => (by cases held),?_⟩
      rintro ⟨y,inside,named,_⟩
      obtain ⟨apart,old⟩ := distinct.mem_erase_iff.mp inside
      exact (apart (name_unique stands old member named)).elim
    · rw [Function.update_of_ne same,stands.map]
      apply exists_congr
      intro y
      rw [distinct.mem_erase_iff]
      constructor
      · rintro ⟨old,named,held⟩
        refine ⟨⟨?_,old⟩,named,held⟩
        rintro rfl
        exact same named.symm
      · rintro ⟨⟨_,old⟩,held⟩
        exact ⟨old,held⟩

-- The loop takes the users out from the left.
theorem clear_ends (stands : Stands m t accounts) :
    ∃ next, (∀ fuel turns, t.list.length < fuel → t.list.length < turns → clearLoop fuel turns m = some (t.list.map m.object,next)) ∧
      Stands next .nil fun _ => none := by
  obtain ⟨n,size⟩ : ∃ n, t.list.length = n := ⟨_,rfl⟩
  induction n generalizing m t accounts with
  | zero =>
    have empty := List.length_eq_zero_iff.mp size
    refine ⟨m,fun fuel turns enough more => ?_,?_⟩
    · obtain ⟨k,rfl⟩ : ∃ k, turns = k+1 := ⟨turns-1,by omega⟩
      have leftmost : hevRbtreeFirst fuel m.tree = some 0 := by
        have ends := treeEnd_list stands.holds .right fuel enough
        rwa [show t.toward .right = [] from empty] at ends
      rw [clearLoop,leftmost,empty]
      rfl
    · have leaf : t = .nil := by
        cases t with
        | nil => rfl
        | node c l x r => simp [Colored.list] at empty
      subst leaf
      refine ⟨stands.holds,stands.balanced,stands.sorted,fun name object => ⟨fun held => (by cases held),?_⟩⟩
      rintro ⟨y,inside,_⟩
      cases inside
  | succ n ih =>
    obtain ⟨x,rest,shape⟩ := List.exists_cons_of_ne_nil (List.ne_nil_of_length_pos (by omega : 0 < t.list.length))
    have member : x ∈ t.list := by simp [shape]
    have filled := member_filled stands.holds member
    obtain ⟨tree,t',ends,order,stands'⟩ := erased_stands stands member
    rw [shape,List.erase_cons_head] at order
    have fewer : t'.list.length = n := by
      rw [order]
      rw [shape,List.length_cons] at size
      omega
    obtain ⟨next,cleared,left⟩ := ih stands' fewer
    refine ⟨next,fun fuel turns enough more => ?_,left⟩
    obtain ⟨k,rfl⟩ : ∃ k, turns = k+1 := ⟨turns-1,by omega⟩
    have leftmost : hevRbtreeFirst fuel m.tree = some x := by
      have ends := treeEnd_list stands.holds .right fuel (by omega)
      rwa [show t.toward .right = x::rest from shape] at ends
    have last := cleared fuel k (by omega) (by omega)
    rw [order] at last
    rw [clearLoop,leftmost,Option.bind_eq_bind,Option.bind_some,if_neg filled,ends fuel (by omega),Option.bind_eq_bind,Option.bind_some,last,shape]
    rfl

theorem object_apart (m : UserTree w) {y : BitVec w} (same : m.object x = m.object y) : x = y :=
  BitVec.eq_of_toNat_eq (congrArg UserObject.addr same)

-- The address of the object a call adds.
def UserCall.object : UserCall w → Option (BitVec w)
  | .add x _ => some x
  | _ => none

-- Every call does to the tree in memory what it does to the map.
theorem perform_does {call : UserCall w} (stands : Stands m t accounts) (fits : Fits m call) :
    ∃ reply next t' accounts', (∀ fuel, t.list.length < fuel → m.perform fuel call = some (reply,next)) ∧
      accounts.Does call.call reply.1 reply.2 accounts' ∧ Stands next t' accounts' ∧
      t'.list.length ≤ t.list.length+1 ∧ ∀ y ∈ t'.list, y ∈ t.list ∨ call.object = some y := by
  cases call with
  | add x user =>
    obtain ⟨address,outside⟩ := fits
    have fresh : x ∉ t.list := fun member => outside ((within_member stands.holds).mpr member)
    have known := other_user stands fresh user
    have mine : Function.update m.user x user x = user := Function.update_self ..
    cases ended : descend (fun y => turnName (Function.update m.user x user x).name (Function.update m.user x user y)) t.shape with
    | found y =>
      have held := (found_user known ended).2.2
      rw [mine] at held
      refine ⟨(.code (-1),[]),_,t,accounts,fun fuel enough => ?_,.taken ⟨x.toNat,user⟩ _ held,known,Nat.le_succ _,fun _ => .inl⟩
      have found := search_held known ended fuel enough
      simp only [UserTree.perform,hevSocks5AuthenticatorAdd,found,Option.bind_eq_bind,Option.bind_some]
    | slot path =>
      have free := missing_user known ended
      obtain ⟨next,t',added,members,size,after⟩ := linked_stands known ended address fresh
      simp only [UserTree.object,mine] at free after
      refine ⟨(.code 0,[]),next,t',_,fun fuel enough => ?_,.added ⟨x.toNat,user⟩ free,after,Nat.le_of_eq size,fun y inside => ?_⟩
      · rw [UserTree.perform,added fuel enough]
        rfl
      · exact ((members y).mp inside).imp id fun new => congrArg some new.symm
  | del name =>
    cases ended : descend (fun y => turnName name (m.user y)) t.shape with
    | found x =>
      obtain ⟨member,named,held⟩ := found_user stands ended
      obtain ⟨tree,t',erased,order,after⟩ := erased_stands stands member
      rw [named] at after
      refine ⟨(.code 0,[m.object x]),_,t',_,fun fuel enough => ?_,.deleted name _ held,after,?_,fun y inside => ?_⟩
      · have found := search_held stands ended fuel enough
        simp only [UserTree.perform,hevSocks5AuthenticatorDel,found,erased fuel enough,Option.bind_eq_bind,Option.bind_some]
      · rw [order]
        exact Nat.le_succ_of_le List.length_erase_le
      · rw [order] at inside
        exact .inl (List.mem_of_mem_erase inside)
    | slot path =>
      obtain ⟨parent,link,free,_⟩ := search_free stands ended
      refine ⟨(.code (-1),[]),m,t,accounts,fun fuel enough => ?_,.missing name (missing_user stands ended),stands,Nat.le_succ _,fun _ => .inl⟩
      simp only [UserTree.perform,hevSocks5AuthenticatorDel,free fuel enough,Option.bind_eq_bind,Option.bind_some]
  | get name =>
    obtain ⟨found,got,same⟩ := get_ends stands name
    refine ⟨(.found (accounts name),[]),m,t,accounts,fun fuel enough => ?_,.got name,stands,Nat.le_succ _,fun _ => .inl⟩
    rw [UserTree.perform,got fuel enough,← same]
    rfl
  | clear =>
    obtain ⟨next,cleared,left⟩ := clear_ends stands
    refine ⟨(.done,t.list.map m.object),next,.nil,_,fun fuel enough => ?_,.cleared _ ?_ fun object => ?_,left,Nat.zero_le _,?_⟩
    · rw [UserTree.perform,hevSocks5AuthenticatorClear,cleared fuel fuel enough enough]
      rfl
    · exact stands.holds.distinct.map fun x y => object_apart m
    · rw [List.mem_map,stands.map]
      constructor
      · rintro ⟨y,inside,rfl⟩
        exact ⟨y,inside,rfl,rfl⟩
      · rintro ⟨y,inside,_,same⟩
        exact ⟨y,inside,same⟩
    · intro y inside
      cases inside

-- Objects that are aligned, apart from each other and not in the tree before meet what `add` asks for.
theorem apart_fits {calls : List (UserCall w)} {fuel : Nat} (stands : Stands m t accounts)
    (enough : t.list.length+calls.length < fuel) (apart : (calls.filterMap UserCall.object).Nodup)
    (fresh : ∀ x ∈ calls.filterMap UserCall.object, Address x ∧ x ∉ t.list) : Runs.Along (step fuel) Fits m calls := by
  induction calls generalizing m t accounts with
  | nil => trivial
  | cons call calls ih =>
    rw [List.length_cons] at enough
    have fits : Fits m call := by
      cases call with
      | add x user =>
        obtain ⟨address,outside⟩ := fresh x (by simp [UserCall.object])
        exact ⟨address,fun within => outside ((within_member stands.holds).mp within)⟩
      | del name => trivial
      | get name => trivial
      | clear => trivial
    obtain ⟨reply,next,t',accounts',went,_,after,size,members⟩ := perform_does stands fits
    refine ⟨fits,fun middle step_ => ?_⟩
    rw [step,went fuel (by omega)] at step_
    cases Option.some.inj step_
    cases added : call.object with
    | none =>
      rw [List.filterMap_cons_none added] at apart fresh
      refine ih after (by omega) apart fun x member => ⟨(fresh x member).1,fun inside => ?_⟩
      rcases members x inside with old | new
      · exact (fresh x member).2 old
      · cases added.symm.trans new
    | some y =>
      rw [List.filterMap_cons_some added] at apart fresh
      obtain ⟨other,distinct⟩ := List.nodup_cons.mp apart
      refine ih after (by omega) distinct fun x member => ⟨(fresh x (List.mem_cons_of_mem _ member)).1,fun inside => ?_⟩
      rcases members x inside with old | new
      · exact (fresh x (List.mem_cons_of_mem _ member)).2 old
      · cases added.symm.trans new
        exact other member

theorem calls_course {calls : List (UserCall w)} {turns : Nat} (stands : Stands m t accounts)
    (enough : t.list.length+calls.length < turns) (fits : Runs.Along (step turns) Fits m calls) :
    ∃ replies last accounts', (∀ fuel, t.list.length+calls.length < fuel → m.performAll fuel calls = some (replies,last)) ∧
      Accounts.Course accounts (calls.map UserCall.call) replies accounts' := by
  induction calls generalizing m t accounts with
  | nil => exact ⟨[],m,accounts,fun _ _ => rfl,.done accounts⟩
  | cons call calls ih =>
    rw [List.length_cons] at enough ⊢
    obtain ⟨reply,next,t',middle,went,does,after,size,_⟩ := perform_does stands fits.1
    have later : Runs.Along (step turns) Fits next calls := by
      apply fits.2
      rw [step,went turns (by omega)]
      rfl
    obtain ⟨replies,last,accounts',ran,course⟩ := ih after (by omega) later
    refine ⟨reply::replies,last,accounts',fun fuel more => ?_,.call does course⟩
    rw [UserTree.performAll,went fuel (by omega),Option.bind_eq_bind,Option.bind_some]
    simp only [ran fuel (by omega),Option.bind_eq_bind,Option.bind_some]

-- `calloc` leaves no root; the nodes and users lie elsewhere.
def treeNew (node : BitVec w → HevRBTreeNode w) (user : BitVec w → HevSocks5User) : UserTree w := ⟨⟨0,node⟩,user⟩

theorem new_stands (node : BitVec w → HevRBTreeNode w) (user : BitVec w → HevSocks5User) : Stands (treeNew node user) .nil fun _ => none := by
  refine ⟨⟨rfl,trivial,List.nodup_nil⟩,⟨0,.nil⟩,List.Pairwise.nil,fun name object => ⟨fun held => (by cases held),?_⟩⟩
  rintro ⟨y,inside,_⟩
  cases inside

-- The authenticator on its red-black tree in memory answers every sequence of calls as the map of
-- names does; no call reaches NULL, and no loop of it takes more turns than there are calls.
theorem users_mapped (node : BitVec w → HevRBTreeNode w) (user : BitVec w → HevSocks5User) {calls : List (UserCall w)} {turns : Nat}
    (enough : calls.length < turns) (fits : Runs.Along (step turns) Fits (treeNew node user) calls) :
    ∃ replies last accounts, (∀ fuel, calls.length < fuel → (treeNew node user).performAll fuel calls = some (replies,last)) ∧
      Accounts.Course (fun _ => none) (calls.map UserCall.call) replies accounts := by
  obtain ⟨replies,last,accounts,ran,course⟩ := calls_course (new_stands node user) ((Nat.zero_add _).symm ▸ enough) fits
  exact ⟨replies,last,accounts,fun fuel more => ran fuel ((Nat.zero_add _).symm ▸ more),course⟩

-- "u" and "v" are added, another "v" is refused, "u" is deleted and does not come back by clear.
def twoUsers : List (UserCall 64) :=
  [.add 8 ⟨[117],[112]⟩,.add 16 ⟨[118],[113]⟩,.add 24 ⟨[118],[114]⟩,.get [118],.del [117],.get [117],.add 32 ⟨[119,119],[]⟩,.clear,.get [118]]

def twoReplies : List (AccountReply × List UserObject) :=
  [(.code 0,[]),(.code 0,[]),(.code (-1),[]),(.found (some ⟨16,⟨[118],[113]⟩⟩),[]),(.code 0,[⟨8,⟨[117],[112]⟩⟩]),(.found none,[]),(.code 0,[]),
    (.done,[⟨32,⟨[119,119],[]⟩⟩,⟨16,⟨[118],[113]⟩⟩]),(.found none,[])]

theorem two_mapped : ∃ last accounts,
    (∀ fuel, 9 < fuel → (treeNew (fun _ => ⟨1,0,0⟩) fun _ => ⟨[],[]⟩).performAll fuel twoUsers = some (twoReplies,last)) ∧
      Accounts.Course (fun _ => none) (twoUsers.map UserCall.call) twoReplies accounts := by
  have addresses : Address 8#64 ∧ Address 16#64 ∧ Address 24#64 ∧ Address 32#64 := by decide
  have fits : Runs.Along (step 10) Fits (treeNew (fun _ => ⟨1,0,0⟩) fun _ => ⟨[],[]⟩) twoUsers :=
    apart_fits (new_stands _ _) (by decide) (by decide) (by simpa [twoUsers,UserCall.object,Colored.list] using addresses)
  obtain ⟨replies,last,accounts,went,course⟩ := users_mapped _ _ (by decide) fits
  have same : ((treeNew (fun _ => ⟨1,0,0⟩) fun _ => ⟨[],[]⟩).performAll 10 twoUsers).map Prod.fst = some twoReplies := by decide
  rw [went 10 (by decide)] at same
  cases Option.some.inj same
  exact ⟨last,accounts,went,course⟩

end Psocks.Users
