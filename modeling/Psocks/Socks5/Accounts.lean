import Mathlib.Logic.Function.Basic
import Psocks.Socks5.Authenticator

namespace Psocks.Socks5
open SearchTree

variable {rbtree : Balanced HevSocks5User} {self next : HevSocks5Authenticator rbtree} {name : List UInt8}

-- A user as an object: two of one name and password are still two.
structure UserObject where
  addr : Nat
  user : HevSocks5User
deriving DecidableEq, Repr

inductive AccountCall where
  | add (object : UserObject)
  | del (name : List UInt8)
  | get (name : List UInt8)
  | clear

inductive AccountReply where
  | code (res : Int)
  | found (object : Option UserObject)
  | done
deriving DecidableEq, Repr

-- The authenticator with the addresses of the users linked into its tree.
structure AccountStore (rbtree : Balanced HevSocks5User) where
  self : HevSocks5Authenticator rbtree
  addr : HevSocks5User → Nat

def AccountStore.object (s : AccountStore rbtree) (user : HevSocks5User) : UserObject := ⟨s.addr user,user⟩

-- The reply, the objects whose reference is dropped, and what is left.
def AccountStore.perform (s : AccountStore rbtree) : AccountCall → AccountReply × List UserObject × AccountStore rbtree
  | .add object =>
    let added := hevSocks5AuthenticatorAdd s.self object.user
    (.code added.1,[],⟨added.2,if added.1 = 0 then Function.update s.addr object.user object.addr else s.addr⟩)
  | .del name =>
    let (res,unrefs,self) := hevSocks5AuthenticatorDel s.self name
    (.code res,unrefs.map s.object,{s with self:=self})
  | .get name => (.found ((hevSocks5AuthenticatorGet s.self name).map s.object),[],s)
  | .clear =>
    let cleared := hevSocks5AuthenticatorClear s.self
    (.done,cleared.1.map s.object,{s with self:=cleared.2})

def AccountStore.performAll (s : AccountStore rbtree) : List AccountCall → List (AccountReply × List UserObject) × AccountStore rbtree
  | [] => ([],s)
  | call::calls =>
    let (reply,unrefs,next) := s.perform call
    let rest := next.performAll calls
    ((reply,unrefs)::rest.1,rest.2)

-- What an authenticator is for: byte strings, each with one user or none.
abbrev Accounts := List UInt8 → Option UserObject

inductive Accounts.Does (accounts : Accounts) : AccountCall → AccountReply → List UserObject → Accounts → Prop
  | added (object : UserObject) (free : accounts object.user.name = none) :
    Accounts.Does accounts (.add object) (.code 0) [] (Function.update accounts object.user.name (some object))
  | taken (object other : UserObject) (held : accounts object.user.name = some other) :
    Accounts.Does accounts (.add object) (.code (-1)) [] accounts
  | deleted (name : List UInt8) (object : UserObject) (held : accounts name = some object) :
    Accounts.Does accounts (.del name) (.code 0) [object] (Function.update accounts name none)
  | missing (name : List UInt8) (free : accounts name = none) : Accounts.Does accounts (.del name) (.code (-1)) [] accounts
  | got (name : List UInt8) : Accounts.Does accounts (.get name) (.found (accounts name)) [] accounts
  | cleared (unrefs : List UserObject) (once : unrefs.Nodup)
    (all : ∀ object, object ∈ unrefs ↔ accounts object.user.name = some object) :
    Accounts.Does accounts .clear .done unrefs fun _ => none

inductive Accounts.Course : Accounts → List AccountCall → List (AccountReply × List UserObject) → Accounts → Prop
  | done (accounts : Accounts) : Accounts.Course accounts [] [] accounts
  | call (does : Accounts.Does accounts call reply unrefs middle) (rest : Accounts.Course middle calls replies last) :
    Accounts.Course accounts (call::calls) ((reply,unrefs)::replies) last

-- The users in the tree, as the map they stand for.
def AccountStore.accounts (s : AccountStore rbtree) : Accounts :=
  fun name => (s.self.users.find? fun user => user.name = name).map s.object

theorem get_find (self : HevSocks5Authenticator rbtree) (name : List UInt8) :
    hevSocks5AuthenticatorGet self name = self.users.find? fun user => user.name = name := by
  apply Option.ext
  intro user
  rw [authenticator_get]
  constructor
  · rintro ⟨member,named⟩
    cases found : self.users.find? fun user => user.name = name with
    | none => exact absurd named (by simpa using List.find?_eq_none.mp found user member)
    | some other =>
      have same : other.name = name := by simpa using List.find?_some found
      rw [user_unique self (List.mem_of_find?_eq_some found) member (same.trans named.symm)]
  · intro found
    exact ⟨List.mem_of_find?_eq_some found,by simpa using List.find?_some found⟩

theorem find_none : hevSocks5AuthenticatorGet self name = none ↔ ∀ user ∈ self.users, user.name ≠ name := by
  rw [get_find,List.find?_eq_none]
  simp

theorem descend_none : hevSocks5AuthenticatorGet self name = none ↔
    ∃ path, descend (turnName name) (rbtree.shape self.tree) = .slot path := by
  unfold hevSocks5AuthenticatorGet
  cases descend (turnName name) (rbtree.shape self.tree) <;> simp

theorem add_taken {user other : HevSocks5User} (held : hevSocks5AuthenticatorGet self user.name = some other) :
    hevSocks5AuthenticatorAdd self user = (-1,self) := by
  unfold hevSocks5AuthenticatorGet at held
  unfold hevSocks5AuthenticatorAdd
  split
  · rfl
  · rename_i ended
    rw [ended] at held
    cases held

theorem add_free {user : HevSocks5User} (free : hevSocks5AuthenticatorGet self user.name = none) :
    (hevSocks5AuthenticatorAdd self user).1 = 0 ∧
      ∀ u, u ∈ (hevSocks5AuthenticatorAdd self user).2.users ↔ u ∈ self.users ∨ u = user := by
  have fresh : user ∉ self.users := fun member => find_none.mp free user member rfl
  obtain ⟨path,slot⟩ := descend_none.mp free
  unfold hevSocks5AuthenticatorAdd
  split
  · rename_i ended
    cases slot.symm.trans ended
  · rename_i path ended
    refine ⟨rfl,fun u => ?_⟩
    have guides := turn_guides user.name
    have place := (descend_slot self.sorted guides ended).1
    have order := rbtree.insert_inorder _ _ _ place fresh
    have linked := link_perm (n:=user) self.sorted guides ended
    simp only [HevSocks5Authenticator.users]
    rw [order,linked.mem_iff,List.mem_append,List.mem_singleton]

theorem del_missing (free : hevSocks5AuthenticatorGet self name = none) :
    hevSocks5AuthenticatorDel self name = (-1,[],self) := by
  obtain ⟨path,slot⟩ := descend_none.mp free
  unfold hevSocks5AuthenticatorDel
  split
  · rename_i ended
    cases slot.symm.trans ended
  · rfl

theorem del_held {user : HevSocks5User} (held : hevSocks5AuthenticatorGet self name = some user) :
    (hevSocks5AuthenticatorDel self name).1 = 0 ∧ (hevSocks5AuthenticatorDel self name).2.1 = [user] ∧
      (hevSocks5AuthenticatorDel self name).2.2.users = self.users.erase user := by
  unfold hevSocks5AuthenticatorGet at held
  unfold hevSocks5AuthenticatorDel
  split
  · rename_i this ended
    rw [ended] at held
    cases Option.some.inj held
    exact ⟨rfl,rfl,users_erase self (descend_found ended).1⟩
  · rename_i ended
    rw [ended] at held
    cases held

-- Along the loop, which takes the users out from the left.
theorem clear_users (self : HevSocks5Authenticator rbtree) :
    (hevSocks5AuthenticatorClear self).1 = self.users ∧ (hevSocks5AuthenticatorClear self).2.users = [] := by
  induction self using hevSocks5AuthenticatorClear.induct with
  | case1 self leftmost =>
    unfold hevSocks5AuthenticatorClear
    split
    · rename_i here
      rw [first_head,List.head?_eq_none_iff] at here
      exact ⟨here.symm,here⟩
    · rename_i here
      cases leftmost.symm.trans here
  | case2 self t leftmost ih =>
    unfold hevSocks5AuthenticatorClear
    split
    · rename_i here
      cases leftmost.symm.trans here
    · rename_i u here
      cases Option.some.inj (leftmost.symm.trans here)
      have shorter := users_erase self (first_member leftmost)
      rw [first_head] at leftmost
      obtain ⟨rest,whole⟩ : ∃ rest, self.users = t::rest := List.head?_eq_some_iff.mp leftmost
      refine ⟨?_,ih.2⟩
      rw [whole]
      apply congrArg (t::·)
      rw [ih.1]
      simp only [HevSocks5Authenticator.users] at shorter whole ⊢
      rw [shorter,whole,List.erase_cons_head]

theorem object_injective (s : AccountStore rbtree) {a b : HevSocks5User} (same : s.object a = s.object b) : a = b :=
  congrArg UserObject.user same

theorem accounts_get (s : AccountStore rbtree) (name : List UInt8) :
    s.accounts name = (hevSocks5AuthenticatorGet s.self name).map s.object := by
  rw [get_find]
  rfl

theorem accounts_some (s : AccountStore rbtree) (object : UserObject) :
    s.accounts name = some object ↔ ∃ user ∈ s.self.users, user.name = name ∧ s.object user = object := by
  rw [accounts_get,Option.map_eq_some_iff]
  constructor
  · rintro ⟨user,got,same⟩
    obtain ⟨member,named⟩ := authenticator_get s.self |>.mp got
    exact ⟨user,member,named,same⟩
  · rintro ⟨user,member,named,same⟩
    exact ⟨user,(authenticator_get s.self).mpr ⟨member,named⟩,same⟩

theorem accounts_none (s : AccountStore rbtree) : s.accounts name = none ↔ hevSocks5AuthenticatorGet s.self name = none := by
  rw [accounts_get,Option.map_eq_none_iff]

theorem get_same (same : ∀ user : HevSocks5User, user.name = name → (user ∈ next.users ↔ user ∈ self.users)) :
    hevSocks5AuthenticatorGet next name = hevSocks5AuthenticatorGet self name := by
  apply Option.ext
  intro user
  rw [authenticator_get,authenticator_get]
  apply and_congr_left
  exact same user

theorem added_accounts (s : AccountStore rbtree) (object : UserObject) (users : ∀ u, u ∈ next.users ↔ u ∈ s.self.users ∨ u = object.user) :
    (AccountStore.mk next (Function.update s.addr object.user object.addr)).accounts =
      Function.update s.accounts object.user.name (some object) := by
  funext name
  rw [accounts_get]
  by_cases same : name = object.user.name
  · subst same
    have got : hevSocks5AuthenticatorGet next object.user.name = some object.user :=
      (authenticator_get next).mpr ⟨(users object.user).mpr (.inr rfl),rfl⟩
    rw [got,Function.update_self]
    simp [AccountStore.object]
  · have others : hevSocks5AuthenticatorGet next name = hevSocks5AuthenticatorGet s.self name := by
      apply get_same
      intro user named
      rw [users,or_iff_left]
      rintro rfl
      exact same named.symm
    rw [Function.update_of_ne same,others,accounts_get]
    apply Option.map_congr
    intro user got
    have named := ((authenticator_get s.self).mp got).2
    have other : user ≠ object.user := fun equal => same (named.symm.trans (congrArg HevSocks5User.name equal))
    simp [AccountStore.object,other]

theorem deleted_accounts (s : AccountStore rbtree) {user : HevSocks5User} (member : user ∈ s.self.users)
    (users : next.users = s.self.users.erase user) :
    {s with self:=next}.accounts = Function.update s.accounts user.name none := by
  have others : ∀ u, u ∈ next.users ↔ u ≠ user ∧ u ∈ s.self.users := by
    intro u
    rw [users,(users_nodup s.self).mem_erase_iff]
  funext name
  by_cases same : name = user.name
  · subst same
    rw [Function.update_self,accounts_none,find_none]
    intro u inside named
    obtain ⟨apart,old⟩ := (others u).mp inside
    exact apart (user_unique s.self old member named)
  · rw [Function.update_of_ne same,accounts_get,accounts_get]
    apply congrArg
    apply get_same
    intro u named
    rw [others,and_iff_right]
    rintro rfl
    exact same named.symm

theorem cleared_objects (s : AccountStore rbtree) (object : UserObject) :
    object ∈ s.self.users.map s.object ↔ s.accounts object.user.name = some object := by
  rw [List.mem_map,accounts_some]
  constructor
  · rintro ⟨user,member,same⟩
    exact ⟨user,member,congrArg (fun o => o.user.name) same,same⟩
  · rintro ⟨user,member,_,same⟩
    exact ⟨user,member,same⟩

-- Every call does to the tree what it does to the map.
theorem perform_does (s : AccountStore rbtree) (call : AccountCall) :
    s.accounts.Does call (s.perform call).1 (s.perform call).2.1 (s.perform call).2.2.accounts := by
  cases call with
  | add object =>
    simp only [AccountStore.perform]
    cases held : hevSocks5AuthenticatorGet s.self object.user.name with
    | some other =>
      rw [add_taken held]
      apply Accounts.Does.taken object (s.object other)
      rw [accounts_get,held]
      rfl
    | none =>
      obtain ⟨res,users⟩ := add_free held
      rw [res,if_pos rfl,added_accounts s object users]
      exact .added object ((accounts_none s).mpr held)
  | del name =>
    simp only [AccountStore.perform]
    cases held : hevSocks5AuthenticatorGet s.self name with
    | none =>
      rw [del_missing held]
      exact .missing name ((accounts_none s).mpr held)
    | some user =>
      obtain ⟨member,named⟩ := (authenticator_get s.self).mp held
      obtain ⟨res,unrefs,users⟩ := del_held held
      rw [res,unrefs,deleted_accounts s member users,named]
      exact .deleted name (s.object user) ((accounts_some s _).mpr ⟨user,member,named,rfl⟩)
  | get name =>
    simp only [AccountStore.perform]
    rw [← accounts_get]
    exact .got name
  | clear =>
    obtain ⟨unrefs,left⟩ := clear_users s.self
    have empty : {s with self:=(hevSocks5AuthenticatorClear s.self).2}.accounts = fun _ => none := by
      funext name
      rw [AccountStore.accounts,left]
      rfl
    simp only [AccountStore.perform]
    rw [unrefs,empty]
    apply Accounts.Does.cleared
    · exact (users_nodup s.self).map fun _ _ => object_injective s
    · exact cleared_objects s

theorem performAll_course (s : AccountStore rbtree) (calls : List AccountCall) :
    Accounts.Course s.accounts calls (s.performAll calls).1 (s.performAll calls).2.accounts := by
  induction calls generalizing s with
  | nil => exact .done s.accounts
  | cons call calls ih => exact .call (perform_does s call) (ih _)

def AccountStore.new (rbtree : Balanced HevSocks5User) : AccountStore rbtree := ⟨hevSocks5AuthenticatorNew rbtree,fun _ => 0⟩

theorem new_accounts : (AccountStore.new rbtree).accounts = fun _ => none := by
  funext name
  simp [AccountStore.accounts,AccountStore.new,hevSocks5AuthenticatorNew,HevSocks5Authenticator.users,rbtree.shape_empty,inorder]

-- An authenticator answers as the map does, call after call, and an addition under
-- a name that is there leaves the tree as it is.
theorem authenticator_map (rbtree : Balanced HevSocks5User) (calls : List AccountCall) :
    let run := (AccountStore.new rbtree).performAll calls
    Accounts.Course (fun _ => none) calls run.1 run.2.accounts ∧
      ∀ object : UserObject, run.2.accounts object.user.name ≠ none →
        run.2.perform (.add object) = (.code (-1),[],run.2) := by
  intro run
  refine ⟨?_,fun object held => ?_⟩
  · rw [← @new_accounts rbtree]
    exact performAll_course _ calls
  · rw [Ne,accounts_none] at held
    obtain ⟨other,got⟩ := Option.ne_none_iff_exists'.mp held
    simp only [AccountStore.perform]
    rw [add_taken got]
    rfl

end Psocks.Socks5
