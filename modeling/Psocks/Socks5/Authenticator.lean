import Mathlib.Data.List.Lex
import Mathlib.Order.Lex
import Psocks.Lib.SearchTree

namespace Psocks.Socks5
open SearchTree

structure HevSocks5User where
  name : List UInt8
  pass : List UInt8
deriving DecidableEq, Repr

def hevSocks5UserChecker (self : HevSocks5User) (pass : List UInt8) : Int :=
  if self.pass.length ≠ pass.length then -1
  else if self.pass ≠ pass then -1
  else 0

-- Difference of the first two bytes that differ, over two regions of one length.
def memcmp : List UInt8 → List UInt8 → Int
  | a::as, b::bs => if a = b then memcmp as bs else (a.toNat : Int)-b.toNat
  | _, _ => 0

-- Which way the search for a name turns at a user: to the left at a shorter or smaller one.
def turnName (name : List UInt8) (this : HevSocks5User) : Ordering :=
  if this.name.length < name.length then .lt
  else if name.length < this.name.length then .gt
  else if memcmp this.name name < 0 then .lt
  else if 0 < memcmp this.name name then .gt
  else .eq

-- Names by length, then by their bytes; the tree holds the greatest first.
def nameKey (name : List UInt8) : (List Nat)ᵒᵈ := OrderDual.toDual (name.length::name.map UInt8.toNat)

def HevSocks5User.key (user : HevSocks5User) : (List Nat)ᵒᵈ := nameKey user.name

variable {rbtree : Balanced HevSocks5User}

structure HevSocks5Authenticator (rbtree : Balanced HevSocks5User) where
  tree : rbtree.T
  sorted : Sorted HevSocks5User.key (rbtree.shape tree)

def HevSocks5Authenticator.users (self : HevSocks5Authenticator rbtree) : List HevSocks5User :=
  inorder (rbtree.shape self.tree)

theorem memcmp_sign {as bs : List UInt8} (same : as.length = bs.length) :
    (memcmp as bs < 0 ↔ as.map UInt8.toNat < bs.map UInt8.toNat) ∧ (memcmp as bs = 0 ↔ as = bs) := by
  induction as generalizing bs with
  | nil =>
    cases bs with
    | nil => simp [memcmp]
    | cons b bs => cases same
  | cons a as ih =>
    cases bs with
    | nil => cases same
    | cons b bs =>
      simp only [memcmp,List.map_cons,List.cons_lt_cons_iff]
      by_cases equal : a = b
      · subst equal
        have tail := ih (Nat.succ.inj same)
        simp [tail.1,tail.2]
      · have different : a.toNat ≠ b.toNat := fun same => equal (UInt8.toNat_inj.mp same)
        simp only [equal,if_false,different,false_and,or_false,List.cons.injEq,iff_false]
        exact ⟨by omega,by omega⟩

theorem key_name {a b : List UInt8} (same : nameKey a = nameKey b) : a = b := by
  have lists := List.tail_eq_of_cons_eq (OrderDual.toDual.injective same)
  exact (List.map_injective_iff.mpr fun _ _ => UInt8.toNat_inj.mp) lists

theorem turn_guides (name : List UInt8) : Guides HevSocks5User.key (nameKey name) (turnName name) := by
  intro this
  unfold turnName HevSocks5User.key nameKey
  rw [OrderDual.toDual_lt_toDual,OrderDual.toDual_lt_toDual,List.cons_lt_cons_iff,List.cons_lt_cons_iff]
  split
  · rename_i shorter
    exact ⟨fun _ => .inl shorter,fun turn => (by cases turn),fun turn => by cases turn⟩
  split
  · rename_i longer
    exact ⟨fun turn => (by cases turn),fun _ => .inl longer,fun turn => by cases turn⟩
  rename_i notShorter notLonger
  have same : this.name.length = name.length := by omega
  obtain ⟨below,level⟩ := memcmp_sign same
  split
  · rename_i small
    exact ⟨fun _ => .inr ⟨same,below.mp small⟩,fun turn => (by cases turn),fun turn => by cases turn⟩
  split
  · rename_i notSmall large
    refine ⟨fun turn => (by cases turn),fun _ => .inr ⟨same.symm,?_⟩,fun turn => by cases turn⟩
    rcases lt_trichotomy (name.map UInt8.toNat) (this.name.map UInt8.toNat) with low | equal | high
    · exact low
    · have equal := level.mpr ((List.map_injective_iff.mpr fun _ _ => UInt8.toNat_inj.mp) equal.symm)
      omega
    · have small := below.mpr high
      omega
  · rename_i notSmall notLarge
    refine ⟨fun turn => (by cases turn),fun turn => (by cases turn),fun _ => ?_⟩
    rw [level.mp (by omega)]

def hevSocks5AuthenticatorNew (rbtree : Balanced HevSocks5User) : HevSocks5Authenticator rbtree :=
  ⟨rbtree.empty,by rw [rbtree.shape_empty]; exact List.Pairwise.nil⟩

def hevSocks5AuthenticatorGet (self : HevSocks5Authenticator rbtree) (name : List UInt8) : Option HevSocks5User :=
  match descend (turnName name) (rbtree.shape self.tree) with
  | .found this => some this
  | .slot _ => none

theorem users_distinct (self : HevSocks5Authenticator rbtree) :
    self.users.Pairwise fun a b => a.key ≠ b.key := List.Pairwise.imp (fun below => ne_of_lt below) self.sorted

theorem users_nodup (self : HevSocks5Authenticator rbtree) : self.users.Nodup :=
  (users_distinct self).imp fun other same => other (congrArg HevSocks5User.key same)

theorem user_unique (self : HevSocks5Authenticator rbtree) {a b : HevSocks5User} (left : a ∈ self.users) (right : b ∈ self.users)
    (named : a.name = b.name) : a = b := by
  have one : ∀ x ∈ self.users, ∀ y ∈ self.users, x.key = y.key → x = y :=
    List.Pairwise.forall_of_forall_of_flip (fun _ _ _ => rfl) ((users_distinct self).imp fun other same => (other same).elim)
      ((users_distinct self).imp fun other same => (other same.symm).elim)
  exact one a left b right (congrArg nameKey named)

theorem insert_sorted (self : HevSocks5Authenticator rbtree) {user : HevSocks5User}
    (ended : descend (turnName user.name) (rbtree.shape self.tree) = .slot path) :
    Sorted HevSocks5User.key (rbtree.shape (rbtree.insert self.tree path user)) := by
  have guides := turn_guides user.name
  have fresh : user ∉ self.users := fun member => descend_absent self.sorted guides ended member rfl
  have slot := (descend_slot self.sorted guides ended).1
  unfold Sorted
  rw [rbtree.insert_inorder _ _ _ slot fresh]
  exact link_sorted self.sorted guides ended (fun _ _ => rfl) rfl

theorem erase_sorted (self : HevSocks5Authenticator rbtree) (user : HevSocks5User) (member : user ∈ self.users) :
    Sorted HevSocks5User.key (rbtree.shape (rbtree.erase self.tree user)) := by
  unfold Sorted
  rw [rbtree.erase_inorder _ _ (users_nodup self) member]
  exact List.Pairwise.sublist List.erase_sublist self.sorted

def hevSocks5AuthenticatorAdd (self : HevSocks5Authenticator rbtree) (user : HevSocks5User) :
    Int × HevSocks5Authenticator rbtree :=
  match ended : descend (turnName user.name) (rbtree.shape self.tree) with
  | .found _ => (-1,self)
  | .slot path => (0,⟨rbtree.insert self.tree path user,insert_sorted self ended⟩)

-- With the users whose reference is dropped.
def hevSocks5AuthenticatorDel (self : HevSocks5Authenticator rbtree) (name : List UInt8) :
    Int × List HevSocks5User × HevSocks5Authenticator rbtree :=
  match ended : descend (turnName name) (rbtree.shape self.tree) with
  | .found this => (0,[this],⟨rbtree.erase self.tree this,erase_sorted self this (descend_found ended).1⟩)
  | .slot _ => (-1,[],self)

theorem users_erase (self : HevSocks5Authenticator rbtree) {user : HevSocks5User} (member : user ∈ self.users) :
    inorder (rbtree.shape (rbtree.erase self.tree user)) = self.users.erase user :=
  rbtree.erase_inorder _ _ (users_nodup self) member

def hevSocks5AuthenticatorClear (self : HevSocks5Authenticator rbtree) : List HevSocks5User × HevSocks5Authenticator rbtree :=
  match leftmost : first (rbtree.shape self.tree) with
  | none => ([],self)
  | some t =>
    let rest := hevSocks5AuthenticatorClear ⟨rbtree.erase self.tree t,erase_sorted self t (first_member leftmost)⟩
    (t::rest.1,rest.2)
termination_by self.users.length
decreasing_by
  have member : t ∈ self.users := first_member leftmost
  simp only [HevSocks5Authenticator.users]
  rw [users_erase self member,List.length_erase_of_mem member]
  have some_ : 0 < self.users.length := List.length_pos_of_mem member
  simp only [HevSocks5Authenticator.users] at some_ ⊢
  omega

theorem authenticator_get (self : HevSocks5Authenticator rbtree) :
    hevSocks5AuthenticatorGet self name = some user ↔ user ∈ self.users ∧ user.name = name := by
  unfold hevSocks5AuthenticatorGet
  cases ended : descend (turnName name) (rbtree.shape self.tree) with
  | found this =>
    obtain ⟨member,turn⟩ := descend_found ended
    have named : this.name = name := key_name ((turn_guides name this).2.2 turn)
    constructor
    · intro same
      cases same
      exact ⟨member,named⟩
    · rintro ⟨inside,same⟩
      rw [user_unique self inside member (same.trans named.symm)]
  | slot path =>
    refine ⟨fun same => (by cases same),?_⟩
    rintro ⟨member,named⟩
    exact (descend_absent self.sorted (turn_guides name) ended member (congrArg nameKey named)).elim

-- User "u" with password "p".
def lodge : HevSocks5Authenticator Balanced.plain :=
  (hevSocks5AuthenticatorAdd (hevSocks5AuthenticatorNew Balanced.plain) ⟨[117],[112]⟩).2

end Psocks.Socks5
