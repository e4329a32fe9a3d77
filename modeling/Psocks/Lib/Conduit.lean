import Mathlib.Data.List.Infix

namespace Psocks.Conduit
variable {α : Type}

-- What went into a channel, what came out of it, and how often its outlet was closed.
structure Channel (α : Type) where
  taken : List α
  given : List α
  shuts : Nat

def Channel.empty : Channel α := ⟨[],[],0⟩

def Channel.held (c : Channel α) : List α := c.taken.drop c.given.length

def Channel.take (c : Channel α) (xs : List α) : Channel α := {c with taken:=c.taken++xs}

def Channel.give (c : Channel α) (n : Nat) : Channel α := {c with given:=c.given++c.held.take n}

def Channel.shut (c : Channel α) : Channel α := {c with shuts:=c.shuts+1}

-- In order, with no more than `room` inside, and closed once, after the last item.
structure Sound (room : Nat) (c : Channel α) : Prop where
  order : c.given <+: c.taken
  fits : c.held.length ≤ room
  once : c.shuts ≤ 1
  drained : c.shuts ≠ 0 → c.held = []

variable {c : Channel α} {room n : Nat} {xs : List α}

theorem empty_sound (room : Nat) : Sound room (Channel.empty : Channel α) :=
  ⟨List.prefix_refl _,Nat.zero_le _,Nat.zero_le _,fun _ => rfl⟩

theorem held_whole (order : c.given <+: c.taken) : c.given++c.held = c.taken := by
  obtain ⟨rest,whole⟩ := order
  rw [Channel.held,← whole,List.drop_left]

theorem held_empty (order : c.given <+: c.taken) : c.held = [] ↔ c.given = c.taken := by
  constructor
  · intro none_
    have whole := held_whole order
    rwa [none_,List.append_nil] at whole
  · intro same
    rw [Channel.held,same,List.drop_length]

theorem take_held (order : c.given <+: c.taken) (xs : List α) : (c.take xs).held = c.held++xs :=
  List.drop_append_of_le_length order.length_le

theorem give_length (fits : n ≤ c.held.length) : (c.give n).given.length = c.given.length+n := by
  rw [Channel.give,List.length_append,List.length_take_of_le fits]

theorem give_held (fits : n ≤ c.held.length) : (c.give n).held = c.held.drop n := by
  rw [Channel.held,give_length fits,← List.drop_drop]
  rfl

theorem take_sound (sound : Sound room c) (open_ : c.shuts = 0) (fits : c.held.length+xs.length ≤ room) : Sound room (c.take xs) := by
  refine ⟨sound.order.trans (List.prefix_append ..),?_,sound.once,fun closed => absurd open_ closed⟩
  rw [take_held sound.order,List.length_append]
  exact fits

theorem give_sound (sound : Sound room c) (fits : n ≤ c.held.length) : Sound room (c.give n) := by
  refine ⟨?_,?_,sound.once,fun closed => ?_⟩
  · have whole := held_whole sound.order
    refine ⟨c.held.drop n,?_⟩
    change (c.given++c.held.take n)++c.held.drop n = c.taken
    rw [List.append_assoc,List.take_append_drop,whole]
  · rw [give_held fits,List.length_drop]
    exact (Nat.sub_le ..).trans sound.fits
  · rw [give_held fits,sound.drained closed,List.drop_nil]

theorem shut_sound (sound : Sound room c) (open_ : c.shuts = 0) (drained : c.held = []) : Sound room c.shut :=
  ⟨sound.order,sound.fits,by rw [Channel.shut,open_],fun _ => drained⟩

-- What one pass over a channel that is open does to it: it lets items in and then some out, or
-- meets an inlet or an outlet that is blocked or broken.
structure Pass (room : Nat) (c c' : Channel α) (res : Int) (inBlocked outBlocked outBroken : Prop) : Prop where
  sound : Sound room c'
  range : res = 1 ∨ res = 0 ∨ res = -1
  open_ : res ≠ -1 → c'.shuts = 0
  taken : c.taken <+: c'.taken
  given : c.given <+: c'.given
  moved : res = 1 ↔ c.given.length < c'.given.length
  blocked : res = 0 → c'.held = [] ∧ inBlocked ∨ c'.held ≠ [] ∧ outBlocked
  closed : res = -1 → c'.shuts = 1 ∧ c'.held = [] ∨ c'.shuts = 0 ∧ c'.held ≠ [] ∧ outBroken

-- The outlet is tried with items inside, and closed without any when the inlet has ended.
inductive Outlet (c : Channel α) (res : Int) (outBlocked outBroken : Prop) : Channel α → Int → Prop
  | blocked (some_ : c.held ≠ []) (why : outBlocked) : Outlet c res outBlocked outBroken c 0
  | broken (some_ : c.held ≠ []) (why : outBroken) : Outlet c res outBlocked outBroken c (-1)
  | moved (n : Nat) (positive : 0 < n) (fits : n ≤ c.held.length) : Outlet c res outBlocked outBroken (c.give n) 1
  | dry (none_ : c.held = []) (goes : 0 ≤ res) : Outlet c res outBlocked outBroken c res
  | ended (none_ : c.held = []) (ends : res < 0) : Outlet c res outBlocked outBroken c.shut res

theorem outlet_pass {c' : Channel α} {res res' : Int} {inBlocked outBlocked outBroken : Prop} (sound : Sound room c) (open_ : c.shuts = 0)
    (fits : c.held.length+xs.length ≤ room) (range : res = 1 ∨ res = 0 ∨ res = -1) (filled : res = 1 → (c.take xs).held ≠ [])
    (blocked : res = 0 → inBlocked) (out : Outlet (c.take xs) res outBlocked outBroken c' res') :
    Pass room c c' res' inBlocked outBlocked outBroken := by
  have took := take_sound sound open_ fits
  have still : (c.take xs).shuts = 0 := open_
  have longer : c.taken <+: (c.take xs).taken := List.prefix_append ..
  cases out with
  | blocked some_ why =>
    exact ⟨took,by simp,fun _ => still,longer,List.prefix_refl _,by simp [Channel.take],fun _ => .inr ⟨some_,why⟩,by simp⟩
  | broken some_ why =>
    exact ⟨took,by simp,fun _ => still,longer,List.prefix_refl _,by simp [Channel.take],by simp,fun _ => .inr ⟨still,some_,why⟩⟩
  | moved n positive fits =>
    refine ⟨give_sound took fits,by simp,fun _ => still,longer,List.prefix_append ..,?_,by simp,by simp⟩
    have length := give_length fits
    have same : (c.take xs).given = c.given := rfl
    rw [length,same]
    omega
  | dry none_ goes =>
    have idle : res = 0 := by
      rcases range with one | zero | minus
      · exact absurd none_ (filled one)
      · exact zero
      · omega
    subst idle
    exact ⟨took,by simp,fun _ => still,longer,List.prefix_refl _,by simp [Channel.take],fun _ => .inl ⟨none_,blocked rfl⟩,by simp⟩
  | ended none_ ends =>
    have minus : res = -1 := by omega
    subst minus
    exact ⟨shut_sound took still none_,by simp,by simp,longer,List.prefix_refl _,by simp [Channel.take,Channel.shut],by simp,
      fun _ => .inl ⟨by rw [Channel.shut,still],none_⟩⟩

end Psocks.Conduit
