import Mathlib.Data.List.Basic
import Psocks.Lib.RedBlack

namespace Psocks.RedBlack
open SearchTree
variable {α : Type} {d s : Side} {c : Color} {x : α} {t near far l r : Colored α} {f : Frame α} {rest path : List (Frame α)}

-- The nodes in the order in which a walk to the side `d` meets them.
def Colored.toward (t : Colored α) : Side → List α
  | .right => t.list
  | .left => t.list.reverse

-- What such a walk meets after the tree in the hole.
def beyond (d : Side) : List (Frame α) → List α
  | [] => []
  | f::rest => if f.side = d then beyond d rest else f.x::(f.sibling.toward d++beyond d rest)

theorem side_cases (s d : Side) : s = d ∨ s = d.other := by cases s <;> cases d <;> simp [Side.other]

@[simp] theorem other_ne (d : Side) : d.other ≠ d := by cases d <;> simp [Side.other]

@[simp] theorem toward_nil (d : Side) : (Colored.nil : Colored α).toward d = [] := by cases d <;> rfl

theorem toward_away : (put d c x near far).toward d = far.toward d++x::near.toward d := by
  cases d <;> simp [put,Colored.toward,Colored.list]

theorem toward_through : (put d.other c x near far).toward d = near.toward d++x::far.toward d := by
  rw [put_other,toward_away]

theorem toward_node (d : Side) : (Colored.node c l x r).toward d =
    ((Colored.node c l x r).child d.other).toward d++x::((Colored.node c l x r).child d).toward d := by
  rw [node_put d,toward_away,put_child,put_child_other]

theorem toward_empty (d : Side) : t.toward d = [] ↔ t = .nil := by
  cases t with
  | nil => simp
  | node c l x r => simp [toward_node]

@[simp] theorem toward_nodup (d : Side) : (t.toward d).Nodup ↔ t.list.Nodup := by
  cases d with
  | left => exact List.nodup_reverse
  | right => exact Iff.rfl

@[simp] theorem toward_member (d : Side) : x ∈ t.toward d ↔ x ∈ t.list := by
  cases d with
  | left => exact List.mem_reverse
  | right => exact Iff.rfl

theorem toward_plug (d : Side) (path : List (Frame α)) : ∃ before, ∀ t : Colored α, (plug path t).toward d = before++t.toward d++beyond d path := by
  induction path with
  | nil => exact ⟨[],fun t => by simp [plug,beyond]⟩
  | cons f rest ih =>
    obtain ⟨before,whole⟩ := ih
    rcases side_cases f.side d with side | side
    · refine ⟨before++f.sibling.toward d++[f.x],fun t => ?_⟩
      rw [plug,whole,Frame.fill,side,toward_away,beyond,if_pos side]
      simp
    · refine ⟨before,fun t => ?_⟩
      rw [plug,whole,Frame.fill,side,toward_through,beyond,if_neg (by simp [side])]
      simp

-- What follows a node, read off the place of the node.
theorem plug_after (distinct : (plug path (.node c l x r)).list.Nodup) {before after : List α}
    (order : (plug path (.node c l x r)).toward d = before++x::after) :
    after = ((Colored.node c l x r).child d).toward d++beyond d path := by
  obtain ⟨ahead,whole⟩ := toward_plug d path
  have alone : (before++x::after).Nodup := order ▸ (toward_nodup d).mpr distinct
  rw [List.nodup_middle,List.nodup_cons,List.mem_append,not_or] at alone
  rw [whole,toward_node d,List.append_assoc,List.append_assoc,List.cons_append,← List.append_assoc] at order
  exact ((List.append_cons_inj_of_notMem alone.1.1 alone.1.2).mp order.symm).2.2

end Psocks.RedBlack
