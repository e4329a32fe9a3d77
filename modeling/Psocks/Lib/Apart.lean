import Mathlib.Data.List.Nodup

namespace Psocks.Apart
variable {α : Type} {tag tag' : α → Nat} {k i j : Nat} {lists : List (List α)} {y z : α}

-- Which of several disjoint lists an element is in.
def Tagged (tag : α → Nat) (k : Nat) : List (List α) → Prop
  | [] => True
  | l::rest => (∀ y ∈ l, tag y = k) ∧ Tagged tag (k+1) rest

theorem tagged_same (same : ∀ y ∈ lists.flatten, tag' y = tag y)
    (tagged : Tagged tag k lists) : Tagged tag' k lists := by
  induction lists generalizing k with
  | nil => trivial
  | cons l rest ih =>
    refine ⟨fun y member => ?_,ih (fun y member => same y ?_) tagged.2⟩
    · rw [same y (by simp [member]),tagged.1 y member]
    · exact List.mem_append_right _ member

theorem exists_tag [DecidableEq α] (k : Nat) (lists : List (List α)) (distinct : lists.flatten.Nodup) :
    ∃ tag : α → Nat, Tagged tag k lists := by
  induction lists generalizing k with
  | nil => exact ⟨fun _ => 0,trivial⟩
  | cons l rest ih =>
    obtain ⟨_,later,apart⟩ := List.nodup_append'.mp distinct
    obtain ⟨tag,tagged⟩ := ih (k+1) later
    refine ⟨fun y => if y ∈ l then k else tag y,fun y member => if_pos member,?_⟩
    exact tagged_same (fun y member => if_neg fun inside => apart inside member) tagged

theorem differ (left : tag y = i) (right : tag z = j) (other : i ≠ j) : y ≠ z := by
  rintro rfl
  exact other (left.symm.trans right)

theorem absent {l : List α} (here : tag y = i) (inside : ∀ z ∈ l, tag z = j) (other : i ≠ j) : y ∉ l :=
  fun member => other (here.symm.trans (inside y member))

end Psocks.Apart
