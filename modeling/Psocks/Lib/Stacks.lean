import Mathlib.Data.List.Nodup
import Mathlib.Logic.Function.Basic

namespace Psocks.Stacks
variable {ν : Type} {next next' : ν → Option ν} {head : Option ν} {xs : List ν} {x : ν}

-- The nodes from `head` on, each pushed on top of those behind it.
def Stacked (next : ν → Option ν) : Option ν → List ν → Prop
  | head, [] => head = none
  | head, x::rest => head = some x ∧ Stacked next (next x) rest

theorem stacked_frame (stacked : Stacked next head xs) (same : ∀ x ∈ xs, next' x = next x) : Stacked next' head xs := by
  induction xs generalizing head with
  | nil => exact stacked
  | cons x rest ih =>
    refine ⟨stacked.1,?_⟩
    rw [same x (by simp)]
    exact ih stacked.2 fun y member => same y (by simp [member])

theorem stacked_none (stacked : Stacked next none xs) : xs = [] := by
  cases xs with
  | nil => rfl
  | cons y rest => cases stacked.1

theorem stacked_some (stacked : Stacked next (some x) xs) : ∃ rest, xs = x::rest ∧ Stacked next (next x) rest := by
  cases xs with
  | nil => cases stacked
  | cons y rest =>
    cases stacked.1
    exact ⟨rest,rfl,stacked.2⟩

theorem stacked_empty (stacked : Stacked next head xs) : head = none ↔ xs = [] := by
  constructor
  · rintro rfl
    exact stacked_none stacked
  · rintro rfl
    exact stacked

theorem stacked_push [DecidableEq ν] (stacked : Stacked next head xs) (fresh : x ∉ xs) :
    Stacked (Function.update next x head) (some x) (x::xs) := by
  refine ⟨rfl,?_⟩
  rw [Function.update_self]
  apply stacked_frame stacked
  intro y member
  have apart : y ≠ x := fun same => fresh (same ▸ member)
  exact Function.update_of_ne apart ..

end Psocks.Stacks
