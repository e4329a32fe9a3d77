import Mathlib.Data.List.Nodup
import Mathlib.Logic.Function.Basic

namespace Psocks.Cells
variable {α : Type}

-- Values stored one by one at the listed addresses; whichever list ends first
-- ends the copy.
def store (cells : Nat → α) : List Nat → List α → Nat → α
  | o::os, b::bs => store (Function.update cells o b) os bs
  | _, _ => cells

def load (cells : Nat → α) (os : List Nat) : List α := os.map cells

@[simp] theorem load_length : (load cells os).length = os.length := by simp [load]

theorem store_frame (outside : o ∉ os) : store cells os bs o = cells o := by
  induction os generalizing cells bs with
  | nil => rfl
  | cons head rest ih =>
    obtain ⟨ne,tail⟩ : o ≠ head ∧ o ∉ rest := by simpa using outside
    cases bs with
    | nil => rfl
    | cons b bs =>
      simp only [store]
      rw [ih tail,Function.update_of_ne ne]

theorem store_take : store cells (os.take bs.length) bs = store cells os bs := by
  induction os generalizing cells bs with
  | nil => simp [store]
  | cons head rest ih =>
    cases bs with
    | nil => rfl
    | cons b bs => simpa [store] using ih

theorem load_store (distinct : os.Nodup) (same : bs.length = os.length) :
    load (store cells os bs) os = bs := by
  induction os generalizing cells bs with
  | nil => simpa [load] using (List.length_eq_zero_iff.mp (by simpa using same)).symm
  | cons head rest ih =>
    cases bs with
    | nil => simp at same
    | cons b bs =>
      obtain ⟨fresh,tail⟩ := List.nodup_cons.mp distinct
      have below : load (store (Function.update cells head b) rest bs) rest = bs :=
        ih tail (by simpa using same)
      have top : store (Function.update cells head b) rest bs head = b := by
        rw [store_frame fresh,Function.update_self]
      simp only [load,store,List.map_cons] at below ⊢
      rw [top,below]

theorem load_frame (apart : List.Disjoint os ps) : load (store cells os bs) ps = load cells ps := by
  refine List.map_congr_left ?_
  intro o member
  exact store_frame fun inside => apart inside member

end Psocks.Cells
