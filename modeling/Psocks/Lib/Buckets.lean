import Mathlib.Data.List.Nodup
import Mathlib.Data.List.Perm.Basic
import Mathlib.Logic.Function.Basic

namespace Psocks.Buckets
variable {ι α : Type} [DecidableEq ι] {bucket : ι → List α} {order order' : List ι} {i : ι} {xs : List α}

-- The buckets with something in them, each once.
structure Ranked (bucket : ι → List α) (order : List ι) : Prop where
  distinct : order.Nodup
  member : ∀ i, i ∈ order ↔ bucket i ≠ []

def gather (bucket : ι → List α) (order : List ι) : List α := order.flatMap bucket

theorem gather_focus (ranked : Ranked bucket order) (i : ι) : (gather bucket order).Perm (bucket i++gather bucket (order.erase i)) := by
  by_cases member : i ∈ order
  · exact (List.perm_cons_erase member).flatMap_right bucket
  · have empty : bucket i = [] := by
      by_contra some_
      exact member ((ranked.member i).mpr some_)
    rw [List.erase_of_not_mem member,empty]
    exact List.Perm.refl _

theorem gather_other (absent : i ∉ order) : gather (Function.update bucket i xs) order = gather bucket order := by
  unfold gather
  apply List.flatMap_congr
  intro j member
  have apart : j ≠ i := fun same => absent (same ▸ member)
  exact Function.update_of_ne apart ..

-- One bucket with other contents, and an order with it where it belongs.
theorem ranked_update (ranked : Ranked bucket order) (distinct : order'.Nodup) (here : i ∈ order' ↔ xs ≠ [])
    (others : ∀ j, j ≠ i → (j ∈ order' ↔ j ∈ order)) :
    Ranked (Function.update bucket i xs) order' ∧
      (gather (Function.update bucket i xs) order').Perm (xs++gather bucket (order.erase i)) := by
  have ranked' : Ranked (Function.update bucket i xs) order' := by
    refine ⟨distinct,fun j => ?_⟩
    by_cases same : j = i
    · rw [same,Function.update_self]
      exact here
    · rw [Function.update_of_ne same,others j same]
      exact ranked.member j
  have rest : (order'.erase i).Perm (order.erase i) := by
    refine (List.perm_ext_iff_of_nodup (distinct.erase i) (ranked.distinct.erase i)).mpr fun j => ?_
    rw [distinct.mem_erase_iff,ranked.distinct.mem_erase_iff]
    exact and_congr_right (others j)
  have focus := gather_focus ranked' i
  rw [Function.update_self,gather_other distinct.not_mem_erase] at focus
  exact ⟨ranked',focus.trans ((rest.flatMap_right bucket).append_left xs)⟩

end Psocks.Buckets
