import Mathlib.Data.List.Nodup
import Mathlib.Data.List.Range
import Mathlib.Data.Nat.ModEq

namespace Psocks.Cyclic

-- The cells that `len` consecutive positions of a circular array of `n` cells
-- occupy, counted from `start` and wrapping at the end.
def window (n start len : Nat) : List Nat := (List.range len).map fun i => (start+i) % n

@[simp] theorem window_length : (window n start len).length = len := by simp [window]

@[simp] theorem window_zero : window n start 0 = [] := rfl

theorem window_bound (room : 0 < n) (member : o ∈ window n start len) : o < n := by
  obtain ⟨i,_,rfl⟩ := List.mem_map.mp member
  exact Nat.mod_lt _ room

theorem window_mod : window n (start % n) len = window n start len := by
  simp [window,Nat.add_mod]

theorem window_append (n start a b : Nat) :
    window n start (a+b) = window n start a ++ window n (start+a) b := by
  simp [window,List.range_add,Nat.add_assoc,Function.comp_def]

-- At most one revolution: no cell is visited twice.
theorem window_nodup (fits : len ≤ n) : (window n start len).Nodup := by
  refine List.Nodup.map_on ?_ List.nodup_range
  intro i hi j hj same
  have bi : i < n := Nat.lt_of_lt_of_le (List.mem_range.mp hi) fits
  have bj : j < n := Nat.lt_of_lt_of_le (List.mem_range.mp hj) fits
  have congruent : i ≡ j [MOD n] := Nat.ModEq.add_left_cancel' start same
  rw [Nat.ModEq,Nat.mod_eq_of_lt bi,Nat.mod_eq_of_lt bj] at congruent
  exact congruent

theorem window_disjoint (fits : a+b ≤ n) :
    List.Disjoint (window n start a) (window n (start+a) b) := by
  have whole : (window n start (a+b)).Nodup := window_nodup fits
  rw [window_append] at whole
  exact List.disjoint_of_nodup_append whole

theorem window_drop (skip : k ≤ len) :
    (window n start len).drop k = window n (start+k) (len-k) := by
  obtain ⟨rest,rfl⟩ := Nat.exists_eq_add_of_le skip
  rw [window_append,List.drop_append_of_le_length (by simp),List.drop_of_length_le (by simp)]
  simp

theorem window_take (keep : k ≤ len) : (window n start len).take k = window n start k := by
  obtain ⟨rest,rfl⟩ := Nat.exists_eq_add_of_le keep
  rw [window_append,List.take_append_of_le_length (by simp),List.take_of_length_le (by simp)]

-- A window that does not reach the end of the array is one contiguous stretch.
theorem window_flat (fits : start+len ≤ n) : window n start len = List.range' start len := by
  rw [List.range'_eq_map_range]
  refine List.map_congr_left ?_
  intro i member
  have bound := List.mem_range.mp member
  exact Nat.mod_eq_of_lt (by omega)

-- A window that passes the end is the stretch up to the end and one from cell 0.
theorem window_split (inside : start < n) (past : n ≤ start+len) (fits : len ≤ n) :
    window n start len = List.range' start (n-start) ++ List.range' 0 (len-(n-start)) := by
  have parts : len = (n-start)+(len-(n-start)) := by omega
  have upper : window n start (n-start) = List.range' start (n-start) := window_flat (by omega)
  have turn : window n (start+(n-start)) (len-(n-start)) = List.range' 0 (len-(n-start)) := by
    have origin : (start+(n-start)) % n = 0 := by
      rw [show start+(n-start) = n by omega,Nat.mod_self]
    rw [← window_mod,origin]
    exact window_flat (by omega)
  calc window n start len = window n start ((n-start)+(len-(n-start))) := by rw [← parts]
    _ = List.range' start (n-start) ++ List.range' 0 (len-(n-start)) := by
      rw [window_append,upper,turn]

end Psocks.Cyclic
