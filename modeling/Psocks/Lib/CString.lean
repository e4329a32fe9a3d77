import Mathlib.Data.List.Lex
import Mathlib.Data.List.TakeWhile
import Mathlib.Order.Lex

namespace Psocks

-- The bytes of a string before its terminating zero.
structure CString where
  bytes : List UInt8
  clean : 0 ∉ bytes
deriving DecidableEq

theorem CString.ext {s t : CString} (same : s.bytes = t.bytes) : s = t := by
  cases s; cases t; cases same; rfl

-- Difference of the first two bytes that differ, a missing byte reading as the
-- terminator.
def strcmp : List UInt8 → List UInt8 → Int
  | [], [] => 0
  | [], b::_ => - (b.toNat : Int)
  | a::_, [] => a.toNat
  | a::as, b::bs => if a = b then strcmp as bs else (a.toNat : Int) - b.toNat

-- Bytes compare as unsigned numbers.
def CString.rank (s : CString) : List Nat := s.bytes.map UInt8.toNat

theorem CString.rank_injective {s t : CString} (same : s.rank = t.rank) : s = t :=
  CString.ext ((List.map_injective_iff.mpr fun _ _ => UInt8.toNat_inj.mp) same)

theorem byte_pos {b : UInt8} (ne : b ≠ 0) : 0 < b.toNat :=
  Nat.pos_of_ne_zero fun zero => ne (UInt8.toNat_inj.mp zero)

theorem strcmp_sign (as bs : List UInt8) (left : 0 ∉ as) (right : 0 ∉ bs) :
    (strcmp as bs < 0 ↔ as.map UInt8.toNat < bs.map UInt8.toNat) ∧
    (strcmp as bs = 0 ↔ as = bs) := by
  induction as generalizing bs with
  | nil =>
    cases bs with
    | nil => simp [strcmp]
    | cons b bs =>
      have positive : 0 < b.toNat := byte_pos fun zero => right (by simp [zero])
      simp only [strcmp,List.map_nil,List.map_cons,List.nil_lt_cons,iff_true]
      exact ⟨by omega,by constructor <;> intro h; omega; cases h⟩
  | cons a as ih =>
    have positive : 0 < a.toNat := byte_pos fun zero => left (by simp [zero])
    cases bs with
    | nil =>
      simp only [strcmp,List.map_nil,List.map_cons,List.not_lt_nil,iff_false]
      exact ⟨by omega,by constructor <;> intro h; omega; cases h⟩
    | cons b bs =>
      simp only [strcmp,List.map_cons,List.cons_lt_cons_iff]
      by_cases same : a = b
      · subst same
        have tail := ih bs (fun inside => left (by simp [inside])) fun inside => right (by simp [inside])
        simp [tail.1,tail.2]
      · have different : a.toNat ≠ b.toNat := fun equal => same (UInt8.toNat_inj.mp equal)
        simp only [same,if_false,different,false_and,or_false,List.cons.injEq,iff_false]
        exact ⟨by omega,by omega⟩

theorem CString.strcmp_lt (s t : CString) : strcmp s.bytes t.bytes < 0 ↔ s.rank < t.rank :=
  (strcmp_sign _ _ s.clean t.clean).1

theorem CString.strcmp_eq (s t : CString) : strcmp s.bytes t.bytes = 0 ↔ s = t :=
  (strcmp_sign _ _ s.clean t.clean).2.trans ⟨CString.ext,fun same => same ▸ rfl⟩

theorem CString.strcmp_gt (s t : CString) : 0 < strcmp s.bytes t.bytes ↔ t.rank < s.rank := by
  have below := s.strcmp_lt t
  have level := s.strcmp_eq t
  constructor
  · intro above
    rcases lt_trichotomy s.rank t.rank with low | same | high
    · have := below.mpr low; omega
    · have := level.mpr (rank_injective same); omega
    · exact high
  · intro high
    have notBelow : ¬ strcmp s.bytes t.bytes < 0 := fun low => absurd (below.mp low) (not_lt_of_gt high)
    have notLevel : strcmp s.bytes t.bytes ≠ 0 := fun same => by
      rw [level.mp same] at high
      exact lt_irrefl _ high
    omega

def cut (s : List UInt8) : CString :=
  ⟨s.takeWhile (· ≠ 0),fun inside => by simpa using List.mem_takeWhile_imp inside⟩

theorem cut_clean (clean : 0 ∉ s) : (cut s).bytes = s := by
  refine List.takeWhile_eq_self_iff.mpr fun b member => ?_
  simpa using fun zero : b = 0 => clean (zero ▸ member)

theorem cut_ends (s rest : List UInt8) : cut (s++0::rest) = cut s := by
  apply CString.ext
  show (s++0::rest).takeWhile (· ≠ 0) = s.takeWhile (· ≠ 0)
  induction s with
  | nil => simp
  | cons b s ih =>
    by_cases zero : b = 0
    · simp [zero]
    · simp only [List.cons_append,List.takeWhile_cons,ih]

-- The string a pointer into `mem` denotes; `none` runs past the end of `mem`.
def cstrAt (mem : List UInt8) (off : Nat) : Option CString :=
  if 0 ∈ mem.drop off then some (cut (mem.drop off)) else none

theorem cstrAt_cut (layout : mem.drop off = s++0::rest) : cstrAt mem off = some (cut s) := by
  have found : 0 ∈ mem.drop off := by rw [layout]; simp
  rw [cstrAt,if_pos found,layout,cut_ends]

end Psocks
