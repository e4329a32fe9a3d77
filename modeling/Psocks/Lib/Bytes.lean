import Mathlib.Data.List.Basic

namespace Psocks

-- `bs` copied over the bytes of `mem` from `off` on.
def overwrite (mem : List UInt8) (off : Nat) (bs : List UInt8) : List UInt8 :=
  mem.take off++bs++mem.drop (off+bs.length)

theorem overwrite_length (inside : off+bs.length ≤ mem.length) : (overwrite mem off bs).length = mem.length := by
  simp only [overwrite,List.length_append,List.length_take,List.length_drop]
  omega

theorem overwrite_append (left : off = before.length) (same : bs.length = old.length) :
    overwrite (before++old++after) off bs = before++bs++after := by
  subst left
  have front : (before++old++after).take before.length = before := by simp
  have back : (before++old++after).drop (before.length+bs.length) = after := by
    rw [same,← List.length_append,List.drop_left]
  rw [overwrite,front,back]

theorem overwrite_take (inside : off ≤ mem.length) (low : n ≤ off) : (overwrite mem off bs).take n = mem.take n := by
  rw [overwrite,List.append_assoc,List.take_append_of_le_length (by simp; omega),List.take_take,Nat.min_eq_left low]

theorem overwrite_drop (inside : off ≤ mem.length) (high : off+bs.length ≤ n) :
    (overwrite mem off bs).drop n = mem.drop n := by
  have front : (mem.take off++bs).length = off+bs.length := by simp; omega
  rw [overwrite,List.drop_append,List.drop_of_length_le (by omega),front,List.nil_append,List.drop_drop]
  congr 1
  omega

theorem overwrite_from (inside : off ≤ mem.length) : (overwrite mem off bs).drop off = bs++mem.drop (off+bs.length) := by
  rw [overwrite,List.append_assoc]
  exact List.drop_left' (by rw [List.length_take]; omega)

theorem overwrite_nil : overwrite mem off [] = mem := by
  simp [overwrite]

theorem overwrite_twice (inside : off ≤ mem.length) :
    overwrite (overwrite mem off a) (off+a.length) b = overwrite mem off (a++b) := by
  have front : (mem.take off++a).length = off+a.length := by simp; omega
  rw [overwrite,overwrite,overwrite,List.take_append_of_le_length (by omega),List.take_of_length_le (by omega),
    List.drop_append,List.drop_of_length_le (by omega),front,List.nil_append,List.drop_drop,List.length_append,
    List.append_assoc,List.append_assoc,List.append_assoc,List.append_assoc]
  congr 4
  omega

-- Most significant byte first.
def be16 (v : Nat) : List UInt8 := [UInt8.ofNat (v >>> 8),UInt8.ofNat v]

def be32 (v : Nat) : List UInt8 :=
  [UInt8.ofNat (v >>> 24),UInt8.ofNat (v >>> 16),UInt8.ofNat (v >>> 8),UInt8.ofNat v]

def bigEndian (bs : List UInt8) : BitVec w := bs.foldl (fun v b => v*256+BitVec.ofNat w b.toNat) 0

@[simp] theorem be16_length : (be16 v).length = 2 := rfl

@[simp] theorem be32_length : (be32 v).length = 4 := rfl

theorem be16_value (narrow : v < 65536) : (UInt8.ofNat (v >>> 8)).toNat*256+(UInt8.ofNat v).toNat = v := by
  simp only [UInt8.toNat_ofNat',Nat.shiftRight_eq_div_pow]
  omega

def readU16 (mem : List UInt8) (off : Nat) : Option Nat := do
  let a ← mem[off]?
  let b ← mem[off+1]?
  pure (a.toNat*256+b.toNat)

theorem readU16_append (left : off = before.length) :
    readU16 (before++a::b::after) off = some (a.toNat*256+b.toNat) := by
  subst left
  simp [readU16]

end Psocks
