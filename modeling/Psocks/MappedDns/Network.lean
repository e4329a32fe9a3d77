import Mathlib.Algebra.Group.Nat.Defs
import Psocks.MappedDns.Invariant

namespace Psocks.MappedDns
variable {os : Platform} {net mask : BitVec 32} {max : Int}

-- A contiguous netmask leaves the low `k` bits to the host.
def Contiguous (mask : BitVec 32) : Prop := ∃ k, k ≤ 32 ∧ ~~~mask = BitVec.ofNat 32 (2^k-1)

structure Network (net mask : BitVec 32) (max : Int) : Prop where
  contiguous : Contiguous mask
  aligned : net &&& ~~~mask = 0
  room : 1 ≤ max
  fits : max ≤ (~~~mask).toInt

theorem host_bound (network : Network net mask max) : ∃ k, k ≤ 31 ∧ (~~~mask).toNat = 2^k-1 ∧ max ≤ ((2^k-1 : Nat) : Int) := by
  obtain ⟨k,wide,hosts⟩ := network.contiguous
  have room := network.room
  have fits := network.fits
  have positive : 0 < (2:Nat)^k := Nat.two_pow_pos k
  have below : 2^k ≤ 2^32 := Nat.pow_le_pow_right (by decide) wide
  have size : (~~~mask).toNat = 2^k-1 := by
    rw [hosts,BitVec.toNat_ofNat,Nat.mod_eq_of_lt (by omega)]
  have signed := BitVec.toInt_eq_toNat_cond (~~~mask)
  rw [size] at signed
  by_cases small : k ≤ 31
  · refine ⟨k,small,size,?_⟩
    have half : 2^k ≤ 2^31 := Nat.pow_le_pow_right (by decide) small
    rw [if_pos (by omega)] at signed
    omega
  · have top : k = 32 := by omega
    subst top
    rw [if_neg (by decide)] at signed
    omega

theorem mask_parts (x mask : BitVec 32) : (x &&& mask) ||| (x &&& ~~~mask) = x := by
  ext i bound
  simp only [BitVec.getElem_or,BitVec.getElem_and,BitVec.getElem_not]
  cases x[i] <;> cases mask[i] <;> rfl

theorem mask_apart (x mask : BitVec 32) : (x &&& ~~~mask) &&& mask = 0 := by
  ext i bound
  simp only [BitVec.getElem_and,BitVec.getElem_not]
  cases x[i] <;> cases mask[i] <;> simp

theorem slot_host (network : Network net mask max) (low : 0 ≤ i) (high : i < max) :
    BitVec.ofInt 32 i &&& ~~~mask = BitVec.ofInt 32 i ∧ (BitVec.ofInt 32 i).toInt = i := by
  obtain ⟨k,small,size,fits⟩ := host_bound network
  have half : 2^k ≤ 2^31 := Nat.pow_le_pow_right (by decide) small
  obtain ⟨n,rfl⟩ := Int.eq_ofNat_of_zero_le low
  have bound : n < 2^k := by omega
  have word : (BitVec.ofInt 32 n).toNat = n := by
    rw [BitVec.ofInt_natCast,BitVec.toNat_ofNat,Nat.mod_eq_of_lt (by omega)]
  constructor
  · apply BitVec.eq_of_toNat_eq
    rw [BitVec.toNat_and,word,size,Nat.and_two_pow_sub_one_eq_mod,Nat.mod_eq_of_lt bound]
  · rw [BitVec.toInt_eq_toNat_cond,word,if_pos (by omega)]

theorem address_net (network : Network net mask max) (low : 0 ≤ i) (high : i < max) :
    (net ||| BitVec.ofInt 32 i) &&& mask = net := by
  have inside : net &&& mask = net := by
    have whole := mask_parts net mask
    rw [network.aligned] at whole
    exact BitVec.or_zero.symm.trans whole
  have outside : BitVec.ofInt 32 i &&& mask = 0 := by
    rw [← (slot_host network low high).1,mask_apart]
  rw [BitVec.and_or_distrib_right,inside,outside]
  exact BitVec.or_zero

theorem address_split (inside : ip &&& mask = net) : net ||| (ip &&& ~~~mask) = ip := by
  rw [← inside,mask_parts]

end Psocks.MappedDns
