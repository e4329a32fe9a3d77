import Mathlib.Data.Nat.Bitwise
import Mathlib.Data.Nat.Log
import Psocks.MappedDns.Capture

namespace Psocks.MappedDns
variable {os : Platform} {dns : Dns os} {net mask max : BitVec 32}

-- Sizes of the target: a `size_t` in bits, a pointer and HevMappedDNS without its
-- records in bytes.
structure Abi where
  bits : Nat
  pointer : Nat
  header : Nat

-- What hev_malloc0 is asked for; the sum is a `size_t`.
def Abi.block (abi : Abi) (max : BitVec 32) : Nat :=
  (((abi.header : Int)+abi.pointer*max.toInt) % (2^abi.bits : Nat)).toNat

-- `malloc` tells for which sizes hev_malloc0 has a block.
def hevMappedDnsAllocate (abi : Abi) (malloc : Nat → Bool) (os : Platform) (node : Nat → HevMappedDnsNode)
    (net mask max : BitVec 32) : Option (Dns os) :=
  if malloc (abi.block max) then hevMappedDnsNew os node net mask max.toInt else none

def address (net : BitVec 32) (idx : Int) : BitVec 32 := net ||| BitVec.ofInt 32 idx

-- What a store of these parameters has to be good for: its slots have addresses of their
-- own inside the network, and the block it lives in has room for them.
structure Workable (abi : Abi) (dns : Dns os) (net mask max : BitVec 32) : Prop where
  room : 1 ≤ max.toInt
  host : ∀ idx, 0 ≤ idx → idx < max.toInt → address net idx &&& ~~~mask = BitVec.ofInt 32 idx
  network : ∀ idx, 0 ≤ idx → idx < max.toInt → address net idx &&& mask = net &&& mask
  apart : ∀ i j, 0 ≤ i → i < max.toInt → 0 ≤ j → j < max.toInt → address net i = address net j → i = j
  stored : ∀ idx, 0 ≤ idx → idx < max.toInt → (abi.header : Int)+abi.pointer*(idx+1) ≤ abi.block max
  answers : ∀ calls name, (hevMappedDnsLookup (hevMappedDnsFind (run dns calls) name).2
    (address net (hevMappedDnsFind (run dns calls) name).1)).1 = some name

-- The base has no host bits, the mask none of the bits that `max` slots take.
structure Admissible (abi : Abi) (net mask max : BitVec 32) : Prop where
  room : 1 ≤ max.toInt
  aligned : net &&& ~~~mask = 0
  free : 2^Nat.clog 2 max.toNat ∣ mask.toNat
  fits : abi.header+abi.pointer*max.toNat < 2^abi.bits

theorem low_bits_clear {n m : Nat} : (∀ i < n, i &&& m = 0) ↔ 2^Nat.clog 2 n ∣ m := by
  constructor
  · intro clear
    apply Nat.dvd_of_mod_eq_zero
    apply Nat.eq_of_testBit_eq
    intro j
    rw [Nat.testBit_mod_two_pow,Nat.zero_testBit]
    by_cases low : j < Nat.clog 2 n
    · have power := clear (2^j) (Nat.pow_lt_of_lt_clog low)
      have bit := congrArg (fun x => Nat.testBit x j) power
      simpa [low,Nat.testBit_and,Nat.testBit_two_pow_self] using bit
    · simp [low]
  · rintro ⟨c,rfl⟩ i below
    apply Nat.eq_of_testBit_eq
    intro j
    rw [Nat.testBit_and,Nat.testBit_two_pow_mul,Nat.zero_testBit]
    by_cases low : j < Nat.clog 2 n
    · simp [Nat.not_le.mpr low]
    · have small : i < 2^j := by
        apply Nat.lt_of_lt_of_le below
        exact Nat.le_trans (Nat.le_pow_clog (by decide) n) (Nat.pow_le_pow_right (by decide) (Nat.not_lt.mp low))
      rw [Nat.testBit_eq_false_of_lt small,Bool.false_and]

theorem max_nat (room : 1 ≤ max.toInt) : (max.toNat : Int) = max.toInt ∧ max.toNat < 2^31 := by
  have signed := BitVec.toInt_eq_toNat_cond max
  have narrow := max.isLt
  split at signed <;> omega

theorem slot_word (room : 1 ≤ max.toInt) (low : 0 ≤ idx) (high : idx < max.toInt) :
    (BitVec.ofInt 32 idx).toInt = idx ∧ ((BitVec.ofInt 32 idx).toNat : Int) = idx := by
  obtain ⟨same,small⟩ := max_nat room
  obtain ⟨n,rfl⟩ := Int.eq_ofNat_of_zero_le low
  have word : (BitVec.ofInt 32 n).toNat = n := by
    rw [BitVec.ofInt_natCast,BitVec.toNat_ofNat,Nat.mod_eq_of_lt (by omega)]
  refine ⟨?_,by rw [word]⟩
  rw [BitVec.toInt_eq_toNat_cond,word,if_pos (by omega)]

theorem free_iff (room : 1 ≤ max.toInt) : 2^Nat.clog 2 max.toNat ∣ mask.toNat ↔
    ∀ idx : Int, 0 ≤ idx → idx < max.toInt → BitVec.ofInt 32 idx &&& mask = 0 := by
  obtain ⟨same,small⟩ := max_nat room
  rw [← low_bits_clear]
  constructor
  · intro clear idx low high
    obtain ⟨_,word⟩ := slot_word room low high
    apply BitVec.eq_of_toNat_eq
    rw [BitVec.toNat_and]
    exact clear _ (by omega)
  · intro clear i below
    have high : (i : Int) < max.toInt := by omega
    obtain ⟨_,word⟩ := slot_word room (Int.natCast_nonneg i) high
    have bits := congrArg BitVec.toNat (clear i (Int.natCast_nonneg i) high)
    rw [BitVec.toNat_and] at bits
    have index : (BitVec.ofInt 32 i).toNat = i := by omega
    rwa [index] at bits

theorem host_clear (clear : x &&& mask = 0) : x &&& ~~~mask = x := by
  have whole := mask_parts x mask
  rw [clear] at whole
  exact BitVec.zero_or.symm.trans whole

theorem workable_admissible {abi : Abi} (workable : Workable abi dns net mask max) : Admissible abi net mask max := by
  have room := workable.room
  obtain ⟨same,small⟩ := max_nat room
  have aligned : net &&& ~~~mask = 0 := by
    have first := workable.host 0 (by omega) (by omega)
    rwa [address,show BitVec.ofInt 32 0 = 0#32 from rfl,BitVec.or_zero] at first
  refine ⟨room,aligned,(free_iff room).mpr fun idx low high => ?_,?_⟩
  · have host := workable.host idx low high
    rw [← host,mask_apart]
  · have last := workable.stored (max.toInt-1) (by omega) (by omega)
    rw [Int.sub_add_cancel,← same] at last
    have below : abi.block max < 2^abi.bits := by
      have positive : 0 < (2:Nat)^abi.bits := Nat.two_pow_pos _
      have narrow := Int.emod_lt_of_pos ((abi.header : Int)+abi.pointer*max.toInt) (Int.natCast_pos.mpr positive)
      unfold Abi.block
      omega
    have inside : ((abi.header+abi.pointer*max.toNat : Nat) : Int) ≤ abi.block max := by
      rw [Int.natCast_add,Int.natCast_mul]
      exact last
    omega

theorem admissible_host {abi : Abi} (admissible : Admissible abi net mask max) (low : 0 ≤ idx) (high : idx < max.toInt) :
    address net idx &&& ~~~mask = BitVec.ofInt 32 idx ∧ address net idx &&& mask = net &&& mask := by
  have clear := (free_iff admissible.room).mp admissible.free idx low high
  constructor
  · rw [address,BitVec.and_or_distrib_right,admissible.aligned,host_clear clear]
    exact BitVec.zero_or
  · rw [address,BitVec.and_or_distrib_right,clear]
    exact BitVec.or_zero

theorem admissible_block {abi : Abi} (admissible : Admissible abi net mask max) :
    abi.block max = abi.header+abi.pointer*max.toNat := by
  obtain ⟨same,_⟩ := max_nat admissible.room
  have below : ((abi.header+abi.pointer*max.toNat : Nat) : Int) < (2^abi.bits : Nat) := Int.ofNat_lt.mpr admissible.fits
  have cast : (abi.header : Int)+abi.pointer*max.toInt = (abi.header+abi.pointer*max.toNat : Nat) := by
    rw [← same,Int.natCast_add,Int.natCast_mul]
  rw [Abi.block,cast,Int.emod_eq_of_lt (Int.natCast_nonneg _) below,Int.toNat_natCast]

theorem admissible_workable {abi : Abi} {node : Nat → HevMappedDnsNode} (admissible : Admissible abi net mask max)
    (made : hevMappedDnsNew os node net mask max.toInt = some dns) : Workable abi dns net mask max := by
  have room := admissible.room
  refine ⟨room,fun idx low high => (admissible_host admissible low high).1,
    fun idx low high => (admissible_host admissible low high).2,?_,?_,?_⟩
  · intro i j lowI highI lowJ highJ same
    have words := congrArg (fun x => (x &&& ~~~mask).toInt) same
    simp only [(admissible_host admissible lowI highI).1,(admissible_host admissible lowJ highJ).1,
      (slot_word room lowI highI).1,(slot_word room lowJ highJ).1] at words
    exact words
  · intro idx low high
    obtain ⟨same,_⟩ := max_nat room
    rw [admissible_block admissible,Int.natCast_add,Int.natCast_mul,same]
    have grows : (abi.pointer : Int)*(idx+1) ≤ abi.pointer*max.toInt := Int.mul_le_mul_of_nonneg_left (by omega) (by omega)
    omega
  · intro calls name
    obtain ⟨size,_,finds⟩ := store_consistent made room calls
    obtain ⟨⟨low,high⟩,slot,_,_⟩ := finds name
    rw [size] at high
    obtain ⟨order,valid⟩ := run_valid (new_valid made (by omega)) (new_max made ▸ room) calls
    obtain ⟨after,found⟩ := find_valid valid (size ▸ room) name
    have settled : Settled (run dns calls) (hevMappedDnsFind (run dns calls) name).2 := find_settled name
    have masked : (hevMappedDnsFind (run dns calls) name).2.mask = mask :=
      settled.mask.trans ((run_settled calls).mask.trans (new_settled made).2.1)
    refine slotted_hit found ?_
    rw [masked,(admissible_host admissible low high).1,(slot_word room low high).1]
    exact slot

theorem parameters_exact (abi : Abi) (malloc : Nat → Bool) (os : Platform) (node : Nat → HevMappedDnsNode)
    (net mask max : BitVec 32) :
    (∀ dns, hevMappedDnsAllocate abi malloc os node net mask max = some dns → Workable abi dns net mask max) ↔
      malloc (abi.block max) = false ∨ (~~~mask).toInt < max.toInt ∨ Admissible abi net mask max := by
  constructor
  · intro works
    by_cases given : malloc (abi.block max) = true
    · by_cases small : (~~~mask).toInt < max.toInt
      · exact .inr (.inl small)
      · refine .inr (.inr (workable_admissible (works {HevMappedDns.zero os node with max:=max.toInt,net:=net,mask:=mask} ?_)))
        rw [hevMappedDnsAllocate,if_pos given,hevMappedDnsNew,hevMappedDnsConstruct,if_neg small]
    · exact .inl (by simpa using given)
  · intro condition dns made
    unfold hevMappedDnsAllocate at made
    split at made
    · rename_i given
      rcases condition with full | small | admissible
      · cases full.symm.trans given
      · rw [hevMappedDnsNew,hevMappedDnsConstruct,if_pos small] at made
        cases made
      · exact admissible_workable admissible made
    · cases made

def lp64 : Abi := ⟨64,8,56⟩

-- 198.18.0.1/16: the first two names are both answered with the base.
theorem crooked_base : ∃ dns, hevMappedDnsAllocate lp64 (fun _ => true) .plain (fun _ => ⟨⟨[],by decide⟩,0⟩) 0xc6120001 0xffff0000 2 = some dns ∧
    address 0xc6120001 0 = address 0xc6120001 1 ∧ ¬Workable lp64 dns 0xc6120001 0xffff0000 2 := by
  refine ⟨_,rfl,by decide,fun workable => ?_⟩
  have same := workable.apart 0 1 (by decide) (by decide) (by decide) (by decide) (by decide)
  omega

end Psocks.MappedDns
