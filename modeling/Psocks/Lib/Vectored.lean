import Mathlib.Algebra.Group.Nat.Defs
import Psocks.Lib.Bytes

namespace Psocks.Vectored
variable {α : Type} {size : α → Nat} {shorten : Nat → α → α} {n : Nat} {off : Nat} {mem : List UInt8} {data : List UInt8}

-- A stretch of some memory.
structure Region where
  base : Nat
  len : Nat
deriving DecidableEq, Repr

def Region.skip (n : Nat) (r : Region) : Region := ⟨r.base+n,r.len-n⟩

def total (size : α → Nat) : List α → Nat
  | [] => 0
  | p::rest => size p+total size rest

-- What is left of a vectored transfer after its first `n` bytes: the pieces they
-- fill are dropped, the piece they end in is shortened.
def advance (size : α → Nat) (shorten : Nat → α → α) : Nat → List α → List α
  | _, [] => []
  | n, p::rest => if n < size p then shorten n p::rest else advance size shorten (n-size p) rest

@[simp] theorem total_nil : total size [] = 0 := rfl

@[simp] theorem total_cons (p : α) (rest : List α) : total size (p::rest) = size p+total size rest := rfl

theorem advance_total (shrinks : ∀ n p, size (shorten n p) = size p-n) (pieces : List α) :
    total size (advance size shorten n pieces) = total size pieces-n := by
  induction pieces generalizing n with
  | nil => simp [advance]
  | cons p rest ih =>
    unfold advance
    split
    · rename_i within
      rw [total_cons,total_cons,shrinks]
      omega
    · rename_i past
      rw [ih,total_cons]
      omega

-- Gathering: the pieces are the bytes to send.
theorem gather_total (pieces : List (List UInt8)) : pieces.flatten.length = total List.length pieces := by
  induction pieces with
  | nil => rfl
  | cons p rest ih => rw [List.flatten_cons,List.length_append,total_cons,ih]

theorem gather_advance (pieces : List (List UInt8)) :
    (advance List.length List.drop n pieces).flatten = pieces.flatten.drop n := by
  induction pieces generalizing n with
  | nil => simp [advance]
  | cons p rest ih =>
    unfold advance
    split
    · rename_i within
      rw [List.flatten_cons,List.flatten_cons,List.drop_append_of_le_length (by omega)]
    · rename_i past
      have gone : p.drop n = [] := List.drop_of_length_le (by omega)
      rw [ih,List.flatten_cons,List.drop_append,gone,List.nil_append]

-- Scattering: `data` goes to the regions in turn.
def scatter : List UInt8 → List Region → List UInt8 → List UInt8
  | mem, [], _ => mem
  | mem, r::rest, data => scatter (overwrite mem r.base (data.take r.len)) rest (data.drop r.len)

-- Each region starts where the one before it ends, the first at `off`.
def Follows (off : Nat) : List Region → Prop
  | [] => True
  | r::rest => r.base = off ∧ Follows (off+r.len) rest

theorem region_total (regions : List Region) :
    total Region.len (advance Region.len Region.skip n regions) = total Region.len regions-n :=
  advance_total (fun _ _ => rfl) regions

theorem follows_advance (regions : List Region) (follows : Follows off regions) :
    Follows (off+n) (advance Region.len Region.skip n regions) := by
  induction regions generalizing off n with
  | nil => trivial
  | cons r rest ih =>
    obtain ⟨starts,later⟩ := follows
    unfold advance
    split
    · rename_i within
      refine ⟨by rw [Region.skip,starts],?_⟩
      rwa [Region.skip,show off+n+(r.len-n) = off+r.len by omega]
    · rename_i past
      have moved := ih later (n:=n-r.len)
      rwa [show off+r.len+(n-r.len) = off+n by omega] at moved

theorem scatter_nil (mem : List UInt8) (regions : List Region) : scatter mem regions [] = mem := by
  induction regions generalizing mem with
  | nil => rfl
  | cons r rest ih =>
    rw [scatter,List.take_nil,List.drop_nil,ih,overwrite_nil]

theorem scatter_overwrite (regions : List Region) (data : List UInt8) (follows : Follows off regions)
    (fits : data.length ≤ total Region.len regions) (inside : off+data.length ≤ mem.length) :
    scatter mem regions data = overwrite mem off data := by
  induction regions generalizing mem off data with
  | nil =>
    have empty : data = [] := List.length_eq_zero_iff.mp (Nat.le_zero.mp fits)
    rw [empty,scatter_nil,overwrite_nil]
  | cons r rest ih =>
    obtain ⟨rfl,later⟩ := follows
    rw [total_cons] at fits
    rw [scatter]
    by_cases short : data.length ≤ r.len
    · rw [List.take_of_length_le short,List.drop_of_length_le short,scatter_nil]
    · have front : (data.take r.len).length = r.len := by rw [List.length_take]; omega
      have back : (data.drop r.len).length = data.length-r.len := List.length_drop
      have kept : (overwrite mem r.base (data.take r.len)).length = mem.length := overwrite_length (by omega)
      rw [ih _ later (by omega) (by omega)]
      have joined := overwrite_twice (a:=data.take r.len) (b:=data.drop r.len) (show r.base ≤ mem.length by omega)
      rwa [front,List.take_append_drop] at joined

end Psocks.Vectored
