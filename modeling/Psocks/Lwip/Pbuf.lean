import Mathlib.Data.List.Basic

namespace Psocks.Pbufs

-- One link of a chain; `tot_len` counts it and everything behind it and is kept
-- in 16 bits. A chain is the list of its links, the null pointer the empty list.
structure Pbuf where
  payload : List UInt8
  totLen : Nat
deriving DecidableEq, Repr

def Pbuf.len (p : Pbuf) : Nat := p.payload.length

def bytes (q : List Pbuf) : List UInt8 := q.flatMap Pbuf.payload

def totLen : List Pbuf → Nat
  | [] => 0
  | p::_ => p.totLen

-- A chain as lwIP delivers it.
def chain : List (List UInt8) → List Pbuf
  | [] => []
  | data::rest => ⟨data,(data.length+totLen (chain rest)) % 65536⟩::chain rest

def pbufCat (h t : List Pbuf) : List Pbuf :=
  (h.map fun p => {p with totLen:=(p.totLen+totLen t) % 65536})++t

def pbufRemoveHeader (p : Pbuf) (size : Nat) : Pbuf := ⟨p.payload.drop size,(p.totLen - size) % 65536⟩

-- `size` is the 16-bit `free_left`.
def pbufFreeHeader : List Pbuf → Nat → List Pbuf
  | [], _ => []
  | p::rest, size =>
    if size = 0 then p::rest
    else if p.len ≤ size then pbufFreeHeader rest (size - p.len)
    else pbufRemoveHeader p size::rest

-- Every `tot_len` of the chain is what it says.
def Exact : List Pbuf → Prop
  | [] => True
  | p::rest => p.totLen = (bytes (p::rest)).length ∧ Exact rest

@[simp] theorem bytes_cons : bytes (p::rest) = p.payload++bytes rest := rfl

theorem exact_total (exactly : Exact q) : totLen q = (bytes q).length := by
  cases q with
  | nil => rfl
  | cons p rest => exact exactly.1

theorem chain_bytes (parts : List (List UInt8)) : bytes (chain parts) = parts.flatten := by
  induction parts with
  | nil => rfl
  | cons data rest ih => simp [chain,ih]

theorem chain_exact (small : parts.flatten.length < 65536) : Exact (chain parts) := by
  induction parts with
  | nil => trivial
  | cons data rest ih =>
    simp only [List.flatten_cons,List.length_append] at small
    have tail := ih (by omega)
    refine ⟨?_,tail⟩
    rw [exact_total tail,bytes_cons,List.length_append,chain_bytes]
    exact Nat.mod_eq_of_lt small

end Psocks.Pbufs
