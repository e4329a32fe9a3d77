import Mathlib.Algebra.Group.Int.Defs
import Mathlib.Algebra.Group.Nat.Defs
import Psocks.Lib.CString

namespace Psocks.Config

def ascii (s : String) : List UInt8 := s.toList.map fun c => UInt8.ofNat c.toNat

def tolower (c : UInt8) : UInt8 := if 65 ≤ c ∧ c ≤ 90 then c+32 else c

def strcasecmp (s t : List UInt8) : Int := strcmp (s.map tolower) (t.map tolower)

-- What strncpy leaves in a buffer of zeroes with room for more than `n` bytes.
def strncpy (s : CString) (n : Nat) : CString := ⟨s.bytes.take n,fun zero => s.clean (List.mem_of_mem_take zero)⟩

def isspace (c : UInt8) : Bool := c = 32 || (9 ≤ c && c ≤ 13)

-- 36 is no digit in any base.
def digit (c : UInt8) : Nat :=
  if 48 ≤ c ∧ c ≤ 57 then c.toNat-48
  else if 65 ≤ c ∧ c ≤ 90 then c.toNat-55
  else if 97 ≤ c ∧ c ≤ 122 then c.toNat-87
  else 36

def magnitude (base : Nat) (s : List UInt8) : Nat := ((s.map digit).takeWhile (· < base)).foldl (fun n d => n*base+d) 0

def sign (s : List UInt8) : Bool×List UInt8 :=
  match s with
  | 45::rest => (true,rest)
  | 43::rest => (false,rest)
  | _ => (false,s)

-- Base 0 takes the base from the text.
def radix (base : Nat) (s : List UInt8) : Nat×List UInt8 :=
  if base ≠ 0 then (base,s)
  else match s with
    | 48::x::rest => if tolower x = 120 ∧ rest.head?.any (digit · < 16) then (16,rest) else (8,s)
    | 48::_ => (8,s)
    | _ => (10,s)

-- Whether there is a minus, and the digits as a number.
def scanned (s : CString) (base : Nat) : Bool×Nat :=
  let (minus,rest) := sign (s.bytes.dropWhile isspace)
  let (base,rest) := radix base rest
  (minus,magnitude base rest)

-- The bits of a long: 32 on the 32-bit targets, 64 on the others.
structure Target where
  long : Nat
  wide : 32 ≤ long

def ilp32 : Target := ⟨32,Nat.le_refl 32⟩

def lp64 : Target := ⟨64,Nat.le_add_left 32 32⟩

def strtoul (target : Target) (s : CString) (base : Nat) : Int :=
  let (minus,n) := scanned s base
  if 2^target.long ≤ n then 2^target.long-1 else if minus then (-(n : Int)) % 2^target.long else n

def strtol (target : Target) (s : CString) (base : Nat) : Int :=
  let (minus,n) := scanned s base
  if minus then max (-2^(target.long-1)) (-n) else min (2^(target.long-1)-1) n

theorem long_wide (target : Target) : 2^32 ≤ 2^target.long := Nat.pow_le_pow_right (by decide) target.wide

theorem strtoul_small (target : Target) {s : CString} {base n : Nat} (read : scanned s base = (false,n)) (small : n < 2^32) :
    strtoul target s base = n := by
  have wide := long_wide target
  rw [strtoul,read]
  simp only [Bool.false_eq_true,if_false]
  exact if_neg (by omega)

def toInt (n : Int) : Int := n.bmod (2^32)

def toUnsigned (n : Int) : Int := n % 2^32

def toUnsignedShort (n : Int) : Int := n % 2^16

-- One to three digits, the first of several not a zero.
def octet (s : List UInt8) : Option (BitVec 8) :=
  if s ≠ [] ∧ s.length ≤ 3 ∧ s.all (digit · < 10) ∧ (s.length = 1 ∨ s.head? ≠ some 48) ∧ magnitude 10 s ≤ 255
  then some (BitVec.ofNat 8 (magnitude 10 s)) else none

-- The address in network order, as an int that a little-endian machine reads.
def inetPton4 (s : CString) : Option (BitVec 32) :=
  match s.bytes.splitOn 46 with
  | [a,b,c,d] => do
    let a ← octet a
    let b ← octet b
    let c ← octet c
    let d ← octet d
    return d++c++b++a
  | _ => none

def ntohl (x : BitVec 32) : BitVec 32 :=
  let n := x.toNat
  BitVec.ofNat 32 (n%2^8*2^24+n/2^8%2^8*2^16+n/2^16%2^8*2^8+n/2^24)

def word (a b c d : Nat) : BitVec 32 := BitVec.ofNat 32 (a+b*2^8+c*2^16+d*2^24)

theorem word_bytes (x : BitVec 32) : ∃ a b c d, a < 2^8 ∧ b < 2^8 ∧ c < 2^8 ∧ d < 2^8 ∧ x = word a b c d := by
  have small := x.isLt
  refine ⟨x.toNat%2^8,x.toNat/2^8%2^8,x.toNat/2^16%2^8,x.toNat/2^24,by omega,by omega,by omega,by omega,?_⟩
  refine BitVec.eq_of_toNat_eq ?_
  rw [word,BitVec.toNat_ofNat]
  omega

theorem ntohl_word (first : a < 2^8) (second : b < 2^8) (third : c < 2^8) (fourth : d < 2^8) :
    ntohl (word a b c d) = word d c b a := by
  have value : (word a b c d).toNat = a+b*2^8+c*2^16+d*2^24 := by
    rw [word,BitVec.toNat_ofNat]
    omega
  have low : (a+b*2^8+c*2^16+d*2^24)%2^8 = a := by omega
  have middle : (a+b*2^8+c*2^16+d*2^24)/2^8%2^8 = b := by omega
  have upper : (a+b*2^8+c*2^16+d*2^24)/2^16%2^8 = c := by omega
  have high : (a+b*2^8+c*2^16+d*2^24)/2^24 = d := by omega
  unfold ntohl
  dsimp only
  rw [value,low,middle,upper,high,word]
  congr 1
  omega

theorem ntohl_twice (x : BitVec 32) : ntohl (ntohl x) = x := by
  obtain ⟨a,b,c,d,first,second,third,fourth,rfl⟩ := word_bytes x
  rw [ntohl_word first second third fourth,ntohl_word fourth third second first]

theorem ntohl_exact (x y : BitVec 32) : ntohl x = ntohl y ↔ x = y := by
  constructor
  · intro same
    rw [← ntohl_twice x,same,ntohl_twice]
  · exact congrArg ntohl

def text (s : String) : CString := cut (ascii s)

example : inetPton4 (text "240.0.0.1") = some 0x010000f0 ∧ inetPton4 (text "240.0.0.01") = none ∧ ntohl 0x010000f0 = 0xf0000001 := by
  decide

example : strtoul lp64 (text " -0x1F") 0 = 2^64-31 ∧ toInt (strtoul lp64 (text "4295032831") 10) = 65535 ∧
    toInt (strtoul ilp32 (text "4295032831") 10) = -1 ∧ strtol ilp32 (text "-4295032831") 10 = -2^31 := by
  decide

end Psocks.Config
