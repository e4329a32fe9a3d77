import Psocks.Yaml.Composed

namespace Psocks.Config
open Psocks.Yaml


def decimal (n : Int) : List Char := (toString n).toList

theorem digits_bytes {word : List Char} (digits : ∀ c ∈ word, c.isDigit = true) :
    utf8 word = word.map (fun c => UInt8.ofNat c.toNat) ∧
      (utf8 word).map digit = word.map (fun c => c.toNat-48) ∧ ∀ c ∈ word, 48 ≤ c.toNat ∧ c.toNat ≤ 57 := by
  induction word with
  | nil => exact ⟨rfl,rfl,by simp⟩
  | cons c word ih =>
    obtain ⟨bytes,values,range⟩ := ih fun d member => digits d (List.mem_cons_of_mem _ member)
    have here : 48 ≤ c.toNat ∧ c.toNat ≤ 57 := by
      have test := digits c List.mem_cons_self
      simp only [Char.isDigit,Bool.and_eq_true,decide_eq_true_eq,ge_iff_le,UInt32.le_iff_toNat_le] at test
      exact test
    have one : String.utf8EncodeChar c = [UInt8.ofNat c.toNat] := if_pos (show c.val.toNat ≤ 0x7f from by
      have := here.2
      change c.val.toNat ≤ 57 at this
      omega)
    have value : (UInt8.ofNat c.toNat).toNat = c.toNat := UInt8.toNat_ofNat_of_lt' (by show c.toNat < 256; omega)
    have number : digit (UInt8.ofNat c.toNat) = c.toNat-48 := by
      rw [digit,if_pos,value]
      exact ⟨UInt8.le_iff_toNat_le.mpr (by rw [value]; exact here.1),UInt8.le_iff_toNat_le.mpr (by rw [value]; exact here.2)⟩
    refine ⟨?_,?_,?_⟩
    · rw [utf8,List.flatMap_cons,one,List.map_cons,← bytes]
      rfl
    · rw [utf8,List.flatMap_cons,one,List.map_append,List.map_cons,List.map_cons,number,List.map_nil,← values]
      rfl
    · intro d member
      rcases List.mem_cons.mp member with rfl | member
      · exact here
      · exact range d member

theorem magnitude_printed (n : Nat) : magnitude 10 (utf8 (Nat.toDigits 10 n)) = n := by
  obtain ⟨_,values,range⟩ := digits_bytes fun c member => Nat.isDigit_of_mem_toDigits (b := 10) (n := n) (by decide) (by decide) member
  have small : (Nat.toDigits 10 n).map (fun c => c.toNat-48) = ((Nat.toDigits 10 n).map (fun c => c.toNat-48)).takeWhile (· < 10) := by
    symm
    rw [List.takeWhile_eq_self_iff]
    intro d member
    obtain ⟨c,inside,rfl⟩ := List.mem_map.mp member
    have := range c inside
    simpa using (by omega : c.toNat-48 < 10)
  rw [magnitude,values,← small,List.foldl_map]
  have printed := Nat.ofDigitChars_ten_toDigits (n := n)
  rw [Nat.ofDigitChars_eq_foldl] at printed
  simpa [Nat.mul_comm] using printed

theorem cut_utf8 {v : List Char} (filled : ∀ c ∈ v, c.toNat ≠ 0) : (cut (utf8 v)).bytes = utf8 v := by
  apply cut_clean
  intro inside
  obtain ⟨c,member,byte⟩ := List.mem_flatMap.mp inside
  exact (utf8_byte byte).2 (filled c member) rfl

theorem digits_filled {n : Nat} : ∀ c ∈ Nat.toDigits 10 n, 48 ≤ c.toNat ∧ c.toNat ≤ 57 :=
  (digits_bytes fun _ member => Nat.isDigit_of_mem_toDigits (b := 10) (by decide) (by decide) member).2.2

theorem digits_head (n : Nat) : ∃ b rest, utf8 (Nat.toDigits 10 n) = b::rest ∧ isspace b = false ∧ b ≠ 45 ∧ b ≠ 43 := by
  obtain ⟨bytes,_,range⟩ := digits_bytes fun c member => Nat.isDigit_of_mem_toDigits (b := 10) (n := n) (by decide) (by decide) member
  have filled := Nat.toDigits_ne_nil (b := 10) (n := n)
  cases digits : Nat.toDigits 10 n with
  | nil => exact (filled digits).elim
  | cons c rest =>
    rw [digits] at range bytes
    obtain ⟨low,high⟩ := range c List.mem_cons_self
    have value : (UInt8.ofNat c.toNat).toNat = c.toNat := UInt8.toNat_ofNat_of_lt' (by show c.toNat < 256; omega)
    have other : ∀ x : UInt8, x.toNat < 48 → UInt8.ofNat c.toNat ≠ x := by
      rintro x small rfl
      omega
    refine ⟨_,_,bytes,?_,other 45 (by decide),other 43 (by decide)⟩
    have blank := other 32 (by decide)
    have past : ¬UInt8.ofNat c.toNat ≤ 13 := by
      rw [UInt8.le_iff_toNat_le,value]
      exact fun within => absurd within (by show ¬c.toNat ≤ 13; omega)
    simp [isspace,blank,past]

theorem scanned_digits (n : Nat) : scanned (cut (utf8 (Nat.toDigits 10 n))) 10 = (false,n) := by
  have clean := cut_utf8 (v := Nat.toDigits 10 n) fun c member zero => by
    have := (digits_filled c member).1
    omega
  obtain ⟨b,rest,shape,space,minus,plus⟩ := digits_head n
  have unsigned : sign (b::rest) = (false,b::rest) := by
    unfold sign
    split
    · rename_i same
      exact (minus (List.cons.inj same).1).elim
    · rename_i same
      exact (plus (List.cons.inj same).1).elim
    · rfl
  have value := magnitude_printed n
  rw [scanned,clean]
  rw [shape] at value ⊢
  rw [List.dropWhile_cons_of_neg (by simp [space]),unsigned]
  exact congrArg (Prod.mk false) value

theorem scanned_minus (n : Nat) : scanned (cut (utf8 ('-'::Nat.toDigits 10 n))) 10 = (true,n) := by
  have clean := cut_utf8 (v := '-'::Nat.toDigits 10 n) fun c member zero => by
    rcases List.mem_cons.mp member with rfl | member
    · cases zero
    · have := (digits_filled c member).1
      omega
  have bytes : utf8 ('-'::Nat.toDigits 10 n) = 45::utf8 (Nat.toDigits 10 n) := rfl
  rw [scanned,clean,bytes,List.dropWhile_cons_of_neg (by decide)]
  exact congrArg (Prod.mk true) (magnitude_printed n)

-- The port comes back as the unsigned short that the engine keeps.
theorem port_printed (target : Target) (n : Int) (low : -2^31 ≤ n) (high : n < 2^31) :
    toUnsignedShort (strtoul target (cut (utf8 (decimal n))) 10) = toUnsignedShort n := by
  cases n with
  | ofNat m =>
    have text : decimal (Int.ofNat m) = Nat.toDigits 10 m := by
      show (Nat.repr m).toList = _
      exact Nat.toList_repr
    have small : Int.ofNat m = (m : Int) := rfl
    rw [text,strtoul_small target (scanned_digits m) (by omega)]
    rfl
  | negSucc m =>
    have text : decimal (Int.negSucc m) = '-'::Nat.toDigits 10 (m+1) := by
      show ("-" ++ Nat.repr (m+1)).toList = _
      simp
    have small : Int.negSucc m = -((m+1 : Nat) : Int) := rfl
    have wide := long_wide target
    -- The width is a multiple of that of the port.
    have width : (2 : Int)^target.long = 2^16*2^(target.long-16) := by
      rw [← pow_add,Nat.add_sub_cancel' (Nat.le_trans (by decide) target.wide)]
    rw [text,strtoul,scanned_minus,small,toUnsignedShort,toUnsignedShort]
    simp only [if_true]
    rw [if_neg (by omega),width,Int.emod_emod_of_dvd _ (Int.dvd_mul_right _ _)]

def plainChar (c : Char) : Bool := wordChar c && printable c && c ≠ bom

theorem digit_plain {c : Char} (low : 48 ≤ c.toNat) (high : c.toNat ≤ 57) : plainChar c = true ∧ c ∉ indicators := by
  have all : ∀ k, k < 10 → plainChar (Char.ofNat (48+k)) = true ∧ Char.ofNat (48+k) ∉ indicators := by decide
  have here := all (c.toNat-48) (by omega)
  rwa [show 48+(c.toNat-48) = c.toNat by omega,Char.ofNat_toNat] at here

theorem plain_of {word : List Char} (filled : word ≠ []) (chars : ∀ c ∈ word, plainChar c = true)
    (first : ∀ c ∈ word.head?, c ∉ indicators ∨ c = '-' ∧ word.tail ≠ []) : Plain word ∧ ∀ c ∈ word, printable c = true := by
  have parts : ∀ c ∈ word, (wordChar c = true ∧ printable c = true) ∧ c ≠ bom := by
    intro c member
    simpa [plainChar] using chars c member
  exact ⟨⟨filled,fun c member => (parts c member).1.1,fun c head => ⟨(parts c (List.mem_of_mem_head? head)).2,first c head⟩⟩,
    fun c member => (parts c member).1.2⟩

theorem decimal_plain (n : Int) : Plain (decimal n) ∧ ∀ c ∈ decimal n, printable c = true := by
  have digits : ∀ m, ∀ c ∈ Nat.toDigits 10 m, plainChar c = true ∧ c ∉ indicators := fun m c member =>
    digit_plain (digits_filled c member).1 (digits_filled c member).2
  cases n with
  | ofNat m =>
    have text : decimal (Int.ofNat m) = Nat.toDigits 10 m := Nat.toList_repr
    rw [text]
    exact plain_of Nat.toDigits_ne_nil (fun c member => (digits m c member).1) fun c head =>
      .inl (digits m c (List.mem_of_mem_head? head)).2
  | negSucc m =>
    have text : decimal (Int.negSucc m) = '-'::Nat.toDigits 10 (m+1) := by
      show ("-" ++ Nat.repr (m+1)).toList = _
      simp
    rw [text]
    refine plain_of (List.cons_ne_nil _ _) ?_ ?_
    · intro c member
      rcases List.mem_cons.mp member with rfl | member
      · decide
      · exact (digits _ c member).1
    · intro c head
      cases Option.some.inj head
      exact .inr ⟨rfl,Nat.toDigits_ne_nil⟩

end Psocks.Config
