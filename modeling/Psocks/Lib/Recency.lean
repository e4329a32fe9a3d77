import Mathlib.Data.Finset.Card
import Mathlib.Data.List.Nodup

namespace Psocks.Recency
variable {α : Type} {past order xs : List α} {x y z : α} {capacity : Nat}

-- In `past`, some use of `y` comes after every use of `x`.
def Older (past : List α) (x y : α) : Prop := ∃ earlier later, past = earlier++y::later ∧ x ∉ y::later

def Aged (past order : List α) : Prop := order.Pairwise (Older past)

theorem Older.next (older : Older past x y) (ne : x ≠ z) : Older (past++[z]) x y := by
  obtain ⟨earlier,later,rfl,absent⟩ := older
  exact ⟨earlier,later++[z],by simp,by simpa [ne] using absent⟩

theorem older_last (ne : x ≠ y) : Older (past++[y]) x y := ⟨past,[],rfl,by simpa using ne⟩

theorem aged_push (aged : Aged past order) (fresh : y ∉ order) : Aged (past++[y]) (order++[y]) := by
  refine List.pairwise_append.mpr ⟨?_,List.pairwise_singleton _ _,?_⟩
  · refine List.Pairwise.imp_of_mem ?_ aged
    intro x z member _ older
    exact older.next fun same => fresh (same ▸ member)
  · intro x member z last
    rw [List.mem_singleton.mp last]
    exact older_last fun same => fresh (same ▸ member)

-- `x` is resident and everything used more recently than `x` is in `since`.
def Protected (since : Finset α) (order : List α) (x : α) : Prop :=
  ∃ older younger, order = older++x::younger ∧ ∀ y ∈ younger, y ∈ since

theorem Protected.mem {since : Finset α} (kept : Protected since order x) : x ∈ order := by
  obtain ⟨older,younger,rfl,_⟩ := kept
  simp

variable [DecidableEq α]

-- The residents of a bounded store, least recently used first.
def use (capacity : Nat) (order : List α) (x : α) : List α :=
  if x ∈ order then order.erase x++[x]
  else if order.length < capacity then order++[x]
  else order.tail++[x]

theorem use_nodup (distinct : order.Nodup) : (use capacity order x).Nodup := by
  have push : ∀ {rest : List α}, rest.Nodup → x ∉ rest → (rest++[x]).Nodup := fun rest fresh =>
    List.Nodup.append rest (List.nodup_singleton x) (by simpa using fresh)
  unfold use
  split
  · exact push (distinct.erase x) distinct.not_mem_erase
  · rename_i fresh
    split
    · exact push distinct fresh
    · exact push (List.Nodup.sublist (List.tail_sublist order) distinct)
        fun member => fresh (List.mem_of_mem_tail member)

theorem use_aged (distinct : order.Nodup) (aged : Aged past order) :
    Aged (past++[x]) (use capacity order x) := by
  unfold use
  split
  · exact aged_push (List.Pairwise.sublist List.erase_sublist aged) distinct.not_mem_erase
  · rename_i fresh
    split
    · exact aged_push aged fresh
    · exact aged_push (List.Pairwise.sublist (List.tail_sublist order) aged)
        fun member => fresh (List.mem_of_mem_tail member)

theorem use_bound (room : 0 < capacity) (fits : order.length ≤ capacity) :
    (use capacity order x).length ≤ capacity := by
  unfold use
  split
  · rename_i member
    have positive : 0 < order.length := List.length_pos_of_mem member
    simp only [List.length_append,List.length_erase_of_mem member,List.length_singleton]
    omega
  · split <;> (simp; omega)

theorem use_protects (since : Finset α) : Protected since (use capacity order x) x := by
  unfold use
  split
  · exact ⟨_,[],rfl,by simp⟩
  · split
    · exact ⟨_,[],rfl,by simp⟩
    · exact ⟨_,[],rfl,by simp⟩

-- The next use costs `x` its place only when the younger residents, together
-- with the newcomer, already fill the store.
theorem protected_step {since : Finset α} (distinct : order.Nodup) (fits : order.length ≤ capacity)
    (kept : Protected since order x) (recent : y = x ∨ y ∈ since) (outside : x ∉ since)
    (few : since.card < capacity) : Protected since (use capacity order y) x := by
  obtain ⟨older,younger,rfl,inside⟩ := kept
  rcases recent with rfl | used
  · exact use_protects since
  obtain ⟨olderDistinct,rest,apart⟩ := List.nodup_append'.mp distinct
  have ne : x ≠ y := fun same => outside (same ▸ used)
  have grown : ∀ z ∈ younger++[y], z ∈ since := by
    intro z member
    rcases List.mem_append.mp member with old | last
    · exact inside z old
    · rw [List.mem_singleton.mp last]; exact used
  unfold use
  split
  · rename_i member
    rcases List.mem_append.mp member with first | second
    · refine ⟨older.erase y,younger++[y],?_,grown⟩
      rw [List.erase_append_left _ first]; simp
    · have later : y ∈ younger := (List.mem_cons.mp second).resolve_left fun same => ne same.symm
      have fresh : y ∉ older := fun first => apart first second
      refine ⟨older,younger.erase y++[y],?_,?_⟩
      · rw [List.erase_append_right _ fresh,List.erase_cons_tail (by simpa using ne)]; simp
      · intro z reused
        rcases List.mem_append.mp reused with old | last
        · exact inside z (List.mem_of_mem_erase old)
        · rw [List.mem_singleton.mp last]; exact used
  · rename_i fresh
    split
    · exact ⟨older,younger++[y],by simp,grown⟩
    · rename_i full
      cases older with
      | cons oldest older => exact ⟨older,younger++[y],by simp,grown⟩
      | nil =>
        exfalso
        have newcomer : y ∉ younger := fun member => fresh (by simp [member])
        have distinctYounger : (younger++[y]).Nodup :=
          List.Nodup.append (List.nodup_cons.mp rest).2 (List.nodup_singleton y) (by simpa using newcomer)
        have counted : (younger++[y]).toFinset.card ≤ since.card :=
          Finset.card_le_card fun z member => grown z (List.mem_toFinset.mp member)
        rw [List.toFinset_card_of_nodup distinctYounger] at counted
        simp only [List.length_append,List.nil_append,List.length_cons] at counted full fits
        omega

def uses (capacity : Nat) (order : List α) (xs : List α) : List α := xs.foldl (use capacity) order

structure Resident (capacity : Nat) (order : List α) : Prop where
  distinct : order.Nodup
  fits : order.length ≤ capacity

theorem use_resident (room : 0 < capacity) (resident : Resident capacity order) :
    Resident capacity (use capacity order x) :=
  ⟨use_nodup resident.distinct,use_bound room resident.fits⟩

theorem uses_aged (resident : Resident capacity order) (room : 0 < capacity) (aged : Aged past order) :
    Aged (past++xs) (uses capacity order xs) := by
  induction xs generalizing order past with
  | nil => simpa [uses] using aged
  | cons x rest ih =>
    have stamped : Aged (past++[x]) (use capacity order x) := use_aged resident.distinct aged
    have next := ih (use_resident room resident) stamped
    simpa [uses] using next

-- Fewer than `capacity` other values cannot push out one that was just used.
theorem uses_protected (room : 0 < capacity) (resident : Resident capacity order) {since : Finset α}
    (kept : Protected since order x) (only : ∀ y ∈ xs, y = x ∨ y ∈ since) (outside : x ∉ since)
    (few : since.card < capacity) : Protected since (uses capacity order xs) x := by
  induction xs generalizing order with
  | nil => exact kept
  | cons y rest ih =>
    refine ih (use_resident room resident) ?_ fun z member => only z (List.mem_cons_of_mem _ member)
    exact protected_step resident.distinct resident.fits kept (only y (by simp)) outside few

end Psocks.Recency
