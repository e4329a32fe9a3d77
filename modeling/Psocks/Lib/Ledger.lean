import Mathlib.Data.List.Count
import Mathlib.Data.List.Nodup
import Mathlib.Logic.Function.Basic

namespace Psocks.Ledger

-- What a program refers to: what it has acquired as the nth, or what its caller owns.
inductive Handle where
  | own (n : Nat)
  | foreign (n : Int)
deriving DecidableEq, Repr

-- The acquisitions and the releases in their order, and how many references there are to
-- what has not been released.
structure Book (κ : Type) where
  acquired : List κ
  released : List Handle
  refs : Handle → Int

variable {κ : Type} {b : Book κ} {held rest : List Handle} {h : Handle} {k : κ}

def blank : Book κ := ⟨[],[],fun _ => 0⟩

def Book.fresh (b : Book κ) : Handle := .own b.acquired.length

def Book.acquire (b : Book κ) (k : κ) : Book κ :=
  {b with acquired:=b.acquired++[k],refs:=Function.update b.refs b.fresh 1}

def Book.release (b : Book κ) (h : Handle) : Book κ := {b with released:=b.released++[h]}

def Book.ref (b : Book κ) (h : Handle) : Book κ := {b with refs:=Function.update b.refs h (b.refs h+1)}

-- The last reference releases.
def Book.unref (b : Book κ) (h : Handle) : Book κ :=
  let left := b.refs h-1
  let b := {b with refs:=Function.update b.refs h left}
  if left = 0 then b.release h else b

def Book.releaseHeld (b : Book κ) (p : Option Handle) : Book κ :=
  match p with
  | some h => b.release h
  | none => b

def Book.refHeld (b : Book κ) (p : Option Handle) : Book κ :=
  match p with
  | some h => b.ref h
  | none => b

def Book.unrefHeld (b : Book κ) (p : Option Handle) : Book κ :=
  match p with
  | some h => b.unref h
  | none => b

def Book.Issued (b : Book κ) (h : Handle) : Prop :=
  match h with
  | .own n => n < b.acquired.length
  | .foreign _ => False

instance (b : Book κ) (h : Handle) : Decidable (b.Issued h) := by
  cases h <;> unfold Book.Issued <;> infer_instance

@[simp] theorem acquire_released (b : Book κ) (k : κ) : (b.acquire k).released = b.released := rfl

@[simp] theorem release_released (b : Book κ) (h : Handle) : (b.release h).released = b.released++[h] := rfl

@[simp] theorem release_issued (b : Book κ) (h g : Handle) : (b.release h).Issued g ↔ b.Issued g := Iff.rfl

@[simp] theorem ref_released (b : Book κ) (h : Handle) : (b.ref h).released = b.released := rfl

@[simp] theorem ref_issued (b : Book κ) (h g : Handle) : (b.ref h).Issued g ↔ b.Issued g := Iff.rfl

theorem issued_same {c : Book κ} (same : c.acquired = b.acquired) : c.Issued h ↔ b.Issued h := by
  cases h with
  | own n => simp [Book.Issued,same]
  | foreign n => exact Iff.rfl

@[simp] theorem releaseHeld_acquired (b : Book κ) (p : Option Handle) : (b.releaseHeld p).acquired = b.acquired := by
  cases p <;> rfl

@[simp] theorem unrefHeld_acquired (b : Book κ) (p : Option Handle) : (b.unrefHeld p).acquired = b.acquired := by
  cases p with
  | none => rfl
  | some h =>
    simp only [Book.unrefHeld,Book.unref]
    split <;> rfl

-- All that has ever been acquired has been released, and once.
def Book.Settled (b : Book κ) : Prop := ∀ h, b.released.count h = if b.Issued h then 1 else 0

-- What has not been released is what `held` refers to, as often as it is counted.
structure Book.Owes (b : Book κ) (held : List Handle) : Prop where
  once : ∀ h, b.released.count h+(if h ∈ held then 1 else 0) = if b.Issued h then 1 else 0
  counted : ∀ h ∈ held, b.refs h = held.count h

theorem blank_settled : (blank : Book κ).Settled := by
  intro h
  cases h <;> simp [blank,Book.Issued]

theorem settled_owes (b : Book κ) : b.Settled ↔ b.Owes [] := by
  constructor
  · exact fun all => ⟨fun h => by simpa using all h,by simp⟩
  · exact fun owes h => by simpa using owes.once h

theorem fresh_unissued (b : Book κ) : ¬b.Issued b.fresh := by simp [Book.Issued,Book.fresh]

theorem issued_acquire (b : Book κ) (k : κ) (h : Handle) : (b.acquire k).Issued h ↔ b.Issued h ∨ h = b.fresh := by
  cases h with
  | own n => simp [Book.Issued,Book.acquire,Book.fresh]; omega
  | foreign n => simp [Book.Issued,Book.fresh]

theorem Book.Owes.issued (owes : b.Owes held) (member : h ∈ held) : b.Issued h := by
  have once := owes.once h
  rw [if_pos member] at once
  by_contra unissued
  rw [if_neg unissued] at once
  omega

theorem Book.Owes.unreleased (owes : b.Owes held) (member : h ∈ held) : b.released.count h = 0 := by
  have once := owes.once h
  rw [if_pos member,if_pos (owes.issued member)] at once
  omega

theorem Book.Owes.settled (owes : b.Owes held) : b.Settled ↔ held = [] := by
  constructor
  · intro all
    refine List.eq_nil_iff_forall_not_mem.mpr fun h member => ?_
    have once := all h
    rw [owes.unreleased member,if_pos (owes.issued member)] at once
    cases once
  · rintro rfl
    exact (settled_owes b).mpr owes

theorem Book.Owes.perm (owes : b.Owes held) (same : held.Perm rest) : b.Owes rest := by
  constructor
  · intro h
    simpa only [same.mem_iff] using owes.once h
  · intro h member
    rw [← same.count_eq]
    exact owes.counted h (same.mem_iff.mpr member)

theorem Book.Owes.acquire (owes : b.Owes held) (k : κ) : (b.acquire k).Owes (b.fresh::held) := by
  have out : b.fresh ∉ held := fun member => fresh_unissued b (owes.issued member)
  constructor
  · intro h
    have once := owes.once h
    simp only [issued_acquire,List.mem_cons]
    by_cases same : h = b.fresh
    · subst same
      rw [if_neg out,if_neg (fresh_unissued b)] at once
      simpa using once
    · simpa [same] using once
  · intro h member
    by_cases same : h = b.fresh
    · subst same
      simp [Book.acquire,List.count_eq_zero_of_not_mem out]
    · have member : h ∈ held := (List.mem_cons.mp member).resolve_left same
      simpa [Book.acquire,same,Ne.symm same] using owes.counted h member

theorem Book.Owes.ref (owes : b.Owes held) (member : h ∈ held) : (b.ref h).Owes (h::held) := by
  constructor
  · intro g
    have known : g ∈ h::held ↔ g ∈ held := by
      simp only [List.mem_cons,or_iff_right_iff_imp]
      rintro rfl
      exact member
    simpa only [known,ref_released,ref_issued] using owes.once g
  · intro g within
    by_cases same : g = h
    · subst same
      simp [Book.ref,owes.counted g member]
    · have within : g ∈ held := (List.mem_cons.mp within).resolve_left same
      simpa [Book.ref,same,Ne.symm same] using owes.counted g within

theorem Book.Owes.release (owes : b.Owes (h::held)) (apart : h ∉ held) : (b.release h).Owes held := by
  constructor
  · intro g
    have once := owes.once g
    simp only [release_released,release_issued,List.count_append,List.count_singleton]
    by_cases same : g = h
    · subst same
      simpa [apart] using once
    · simpa [same,Ne.symm same] using once
  · intro g member
    have other : g ≠ h := fun same => apart (same ▸ member)
    simpa [Book.release,Ne.symm other] using owes.counted g (List.mem_cons_of_mem h member)

theorem Book.Owes.unref (owes : b.Owes (h::held)) : (b.unref h).Owes held := by
  have refs : b.refs h = held.count h+1 := by simpa using owes.counted h List.mem_cons_self
  have kept : ∀ g ∈ held, Function.update b.refs h (b.refs h-1) g = held.count g := by
    intro g member
    by_cases same : g = h
    · subst same
      simp [refs]
    · simpa [same,Ne.symm same] using owes.counted g (List.mem_cons_of_mem h member)
  unfold Book.unref
  dsimp only
  by_cases more : h ∈ held
  · have positive : 0 < held.count h := List.count_pos_iff.mpr more
    rw [if_neg (by omega)]
    refine ⟨fun g => ?_,kept⟩
    have known : g ∈ h::held ↔ g ∈ held := by
      simp only [List.mem_cons,or_iff_right_iff_imp]
      rintro rfl
      exact more
    have once := owes.once g
    rw [if_congr known rfl rfl] at once
    exact once
  · have last : held.count h = 0 := List.count_eq_zero_of_not_mem more
    rw [if_pos (by omega)]
    exact ⟨(owes.release more).once,kept⟩

theorem Book.Owes.refHeld (p : Option Handle) (owes : b.Owes held) (member : ∀ h ∈ p, h ∈ held) :
    (b.refHeld p).Owes (p.toList++held) := by
  cases p with
  | none => exact owes
  | some h => exact owes.ref (member h rfl)

theorem Book.Owes.unrefHeld (p : Option Handle) (owes : b.Owes (p.toList++rest)) : (b.unrefHeld p).Owes rest := by
  cases p with
  | none => exact owes
  | some h => exact owes.unref

-- One reference to each.
structure Book.Keeps (b : Book κ) (held : List Handle) : Prop where
  owes : b.Owes held
  distinct : held.Nodup

theorem Book.Keeps.perm (keeps : b.Keeps held) (same : held.Perm rest) : b.Keeps rest :=
  ⟨keeps.owes.perm same,same.nodup_iff.mp keeps.distinct⟩

theorem Book.Keeps.acquire (keeps : b.Keeps held) (k : κ) : (b.acquire k).Keeps (b.fresh::held) :=
  ⟨keeps.owes.acquire k,List.nodup_cons.mpr ⟨fun member => fresh_unissued b (keeps.owes.issued member),keeps.distinct⟩⟩

theorem Book.Keeps.release (keeps : b.Keeps (h::held)) : (b.release h).Keeps held := by
  obtain ⟨apart,distinct⟩ := List.nodup_cons.mp keeps.distinct
  exact ⟨keeps.owes.release apart,distinct⟩

theorem Book.Keeps.releaseHeld (p : Option Handle) (keeps : b.Keeps (p.toList++rest)) : (b.releaseHeld p).Keeps rest := by
  cases p with
  | none => exact keeps
  | some h => exact keeps.release

theorem Book.Keeps.unrefHeld (p : Option Handle) (keeps : b.Keeps (p.toList++rest)) : (b.unrefHeld p).Keeps rest :=
  ⟨keeps.owes.unrefHeld p,(List.nodup_append'.mp keeps.distinct).2.1⟩

-- A second release shows.
theorem released_twice {c : Book κ} (settled : b.Settled) (issued : b.Issued h) (again : h ∈ rest)
    (released : c.released = b.released++rest) : ¬c.Settled := by
  intro all
  have before := settled h
  have after := all h
  have more : 0 < rest.count h := List.count_pos_iff.mpr again
  have most : (if c.Issued h then 1 else 0) ≤ 1 := by split <;> omega
  rw [if_pos issued] at before
  rw [released,List.count_append] at after
  omega

end Psocks.Ledger
