import Mathlib.Algebra.Group.Int.Defs
import Mathlib.Algebra.Group.Nat.Defs
import Psocks.Lib.Buckets
import Psocks.Lib.Linked
import Psocks.Lib.Runs
import Psocks.Lib.Stacks

namespace Psocks.Slices
open Buckets Linked Stacks

def cachedSliceAlign : Nat := 16

def maxCachedSliceIndex : Nat := 256

def maxCachedSliceCount : Nat := 1000

-- The allocator with the headers of all slices; a node of the LRU is its position in `lru_nodes`.
structure HevMemoryAllocatorSlice (ν : Type) where
  lruHead : Option Nat
  lruTail : Option Nat
  lruPrev : Nat → Option Nat
  lruNext : Nat → Option Nat
  cachedCount : Nat
  cachedMslices : Nat → Option ν
  next : ν → Option ν
  index : ν → Int

-- The allocator between libc, whose blocks have `room` bytes behind a slice's header, and its
-- callers, who have asked for the slices that they use.
structure Heap (ν : Type) where
  slices : HevMemoryAllocatorSlice ν
  blocks : List ν
  room : ν → Nat
  used : List ν
  asked : ν → Nat

def alignUp (size : Nat) : Nat := (size+cachedSliceAlign-1) % 2^64 / cachedSliceAlign * cachedSliceAlign

def toInt (n : Nat) : Int := (BitVec.ofNat 32 n).toInt

section Model
variable {ν : Type} [DecidableEq ν]

-- `malloc` leaves the nodes of the LRU and the headers as they were.
def hevMemoryAllocatorSliceNew (block : HevMemoryAllocatorSlice ν) : HevMemoryAllocatorSlice ν :=
  {block with lruHead:=none,lruTail:=none,cachedCount:=0,cachedMslices:=fun _ => none}

def lruInsert (s : HevMemoryAllocatorSlice ν) (node : Nat) : HevMemoryAllocatorSlice ν :=
  {s with lruNext:=Function.update s.lruNext node s.lruHead,lruPrev:=link (Function.update s.lruPrev node none) s.lruHead (some node),
          lruHead:=some node,lruTail:=if s.lruTail = none then some node else s.lruTail}

def lruRemove (s : HevMemoryAllocatorSlice ν) (node : Nat) : HevMemoryAllocatorSlice ν :=
  let next := link s.lruNext (s.lruPrev node) (s.lruNext node)
  let prev := link s.lruPrev (next node) (s.lruPrev node)
  {s with lruNext:=next,lruPrev:=prev,lruHead:=if s.lruHead = some node then next node else s.lruHead,
          lruTail:=if s.lruTail = some node then prev node else s.lruTail}

-- A cached slice is taken off its class, which becomes the one used last.
def takeCached (s : HevMemoryAllocatorSlice ν) (node : Nat) (slice : ν) : HevMemoryAllocatorSlice ν :=
  let owner := s.next slice
  let s := lruRemove {s with cachedMslices:=Function.update s.cachedMslices node owner,cachedCount:=s.cachedCount-1} node
  if owner ≠ none then lruInsert s node else s

-- `malloc`, which may have got a block.
def allocNew (h : Heap ν) (index : Int) (size : Nat) : Option ν → Heap ν × Option ν
  | none => (h,none)
  | some slice =>
    ({h with slices:={h.slices with index:=Function.update h.slices.index slice index},
             blocks:=slice::h.blocks,room:=Function.update h.room slice size},some slice)

def hevMemoryAllocatorAlloc (h : Heap ν) (size : Nat) (got : Option ν) : Heap ν × Option ν :=
  let size := alignUp size
  let index := toInt (size/cachedSliceAlign)
  if index = 0 then (h,none)
  else if 1 ≤ index ∧ index ≤ maxCachedSliceIndex then
    match h.slices.cachedMslices (index-1).toNat with
    | some slice => ({h with slices:=takeCached h.slices (index-1).toNat slice},some slice)
    | none => allocNew h (index-1) size got
  else allocNew h (-1) size got

-- Freeing what is no block of libc's is undefined.
def libcFree (h : Heap ν) (slice : ν) : Option (Heap ν) :=
  if slice ∈ h.blocks then some {h with blocks:=h.blocks.erase slice} else none

-- One slice of the class used longest ago goes back to libc.
def evict (h : Heap ν) : Option (Heap ν) := do
  let node ← h.slices.lruTail
  let freeSlice ← h.slices.cachedMslices node
  let owner := h.slices.next freeSlice
  let s := {h.slices with cachedMslices:=Function.update h.slices.cachedMslices node owner,cachedCount:=h.slices.cachedCount-1}
  libcFree {h with slices:=if owner = none then lruRemove s node else s} freeSlice

def makeRoom (h : Heap ν) : Option (Heap ν) := if h.slices.cachedCount ≥ maxCachedSliceCount then evict h else some h

def putCached (s : HevMemoryAllocatorSlice ν) (slice : ν) : HevMemoryAllocatorSlice ν :=
  let node := (s.index slice).toNat
  let owner := s.cachedMslices node
  let s := {s with next:=Function.update s.next slice owner,cachedMslices:=Function.update s.cachedMslices node (some slice),
                   cachedCount:=s.cachedCount+1}
  if owner = none then lruInsert s node else s

def hevMemoryAllocatorFree (h : Heap ν) (slice : ν) : Option (Heap ν) :=
  if h.slices.index slice < 0 then libcFree h slice
  else (makeRoom h).map fun h => {h with slices:=putCached h.slices slice}

-- What `realloc` got takes the place of the old block.
def reallocNew (h : Heap ν) (slice : ν) (size : Nat) (got : ν) : Heap ν :=
  let size := alignUp size
  let index := toInt (size/cachedSliceAlign)
  let index := if 1 ≤ index ∧ index ≤ maxCachedSliceIndex then index-1 else -1
  {h with slices:={h.slices with index:=Function.update h.slices.index got index},
          blocks:=got::h.blocks.erase slice,room:=Function.update h.room got size}

inductive Event (ν : Type) where
  | alloc (size : Nat) (got : Option ν)
  | free (slice : ν)
  | realloc (slice : ν) (size : Nat) (got : Option ν)

def handOut (h : Heap ν) (size : Nat) : Option ν → Heap ν
  | none => h
  | some slice => {h with used:=slice::h.used,asked:=Function.update h.asked slice size}

def takeBack (h : Heap ν) (slice : ν) : Heap ν := {h with used:=h.used.erase slice}

def step (h : Heap ν) : Event ν → Option (Heap ν)
  | .alloc size got =>
    let res := hevMemoryAllocatorAlloc h size got
    some (handOut res.1 size res.2)
  | .free slice => (hevMemoryAllocatorFree h slice).map (takeBack · slice)
  | .realloc slice size got =>
    if size = 0 then (hevMemoryAllocatorFree h slice).map (takeBack · slice)
    else
      match got with
      | none => some h
      | some new_ => some (handOut (takeBack (reallocNew h slice size new_) slice) size (some new_))

def freeChain : Nat → Heap ν → Option ν → Option (Heap ν)
  | _, h, none => some h
  | 0, _, some _ => none
  | fuel+1, h, some iter => (libcFree h iter).bind (freeChain fuel · (h.slices.next iter))

def destroyFrom : Nat → Heap ν → Option Nat → Option (Heap ν)
  | _, h, none => some h
  | 0, _, some _ => none
  | fuel+1, h, some node => (freeChain (fuel+1) h (h.slices.cachedMslices node)).bind (destroyFrom fuel · (h.slices.lruNext node))

def hevMemoryAllocatorDestroy (fuel : Nat) (h : Heap ν) : Option (Heap ν) := destroyFrom fuel h h.slices.lruHead

def heapNew (block : HevMemoryAllocatorSlice ν) (room asked : ν → Nat) : Heap ν := ⟨hevMemoryAllocatorSliceNew block,[],room,[],asked⟩

-- Requests of up to 2^36 bytes, and slices that are in use; libc's blocks are new.
def Fits (h : Heap ν) : Event ν → Prop
  | .alloc size got => size ≤ 2^36 ∧ ∀ q, got = some q → q ∉ h.blocks
  | .free slice => slice ∈ h.used
  | .realloc slice size got => slice ∈ h.used ∧ size ≤ 2^36 ∧ ∀ q, got = some q → q ∉ h.blocks.erase slice

end Model

variable {ν : Type} {bucket : Nat → List ν} {order : List Nat} {s : HevMemoryAllocatorSlice ν} {h h' : Heap ν} {p q : ν} {i : Nat} {rest xs : List ν}

-- The classes of cached slices, and those of them that are not empty from the one used last on.
structure Cached (bucket : Nat → List ν) (order : List Nat) (s : HevMemoryAllocatorSlice ν) : Prop where
  chains : ∀ i, Stacked s.next (s.cachedMslices i) (bucket i)
  ranked : Ranked bucket order
  lru : Chain s.lruNext s.lruPrev s.lruHead s.lruTail order
  count : s.cachedCount = (gather bucket order).length

-- A slice goes back to the class that its room is enough for, or to libc.
def Suits (index : Int) (room : Nat) : Prop := index = -1 ∨ ∃ i < maxCachedSliceIndex, index = i ∧ (i+1)*cachedSliceAlign ≤ room

structure Good (bucket : Nat → List ν) (order : List Nat) (h : Heap ν) : Prop where
  cached : Cached bucket order h.slices
  limit : h.slices.cachedCount ≤ maxCachedSliceCount
  whole : (h.used++gather bucket order).Perm h.blocks
  distinct : h.blocks.Nodup
  sized : ∀ i, ∀ p ∈ bucket i, i < maxCachedSliceIndex ∧ h.slices.index p = i ∧ (i+1)*cachedSliceAlign ≤ h.room p
  usable : ∀ p ∈ h.used, h.asked p ≤ h.room p ∧ Suits (h.slices.index p) (h.room p)

theorem in_gather (ranked : Ranked bucket order) (member : p ∈ bucket i) : p ∈ gather bucket order :=
  List.mem_flatMap.mpr ⟨i,(ranked.member i).mpr (List.ne_nil_of_mem member),member⟩

theorem good_apart (good : Good bucket order h) : (h.used++gather bucket order).Nodup := good.whole.nodup_iff.mpr good.distinct

theorem lru_remove (chain : Chain s.lruNext s.lruPrev s.lruHead s.lruTail order) (member : i ∈ order) :
    Chain (lruRemove s i).lruNext (lruRemove s i).lruPrev (lruRemove s i).lruHead (lruRemove s i).lruTail (order.erase i) := by
  obtain ⟨xs,ys,rfl⟩ := List.append_of_mem member
  have distinct := chain.distinct
  have absent : i ∉ xs := fun early => (List.nodup_append'.mp distinct).2.2 early List.mem_cons_self
  have late : i ∉ ys := (List.nodup_cons.mp (List.nodup_append'.mp distinct).2.1).1
  obtain ⟨before,after⟩ := chain_middle chain
  have unlinked := chain_unlink chain
  have shape : (xs++i::ys).erase i = xs++ys := by
    rw [List.erase_append_right _ absent,List.erase_cons_head]
  have forward : link s.lruNext (s.lruPrev i) (s.lruNext i) i = s.lruNext i := by
    apply link_other
    rw [before]
    exact fun same => absent (List.mem_of_getLast? same)
  have backward : link s.lruPrev (s.lruNext i) (s.lruPrev i) i = s.lruPrev i := by
    apply link_other
    rw [after]
    exact fun same => late (List.mem_of_head? same)
  have first : s.lruHead = some i ↔ s.lruPrev i = none := by
    rw [chain.head,before]
    cases xs with
    | nil => simp
    | cons x xs =>
      have other : x ≠ i := fun same => absent (same ▸ List.mem_cons_self)
      simp [other]
  have last : s.lruTail = some i ↔ s.lruNext i = none := by
    rw [chain.tail,after]
    cases ys with
    | nil => simp
    | cons y ys =>
      have other : some i ≠ (y::ys).getLast? := fun same => late (List.mem_of_getLast? same.symm)
      simp only [List.getLast?_append,List.getLast?_cons_cons,List.head?_cons,reduceCtorEq,iff_false]
      intro same
      rw [Option.or_of_isSome (by simp)] at same
      exact other same.symm
  rw [shape]
  simp only [lruRemove,forward,backward,first,last]
  exact unlinked

theorem lru_insert (chain : Chain s.lruNext s.lruPrev s.lruHead s.lruTail order) (fresh : i ∉ order) :
    Chain (lruInsert s i).lruNext (lruInsert s i).lruPrev (lruInsert s i).lruHead (lruInsert s i).lruTail (i::order) := chain_front chain fresh

-- What a class without its first slice leaves of the others.
theorem chains_pop (cached : Cached bucket order s) (shape : bucket i = p::rest) (j : Nat) :
    Stacked s.next (Function.update s.cachedMslices i (s.next p) j) (Function.update bucket i rest j) := by
  by_cases same : j = i
  · subst same
    rw [Function.update_self,Function.update_self]
    have chain := cached.chains j
    rw [shape] at chain
    exact chain.2
  · rw [Function.update_of_ne same,Function.update_of_ne same]
    exact cached.chains j

theorem pop_less {j : Nat} (shape : bucket i = p::rest) (member : q ∈ Function.update bucket i rest j) : q ∈ bucket j := by
  by_cases same : j = i
  · subst same
    rw [Function.update_self] at member
    simp [shape,member]
  · rwa [Function.update_of_ne same] at member

theorem pop_next (cached : Cached bucket order s) (shape : bucket i = p::rest) : s.next p = none ↔ rest = [] := by
  have chain := cached.chains i
  rw [shape] at chain
  exact stacked_empty chain.2

-- A class without its first slice, with an order in which it is or is not.
theorem gather_pop (cached : Cached bucket order s) (shape : bucket i = p::rest) {order' : List Nat} (distinct : order'.Nodup)
    (here : i ∈ order' ↔ rest ≠ []) (others : ∀ j, j ≠ i → (j ∈ order' ↔ j ∈ order)) :
    Ranked (Function.update bucket i rest) order' ∧ (gather bucket order).Perm (p::gather (Function.update bucket i rest) order') := by
  obtain ⟨ranked,perm⟩ := ranked_update cached.ranked distinct here others
  refine ⟨ranked,(gather_focus cached.ranked i).trans ?_⟩
  rw [shape]
  exact perm.symm.cons p

theorem cached_pop (cached : Cached bucket order s) (shape : bucket i = p::rest) :
    ∃ order', Cached (Function.update bucket i rest) order' (takeCached s i p) ∧
      (gather bucket order).Perm (p::gather (Function.update bucket i rest) order') := by
  have member : i ∈ order := (cached.ranked.member i).mpr (by simp [shape])
  have gone := cached.ranked.distinct.erase i
  have removed := lru_remove (s:={s with cachedMslices:=Function.update s.cachedMslices i (s.next p),cachedCount:=s.cachedCount-1}) cached.lru member
  by_cases empty : rest = []
  · obtain ⟨ranked,perm⟩ := gather_pop cached shape gone (by simp [empty,cached.ranked.distinct.not_mem_erase])
      fun j other => List.mem_erase_of_ne other
    have alone := (pop_next cached shape).mpr empty
    refine ⟨order.erase i,?_,perm⟩
    simp only [takeCached,alone,ne_eq,not_true_eq_false,if_false]
    rw [alone] at removed
    refine ⟨fun j => alone ▸ chains_pop cached shape j,ranked,removed,?_⟩
    change s.cachedCount-1 = _
    rw [cached.count,perm.length_eq]
    rfl
  · obtain ⟨ranked,perm⟩ := gather_pop cached shape (List.nodup_cons.mpr ⟨cached.ranked.distinct.not_mem_erase,gone⟩) (by simp [empty])
      fun j other => by rw [List.mem_cons,List.mem_erase_of_ne other]; simp [other]
    have more : s.next p ≠ none := fun alone => empty ((pop_next cached shape).mp alone)
    refine ⟨i::order.erase i,?_,perm⟩
    simp only [takeCached,if_pos more]
    refine ⟨fun j => chains_pop cached shape j,ranked,lru_insert removed cached.ranked.distinct.not_mem_erase,?_⟩
    change s.cachedCount-1 = _
    rw [cached.count,perm.length_eq]
    rfl

theorem cached_evict (cached : Cached bucket order s) (shape : bucket i = p::rest) :
    let s' := {s with cachedMslices:=Function.update s.cachedMslices i (s.next p),cachedCount:=s.cachedCount-1}
    ∃ order', Cached (Function.update bucket i rest) order' (if s.next p = none then lruRemove s' i else s') ∧
      (gather bucket order).Perm (p::gather (Function.update bucket i rest) order') := by
  intro s'
  have member : i ∈ order := (cached.ranked.member i).mpr (by simp [shape])
  have removed := lru_remove (s:=s') cached.lru member
  by_cases empty : rest = []
  · obtain ⟨ranked,perm⟩ := gather_pop cached shape (cached.ranked.distinct.erase i) (by simp [empty,cached.ranked.distinct.not_mem_erase])
      fun j other => List.mem_erase_of_ne other
    have alone := (pop_next cached shape).mpr empty
    refine ⟨order.erase i,?_,perm⟩
    rw [if_pos alone]
    refine ⟨fun j => chains_pop cached shape j,ranked,removed,?_⟩
    change s.cachedCount-1 = _
    rw [cached.count,perm.length_eq]
    rfl
  · obtain ⟨ranked,perm⟩ := gather_pop cached shape cached.ranked.distinct (by simp [empty,member]) fun j _ => Iff.rfl
    have more : s.next p ≠ none := fun alone => empty ((pop_next cached shape).mp alone)
    refine ⟨order,?_,perm⟩
    rw [if_neg more]
    refine ⟨fun j => chains_pop cached shape j,ranked,cached.lru,?_⟩
    change s.cachedCount-1 = _
    rw [cached.count,perm.length_eq]
    rfl

variable [DecidableEq ν]

theorem cached_put (cached : Cached bucket order s) (at_ : s.index p = i) (fresh : ∀ j, p ∉ bucket j) :
    ∃ order', Cached (Function.update bucket i (p::bucket i)) order' (putCached s p) ∧
      (gather (Function.update bucket i (p::bucket i)) order').Perm (p::gather bucket order) := by
  have node : (s.index p).toNat = i := by omega
  have chains : ∀ j, Stacked (Function.update s.next p (s.cachedMslices i)) (Function.update s.cachedMslices i (some p) j)
      (Function.update bucket i (p::bucket i) j) := by
    intro j
    by_cases same : j = i
    · subst same
      rw [Function.update_self,Function.update_self]
      exact stacked_push (cached.chains j) (fresh j)
    · rw [Function.update_of_ne same,Function.update_of_ne same]
      apply stacked_frame (cached.chains j)
      intro y member
      have apart : y ≠ p := fun equal => fresh j (equal ▸ member)
      exact Function.update_of_ne apart ..
  have focus := gather_focus cached.ranked i
  have counted : ∀ order', (gather (Function.update bucket i (p::bucket i)) order').Perm (p::gather bucket order) →
      s.cachedCount+1 = (gather (Function.update bucket i (p::bucket i)) order').length := by
    intro order' perm
    rw [perm.length_eq,cached.count]
    rfl
  by_cases empty : bucket i = []
  · have out : i ∉ order := fun member => (cached.ranked.member i).mp member empty
    have unique : (i::order).Nodup := List.nodup_cons.mpr ⟨out,cached.ranked.distinct⟩
    have here : i ∈ i::order ↔ p::bucket i ≠ [] := by simp
    obtain ⟨ranked,perm⟩ := ranked_update cached.ranked unique here fun j other => by simp [other]
    have perm := perm.trans (focus.symm.cons p)
    have alone : s.cachedMslices i = none := (stacked_empty (cached.chains i)).mpr empty
    refine ⟨i::order,?_,perm⟩
    simp only [putCached,node,if_pos alone]
    exact ⟨chains,ranked,lru_insert cached.lru out,counted _ perm⟩
  · have member : i ∈ order := (cached.ranked.member i).mpr empty
    have here : i ∈ order ↔ p::bucket i ≠ [] := by simp [member]
    obtain ⟨ranked,perm⟩ := ranked_update cached.ranked cached.ranked.distinct here fun j _ => Iff.rfl
    have perm := perm.trans (focus.symm.cons p)
    have more : s.cachedMslices i ≠ none := fun alone => empty ((stacked_empty (cached.chains i)).mp alone)
    refine ⟨order,?_,perm⟩
    simp only [putCached,node,if_neg more]
    exact ⟨chains,ranked,cached.lru,counted _ perm⟩

-- The index is an int, so that a request for more than 2^32 units may come to look like a small one.
theorem align_index {size : Nat} (small : size ≤ 2^36) :
    alignUp size = (size+15)/16*16 ∧ (0 < toInt (alignUp size/cachedSliceAlign) → toInt (alignUp size/cachedSliceAlign) = ((size+15)/16 : Nat)) := by
  have align : alignUp size = (size+15)/16*16 := by
    unfold alignUp cachedSliceAlign
    rw [Nat.mod_eq_of_lt (by omega)]
    rfl
  refine ⟨align,?_⟩
  rw [align]
  unfold toInt cachedSliceAlign
  rw [Nat.mul_div_cancel _ (by decide),BitVec.toInt_eq_toNat_cond,BitVec.toNat_ofNat]
  split <;> omega

-- One byte more, and a request comes to look like one of the smallest class.
example : toInt (alignUp (2^36+1)/cachedSliceAlign) = 1 := by decide

theorem new_good {size room : Nat} {index : Int} (good : Good bucket order h) (fresh : q ∉ h.blocks) (fits : size ≤ room) (suits : Suits index room) :
    Good bucket order (handOut {h with slices:={h.slices with index:=Function.update h.slices.index q index},
                                       blocks:=q::h.blocks,room:=Function.update h.room q room} size (some q)) := by
  have cached := good.cached
  have inside : ∀ p, p ∈ h.used ∨ (∃ i, p ∈ bucket i) → p ≠ q := by
    rintro p (member | ⟨i,member⟩) rfl
    · exact fresh (good.whole.subset (List.mem_append_left _ member))
    · exact fresh (good.whole.subset (List.mem_append_right _ (in_gather cached.ranked member)))
  refine ⟨⟨cached.chains,cached.ranked,cached.lru,cached.count⟩,good.limit,good.whole.cons q,List.nodup_cons.mpr ⟨fresh,good.distinct⟩,
    fun i p member => ?_,fun p member => ?_⟩
  · have other := inside p (.inr ⟨i,member⟩)
    simp only [handOut,Function.update_of_ne other]
    exact good.sized i p member
  · rcases List.mem_cons.mp member with rfl | member
    · simp only [handOut,Function.update_self]
      exact ⟨fits,suits⟩
    · have other := inside p (.inl member)
      simp only [handOut,Function.update_of_ne other]
      exact good.usable p member

theorem drop_good (good : Good bucket order h) (member : p ∈ h.used) :
    Good bucket order {h with used:=h.used.erase p,blocks:=h.blocks.erase p} := by
  refine ⟨good.cached,good.limit,?_,good.distinct.erase p,good.sized,fun q inside => good.usable q (List.mem_of_mem_erase inside)⟩
  have perm := good.whole.erase p
  rwa [List.erase_append_left _ member] at perm

omit [DecidableEq ν] in
theorem taken_index (s : HevMemoryAllocatorSlice ν) (i : Nat) (p : ν) : (takeCached s i p).index = s.index := by
  unfold takeCached
  dsimp only
  split <;> rfl

-- A cached slice goes to a caller whose request it is large enough for.
theorem take_good {size : Nat} (good : Good bucket order h) (shape : bucket i = p::rest) (fits : size ≤ h.room p) :
    ∃ order', Good (Function.update bucket i rest) order' (handOut {h with slices:=takeCached h.slices i p} size (some p)) := by
  have mine : p ∈ bucket i := by simp [shape]
  have inside := in_gather good.cached.ranked mine
  have unused : p ∉ h.used := fun member => (List.nodup_append'.mp (good_apart good)).2.2 member inside
  obtain ⟨order',cached,perm⟩ := cached_pop good.cached shape
  refine ⟨order',cached,?_,?_,good.distinct,fun j q member => ?_,fun q member => ?_⟩
  · have count := cached.count
    have before := good.cached.count
    have limit := good.limit
    rw [perm.length_eq,List.length_cons] at before
    change (takeCached h.slices i p).cachedCount ≤ _
    omega
  · refine List.Perm.trans ?_ good.whole
    refine List.Perm.trans ?_ (perm.symm.append_left h.used)
    exact List.perm_middle.symm
  · change j < _ ∧ (takeCached h.slices i p).index q = j ∧ (j+1)*cachedSliceAlign ≤ h.room q
    rw [taken_index]
    exact good.sized j q (pop_less shape member)
  · change Function.update h.asked p size q ≤ h.room q ∧ Suits ((takeCached h.slices i p).index q) (h.room q)
    rw [taken_index]
    rcases List.mem_cons.mp member with rfl | member
    · rw [Function.update_self]
      have old := good.sized i q mine
      exact ⟨fits,.inr ⟨i,old⟩⟩
    · have other : q ≠ p := fun same => unused (same ▸ member)
      rw [Function.update_of_ne other]
      exact good.usable q member

theorem alloc_good {size : Nat} {got : Option ν} (good : Good bucket order h) (small : size ≤ 2^36)
    (fresh : ∀ q, got = some q → q ∉ h.blocks) :
    ∃ bucket' order', Good bucket' order' (handOut (hevMemoryAllocatorAlloc h size got).1 size (hevMemoryAllocatorAlloc h size got).2) := by
  obtain ⟨align,exact_⟩ := align_index small
  have new_ : ∀ index, Suits index (alignUp size) →
      ∃ bucket' order', Good bucket' order' (handOut (allocNew h index (alignUp size) got).1 size (allocNew h index (alignUp size) got).2) := by
    intro index suits
    cases got with
    | none => exact ⟨bucket,order,good⟩
    | some q => exact ⟨bucket,order,new_good good (fresh q rfl) (by rw [align]; omega) suits⟩
  simp only [hevMemoryAllocatorAlloc]
  split
  · exact ⟨bucket,order,good⟩
  · split
    · rename_i range
      have index := exact_ (by omega)
      rw [index] at range ⊢
      obtain ⟨i,class_⟩ : ∃ i, (size+15)/16 = i+1 := ⟨(size+15)/16-1,by omega⟩
      have bound : i < maxCachedSliceIndex := by omega
      have node : (((size+15)/16 : Nat)-1 : Int) = i := by omega
      have enough : (i+1)*cachedSliceAlign = alignUp size := by
        rw [align,class_]
        rfl
      simp only [node,Int.toNat_natCast]
      split
      · rename_i p first
        have chain := good.cached.chains i
        rw [first] at chain
        obtain ⟨rest,shape,_⟩ := stacked_some chain
        have mine : p ∈ bucket i := by simp [shape]
        have fits : size ≤ h.room p := by
          have old := (good.sized i p mine).2.2
          omega
        obtain ⟨order',taken⟩ := take_good good shape fits
        exact ⟨_,order',taken⟩
      · exact new_ i (.inr ⟨i,bound,rfl,Nat.le_of_eq enough⟩)
    · exact new_ (-1) (.inl rfl)

theorem evict_good (good : Good bucket order h) (full : maxCachedSliceCount ≤ h.slices.cachedCount) :
    ∃ h' bucket' order', evict h = some h' ∧ Good bucket' order' h' ∧ h'.slices.cachedCount < maxCachedSliceCount ∧ h'.used = h.used ∧
      h'.slices.index = h.slices.index ∧ h'.room = h.room := by
  obtain ⟨j,last⟩ : ∃ j, order.getLast? = some j := by
    cases empty : order with
    | nil =>
      have count := good.cached.count
      rw [empty] at count
      have none_ : (gather bucket ([] : List Nat)).length = 0 := rfl
      unfold maxCachedSliceCount at full
      omega
    | cons i rest => exact ⟨_,List.getLast?_eq_some_getLast (List.cons_ne_nil i rest)⟩
  obtain ⟨q,rest,shape⟩ := List.exists_cons_of_ne_nil ((good.cached.ranked.member j).mp (List.mem_of_getLast? last))
  have chain := good.cached.chains j
  rw [shape] at chain
  have inside : q ∈ gather bucket order := in_gather good.cached.ranked (show q ∈ bucket j by simp [shape])
  have block := good.whole.subset (List.mem_append_right h.used inside)
  obtain ⟨order',cached,perm⟩ := cached_evict good.cached shape
  let s := {h.slices with cachedMslices:=Function.update h.slices.cachedMslices j (h.slices.next q),cachedCount:=h.slices.cachedCount-1}
  let s' := if h.slices.next q = none then lruRemove s j else s
  have evicted : evict h = some {h with slices:=s',blocks:=h.blocks.erase q} := by
    have tail : h.slices.lruTail = some j := good.cached.lru.tail.trans last
    exact Option.bind_eq_some_iff.mpr ⟨j,tail,Option.bind_eq_some_iff.mpr ⟨q,chain.1,if_pos block⟩⟩
  have index : s'.index = h.slices.index := by
    change (if h.slices.next q = none then lruRemove s j else s).index = _
    split <;> rfl
  have counted : s'.cachedCount = h.slices.cachedCount-1 := by
    change (if h.slices.next q = none then lruRemove s j else s).cachedCount = _
    split <;> rfl
  have limit := good.limit
  unfold maxCachedSliceCount at *
  refine ⟨_,_,order',evicted,⟨cached,?_,?_,good.distinct.erase q,fun i p member => ?_,fun p member => ?_⟩,?_,rfl,index,rfl⟩
  · change s'.cachedCount ≤ 1000
    omega
  · have whole := (perm.append_left h.used).symm.trans good.whole
    have gone := (List.perm_middle.symm.trans whole).erase q
    rwa [List.erase_cons_head] at gone
  · change i < _ ∧ s'.index p = i ∧ _
    rw [index]
    exact good.sized i p (pop_less shape member)
  · change _ ∧ Suits (s'.index p) _
    rw [index]
    exact good.usable p member
  · change s'.cachedCount < 1000
    omega

theorem room_good (good : Good bucket order h) :
    ∃ h' bucket' order', makeRoom h = some h' ∧ Good bucket' order' h' ∧ h'.slices.cachedCount < maxCachedSliceCount ∧ h'.used = h.used ∧
      h'.slices.index = h.slices.index ∧ h'.room = h.room := by
  by_cases full : h.slices.cachedCount ≥ maxCachedSliceCount
  · obtain ⟨h',bucket',order',evicted,rest⟩ := evict_good good full
    exact ⟨h',bucket',order',(if_pos full).trans evicted,rest⟩
  · exact ⟨h,bucket,order,if_neg full,good,Nat.lt_of_not_le full,rfl,rfl,rfl⟩

omit [DecidableEq ν] in
theorem insert_index (s : HevMemoryAllocatorSlice ν) (o : Option ν) (i : Nat) :
    (if o = none then lruInsert s i else s).index = s.index ∧ (if o = none then lruInsert s i else s).cachedCount = s.cachedCount := by
  split <;> exact ⟨rfl,rfl⟩

theorem put_good (good : Good bucket order h) (space : h.slices.cachedCount < maxCachedSliceCount) (member : p ∈ h.used)
    (bound : i < maxCachedSliceIndex) (at_ : h.slices.index p = i) (large : (i+1)*cachedSliceAlign ≤ h.room p) :
    ∃ bucket' order', Good bucket' order' (takeBack {h with slices:=putCached h.slices p} p) := by
  have fresh : ∀ j, p ∉ bucket j :=
    fun j inside => (List.nodup_append'.mp (good_apart good)).2.2 member (in_gather good.cached.ranked inside)
  obtain ⟨order',cached,perm⟩ := cached_put good.cached at_ fresh
  have index : (putCached h.slices p).index = h.slices.index := (insert_index ..).1
  have counted : (putCached h.slices p).cachedCount = h.slices.cachedCount+1 := (insert_index ..).2
  refine ⟨_,order',cached,?_,?_,good.distinct,fun j q inside => ?_,fun q inside => ?_⟩
  · change (putCached h.slices p).cachedCount ≤ _
    omega
  · have back : (p::h.used.erase p++gather bucket order).Perm h.blocks :=
      ((List.perm_cons_erase member).symm.append_right _).trans good.whole
    exact (perm.append_left _).trans (List.perm_middle.trans back)
  · change j < _ ∧ (putCached h.slices p).index q = j ∧ (j+1)*cachedSliceAlign ≤ h.room q
    rw [index]
    by_cases same : j = i
    · subst same
      rw [Function.update_self] at inside
      rcases List.mem_cons.mp inside with rfl | inside
      · exact ⟨bound,at_,large⟩
      · exact good.sized j q inside
    · rw [Function.update_of_ne same] at inside
      exact good.sized j q inside
  · change h.asked q ≤ h.room q ∧ Suits ((putCached h.slices p).index q) (h.room q)
    rw [index]
    exact good.usable q (List.mem_of_mem_erase inside)

theorem free_good (good : Good bucket order h) (member : p ∈ h.used) :
    ∃ h' bucket' order', (hevMemoryAllocatorFree h p).map (takeBack · p) = some h' ∧ Good bucket' order' h' := by
  rcases (good.usable p member).2 with big | ⟨i,bound,at_,large⟩
  · have block := good.whole.subset (List.mem_append_left _ member)
    have freed : hevMemoryAllocatorFree h p = some {h with blocks:=h.blocks.erase p} := by
      rw [hevMemoryAllocatorFree,if_pos (by omega),libcFree,if_pos block]
    exact ⟨_,bucket,order,congrArg (Option.map (takeBack · p)) freed,drop_good good member⟩
  · obtain ⟨h',bucket',order',made,good',space,used,index,room⟩ := room_good good
    obtain ⟨bucket'',order'',put⟩ := put_good good' space (used ▸ member) bound (by rw [index,at_]) (by rwa [room])
    refine ⟨_,bucket'',order'',?_,put⟩
    rw [hevMemoryAllocatorFree,if_neg (by omega),made]
    rfl

theorem realloc_good {size : Nat} (good : Good bucket order h) (member : p ∈ h.used) (small : size ≤ 2^36) (fresh : q ∉ h.blocks.erase p) :
    Good bucket order (handOut (takeBack (reallocNew h p size q) p) size (some q)) := by
  obtain ⟨align,exact_⟩ := align_index small
  refine new_good (drop_good good member) fresh (by rw [align]; omega) ?_
  split
  · rename_i range
    have index := exact_ (by omega)
    rw [index] at range ⊢
    refine .inr ⟨(size+15)/16-1,by omega,by omega,?_⟩
    rw [align,Nat.sub_add_cancel (by omega)]
    exact Nat.le_refl _
  · exact .inl rfl

theorem step_good {e : Event ν} (good : Good bucket order h) (fits : Fits h e) :
    ∃ h' bucket' order', step h e = some h' ∧ Good bucket' order' h' := by
  cases e with
  | alloc size got =>
    obtain ⟨bucket',order',good'⟩ := alloc_good good fits.1 fits.2
    exact ⟨_,bucket',order',rfl,good'⟩
  | free slice => exact free_good good fits
  | realloc slice size got =>
    obtain ⟨member,small,fresh⟩ := fits
    by_cases none_ : size = 0
    · obtain ⟨h',bucket',order',freed,good'⟩ := free_good good member
      exact ⟨h',bucket',order',(if_pos none_).trans freed,good'⟩
    · cases got with
      | none => exact ⟨h,bucket,order,if_neg none_,good⟩
      | some q => exact ⟨_,bucket,order,if_neg none_,realloc_good good member small (fresh q rfl)⟩

theorem run_good {events : List (Event ν)} (good : Good bucket order h) (fits : Runs.Along step Fits h events) :
    ∃ h' bucket' order', Runs.exec step h events = some h' ∧ Good bucket' order' h' := by
  induction events generalizing h bucket order with
  | nil => exact ⟨h,bucket,order,rfl,good⟩
  | cons e events ih =>
    obtain ⟨middle,bucket',order',first,good'⟩ := step_good good fits.1
    obtain ⟨h',bucket'',order'',rest,last⟩ := ih good' (fits.2 middle first)
    exact ⟨h',bucket'',order'',by rw [Runs.exec,first,Option.bind_some,rest],last⟩

omit [DecidableEq ν] in
theorem new_heap_good (block : HevMemoryAllocatorSlice ν) (room asked : ν → Nat) : Good (fun _ => []) [] (heapNew block room asked) := by
  refine ⟨⟨fun _ => rfl,⟨List.nodup_nil,by simp⟩,⟨List.nodup_nil,rfl,rfl,trivial⟩,rfl⟩,Nat.zero_le _,List.Perm.nil,List.nodup_nil,?_,?_⟩
  · simp
  · simp [heapNew]

variable {head : Option ν} {others : List ν} {fuel : Nat}

theorem chain_freed (stacked : Stacked h.slices.next head xs) (whole : (xs++others).Perm h.blocks) (enough : xs.length < fuel) :
    freeChain fuel h head = some {h with blocks:=h.blocks.diff xs} ∧ others.Perm (h.blocks.diff xs) := by
  induction xs generalizing fuel head h with
  | nil =>
    cases stacked
    exact ⟨by cases fuel <;> rfl,whole⟩
  | cons x rest ih =>
    obtain ⟨rfl,below⟩ := stacked
    obtain ⟨k,rfl⟩ : ∃ k, fuel = k+1 := ⟨fuel-1,by omega⟩
    have block : x ∈ h.blocks := whole.subset (by simp)
    have less : (rest++others).Perm (h.blocks.erase x) := by
      have gone := whole.erase x
      rwa [List.cons_append,List.erase_cons_head] at gone
    obtain ⟨freed,left⟩ := ih (h:={h with blocks:=h.blocks.erase x}) below less (Nat.lt_of_succ_lt_succ enough)
    rw [List.diff_cons]
    refine ⟨?_,left⟩
    rw [freeChain,libcFree,if_pos block,Option.bind_some]
    exact freed

theorem classes_freed {p : Option Nat} {prev : Nat → Option Nat} (chains : ∀ i, Stacked h.slices.next (h.slices.cachedMslices i) (bucket i))
    (links : Segment h.slices.lruNext prev p order none) (whole : (gather bucket order++others).Perm h.blocks)
    (enough : order.length+(gather bucket order).length < fuel) :
    destroyFrom fuel h order.head? = some {h with blocks:=h.blocks.diff (gather bucket order)} ∧ others.Perm (h.blocks.diff (gather bucket order)) := by
  induction order generalizing fuel h p with
  | nil => exact ⟨by cases fuel <;> rfl,whole⟩
  | cons i order ih =>
    obtain ⟨_,after,rest⟩ := links
    obtain ⟨k,rfl⟩ : ∃ k, fuel = k+1 := ⟨fuel-1,by omega⟩
    have split : gather bucket (i::order) = bucket i++gather bucket order := rfl
    rw [split,List.append_assoc] at whole
    rw [split,List.length_cons,List.length_append] at enough
    have short : (bucket i).length < k+1 := by omega
    obtain ⟨freed,left⟩ := chain_freed (chains i) whole short
    have later : order.length+(gather bucket order).length < k := by omega
    obtain ⟨ended,out⟩ := ih (h:={h with blocks:=h.blocks.diff (bucket i)}) chains rest left later
    rw [split,List.diff_append]
    refine ⟨?_,out⟩
    rw [List.head?_cons,destroyFrom,freed,Option.bind_some]
    rw [Option.or_none] at after
    rw [after]
    exact ended

-- Whatever is allocated, resized and freed: no slice is handed out twice at a time or with less room than was
-- asked for, a slice not in use is cached once, and libc gets back what is not cached and not in use; no more than
-- 1000 slices are cached, and `destroy` gives back all of them and none in use.
theorem slices_kept {events : List (Event ν)} (block : HevMemoryAllocatorSlice ν) (room asked : ν → Nat)
    (fits : Runs.Along step Fits (heapNew block room asked) events) :
    ∃ h idle, Runs.exec step (heapNew block room asked) events = some h ∧ (h.used++idle).Nodup ∧ (h.used++idle).Perm h.blocks ∧
      (∀ p ∈ h.used, h.asked p ≤ h.room p) ∧ h.slices.cachedCount = idle.length ∧ idle.length ≤ maxCachedSliceCount ∧
      ∃ bound blocks, blocks.Perm h.used ∧ ∀ fuel, bound < fuel → hevMemoryAllocatorDestroy fuel h = some {h with blocks:=blocks} := by
  obtain ⟨h,bucket,order,went,good⟩ := run_good (new_heap_good block room asked) fits
  have cached := good.cached
  have limit := good.limit
  rw [cached.count] at limit
  refine ⟨h,gather bucket order,went,good_apart good,good.whole,fun p member => (good.usable p member).1,cached.count,limit,?_⟩
  have turned := List.perm_append_comm.trans good.whole
  have freed : ∀ fuel, order.length+(gather bucket order).length < fuel →
      destroyFrom fuel h order.head? = some {h with blocks:=h.blocks.diff (gather bucket order)} ∧ h.used.Perm (h.blocks.diff (gather bucket order)) :=
    fun fuel enough => classes_freed cached.chains cached.lru.links turned enough
  refine ⟨order.length+(gather bucket order).length,h.blocks.diff (gather bucket order),(freed _ (Nat.lt_succ_self _)).2.symm,fun fuel enough => ?_⟩
  rw [hevMemoryAllocatorDestroy,cached.lru.head]
  exact (freed fuel enough).1

-- A slice that is freed comes back for a request of its class, and grows when it is resized.
def reuse : List (Event Nat) := [.alloc 100 (some 1),.alloc 5000 (some 2),.free 1,.alloc 97 none,.realloc 1 300 (some 3),.free 2]

def blankBlock : HevMemoryAllocatorSlice Nat := ⟨none,none,fun _ => none,fun _ => none,0,fun _ => none,fun _ => none,fun _ => 0⟩

theorem reuse_kept : ∃ h idle, Runs.exec step (heapNew blankBlock (fun _ => 0) fun _ => 0) reuse = some h ∧
    h.used = [3] ∧ h.asked 3 ≤ h.room 3 ∧ (h.used++idle).Perm h.blocks := by
  have fits : Runs.Along step Fits (heapNew blankBlock (fun _ => 0) fun _ => 0) reuse := by
    refine ⟨⟨by decide,?_⟩,fun s went => ?_⟩
    · rintro q ⟨⟩
      decide
    cases went
    refine ⟨⟨by decide,?_⟩,fun s went => ?_⟩
    · rintro q ⟨⟩
      decide
    cases went
    refine ⟨show 1 ∈ Heap.used _ by decide,fun s went => ?_⟩
    cases went
    refine ⟨⟨by decide,?_⟩,fun s went => ?_⟩
    · rintro q ⟨⟩
    cases went
    refine ⟨⟨by decide,by decide,?_⟩,fun s went => ?_⟩
    · rintro q ⟨⟩
      decide
    cases went
    exact ⟨show 2 ∈ Heap.used _ by decide,fun s went => trivial⟩
  obtain ⟨h,idle,went,_,whole,enough,_⟩ := slices_kept blankBlock (fun _ => 0) (fun _ => 0) fits
  have used : h.used = [3] := by
    cases went
    rfl
  exact ⟨h,idle,went,used,enough 3 (by simp [used]),whole⟩

end Psocks.Slices
