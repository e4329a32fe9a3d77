import Psocks.Misc.RingBuffer

namespace Psocks.CircularBuffer
open Cyclic Cells RingBuffer

-- The `max_size` bytes behind the header are addressed from 0.
structure HevCircularBuffer where
  rp : Nat
  useSize : Nat
  maxSize : Nat
  data : Nat → UInt8

-- `hev_malloc` leaves the data area as it was.
def hevCircularBufferNew (maxSize : Nat) (data : Nat → UInt8) : HevCircularBuffer := ⟨0,0,maxSize,data⟩

def hevCircularBufferReading (self : HevCircularBuffer) : List Iovec :=
  let upperSize := self.maxSize-self.rp
  if self.useSize = 0 then []
  else if self.useSize ≤ upperSize then [⟨self.rp,self.useSize⟩]
  else [⟨self.rp,upperSize⟩,⟨0,self.useSize-upperSize⟩]

def hevCircularBufferReadFinish (self : HevCircularBuffer) (size : Nat) : HevCircularBuffer :=
  {self with rp:=(self.rp+size) % self.maxSize,useSize:=self.useSize-size}

def hevCircularBufferWriting (self : HevCircularBuffer) : List Iovec :=
  let wp := (self.rp+self.useSize) % self.maxSize
  let upperSize := self.maxSize-wp
  let spcSize := self.maxSize-self.useSize
  if self.useSize = self.maxSize then []
  else if spcSize ≤ upperSize then [⟨wp,spcSize⟩]
  else [⟨wp,upperSize⟩,⟨0,spcSize-upperSize⟩]

def hevCircularBufferWriteFinish (self : HevCircularBuffer) (size : Nat) : HevCircularBuffer :=
  {self with useSize:=self.useSize+size}

-- `readv` into the offered regions, and what `writev` finds in them.
def HevCircularBuffer.fill (self : HevCircularBuffer) (iov : List Iovec) (bs : List UInt8) : HevCircularBuffer :=
  {self with data:=store self.data (Iovec.cells iov) bs}

def HevCircularBuffer.content (self : HevCircularBuffer) (iov : List Iovec) : List UInt8 := load self.data (Iovec.cells iov)

-- The bytes in the buffer, the oldest first.
structure Holds (b : HevCircularBuffer) (bs : List UInt8) : Prop where
  room : 0 < b.maxSize
  rp : b.rp < b.maxSize
  use : b.useSize = bs.length
  fits : b.useSize ≤ b.maxSize
  bytes : load b.data (window b.maxSize b.rp b.useSize) = bs

variable {b : HevCircularBuffer} {bs xs : List UInt8} {n size : Nat} {data : Nat → UInt8}

theorem new_holds (room : 0 < size) : Holds (hevCircularBufferNew size data) [] := ⟨room,room,rfl,Nat.zero_le _,rfl⟩

theorem reading_cells (holds : Holds b bs) : Iovec.cells (hevCircularBufferReading b) = window b.maxSize b.rp b.useSize := by
  have inside := holds.rp
  have fits := holds.fits
  unfold hevCircularBufferReading
  dsimp only
  split
  · rename_i empty
    simp [Iovec.cells,empty]
  · split
    · rename_i flat
      rw [window_flat (by omega)]
      simp [Iovec.cells]
    · rename_i split
      rw [window_split inside (by omega) fits]
      simp [Iovec.cells]

theorem writing_cells (holds : Holds b bs) :
    Iovec.cells (hevCircularBufferWriting b) = window b.maxSize (b.rp+b.useSize) (b.maxSize-b.useSize) := by
  have bound : (b.rp+b.useSize) % b.maxSize < b.maxSize := Nat.mod_lt _ holds.room
  unfold hevCircularBufferWriting
  dsimp only
  have wrap : window b.maxSize ((b.rp+b.useSize) % b.maxSize) (b.maxSize-b.useSize) = window b.maxSize (b.rp+b.useSize) (b.maxSize-b.useSize) := window_mod
  rw [← wrap]
  split
  · rename_i full
    simp [Iovec.cells,full]
  · split
    · rename_i flat
      rw [window_flat (by omega)]
      simp [Iovec.cells]
    · rename_i split
      rw [window_split bound (by omega) (Nat.sub_le _ _)]
      simp [Iovec.cells]

theorem reading_content (holds : Holds b bs) : b.content (hevCircularBufferReading b) = bs := by
  rw [HevCircularBuffer.content,reading_cells holds,holds.bytes]

theorem writing_total (holds : Holds b bs) : Iovec.total (hevCircularBufferWriting b) = b.maxSize-bs.length := by
  rw [← Iovec.cells_length,writing_cells holds,window_length,holds.use]

theorem reading_total (holds : Holds b bs) : Iovec.total (hevCircularBufferReading b) = bs.length := by
  rw [← Iovec.cells_length,reading_cells holds,window_length,holds.use]

theorem reading_none (holds : Holds b bs) : (hevCircularBufferReading b).length = 0 ↔ bs = [] := by
  have use := holds.use
  unfold hevCircularBufferReading
  dsimp only
  split
  · rename_i empty
    rw [empty] at use
    simpa using use.symm
  · rename_i some_
    have filled : bs ≠ [] := by
      rintro rfl
      exact some_ use
    split <;> simp [filled]

theorem writing_none (holds : Holds b bs) : (hevCircularBufferWriting b).length = 0 ↔ bs.length = b.maxSize := by
  rw [← holds.use]
  unfold hevCircularBufferWriting
  dsimp only
  split
  · rename_i full
    simp [full]
  · rename_i space
    split <;> simp [space]

-- What is read into the offered space comes behind what is there.
theorem write_holds (holds : Holds b bs) (small : xs.length ≤ Iovec.total (hevCircularBufferWriting b)) :
    Holds (hevCircularBufferWriteFinish (b.fill (hevCircularBufferWriting b) xs) xs.length) (bs++xs) := by
  have use := holds.use
  have fits := holds.fits
  rw [writing_total holds] at small
  have cells : (Iovec.cells (hevCircularBufferWriting b)).take xs.length = window b.maxSize (b.rp+b.useSize) xs.length := by
    rw [writing_cells holds,window_take (by omega)]
  have apart : List.Disjoint (window b.maxSize (b.rp+b.useSize) xs.length) (window b.maxSize b.rp b.useSize) := by
    have both : List.Disjoint (window b.maxSize b.rp b.useSize) (window b.maxSize (b.rp+b.useSize) xs.length) := window_disjoint (by omega)
    exact fun o new old => both old new
  have distinct : (window b.maxSize (b.rp+b.useSize) xs.length).Nodup := window_nodup (by omega)
  refine ⟨holds.room,holds.rp,?_,?_,?_⟩
  · simp only [hevCircularBufferWriteFinish,HevCircularBuffer.fill,List.length_append]
    omega
  · simp only [hevCircularBufferWriteFinish,HevCircularBuffer.fill]
    omega
  · simp only [hevCircularBufferWriteFinish,HevCircularBuffer.fill]
    rw [window_append,load,List.map_append,← store_take,cells]
    have old : load (store b.data (window b.maxSize (b.rp+b.useSize) xs.length) xs) (window b.maxSize b.rp b.useSize) = bs :=
      (load_frame apart).trans holds.bytes
    exact congrArg₂ _ old (load_store distinct (by simp))

theorem read_holds (holds : Holds b bs) (small : n ≤ bs.length) : Holds (hevCircularBufferReadFinish b n) (bs.drop n) := by
  have use := holds.use
  have fits := holds.fits
  refine ⟨holds.room,Nat.mod_lt _ holds.room,?_,?_,?_⟩
  · simp only [hevCircularBufferReadFinish,List.length_drop]
    omega
  · simp only [hevCircularBufferReadFinish]
    omega
  · simp only [hevCircularBufferReadFinish]
    rw [window_mod,← window_drop (by omega),load,List.map_drop]
    exact congrArg (List.drop n) holds.bytes

end Psocks.CircularBuffer
