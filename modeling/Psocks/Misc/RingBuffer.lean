import Psocks.Lib.Cyclic
import Psocks.Lib.Cells
import Psocks.Lib.Runs

namespace Psocks.RingBuffer
open Cyclic Cells

-- One `struct iovec`; a base is the distance from `self->data`.
structure Iovec where
  base : Nat
  len : Nat
deriving DecidableEq, Repr

def Iovec.cells (iov : List Iovec) : List Nat := iov.flatMap fun v => List.range' v.base v.len

def Iovec.total (iov : List Iovec) : Nat := (iov.map Iovec.len).sum

theorem Iovec.cells_length (iov : List Iovec) : (Iovec.cells iov).length = Iovec.total iov := by
  induction iov with
  | nil => rfl
  | cons v rest ih => simp [Iovec.cells,Iovec.total,List.length_flatMap]

-- The `max_size` bytes behind the header are addressed from 0. All sizes are
-- sizes inside that one object, so no sum of two of them wraps `size_t`.
structure HevRingBuffer where
  rp : Nat
  wp : Nat
  rdaSize : Nat
  useSize : Nat
  maxSize : Nat
  data : Nat → UInt8

-- `alloca` leaves the data area as it was.
def hevRingBufferAlloca (s : Nat) (data : Nat → UInt8) : HevRingBuffer := ⟨0,0,0,0,s,data⟩

def hevRingBufferReading (self : HevRingBuffer) : List Iovec :=
  if self.rdaSize = 0 then []
  else
    let upperSize := self.maxSize - self.rp
    if self.rdaSize ≤ upperSize then [⟨self.rp,self.rdaSize⟩]
    else [⟨self.rp,upperSize⟩,⟨0,self.rdaSize - upperSize⟩]

def hevRingBufferReadFinish (self : HevRingBuffer) (size : Nat) : HevRingBuffer :=
  {self with rp:=(self.rp+size) % self.maxSize,rdaSize:=self.rdaSize - size}

def hevRingBufferReadRelease (self : HevRingBuffer) (size : Nat) : HevRingBuffer :=
  let useSize := self.useSize - size
  if useSize = 0 then {self with useSize:=useSize,rp:=0,wp:=0} else {self with useSize:=useSize}

def hevRingBufferWriting (self : HevRingBuffer) : List Iovec :=
  if self.useSize = self.maxSize then []
  else
    let upperSize := self.maxSize - self.wp
    let spcSize := self.maxSize - self.useSize
    if spcSize ≤ upperSize then [⟨self.wp,spcSize⟩]
    else [⟨self.wp,upperSize⟩,⟨0,spcSize - upperSize⟩]

def hevRingBufferWriteFinish (self : HevRingBuffer) (size : Nat) : HevRingBuffer :=
  {self with wp:=(self.wp+size) % self.maxSize,useSize:=self.useSize+size,rdaSize:=self.rdaSize+size}

-- `readv` on offered regions: the bytes go to the regions in order.
def HevRingBuffer.fill (self : HevRingBuffer) (iov : List Iovec) (bs : List UInt8) : HevRingBuffer :=
  {self with data:=store self.data (Iovec.cells iov) bs}

def HevRingBuffer.content (self : HevRingBuffer) (iov : List Iovec) : List UInt8 :=
  load self.data (Iovec.cells iov)

-- The cursors alone: no byte is mentioned.
structure Valid (r : HevRingBuffer) : Prop where
  room : 0 < r.maxSize
  unread : r.rdaSize ≤ r.useSize
  fits : r.useSize ≤ r.maxSize
  rp : r.rp < r.maxSize
  wp : r.wp < r.maxSize
  turn : (r.rp+r.rdaSize) % r.maxSize = r.wp

theorem alloca_valid (room : 0 < s) : Valid (hevRingBufferAlloca s data) :=
  ⟨room,Nat.le_refl _,Nat.zero_le _,room,room,Nat.zero_mod _⟩

theorem reading_cells (valid : Valid r) :
    Iovec.cells (hevRingBufferReading r) = window r.maxSize r.rp r.rdaSize := by
  have bound := valid.rp
  have fits := Nat.le_trans valid.unread valid.fits
  unfold hevRingBufferReading
  dsimp only
  split
  · rename_i empty
    simp [Iovec.cells,empty]
  · split
    · rename_i flat
      rw [window_flat (by omega)]
      simp [Iovec.cells]
    · rename_i split
      rw [window_split bound (by omega) fits]
      simp [Iovec.cells]

theorem writing_cells (valid : Valid r) :
    Iovec.cells (hevRingBufferWriting r) = window r.maxSize r.wp (r.maxSize - r.useSize) := by
  have bound := valid.wp
  unfold hevRingBufferWriting
  dsimp only
  split
  · rename_i full
    simp [Iovec.cells,full]
  · split
    · rename_i flat
      rw [window_flat (by omega)]
      simp [Iovec.cells]
    · rename_i split
      rw [window_split bound (by omega) (Nat.sub_le _ _)]
      simp [Iovec.cells]

theorem reading_total (valid : Valid r) : Iovec.total (hevRingBufferReading r) = r.rdaSize := by
  rw [← Iovec.cells_length,reading_cells valid,window_length]

theorem writing_total (valid : Valid r) :
    Iovec.total (hevRingBufferWriting r) = r.maxSize - r.useSize := by
  rw [← Iovec.cells_length,writing_cells valid,window_length]

theorem write_finish_valid (valid : Valid r) (small : size ≤ r.maxSize - r.useSize) :
    Valid (hevRingBufferWriteFinish r size) := by
  have unread := valid.unread
  have fits := valid.fits
  refine ⟨valid.room,?_,?_,valid.rp,Nat.mod_lt _ valid.room,?_⟩
  · simp only [hevRingBufferWriteFinish]; omega
  · simp only [hevRingBufferWriteFinish]; omega
  · simp only [hevRingBufferWriteFinish]
    rw [← valid.turn,Nat.mod_add_mod,Nat.add_assoc]

theorem read_finish_valid (valid : Valid r) (small : size ≤ r.rdaSize) :
    Valid (hevRingBufferReadFinish r size) := by
  have unread := valid.unread
  refine ⟨valid.room,?_,valid.fits,Nat.mod_lt _ valid.room,valid.wp,?_⟩
  · simp only [hevRingBufferReadFinish]; omega
  · simp only [hevRingBufferReadFinish]
    rw [Nat.mod_add_mod,← valid.turn]
    congr 1
    omega

theorem read_release_valid (valid : Valid r) (small : size ≤ r.useSize - r.rdaSize) :
    Valid (hevRingBufferReadRelease r size) := by
  have unread := valid.unread
  have fits := valid.fits
  unfold hevRingBufferReadRelease
  dsimp only
  split
  · rename_i empty
    have drained : r.rdaSize = 0 := by omega
    refine ⟨valid.room,?_,?_,valid.room,valid.room,?_⟩
    · simp [drained]
    · simp only; omega
    · simp [drained]
  · refine ⟨valid.room,?_,?_,valid.rp,valid.wp,valid.turn⟩
    · simp only; omega
    · simp only; omega

theorem fill_valid (valid : Valid r) : Valid (r.fill iov bs) :=
  ⟨valid.room,valid.unread,valid.fits,valid.rp,valid.wp,valid.turn⟩

-- What has gone through the buffer: every byte put, the cell it was put in, and
-- how many of them have been handed to the reader and released.
structure History where
  bytes : List UInt8
  place : List Nat
  read : Nat
  released : Nat

def History.empty : History := ⟨[],[],0,0⟩

def History.push (h : History) (bs : List UInt8) (cells : List Nat) : History :=
  {h with bytes:=h.bytes++bs,place:=h.place++cells.take bs.length}

structure Tracked where
  ring : HevRingBuffer
  history : History

inductive Step where
  | put (bs : List UInt8)
  | get (size : Nat)
  | release (size : Nat)

-- The three atomic steps of the session; a step outside its contract has no
-- successor.
def step (s : Tracked) : Step → Option Tracked
  | .put bs =>
    let iov := hevRingBufferWriting s.ring
    if bs.length ≤ Iovec.total iov then
      some ⟨hevRingBufferWriteFinish (s.ring.fill iov bs) bs.length,s.history.push bs (Iovec.cells iov)⟩
    else none
  | .get size =>
    if size ≤ Iovec.total (hevRingBufferReading s.ring) then
      some ⟨hevRingBufferReadFinish s.ring size,{s.history with read:=s.history.read+size}⟩
    else none
  | .release size =>
    if size ≤ s.ring.useSize - s.ring.rdaSize then
      some ⟨hevRingBufferReadRelease s.ring size,{s.history with released:=s.history.released+size}⟩
    else none

def run (s : Tracked) (actions : List Step) : Option Tracked := Runs.exec step s actions

-- Position of the oldest byte not released yet, before wrapping.
def oldest (r : HevRingBuffer) : Nat := r.rp+r.maxSize - (r.useSize - r.rdaSize)

structure Agrees (s : Tracked) : Prop where
  valid : Valid s.ring
  used : s.ring.useSize+s.history.released = s.history.bytes.length
  unread : s.ring.rdaSize+s.history.read = s.history.bytes.length
  placed : s.history.place.length = s.history.bytes.length
  live : s.history.place.drop s.history.released =
    window s.ring.maxSize (oldest s.ring) s.ring.useSize
  kept : load s.ring.data (s.history.place.drop s.history.released) =
    s.history.bytes.drop s.history.released

theorem start_agrees (room : 0 < size) :
    Agrees ⟨hevRingBufferAlloca size data,.empty⟩ :=
  ⟨alloca_valid room,rfl,rfl,rfl,rfl,rfl⟩

theorem oldest_next (valid : Valid r) :
    window r.maxSize (oldest r+r.useSize) len = window r.maxSize r.wp len := by
  have unread := valid.unread
  have fits := valid.fits
  have past : oldest r+r.useSize = (r.rp+r.rdaSize)+r.maxSize := by unfold oldest; omega
  rw [past,← window_mod,Nat.add_mod_right,valid.turn]

theorem oldest_write_finish : oldest (hevRingBufferWriteFinish r size) = oldest r := by
  simp only [oldest,hevRingBufferWriteFinish,Nat.add_sub_add_right]

theorem oldest_read_finish (valid : Valid r) (small : size ≤ r.rdaSize) :
    oldest (hevRingBufferReadFinish r size) % r.maxSize = oldest r % r.maxSize := by
  have unread := valid.unread
  have fits := valid.fits
  have bound := valid.rp
  simp only [oldest,hevRingBufferReadFinish]
  by_cases below : r.rp+size < r.maxSize
  · rw [Nat.mod_eq_of_lt below]
    congr 1
    omega
  · have turned : (r.rp+size) % r.maxSize = r.rp+size - r.maxSize := by
      rw [Nat.mod_eq_sub_mod (by omega),Nat.mod_eq_of_lt (by omega)]
    rw [turned,← Nat.add_mod_right]
    congr 1
    omega

theorem put_agrees (before : Agrees s) (small : bs.length ≤ Iovec.total (hevRingBufferWriting s.ring)) :
    Agrees ⟨hevRingBufferWriteFinish (s.ring.fill (hevRingBufferWriting s.ring) bs) bs.length,
      s.history.push bs (Iovec.cells (hevRingBufferWriting s.ring))⟩ := by
  have valid := before.valid
  have used := before.used
  have unread := before.unread
  have placed := before.placed
  have room : bs.length ≤ s.ring.maxSize - s.ring.useSize := by rw [← writing_total valid]; exact small
  have fresh : (Iovec.cells (hevRingBufferWriting s.ring)).take bs.length =
      window s.ring.maxSize s.ring.wp bs.length := by
    rw [writing_cells valid,window_take room]
  have apart : List.Disjoint (window s.ring.maxSize s.ring.wp bs.length)
      (window s.ring.maxSize (oldest s.ring) s.ring.useSize) := by
    have fits := valid.fits
    have both : List.Disjoint (window s.ring.maxSize (oldest s.ring) s.ring.useSize)
        (window s.ring.maxSize (oldest s.ring+s.ring.useSize) bs.length) := window_disjoint (by omega)
    rw [oldest_next valid] at both
    exact fun o new old => both old new
  refine ⟨write_finish_valid (fill_valid valid) room,?_,?_,?_,?_,?_⟩
  · simp only [History.push,hevRingBufferWriteFinish,HevRingBuffer.fill,List.length_append]; omega
  · simp only [History.push,hevRingBufferWriteFinish,HevRingBuffer.fill,List.length_append]; omega
  · simp only [History.push,fresh]; simp [placed]
  · simp only [History.push,fresh,oldest_write_finish]
    simp only [hevRingBufferWriteFinish,HevRingBuffer.fill]
    rw [List.drop_append_of_le_length (by omega),before.live,← oldest_next valid]
    exact (window_append _ _ _ _).symm
  · simp only [History.push,fresh]
    simp only [hevRingBufferWriteFinish,HevRingBuffer.fill]
    rw [List.drop_append_of_le_length (by omega),List.drop_append_of_le_length (by omega)]
    rw [← store_take,fresh,load,List.map_append]
    have fits := valid.fits
    have distinct : (window s.ring.maxSize s.ring.wp bs.length).Nodup := window_nodup (by omega)
    have old : load (store s.ring.data (window s.ring.maxSize s.ring.wp bs.length) bs)
        (window s.ring.maxSize (oldest s.ring) s.ring.useSize) =
        load s.ring.data (window s.ring.maxSize (oldest s.ring) s.ring.useSize) := load_frame apart
    rw [← before.live,before.kept] at old
    exact congrArg₂ _ old (load_store distinct (by simp))

theorem get_agrees (before : Agrees s) (small : size ≤ s.ring.rdaSize) :
    Agrees ⟨hevRingBufferReadFinish s.ring size,{s.history with read:=s.history.read+size}⟩ := by
  have unread := before.unread
  refine ⟨read_finish_valid before.valid small,before.used,?_,before.placed,?_,before.kept⟩
  · simp only [hevRingBufferReadFinish]; omega
  · rw [before.live,← window_mod,← oldest_read_finish before.valid small]
    simp only [hevRingBufferReadFinish]
    exact window_mod

theorem release_agrees (before : Agrees s) (small : size ≤ s.ring.useSize - s.ring.rdaSize) :
    Agrees ⟨hevRingBufferReadRelease s.ring size,{s.history with released:=s.history.released+size}⟩ := by
  have valid := before.valid
  have used := before.used
  have unread := before.unread
  have inside := valid.unread
  have fits := valid.fits
  have bound := valid.rp
  have dropped : s.history.place.drop (s.history.released+size) =
      window s.ring.maxSize (oldest s.ring+size) (s.ring.useSize - size) := by
    rw [← List.drop_drop,before.live,window_drop (by omega)]
  have rest : load s.ring.data (s.history.place.drop (s.history.released+size)) =
      s.history.bytes.drop (s.history.released+size) := by
    rw [← List.drop_drop,← List.drop_drop,← before.kept]
    simp [load,List.map_drop]
  refine ⟨read_release_valid valid small,?_,?_,before.placed,?_,?_⟩
  · unfold hevRingBufferReadRelease; dsimp only; split <;> (simp only; omega)
  · unfold hevRingBufferReadRelease; dsimp only; split <;> exact unread
  · simp only
    rw [dropped]
    unfold hevRingBufferReadRelease
    dsimp only
    split
    · rename_i empty
      simp [empty]
    · simp only [oldest]
      congr 1
      omega
  · unfold hevRingBufferReadRelease; dsimp only; split <;> exact rest

theorem step_agrees (before : Agrees s) (went : step s action = some next) : Agrees next := by
  cases action with
  | put bs =>
    simp only [step] at went
    split at went
    · rename_i small
      cases Option.some.inj went
      exact put_agrees before small
    · cases went
  | get size =>
    simp only [step] at went
    split at went
    · rename_i small
      cases Option.some.inj went
      exact get_agrees before (by rwa [reading_total before.valid] at small)
    · cases went
  | release size =>
    simp only [step] at went
    split at went
    · rename_i small
      cases Option.some.inj went
      exact release_agrees before small
    · cases went

theorem step_max (went : step s action = some next) : next.ring.maxSize = s.ring.maxSize := by
  cases action with
  | put bs =>
    simp only [step] at went
    split at went
    · cases Option.some.inj went; rfl
    · cases went
  | get size =>
    simp only [step] at went
    split at went
    · cases Option.some.inj went; rfl
    · cases went
  | release size =>
    simp only [step] at went
    split at went
    · cases Option.some.inj went
      simp only [hevRingBufferReadRelease]
      split <;> rfl
    · cases went

theorem run_agrees (before : Agrees s) (went : run s actions = some next) : Agrees next :=
  Runs.exec_invariant Agrees (fun _ _ _ => step_agrees) before went

theorem run_max (went : run s actions = some next) : next.ring.maxSize = s.ring.maxSize :=
  Runs.exec_constant (fun s => s.ring.maxSize) (fun _ _ _ => step_max) went

-- The cells `tcp_write` is given are the ones the unread bytes were put in.
theorem reading_places (agrees : Agrees s) :
    Iovec.cells (hevRingBufferReading s.ring) = s.history.place.drop s.history.read := by
  have unread := agrees.unread
  have used := agrees.used
  have inside := agrees.valid.unread
  have fits := agrees.valid.fits
  have order : s.history.read = s.history.released+(s.ring.useSize - s.ring.rdaSize) := by omega
  rw [reading_cells agrees.valid,order,← List.drop_drop,agrees.live,window_drop (Nat.sub_le _ _)]
  have turned : oldest s.ring+(s.ring.useSize - s.ring.rdaSize) = s.ring.rp+s.ring.maxSize := by
    unfold oldest; omega
  have whole : window s.ring.maxSize (s.ring.rp+s.ring.maxSize) s.ring.rdaSize =
      window s.ring.maxSize s.ring.rp s.ring.rdaSize := by
    rw [← window_mod,Nat.add_mod_right,window_mod]
  rw [turned,Nat.sub_sub_self inside,whole]

theorem reading_content (agrees : Agrees s) :
    s.ring.content (hevRingBufferReading s.ring) = s.history.bytes.drop s.history.read := by
  have unread := agrees.unread
  have used := agrees.used
  have inside := agrees.valid.unread
  have order : s.history.read = s.history.released+(s.ring.useSize - s.ring.rdaSize) := by omega
  have kept := agrees.kept
  rw [HevRingBuffer.content,reading_places agrees,order,← List.drop_drop,← List.drop_drop,← kept]
  simp [load,List.map_drop]

theorem live_cell (agrees : Agrees s) (held : s.history.released ≤ k) (put : k < s.history.bytes.length) :
    ∃ o, s.history.place[k]? = some o ∧ o ∈ window s.ring.maxSize (oldest s.ring) s.ring.useSize ∧
      s.history.bytes[k]? = some (s.ring.data o) := by
  have placed := agrees.placed
  obtain ⟨i,rfl⟩ := Nat.exists_eq_add_of_le held
  have inside : s.history.released+i < s.history.place.length := by omega
  have entry : s.history.place[s.history.released+i]? = some s.history.place[s.history.released+i] :=
    List.getElem?_eq_getElem inside
  have dropped : (s.history.place.drop s.history.released)[i]? = some s.history.place[s.history.released+i] := by
    rw [List.getElem?_drop,entry]
  refine ⟨_,entry,?_,?_⟩
  · rw [← agrees.live]
    exact List.mem_of_getElem? dropped
  · rw [← List.getElem?_drop,← agrees.kept,load,List.getElem?_map,dropped]
    rfl

theorem writing_free (agrees : Agrees s) (held : s.history.released ≤ k)
    (member : o ∈ Iovec.cells (hevRingBufferWriting s.ring)) : s.history.place[k]? ≠ some o := by
  intro same
  have fits := agrees.valid.fits
  have live : o ∈ s.history.place.drop s.history.released := by
    obtain ⟨i,rfl⟩ := Nat.exists_eq_add_of_le held
    exact List.mem_of_getElem? (by rwa [List.getElem?_drop])
  have apart : List.Disjoint (window s.ring.maxSize (oldest s.ring) s.ring.useSize)
      (window s.ring.maxSize (oldest s.ring+s.ring.useSize) (s.ring.maxSize - s.ring.useSize)) :=
    window_disjoint (by omega)
  rw [oldest_next agrees.valid,← agrees.live,← writing_cells agrees.valid] at apart
  exact apart live member

theorem ring_buffer_exact (room : 0 < size)
    (went : run ⟨hevRingBufferAlloca size data,.empty⟩ steps = some s) :
    (s.ring.maxSize = size ∧ s.ring.rdaSize ≤ s.ring.useSize ∧ s.ring.useSize ≤ size ∧
      s.ring.rp < size ∧ s.ring.wp < size ∧ (s.ring.rp+s.ring.rdaSize) % size = s.ring.wp) ∧
    (Iovec.total (hevRingBufferReading s.ring) = s.ring.rdaSize ∧
      Iovec.cells (hevRingBufferReading s.ring) = s.history.place.drop s.history.read ∧
      s.ring.content (hevRingBufferReading s.ring) = s.history.bytes.drop s.history.read) ∧
    (Iovec.total (hevRingBufferWriting s.ring) = size - s.ring.useSize ∧
      ∀ o ∈ Iovec.cells (hevRingBufferWriting s.ring), o < size ∧
        ∀ k, s.history.released ≤ k → s.history.place[k]? ≠ some o) ∧
    ∀ k, s.history.released ≤ k → k < s.history.bytes.length →
      ∃ o, s.history.place[k]? = some o ∧ o < size ∧ s.history.bytes[k]? = some (s.ring.data o) := by
  have agrees := run_agrees (start_agrees room) went
  have same : s.ring.maxSize = size := run_max went
  have valid := agrees.valid
  refine ⟨⟨same,valid.unread,same ▸ valid.fits,same ▸ valid.rp,same ▸ valid.wp,same ▸ valid.turn⟩,
    ⟨reading_total valid,reading_places agrees,reading_content agrees⟩,⟨?_,?_⟩,?_⟩
  · rw [writing_total valid,same]
  · intro o member
    refine ⟨?_,fun k held => writing_free agrees held member⟩
    rw [writing_cells valid] at member
    exact same ▸ window_bound valid.room member
  · intro k held put
    obtain ⟨o,place,inside,byte⟩ := live_cell agrees held put
    exact ⟨o,place,same ▸ window_bound valid.room inside,byte⟩

-- Four cells: two bytes acknowledged and reused while a third is still in flight.
theorem ring_buffer_exact_wrapped :
    run ⟨hevRingBufferAlloca 4 fun _ => 0,.empty⟩
      [.put [1,2,3],.get 3,.release 2,.put [4,5,6]] ≠ none ∧
    ∀ s, run ⟨hevRingBufferAlloca 4 fun _ => 0,.empty⟩
      [.put [1,2,3],.get 3,.release 2,.put [4,5,6]] = some s → (s.ring.rp+s.ring.rdaSize) % 4 = s.ring.wp :=
  ⟨by decide,fun _ went => (ring_buffer_exact (by decide) went).1.2.2.2.2.2⟩

end Psocks.RingBuffer
