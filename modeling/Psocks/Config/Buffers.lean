import Psocks.Config.Reload

namespace Psocks.Config
open Psocks.Variables
variable {target : Target} {s : Store} {doc : Document}

def InInt (n : Int) : Prop := -2^31 ≤ n ∧ n < 2^31

instance : Decidable (InInt n) := inferInstanceAs (Decidable (_ ∧ _))

-- As exact integers: what the splice loops put on a task's stack fits behind what every
-- task has, and neither the product nor the sum that says so leaves the range of int.
structure SoundBuffers (tcpBufferSize udpCopyBufferNums stackSize : Int) : Prop where
  tcp : 0 < tcpBufferSize ∧ tcpBufferSize ≤ tcpSndBuf
  udp : 0 < udpCopyBufferNums
  stack : taskStackSize+max tcpBufferSize (udpBufSize*udpCopyBufferNums) ≤ stackSize
  product : InInt (udpBufSize*udpCopyBufferNums)
  sum : InInt (taskStackSize+max tcpBufferSize (udpBufSize*udpCopyBufferNums))

def Sound (s : Store) : Prop :=
  SoundBuffers (hevConfigGetMiscTcpBufferSize s) (hevConfigGetMiscUdpCopyBufferNums s) (hevConfigGetMiscTaskStackSize s)

-- The value of a variable behind a document: the last it is given, or what it was.
def Document.leaves (doc : Document) (target : Target) (s : Store) (v : Static) : v.Ty := (doc.gives target v).getD (s v)

-- The most buffers whose product and sum are ints.
def mostBuffers : Int := 1431642

theorem to_int_inside (inside : InInt n) : toInt n = n := by
  obtain ⟨low,high⟩ := inside
  unfold toInt
  apply Int.bmod_eq_of_le <;> omega

theorem least_exact (tcp nums : Int) (product : InInt (udpBufSize*nums)) (sum : InInt (taskStackSize+max tcp (udpBufSize*nums))) :
    minTaskStackSize tcp nums = taskStackSize+max tcp (udpBufSize*nums) := by
  unfold minTaskStackSize
  dsimp only
  rw [to_int_inside product]
  split
  · rename_i above
    have larger : max tcp (udpBufSize*nums) = tcp := Int.max_eq_left (Int.le_of_lt above)
    rw [larger] at sum ⊢
    exact to_int_inside sum
  · rename_i below
    have larger : max tcp (udpBufSize*nums) = udpBufSize*nums := Int.max_eq_right (Int.not_lt.mp below)
    rw [larger] at sum ⊢
    exact to_int_inside sum

theorem clamped_sound (tcp nums stack : Int) :
    SoundBuffers (min tcp tcpSndBuf) nums (max stack (minTaskStackSize (min tcp tcpSndBuf) nums)) ↔
      0 < tcp ∧ 0 < nums ∧ nums ≤ mostBuffers := by
  constructor
  · intro sound
    obtain ⟨low,_⟩ := sound.tcp
    obtain ⟨_,bounded⟩ := sound.sum
    unfold taskStackSize udpBufSize at bounded
    unfold mostBuffers
    exact ⟨by omega,sound.udp,by omega⟩
  · intro ⟨low,some_,few⟩
    unfold mostBuffers at few
    have product : InInt (udpBufSize*nums) := by
      unfold InInt udpBufSize
      omega
    have sum : InInt (taskStackSize+max (min tcp tcpSndBuf) (udpBufSize*nums)) := by
      unfold InInt taskStackSize tcpSndBuf udpBufSize
      omega
    refine ⟨?_,some_,?_,product,sum⟩
    · unfold tcpSndBuf
      omega
    · rw [least_exact _ _ product sum]
      exact Int.le_max_right _ _

theorem buffers_exact (fine : (hevConfigParseDoc target doc s).1 = true) : Sound (hevConfigParseDoc target doc s).2 ↔
    0 < doc.leaves target s .tcpBufferSize ∧ 0 < doc.leaves target s .udpCopyBufferNums ∧ doc.leaves target s .udpCopyBufferNums ≤ mostBuffers := by
  have taken : hevConfigParseDoc target doc s = (true,clamp (run (doc.assignments target) s)) := init_run fine s
  have tcp : clamp (run (doc.assignments target) s) .tcpBufferSize = min (doc.leaves target s .tcpBufferSize) tcpSndBuf := by
    rw [clamp_buffer,gives_plain (by decide) (by decide),Document.leaves]
  have nums : clamp (run (doc.assignments target) s) .udpCopyBufferNums = doc.leaves target s .udpCopyBufferNums := by
    rw [clamp_other (by decide) (by decide),gives_plain (by decide) (by decide),Document.leaves]
  rw [taken]
  show SoundBuffers (clamp (run (doc.assignments target) s) .tcpBufferSize) (clamp (run (doc.assignments target) s) .udpCopyBufferNums)
    (clamp (run (doc.assignments target) s) .taskStackSize) ↔ _
  rw [clamp_stack,tcp,nums]
  exact clamped_sound _ _ _

-- A size that has a low half of 65535, many buffers and a small stack: a long of 32 bits makes -1 of the size.
def roomy : Document :=
  sectionAlone "misc" [(4,5),(6,7),(8,9)] ["tcp-buffer-size","4295032831","udp-copy-buffer-nums","400","task-stack-size","20480"]

theorem buffers_exact_roomy : (hevConfigParseDoc lp64 roomy loaded).1 = true ∧ (hevConfigParseDoc ilp32 roomy loaded).1 = true ∧
    hevConfigGetMiscTcpBufferSize (hevConfigParseDoc lp64 roomy loaded).2 = 65528 ∧
    hevConfigGetMiscTaskStackSize (hevConfigParseDoc lp64 roomy loaded).2 = 620480 ∧
    hevConfigGetMiscTcpBufferSize (hevConfigParseDoc ilp32 roomy loaded).2 = -1 ∧
    Sound (hevConfigParseDoc lp64 roomy loaded).2 ∧ ¬Sound (hevConfigParseDoc ilp32 roomy loaded).2 :=
  ⟨by decide,by decide,by decide,by decide,by decide,(buffers_exact (by decide)).mpr (by decide),
    fun sound => absurd ((buffers_exact (by decide)).mp sound).1 (by decide)⟩

-- One buffer more than there may be: the sum wraps around, and the stack stays as it is.
def crowded : Document := sectionAlone "misc" [(4,5)] ["udp-copy-buffer-nums","1431643"]

theorem crowded_unsound : (hevConfigParseDoc lp64 crowded loaded).1 = true ∧
    hevConfigGetMiscUdpCopyBufferNums (hevConfigParseDoc lp64 crowded loaded).2 = 1431643 ∧
    hevConfigGetMiscTaskStackSize (hevConfigParseDoc lp64 crowded loaded).2 = 86016 ∧ ¬Sound (hevConfigParseDoc lp64 crowded loaded).2 := by
  have nums : hevConfigGetMiscUdpCopyBufferNums (hevConfigParseDoc lp64 crowded loaded).2 = 1431643 := by decide
  refine ⟨by decide,nums,by decide,fun sound => ?_⟩
  obtain ⟨_,bounded⟩ := sound.sum
  rw [nums] at bounded
  unfold taskStackSize udpBufSize at bounded
  omega

end Psocks.Config
