import Psocks.Lib.Bytes

namespace Psocks.Socks5
variable {stream body rest : List UInt8}

-- One datagram on a stream: the address as it is encoded, and the payload.
structure Frame where
  addr : List UInt8
  data : List UInt8
deriving DecidableEq, Repr

def udpBufSize : Nat := 1500

-- MSGLEN in two bytes, HDRLEN in one; HDRLEN counts the three bytes and the address.
def addrLength (hdrlen : UInt8) : Nat := hdrlen.toNat-3

def dataLength (high low : UInt8) : Nat := high.toNat*256+low.toNat

-- The lengths in a header of five bytes that the receiver has room for.
def Sound (high low hdrlen : UInt8) : Prop :=
  5 ≤ hdrlen.toNat ∧ addrLength hdrlen+dataLength high low ≤ udpBufSize

instance : Decidable (Sound high low hdrlen) := inferInstanceAs (Decidable (_ ∧ _))

def parseFrame : List UInt8 → Option (Frame × List UInt8)
  | high::low::hdrlen::rest =>
    if Sound high low hdrlen ∧ addrLength hdrlen+dataLength high low ≤ rest.length then
      some (⟨rest.take (addrLength hdrlen),(rest.drop (addrLength hdrlen)).take (dataLength high low)⟩,
        rest.drop (addrLength hdrlen+dataLength high low))
    else none
  | _ => none

theorem parse_shortens (parsed : parseFrame stream = some (frame,rest)) : rest.length < stream.length := by
  unfold parseFrame at parsed
  split at parsed
  · split at parsed
    · cases parsed
      simp only [List.length_drop,List.length_cons]
      omega
    · cases parsed
  · cases parsed

-- The frames of a stream, up to the first place where there is none.
def frames (stream : List UInt8) : List Frame :=
  match _parsed : parseFrame stream with
  | some (frame,rest) => frame::frames rest
  | none => []
termination_by stream.length
decreasing_by exact parse_shortens _parsed

theorem frames_cons (parsed : parseFrame stream = some (frame,rest)) : frames stream = frame::frames rest := by
  rw [frames]
  split
  · rename_i same
    rw [parsed] at same
    cases same
    rfl
  · rename_i same
    rw [parsed] at same
    cases same

theorem frames_none (parsed : parseFrame stream = none) : frames stream = [] := by
  rw [frames]
  split
  · rename_i same
    rw [parsed] at same
    cases same
  · rfl

-- Frames that are taken one after another from the front of a stream.
inductive Reads : List UInt8 → List Frame → List UInt8 → Prop where
  | nil {stream : List UInt8} : Reads stream [] stream
  | cons {stream middle rest : List UInt8} {frame : Frame} {later : List Frame} :
      parseFrame stream = some (frame,middle) → Reads middle later rest → Reads stream (frame::later) rest

theorem reads_shorter (reads : Reads stream fs rest) : rest.length ≤ stream.length := by
  induction reads with
  | nil => exact Nat.le_refl _
  | cons parsed _ ih => exact Nat.le_trans ih (Nat.le_of_lt (parse_shortens parsed))

-- A sound header, and behind it as many bytes as it says.
theorem parse_whole (atype len : UInt8) (sound : Sound high low hdrlen)
    (whole : body.length = addrLength hdrlen-2+dataLength high low) :
    parseFrame (high::low::hdrlen::atype::len::(body++rest)) =
      some (⟨atype::len::body.take (addrLength hdrlen-2),body.drop (addrLength hdrlen-2)⟩,rest) := by
  obtain ⟨k,narrow⟩ : ∃ k, addrLength hdrlen = k+2 :=
    ⟨addrLength hdrlen-2,by have := sound.1; unfold addrLength; omega⟩
  rw [narrow,Nat.add_sub_cancel] at whole
  have enough : k+2+dataLength high low ≤ (atype::len::(body++rest)).length := by
    simp only [List.length_cons,List.length_append]
    omega
  have addr : (body++rest).take k = body.take k := List.take_append_of_le_length (by omega)
  have data : ((body++rest).drop k).take (dataLength high low) = body.drop k := by
    rw [List.drop_append_of_le_length (by omega)]
    exact List.take_left' (by rw [List.length_drop]; omega)
  have behind : (body++rest).drop (k+dataLength high low) = rest := List.drop_left' whole
  rw [parseFrame,narrow,if_pos ⟨sound,enough⟩,Nat.add_sub_cancel,List.take_succ_cons,List.take_succ_cons,
    List.drop_succ_cons,List.drop_succ_cons,addr,data,Nat.add_right_comm,List.drop_succ_cons,List.drop_succ_cons,
    behind]

end Psocks.Socks5
