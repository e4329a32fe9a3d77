import Psocks.Lib.Runs
import Psocks.Socks5.UdpDatagram

namespace Psocks.Socks5
open Psocks.Task

-- The receiving direction of a relay: what the socket is connected to, `res_f` of the
-- splice loop, and where the datagrams that were returned to `fwd_f` came from.
structure Association where
  peer : Option SockaddrIn6
  resF : Int
  returned : List SockaddrIn6
deriving DecidableEq

-- What one turn of `fwd_f` meets; `onward` is what it makes of the datagrams it got.
structure Intake where
  stack : List (Vector UInt8 1500)
  connects : Bool
  errno : Nat
  arrival : Arrival
  onward : Int

def Arrival.datagrams : Arrival → List Datagram
  | .batch ds => ds
  | .failed _ => []

-- At most as many datagrams as there are slots, and from nobody but the peer once
-- there is one.
def Intake.possible (intake : Intake) (peer : Option SockaddrIn6) : Prop :=
  intake.arrival.datagrams.length ≤ intake.stack.length ∧
    ∀ d ∈ intake.arrival.datagrams, ∀ p ∈ peer, d.source = p

instance (intake : Intake) : Decidable (intake.possible peer) := inferInstanceAs (Decidable (_ ∧ _))

def unassociated : Association := ⟨none,1,[]⟩

def takeIn (s : Association) (intake : Intake) : Option Association :=
  if ¬intake.possible s.peer then none
  else if s.resF < 0 then some s
  else
    let received := hevSocks5UdpRecvmmsgUdp (slots intake.stack) s.peer intake.connects intake.errno intake.arrival
    let returned := (intake.arrival.datagrams.take received.res.toNat).map Datagram.source
    let res := if 0 < received.res then intake.onward else if received.res = -1 ∧ received.errno = eagain then 0 else -1
    some ⟨received.peer,res,s.returned++returned⟩

-- As the slot holds it.
def Datagram.cut (d : Datagram) : Datagram := {d with data:=d.data.take udpBufSize}

-- The batch that associates the socket is all from where its first datagram came from,
-- unless it is given up.
def OneSource (s : Association) (intake : Intake) : Prop :=
  intake.possible s.peer → ¬s.resF < 0 → s.peer = none → intake.connects = true →
    (¬∃ d ∈ intake.arrival.datagrams, Refused d.cut) →
    ∀ first ∈ intake.arrival.datagrams.head?, ∀ d ∈ intake.arrival.datagrams, d.source = first.source

variable {s next : Association} {intake : Intake} {ds : List Datagram} {stack : List (Vector UInt8 1500)}

theorem unpack_cut (ds : List Datagram) : unpackBatch (slots stack) (ds.map Datagram.cut) = unpackBatch (slots stack) ds := by
  induction ds generalizing stack with
  | nil => rfl
  | cons d ds ih =>
    cases stack with
    | nil => rfl
    | cons mem stack =>
      have one : unpackDatagram (freshSlot mem.toList) d.cut = unpackDatagram (freshSlot mem.toList) d := by
        simp only [unpackDatagram,freshSlot,Datagram.cut,List.take_take,Nat.min_self]
        rfl
      have later := @ih stack
      unfold slots at later
      simp only [slots,List.map_cons,unpackBatch,one,later]

-- A peer stays; a batch that is returned has made its first source the peer.
theorem batch_received {peer : Option SockaddrIn6} {first : Datagram} {later : List Datagram}
    (room : (first::later).length ≤ stack.length)
    (received : hevSocks5UdpRecvmmsgUdp (slots stack) peer connects errno (.batch (first::later)) = result) :
    (∀ p ∈ peer, result.peer = some p) ∧ (result.res = -1 ∧ (peer = none ∧ connects = false ∨ ∃ d ∈ first::later, Refused d.cut) ∨
      result.res = (first::later).length ∧ result.peer = some (peer.getD first.source) ∧
        ¬(peer = none ∧ connects = false) ∧ ¬∃ d ∈ first::later, Refused d.cut) := by
  have short : ∀ d ∈ (first::later).map Datagram.cut, d.data.length ≤ udpBufSize := by
    intro d member
    obtain ⟨x,_,rfl⟩ := List.mem_map.mp member
    exact List.length_take_le _ _
  have refused := (unpack_batch short (by rwa [List.length_map])).1
  rw [unpack_cut] at refused
  simp only [hevSocks5UdpRecvmmsgUdp] at received
  by_cases alone : peer = none ∧ connects = false
  · rw [if_pos alone] at received
    subst received
    exact ⟨fun p same => (by rw [alone.1] at same; cases same),.inl ⟨rfl,.inl alone⟩⟩
  · rw [if_neg alone] at received
    cases filled : unpackBatch (slots stack) (first::later) with
    | none =>
      rw [filled] at received
      subst received
      obtain ⟨_,member,wrong⟩ := refused.mp filled
      obtain ⟨d,inside,rfl⟩ := List.mem_map.mp member
      exact ⟨fun p same => (by rw [Option.mem_def.mp same]; rfl),.inl ⟨rfl,.inr ⟨d,inside,wrong⟩⟩⟩
    | some msgv =>
      rw [filled] at received
      subst received
      refine ⟨fun p same => (by rw [Option.mem_def.mp same]; rfl),.inr ⟨rfl,rfl,alone,?_⟩⟩
      rintro ⟨d,member,wrong⟩
      have given := refused.mpr ⟨d.cut,List.mem_map_of_mem member,wrong⟩
      rw [filled] at given
      cases given

-- A batch that is given up is not returned.
theorem returned_whole {peer : Option SockaddrIn6} {first : Datagram} {later : List Datagram}
    (room : (first::later).length ≤ stack.length) (whole : ¬∃ d ∈ first::later, Refused d.cut) (connected : connects = true)
    (received : hevSocks5UdpRecvmmsgUdp (slots stack) peer connects errno (.batch (first::later)) = result) :
    result.res = (first::later).length ∧ result.peer = some (peer.getD first.source) := by
  rcases (batch_received room received).2 with ⟨_,⟨_,refused⟩ | broken⟩ | ⟨all,peer,_⟩
  · cases connected.symm.trans refused
  · exact (whole broken).elim
  · exact ⟨all,peer⟩

def OnePeer (s : Association) : Prop := ∀ source ∈ s.returned, s.peer = some source

theorem stays_peer {peer : Option SockaddrIn6} (before : OnePeer s) (kept : ∀ p ∈ s.peer, peer = some p) :
    ∀ source ∈ s.returned, peer = some source :=
  fun source member => kept source (before source member)

theorem batch_peer {first : Datagram} {later : List Datagram} (before : OnePeer s) (came : intake.arrival = .batch (first::later))
    (possible : intake.possible s.peer) (running : ¬s.resF < 0) (went : takeIn s intake = some next) :
    OnePeer next ↔ OneSource s intake := by
  have room : (first::later).length ≤ intake.stack.length := by
    have enough := possible.1
    rwa [came] at enough
  have kernel := possible.2
  unfold takeIn at went
  rw [if_neg (not_not.mpr possible),if_neg running,came] at went
  generalize received : hevSocks5UdpRecvmmsgUdp (slots intake.stack) s.peer intake.connects intake.errno (.batch (first::later)) = result at went
  unfold OneSource
  rw [came] at kernel ⊢
  simp only [Arrival.datagrams] at went kernel ⊢
  cases went
  obtain ⟨kept,outcome⟩ := batch_received room received
  constructor
  · intro after _ _ fresh connected whole start head d member
    cases head
    obtain ⟨all,peer⟩ := returned_whole room whole connected received
    have mine := after d.source (by
      rw [all,Int.toNat_natCast,List.take_of_length_le (Nat.le_refl _)]
      exact List.mem_append_right _ (List.mem_map_of_mem member))
    rw [fresh] at peer
    exact (Option.some.inj (peer.symm.trans mine)).symm
  · intro single source member
    rw [List.mem_append] at member
    rcases member with old | new
    · exact stays_peer before kept source old
    rcases outcome with ⟨failed,_⟩ | ⟨all,peer,joined,whole⟩
    · rw [failed] at new
      cases new
    · rw [all,Int.toNat_natCast,List.take_of_length_le (Nat.le_refl _)] at new
      obtain ⟨d,member,rfl⟩ := List.mem_map.mp new
      simp only [peer]
      cases associated : s.peer with
      | some p =>
        rw [kernel d member p associated]
        rfl
      | none =>
        have connected : intake.connects = true := Bool.not_eq_false _ ▸ fun refused => joined ⟨associated,refused⟩
        rw [single possible running associated connected whole first rfl d member]
        rfl

theorem take_in_peer (before : OnePeer s) (went : takeIn s intake = some next) : OnePeer next ↔ OneSource s intake := by
  by_cases possible : intake.possible s.peer
  · by_cases closed : s.resF < 0
    · unfold takeIn at went
      rw [if_neg (not_not.mpr possible),if_pos closed] at went
      cases went
      exact ⟨fun _ _ running => absurd closed running,fun _ => before⟩
    · cases came : intake.arrival with
      | failed code =>
        unfold takeIn at went
        rw [if_neg (not_not.mpr possible),if_neg closed,came] at went
        cases went
        refine ⟨fun _ _ _ _ _ _ first head => (by rw [came] at head; cases head),fun _ source member => ?_⟩
        exact stays_peer before (fun p same => same) source (by simpa [Arrival.datagrams] using member)
      | batch ds =>
        cases ds with
        | nil =>
          unfold takeIn at went
          rw [if_neg (not_not.mpr possible),if_neg closed,came] at went
          cases went
          refine ⟨fun _ _ _ _ _ _ first head => (by rw [came] at head; cases head),fun _ source member => ?_⟩
          exact stays_peer before (fun p same => same) source (by simpa [Arrival.datagrams] using member)
        | cons first later => exact batch_peer before came possible closed went
  · unfold takeIn at went
    rw [if_pos possible] at went
    cases went

theorem stuck_single (stuck : takeIn s intake = none) : OneSource s intake := by
  intro possible running
  unfold takeIn at stuck
  rw [if_neg (not_not.mpr possible),if_neg running] at stuck
  cases stuck

theorem one_peer {intakes : List Intake} :
    Runs.Throughout takeIn OnePeer unassociated intakes ↔ Runs.Along takeIn OneSource unassociated intakes :=
  Runs.throughout_along (fun _ _ _ => take_in_peer) (fun _ _ _ => stuck_single) fun _ member => by cases member

def client : SockaddrIn6 := ⟨afInet6,.replicate 2 1,.replicate 16 1⟩

def intruder : SockaddrIn6 := ⟨afInet6,.replicate 2 2,.replicate 16 2⟩

-- One byte to 1.2.3.4, port 53.
def askFrom (source : SockaddrIn6) : Datagram := ⟨[0,0,0,1,1,2,3,4,0,53,7],source⟩

def intakeOf (sources : List SockaddrIn6) : Intake :=
  ⟨List.replicate 2 (.replicate 1500 0),true,0,.batch (sources.map askFrom),1⟩

-- Both datagrams are there when the first receive comes.
theorem intruder_returned : ∃ s, Runs.exec takeIn unassociated [intakeOf [client,intruder]] = some s ∧
    s.peer = some client ∧ s.returned = [client,intruder] ∧ ¬OnePeer s := by
  have went : takeIn unassociated (intakeOf [client,intruder]) = some ⟨some client,1,[client,intruder]⟩ := by decide +kernel
  refine ⟨⟨some client,1,[client,intruder]⟩,by simp only [Runs.exec,went,Option.bind_some],rfl,rfl,fun all => ?_⟩
  exact absurd (all intruder (by simp)) (by decide)

end Psocks.Socks5
