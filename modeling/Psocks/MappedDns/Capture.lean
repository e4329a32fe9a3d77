import Psocks.MappedDns.Network
import Psocks.MappedDns.Wire
import Psocks.Socks5.Addr

namespace Psocks.Utils
open MappedDns Socks5
variable {os : Platform}

-- An IPv4 address is the word in host order.
inductive IpAddr where
  | v4 (addr : BitVec 32)
  | v6 (addr : Vector UInt8 16)
  | any
deriving DecidableEq

-- The mapped DNS singleton may be NULL. `none` as a result: the encoder reads
-- outside the address structure.
def hevSocks5AddrFromLwip (dns : Option (Dns os)) (addr : HevSocks5Addr) (ip : IpAddr) (port : BitVec 16) :
    Option (Int × HevSocks5Addr × Option (Dns os)) :=
  match ip with
  | .v4 ip =>
    let (name,dns) := match dns with
      | some self => let (name,self) := hevMappedDnsLookup self ip; (name,some self)
      | none => (none,none)
    match name with
    | some name => (hevSocks5AddrFromName addr name port).map fun filled => (0,filled.1,dns)
    | none => some (0,(hevSocks5AddrFromIpv4 addr ip port).1,dns)
  | .v6 ip => some (0,(hevSocks5AddrFromIpv6 addr ip port).1,dns)
  | .any => some (-1,addr,dns)

-- The memory behind `addr` is longer than any address. `none`: the result is -1.
def hevSocks5AddrIntoLwip (addr : List UInt8) : Option (IpAddr × BitVec 16) :=
  if addr[0]? = some addrTypeIpv4 then
    some (.v4 (bigEndian ((addr.drop 1).take 4)),bigEndian ((addr.drop 5).take 2))
  else if addr[0]? = some addrTypeIpv6 then
    some (.v6 (Vector.ofFn fun i => addr.getD (1+i) 0),bigEndian ((addr.drop 17).take 2))
  else none

end Psocks.Utils

namespace Psocks.MappedDns
open Socks5 Utils
variable {os : Platform} {dns start : Dns os} {node : Nat → HevMappedDnsNode} {net mask ip : BitVec 32} {max : Int}

-- A name stands for the address of its slot and for no other, in the store and
-- in the address a session asks the proxy for.
structure Genuine (dns : Dns os) (ip : BitVec 32) : Prop where
  looked : ∀ name next, hevMappedDnsLookup dns ip = (some name,next) →
    ∃ i, 0 ≤ i ∧ i < dns.max ∧ Slotted dns i name ∧ ip = dns.net ||| BitVec.ofInt 32 i
  asked : ∀ addr port filled next, hevSocks5AddrFromLwip (some dns) addr (.v4 ip) port = some (0,filled,next) →
    filled.bytes[0]? = some addrTypeName → ip &&& dns.mask = dns.net

theorem new_settled (made : hevMappedDnsNew os node net mask max = some dns) :
    dns.net = net ∧ dns.mask = mask ∧ dns.max = max := by
  unfold hevMappedDnsNew hevMappedDnsConstruct at made
  split at made
  · cases made
  · cases Option.some.inj made; exact ⟨rfl,rfl,rfl⟩

-- What every history of the store leaves behind.
theorem history_valid (made : hevMappedDnsNew os node net mask max = some start) (network : Network net mask max)
    (went : history start events = some dns) :
    dns.net = net ∧ dns.mask = mask ∧ dns.max = max ∧ ∃ order, Valid dns order := by
  obtain ⟨ofNet,ofMask,ofMax⟩ := new_settled made
  obtain ⟨calls,rfl⟩ := history_calls went
  have room := network.room
  have settled : Settled start (run start calls) := run_settled calls
  refine ⟨settled.net.trans ofNet,settled.mask.trans ofMask,settled.max.trans ofMax,?_⟩
  exact run_valid (new_valid made (by omega)) (by omega) calls

-- Only a hit makes the encoder write a name.
theorem from_lwip_name (encoded : hevSocks5AddrFromLwip (some dns) addr (.v4 ip) port = some (0,filled,next))
    (named : filled.bytes[0]? = some addrTypeName) : ∃ name, (hevMappedDnsLookup dns ip).1 = some name := by
  cases found : (hevMappedDnsLookup dns ip).1 with
  | some name => exact ⟨name,rfl⟩
  | none =>
    simp only [hevSocks5AddrFromLwip,found] at encoded
    cases Option.some.inj encoded
    rw [from_ipv4_bytes] at named
    cases named

theorem hit_slotted (valid : Valid dns order) (found : (hevMappedDnsLookup dns ip).1 = some name) :
    Slotted dns (ip &&& ~~~dns.mask).toInt name := by
  rcases lookup_cases valid ip with ⟨missed,_⟩ | ⟨n,member,here,hit⟩
  · rw [missed] at found; cases found
  · rw [hit] at found
    cases Option.some.inj found
    exact ⟨n,here ▸ valid.table.indexed n member,rfl⟩

theorem slotted_hit (valid : Valid dns order) (slotted : Slotted dns (ip &&& ~~~dns.mask).toInt name) :
    (hevMappedDnsLookup dns ip).1 = some name := by
  have slot := valid_slot valid slotted
  have fits := valid.fits
  obtain ⟨n,record,named⟩ := slotted
  unfold hevMappedDnsLookup
  dsimp only
  rw [if_neg (by omega),record]
  simp only [named]

-- The decoder looks at the host part alone, so an address is treated right when
-- it is in the network or when its host part is no occupied slot.
theorem capture_exact (made : hevMappedDnsNew os node net mask max = some start) (network : Network net mask max)
    (went : history start events = some dns) (ip : BitVec 32) :
    Genuine dns ip ↔ ip &&& mask = net ∨ ∀ name, ¬Slotted dns (ip &&& ~~~mask).toInt name := by
  obtain ⟨ofNet,ofMask,ofMax,order,valid⟩ := history_valid made network went
  have fits := valid.fits
  constructor
  · intro genuine
    by_cases inside : ip &&& mask = net
    · exact .inl inside
    · refine .inr fun name slotted => inside ?_
      have found := slotted_hit valid (ofMask ▸ slotted)
      obtain ⟨i,low,high,_,rfl⟩ := genuine.looked name _ (Prod.ext found rfl)
      rw [ofNet]
      exact address_net network low (ofMax ▸ high)
  · intro condition
    have inside : ∀ name, (hevMappedDnsLookup dns ip).1 = some name →
        Slotted dns (ip &&& ~~~mask).toInt name ∧ ip &&& mask = net := by
      intro name found
      have slotted := hit_slotted valid found
      rw [ofMask] at slotted
      exact ⟨slotted,condition.resolve_right fun free => free name slotted⟩
    constructor
    · intro name next looked
      obtain ⟨slotted,member⟩ := inside name (by rw [looked])
      have slot := valid_slot valid slotted
      refine ⟨_,slot.1,by omega,slotted,?_⟩
      rw [ofNet,BitVec.ofInt_toInt,address_split member]
    · intro addr port filled next encoded named
      obtain ⟨name,found⟩ := from_lwip_name encoded named
      rw [ofNet,ofMask]
      exact (inside name found).2

theorem capture_exact_inside : Genuine (run pair [.find ⟨[97],by decide⟩]) 0xf0000000 :=
  (capture_exact pair_new ⟨⟨28,by decide,by decide⟩,by decide,by decide,by decide⟩
    (show history pair [.call (.find ⟨[97],by decide⟩)] = some _ from rfl) 0xf0000000).mpr (.inl (by decide))

-- 16.0.0.0 shares its host part with the first slot of 240.0.0.0/4.
theorem capture_foreign :
    hevMappedDnsNew .plain (fun _ => ⟨⟨[],by simp⟩,0⟩) 0xf0000000 0xf0000000 2 = some pair ∧
    Network 0xf0000000 0xf0000000 2 ∧
    history pair [.call (.find ⟨[97],by decide⟩)] = some (run pair [.find ⟨[97],by decide⟩]) ∧
    (hevMappedDnsLookup (run pair [.find ⟨[97],by decide⟩]) 0x10000000).1 = some ⟨[97],by decide⟩ ∧
    ¬Genuine (run pair [.find ⟨[97],by decide⟩]) 0x10000000 := by
  have network : Network 0xf0000000 0xf0000000 2 := ⟨⟨28,by decide,by decide⟩,by decide,by decide,by decide⟩
  have found : (hevMappedDnsLookup (run pair [.find ⟨[97],by decide⟩]) 0x10000000).1 = some ⟨[97],by decide⟩ := by decide
  refine ⟨rfl,network,rfl,found,fun genuine => ?_⟩
  obtain ⟨i,low,high,_,same⟩ := genuine.looked _ _ (Prod.ext found rfl)
  have netted := address_net network low high
  rw [show (0xf0000000 ||| BitVec.ofInt 32 i : BitVec 32) = 0x10000000 from same.symm] at netted
  exact absurd netted (by decide)

end Psocks.MappedDns
