import Psocks.Lib.Recency
import Psocks.MappedDns.Invariant

namespace Psocks.MappedDns
open SearchTree Psocks.Lists Recency
variable {os : Platform} {dns : Dns os} {order : List Nat} {node : Nat → HevMappedDnsNode}
  {net mask : BitVec 32} {max : Int}

-- The name a call touches, with the slot it is answered from.
def touched (self : Dns os) : Call → Option (CString × Int)
  | .find name => some (name,(hevMappedDnsFind self name).1)
  | .lookup ip => (hevMappedDnsLookup self ip).1.map (·,(ip &&& ~~~self.mask).toInt)

def touches (self : Dns os) : List Call → List CString
  | [] => []
  | c::rest => ((touched self c).map Prod.fst).toList++touches (call self c) rest

theorem names_length : (dns.names order).length = order.length := by simp [HevMappedDns.names]

theorem names_append (a b : List Nat) : dns.names (a++b) = dns.names a++dns.names b := List.map_append

theorem names_frame {next : Dns os} (same : ∀ n ∈ order, (next.node n).name = (dns.node n).name) :
    next.names order = dns.names order := List.map_congr_left same

theorem names_erase (linked : Linked dns order) (member : n ∈ order) :
    dns.names (order.erase n) = (dns.names order).erase (dns.node n).name := by
  have distinct := names_distinct linked
  obtain ⟨before,after,rfl⟩ := List.append_of_mem member
  have fresh : n ∉ before := fun inside => (List.nodup_append'.mp (linked_nodup linked)).2.2 inside (by simp)
  have other : (dns.node n).name ∉ dns.names before := by
    rw [names_append] at distinct
    exact fun inside => (List.nodup_append'.mp distinct).2.2 inside (by simp [HevMappedDns.names])
  rw [List.erase_append_right _ fresh,List.erase_cons_head,names_append,names_append,
    List.erase_append_right _ other]
  simp [HevMappedDns.names]

theorem valid_resident (valid : Valid dns order) : Resident dns.max.toNat (dns.names order) := by
  have count := valid.table.count
  have fits := valid.fits
  exact ⟨names_distinct valid.linked,by rw [names_length]; omega⟩

theorem touch_uses (linked : Linked dns order) (member : n ∈ order) :
    (dns.touch n).names (order.erase n++[n]) = use dns.max.toNat (dns.names order) (dns.node n).name := by
  have inside : (dns.node n).name ∈ dns.names order := List.mem_map_of_mem member
  rw [use,if_pos inside,← names_erase linked member]
  exact names_append (order.erase n) [n]

theorem find_uses (valid : Valid dns order) (room : 0 < dns.max) (name : CString) :
    ∃ next, Valid (hevMappedDnsFind dns name).2 next ∧
      (hevMappedDnsFind dns name).2.names next = use dns.max.toNat (dns.names order) name := by
  have count := valid.table.count
  have fresh := place_fresh valid.linked
  have absent : ∀ {path}, descend (dns.turn name) dns.shape = .slot path → name ∉ dns.names order := by
    intro path ended inside
    obtain ⟨x,member,same⟩ := List.mem_map.mp inside
    exact walk_absent valid.linked ended member same
  rcases find_cases valid room name with ⟨n,member,rfl,found⟩ | ⟨path,ended,⟨free,found⟩ | ⟨nf,rest,rfl,full,found⟩⟩
  · rw [found]
    exact ⟨_,touch_valid valid member,touch_uses valid.linked member⟩
  · rw [found]
    refine ⟨_,grow_valid valid ended free,?_⟩
    have shorter : (dns.names order).length < dns.max.toNat := by rw [names_length]; omega
    rw [use,if_neg (absent ended),if_pos shorter,names_append]
    refine congrArg₂ _ (names_frame ?_) ?_
    · intro x member
      have other : x ≠ os.place dns.live := fun same => fresh (same ▸ member)
      simp [HevMappedDns.record,other,joined_other]
    · simp [HevMappedDns.names,HevMappedDns.record,HevMappedDns.joined,HevMappedDns.join,HevMappedDns.enter,hevMappedDnsNodeAlloc]
  · rw [found]
    refine ⟨_,reuse_valid valid ended,?_⟩
    have brimful : ¬(dns.names (nf::rest)).length < dns.max.toNat := by rw [names_length]; omega
    rw [use,if_neg (absent ended),if_neg brimful,names_append]
    refine congrArg₂ _ (names_frame ?_) ?_
    · intro x member
      have other : x ≠ os.place dns.live := fun same => fresh (by simp [← same,member])
      simp [HevMappedDns.record,other,HevMappedDns.evict,HevMappedDns.leave,hevMappedDnsNodeFree,joined_other]
    · simp [HevMappedDns.names,HevMappedDns.record,HevMappedDns.evict,HevMappedDns.leave,hevMappedDnsNodeFree,HevMappedDns.joined,
        HevMappedDns.join,HevMappedDns.enter,hevMappedDnsNodeAlloc]

-- The order of the list is the order of the last touches.
theorem call_uses (valid : Valid dns order) (room : 0 < dns.max) (c : Call) :
    ∃ next, Valid (call dns c) next ∧
      (call dns c).names next = uses dns.max.toNat (dns.names order) ((touched dns c).map Prod.fst).toList := by
  cases c with
  | find name => exact find_uses valid room name
  | lookup ip =>
    simp only [call,touched]
    rcases lookup_cases valid ip with ⟨missed,_⟩ | ⟨n,member,_,hit⟩
    · rw [missed]
      exact ⟨_,valid,rfl⟩
    · rw [hit]
      exact ⟨_,touch_valid valid member,touch_uses valid.linked member⟩

theorem run_uses (valid : Valid dns order) (room : 0 < dns.max) (calls : List Call) :
    ∃ next, Valid (run dns calls) next ∧
      (run dns calls).names next = uses dns.max.toNat (dns.names order) (touches dns calls) := by
  induction calls generalizing dns order with
  | nil => exact ⟨_,valid,rfl⟩
  | cons c rest ih =>
    obtain ⟨middle,went,used⟩ := call_uses valid room c
    have kept : (call dns c).max = dns.max := (call_settled c).max
    obtain ⟨next,ended,later⟩ := ih went (kept ▸ room)
    refine ⟨next,ended,?_⟩
    rw [kept,used] at later
    simpa [run,touches,uses,List.foldl_append] using later

theorem find_slots (valid : Valid dns order) (room : 0 < dns.max) (slotted : Slotted dns i N)
    (stored : Slotted (hevMappedDnsFind dns name).2 j N) : Slotted (hevMappedDnsFind dns name).2 i N := by
  have fresh := place_fresh valid.linked
  obtain ⟨x,at_,named⟩ := slotted
  obtain ⟨member,slot⟩ := valid.table.recorded i x at_
  rcases find_cases valid room name with ⟨n,_,_,found⟩ | ⟨path,ended,⟨free,found⟩ | ⟨nf,rest,rfl,full,found⟩⟩
  · rw [found]
    exact ⟨x,at_,named⟩
  · have below := (valid.table.slot x member).2
    have apart : i ≠ dns.use := by omega
    have other : x ≠ os.place dns.live := fun same => fresh (same ▸ member)
    rw [found]
    refine ⟨x,(Function.update_of_ne apart _ _).trans at_,?_⟩
    simpa [HevMappedDns.record,other,joined_other] using named
  · have other : x ≠ os.place dns.live := fun same => fresh (same ▸ member)
    rw [found] at stored ⊢
    by_cases apart : i = (dns.node nf).idx
    · exfalso
      obtain ⟨y,held,same⟩ := stored
      have oldest : x = nf := by
        have first := valid.table.indexed nf (by simp)
        rw [← apart,at_] at first
        exact Option.some.inj first
      have final := reuse_valid valid ended
      obtain ⟨resident,_⟩ := final.table.recorded j y held
      rcases List.mem_append.mp resident with kept | last
      · have off : y ≠ os.place dns.live := fun same => fresh (by simp [← same,kept])
        simp only [HevMappedDns.record,Function.update_of_ne off,HevMappedDns.evict,HevMappedDns.leave,hevMappedDnsNodeFree,
          joined_other off] at same
        have equal := name_injective valid.linked (by simp [kept]) (by simp) (same.trans (oldest ▸ named).symm)
        exact (List.nodup_cons.mp (linked_nodup valid.linked)).1 (equal ▸ kept)
      · rw [List.mem_singleton.mp last] at same
        simp only [HevMappedDns.record,Function.update_self,HevMappedDns.evict,HevMappedDns.leave,hevMappedDnsNodeFree,
          HevMappedDns.joined,HevMappedDns.join,HevMappedDns.enter,hevMappedDnsNodeAlloc] at same
        exact walk_absent valid.linked ended member (named.trans same.symm)
    · refine ⟨x,(Function.update_of_ne apart _ _).trans at_,?_⟩
      simpa [HevMappedDns.record,other,HevMappedDns.evict,HevMappedDns.leave,hevMappedDnsNodeFree,joined_other] using named

theorem call_slots (valid : Valid dns order) (room : 0 < dns.max) (slotted : Slotted dns i N)
    (stored : Slotted (call dns c) j N) : Slotted (call dns c) i N := by
  cases c with
  | find name => exact find_slots valid room slotted stored
  | lookup ip =>
    simp only [call]
    rcases lookup_cases valid ip with ⟨missed,_⟩ | ⟨n,_,_,hit⟩
    · rw [missed]; exact slotted
    · rw [hit]; exact slotted

theorem stored_slot (valid : Valid dns order) (stored : N ∈ dns.names order) : ∃ j, Slotted dns j N := by
  obtain ⟨n,member,named⟩ := List.mem_map.mp stored
  exact ⟨_,n,valid.table.indexed n member,named⟩

theorem touched_slot (valid : Valid dns order) (room : 0 < dns.max) (touch : touched dns c = some (N,i)) :
    Slotted (call dns c) i N := by
  cases c with
  | find name =>
    cases Option.some.inj touch
    exact (find_finds valid room N).slot
  | lookup ip =>
    simp only [call,touched] at touch ⊢
    rcases lookup_cases valid ip with ⟨missed,_⟩ | ⟨n,member,here,hit⟩
    · rw [missed] at touch
      cases touch
    · rw [hit] at touch ⊢
      cases Option.some.inj touch
      exact ⟨n,here ▸ valid.table.indexed n member,rfl⟩

-- One call costs `N` neither its place nor its slot while `since` is small.
theorem call_keeps (valid : Valid dns order) (room : 0 < dns.max) {since : Finset CString}
    (kept : Protected since (dns.names order) N) (slotted : Slotted dns i N)
    (only : ∀ y ∈ ((touched dns c).map Prod.fst).toList, y = N ∨ y ∈ since) (outside : N ∉ since)
    (few : since.card < dns.max.toNat) :
    ∃ next, Valid (call dns c) next ∧ Protected since ((call dns c).names next) N ∧ Slotted (call dns c) i N := by
  obtain ⟨next,went,used⟩ := call_uses valid room c
  have protects : Protected since ((call dns c).names next) N := by
    rw [used]
    exact uses_protected (by omega) (valid_resident valid) kept only outside few
  obtain ⟨j,stored⟩ := stored_slot went protects.mem
  exact ⟨next,went,protects,call_slots valid room slotted stored⟩

theorem run_keeps (valid : Valid dns order) (room : 0 < dns.max) {since : Finset CString} {calls : List Call}
    (kept : Protected since (dns.names order) N) (slotted : Slotted dns i N)
    (only : ∀ y ∈ touches dns calls, y = N ∨ y ∈ since) (outside : N ∉ since) (few : since.card < dns.max.toNat) :
    Slotted (run dns calls) i N := by
  induction calls generalizing dns order with
  | nil => exact slotted
  | cons c rest ih =>
    have same : (call dns c).max = dns.max := (call_settled c).max
    have now : ∀ y ∈ ((touched dns c).map Prod.fst).toList, y = N ∨ y ∈ since := fun y member =>
      only y (List.mem_append_left _ member)
    obtain ⟨next,went,protects,stays⟩ := call_keeps valid room kept slotted now outside few
    exact ih went (same ▸ room) protects stays (fun y member => only y (List.mem_append_right _ member)) (same ▸ few)

theorem touched_protected (valid : Valid dns order) (room : 0 < dns.max) (touch : touched dns c = some (N,i))
    (since : Finset CString) : ∃ next, Valid (call dns c) next ∧ Protected since ((call dns c).names next) N := by
  obtain ⟨next,went,used⟩ := call_uses valid room c
  refine ⟨next,went,?_⟩
  rw [used,touch]
  exact use_protects since

theorem find_again (valid : Valid dns order) (room : 0 < dns.max) (slotted : Slotted dns i N) :
    (hevMappedDnsFind dns N).1 = i ∧ (hevMappedDnsFind dns N).2.records = dns.records ∧
    (hevMappedDnsFind dns N).2.live = dns.live := by
  obtain ⟨x,at_,named⟩ := slotted
  obtain ⟨member,slot⟩ := valid.table.recorded i x at_
  rcases find_cases valid room N with ⟨n,found,same,result⟩ | ⟨path,ended,_⟩
  · have equal : n = x := name_injective valid.linked found member (same.trans named.symm)
    rw [result,equal]
    exact ⟨slot,rfl,rfl⟩
  · exact absurd named (walk_absent valid.linked ended member)

theorem evicted_oldest (valid : Valid dns order) (room : 0 < dns.max) (aged : Aged past (dns.names order))
    (old : n ∈ dns.live) (gone : n ∉ (hevMappedDnsFind dns name).2.live) (other : x ∈ dns.live) (ne : x ≠ n) :
    Older past (dns.node n).name (dns.node x).name := by
  rcases find_cases valid room name with ⟨m,_,_,found⟩ | ⟨path,_,⟨_,found⟩ | ⟨nf,rest,rfl,_,found⟩⟩
  · rw [found] at gone
    exact absurd old gone
  · rw [found] at gone
    exact absurd (List.mem_cons_of_mem _ old) gone
  · rw [found] at gone
    have erased : n = nf := by
      by_contra apart
      exact gone ((List.mem_erase_of_ne apart).mpr (List.mem_cons_of_mem _ old))
    subst erased
    have later : x ∈ rest := (List.mem_cons.mp (valid.linked.alive.mem_iff.mp other)).resolve_left ne
    exact (List.pairwise_cons.mp aged).1 _ (List.mem_map_of_mem later)

-- Stated for the state after any calls `before`: the slot a call answers with
-- stays with its name until `max` other names have been touched, and what a find
-- removes is the node touched least recently.
theorem lru_stable (made : hevMappedDnsNew os node net mask max = some dns) (room : 1 ≤ max) (before : List Call) :
    (∀ c N i after, touched (run dns before) c = some (N,i) →
      (((touches (run dns (before++[c])) after).toFinset.erase N).card : Int) < max →
      Slotted (run dns (before++c::after)) i N ∧
      (hevMappedDnsFind (run dns (before++c::after)) N).1 = i ∧
      (hevMappedDnsFind (run dns (before++c::after)) N).2.records = (run dns (before++c::after)).records ∧
      (hevMappedDnsFind (run dns (before++c::after)) N).2.live = (run dns (before++c::after)).live) ∧
    (∀ c N i after M, touched (run dns before) c = some (N,i) → Slotted (run dns (before++c::after)) i M → M ≠ N →
      max ≤ ((touches (run dns (before++[c])) after).toFinset.erase N).card) ∧
    ∀ name, ∀ n ∈ (run dns before).live, n ∉ (hevMappedDnsFind (run dns before) name).2.live →
      ∀ x ∈ (run dns before).live, x ≠ n →
        Older (touches dns before) ((run dns before).node n).name ((run dns before).node x).name := by
  have size := new_max made
  have fresh := new_valid made (by omega)
  have capacity : 0 < dns.max := by omega
  have kept : (run dns before).max = dns.max := (run_settled before).max
  obtain ⟨order,valid,used⟩ := run_uses fresh capacity before
  have stays : ∀ c N i after, touched (run dns before) c = some (N,i) →
      (((touches (run dns (before++[c])) after).toFinset.erase N).card : Int) < max →
      Slotted (run dns (before++c::after)) i N := by
    intro c N i after touch few
    have split : run dns (before++c::after) = run (call (run dns before) c) after := run_append dns before (c::after)
    have single : run dns (before++[c]) = call (run dns before) c := run_append dns before [c]
    have same : (call (run dns before) c).max = dns.max := (call_settled c).max.trans kept
    rw [single] at few
    rw [split]
    obtain ⟨next,went,protects⟩ := touched_protected valid (kept ▸ capacity) touch
      ((touches (call (run dns before) c) after).toFinset.erase N)
    refine run_keeps went (same ▸ capacity) protects (touched_slot valid (kept ▸ capacity) touch) ?_ (by simp) ?_
    · intro y member
      by_cases own : y = N
      · exact .inl own
      · exact .inr (Finset.mem_erase.mpr ⟨own,List.mem_toFinset.mpr member⟩)
    · omega
  refine ⟨?_,?_,?_⟩
  · intro c N i after touch few
    have there := stays c N i after touch few
    obtain ⟨final,ended⟩ := run_valid fresh capacity (before++c::after)
    have still : (run dns (before++c::after)).max = dns.max := (run_settled _).max
    exact ⟨there,find_again ended (by omega) there⟩
  · intro c N i after M touch slotted ne
    by_contra few
    have there := stays c N i after touch (by omega)
    obtain ⟨x,atX,nameX⟩ := there
    obtain ⟨y,atY,nameY⟩ := slotted
    rw [atX] at atY
    cases Option.some.inj atY
    exact ne (nameY.symm.trans nameX)
  · intro name n old gone x other ne
    have aged : Aged (touches dns before) ((run dns before).names order) := by
      rw [used]
      have stamped : Aged ([]++touches dns before) (uses dns.max.toNat (dns.names []) (touches dns before)) :=
        uses_aged (valid_resident fresh) (by omega) List.Pairwise.nil
      exact stamped
    exact evicted_oldest valid (kept ▸ capacity) aged old gone other ne

-- Looked up again, the first name outlives the second.
theorem lru_stable_pair :
    let a : CString := ⟨[97],by decide⟩
    let before := [.find a,.find ⟨[98],by decide⟩]
    touched (run pair before) (.lookup 0xf0000000) = some (a,0) ∧
      Slotted (run pair (before++[.lookup 0xf0000000,.find ⟨[99],by decide⟩])) 0 a := by
  intro a before
  have touch : touched (run pair before) (.lookup 0xf0000000) = some (a,0) := by decide
  exact ⟨touch,((lru_stable pair_new (by decide) before).1 _ _ _ _ touch (by decide)).1⟩

end Psocks.MappedDns
