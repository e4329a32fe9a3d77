import Psocks.Misc.RBHeap

namespace Psocks.RBTree
open SearchTree RedBlack Apart
variable {w n : Nat} {self : HevRBTree w} {x : BitVec w} {above : Color} {l r t a b : Colored (BitVec w)} {f g : Frame (BitVec w)}
variable {rest : List (Frame (BitVec w))}

-- Case 1: the uncle is red.
theorem insert_recolor (focus : Focus self (f::g::rest) t) (uncle : g.sibling.color = .red) :
    ∃ next, insertColorTurn g.side self (addr t) f.x g.x = some (.again next g.x (top 0 rest)) ∧ Focus next rest (recolor f g t) := by
  obtain ⟨⟨fAddress,fWord,fHole,fOther,fSibling,gAddress,gWord,gHole,gOther,gSibling,outer⟩,heap,distinct⟩ := focus
  have filled : g.sibling ≠ .nil := by
    intro leaf
    rw [leaf] at uncle
    cases uncle
  have aligned := top_aligned rest outer
  obtain ⟨uAddress,uWord,_,_⟩ := heap_root gSibling filled .left
  have apart : [t.list,[f.x],f.sibling.list,[g.x],g.sibling.list,keys rest].flatten.Nodup := by simpa [keys] using distinct
  obtain ⟨tag,inT,atF,inS,atG,inU,inK,_⟩ := exists_tag 0 _ apart
  rw [List.forall_mem_singleton] at atF atG
  have atU := inU _ (addr_member filled)
  have fg : f.x ≠ g.x := differ atF atG (by simp)
  have uf : addr g.sibling ≠ f.x := differ atU atF (by simp)
  have ug : addr g.sibling ≠ g.x := differ atU atG (by simp)
  obtain ⟨m,painted⟩ : ∃ m, m = (self.put (addr g.sibling) (setWord (word g.x .black))).put f.x (setWord (word g.x .black)) := ⟨_,rfl⟩
  have above : hevRbtreeNodeParent (m.node g.x) = top 0 rest := by
    rw [painted,put_node,if_neg fg.symm,put_node,if_neg ug.symm,hevRbtreeNodeParent,gWord,parent_word aligned]
  let next := m.put g.x (setWord (word (top 0 rest) .red))
  have same : ∀ y, y ≠ f.x → y ≠ g.x → y ≠ addr g.sibling → next.node y = self.node y := by
    intro y notF notG notU
    rw [put_node,if_neg notG,painted,put_node,if_neg notF,put_node,if_neg notU]
  have fNode : next.node f.x = setWord (word g.x .black) (self.node f.x) := by
    rw [put_node,if_neg fg,painted,put_node,if_pos rfl,put_node,if_neg uf.symm]
  have gNode : next.node g.x = setWord (word (top 0 rest) .red) (self.node g.x) := by
    rw [put_node,if_pos rfl,painted,put_node,if_neg fg.symm,put_node,if_neg ug.symm]
  have uNode : next.node (addr g.sibling) = setWord (word g.x .black) (self.node (addr g.sibling)) := by
    rw [put_node,if_neg ug,painted,put_node,if_neg uf,put_node,if_pos rfl]
  have rooted : next.root = self.root := by simp [next,painted]
  refine ⟨next,?_,?_,?_,?_⟩
  · unfold insertColorTurn
    simp only [load_filled gAddress.filled,Option.bind_eq_bind,Option.bind_some,gOther,redAt_root gSibling gAddress.aligned,uncle,
      decide_true,if_true,color_filled uAddress.filled,color_filled fAddress.filled,color_filled gAddress.filled,← painted,above]
    rfl
  · rw [recolor,addr_put,rooted]
    apply hangs_same rest outer
    intro y member
    exact same y (differ (inK y member) atF (by simp)) (differ (inK y member) atG (by simp)) (differ (inK y member) atU (by simp))
  · rw [recolor,heap_put,heap_put,addr_put,addr_paint,gNode,fNode]
    refine ⟨gAddress,rfl,?_,?_,⟨fAddress,rfl,?_,?_,?_,?_⟩,?_⟩
    · rw [setWord_child,gHole]
    · rw [setWord_child,gOther]
    · rw [setWord_child,fHole]
    · rw [setWord_child,fOther]
    · apply heap_same heap
      intro y member
      exact same y (differ (inT y member) atF (by simp)) (differ (inT y member) atG (by simp)) (differ (inT y member) atU (by simp))
    · apply heap_same fSibling
      intro y member
      exact same y (differ (inS y member) atF (by simp)) (differ (inS y member) atG (by simp)) (differ (inS y member) atU (by simp))
    · apply heap_moved gSibling ((List.nodup_flatten.mp apart).1 _ (by simp))
      · intro y member other
        exact same y (differ (inU y member) atF (by simp)) (differ (inU y member) atG (by simp)) other
      · exact fun _ => uNode
  · rw [recolor_list]
    exact (fill_perm g (f.fill t) |>.trans (fill_perm f t)).nodup_iff.mpr distinct

theorem outer_parts : (t.list++keys (f::g::rest)).Perm [[f.x],[g.x],g.sibling.list,f.sibling.list,t.list,keys rest].flatten := by
  apply List.perm_iff_count.mpr
  intro y
  simp only [keys,List.count_append,List.count_cons,List.flatten_cons,List.flatten_nil,List.count_nil]
  omega

-- Case 3: the node is on the outer side of its parent, which takes the grandparent's place.
theorem insert_outer (focus : Focus self (f::g::rest) t) (filled : t ≠ .nil) (gparent : g.color = .black)
    (uncle : g.sibling.color = .black) (sibling : f.sibling.color = .black) (outside : f.side = g.side) :
    ∃ next, insertColorTurn g.side self (addr t) f.x g.x = some (.over_ next) ∧
      Focus next rest (put g.side .black f.x t (put g.side .red g.x f.sibling g.sibling)) := by
  obtain ⟨⟨fAddress,fWord,fHole,fOther,fSibling,gAddress,gWord,gHole,gOther,gSibling,outer⟩,heap,distinct⟩ := focus
  have heap : Heap self.node f.x t := heap
  rw [outside] at fHole fOther
  have apart := outer_parts.nodup_iff.mp distinct
  obtain ⟨tag,atF,atG,inU,inS,inT,inK,_⟩ := exists_tag 0 _ apart
  rw [List.forall_mem_singleton] at atF atG
  have alone := (List.nodup_flatten.mp apart).1
  have fg : f.x ≠ g.x := differ atF atG (by simp)
  have sf : addr f.sibling ≠ f.x := addr_ne fAddress.filled (absent atF inS (by simp))
  have sg : addr f.sibling ≠ g.x := addr_ne gAddress.filled (absent atG inS (by simp))
  have st : addr f.sibling ≠ addr t := addr_ne (heap_root heap filled .left).1.filled (absent (inT _ (addr_member filled)) inS (by simp))
  obtain ⟨m,turned⟩ : ∃ m, m = ((self.put g.x (·.setChild g.side (addr f.sibling))).put f.x (·.setChild g.side.other g.x)).putAt
    (addr f.sibling) (setWord (word g.x .black)) := ⟨_,rfl⟩
  have away : ∀ {y k}, tag y = k → 1 < k → (y ∈ f.sibling.list → y ≠ addr f.sibling) → m.node y = self.node y := by
    intro y k here above notS
    rw [turned,putAt_away notS,put_node,if_neg (differ here atF (by omega)),put_node,if_neg (differ here atG (by omega))]
  have gTurned : m.node g.x = (self.node g.x).setChild g.side (addr f.sibling) := by
    rw [turned,putAt_node,if_neg fun both => sg both.1.symm,put_node,if_neg fg.symm,put_node,if_pos rfl]
  have fTurned : m.node f.x = (self.node f.x).setChild g.side.other g.x := by
    rw [turned,putAt_node,if_neg fun both => sf both.1.symm,put_node,if_pos rfl,put_node,if_neg fg]
  have around : Hangs m.node 0 m.root g.x rest := by
    rw [show m.root = self.root by simp [turned]]
    apply hangs_same rest outer
    exact fun y member => away (inK y member) (by decide) fun inside => absurd inside (absent (inK y member) inS (by simp))
  have below : Heap m.node f.x t := heap_same heap fun y member =>
    away (inT y member) (by decide) fun inside => absurd inside (absent (inT y member) inS (by simp))
  have beyond : Heap m.node g.x g.sibling := heap_same gSibling fun y member =>
    away (inU y member) (by decide) fun inside => absurd inside (absent (inU y member) inS (by simp))
  have moved : Heap m.node g.x f.sibling := by
    rw [← paint_color f.sibling,sibling]
    apply heap_moved fSibling (alone _ (by simp))
    · exact fun y member other => away (inS y member) (by decide) fun _ => other
    · intro some_
      rw [turned,putAt_at fSibling some_,put_node,if_neg sf,put_node,if_neg sg]
  obtain ⟨next,rotated,after⟩ := rotate_focus (d:=g.side.other) (c:=.black) rest around gAddress fAddress
    (by rw [gTurned,setChild_word,gWord,gparent]) (by rw [gTurned,setChild_other,gOther])
    (by rw [gTurned,other_other,setChild_child]) (by rw [fTurned,setChild_child])
    (by rw [fTurned,other_other,setOther_child,fHole]) beyond moved below apart .red
  rw [put_other,put_other] at after
  refine ⟨next,?_,after⟩
  unfold insertColorTurn
  simp only [load_filled gAddress.filled,Option.bind_eq_bind,Option.bind_some,gOther,redAt_root gSibling gAddress.aligned,uncle,
    reduceCtorEq,decide_false,Bool.false_eq_true,if_false,load_filled fAddress.filled,fOther,st.symm,
    child_filled gAddress.filled,child_filled fAddress.filled,adopt_if,← turned,rotated]

theorem inner_split {d : Side} : ((put d .red x a b).list++keys (f::g::rest)).Perm
    [[x],[f.x],[g.x],f.sibling.list,a.list,b.list,g.sibling.list,keys rest].flatten := by
  apply List.perm_iff_count.mpr
  intro y
  have inside := (@put_perm _ d .red a b x).count_eq y
  simp only [keys,List.count_append,List.count_cons,List.flatten_cons,List.flatten_nil,List.count_nil] at inside ⊢
  omega

-- The two turns of cases 2 and 3: the parent and the grandparent give up a child each to the node
-- that will stand over them.
theorem insert_lifted {m n : HevRBTree w} {p q : BitVec w} (d : Side) (aHeap : Heap self.node x a) (bHeap : Heap self.node x b)
    (xp : x ≠ p) (xq : x ≠ q) (pq : p ≠ q)
    (outA : ∀ z, z = x ∨ z = p ∨ z = q → addr a ≠ z) (outB : ∀ z, z = x ∨ z = p ∨ z = q → addr b ≠ z)
    (apart : ∀ z ∈ a.list, z ∉ b.list)
    (turned : m = (((self.put p (·.setChild d.other (addr a))).put x (·.setChild d p)).putAt (addr a) (setWord (word p .black))).put p
      (setWord (word x .red)))
    (lifted : n = ((m.put q (·.setChild d (addr b))).put x (·.setChild d.other q)).putAt (addr b) (setWord (word q .black))) :
    m.node x = (self.node x).setChild d p ∧ Lifted self n d x p q a b .red .black .black := by
  have ax := outA x (by simp)
  have ap := outA p (by simp)
  have aq := outA q (by simp)
  have bx := outB x (by simp)
  have bp := outB p (by simp)
  have bq := outB q (by simp)
  have xTurned : m.node x = (self.node x).setChild d p := by
    rw [turned,put_node,if_neg xp,putAt_node,if_neg fun both => ax both.1.symm,put_node,if_pos rfl,put_node,if_neg xp]
  refine ⟨xTurned,by simp [lifted,turned],?_,?_,?_,?_,?_,?_⟩
  · rw [lifted,putAt_node,if_neg fun both => bx both.1.symm,put_node,if_pos rfl,put_node,if_neg xq,xTurned]
  · rw [lifted,putAt_node,if_neg fun both => bp both.1.symm,put_node,if_neg xp.symm,put_node,if_neg pq,turned,put_node,if_pos rfl,
      putAt_node,if_neg fun both => ap both.1.symm,put_node,if_neg xp.symm,put_node,if_pos rfl]
  · rw [lifted,putAt_node,if_neg fun both => bq both.1.symm,put_node,if_neg xq.symm,put_node,if_pos rfl,turned,put_node,if_neg pq.symm,
      putAt_node,if_neg fun both => aq both.1.symm,put_node,if_neg xq.symm,put_node,if_neg pq.symm]
  · intro some_
    have out : addr a ∉ b.list := apart _ (addr_member some_)
    rw [lifted,putAt_away fun within => absurd within out,put_node,if_neg ax,put_node,if_neg aq,turned,put_node,if_neg ap,
      putAt_at aHeap some_,put_node,if_neg ax,put_node,if_neg ap]
  · intro some_
    have out : addr b ∉ a.list := fun within => apart _ within (addr_member some_)
    rw [lifted,putAt_at bHeap some_,put_node,if_neg bx,put_node,if_neg bq,turned,put_node,if_neg bp,
      putAt_away fun within => absurd within out,put_node,if_neg bx,put_node,if_neg bp]
  · intro z notX notP notQ notA notB
    rw [lifted,putAt_away notB,put_node,if_neg notX,put_node,if_neg notQ,turned,put_node,if_neg notP,putAt_away notA,
      put_node,if_neg notX,put_node,if_neg notP]

-- Cases 2 and 3: the node is on the inner side, and takes the grandparent's place itself.
theorem insert_inner (focus : Focus self (f::g::rest) (put g.side .red x a b)) (gparent : g.color = .black)
    (uncle : g.sibling.color = .black) (near : a.color = .black) (far : b.color = .black) (inside : f.side = g.side.other) :
    ∃ next, insertColorTurn g.side self x f.x g.x = some (.over_ next) ∧
      Focus next rest (put g.side .black x (put g.side .red f.x f.sibling a) (put g.side .red g.x b g.sibling)) := by
  obtain ⟨⟨fAddress,fWord,fHole,fOther,fSibling,gAddress,gWord,gHole,gOther,gSibling,outer⟩,heap,distinct⟩ := focus
  obtain ⟨xAddress,xWord,xNear,xFar,aHeap,bHeap⟩ := heap_put.mp heap
  rw [inside] at fHole fOther
  rw [addr_put] at fHole
  rw [other_other] at fOther
  have apart := inner_split.nodup_iff.mp distinct
  obtain ⟨tag,atX,atF,atG,inS,inA,inB,inU,inK,_⟩ := exists_tag 0 _ apart
  rw [List.forall_mem_singleton] at atX atF atG
  obtain ⟨m,turned⟩ : ∃ m, m = (((self.put f.x (·.setChild g.side.other (addr a))).put x (·.setChild g.side f.x)).putAt (addr a)
    (setWord (word f.x .black))).put f.x (setWord (word x .red)) := ⟨_,rfl⟩
  obtain ⟨n,lifted⟩ : ∃ n, n = ((m.put g.x (·.setChild g.side (addr b))).put x (·.setChild g.side.other g.x)).putAt (addr b)
    (setWord (word g.x .black)) := ⟨_,rfl⟩
  have outA : ∀ z, z = x ∨ z = f.x ∨ z = g.x → addr a ≠ z := by
    rintro z (rfl | rfl | rfl)
    · exact addr_ne xAddress.filled (absent atX inA (by simp))
    · exact addr_ne fAddress.filled (absent atF inA (by simp))
    · exact addr_ne gAddress.filled (absent atG inA (by simp))
  have outB : ∀ z, z = x ∨ z = f.x ∨ z = g.x → addr b ≠ z := by
    rintro z (rfl | rfl | rfl)
    · exact addr_ne xAddress.filled (absent atX inB (by simp))
    · exact addr_ne fAddress.filled (absent atF inB (by simp))
    · exact addr_ne gAddress.filled (absent atG inB (by simp))
  obtain ⟨xTurned,stands⟩ := insert_lifted g.side aHeap bHeap (differ atX atF (by simp)) (differ atX atG (by simp)) (differ atF atG (by simp))
    outA outB (fun z member => absent (inA z member) inB (by simp)) turned lifted
  obtain ⟨next,rotated,after⟩ := lifted_focus rest stands outer xAddress fAddress gAddress gWord fOther gOther fSibling aHeap bHeap
    gSibling apart .red
  have leftKept : a.paint .black = a := near ▸ paint_color a
  have rightKept : b.paint .black = b := far ▸ paint_color b
  rw [leftKept,rightKept,gparent] at after
  refine ⟨next,?_,after⟩
  unfold insertColorTurn
  simp only [load_filled gAddress.filled,Option.bind_eq_bind,Option.bind_some,gOther,redAt_root gSibling gAddress.aligned,uncle,
    reduceCtorEq,decide_false,Bool.false_eq_true,if_false,load_filled fAddress.filled,fHole,if_true,load_filled xAddress.filled,
    xNear,child_filled fAddress.filled,child_filled xAddress.filled,child_filled gAddress.filled,color_filled fAddress.filled,
    adopt_if,← turned,xTurned,setChild_other,xFar,← lifted,rotated]

theorem insert_rise (focus : Focus self (f::g::rest) (.node .red l x r)) (gparent : g.color = .black) (uncle : g.sibling.color = .black)
    (sibling : f.sibling.color = .black) (left : l.color = .black) (right : r.color = .black) :
    ∃ next, insertColorTurn g.side self x f.x g.x = some (.over_ next) ∧ Focus next rest (rise f g l x r) := by
  unfold rise
  by_cases outside : f.side = g.side
  · rw [if_pos outside]
    exact insert_outer focus (by simp) gparent uncle sibling outside
  · rw [if_neg outside]
    have inside : f.side = g.side.other := by
      cases here : f.side <;> cases up : g.side <;> simp_all [Side.other]
    rw [node_put g.side] at focus
    have children : ∀ d, ((Colored.node Color.red l x r).child d).color = .black := by
      intro d
      cases d with
      | left => exact left
      | right => exact right
    exact insert_inner focus gparent uncle (children _) (children _) inside

theorem turn_side (hangs : Hangs self.node 0 self.root f.x (g::rest)) (out : f.x ∉ g.sibling.list) (filled : f.x ≠ 0) (node : BitVec w) :
    (if f.x ≠ (self.node g.x).right then insertColorTurn .left self node f.x g.x else insertColorTurn .right self node f.x g.x) =
      insertColorTurn g.side self node f.x g.x := by
  obtain ⟨_,_,hole,other,_,_⟩ := hangs
  cases side : g.side with
  | left =>
    rw [side] at other
    exact if_pos fun same => addr_ne filled out (other.symm.trans same.symm)
  | right =>
    rw [side] at hole
    exact if_neg fun differs => differs hole.symm

theorem loop_over (focus : Focus self (f::rest) t) (color : f.color = .black) (node : BitVec w) (fuel : Nat) :
    insertColorLoop (fuel+1) self node f.x = some self := by
  obtain ⟨address,here,_,_,_,outer⟩ := focus.hangs
  have black : hevRbtreeNodeIsBlack (self.node f.x) = true := by
    rw [hevRbtreeNodeIsBlack,here,black_word (top_aligned rest outer) address.filled,color]
    rfl
  rw [insertColorLoop,if_neg address.filled,load_filled address.filled]
  exact if_pos black

theorem loop_turn (focus : Focus self (f::g::rest) t) (color : f.color = .red) (node : BitVec w) (fuel : Nat) :
    insertColorLoop (fuel+1) self node f.x = (insertColorTurn g.side self node f.x g.x).bind
      (LoopTurn.follow (insertColorLoop fuel)) := by
  obtain ⟨address,here,_,_,_,outer⟩ := focus.hangs
  have red : hevRbtreeNodeIsBlack (self.node f.x) = false := by
    rw [hevRbtreeNodeIsBlack,here,black_word (top_aligned _ outer) address.filled,color]
    rfl
  have out : f.x ∉ g.sibling.list := by
    intro member
    have distinct := (List.nodup_append'.mp focus.distinct).2.1
    exact (List.nodup_cons.mp distinct).1 (by simp [keys,member])
  rw [color,word_red] at here
  rw [insertColorLoop,if_neg address.filled,load_filled address.filled]
  simp only [Option.bind_eq_bind,Option.bind_some,red,Bool.false_eq_true,if_false,hevRbtreeNodeRedParent,here,top,
    load_filled outer.1.filled]
  rw [← turn_side outer out address.filled node]
  split <;> rfl

-- Two frames at a time: the loop does to the memory what the tree's own function does.
theorem insert_loop (path : List (Frame (BitVec w))) (focus : Focus self path (.node .red l x r)) (fits : Fits path above n)
    (left : l.Balanced .black n) (right : r.Balanced .black n) :
    ∃ next, (∀ fuel, path.length < fuel → insertColorLoop fuel self x (top 0 path) = some next) ∧
      Holds next (fixInsert path (.node .red l x r)) := by
  induction path using List.twoStepInduction generalizing self l x r n above with
  | nil =>
    have holds := (holds_focus [] _).mpr focus
    have address := holds.heap.1
    refine ⟨self.put x (setWord (word 0 .black)),fun fuel more => ?_,holds.root,?_,holds.distinct⟩
    · obtain ⟨k,rfl⟩ := Nat.exists_eq_add_of_lt more
      rw [insertColorLoop,top,if_pos rfl,color_filled address.filled]
    · apply heap_moved (c:=.black) holds.heap holds.distinct
      · intro y _ other
        exact (put_node ..).trans (if_neg other)
      · exact fun _ => (put_node ..).trans (if_pos rfl)
  | singleton f =>
    cases above with
    | red => cases fits.parent.2.2
    | black =>
      have color := fits.black_parent.1
      rw [fixInsert_black color]
      refine ⟨self,fun fuel more => ?_,(holds_focus _ _).mpr focus⟩
      obtain ⟨k,rfl⟩ := Nat.exists_eq_add_of_lt more
      exact loop_over focus color x _
  | cons_cons f g rest ih _ =>
    cases above with
    | black =>
      have color := fits.black_parent.1
      rw [fixInsert_black color]
      refine ⟨self,fun fuel more => ?_,(holds_focus _ _).mpr focus⟩
      obtain ⟨k,rfl⟩ := Nat.exists_eq_add_of_lt more
      exact loop_over focus color x _
    | red =>
      obtain ⟨color,sibling,outer⟩ := fits.parent
      obtain ⟨gparent,c,above,uncle,far⟩ := outer.black_parent
      rw [fixInsert,if_neg (by simp [color])]
      split
      · rename_i red
        rw [uncle.rooted.symm.trans red] at uncle
        obtain ⟨middle,turned,after⟩ := insert_recolor focus red
        obtain ⟨a,b,same,low,high⟩ := recolor_balanced (.red left right) sibling uncle
        rw [same] at after ⊢
        obtain ⟨next,ends,holds⟩ := ih after far low high
        refine ⟨next,fun fuel more => ?_,holds⟩
        obtain ⟨k,rfl⟩ := Nat.exists_eq_add_of_lt more
        rw [top,loop_turn focus color,show insertColorTurn g.side self x f.x g.x = _ from turned]
        exact ends _ (by simp; omega)
      · rename_i notRed
        have dark : g.sibling.color = .black := by
          cases shade : g.sibling.color with
          | red => exact (notRed shade).elim
          | black => rfl
        obtain ⟨next,turned,after⟩ := insert_rise focus gparent dark sibling.rooted left.rooted right.rooted
        refine ⟨next,fun fuel more => ?_,(holds_focus _ _).mpr after⟩
        obtain ⟨k,rfl⟩ := Nat.exists_eq_add_of_lt more
        rw [top,loop_turn focus color,turned]
        rfl

def linkOf : List (Frame (BitVec w)) → Link w
  | [] => .root
  | f::_ => .child f.x f.side

theorem read_link (path : List (Frame (BitVec w))) (hangs : Hangs self.node 0 self.root x path) : self.read (linkOf path) = x := by
  cases path with
  | nil => exact hangs
  | cons f rest => exact hangs.2.2.1

theorem child_focus {c : Color} {outer : List (Frame (BitVec w))} (focus : Focus self outer (.node c l x r)) (d : Side) :
    Focus self (⟨d,c,x,(Colored.node c l x r).child d.other⟩::outer) ((Colored.node c l x r).child d) := by
  apply (holds_focus _ _).mp
  rw [plug,Frame.fill,← node_put]
  exact (holds_focus _ _).mpr focus

-- Where a way down to an empty child leads.
theorem slot_frames (outer : List (Frame (BitVec w))) (path : List Side) (focus : Focus self outer t) (empty : IsSlot t.shape path) :
    ∃ frames, t = plug frames .nil ∧ frames.length = path.length ∧
      self.slot path (top 0 outer) (linkOf outer) = some (top 0 (frames++outer),linkOf (frames++outer)) ∧
      ∀ y, inorder (link t.shape path y) = (plug frames (.node .red .nil y .nil)).list := by
  induction path generalizing t outer with
  | nil =>
    cases t with
    | nil =>
      refine ⟨[],rfl,rfl,?_,fun y => rfl⟩
      rw [HevRBTree.slot,read_link outer focus.hangs]
      exact if_pos rfl
    | node c l x r => exact empty.elim
  | cons d path ih =>
    cases t with
    | nil => cases empty
    | node c l x r =>
      have here := child_focus focus d
      have deeper : IsSlot ((Colored.node c l x r).child d).shape path := by
        cases d with
        | left => exact empty
        | right => exact empty
      obtain ⟨frames,shape,size,way,order⟩ := ih _ here deeper
      have filled : x ≠ 0 := focus.heap.1.filled
      refine ⟨frames++[⟨d,c,x,(Colored.node c l x r).child d.other⟩],?_,by simp [size],?_,fun y => ?_⟩
      · rw [plug_append,← shape]
        exact node_put d
      · rw [HevRBTree.slot,read_link outer focus.hangs,addr,if_neg filled,List.append_assoc]
        exact way
      · rw [plug_append,plug,plug,Frame.fill]
        have inner := order y
        cases d with
        | left => simpa [Colored.shape,link,inorder,put,Colored.list,Colored.child,Side.other,shape_inorder] using inner
        | right => simpa [Colored.shape,link,inorder,put,Colored.list,Colored.child,Side.other,shape_inorder] using inner

-- The new node is a red leaf in the slot.
theorem link_focus (path : List (Frame (BitVec w))) (focus : Focus self path .nil) (address : Address x) (fresh : x ∉ keys path) :
    ∃ next, hevRbtreeNodeLink self x (top 0 path) (linkOf path) = some next ∧ Focus next path (.node .red .nil x .nil) := by
  have single : (Colored.node Color.red .nil x .nil).list = [x] := rfl
  have distinct : ([x]++keys path).Nodup := List.nodup_cons.mpr ⟨fresh,focus.distinct⟩
  have hangs := focus.hangs
  cases path with
  | nil =>
    refine ⟨{self.put x (fun _ => ⟨top 0 [],0,0⟩) with root:=x},?_,rfl,⟨address,?_,trivial,trivial⟩,distinct⟩
    · rw [hevRbtreeNodeLink,store_filled address.filled]
      rfl
    · show (self.put x fun _ => ⟨top 0 [],0,0⟩).node x = _
      rw [put_node,if_pos rfl,word_red]
      rfl
  | cons f rest =>
    obtain ⟨fAddress,here,hole,other,sibling,outer⟩ := hangs
    have apart : [[x],[f.x],f.sibling.list,keys rest].flatten.Nodup := by simpa [keys] using distinct
    obtain ⟨tag,atX,atF,inS,inK,_⟩ := exists_tag 0 _ apart
    rw [List.forall_mem_singleton] at atX atF
    have xf : x ≠ f.x := differ atX atF (by simp)
    let m := self.put x fun _ => ⟨f.x,0,0⟩
    let next := m.put f.x (·.setChild f.side x)
    have same : ∀ y, y ≠ x → y ≠ f.x → next.node y = self.node y := by
      intro y notX notF
      rw [put_node,if_neg notF,put_node,if_neg notX]
    have xNode : next.node x = ⟨word f.x .red,0,0⟩ := by
      rw [put_node,if_neg xf,put_node,if_pos rfl,word_red]
    have fNode : next.node f.x = (self.node f.x).setChild f.side x := by
      rw [put_node,if_pos rfl,put_node,if_neg xf.symm]
    refine ⟨next,?_,⟨fAddress,?_,?_,?_,?_,?_⟩,⟨address,xNode,trivial,trivial⟩,distinct⟩
    · rw [hevRbtreeNodeLink,store_filled address.filled,Option.bind_eq_bind,Option.bind_some]
      exact child_filled fAddress.filled f.side x
    · rw [fNode,setChild_word,here]
    · rw [fNode,setChild_child]
      rfl
    · rw [fNode,setChild_other,other]
    · apply heap_same sibling
      intro y member
      exact same y (differ (inS y member) atX (by simp)) (differ (inS y member) atF (by simp))
    · apply hangs_same rest outer
      intro y member
      exact same y (differ (inK y member) atX (by simp)) (differ (inK y member) atF (by simp))

-- An insertion ends, and leaves the red-black tree with the node linked at the empty child.
theorem insertAt_holds (holds : Holds self t) (balanced : IsRedBlack t) {path : List Side} (empty : IsSlot t.shape path) (address : Address x)
    (fresh : x ∉ t.list) :
    ∃ next t', (∀ fuel, path.length < fuel → self.insertAt fuel path x = some next) ∧ Holds next t' ∧ IsRedBlack t' ∧
      t'.list = inorder (link t.shape path x) := by
  obtain ⟨frames,shape,size,way,order⟩ := slot_frames [] path ((holds_focus [] t).mp holds) empty
  rw [List.append_nil] at way
  rw [shape] at holds balanced fresh
  have focus := (holds_focus frames .nil).mp holds
  have out : x ∉ keys frames := fun member => fresh ((plug_perm frames .nil).mem_iff.mpr member)
  obtain ⟨above,c,n,fits,leaf,_⟩ := fits_of_plug balanced
  cases leaf
  obtain ⟨linked,linking,start⟩ := link_focus frames focus address out
  obtain ⟨next,ends,after⟩ := insert_loop frames start fits .nil .nil
  refine ⟨next,_,fun fuel more => ?_,after,fixInsert_balanced frames fits .nil .nil,?_⟩
  · have parent : hevRbtreeNodeRedParent (linked.node x) = top 0 frames := by
      rw [hevRbtreeNodeRedParent,start.heap.2.1,word_red]
    rw [HevRBTree.insertAt,show self.slot path 0 .root = _ from way]
    simp only [Option.bind_eq_bind,Option.bind_some,linking,hevRbtreeInsertColor,load_filled address.filled,parent]
    exact ends fuel (size ▸ more)
  · rw [fixInsert_list,order]

end Psocks.RBTree
