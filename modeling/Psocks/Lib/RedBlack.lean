import Mathlib.Data.List.Induction
import Psocks.Lib.SearchTree

namespace Psocks.RedBlack
open SearchTree
variable {α : Type}

inductive Color where
  | red
  | black
deriving DecidableEq, Repr

inductive Colored (α : Type) where
  | nil
  | node (color : Color) (left : Colored α) (x : α) (right : Colored α)
deriving DecidableEq, Repr

def Colored.shape : Colored α → BinaryTree α
  | .nil => .nil
  | .node _ l x r => .node x l.shape r.shape

def Colored.list : Colored α → List α
  | .nil => []
  | .node _ l x r => l.list++x::r.list

def Colored.color : Colored α → Color
  | .nil => .black
  | .node c _ _ _ => c

def Colored.paint (c : Color) : Colored α → Colored α
  | .nil => .nil
  | .node _ l x r => .node c l x r

def Colored.child : Colored α → Side → Colored α
  | .nil, _ => .nil
  | .node _ l _ _, .left => l
  | .node _ _ _ r, .right => r

-- A node whose child on the side `d` is `near`.
def put (d : Side) (c : Color) (x : α) (near far : Colored α) : Colored α :=
  match d with
  | .left => .node c near x far
  | .right => .node c far x near

-- A node above a hole on its side `side`.
structure Frame (α : Type) where
  side : Side
  color : Color
  x : α
  sibling : Colored α

def Frame.fill (f : Frame α) (t : Colored α) : Colored α := put f.side f.color f.x t f.sibling

-- The frames from the hole upwards.
def plug : List (Frame α) → Colored α → Colored α
  | [], t => t
  | f::rest, t => plug rest (f.fill t)

def keys : List (Frame α) → List α
  | [] => []
  | f::rest => f.x::(f.sibling.list++keys rest)

-- No red node has a red child, and the same number of black nodes is on each way down.
inductive Colored.Balanced : Colored α → Color → Nat → Prop
  | nil : Colored.Balanced .nil .black 0
  | red (left : Colored.Balanced l .black n) (right : Colored.Balanced r .black n) : Colored.Balanced (.node .red l x r) .red n
  | black (left : Colored.Balanced l c n) (right : Colored.Balanced r c' n) : Colored.Balanced (.node .black l x r) .black (n+1)

def IsRedBlack (t : Colored α) : Prop := ∃ n, t.Balanced .black n

-- Frames that take a tree with `n` black nodes on each way down, and a red root only
-- below a black node: `above` is the colour over the hole, and red over the whole tree.
inductive Fits : List (Frame α) → Color → Nat → Prop
  | root {n : Nat} : Fits [] .red n
  | red {f : Frame α} {n : Nat} {rest : List (Frame α)} (color : f.color = .red) (sibling : f.sibling.Balanced .black n)
    (outer : Fits rest .black n) : Fits (f::rest) .red n
  | black {f : Frame α} {n : Nat} {c above : Color} {rest : List (Frame α)} (color : f.color = .black)
    (sibling : f.sibling.Balanced c n) (outer : Fits rest above (n+1)) : Fits (f::rest) .black n

variable {d : Side} {c above : Color} {n m : Nat} {t l r near far : Colored α} {x y : α} {f g : Frame α} {rest path : List (Frame α)}

@[simp] theorem other_other (d : Side) : d.other.other = d := by cases d <;> rfl

@[simp] theorem put_child : (put d c x near far).child d = near := by cases d <;> rfl

@[simp] theorem put_child_other : (put d c x near far).child d.other = far := by cases d <;> rfl

@[simp] theorem put_other : put d.other c x near far = put d c x far near := by cases d <;> rfl

@[simp] theorem put_color : (put d c x near far).color = c := by cases d <;> rfl

@[simp] theorem put_paint : (put d c x near far).paint m' = put d m' x near far := by cases d <;> rfl

theorem node_put (d : Side) : Colored.node c l x r = put d c x ((Colored.node c l x r).child d) ((Colored.node c l x r).child d.other) := by
  cases d <;> rfl

@[simp] theorem paint_list (t : Colored α) : (t.paint c).list = t.list := by cases t <;> rfl

@[simp] theorem paint_color (t : Colored α) : t.paint t.color = t := by cases t <;> rfl

theorem shape_inorder (t : Colored α) : inorder t.shape = t.list := by
  induction t with
  | nil => rfl
  | node c l x r left right => simp [Colored.shape,Colored.list,inorder,left,right]

theorem put_perm : (put d c x near far).list.Perm (x::(near.list++far.list)) := by
  cases d with
  | left => exact List.perm_middle
  | right => exact List.perm_middle.trans (List.Perm.cons x List.perm_append_comm)

theorem node_perm (d : Side) : (Colored.node c l x r).list.Perm
    (x::(((Colored.node c l x r).child d).list++((Colored.node c l x r).child d.other).list)) := by
  cases d with
  | left => exact put_perm (d:=.left)
  | right => exact put_perm (d:=.right)

theorem fill_perm (f : Frame α) (t : Colored α) : ((f.fill t).list++keys rest).Perm (t.list++keys (f::rest)) := by
  have filled : (f.fill t).list.Perm (f.x::(t.list++f.sibling.list)) := put_perm
  calc (f.fill t).list++keys rest
    _ |>.Perm (f.x::(t.list++f.sibling.list)++keys rest) := filled.append_right _
    _ |>.Perm (t.list++f.x::(f.sibling.list++keys rest)) := by
      have moved : (f.x::(t.list++(f.sibling.list++keys rest))).Perm (t.list++f.x::(f.sibling.list++keys rest)) := List.perm_middle.symm
      simpa using moved

theorem plug_perm (path : List (Frame α)) (t : Colored α) : (plug path t).list.Perm (t.list++keys path) := by
  induction path generalizing t with
  | nil => simp [plug,keys]
  | cons f rest ih => exact (ih (f.fill t)).trans (fill_perm f t)

theorem keys_length (path : List (Frame α)) : path.length ≤ (keys path).length := by
  induction path with
  | nil => exact Nat.zero_le _
  | cons f rest ih =>
    simp only [keys,List.length_cons,List.length_append]
    omega

theorem plug_length (path : List (Frame α)) (t : Colored α) : path.length+t.list.length ≤ (plug path t).list.length := by
  have perm := (plug_perm path t).length_eq
  have long := keys_length path
  rw [List.length_append] at perm
  omega

-- What replaces a subtree in order replaces it in the whole.
theorem plug_list (path : List (Frame α)) : ∃ before after, ∀ t : Colored α, (plug path t).list = before++t.list++after := by
  induction path with
  | nil => exact ⟨[],[],by simp [plug]⟩
  | cons f rest ih =>
    obtain ⟨before,after,whole⟩ := ih
    obtain ⟨side,c,x,s⟩ := f
    cases side with
    | left => exact ⟨before,x::s.list++after,fun t => by simp [plug,whole,Frame.fill,put,Colored.list]⟩
    | right => exact ⟨before++s.list++[x],after,fun t => by simp [plug,whole,Frame.fill,put,Colored.list]⟩

theorem plug_same (same : t.list = l.list) : (plug path t).list = (plug path l).list := by
  obtain ⟨before,after,whole⟩ := plug_list path
  rw [whole,whole,same]

theorem plug_append (outer : List (Frame α)) : plug (path++outer) t = plug outer (plug path t) := by
  induction path generalizing t with
  | nil => rfl
  | cons f rest ih => exact ih

theorem plug_of_member (member : x ∈ t.list) : ∃ path c l r, t = plug path (.node c l x r) := by
  induction t with
  | nil => cases member
  | node c l y r left right =>
    rcases List.mem_append.mp member with low | rest
    · obtain ⟨path,c',l',r',same⟩ := left low
      exact ⟨path++[⟨.left,c,y,r⟩],c',l',r',by rw [plug_append,← same]; rfl⟩
    · rcases List.mem_cons.mp rest with rfl | high
      · exact ⟨[],c,l,r,rfl⟩
      · obtain ⟨path,c',l',r',same⟩ := right high
        exact ⟨path++[⟨.right,c,y,l⟩],c',l',r',by rw [plug_append,← same]; rfl⟩

theorem Colored.Balanced.rooted (balanced : t.Balanced c n) : t.color = c := by cases balanced <;> rfl

theorem put_red (left : near.Balanced .black n) (right : far.Balanced .black n) : (put d .red x near far).Balanced .red n := by
  cases d with
  | left => exact .red left right
  | right => exact .red right left

theorem put_black (left : near.Balanced c n) (right : far.Balanced c' n) : (put d .black x near far).Balanced .black (n+1) := by
  cases d with
  | left => exact .black left right
  | right => exact .black right left

theorem red_put (balanced : (put d .red x near far).Balanced c n) : c = .red ∧ near.Balanced .black n ∧ far.Balanced .black n := by
  cases d with
  | left => cases balanced with | red a b => exact ⟨rfl,a,b⟩
  | right => cases balanced with | red a b => exact ⟨rfl,b,a⟩

theorem black_put (balanced : (put d .black x near far).Balanced c n) :
    c = .black ∧ ∃ k a b, n = k+1 ∧ near.Balanced a k ∧ far.Balanced b k := by
  cases d with
  | left => cases balanced with | black a b => exact ⟨rfl,_,_,_,rfl,a,b⟩
  | right => cases balanced with | black a b => exact ⟨rfl,_,_,_,rfl,b,a⟩

theorem Fits.plug (fits : Fits path above n) (balanced : t.Balanced c n) (allowed : above = .red → c = .black) :
    IsRedBlack (RedBlack.plug path t) := by
  induction fits generalizing t c with
  | root => exact ⟨_,(allowed rfl) ▸ balanced⟩
  | @red f n path color sibling outer ih =>
    have filled : (f.fill t).Balanced .red n := by
      rw [Frame.fill,color]
      exact put_red ((allowed rfl) ▸ balanced) sibling
    exact ih filled (by simp)
  | @black f n b above path color sibling outer ih =>
    have filled : (f.fill t).Balanced .black (n+1) := by
      rw [Frame.fill,color]
      exact put_black balanced sibling
    exact ih filled fun _ => rfl

theorem Colored.Balanced.red_black (balanced : t.Balanced .red n) : (t.paint .black).Balanced .black (n+1) := by
  cases balanced with
  | red a b => exact .black a b

-- A subtree of a red-black tree, and what is around it.
theorem fits_of_plug (balanced : IsRedBlack (plug path t)) :
    ∃ above c n, Fits path above n ∧ t.Balanced c n ∧ (above = .red → c = .black) := by
  induction path generalizing t with
  | nil =>
    obtain ⟨n,whole⟩ := balanced
    exact ⟨.red,.black,n,.root,whole,fun _ => rfl⟩
  | cons f rest ih =>
    obtain ⟨above,c,n,fits,filled,allowed⟩ := ih balanced
    unfold Frame.fill at filled
    cases color : f.color with
    | red =>
      rw [color] at filled
      obtain ⟨rfl,inner,sibling⟩ := red_put filled
      cases above with
      | red => cases allowed rfl
      | black => exact ⟨.red,.black,n,.red color sibling fits,inner,fun _ => rfl⟩
    | black =>
      rw [color] at filled
      obtain ⟨rfl,k,a,b,rfl,inner,sibling⟩ := black_put filled
      exact ⟨.black,a,k,.black color sibling fits,inner,by simp⟩

-- Insertion. The red node with children `l` and `r` comes below the red node of `f`,
-- which is below the black one of `g`: with a red uncle the colours change, otherwise
-- the node or its parent takes the place of `g`.
def recolor (f g : Frame α) (t : Colored α) : Colored α := put g.side .red g.x (put f.side .black f.x t f.sibling) (g.sibling.paint .black)

def rise (f g : Frame α) (l : Colored α) (x : α) (r : Colored α) : Colored α :=
  if f.side = g.side then put g.side .black f.x (.node .red l x r) (put g.side .red g.x f.sibling g.sibling)
  else
    let t := Colored.node .red l x r
    put g.side .black x (put g.side .red f.x f.sibling (t.child g.side)) (put g.side .red g.x (t.child g.side.other) g.sibling)

def fixInsert : List (Frame α) → Colored α → Colored α
  | f::g::rest, .node c l x r =>
    if f.color = .black then plug (f::g::rest) (.node c l x r)
    else if g.sibling.color = .red then fixInsert rest (recolor f g (.node c l x r))
    else plug rest (rise f g l x r)
  | path, t => if path = [] then t.paint .black else plug path t

theorem recolor_list : (recolor f g t).list = (g.fill (f.fill t)).list := by
  unfold recolor Frame.fill
  cases f.side <;> cases g.side <;> simp [put,Colored.list]

theorem rise_list : (rise f g l x r).list = (g.fill (f.fill (.node c l x r))).list := by
  unfold rise Frame.fill
  cases f.side <;> cases g.side <;> simp [put,Colored.list,Colored.child,Side.other]

theorem recolor_balanced (focus : t.Balanced .red n) (sibling : f.sibling.Balanced .black n) (uncle : g.sibling.Balanced .red n) :
    ∃ l r, recolor f g t = .node .red l g.x r ∧ l.Balanced .black (n+1) ∧ r.Balanced .black (n+1) := by
  have parent := put_black (d:=f.side) (x:=f.x) focus sibling
  unfold recolor
  cases g.side with
  | left => exact ⟨_,_,rfl,parent,uncle.red_black⟩
  | right => exact ⟨_,_,rfl,uncle.red_black,parent⟩

theorem rise_balanced (left : l.Balanced .black n) (right : r.Balanced .black n) (sibling : f.sibling.Balanced .black n)
    (uncle : g.sibling.Balanced .black n) : (rise f g l x r).Balanced .black (n+1) := by
  unfold rise
  split
  · exact put_black (.red left right) (put_red sibling uncle)
  · have children : ∀ d, ((Colored.node Color.red l x r).child d).Balanced .black n := by
      intro d
      cases d with
      | left => exact left
      | right => exact right
    exact put_black (put_red sibling (children _)) (put_red (children _) uncle)

theorem fixInsert_list (path : List (Frame α)) (t : Colored α) : (fixInsert path t).list = (plug path t).list := by
  fun_induction fixInsert path t with
  | case1 f g rest c l x r color => rfl
  | case2 f g rest c l x r color uncle ih => exact ih.trans (plug_same recolor_list)
  | case3 f g rest c l x r color uncle => exact plug_same rise_list
  | case4 t => exact paint_list t
  | case5 path t => rfl

theorem Fits.parent (fits : Fits (f::rest) .red n) :
    f.color = .red ∧ f.sibling.Balanced .black n ∧ Fits rest .black n := by
  cases fits with
  | red color sibling outer => exact ⟨color,sibling,outer⟩

theorem Fits.black_parent (fits : Fits (f::rest) .black n) :
    f.color = .black ∧ ∃ c above, f.sibling.Balanced c n ∧ Fits rest above (n+1) := by
  cases fits with
  | black color sibling outer => exact ⟨color,_,_,sibling,outer⟩

theorem fixInsert_black (color : f.color = .black) : fixInsert (f::rest) (.node c l x r) = plug (f::rest) (.node c l x r) := by
  cases rest with
  | nil => simp [fixInsert]
  | cons g rest => rw [fixInsert,if_pos color]

-- The red node may be below a red one, and nothing else is out of order.
theorem fixInsert_balanced (path : List (Frame α)) (fits : Fits path above n) (left : l.Balanced .black n) (right : r.Balanced .black n) :
    IsRedBlack (fixInsert path (.node .red l x r)) := by
  induction path using List.twoStepInduction generalizing l x r n above with
  | nil => exact ⟨_,.black left right⟩
  | singleton f =>
    cases above with
    | red => cases fits.parent.2.2
    | black =>
      rw [fixInsert_black fits.black_parent.1]
      exact fits.plug (.red left right) (by simp)
  | cons_cons f g rest ih _ =>
    have focus : (Colored.node .red l x r).Balanced .red n := .red left right
    cases above with
    | black =>
      rw [fixInsert_black fits.black_parent.1]
      exact fits.plug focus (by simp)
    | red =>
      obtain ⟨color,sibling,outer⟩ := fits.parent
      obtain ⟨_,c,above,uncle,far⟩ := outer.black_parent
      rw [fixInsert,if_neg (by simp [color])]
      split
      · rename_i red
        rw [uncle.rooted.symm.trans red] at uncle
        obtain ⟨a,b,same,low,high⟩ := recolor_balanced focus sibling uncle
        rw [same]
        exact ih far low high
      · rename_i black
        cases c with
        | red => exact absurd uncle.rooted black
        | black => exact far.plug (rise_balanced left right sibling uncle) fun _ => rfl

-- Erasure. `t` is short of one black node, and the sibling's root is black; the flag
-- says that the whole is still short.
def mend (f : Frame α) (t : Colored α) : Colored α × Bool :=
  match f.sibling with
  | .nil => (f.fill t,false)
  | .node c a s b =>
    let near := (Colored.node c a s b).child f.side
    let far := (Colored.node c a s b).child f.side.other
    if far.color = .red then (put f.side f.color s (put f.side .black f.x t near) (far.paint .black),false)
    else
      match near with
      | .node .red a' y b' =>
        let inner := Colored.node Color.red a' y b'
        (put f.side f.color y (put f.side .black f.x t (inner.child f.side)) (put f.side .black s (inner.child f.side.other) far),false)
      | _ => (put f.side .black f.x t (.node .red a s b),f.color = .black)

def fixErase : List (Frame α) → Colored α → Colored α
  | [], t => t
  | f::rest, t =>
    match f.sibling with
    | .node .red a s b =>
      let sibling := Colored.node Color.red a s b
      plug (⟨f.side,f.color,s,sibling.child f.side.other⟩::rest) (mend ⟨f.side,.red,f.x,sibling.child f.side⟩ t).1
    | _ =>
      let mended := mend f t
      if mended.2 then fixErase rest mended.1 else plug rest mended.1

-- The leftmost node below a node, and what is above it.
def takeFirst : List (Frame α) → Color → Colored α → α → Colored α → List (Frame α) × Color × α × Colored α
  | path, c, .nil, x, r => (path,c,x,r)
  | path, c, .node c' l y r', x, r => takeFirst (⟨.left,c,x,r⟩::path) c' l y r'

-- The node over `t` is gone.
def close (path : List (Frame α)) (gone kept : Color) : Colored α → Colored α
  | .nil => if gone = .black then fixErase path .nil else plug path .nil
  | t => plug path (t.paint kept)

def eraseAt (path : List (Frame α)) : Colored α → Colored α
  | .nil => plug path .nil
  | .node c .nil _ r => close path c c r
  | .node c l _ .nil => plug path (l.paint c)
  | .node c l _ (.node c' l' y r') =>
    let (inner,gone,s,child) := takeFirst [] c' l' y r'
    close (inner++⟨.right,c,s,l⟩::path) gone .black child

theorem mend_list : (mend f t).1.list = (f.fill t).list := by
  unfold mend
  cases sibling : f.sibling with
  | nil => rfl
  | node c a s b =>
    have children : (f.fill t).list = (put f.side f.color f.x t (.node c a s b)).list := by rw [Frame.fill,sibling]
    rw [children]
    cases side : f.side with
    | left =>
      dsimp only [Colored.child,Side.other]
      split
      · simp [put,Colored.list]
      · split <;> simp [put,Colored.list]
    | right =>
      dsimp only [Colored.child,Side.other]
      split
      · simp [put,Colored.list]
      · split <;> simp [put,Colored.list]

theorem fill_same (same : t.list = l.list) : (f.fill t).list = (f.fill l).list := by
  unfold Frame.fill
  cases f.side <;> simp [put,Colored.list,same]

theorem fixErase_list (path : List (Frame α)) (t : Colored α) : (fixErase path t).list = (plug path t).list := by
  induction path generalizing t with
  | nil => rfl
  | cons f rest ih =>
    unfold fixErase
    split
    · rename_i a s b sibling
      have turned : (Frame.fill ⟨f.side,f.color,s,(Colored.node .red a s b).child f.side.other⟩
          (Frame.fill ⟨f.side,.red,f.x,(Colored.node .red a s b).child f.side⟩ t)).list = (f.fill t).list := by
        unfold Frame.fill
        rw [sibling]
        cases f.side <;> simp [put,Colored.list,Colored.child,Side.other]
      exact plug_same ((fill_same mend_list).trans turned)
    · dsimp only
      split
      · exact (ih _).trans (plug_same mend_list)
      · exact plug_same mend_list

theorem close_list {gone kept : Color} : (close path gone kept t).list = (plug path t).list := by
  cases t with
  | nil =>
    simp only [close]
    split
    · exact fixErase_list path .nil
    · rfl
  | node c l x r => exact plug_same (paint_list _)

theorem takeFirst_plug (path : List (Frame α)) (c : Color) (l : Colored α) (x : α) (r : Colored α) :
    let first := takeFirst path c l x r
    plug first.1 (.node first.2.1 .nil first.2.2.1 first.2.2.2) = plug path (.node c l x r) := by
  induction l generalizing path c x r with
  | nil => rfl
  | node c' l y r' left _ => exact left _ c' y r'

theorem takeFirst_left {p : List (Frame α)} (left : ∀ f ∈ p, f.side = .left) (c : Color) (l : Colored α) (x : α) (r : Colored α) :
    ∀ f ∈ (takeFirst p c l x r).1, f.side = .left := by
  induction l generalizing p c x r with
  | nil => exact left
  | node c' l y r' ih _ => exact ih (List.forall_mem_cons.mpr ⟨rfl,left⟩) c' y r'

theorem takeFirst_length (path : List (Frame α)) (c : Color) (l : Colored α) (x : α) (r : Colored α) :
    path.length ≤ (takeFirst path c l x r).1.length := by
  induction l generalizing path c x r with
  | nil => exact Nat.le_refl _
  | node c' l y r' ih _ => exact Nat.le_trans (Nat.le_succ _) (ih (⟨.left,c,x,r⟩::path) c' y r')

theorem left_list {p : List (Frame α)} (left : ∀ f ∈ p, f.side = .left) :
    ∃ after, ∀ t : Colored α, (plug p t).list = t.list++after := by
  induction p with
  | nil => exact ⟨[],by simp [plug]⟩
  | cons f rest ih =>
    obtain ⟨side,others⟩ := List.forall_mem_cons.mp left
    obtain ⟨after,ends⟩ := ih others
    exact ⟨f.x::f.sibling.list++after,fun t => by simp [plug,ends,Frame.fill,put,side,Colored.list]⟩

theorem plug_under : plug (path++⟨.right,c,x,l⟩::rest) t = plug rest (.node c l x (plug path t)) := by
  rw [plug_append]
  rfl

-- The erased node is missing, and nothing else is.
theorem eraseAt_list (path : List (Frame α)) (c : Color) (l : Colored α) (x : α) (r : Colored α) :
    ∃ before after, (plug path (.node c l x r)).list = before++x::after ∧ (eraseAt path (.node c l x r)).list = before++after := by
  obtain ⟨before,after,whole⟩ := plug_list path
  refine ⟨before++l.list,r.list++after,by simp [whole,Colored.list],?_⟩
  cases l with
  | nil =>
    simp only [eraseAt]
    rw [close_list,whole]
    simp [Colored.list]
  | node lc ll y lr =>
    cases r with
    | nil =>
      simp only [eraseAt]
      rw [whole]
      simp [Colored.list,Colored.paint]
    | node rc rl z rr =>
      have first := takeFirst_plug [] rc rl z rr
      have leftmost := takeFirst_left (p:=[]) (by simp) rc rl z rr
      simp only [eraseAt]
      generalize takeFirst [] rc rl z rr = taken at first leftmost ⊢
      obtain ⟨inner,gone,s,child⟩ := taken
      obtain ⟨behind,ends⟩ := left_list leftmost
      have right : (Colored.node rc rl z rr).list = s::(child.list++behind) := by
        rw [← show plug [] (Colored.node rc rl z rr) = .node rc rl z rr from rfl,← first,ends]
        simp [Colored.list]
      rw [close_list,plug_under,whole,right]
      simp [Colored.list,ends]

def Color.weight : Color → Nat
  | .red => 0
  | .black => 1

theorem put_any (left : near.Balanced .black n) (right : far.Balanced .black n) : (put d c x near far).Balanced c (n+c.weight) := by
  cases c with
  | red => exact put_red left right
  | black => exact put_black left right

theorem Colored.Balanced.red_sides (balanced : (Colored.node .red l x r).Balanced .red n) (d : Side) :
    ((Colored.node .red l x r).child d).Balanced .black n := by
  rw [node_put d] at balanced
  exact (red_put balanced).2.1

theorem Colored.Balanced.sides (balanced : (Colored.node .black l x r).Balanced .black (n+1)) (d : Side) :
    ∃ a b, ((Colored.node .black l x r).child d).Balanced a n ∧ ((Colored.node .black l x r).child d.other).Balanced b n := by
  rw [node_put d] at balanced
  obtain ⟨_,k,a,b,same,near,far⟩ := black_put balanced
  cases Nat.succ.inj same
  exact ⟨a,b,near,far⟩

theorem sides_red (left : ((Colored.node c l x r).child d).Balanced .black n) (right : ((Colored.node c l x r).child d.other).Balanced .black n) :
    (Colored.node .red l x r).Balanced .red n := by
  cases d with
  | left => exact .red left right
  | right => exact .red right left

theorem not_red (other : ∀ l x r, t = .node .red l x r → False) : t.color = .black := by
  cases t with
  | nil => rfl
  | node c l x r =>
    cases c with
    | red => exact (other l x r rfl).elim
    | black => rfl

-- Either the tree has its black nodes back, or the parent was black and one is still missing.
theorem mend_balanced (short : t.Balanced .black n) (sibling : f.sibling.Balanced .black (n+1)) :
    ((mend f t).2 = false ∧ ∃ c, (mend f t).1.Balanced c (n+1+f.color.weight) ∧ (f.color = .black → c = .black)) ∨
      ((mend f t).2 = true ∧ f.color = .black ∧ (mend f t).1.Balanced .black (n+1)) := by
  unfold mend
  cases same : f.sibling with
  | nil =>
    rw [same] at sibling
    cases sibling
  | node c a s b =>
    rw [same] at sibling
    cases sibling.rooted
    obtain ⟨near,far,left,right⟩ := sibling.sides f.side
    dsimp only
    split
    · rename_i red
      cases right.rooted.symm.trans red
      exact .inl ⟨rfl,_,put_any (put_black short left) right.red_black,fun same => same⟩
    · rename_i notRed
      split
      · rename_i a' y b' inner
        rw [inner] at left
        cases left.rooted
        have outward := put_black (d:=f.side) (x:=s) (left.red_sides f.side.other) right
        exact .inl ⟨rfl,_,put_any (put_black short (left.red_sides f.side)) outward,fun same => same⟩
      · rename_i other
        have dark : near = .black := left.rooted.symm.trans (not_red other)
        subst dark
        have darkFar : far = .black := by
          cases far with
          | black => rfl
          | red => exact absurd right.rooted notRed
        subst darkFar
        have mended := put_black (d:=f.side) (x:=f.x) short (sides_red left right)
        cases color : f.color with
        | red => exact .inl ⟨by simp,_,mended,by simp⟩
        | black => exact .inr ⟨by simp,rfl,mended⟩

theorem fixErase_dark (dark : f.sibling.color = .black) :
    fixErase (f::rest) t = if (mend f t).2 then fixErase rest (mend f t).1 else plug rest (mend f t).1 := by
  simp only [fixErase]
  split
  · rename_i same
    rw [same] at dark
    cases dark
  · rfl

-- The tree in the place of the hole is short of one black node.
theorem fixErase_balanced (path : List (Frame α)) (fits : Fits path above (n+1)) (short : t.Balanced .black n) :
    IsRedBlack (fixErase path t) := by
  induction path generalizing t n above with
  | nil => exact ⟨_,short⟩
  | cons f rest ih =>
    cases above with
    | red =>
      obtain ⟨color,sibling,outer⟩ := fits.parent
      rw [fixErase_dark sibling.rooted]
      rcases mend_balanced short sibling with ⟨flag,c,mended,_⟩ | ⟨_,dark,_⟩
      · rw [color] at mended
        rw [flag]
        exact outer.plug mended (by simp)
      · cases color.symm.trans dark
    | black =>
      obtain ⟨color,c,above,sibling,outer⟩ := fits.black_parent
      cases c with
      | black =>
        rw [fixErase_dark sibling.rooted]
        rcases mend_balanced short sibling with ⟨flag,c,mended,allowed⟩ | ⟨flag,_,mended⟩
        · rw [color] at mended
          rw [flag]
          exact outer.plug mended fun _ => allowed color
        · rw [flag]
          exact ih outer mended
      | red =>
        unfold fixErase
        split
        · rename_i a s b same
          rw [same] at sibling
          have inner : Fits (⟨f.side,f.color,s,(Colored.node .red a s b).child f.side.other⟩::rest) .black (n+1) :=
            .black color (sibling.red_sides f.side.other) outer
          have near : (Frame.mk f.side .red f.x ((Colored.node .red a s b).child f.side)).sibling.Balanced .black (n+1) :=
            sibling.red_sides f.side
          rcases mend_balanced short near with ⟨_,c,mended,_⟩ | ⟨_,dark,_⟩
          · exact inner.plug mended (by simp)
          · cases dark
        · rename_i other
          cases shape : f.sibling with
          | nil =>
            rw [shape] at sibling
            cases sibling
          | node c l x r =>
            rw [shape] at sibling
            cases sibling.rooted
            exact (other l x r shape).elim

theorem fits_rename (y : α) (fits : Fits (path++f::rest) above n) : Fits (path++⟨f.side,f.color,y,f.sibling⟩::rest) above n := by
  induction path generalizing above n with
  | nil =>
    cases fits with
    | red color sibling outer => exact .red color sibling outer
    | black color sibling outer => exact .black color sibling outer
  | cons g path ih =>
    cases fits with
    | red color sibling outer => exact .red color sibling (ih outer)
    | black color sibling outer => exact .black color sibling (ih outer)

-- A node with one child is black, and its child is a red leaf.
theorem one_child (balanced : (put d c x .nil t).Balanced c n) (filled : t ≠ .nil) : c = .black ∧ n = 1 ∧ t.Balanced .red 0 := by
  cases c with
  | red =>
    obtain ⟨_,none,child⟩ := red_put balanced
    cases none
    cases child
    exact (filled rfl).elim
  | black =>
    obtain ⟨_,k,a,b,same,none,child⟩ := black_put balanced
    cases none
    cases same
    refine ⟨rfl,rfl,?_⟩
    cases child with
    | nil => exact (filled rfl).elim
    | red a b => exact .red a b

theorem close_balanced {gone kept : Color} (fits : Fits path above n) (balanced : (Colored.node gone .nil x t).Balanced gone n)
    (allowed : above = .red → gone = .black) (paint : t = .nil ∨ kept = .black) : IsRedBlack (close path gone kept t) := by
  cases t with
  | nil =>
    simp only [close]
    cases balanced with
    | red a b =>
      cases a
      exact fits.plug .nil fun _ => rfl
    | black a b =>
      cases a
      exact fixErase_balanced path fits .nil
  | node c l y r =>
    obtain ⟨rfl,rfl,child⟩ := one_child (d:=.left) balanced (by simp)
    rw [paint.resolve_left (by simp)]
    exact fits.plug child.red_black fun _ => rfl

theorem eraseAt_balanced (balanced : IsRedBlack (plug path t)) : IsRedBlack (eraseAt path t) := by
  cases t with
  | nil => exact balanced
  | node c l x r =>
    obtain ⟨above,_,n,fits,node,allowed⟩ := fits_of_plug balanced
    cases node.rooted
    cases l with
    | nil =>
      apply close_balanced fits node allowed
      by_cases leaf : r = .nil
      · exact .inl leaf
      · exact .inr (one_child (d:=.left) node leaf).1
    | node lc ll y lr =>
      cases r with
      | nil =>
        obtain ⟨color,rfl,child⟩ := one_child (d:=.right) node (by simp)
        cases color
        exact fits.plug child.red_black fun _ => rfl
      | node rc rl z rr =>
        have first := takeFirst_plug [] rc rl z rr
        simp only [eraseAt]
        generalize takeFirst [] rc rl z rr = taken at first ⊢
        obtain ⟨inner,gone,s,child⟩ := taken
        have whole : plug path (.node c (.node lc ll y lr) x (.node rc rl z rr)) =
            plug (inner++⟨.right,c,x,.node lc ll y lr⟩::path) (.node gone .nil s child) := by
          rw [plug_under]
          exact congrArg (fun t => plug path (.node c (.node lc ll y lr) x t)) first.symm
        rw [whole] at balanced
        obtain ⟨above,_,n,fits,node,allowed⟩ := fits_of_plug balanced
        cases node.rooted
        exact close_balanced (fits_rename s fits) node allowed (.inr rfl)

end Psocks.RedBlack
