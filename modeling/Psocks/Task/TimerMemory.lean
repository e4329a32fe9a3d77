import Psocks.Task.ScheduleMemory
import Psocks.Task.Timer

namespace Psocks.Schedule
open Psocks.RBTree
variable {w : Nat}

abbrev MemorySystem (w : Nat) := System (BitVec w) (HevRBTreeCached w) (HevRBTreeCached w) w

-- The same system with both of its trees in memory.
def overSystem (s : ListSystem (BitVec w) w) (tree sorted : HevRBTreeCached w) : MemorySystem w :=
  ⟨onTree s.ctx tree,s.phase,sorted,s.node,s.waits,s.remaining,s.clock,s.checked⟩

def Doubles (call : Nat → Option (MemorySystem w)) (next : ListSystem (BitVec w) w) : Prop :=
  ∃ tree sorted, Ends call (overSystem next tree sorted) ∧ Keeps tree next.ctx.runningTasks ∧ Keeps sorted next.sortTree

variable {s next : ListSystem (BitVec w) w} {tree sorted : HevRBTreeCached w} {live : List (BitVec w)} {turns : Nat}
variable {c x : BitVec w} {frame : Frame w} {now : Timespec}

theorem double_tick (tree sorted : HevRBTreeCached w) (went : tick s now = some next) :
    tick (overSystem s tree sorted) now = some (overSystem next tree sorted) := by
  unfold tick at went ⊢
  rw [show (overSystem s tree sorted).clock = s.clock from rfl]
  split at went
  · rename_i valid
    cases went
    exact if_pos valid
  · cases went

theorem double_wakeup (kept : Kept live turns s) (placed : ∀ y ∈ live, Address y) (keeps : Keeps tree s.ctx.runningTasks)
    (ordered : Keeps sorted s.sortTree) (went : hevTaskTimerWakeup line line s now = some next) :
    Doubles (fun fuel => hevTaskTimerWakeup (cached fuel) (cached fuel) (overSystem s tree sorted) now) next := by
  have first : ∀ fuel, (cached fuel).first (overSystem s tree sorted).sortTree = s.sortTree.head? := first_items ordered
  simp only [hevTaskTimerWakeup,first] at went ⊢
  simp only [line] at went
  cases nodes : s.sortTree.head? with
  | none =>
    simp only [nodes] at went ⊢
    cases went
    exact ⟨tree,sorted,ends_now _,keeps,ordered⟩
  | some y =>
    simp only [nodes] at went ⊢
    rw [show (overSystem s tree sorted).node y = s.node y from rfl]
    by_cases early : hevTaskTimerCmp now (s.node y).expire < 0
    · simp only [if_pos early] at went ⊢
      cases went
      exact ⟨tree,sorted,ends_now _,keeps,ordered⟩
    · simp only [if_neg early] at went ⊢
      obtain ⟨ctx,woke,rfl⟩ := Option.map_eq_some_iff.mp went
      obtain ⟨tree',ends,after⟩ := mirror_wakeup kept.sound placed keeps woke
      refine ⟨tree',sorted,ends_same (ends_map ends fun ctx => {overSystem s tree sorted with ctx:=ctx,checked:=now}) fun fuel => ?_,after,ordered⟩
      exact Option.map_eq_bind

theorem double_wake (kept : Kept live turns s) (placed : ∀ y ∈ live, Address y) (keeps : Keeps tree s.ctx.runningTasks)
    (ordered : Keeps sorted s.sortTree) (went : hevTaskTimerWake line line s now = some next) :
    Doubles (fun fuel => hevTaskTimerWake (cached fuel) (cached fuel) (overSystem s tree sorted) now) next := by
  have first : ∀ fuel, (cached fuel).first (overSystem s tree sorted).sortTree = s.sortTree.head? := first_items ordered
  simp only [hevTaskTimerWake,first] at went ⊢
  simp only [line] at went
  cases nodes : s.sortTree.head? with
  | none =>
    simp only [nodes] at went ⊢
    cases went
    exact ⟨tree,sorted,ends_now _,keeps,ordered⟩
  | some y =>
    simp only [nodes] at went ⊢
    exact double_wakeup kept placed keeps ordered went

theorem double_poll {events : List (BitVec w)} (kept : Kept live turns s) (room : Room turns) (placed : ∀ y ∈ live, Address y)
    (keeps : Keeps tree s.ctx.runningTasks) (ordered : Keeps sorted s.sortTree) (went : pollOnce line line s events now = some next) :
    Doubles (fun fuel => pollOnce (cached fuel) (cached fuel) (overSystem s tree sorted) events now) next := by
  simp only [pollOnce,Option.bind_eq_bind,Option.bind_eq_some_iff,Option.some.injEq] at went
  obtain ⟨ctx,polled,ticked,clock,woke,wake,rfl⟩ := went
  have first := woken_system kept (poll_woken kept.sound room polled)
  obtain ⟨_,second,_⟩ := tick_kept first clock
  have still : ticked.ctx = ctx ∧ ticked.sortTree = s.sortTree := by
    obtain ⟨rfl,_,_⟩ := tick_kept first clock
    exact ⟨rfl,rfl⟩
  obtain ⟨tree',ends,after⟩ := mirror_poll kept.sound room placed keeps polled
  obtain ⟨tree'',sorted',ends',after',ordered'⟩ := double_wake second placed (still.1 ▸ after) (still.2 ▸ ordered) wake
  refine ⟨tree'',sorted',ends_bind ends ?_,after',ordered'⟩
  refine ends_same (ends_map ends' fun s => {s with phase:=if s.ctx.runningTaskCount = 0 then .left else .polled}) fun fuel => ?_
  rw [show ({overSystem s tree sorted with ctx:=onTree ctx tree'} : MemorySystem w) = overSystem {s with ctx:=ctx} tree' sorted from rfl]
  rw [double_tick tree' sorted clock]
  rfl

theorem double_left {type : SchedType} (sound : Sound live turns s.ctx) (led : Led s.ctx) (placed : ∀ y ∈ live, Address y)
    (keeps : Keeps tree s.ctx.runningTasks) (ordered : Keeps sorted s.sortTree) (current : s.ctx.currentTask = some c)
    (went : leaveTo line s type = some next) : Doubles (fun fuel => leaveTo (cached fuel) (overSystem s tree sorted) type) next := by
  obtain ⟨ctx,left,rfl⟩ := Option.map_eq_some_iff.mp went
  obtain ⟨rest,shape⟩ := led_shape led current
  cases leave_departed current shape left
  obtain ⟨tree',ends,after⟩ := mirror_leave type sound placed keeps current shape
  refine ⟨tree',sorted,ends_same (ends_map ends fun ctx => {overSystem s tree sorted with ctx:=ctx,phase:=.left}) fun fuel => ?_,after,ordered⟩
  exact Option.map_eq_bind

theorem double_enter {milliseconds : Nat} (tree : HevRBTreeCached w) (ordered : Keeps sorted s.sortTree)
    (keys : s.sortTree.Pairwise (sortKey s.node · ≤ sortKey s.node ·)) (out : x ∉ s.sortTree) (aligned : Address x)
    (went : timerWaitEnter line s milliseconds now c x = some next) :
    ∃ sorted', Ends (fun fuel => timerWaitEnter (cached fuel) (overSystem s tree sorted) milliseconds now c x) (overSystem next tree sorted') ∧
      Keeps sorted' next.sortTree := by
  let node := Function.update s.node x ⟨hevTaskTimerGetExpire now milliseconds,c⟩
  have same : s.sortTree.Pairwise (sortKey node · ≤ sortKey node ·) := by
    apply keys.imp_of_mem
    intro a b ha hb less
    have other : ∀ y ∈ s.sortTree, sortKey node y = sortKey s.node y := by
      intro y member
      have apart : y ≠ x := fun same => out (same ▸ member)
      simp only [sortKey,node,Function.update_of_ne apart]
    rwa [other a ha,other b hb]
  obtain ⟨sorted',ends,after⟩ := insert_items (fun a b => decide_eq_true_iff.trans (node_cmp_key node a b)) ordered same aligned out
  simp only [timerWaitEnter,line,insert_by_cmp,Option.bind_eq_bind,Option.bind_some,Option.some.injEq] at went
  subst went
  refine ⟨sorted',ends_bind ends (ends_same (ends_now _) fun fuel => ?_),after⟩
  rw [first_items after]
  rfl

theorem double_sleep {milliseconds : Nat} (kept : Kept live turns s) (here : s.phase = .out) (placed : ∀ y ∈ live, Address y)
    (aligned : Address x) (keeps : Keeps tree s.ctx.runningTasks) (ordered : Keeps sorted s.sortTree) (current : s.ctx.currentTask = some c)
    (fits : Fits s (.sleep milliseconds now x)) (went : hevTaskSleep line line s milliseconds now c x = some next) :
    Doubles (fun fuel => hevTaskSleep (cached fuel) (cached fuel) (overSystem s tree sorted) milliseconds now c x) next := by
  unfold hevTaskSleep at went ⊢
  by_cases zero : milliseconds = 0
  · simp only [if_pos zero] at went ⊢
    cases went
    exact ⟨tree,sorted,ends_now _,keeps,ordered⟩
  · simp only [if_neg zero,Option.bind_eq_bind,Option.bind_eq_some_iff] at went ⊢
    obtain ⟨ticked,clock,entered,enter,left⟩ := went
    have out : x ∉ s.sortTree := by
      intro member
      obtain ⟨d,frame',waits,same⟩ := (kept.nodes x).mp member
      exact fits.2 d frame' waits same
    have memory := double_tick tree sorted clock
    obtain ⟨rfl,kept',_⟩ := tick_kept kept clock
    obtain ⟨sorted',ends,ordered'⟩ := double_enter (s:={s with clock:=now}) tree ordered kept'.sorted out aligned enter
    have unchanged : entered.ctx = s.ctx := by
      simp only [timerWaitEnter,line,insert_by_cmp,Option.bind_eq_bind,Option.bind_some,Option.some.injEq] at enter
      rw [← enter]
    obtain ⟨tree',sorted'',ends',after,ordered''⟩ := double_left (unchanged ▸ kept.sound) (unchanged ▸ kept.led here) placed
      (unchanged ▸ keeps) ordered' (unchanged ▸ current) left
    rw [memory]
    exact ⟨tree',sorted'',ends_bind (ends_now _) (ends_bind ends ends'),after,ordered''⟩

theorem double_resume (kept : Kept live turns s) (placed : ∀ y ∈ live, Address y) (keeps : Keeps tree s.ctx.runningTasks)
    (ordered : Keeps sorted s.sortTree) (went : resumeTask line line s now = some next) :
    Doubles (fun fuel => resumeTask (cached fuel) (cached fuel) (overSystem s tree sorted) now) next := by
  simp only [resumeTask,timerWaitLeave,Option.bind_eq_bind,Option.bind_eq_some_iff] at went
  obtain ⟨c,current,frame,asleep,ticked,clock,erased,erase,looked,look,finished⟩ := went
  cases finished
  have member : frame.node ∈ s.sortTree := (kept.nodes frame.node).mpr ⟨c,frame,asleep,rfl⟩
  have memory := double_tick tree sorted clock
  obtain ⟨rfl,kept',_⟩ := tick_kept kept clock
  cases erase
  obtain ⟨gone,_⟩ := erase_kept (s:={s with clock:=now}) kept' asleep
  obtain ⟨sorted',ends,ordered'⟩ := erase_items ordered member
  let left : ListSystem (BitVec w) w := {s with clock:=now,sortTree:=s.sortTree.erase frame.node,waits:=Function.update s.waits c none}
  let leftmost := frame.leftmost || s.sortTree.head? == some frame.node
  let finish (looked : MemorySystem w) : MemorySystem w :=
    {looked with remaining:=Function.update looked.remaining c (hevTaskTimerGetTime now (looked.node frame.node).expire)}
  have looks : Doubles (fun fuel => wakeupNext (cached fuel) (cached fuel) (overSystem left tree sorted') leftmost now) looked := by
    unfold wakeupNext at look ⊢
    by_cases first : leftmost = true
    · simp only [if_pos first]
      exact double_wakeup gone placed keeps ordered' ((if_pos first).symm.trans look)
    · simp only [if_neg first]
      cases (if_neg first).symm.trans look
      exact ⟨tree,sorted',ends_now _,keeps,ordered'⟩
  obtain ⟨tree',sorted'',ends',after,ordered''⟩ := looks
  have whole := ends_bind (g:=fun fuel sorted' => (wakeupNext (cached fuel) (cached fuel) (overSystem left tree sorted') leftmost now).bind
    fun looked => some (finish looked)) ends (ends_map ends' finish)
  refine ⟨tree',sorted'',ends_same whole fun fuel => ?_,after,ordered''⟩
  simp only [resumeTask,timerWaitLeave,Option.bind_eq_bind]
  rw [show (overSystem s tree sorted).ctx.currentTask = some c from current,Option.bind_some,
    show (overSystem s tree sorted).waits c = some frame from asleep,Option.bind_some,memory,Option.bind_some]
  rw [show (cached fuel).first (overSystem {s with clock:=now} tree sorted).sortTree = s.sortTree.head? from first_items ordered fuel]
  rfl

-- Task structures and the nodes of sleepers are aligned.
def Action.Placed : Action (BitVec w) w → Prop
  | .run x => Address x
  | .sleep _ _ x => Address x
  | _ => True

theorem double_pick (keeps : Keeps tree s.ctx.runningTasks) (ordered : Keeps sorted s.sortTree) (went : pickTask line s = some next) :
    Doubles (fun fuel => pickTask (cached fuel) (overSystem s tree sorted)) next := by
  obtain ⟨x,first,rfl⟩ := Option.map_eq_some_iff.mp went
  refine ⟨tree,sorted,ends_same (ends_now _) fun fuel => ?_,keeps,ordered⟩
  rw [pickTask,show (overSystem s tree sorted).ctx.runningTasks = tree from rfl,first_items keeps,show s.ctx.runningTasks.head? = some x from first]
  rfl

theorem double_task (call : ListSystem (BitVec w) w → BitVec w → Option (ListSystem (BitVec w) w)) {call' : Nat → BitVec w → Option (MemorySystem w)}
    (went : onTask s (call s) = some next)
    (each : ∀ c, s.ctx.currentTask = some c → s.phase = .out → call s c = some next → Doubles (fun fuel => call' fuel c) next) :
    Doubles (fun fuel => onTask (overSystem s tree sorted) (call' fuel)) next := by
  have free : awake s = true := by
    unfold onTask at went
    split at went
    · assumption
    · cases went
  obtain ⟨c,here,current,_,went⟩ := on_task went
  obtain ⟨tree',sorted',ends,after,ordered⟩ := each c current here went
  refine ⟨tree',sorted',ends_same ends fun fuel => ?_,after,ordered⟩
  rw [onTask,if_pos (show awake (overSystem s tree sorted) = true from free),show (overSystem s tree sorted).ctx.currentTask = some c from current]
  rfl

theorem double_act {e : Action (BitVec w) w} (kept : Kept live turns s) (room : Room turns) (fits : Fits s e) (placed : ∀ y ∈ live, Address y)
    (aligned : e.Placed) (keeps : Keeps tree s.ctx.runningTasks) (ordered : Keeps sorted s.sortTree) (went : act line line s e = some next) :
    Doubles (fun fuel => act (cached fuel) (cached fuel) (overSystem s tree sorted) e) next := by
  cases e with
  | run x =>
    simp only [act,Option.ite_none_right_eq_some,Option.map_eq_some_iff] at went
    obtain ⟨free,ctx,ran,rfl⟩ := went
    obtain ⟨tree',ends,after⟩ := mirror_run kept.sound aligned keeps ran
    refine ⟨tree',sorted,ends_same (ends_map ends fun ctx => {overSystem s tree sorted with ctx:=ctx}) fun fuel => ?_,after,ordered⟩
    exact (if_pos free).trans Option.map_eq_bind
  | setPriority x priority =>
    simp only [act,Option.ite_none_right_eq_some,Option.some.injEq] at went
    obtain ⟨free,rfl⟩ := went
    exact ⟨tree,sorted,ends_same (ends_now _) fun fuel => if_pos free,keeps,ordered⟩
  | wakeup x =>
    simp only [act,Option.ite_none_right_eq_some,Option.map_eq_some_iff] at went
    obtain ⟨free,ctx,woke,rfl⟩ := went
    obtain ⟨tree',ends,after⟩ := mirror_wakeup kept.sound placed keeps woke
    refine ⟨tree',sorted,ends_same (ends_map ends fun ctx => {overSystem s tree sorted with ctx:=ctx}) fun fuel => ?_,after,ordered⟩
    exact (if_pos free).trans Option.map_eq_bind
  | start =>
    simp only [act,Option.ite_none_right_eq_some,Option.some.injEq] at went
    obtain ⟨free,rfl⟩ := went
    exact ⟨tree,sorted,ends_same (ends_now _) fun fuel => if_pos free,keeps,ordered⟩
  | yield type =>
    exact double_task (fun s _ => leaveTo line s type.sched) went fun c current here left =>
      double_left kept.sound (kept.led here) placed keeps ordered current left
  | exit =>
    exact double_task (fun s _ => leaveTo line s .remove) went fun c current here left =>
      double_left kept.sound (kept.led here) placed keeps ordered current left
  | sleep milliseconds now x =>
    exact double_task (fun s c => hevTaskSleep line line s milliseconds now c x) went fun c current here slept =>
      double_sleep kept here placed aligned keeps ordered current fits slept
  | resume now =>
    simp only [act,Option.ite_none_right_eq_some] at went
    obtain ⟨tree',sorted',ends,after,ordered'⟩ := double_resume kept placed keeps ordered went.2
    exact ⟨tree',sorted',ends_same ends fun fuel => if_pos went.1,after,ordered'⟩
  | poll events now =>
    simp only [act,Option.ite_none_right_eq_some] at went
    obtain ⟨tree',sorted',ends,after,ordered'⟩ := double_poll kept room placed keeps ordered went.2
    exact ⟨tree',sorted',ends_same ends fun fuel => if_pos went.1,after,ordered'⟩
  | enter =>
    have phase : ∀ tree sorted, (overSystem s tree sorted).phase = s.phase := fun _ _ => rfl
    simp only [act,phase] at went ⊢
    cases here : s.phase with
    | out =>
      rw [here] at went
      cases went
    | polled =>
      simp only [here] at went ⊢
      exact double_pick keeps ordered went
    | left =>
      simp only [here] at went ⊢
      by_cases none_ : s.ctx.totalTaskCount = 0
      · rw [if_pos none_] at went
        cases went
        exact ⟨tree,sorted,ends_same (ends_now _) fun fuel => if_pos none_,keeps,ordered⟩
      · rw [if_neg none_] at went
        by_cases few : s.ctx.runningTaskCount < s.ctx.totalTaskCount
        · rw [if_pos few] at went
          cases went
        · rw [if_neg few] at went
          obtain ⟨tree',sorted',ends,after,ordered'⟩ := double_pick keeps ordered went
          exact ⟨tree',sorted',ends_same ends fun fuel => (if_neg none_).trans (if_neg few),after,ordered'⟩

theorem double_actions {actions : List (Action (BitVec w) w)} (kept : Kept live turns s) (chain : Chain s) (room : Room (turns+partings actions))
    (fits : Runs.Along (act line line) Fits s actions) (placed : ∀ y ∈ live, Address y) (aligned : ∀ e ∈ actions, e.Placed)
    (keeps : Keeps tree s.ctx.runningTasks) (ordered : Keeps sorted s.sortTree) (went : Runs.exec (act line line) s actions = some next) :
    Doubles (fun fuel => Runs.exec (act (cached fuel) (cached fuel)) (overSystem s tree sorted) actions) next := by
  induction actions generalizing s live turns tree sorted with
  | nil =>
    cases went
    exact ⟨tree,sorted,ends_now _,keeps,ordered⟩
  | cons e actions ih =>
    obtain ⟨middle,first,rest⟩ := Runs.exec_cons went
    rw [partings] at room
    have early : Room turns := room_less room (by omega)
    obtain ⟨tree',sorted',ends,after,ordered'⟩ := double_act kept early fits.1 placed (aligned e (by simp)) keeps ordered first
    obtain ⟨live',from_,turns',few,kept',chain'⟩ := act_kept kept chain early fits.1 first
    have placed' : ∀ y ∈ live', Address y := by
      intro y member
      rcases from_ y member with old | rfl
      · exact placed y old
      · exact aligned (.run y) (by simp)
    obtain ⟨tree'',sorted'',ends',last⟩ := ih kept' chain' (room_less room (by omega)) (fits.2 middle first) placed'
      (fun f member => aligned f (by simp [member])) after ordered' rest
    exact ⟨tree'',sorted'',ends_bind ends ends',last⟩

-- The scheduler and the timer on cached trees in memory do in every run what they do on sorted lists.
theorem timer_exact (start : Timespec) {node : BitVec w → HevTaskTimerNode (BitVec w)} (treeNode sortNode : BitVec w → HevRBTreeNode w)
    {actions : List (Action (BitVec w) w)} (normal : start.Normal) (room : 15*(partings actions+3) < 2^64)
    (fits : Runs.Along (act line line) Fits (systemInit start node) actions) (aligned : ∀ e ∈ actions, e.Placed)
    (went : Runs.exec (act line line) (systemInit start node) actions = some s) :
    ∃ tree sorted, Ends (fun fuel => Runs.exec (act (cached fuel) (cached fuel))
        (overSystem (systemInit start node) ⟨⟨0,treeNode⟩,0⟩ ⟨⟨0,sortNode⟩,0⟩) actions)
        (overSystem s tree sorted) ∧ Keeps tree s.ctx.runningTasks ∧ Keeps sorted s.sortTree := by
  have small : Room (0+partings actions) := by
    unfold Room hevTaskPriorityMax
    omega
  have empty : ∀ node, Keeps (⟨⟨0,node⟩,0⟩ : HevRBTreeCached w) [] :=
    fun node => ⟨⟨.nil,⟨rfl,trivial,List.nodup_nil⟩,⟨0,.nil⟩,rfl⟩,rfl⟩
  obtain ⟨kept,chain⟩ := init_kept start node normal
  exact double_actions kept chain small fits (by simp) aligned (empty treeNode) (empty sortNode) went

theorem two_exact : ∃ s, Runs.exec (act line line) readyTime twoSleepers = some s ∧ s.ctx.runningTasks = [32] ∧ s.sortTree = [8,16] ∧
    ∃ tree sorted, Ends (fun fuel => Runs.exec (act (cached fuel) (cached fuel))
        (overSystem readyTime ⟨⟨0,fun _ => ⟨1,0,0⟩⟩,0⟩ ⟨⟨0,fun _ => ⟨1,0,0⟩⟩,0⟩) twoSleepers) (overSystem s tree sorted) ∧
      Keeps tree s.ctx.runningTasks ∧ Keeps sorted s.sortTree := by
  refine ⟨_,rfl,rfl,rfl,?_⟩
  have aligned : ∀ e ∈ twoSleepers, e.Placed := by
    intro e member
    simp only [twoSleepers,List.mem_cons,List.not_mem_nil,or_false] at member
    rcases member with rfl | rfl | rfl | rfl | rfl | rfl | rfl | rfl | rfl | rfl <;> first | trivial | exact ⟨by decide,by decide⟩
  exact timer_exact ⟨0,0⟩ _ _ ⟨by decide,by decide⟩ (by decide) two_fit aligned rfl

end Psocks.Schedule
