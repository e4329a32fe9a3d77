import Psocks.Misc.RBCached
import Psocks.Task.Schedule

namespace Psocks.Schedule
open Psocks.RBTree
variable {w : Nat}

-- The tree in node memory, with as many turns as `fuel` for each of its loops.
def cached (fuel : Nat) : Tree (BitVec w) (HevRBTreeCached w) where
  first tree := if hevRbtreeCachedFirst tree = 0 then none else some (hevRbtreeCachedFirst tree)
  insert before tree x := insertSorted (before x) fuel tree x
  erase tree x := hevRbtreeCachedErase fuel tree x

-- With enough turns for its loops a call ends with the value.
def Ends {β : Type} (call : Nat → Option β) (value : β) : Prop := ∃ bound, ∀ fuel, bound < fuel → call fuel = some value

variable {β γ : Type} {f : Nat → Option β} {g : Nat → β → Option γ} {a : β} {b : γ}

theorem ends_now (a : β) : Ends (fun _ => some a) a := ⟨0,fun _ _ => rfl⟩

theorem ends_bind (first : Ends f a) (second : Ends (g · a) b) : Ends (fun fuel => (f fuel).bind (g fuel)) b := by
  obtain ⟨m,first⟩ := first
  obtain ⟨n,second⟩ := second
  refine ⟨max m n,fun fuel enough => ?_⟩
  change (f fuel).bind (g fuel) = some b
  rw [first fuel (by omega),Option.bind_some]
  exact second fuel (by omega)

theorem ends_map (ends : Ends f a) (h : β → γ) : Ends (fun fuel => (f fuel).bind fun value => some (h value)) (h a) :=
  ends_bind ends (ends_now (h a))

theorem ends_same {f' : Nat → Option β} (ends : Ends f a) (same : ∀ fuel, f' fuel = f fuel) : Ends f' a := by
  obtain ⟨m,ends⟩ := ends
  exact ⟨m,fun fuel enough => (same fuel).trans (ends fuel enough)⟩

section Tree
variable {κ : Type} [LinearOrder κ] {key : BitVec w → κ} {items : List (BitVec w)} {tree : HevRBTreeCached w} {x : BitVec w}

theorem first_items (keeps : Keeps tree items) (fuel : Nat) : (cached fuel).first tree = items.head? := by
  obtain ⟨t,holds,_,rfl⟩ := keeps.tree
  have filled := heap_filled holds.heap
  have front := keeps.leftmost
  cases listed : t.list with
  | nil =>
    rw [listed] at front
    exact if_pos front
  | cons y rest =>
    rw [listed] at front filled
    have here : hevRbtreeCachedFirst tree = y := front
    simp only [cached,here,List.head?_cons]
    exact if_neg (filled y List.mem_cons_self).filled

theorem insert_split (sorted : items.Pairwise (key · ≤ key ·)) (x : BitVec w) : ∃ early late, items = early++late ∧
    (∀ y ∈ early, key y ≤ key x) ∧ (∀ y ∈ late, key x < key y) ∧
    items.orderedInsert (fun a b => key a < key b) x = early++x::late := by
  induction items with
  | nil => exact ⟨[],[],rfl,by simp,by simp,rfl⟩
  | cons z items ih =>
    rw [List.pairwise_cons] at sorted
    rw [List.orderedInsert_cons]
    by_cases less : key x < key z
    · refine ⟨[],z::items,rfl,by simp,fun y member => ?_,if_pos less⟩
      rcases List.mem_cons.mp member with rfl | later
      · exact less
      · exact less.trans_le (sorted.1 y later)
    · obtain ⟨early,late,rfl,low,high,place⟩ := ih sorted.2
      refine ⟨z::early,late,rfl,?_,high,?_⟩
      · simpa using ⟨not_lt.mp less,low⟩
      · rw [if_neg less,place]
        rfl

theorem insert_items {before : BitVec w → BitVec w → Bool} (same : ∀ a b, before a b = true ↔ key a < key b) (keeps : Keeps tree items)
    (sorted : items.Pairwise (key · ≤ key ·)) (address : Address x) (fresh : x ∉ items) :
    ∃ tree', Ends (fun fuel => (cached fuel).insert before tree x) tree' ∧ Keeps tree' (items.orderedInsert (fun a b => key a < key b) x) := by
  obtain ⟨early,late,parts,low,high,place⟩ := insert_split sorted x
  obtain ⟨tree',bound,ends,after⟩ := insertSorted_keeps (before x) keeps parts
    (fun y member => Bool.eq_false_iff.mpr fun less => not_lt.mpr (low y member) ((same x y).mp less)) (fun y member => (same x y).mpr (high y member))
    address fresh
  exact ⟨tree',⟨bound,ends⟩,place ▸ after⟩

theorem insert_keyed (key : BitVec w → Nat) (keeps : Keeps tree items) (sorted : items.Pairwise (key · ≤ key ·)) (address : Address x)
    (fresh : x ∉ items) :
    ∃ tree', Ends (fun fuel => (cached fuel).insert (fun a b => decide (key a < key b)) tree x) tree' ∧
      Keeps tree' (items.orderedInsert (fun a b => key a < key b) x) :=
  insert_items (fun _ _ => decide_eq_true_iff) keeps sorted address fresh

theorem erase_items (keeps : Keeps tree items) (member : x ∈ items) :
    ∃ tree', Ends (fun fuel => (cached fuel).erase tree x) tree' ∧ Keeps tree' (items.erase x) := by
  obtain ⟨tree',bound,ends,after⟩ := cachedErase_keeps keeps member
  exact ⟨tree',⟨bound,ends⟩,after⟩

end Tree

-- The same context with the tree in memory.
def onTree (ctx : HevTaskSystemContext (BitVec w) (List (BitVec w))) (tree : HevRBTreeCached w) : HevTaskSystemContext (BitVec w) (HevRBTreeCached w) :=
  ⟨ctx.totalTaskCount,ctx.runningTaskCount,ctx.currentTask,tree,ctx.task⟩

-- A call that turns the list's context into `next` turns the memory's into one that keeps it.
def Mirrors (call : Nat → Option (HevTaskSystemContext (BitVec w) (HevRBTreeCached w)))
    (next : HevTaskSystemContext (BitVec w) (List (BitVec w))) : Prop :=
  ∃ tree, Ends call (onTree next tree) ∧ Keeps tree next.runningTasks

variable {ctx next : HevTaskSystemContext (BitVec w) (List (BitVec w))} {tree : HevRBTreeCached w} {live : List (BitVec w)} {turns : Nat}
variable {x c : BitVec w} {polls : List (List (BitVec w))} {rest : List (BitVec w)}

theorem mirror_min (ctx : HevTaskSystemContext (BitVec w) (List (BitVec w))) (keeps : Keeps tree ctx.runningTasks) (fuel : Nat) :
    hevTaskSystemGetMinSchedKey (cached fuel) (onTree ctx tree) = minKey ctx := by
  simp only [hevTaskSystemGetMinSchedKey,minKey,show (onTree ctx tree).runningTasks = tree from rfl,first_items keeps fuel,line]
  rfl

theorem mirror_insert (ctx : HevTaskSystemContext (BitVec w) (List (BitVec w))) (keeps : Keeps tree ctx.runningTasks)
    (sorted : ctx.runningTasks.Pairwise (ctx.key · ≤ ctx.key ·)) (address : Address x)
    (fresh : x ∉ ctx.runningTasks) (went : hevTaskSystemInsertTask line ctx x = some next) :
    Mirrors (fun fuel => hevTaskSystemInsertTask (cached fuel) (onTree ctx tree) x) next := by
  let put := ctx.put x fun t => {t with state:=.running,priority:=t.nextPriority}
  have same : ∀ y, put.key y = ctx.key y := by
    intro y
    simp only [put,HevTaskSystemContext.put,HevTaskSystemContext.key,Function.update_apply]
    split
    · rename_i equal
      rw [equal]
    · rfl
  have ordered : ctx.runningTasks.Pairwise (put.key · ≤ put.key ·) := by
    apply sorted.imp
    intro a b less
    rwa [same,same]
  obtain ⟨tree',ends,after⟩ := insert_keyed put.key keeps ordered address fresh
  simp only [hevTaskSystemInsertTask,line,insert_by_key,Option.bind_eq_bind,Option.bind_some,Option.some.injEq] at went
  subst went
  exact ⟨tree',ends_bind ends (ends_now _),after⟩

theorem mirror_wakeup (sound : Sound live turns ctx) (placed : ∀ y ∈ live, Address y) (keeps : Keeps tree ctx.runningTasks)
    (went : hevTaskSystemWakeupTask line ctx x = some next) : Mirrors (fun fuel => hevTaskSystemWakeupTask (cached fuel) (onTree ctx tree) x) next := by
  have state : ((onTree ctx tree).task x).state = (ctx.task x).state := rfl
  simp only [hevTaskSystemWakeupTask,state] at went ⊢
  cases here : (ctx.task x).state with
  | running =>
    rw [here] at went
    cases went
    exact ⟨tree,ends_now _,keeps⟩
  | stopped =>
    rw [here] at went
    cases went
  | waiting =>
    rw [here] at went
    have out : x ∉ ctx.runningTasks := by
      rw [sound.running,here]
      simp
    have known : x ∈ live := (sound.alive x).mpr (by simp [here])
    let put := ctx.put x fun t => {t with schedKey:=add64 t.schedKey (minKey ctx)}
    have ordered : put.runningTasks.Pairwise (put.key · ≤ put.key ·) := by
      apply sound.sorted.imp_of_mem
      intro a b ha hb less
      have other : ∀ y ∈ ctx.runningTasks, put.key y = ctx.key y := by
        intro y member
        have apart : y ≠ x := fun same => out (same ▸ member)
        simp only [put,HevTaskSystemContext.put,HevTaskSystemContext.key,Function.update_of_ne apart]
      rwa [other a ha,other b hb]
    obtain ⟨tree',ends,after⟩ := mirror_insert put keeps ordered (placed x known) out went
    exact ⟨tree',ends_same ends fun fuel => by rw [mirror_min ctx keeps fuel]; rfl,after⟩

theorem mirror_poll {wakes : List (BitVec w)} (sound : Sound live turns ctx) (room : Room turns) (placed : ∀ y ∈ live, Address y)
    (keeps : Keeps tree ctx.runningTasks) (went : hevTaskSystemIoPoll line ctx wakes = some next) :
    Mirrors (fun fuel => hevTaskSystemIoPoll (cached fuel) (onTree ctx tree) wakes) next := by
  induction wakes generalizing ctx tree with
  | nil =>
    cases went
    exact ⟨tree,ends_now _,keeps⟩
  | cons x wakes ih =>
    obtain ⟨middle,woke,rest⟩ := Option.bind_eq_some_iff.mp went
    obtain ⟨tree',ends,after⟩ := mirror_wakeup sound placed keeps woke
    obtain ⟨tree'',ends',after'⟩ := ih (wakeup_woken sound room woke).sound after rest
    exact ⟨tree'',ends_bind ends ends',after'⟩

theorem mirror_idle (sound : Sound live turns ctx) (room : Room turns) (placed : ∀ y ∈ live, Address y) (keeps : Keeps tree ctx.runningTasks)
    (went : pollIdle line ctx polls = some next) : Mirrors (fun fuel => pollIdle (cached fuel) (onTree ctx tree) polls) next := by
  induction polls generalizing ctx tree with
  | nil => cases went
  | cons wakes polls ih =>
    obtain ⟨middle,polled,rest⟩ := Option.bind_eq_some_iff.mp went
    obtain ⟨tree',ends,after⟩ := mirror_poll sound room placed keeps polled
    by_cases idle : middle.runningTaskCount = 0
    · rw [if_pos idle] at rest
      obtain ⟨tree'',ends',after'⟩ := ih (poll_woken sound room polled).sound after rest
      refine ⟨tree'',ends_bind ends (ends_same ends' fun fuel => if_pos idle),after'⟩
    · rw [if_neg idle] at rest
      cases rest
      exact ⟨tree',ends_bind ends (ends_same (ends_now _) fun fuel => if_neg idle),after⟩

theorem mirror_pick (sound : Sound live turns ctx) (room : Room turns) (placed : ∀ y ∈ live, Address y) (keeps : Keeps tree ctx.runningTasks)
    (went : hevTaskSystemPickCurrentTask line ctx polls = some next) :
    Mirrors (fun fuel => hevTaskSystemPickCurrentTask (cached fuel) (onTree ctx tree) polls) next := by
  simp only [hevTaskSystemPickCurrentTask,Option.bind_eq_bind,Option.bind_eq_some_iff,Option.some.injEq] at went
  obtain ⟨middle,polled,x,head,rfl⟩ := went
  have mirrored : Mirrors (fun fuel => pollTasks (cached fuel) (onTree ctx tree) polls) middle := by
    have counts : (onTree ctx tree).runningTaskCount = ctx.runningTaskCount ∧ (onTree ctx tree).totalTaskCount = ctx.totalTaskCount := ⟨rfl,rfl⟩
    simp only [pollTasks,counts] at polled ⊢
    by_cases few : ctx.runningTaskCount < ctx.totalTaskCount
    · simp only [if_pos few] at polled ⊢
      by_cases some_ : ctx.runningTaskCount ≠ 0
      · simp only [if_pos some_] at polled ⊢
        exact mirror_poll sound room placed keeps polled
      · simp only [if_neg some_] at polled ⊢
        exact mirror_idle sound room placed keeps polled
    · simp only [if_neg few] at polled ⊢
      cases polled
      exact ⟨tree,ends_now _,keeps⟩
  obtain ⟨tree',ends,after⟩ := mirrored
  refine ⟨tree',ends_bind ends (ends_same (ends_now _) fun fuel => ?_),after⟩
  rw [show (onTree middle tree').runningTasks = tree' from rfl,first_items after fuel,show middle.runningTasks.head? = some x from head]
  rfl

theorem mirror_enter (sound : Sound live turns ctx) (room : Room turns) (placed : ∀ y ∈ live, Address y) (keeps : Keeps tree ctx.runningTasks)
    (went : enterTask line ctx polls = some next) : Mirrors (fun fuel => enterTask (cached fuel) (onTree ctx tree) polls) next := by
  unfold enterTask at went ⊢
  rw [show (onTree ctx tree).totalTaskCount = ctx.totalTaskCount from rfl]
  by_cases none_ : ctx.totalTaskCount = 0
  · simp only [if_pos none_] at went ⊢
    cases went
    exact ⟨tree,ends_now _,keeps⟩
  · simp only [if_neg none_] at went ⊢
    exact mirror_pick sound room placed keeps went

theorem mirror_leave (type : SchedType) (sound : Sound live turns ctx) (placed : ∀ y ∈ live, Address y) (keeps : Keeps tree ctx.runningTasks)
    (current : ctx.currentTask = some c) (shape : ctx.runningTasks = c::rest) :
    Mirrors (fun fuel => leaveTask (cached fuel) (onTree ctx tree) type) (departed ctx c rest type) := by
  have member : c ∈ ctx.runningTasks := by simp [shape]
  have runs := (sound.running c).mp member
  have known : c ∈ live := (sound.alive c).mpr (by simp [runs])
  have distinct := sound.distinct
  rw [shape,List.nodup_cons] at distinct
  have sorted := sound.sorted
  rw [shape,List.pairwise_cons] at sorted
  obtain ⟨tree',ends,out⟩ := erase_items keeps member
  rw [shape,List.erase_cons_head] at out
  cases type with
  | switch =>
    let t := ctx.task c
    let task := Function.update ctx.task c ⟨add64 t.schedKey t.priority,t.nextPriority,t.nextPriority,t.state⟩
    have ordered : rest.Pairwise fun a b => (task a).schedKey ≤ (task b).schedKey := by
      apply sorted.2.imp_of_mem
      intro a b ha hb less
      have other : ∀ y ∈ rest, task y = ctx.task y := by
        intro y inside
        have apart : y ≠ c := fun same => distinct.1 (same ▸ inside)
        exact Function.update_of_ne apart ..
      rwa [other a ha,other b hb]
    obtain ⟨tree'',ends',after⟩ := insert_keyed (fun y => (task y).schedKey) out ordered (placed c known) distinct.1
    have both := ends_bind (g:=fun fuel tree' =>
      ((cached fuel).insert (fun a b => decide ((task a).schedKey < (task b).schedKey)) tree' c).bind
        fun value => some (onTree (departed ctx c rest .switch) value)) ends (ends_map ends' _)
    refine ⟨tree'',ends_same both fun fuel => ?_,after⟩
    simp only [leaveTask,hevTaskSystemUpdateSchedKey,hevTaskSystemReinsertCurrentTask,HevTaskSystemContext.put,onTree,current,departed,
      Option.bind_eq_bind,Option.bind_some,Function.update_idem,Function.update_self,Nat.one_mul]
    rfl
  | waitio =>
    refine ⟨tree',ends_same (ends_map ends (onTree (departed ctx c rest .waitio))) fun fuel => ?_,out⟩
    simp only [leaveTask,hevTaskSystemUpdateSchedKey,hevTaskSystemRemoveCurrentTask,HevTaskSystemContext.put,onTree,current,departed,
      Option.bind_eq_bind,Option.bind_some,Function.update_idem,Function.update_self,reduceCtorEq,if_false]
  | remove =>
    refine ⟨tree',ends_same (ends_map ends (onTree (departed ctx c rest .remove))) fun fuel => ?_,out⟩
    simp only [leaveTask,hevTaskSystemRemoveCurrentTask,HevTaskSystemContext.put,onTree,current,departed,Option.bind_eq_bind,Option.bind_some,if_true]

theorem mirror_run (sound : Sound live turns ctx) (address : Address x) (keeps : Keeps tree ctx.runningTasks)
    (went : hevTaskRun line ctx x = some next) : Mirrors (fun fuel => hevTaskRun (cached fuel) (onTree ctx tree) x) next := by
  have state : ((onTree ctx tree).task x).state = (ctx.task x).state := rfl
  simp only [hevTaskRun,state] at went ⊢
  by_cases busy : (ctx.task x).state ≠ .stopped
  · simp only [if_pos busy] at went ⊢
    cases went
    exact ⟨tree,ends_now _,keeps⟩
  · simp only [if_neg busy] at went ⊢
    have stopped := not_not.mp busy
    have out : x ∉ ctx.runningTasks := by
      rw [sound.running,stopped]
      simp
    simp only [hevTaskSystemRunNewTask,min_put _ out,Option.bind_eq_bind,Option.bind_eq_some_iff,Option.some.injEq] at went
    obtain ⟨middle,inserted,rfl⟩ := went
    -- The context after the key is set: with a task on the processor, the least key is added.
    have mirrored : ∀ key : Nat, let put := ctx.put x fun t => {t with priority:=t.nextPriority,schedKey:=key}
        hevTaskSystemInsertTask line put x = some middle → Mirrors (fun fuel => hevTaskSystemInsertTask (cached fuel) (onTree put tree) x) middle := by
      intro key put inserted
      have other : ∀ y ∈ ctx.runningTasks, put.key y = ctx.key y := by
        intro y member
        have apart : y ≠ x := fun same => out (same ▸ member)
        simp only [put,HevTaskSystemContext.put,HevTaskSystemContext.key,Function.update_of_ne apart]
      apply mirror_insert put keeps _ address out inserted
      apply sound.sorted.imp_of_mem
      intro a b ha hb less
      rwa [other a ha,other b hb]
    have least : ∀ fuel, hevTaskSystemGetMinSchedKey (cached fuel)
        ((onTree ctx tree).put x fun t => {t with priority:=t.nextPriority,schedKey:=t.nextPriority}) = minKey ctx := by
      intro fuel
      exact (mirror_min (ctx.put x fun t => {t with priority:=t.nextPriority,schedKey:=t.nextPriority}) keeps fuel).trans (min_put _ out)
    cases current : ctx.currentTask with
    | none =>
      rw [if_neg (by simp [HevTaskSystemContext.put,current])] at inserted
      obtain ⟨tree',ends,after⟩ := mirrored (ctx.task x).nextPriority inserted
      refine ⟨tree',ends_same (ends_map ends fun ctx => {ctx with totalTaskCount:=ctx.totalTaskCount+1}) fun fuel => ?_,after⟩
      rw [hevTaskSystemRunNewTask,if_neg (by simp [HevTaskSystemContext.put,onTree,current])]
      rfl
    | some c =>
      rw [if_pos (by simp [HevTaskSystemContext.put,current])] at inserted
      simp only [HevTaskSystemContext.put,Function.update_idem,Function.update_self] at inserted
      obtain ⟨tree',ends,after⟩ := mirrored (add64 (ctx.task x).nextPriority (minKey ctx)) inserted
      refine ⟨tree',ends_same (ends_map ends fun ctx => {ctx with totalTaskCount:=ctx.totalTaskCount+1}) fun fuel => ?_,after⟩
      rw [hevTaskSystemRunNewTask,if_pos (by simp [HevTaskSystemContext.put,onTree,current]),least fuel]
      simp only [HevTaskSystemContext.put,Function.update_idem,Function.update_self]
      rfl

-- The task structures of the tasks that are started are aligned.
def Event.Placed : Event (BitVec w) → Prop
  | .run x => Address x
  | _ => True

theorem mirror_schedule {type : SchedType} (sound : Sound live turns ctx) (led : Led ctx) (room : Room (turns+1)) (placed : ∀ y ∈ live, Address y)
    (keeps : Keeps tree ctx.runningTasks) (current : ctx.currentTask = some c) (went : hevTaskSystemSchedule line ctx (some type) polls = some next) :
    Mirrors (fun fuel => hevTaskSystemSchedule (cached fuel) (onTree ctx tree) (some type) polls) next ∧
      ∃ live', Sound live' (turns+1) next ∧ Led next ∧ ∀ y ∈ live', Address y := by
  obtain ⟨rest,shape,after,entered⟩ := schedule_sound sound led room current went
  have kept : ∀ y ∈ survivors live c type, Address y := by
    intro y member
    cases type with
    | remove => exact placed y (List.mem_of_mem_erase member)
    | switch => exact placed y member
    | waitio => exact placed y member
  obtain ⟨tree',ends,out⟩ := mirror_leave type sound placed keeps current shape
  obtain ⟨tree'',ends',inside⟩ := mirror_enter after room kept out entered
  obtain ⟨sound',led'⟩ := enter_sound after room entered
  exact ⟨⟨tree'',ends_bind ends ends',inside⟩,_,sound',led',kept⟩

theorem mirror_step {e : Event (BitVec w)} (sound : Sound live turns ctx) (led : Led ctx) (room : Room (turns+1)) (placed : ∀ y ∈ live, Address y)
    (aligned : e.Placed) (keeps : Keeps tree ctx.runningTasks) (went : step line ctx e = some next) :
    Mirrors (fun fuel => step (cached fuel) (onTree ctx tree) e) next ∧
      ∃ live', Sound live' (turns+e.leaves) next ∧ Led next ∧ ∀ y ∈ live', Address y := by
  cases e with
  | run x =>
    refine ⟨mirror_run sound aligned keeps went,?_⟩
    obtain ⟨led',_,⟨rfl,_⟩ | ⟨_,after,_⟩⟩ := run_sound sound led (room_less room (by omega)) went
    · exact ⟨live,sound,led,placed⟩
    · refine ⟨_,after,led',fun y member => ?_⟩
      rcases List.mem_cons.mp member with rfl | member
      · exact aligned
      · exact placed y member
  | setPriority x priority =>
    cases went
    exact ⟨⟨tree,ends_now _,keeps⟩,live,priority_sound sound x priority,led,placed⟩
  | wakeup x =>
    have woken := wakeup_woken sound (room_less room (by omega)) went
    exact ⟨mirror_wakeup sound placed keeps went,live,woken.sound,fun y same => woken.front y (led y (woken.current ▸ same)),placed⟩
  | start polls =>
    simp only [step,Option.ite_none_right_eq_some] at went
    have early : Room turns := room_less room (Nat.le_succ _)
    obtain ⟨sound',led'⟩ := enter_sound sound early went.2
    obtain ⟨tree',ends,inside⟩ := mirror_enter sound early placed keeps went.2
    exact ⟨⟨tree',ends_same ends fun fuel => if_pos went.1,inside⟩,live,sound',led',placed⟩
  | yield type polls =>
    simp only [step,Option.ite_none_right_eq_some] at went
    obtain ⟨c,current⟩ := Option.isSome_iff_exists.mp went.1
    obtain ⟨⟨tree',ends,inside⟩,after⟩ := mirror_schedule sound led room placed keeps current went.2
    exact ⟨⟨tree',ends_same ends fun fuel => if_pos went.1,inside⟩,after⟩
  | exit polls =>
    simp only [step,Option.ite_none_right_eq_some] at went
    obtain ⟨c,current⟩ := Option.isSome_iff_exists.mp went.1
    obtain ⟨⟨tree',ends,inside⟩,after⟩ := mirror_schedule sound led room placed keeps current went.2
    exact ⟨⟨tree',ends_same ends fun fuel => if_pos went.1,inside⟩,after⟩

theorem mirror_events {events : List (Event (BitVec w))} (sound : Sound live turns ctx) (led : Led ctx)
    (room : Room (turns+departures events+1)) (placed : ∀ y ∈ live, Address y) (aligned : ∀ e ∈ events, e.Placed)
    (keeps : Keeps tree ctx.runningTasks) (went : Runs.exec (step line) ctx events = some next) :
    Mirrors (fun fuel => Runs.exec (step (cached fuel)) (onTree ctx tree) events) next := by
  induction events generalizing ctx live turns tree with
  | nil =>
    cases went
    exact ⟨tree,ends_now _,keeps⟩
  | cons e events ih =>
    obtain ⟨middle,first,rest⟩ := Runs.exec_cons went
    rw [departures] at room
    obtain ⟨⟨tree',ends,inside⟩,live',sound',led',placed'⟩ :=
      mirror_step sound led (room_less room (by omega)) placed (aligned e (by simp)) keeps first
    obtain ⟨tree'',ends',after⟩ := ih sound' led' (by rwa [← Nat.add_assoc] at room) placed' (fun f member => aligned f (by simp [member])) inside rest
    exact ⟨tree'',ends_bind ends ends',after⟩

-- The scheduler on the cached tree in memory does in every run what it does on a sorted list, in which the ready tasks stand
-- by their keys, once each, with the task on the processor first.
theorem scheduler_exact (node : BitVec w → HevRBTreeNode w) {events : List (Event (BitVec w))} (aligned : ∀ e ∈ events, e.Placed)
    (room : 15*(departures events+3) < 2^64) (went : Runs.exec (step line) hevTaskSystemInit events = some next) :
    (∃ tree, Ends (fun fuel => Runs.exec (step (cached fuel)) (onTree hevTaskSystemInit ⟨⟨0,node⟩,0⟩) events) (onTree next tree) ∧
      Keeps tree next.runningTasks) ∧
    (∀ x, x ∈ next.runningTasks ↔ (next.task x).state = .running) ∧ next.runningTasks.Nodup ∧
    next.runningTasks.Pairwise (next.key · ≤ next.key ·) ∧ next.runningTaskCount = next.runningTasks.length ∧
    (∃ live : List (BitVec w), live.Nodup ∧ (∀ x, x ∈ live ↔ (next.task x).state ≠ .stopped) ∧ next.totalTaskCount = live.length) ∧
    ∀ x, next.currentTask = some x → next.runningTasks.head? = some x := by
  have small : Room (0+departures events+1) := by
    unfold Room hevTaskPriorityMax
    omega
  have led : Led (hevTaskSystemInit : HevTaskSystemContext (BitVec w) (List (BitVec w))) := by simp [Led,hevTaskSystemInit]
  have empty : Keeps (⟨⟨0,node⟩,0⟩ : HevRBTreeCached w) [] := ⟨⟨.nil,⟨rfl,trivial,List.nodup_nil⟩,⟨0,.nil⟩,rfl⟩,rfl⟩
  obtain ⟨live,sound,led'⟩ := run_keeps init_sound led small went
  exact ⟨mirror_events init_sound led small (by simp) aligned empty went,sound.running,sound.distinct,sound.sorted,sound.count,
    ⟨live,sound.apart,sound.alive,sound.total⟩,led'⟩

def twoTasks : List (Event (BitVec 64)) := [.run 8,.run 16,.start [],.yield .waitio [[]],.wakeup 8,.yield .yield []]

theorem two_tasks_exact : ∃ next : HevTaskSystemContext (BitVec 64) (List (BitVec 64)),
    Runs.exec (step line) hevTaskSystemInit twoTasks = some next ∧ next.currentTask = some 8 ∧ next.runningTasks = [8,16] ∧
    ∃ tree, Ends (fun fuel => Runs.exec (step (cached fuel)) (onTree hevTaskSystemInit ⟨⟨0,fun _ => ⟨1,0,0⟩⟩,0⟩) twoTasks)
      (onTree next tree) ∧
      Keeps tree next.runningTasks := by
  refine ⟨_,rfl,rfl,rfl,?_⟩
  have aligned : ∀ e ∈ twoTasks, e.Placed := by
    intro e member
    simp only [twoTasks,List.mem_cons,List.not_mem_nil,or_false] at member
    rcases member with rfl | rfl | rfl | rfl | rfl | rfl
    · exact ⟨by decide,by decide⟩
    · exact ⟨by decide,by decide⟩
    · trivial
    · trivial
    · trivial
    · trivial
  exact (scheduler_exact _ aligned (by decide) rfl).1

end Psocks.Schedule
