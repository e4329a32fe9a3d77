import Mathlib.Algebra.Group.Int.Defs
import Mathlib.Algebra.Group.Nat.Defs
import Mathlib.Data.List.Sort
import Mathlib.Logic.Function.Basic
import Psocks.Lib.Runs

namespace Psocks.Schedule

inductive HevTaskState where
  | stopped
  | running
  | waiting
deriving DecidableEq, Repr

inductive HevTaskYieldType where
  | yield
  | waitio
deriving DecidableEq, Repr

structure HevTask where
  schedKey : Nat
  priority : Nat
  nextPriority : Nat
  state : HevTaskState
deriving DecidableEq, Repr

-- A sorted tree, as its callers use it: on its way down a new node turns left where it comes
-- before the node there.
structure Tree (α τ : Type) where
  first : τ → Option α
  insert : (α → α → Bool) → τ → α → Option τ
  erase : τ → α → Option τ

structure HevTaskSystemContext (α τ : Type) where
  totalTaskCount : Nat
  runningTaskCount : Nat
  currentTask : Option α
  runningTasks : τ
  task : α → HevTask

def hevTaskPriorityMax : Nat := 15

def hevTaskPriorityDefault : Nat := 8

def hevTaskNew : HevTask := ⟨0,0,hevTaskPriorityDefault,.stopped⟩

def add64 (a b : Nat) : Nat := (a+b) % 2^64

def clampPriority (priority : Int) : Nat :=
  if priority < 0 then 0
  else if priority > hevTaskPriorityMax then hevTaskPriorityMax
  else priority.toNat

section Model
variable {α τ : Type} [DecidableEq α] (tree : Tree α τ)

def HevTaskSystemContext.put (ctx : HevTaskSystemContext α τ) (x : α) (f : HevTask → HevTask) : HevTaskSystemContext α τ :=
  {ctx with task:=Function.update ctx.task x (f (ctx.task x))}

def HevTaskSystemContext.key (ctx : HevTaskSystemContext α τ) (x : α) : Nat := (ctx.task x).schedKey

-- Without a schedule clock the runtime is 1.
def hevTaskSystemUpdateSchedKey (ctx : HevTaskSystemContext α τ) : Option (HevTaskSystemContext α τ) := do
  let curr ← ctx.currentTask
  let runtime := 1
  some (ctx.put curr fun t => {t with schedKey:=add64 t.schedKey (runtime*t.priority)})

def hevTaskSystemGetMinSchedKey (ctx : HevTaskSystemContext α τ) : Nat :=
  match tree.first ctx.runningTasks with
  | some x => ctx.key x
  | none => 0

def hevTaskSystemInsertTask (ctx : HevTaskSystemContext α τ) (x : α) : Option (HevTaskSystemContext α τ) := do
  let ctx := ctx.put x fun t => {t with state:=.running,priority:=t.nextPriority}
  let running ← tree.insert (fun task this => decide (ctx.key task < ctx.key this)) ctx.runningTasks x
  some {ctx with runningTasks:=running,runningTaskCount:=ctx.runningTaskCount+1}

def hevTaskSystemReinsertCurrentTask (ctx : HevTaskSystemContext α τ) : Option (HevTaskSystemContext α τ) := do
  let x ← ctx.currentTask
  let ctx := ctx.put x fun t => {t with priority:=t.nextPriority}
  let running ← tree.erase ctx.runningTasks x
  let running ← tree.insert (fun task this => decide (ctx.key task < ctx.key this)) running x
  some {ctx with runningTasks:=running}

def hevTaskSystemRemoveCurrentTask (ctx : HevTaskSystemContext α τ) (state : HevTaskState) : Option (HevTaskSystemContext α τ) := do
  let x ← ctx.currentTask
  let ctx := ctx.put x fun t => {t with state:=state}
  let running ← tree.erase ctx.runningTasks x
  let ctx := {ctx with runningTasks:=running,runningTaskCount:=ctx.runningTaskCount-1}
  if state = .stopped then some {ctx with totalTaskCount:=ctx.totalTaskCount-1}
  else some (ctx.put x fun t => {t with schedKey:=t.nextPriority})

def hevTaskSystemWakeupTask (ctx : HevTaskSystemContext α τ) (x : α) : Option (HevTaskSystemContext α τ) :=
  match (ctx.task x).state with
  | .running => some ctx
  -- abort ()
  | .stopped => none
  | .waiting => hevTaskSystemInsertTask tree (ctx.put x fun t => {t with schedKey:=add64 t.schedKey (hevTaskSystemGetMinSchedKey tree ctx)}) x

-- The tasks that one poll wakes up: those of the reactor's events, then the timer's.
def hevTaskSystemIoPoll (ctx : HevTaskSystemContext α τ) : List α → Option (HevTaskSystemContext α τ)
  | [] => some ctx
  | x::wakes => (hevTaskSystemWakeupTask tree ctx x).bind (hevTaskSystemIoPoll · wakes)

-- Polls until one of them wakes a task up; without an end to them the system sleeps.
def pollIdle (ctx : HevTaskSystemContext α τ) : List (List α) → Option (HevTaskSystemContext α τ)
  | [] => none
  | wakes::polls => do
    let ctx ← hevTaskSystemIoPoll tree ctx wakes
    if ctx.runningTaskCount = 0 then pollIdle ctx polls else some ctx

def pollTasks (ctx : HevTaskSystemContext α τ) (polls : List (List α)) : Option (HevTaskSystemContext α τ) :=
  if ctx.runningTaskCount < ctx.totalTaskCount then
    if ctx.runningTaskCount ≠ 0 then hevTaskSystemIoPoll tree ctx (polls.headD [])
    else pollIdle tree ctx polls
  else some ctx

def hevTaskSystemPickCurrentTask (ctx : HevTaskSystemContext α τ) (polls : List (List α)) : Option (HevTaskSystemContext α τ) := do
  let ctx ← pollTasks tree ctx polls
  let x ← tree.first ctx.runningTasks
  some {ctx with currentTask:=some x}

inductive SchedType where
  | switch
  | waitio
  | remove
deriving DecidableEq, Repr

def leaveTask (ctx : HevTaskSystemContext α τ) : SchedType → Option (HevTaskSystemContext α τ)
  | .switch => do
    let ctx ← hevTaskSystemUpdateSchedKey ctx
    hevTaskSystemReinsertCurrentTask tree ctx
  | .waitio => do
    let ctx ← hevTaskSystemUpdateSchedKey ctx
    hevTaskSystemRemoveCurrentTask tree ctx .waiting
  | .remove => hevTaskSystemRemoveCurrentTask tree ctx .stopped

def enterTask (ctx : HevTaskSystemContext α τ) (polls : List (List α)) : Option (HevTaskSystemContext α τ) :=
  if ctx.totalTaskCount = 0 then some {ctx with currentTask:=none}
  else hevTaskSystemPickCurrentTask tree ctx polls

-- In kernel context, with the type that the current task jumped back with, if there is one.
def hevTaskSystemSchedule (ctx : HevTaskSystemContext α τ) (type : Option SchedType) (polls : List (List α)) :
    Option (HevTaskSystemContext α τ) := do
  let ctx ←
    match type with
    | some type => leaveTask tree ctx type
    | none => some ctx
  enterTask tree ctx polls

def hevTaskSystemRunNewTask (ctx : HevTaskSystemContext α τ) (x : α) : Option (HevTaskSystemContext α τ) := do
  let ctx :=
    if ctx.currentTask.isSome then ctx.put x fun t => {t with schedKey:=add64 t.schedKey (hevTaskSystemGetMinSchedKey tree ctx)}
    else ctx
  let ctx ← hevTaskSystemInsertTask tree ctx x
  some {ctx with totalTaskCount:=ctx.totalTaskCount+1}

def hevTaskRun (ctx : HevTaskSystemContext α τ) (x : α) : Option (HevTaskSystemContext α τ) :=
  if (ctx.task x).state ≠ .stopped then some ctx
  else hevTaskSystemRunNewTask tree (ctx.put x fun t => {t with priority:=t.nextPriority,schedKey:=t.nextPriority}) x

def hevTaskSetPriority (ctx : HevTaskSystemContext α τ) (x : α) (priority : Int) : HevTaskSystemContext α τ :=
  ctx.put x fun t => {t with nextPriority:=clampPriority priority}

-- What tasks do, and the polls that the kernel makes before it enters the next one.
inductive Event (α : Type) where
  | run (x : α)
  | setPriority (x : α) (priority : Int)
  | wakeup (x : α)
  | start (polls : List (List α))
  | yield (type : HevTaskYieldType) (polls : List (List α))
  | exit (polls : List (List α))

def HevTaskYieldType.sched : HevTaskYieldType → SchedType
  | .yield => .switch
  | .waitio => .waitio

def step (ctx : HevTaskSystemContext α τ) : Event α → Option (HevTaskSystemContext α τ)
  | .run x => hevTaskRun tree ctx x
  | .setPriority x priority => some (hevTaskSetPriority ctx x priority)
  | .wakeup x => hevTaskSystemWakeupTask tree ctx x
  | .start polls => if ctx.currentTask.isNone then hevTaskSystemSchedule tree ctx none polls else none
  | .yield type polls => if ctx.currentTask.isSome then hevTaskSystemSchedule tree ctx (some type.sched) polls else none
  | .exit polls => if ctx.currentTask.isSome then hevTaskSystemSchedule tree ctx (some .remove) polls else none

end Model

-- A list sorted by keys; a new item goes behind those with the same key.
def insertBefore {α : Type} (before : α → α → Bool) (items : List α) (x : α) : List α := items.orderedInsert (fun a b => before a b = true) x

def line {α : Type} [DecidableEq α] : Tree α (List α) where
  first := List.head?
  insert before items x := some (insertBefore before items x)
  erase items x := some (items.erase x)

variable {α : Type} [DecidableEq α]

def hevTaskSystemInit : HevTaskSystemContext α (List α) := ⟨0,0,none,[],fun _ => hevTaskNew⟩

-- `live` are the tasks that are not stopped, `turns` the times that tasks have left the processor.
structure Sound (live : List α) (turns : Nat) (ctx : HevTaskSystemContext α (List α)) : Prop where
  running : ∀ x, x ∈ ctx.runningTasks ↔ (ctx.task x).state = .running
  distinct : ctx.runningTasks.Nodup
  sorted : ctx.runningTasks.Pairwise (ctx.key · ≤ ctx.key ·)
  count : ctx.runningTaskCount = ctx.runningTasks.length
  alive : ∀ x, x ∈ live ↔ (ctx.task x).state ≠ .stopped
  apart : live.Nodup
  total : ctx.totalTaskCount = live.length
  priority : ∀ x, (ctx.task x).priority ≤ hevTaskPriorityMax ∧ (ctx.task x).nextPriority ≤ hevTaskPriorityMax
  idle : ∀ x, (ctx.task x).state = .waiting → ctx.key x ≤ hevTaskPriorityMax
  front : ∀ x, ctx.runningTasks.head? = some x → ctx.key x ≤ hevTaskPriorityMax*(turns+1)
  bounded : ∀ x ∈ ctx.runningTasks, ctx.key x ≤ hevTaskPriorityMax*(turns+2)

-- The task on the processor is the first one of the tree.
def Led (ctx : HevTaskSystemContext α (List α)) : Prop := ∀ x, ctx.currentTask = some x → ctx.runningTasks.head? = some x

omit [DecidableEq α] in
theorem init_sound : Sound [] 0 (hevTaskSystemInit : HevTaskSystemContext α (List α)) := by
  refine ⟨?_,?_,?_,?_,?_,?_,?_,?_,?_,?_,?_⟩ <;> simp [hevTaskSystemInit,hevTaskNew,hevTaskPriorityMax,hevTaskPriorityDefault]

variable {ctx next : HevTaskSystemContext α (List α)} {live : List α} {turns : Nat} {x c : α} {polls : List (List α)}

section Insert
variable {κ : Type} [LinearOrder κ] {key : α → κ} {items : List α}

omit [DecidableEq α] in
theorem insert_by {before : α → α → Bool} (same : ∀ a b, before a b = true ↔ key a < key b) (items : List α) (x : α) :
    insertBefore before items x = items.orderedInsert (fun a b => key a < key b) x := by
  simp only [insertBefore,same]

omit [DecidableEq α] in
theorem insert_by_key (key : α → Nat) (items : List α) (x : α) :
    insertBefore (fun a b => decide (key a < key b)) items x = items.orderedInsert (fun a b => key a < key b) x :=
  insert_by (fun _ _ => decide_eq_true_iff) items x

omit [DecidableEq α] in
theorem insert_sorted (sorted : items.Pairwise (key · ≤ key ·)) :
    (items.orderedInsert (fun a b => key a < key b) x).Pairwise (key · ≤ key ·) := by
  induction items with
  | nil => simp
  | cons y items ih =>
    rw [List.pairwise_cons] at sorted
    rw [List.orderedInsert_cons]
    split
    · rename_i less
      refine List.pairwise_cons.mpr ⟨fun z member => ?_,List.pairwise_cons.mpr sorted⟩
      rcases List.mem_cons.mp member with rfl | member
      · exact less.le
      · exact less.le.trans (sorted.1 z member)
    · rename_i more
      refine List.pairwise_cons.mpr ⟨fun z member => ?_,ih sorted.2⟩
      rcases (List.mem_orderedInsert ..).mp member with rfl | member
      · exact not_lt.mp more
      · exact sorted.1 z member

omit [DecidableEq α] in
theorem insert_first (head : items.head? = some c) (behind : key c ≤ key x) :
    (items.orderedInsert (fun a b => key a < key b) x).head? = some c := by
  cases items with
  | nil => cases head
  | cons y items =>
    cases head
    rw [List.orderedInsert_cons,if_neg (not_lt.mpr behind)]
    rfl

omit [DecidableEq α] in
theorem insert_head {y : α} (first : (items.orderedInsert (fun a b => key a < key b) x).head? = some y) : y = x ∨ items.head? = some y := by
  cases items with
  | nil => exact .inl (Option.some.inj first).symm
  | cons z items =>
    rw [List.orderedInsert_cons] at first
    split at first
    · exact .inl (Option.some.inj first).symm
    · exact .inr first

end Insert

-- A task comes into the tree under the key `k`.
def entered (ctx : HevTaskSystemContext α (List α)) (x : α) (k total : Nat) : HevTaskSystemContext α (List α) :=
  let t := ctx.task x
  let task := Function.update ctx.task x ⟨k,t.nextPriority,t.nextPriority,.running⟩
  ⟨total,ctx.runningTaskCount+1,ctx.currentTask,ctx.runningTasks.orderedInsert (fun a b => (task a).schedKey < (task b).schedKey) x,task⟩

def minKey (ctx : HevTaskSystemContext α (List α)) : Nat := hevTaskSystemGetMinSchedKey line ctx

theorem wakeup_cases (went : hevTaskSystemWakeupTask line ctx x = some next) :
    ((ctx.task x).state = .running ∧ next = ctx) ∨
    ((ctx.task x).state = .waiting ∧ next = entered ctx x (add64 (ctx.key x) (minKey ctx)) ctx.totalTaskCount) := by
  unfold hevTaskSystemWakeupTask at went
  cases state : (ctx.task x).state with
  | running =>
    rw [state] at went
    exact .inl ⟨rfl,(Option.some.inj went).symm⟩
  | stopped =>
    rw [state] at went
    cases went
  | waiting =>
    rw [state] at went
    refine .inr ⟨rfl,?_⟩
    simp only [hevTaskSystemInsertTask,HevTaskSystemContext.put,line,insert_by_key,Option.bind_eq_bind,Option.bind_some,Option.some.injEq,
      Function.update_idem,Function.update_self] at went
    rw [← went]
    rfl

theorem min_first (first : ctx.runningTasks.head? = some c) : minKey ctx = ctx.key c := by
  simp only [minKey,hevTaskSystemGetMinSchedKey,line,first]

theorem min_none (none_ : ctx.runningTasks.head? = none) : minKey ctx = 0 := by
  simp only [minKey,hevTaskSystemGetMinSchedKey,line,none_]

theorem min_put (f : HevTask → HevTask) (out : x ∉ ctx.runningTasks) : hevTaskSystemGetMinSchedKey line (ctx.put x f) = minKey ctx := by
  simp only [minKey,hevTaskSystemGetMinSchedKey,HevTaskSystemContext.put,HevTaskSystemContext.key,line]
  cases first : ctx.runningTasks.head? with
  | none => rfl
  | some c =>
    have member := List.mem_of_mem_head? first
    have apart : c ≠ x := fun same => out (same ▸ member)
    simp only [Function.update_of_ne apart]

theorem run_cases (sound : Sound live turns ctx) (went : hevTaskRun line ctx x = some next) :
    ((ctx.task x).state ≠ .stopped ∧ next = ctx) ∨
    ((ctx.task x).state = .stopped ∧ next = entered ctx x
      (if ctx.currentTask.isSome then add64 (ctx.task x).nextPriority (minKey ctx) else (ctx.task x).nextPriority) (ctx.totalTaskCount+1)) := by
  unfold hevTaskRun at went
  split at went
  · rename_i busy
    exact .inl ⟨busy,(Option.some.inj went).symm⟩
  · rename_i stopped
    have state := not_not.mp stopped
    have out : x ∉ ctx.runningTasks := by
      rw [sound.running,state]
      simp
    refine .inr ⟨state,?_⟩
    simp only [hevTaskSystemRunNewTask,min_put _ out] at went
    by_cases inside : ctx.currentTask.isSome
    · rw [if_pos (show (ctx.put x _).currentTask.isSome from inside)] at went
      rw [if_pos inside]
      simp only [hevTaskSystemInsertTask,HevTaskSystemContext.put,line,insert_by_key,Option.bind_eq_bind,Option.bind_some,Option.some.injEq,
        Function.update_idem,Function.update_self] at went
      rw [← went]
      rfl
    · rw [if_neg (show ¬(ctx.put x _).currentTask.isSome from inside)] at went
      rw [if_neg inside]
      simp only [hevTaskSystemInsertTask,HevTaskSystemContext.put,line,insert_by_key,Option.bind_eq_bind,Option.bind_some,Option.some.injEq,
        Function.update_idem,Function.update_self] at went
      rw [← went]
      rfl

theorem entered_key (ctx : HevTaskSystemContext α (List α)) (x : α) (k total : Nat) (y : α) :
    (entered ctx x k total).key y = if y = x then k else ctx.key y := by
  simp only [entered,HevTaskSystemContext.key,Function.update_apply]
  split <;> rfl

theorem entered_tasks (ctx : HevTaskSystemContext α (List α)) (x : α) (k total : Nat) :
    (entered ctx x k total).runningTasks =
      ctx.runningTasks.orderedInsert (fun a b => (entered ctx x k total).key a < (entered ctx x k total).key b) x := rfl

theorem entered_first {k : Nat} (total : Nat) (out : x ∉ ctx.runningTasks) (behind : minKey ctx ≤ k) (first : ctx.runningTasks.head? = some c) :
    (entered ctx x k total).runningTasks.head? = some c := by
  have apart : c ≠ x := fun same => out (same ▸ List.mem_of_mem_head? first)
  apply insert_first first
  change (entered ctx x k total).key c ≤ (entered ctx x k total).key x
  rw [entered_key,entered_key,if_neg apart,if_pos rfl,← min_first first]
  exact behind

-- What coming in under a key that is not far above the least one keeps.
theorem entered_sound {k total : Nat} {live' : List α} (sound : Sound live turns ctx) (out : x ∉ ctx.runningTasks)
    (behind : minKey ctx ≤ k ∨ k ≤ hevTaskPriorityMax) (near : k ≤ minKey ctx+hevTaskPriorityMax)
    (alive : ∀ y, y ∈ live' ↔ y = x ∨ y ∈ live) (apart : live'.Nodup) (counted : total = live'.length) :
    Sound live' turns (entered ctx x k total) := by
  have state : ∀ y, ((entered ctx x k total).task y).state = if y = x then .running else (ctx.task y).state := by
    intro y
    simp only [entered,Function.update_apply]
    split <;> rfl
  have low : minKey ctx ≤ hevTaskPriorityMax*(turns+1) := by
    cases first : ctx.runningTasks.head? with
    | none => simp [min_none first]
    | some c => exact min_first first ▸ sound.front c first
  have others : ∀ y ∈ ctx.runningTasks, (entered ctx x k total).key y = ctx.key y := by
    intro y member
    rw [entered_key,if_neg]
    exact fun same => out (same ▸ member)
  have member : ∀ y, y ∈ (entered ctx x k total).runningTasks ↔ y = x ∨ y ∈ ctx.runningTasks := by
    intro y
    rw [entered_tasks]
    exact List.mem_orderedInsert ..
  refine ⟨fun y => ?_,?_,?_,?_,fun y => ?_,apart,counted,fun y => ?_,fun y waits => ?_,fun y first => ?_,fun y inside => ?_⟩
  · rw [member,state,sound.running]
    by_cases new_ : y = x
    · simp [new_]
    · simp [new_]
  · rw [entered_tasks,(List.perm_orderedInsert ..).nodup_iff]
    exact List.nodup_cons.mpr ⟨out,sound.distinct⟩
  · rw [entered_tasks]
    apply insert_sorted
    apply sound.sorted.imp_of_mem
    intro a b ha hb less
    rwa [others a ha,others b hb]
  · rw [entered_tasks,List.orderedInsert_length]
    exact congrArg (·+1) sound.count
  · rw [alive,state,sound.alive]
    by_cases new_ : y = x
    · simp [new_]
    · simp [new_]
  · simp only [entered,Function.update_apply]
    split
    · exact ⟨(sound.priority x).2,(sound.priority x).2⟩
    · exact sound.priority y
  · rw [state] at waits
    by_cases new_ : y = x
    · simp [new_] at waits
    · rw [if_neg new_] at waits
      rw [entered_key,if_neg new_]
      exact sound.idle y waits
  · rcases insert_head first with rfl | first
    · rw [entered_key,if_pos rfl]
      rcases behind with behind | small
      · cases before : ctx.runningTasks.head? with
        | none =>
          have := min_none before
          simp only [hevTaskPriorityMax] at near ⊢
          omega
        | some c =>
          have kept := entered_first total out behind before
          cases kept.symm.trans first
          exact absurd (List.mem_of_mem_head? before) out
      · simp only [hevTaskPriorityMax] at small ⊢
        omega
    · rw [others y (List.mem_of_mem_head? first)]
      exact sound.front y first
  · rcases (member y).mp inside with rfl | old
    · rw [entered_key,if_pos rfl]
      simp only [hevTaskPriorityMax] at near low ⊢
      omega
    · rw [others y old]
      exact sound.bounded y old

theorem min_low (sound : Sound live turns ctx) : minKey ctx ≤ hevTaskPriorityMax*(turns+1) := by
  cases first : ctx.runningTasks.head? with
  | none => simp [min_none first]
  | some c => exact min_first first ▸ sound.front c first

-- So few turns that no key reaches 2^64.
def Room (turns : Nat) : Prop := hevTaskPriorityMax*(turns+2) < 2^64

theorem room_less {n m : Nat} (room : Room n) (less : m ≤ n) : Room m := by
  unfold Room hevTaskPriorityMax at *
  omega

theorem add_min (sound : Sound live turns ctx) (room : Room turns) {k : Nat} (small : k ≤ hevTaskPriorityMax) :
    add64 k (minKey ctx) = minKey ctx+k := by
  have low := min_low sound
  unfold add64
  rw [Nat.add_comm,Nat.mod_eq_of_lt]
  simp only [Room,hevTaskPriorityMax] at *
  omega

-- What waking tasks up does: the first task of the tree stays in front, and no task but a waiting
-- one changes, which comes in behind it.
structure Woken (live : List α) (turns : Nat) (ctx next : HevTaskSystemContext α (List α)) : Prop where
  sound : Sound live turns next
  current : next.currentTask = ctx.currentTask
  total : next.totalTaskCount = ctx.totalTaskCount
  front : ∀ c, ctx.runningTasks.head? = some c → next.runningTasks.head? = some c
  change : ∀ y, next.task y = ctx.task y ∨ (ctx.task y).state = .waiting ∧ ∃ k, minKey ctx+ctx.key y ≤ k ∧
    next.task y = ⟨k,(ctx.task y).nextPriority,(ctx.task y).nextPriority,.running⟩

theorem woken_same (sound : Sound live turns ctx) : Woken live turns ctx ctx := ⟨sound,rfl,rfl,fun _ first => first,fun _ => .inl rfl⟩

theorem woken_kept (woken : Woken live turns ctx next) {y : α} (runs : (ctx.task y).state = .running) : next.task y = ctx.task y := by
  rcases woken.change y with same | ⟨waits,_⟩
  · exact same
  · rw [runs] at waits
    cases waits

theorem woken_min (sound : Sound live turns ctx) (woken : Woken live turns ctx next) : minKey ctx ≤ minKey next := by
  cases first : ctx.runningTasks.head? with
  | none => simp [min_none first]
  | some c =>
    have runs := (sound.running c).mp (List.mem_of_mem_head? first)
    rw [min_first first,min_first (woken.front c first)]
    exact (congrArg HevTask.schedKey (woken_kept woken runs)).ge

theorem wakeup_woken (sound : Sound live turns ctx) (room : Room turns) (went : hevTaskSystemWakeupTask line ctx x = some next) :
    Woken live turns ctx next := by
  rcases wakeup_cases went with ⟨_,rfl⟩ | ⟨waits,rfl⟩
  · exact woken_same sound
  · have out : x ∉ ctx.runningTasks := by
      rw [sound.running,waits]
      simp
    have small := sound.idle x waits
    have known : x ∈ live := (sound.alive x).mpr (by simp [waits])
    rw [add_min sound room small]
    refine ⟨entered_sound sound out (.inl (by omega)) (by omega) (fun y => ?_) sound.apart sound.total,rfl,rfl,fun c first => ?_,fun y => ?_⟩
    · exact ⟨.inr,fun either => either.elim (fun same => same ▸ known) id⟩
    · exact entered_first _ out (by omega) first
    · by_cases same : y = x
      · subst same
        exact .inr ⟨waits,_,Nat.le_refl _,Function.update_self ..⟩
      · exact .inl (Function.update_of_ne same ..)

theorem woken_trans {middle : HevTaskSystemContext α (List α)} (sound : Sound live turns ctx) (first : Woken live turns ctx middle)
    (second : Woken live turns middle next) : Woken live turns ctx next := by
  have rises := woken_min sound first
  refine ⟨second.sound,second.current.trans first.current,second.total.trans first.total,?_,fun y => ?_⟩
  · exact fun c head => second.front c (first.front c head)
  · rcases first.change y with same | ⟨waits,k,above,woke⟩
    · rcases second.change y with still | ⟨waits,k,above,woke⟩
      · exact .inl (still.trans same)
      · have key : middle.key y = ctx.key y := congrArg HevTask.schedKey same
        rw [same] at waits woke
        exact .inr ⟨waits,k,by omega,woke⟩
    · exact .inr ⟨waits,k,above,(woken_kept second (by simp [woke])).trans woke⟩

theorem poll_woken {wakes : List α} (sound : Sound live turns ctx) (room : Room turns)
    (went : hevTaskSystemIoPoll line ctx wakes = some next) : Woken live turns ctx next := by
  induction wakes generalizing ctx with
  | nil =>
    cases went
    exact woken_same sound
  | cons x wakes ih =>
    obtain ⟨middle,woke,rest⟩ := Option.bind_eq_some_iff.mp went
    have first := wakeup_woken sound room woke
    exact woken_trans sound first (ih first.sound rest)

theorem idle_woken (sound : Sound live turns ctx) (room : Room turns) (went : pollIdle line ctx polls = some next) :
    Woken live turns ctx next := by
  induction polls generalizing ctx with
  | nil => cases went
  | cons wakes polls ih =>
    obtain ⟨middle,polled,rest⟩ := Option.bind_eq_some_iff.mp went
    have first := poll_woken sound room polled
    split at rest
    · exact woken_trans sound first (ih first.sound rest)
    · cases rest
      exact first

-- The kernel enters a task that is first in the tree, with a least key.
structure Picked (live : List α) (turns : Nat) (ctx next : HevTaskSystemContext α (List α)) : Prop where
  woken : Woken live turns ctx {next with currentTask:=ctx.currentTask}
  led : Led next
  some_ : next.currentTask ≠ none

theorem pick_picked (sound : Sound live turns ctx) (room : Room turns)
    (went : hevTaskSystemPickCurrentTask line ctx polls = some next) : Picked live turns ctx next := by
  simp only [hevTaskSystemPickCurrentTask,Option.bind_eq_bind,Option.bind_eq_some_iff,Option.some.injEq] at went
  obtain ⟨middle,polled,x,head,rfl⟩ := went
  have first : Woken live turns ctx middle := by
    unfold pollTasks at polled
    split at polled
    · split at polled
      · exact poll_woken sound room polled
      · exact idle_woken sound room polled
    · cases polled
      exact woken_same sound
  refine ⟨?_,?_,by simp⟩
  · rw [← first.current]
    exact first
  · intro y same
    cases same
    exact head

-- What the kernel makes of the task that has left the processor, with `rest` behind it in the tree.
def departed (ctx : HevTaskSystemContext α (List α)) (c : α) (rest : List α) : SchedType → HevTaskSystemContext α (List α)
  | .switch =>
    let t := ctx.task c
    let task := Function.update ctx.task c ⟨add64 t.schedKey t.priority,t.nextPriority,t.nextPriority,t.state⟩
    {ctx with runningTasks:=rest.orderedInsert (fun a b => (task a).schedKey < (task b).schedKey) c,task:=task}
  | .waitio =>
    let t := ctx.task c
    {ctx with runningTaskCount:=ctx.runningTaskCount-1,runningTasks:=rest,
              task:=Function.update ctx.task c ⟨t.nextPriority,t.priority,t.nextPriority,.waiting⟩}
  | .remove =>
    {ctx with totalTaskCount:=ctx.totalTaskCount-1,runningTaskCount:=ctx.runningTaskCount-1,runningTasks:=rest,
              task:=Function.update ctx.task c {ctx.task c with state:=.stopped}}

def survivors (live : List α) (c : α) : SchedType → List α
  | .remove => live.erase c
  | _ => live

theorem leave_departed {rest : List α} {type : SchedType} (current : ctx.currentTask = some c) (shape : ctx.runningTasks = c::rest)
    (went : leaveTask line ctx type = some next) : next = departed ctx c rest type := by
  have erased : ctx.runningTasks.erase c = rest := by rw [shape,List.erase_cons_head]
  cases type with
  | switch =>
    simp only [leaveTask,hevTaskSystemUpdateSchedKey,hevTaskSystemReinsertCurrentTask,HevTaskSystemContext.put,line,insert_by_key,current,
      Option.bind_eq_bind,Option.bind_some,Option.some.injEq,Function.update_idem,Function.update_self,erased,Nat.one_mul] at went
    rw [← went,departed,current]
    rfl
  | waitio =>
    simp only [leaveTask,hevTaskSystemUpdateSchedKey,hevTaskSystemRemoveCurrentTask,HevTaskSystemContext.put,line,current,
      Option.bind_eq_bind,Option.bind_some,Option.some.injEq,Function.update_idem,Function.update_self,erased,reduceCtorEq,if_false] at went
    rw [← went,departed,current]
  | remove =>
    simp only [leaveTask,hevTaskSystemRemoveCurrentTask,HevTaskSystemContext.put,line,current,
      Option.bind_eq_bind,Option.bind_some,Option.some.injEq,erased,if_true] at went
    rw [← went,departed,current]

theorem departed_state (c : α) (rest : List α) (type : SchedType) (y : α) :
    ((departed ctx c rest type).task y).state = if y = c then
      match type with
      | .switch => (ctx.task c).state
      | .waitio => .waiting
      | .remove => .stopped
    else (ctx.task y).state := by
  cases type <;> simp only [departed,Function.update_apply] <;> split <;> rfl

theorem departed_key (c : α) (rest : List α) (type : SchedType) (y : α) (other : y ≠ c) : (departed ctx c rest type).key y = ctx.key y := by
  cases type <;> simp only [departed,HevTaskSystemContext.key,Function.update_of_ne other]

theorem departed_member {rest : List α} {type : SchedType} {y : α} :
    y ∈ (departed ctx c rest type).runningTasks ↔ (type = .switch ∧ y = c) ∨ y ∈ rest := by
  cases type with
  | switch => exact (List.mem_orderedInsert ..).trans (by simp)
  | waitio => simp [departed]
  | remove => simp [departed]

section Departed
variable {rest : List α} {type : SchedType}

omit [DecidableEq α] in
theorem rest_running (sound : Sound live turns ctx) (shape : ctx.runningTasks = c::rest) (y : α) :
    y ∈ rest ↔ y ≠ c ∧ (ctx.task y).state = .running := by
  have distinct := sound.distinct
  rw [shape,List.nodup_cons] at distinct
  have whole := sound.running y
  rw [shape,List.mem_cons] at whole
  constructor
  · intro member
    exact ⟨fun same => distinct.1 (same ▸ member),whole.mp (.inr member)⟩
  · rintro ⟨other,runs⟩
    exact (whole.mpr runs).resolve_left other

theorem departed_rest (sound : Sound live turns ctx) (shape : ctx.runningTasks = c::rest) (type : SchedType) {y : α} (member : y ∈ rest) :
    (departed ctx c rest type).key y = ctx.key y := departed_key _ _ _ _ ((rest_running sound shape y).mp member).1

-- The first key is under its bound, and grows by the priority of its task at most.
theorem departed_small (sound : Sound live turns ctx) (room : Room turns) (shape : ctx.runningTasks = c::rest) {y : α}
    (member : y ∈ (departed ctx c rest type).runningTasks) : (departed ctx c rest type).key y ≤ hevTaskPriorityMax*(turns+2) := by
  rcases departed_member.mp member with ⟨rfl,rfl⟩ | member
  · have low : ctx.key y ≤ hevTaskPriorityMax*(turns+1) := sound.front y (by simp [shape])
    have own := (sound.priority y).1
    have step : add64 (ctx.task y).schedKey (ctx.task y).priority = ctx.key y+(ctx.task y).priority := by
      unfold add64
      rw [Nat.mod_eq_of_lt]
      · rfl
      · simp only [Room,HevTaskSystemContext.key,hevTaskPriorityMax] at *
        omega
    simp only [departed,HevTaskSystemContext.key,Function.update_self]
    rw [step]
    simp only [hevTaskPriorityMax] at *
    omega
  · rw [departed_rest sound shape type member]
    exact sound.bounded y (by simp [shape,member])

theorem departed_sorted (sound : Sound live turns ctx) (shape : ctx.runningTasks = c::rest) :
    (departed ctx c rest type).runningTasks.Pairwise ((departed ctx c rest type).key · ≤ (departed ctx c rest type).key ·) := by
  have sorted := sound.sorted
  rw [shape,List.pairwise_cons] at sorted
  have kept : rest.Pairwise ((departed ctx c rest type).key · ≤ (departed ctx c rest type).key ·) := by
    apply sorted.2.imp_of_mem
    intro a b ha hb less
    rwa [departed_rest sound shape type ha,departed_rest sound shape type hb]
  cases type with
  | switch => exact insert_sorted kept
  | waitio => exact kept
  | remove => exact kept

theorem departed_count (sound : Sound live turns ctx) (shape : ctx.runningTasks = c::rest) :
    (departed ctx c rest type).runningTaskCount = (departed ctx c rest type).runningTasks.length := by
  have length := sound.count
  rw [shape,List.length_cons] at length
  cases type with
  | switch =>
    change ctx.runningTaskCount = (List.orderedInsert _ _ _).length
    rw [List.orderedInsert_length,length]
  | waitio =>
    change ctx.runningTaskCount-1 = rest.length
    omega
  | remove =>
    change ctx.runningTaskCount-1 = rest.length
    omega

theorem departed_alive (sound : Sound live turns ctx) (runs : (ctx.task c).state = .running) (y : α) :
    y ∈ survivors live c type ↔ ((departed ctx c rest type).task y).state ≠ .stopped := by
  rw [departed_state]
  have known := sound.alive y
  by_cases same : y = c
  · cases type with
    | switch => simpa [survivors,same] using same ▸ known
    | waitio =>
      have here : c ∈ live := (sound.alive c).mpr (by simp [runs])
      simpa [survivors,same] using here
    | remove => simp [survivors,same,sound.apart.not_mem_erase]
  · cases type with
    | switch => simpa [survivors,same] using known
    | waitio => simpa [survivors,same] using known
    | remove => simpa [survivors,same,List.mem_erase_of_ne same] using known

theorem departed_sound (sound : Sound live turns ctx) (room : Room turns)
    (shape : ctx.runningTasks = c::rest) (type : SchedType) : Sound (survivors live c type) (turns+1) (departed ctx c rest type) := by
  have distinct := sound.distinct
  rw [shape,List.nodup_cons] at distinct
  have runs : (ctx.task c).state = .running := (sound.running c).mp (by simp [shape])
  have here : c ∈ live := (sound.alive c).mpr (by simp [runs])
  refine ⟨fun y => ?_,?_,departed_sorted sound shape,departed_count sound shape,departed_alive sound runs,?_,?_,fun y => ?_,
    fun y waits => ?_,fun y first => ?_,fun y member => ?_⟩
  · rw [departed_member,departed_state,rest_running sound shape]
    by_cases same : y = c
    · cases type <;> simp [same,runs]
    · simp [same]
  · cases type with
    | switch => exact ((List.perm_orderedInsert ..).nodup_iff).mpr (List.nodup_cons.mpr distinct)
    | waitio => exact distinct.2
    | remove => exact distinct.2
  · cases type with
    | switch => exact sound.apart
    | waitio => exact sound.apart
    | remove => exact sound.apart.erase c
  · cases type with
    | switch => exact sound.total
    | waitio => exact sound.total
    | remove =>
      change ctx.totalTaskCount-1 = (live.erase c).length
      rw [List.length_erase_of_mem here,sound.total]
  · have known := sound.priority y
    have own := sound.priority c
    cases type <;> simp only [departed,Function.update_apply] <;> split <;> first | exact known | exact ⟨own.2,own.2⟩ | exact own
  · rw [departed_state] at waits
    by_cases same : y = c
    · subst same
      cases type with
      | switch => simp [runs] at waits
      | waitio => simpa [departed,HevTaskSystemContext.key] using (sound.priority y).2
      | remove => simp at waits
    · rw [if_neg same] at waits
      rw [departed_key _ _ _ _ same]
      exact sound.idle y waits
  · exact departed_small sound room shape (List.mem_of_mem_head? first)
  · have := departed_small sound room shape member
    simp only [hevTaskPriorityMax] at *
    omega

end Departed

def Event.leaves : Event α → Nat
  | .yield .. | .exit .. => 1
  | _ => 0

def departures : List (Event α) → Nat
  | [] => 0
  | e::events => e.leaves+departures events

theorem clamp_max (priority : Int) : clampPriority priority ≤ hevTaskPriorityMax := by
  unfold clampPriority
  split
  · exact Nat.zero_le _
  · split
    · exact Nat.le_refl _
    · omega

theorem priority_sound (sound : Sound live turns ctx) (x : α) (priority : Int) : Sound live turns (hevTaskSetPriority ctx x priority) := by
  have same : ∀ y, (hevTaskSetPriority ctx x priority).key y = ctx.key y ∧
      ((hevTaskSetPriority ctx x priority).task y).state = (ctx.task y).state ∧
      ((hevTaskSetPriority ctx x priority).task y).priority = (ctx.task y).priority := by
    intro y
    simp only [hevTaskSetPriority,HevTaskSystemContext.put,HevTaskSystemContext.key,Function.update_apply]
    split
    · rename_i equal
      simp [equal]
    · simp
  refine ⟨fun y => ?_,sound.distinct,?_,sound.count,fun y => ?_,sound.apart,sound.total,fun y => ⟨?_,?_⟩,fun y waits => ?_,
    fun y first => ?_,fun y member => ?_⟩
  · rw [(same y).2.1]
    exact sound.running y
  · apply sound.sorted.imp
    intro a b less
    rwa [(same a).1,(same b).1]
  · rw [(same y).2.1]
    exact sound.alive y
  · rw [(same y).2.2]
    exact (sound.priority y).1
  · simp only [hevTaskSetPriority,HevTaskSystemContext.put,Function.update_apply]
    have known := (sound.priority y).2
    split
    · exact clamp_max priority
    · exact known
  · rw [(same y).2.1] at waits
    rw [(same y).1]
    exact sound.idle y waits
  · rw [(same y).1]
    exact sound.front y first
  · rw [(same y).1]
    exact sound.bounded y member

theorem enter_sound (sound : Sound live turns ctx) (room : Room turns) (went : enterTask line ctx polls = some next) :
    Sound live turns next ∧ Led next := by
  unfold enterTask at went
  split at went
  · cases went
    exact ⟨⟨sound.running,sound.distinct,sound.sorted,sound.count,sound.alive,sound.apart,sound.total,sound.priority,sound.idle,sound.front,
      sound.bounded⟩,by simp [Led]⟩
  · have picked := pick_picked sound room went
    have inner := picked.woken.sound
    exact ⟨⟨inner.running,inner.distinct,inner.sorted,inner.count,inner.alive,inner.apart,inner.total,inner.priority,inner.idle,inner.front,
      inner.bounded⟩,picked.led⟩

omit [DecidableEq α] in
theorem led_shape (led : Led ctx) (current : ctx.currentTask = some c) : ∃ rest, ctx.runningTasks = c::rest := by
  have head := led c current
  cases tasks : ctx.runningTasks with
  | nil => simp [tasks] at head
  | cons y rest =>
    rw [tasks] at head
    cases head
    exact ⟨rest,rfl⟩

theorem schedule_sound {type : SchedType} (sound : Sound live turns ctx) (led : Led ctx) (room : Room (turns+1))
    (current : ctx.currentTask = some c) (went : hevTaskSystemSchedule line ctx (some type) polls = some next) :
    ∃ rest, ctx.runningTasks = c::rest ∧ Sound (survivors live c type) (turns+1) (departed ctx c rest type) ∧
      enterTask line (departed ctx c rest type) polls = some next := by
  simp only [hevTaskSystemSchedule,Option.bind_eq_bind,Option.bind_eq_some_iff] at went
  obtain ⟨middle,left,entered⟩ := went
  obtain ⟨rest,shape⟩ := led_shape led current
  cases leave_departed current shape left
  exact ⟨rest,shape,departed_sound sound (room_less room (by omega)) shape type,entered⟩

theorem run_sound (sound : Sound live turns ctx) (led : Led ctx) (room : Room turns)
    (went : hevTaskRun line ctx x = some next) :
    Led next ∧ next.currentTask = ctx.currentTask ∧
      ((next = ctx ∧ x ∈ live) ∨ (x ∉ live ∧ Sound (x::live) turns next ∧ ∃ k total, next = entered ctx x k total ∧
        (ctx.currentTask ≠ none → minKey ctx+(ctx.task x).nextPriority = k))) := by
  rcases run_cases sound went with ⟨busy,rfl⟩ | ⟨stopped,rfl⟩
  · exact ⟨led,rfl,.inl ⟨rfl,(sound.alive x).mpr busy⟩⟩
  · have out : x ∉ ctx.runningTasks := by
      rw [sound.running,stopped]
      simp
    have fresh : x ∉ live := fun member => (sound.alive x).mp member stopped
    have small := (sound.priority x).2
    have counted := sound.total
    cases inside : ctx.currentTask with
    | none =>
      refine ⟨by simp [Led,entered,inside],by simp [entered,inside],.inr ⟨fresh,?_,_,_,rfl,by simp⟩⟩
      exact entered_sound sound out (.inr small) (by simp; omega) (by simp) (List.nodup_cons.mpr ⟨fresh,sound.apart⟩) (by simp [counted])
    | some c =>
      have sum := add_min sound room small
      rw [Option.isSome_some,if_pos rfl,sum]
      refine ⟨?_,by simp [entered,inside],.inr ⟨fresh,?_,_,_,rfl,fun _ => rfl⟩⟩
      · intro y same
        apply entered_first _ out (by omega)
        exact led y same
      · exact entered_sound sound out (.inl (by omega)) (by omega) (by simp) (List.nodup_cons.mpr ⟨fresh,sound.apart⟩) (by simp [counted])

theorem step_sound {e : Event α} (sound : Sound live turns ctx) (led : Led ctx) (room : Room (turns+1))
    (went : step line ctx e = some next) : ∃ live', Sound live' (turns+e.leaves) next ∧ Led next := by
  cases e with
  | run x =>
    obtain ⟨led',_,⟨rfl,_⟩ | ⟨_,after,_⟩⟩ := run_sound sound led (room_less room (by omega)) went
    · exact ⟨live,sound,led⟩
    · exact ⟨_,after,led'⟩
  | setPriority x priority =>
    cases went
    exact ⟨live,priority_sound sound x priority,led⟩
  | wakeup x =>
    have woken := wakeup_woken sound (room_less room (by omega)) went
    exact ⟨live,woken.sound,fun y same => woken.front y (led y (woken.current ▸ same))⟩
  | start polls =>
    simp only [step,Option.ite_none_right_eq_some] at went
    exact ⟨live,enter_sound sound (room_less room (Nat.le_succ _)) went.2⟩
  | yield type polls =>
    simp only [step,Option.ite_none_right_eq_some,Option.isSome_iff_exists] at went
    obtain ⟨⟨c,current⟩,went⟩ := went
    obtain ⟨rest,_,after,entered⟩ := schedule_sound sound led room current went
    exact ⟨_,enter_sound after (room_less room (Nat.le_refl _)) entered⟩
  | exit polls =>
    simp only [step,Option.ite_none_right_eq_some,Option.isSome_iff_exists] at went
    obtain ⟨⟨c,current⟩,went⟩ := went
    obtain ⟨rest,_,after,entered⟩ := schedule_sound sound led room current went
    exact ⟨_,enter_sound after (room_less room (Nat.le_refl _)) entered⟩

theorem run_keeps {events : List (Event α)} (sound : Sound live turns ctx) (led : Led ctx)
    (room : Room (turns+departures events+1)) (went : Runs.exec (step line) ctx events = some next) :
    ∃ live', Sound live' (turns+departures events) next ∧ Led next := by
  induction events generalizing ctx live turns with
  | nil =>
    cases went
    exact ⟨live,sound,led⟩
  | cons e events ih =>
    obtain ⟨middle,first,rest⟩ := Runs.exec_cons went
    rw [departures] at room ⊢
    obtain ⟨live',after,led'⟩ := step_sound sound led (room_less room (by omega)) first
    rw [← Nat.add_assoc] at room ⊢
    exact ih after led' room rest

end Psocks.Schedule
