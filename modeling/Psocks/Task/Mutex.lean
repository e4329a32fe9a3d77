import Psocks.Lib.Stacks
import Psocks.Task.Schedule

namespace Psocks.Mutex
open Schedule Stacks

structure HevTaskMutexNode (α ν : Type) where
  next : Option ν
  task : α

structure HevTaskMutex (ν : Type) where
  locker : Nat
  waiters : Option ν

structure Mutexes (α τ β ν : Type) where
  ctx : HevTaskSystemContext α τ
  mutex : β → HevTaskMutex ν
  node : ν → HevTaskMutexNode α ν

-- Where the tasks are with them. `inside` has the mutex whose lock a task has yet to come out of,
-- with the task's node in its waiters; `holds` the mutexes that a task has locked.
structure Tasks (α τ β ν : Type) extends Mutexes α τ β ν where
  inside : α → Option (β × ν)
  holds : β → α → Bool

inductive Action (α β ν : Type) where
  | other (e : Event α)
  | lock (m : β) (node : ν) (polls : List (List α))
  | again (polls : List (List α))
  | trylock (m : β)
  | unlock (m : β)

section Model
variable {α τ β ν : Type} [DecidableEq α] [DecidableEq β] [DecidableEq ν] (tree : Tree α τ)

def Mutexes.put (s : Mutexes α τ β ν) (m : β) (f : HevTaskMutex ν → HevTaskMutex ν) : Mutexes α τ β ν :=
  {s with mutex:=Function.update s.mutex m (f (s.mutex m))}

def hevTaskMutexInit : HevTaskMutex ν := ⟨0,none⟩

def yieldIo (s : Mutexes α τ β ν) (polls : List (List α)) : Option (Mutexes α τ β ν) :=
  (step tree s.ctx (.yield .waitio polls)).map fun ctx => {s with ctx:=ctx}

-- To its end (`true`), or to the first yield of its loop.
def hevTaskMutexLock (s : Mutexes α τ β ν) (c : α) (m : β) (x : ν) (polls : List (List α)) : Option (Bool × Mutexes α τ β ν) :=
  if (s.mutex m).locker ≠ 0 then
    let node : HevTaskMutexNode α ν := ⟨(s.mutex m).waiters,c⟩
    let s := s.put m fun mutex => {mutex with waiters:=some x}
    (yieldIo tree {s with node:=Function.update s.node x node} polls).map (false,·)
  else some (true,s.put m fun mutex => {mutex with locker:=1})

-- From a yield of the loop on: the lock is taken by the first of the waiters only.
def lockAgain (s : Mutexes α τ β ν) (m : β) (x : ν) (polls : List (List α)) : Option (Bool × Mutexes α τ β ν) :=
  if (s.mutex m).locker ≠ 0 ∨ (s.mutex m).waiters ≠ some x then (yieldIo tree s polls).map (false,·)
  else
    let s := s.put m fun mutex => {mutex with waiters:=(s.node x).next}
    some (true,s.put m fun mutex => {mutex with locker:=1})

def hevTaskMutexTrylock (s : Mutexes α τ β ν) (m : β) : Int × Mutexes α τ β ν :=
  if (s.mutex m).locker ≠ 0 then (-1,s) else (0,s.put m fun mutex => {mutex with locker:=1})

def hevTaskMutexUnlock (s : Mutexes α τ β ν) (m : β) : Option (Mutexes α τ β ν) :=
  let s := s.put m fun mutex => {mutex with locker:=0}
  match (s.mutex m).waiters with
  | none => some s
  | some x => (step tree s.ctx (.wakeup (s.node x).task)).map fun ctx => {s with ctx:=ctx}

def Tasks.goes (s : Tasks α τ β ν) (c : α) (place : Option (β × ν)) : Tasks α τ β ν := {s with inside:=Function.update s.inside c place}

def Tasks.owns (s : Tasks α τ β ν) (c : α) (m : β) (own : Bool) : Tasks α τ β ν :=
  {s with holds:=Function.update s.holds m (Function.update (s.holds m) c own)}

-- The task has come out of its lock, or waits in it.
def Tasks.tried (s : Tasks α τ β ν) (c : α) (m : β) (x : ν) (out : Bool × Mutexes α τ β ν) : Tasks α τ β ν :=
  if out.1 then ({s with toMutexes:=out.2}.goes c none).owns c m true else {s with toMutexes:=out.2}.goes c (some (m,x))

def Tasks.set (s : Tasks α τ β ν) (m : β) (f : HevTaskMutex ν → HevTaskMutex ν) : Tasks α τ β ν := {s with toMutexes:=s.put m f}

def Tasks.take (s : Tasks α τ β ν) (c : α) (m : β) : Tasks α τ β ν := (s.set m fun mutex => {mutex with locker:=1}).owns c m true

def Tasks.release (s : Tasks α τ β ν) (c : α) (m : β) : Tasks α τ β ν := (s.set m fun mutex => {mutex with locker:=0}).owns c m false

def free (s : Tasks α τ β ν) : Bool :=
  match s.ctx.currentTask with
  | none => true
  | some c => (s.inside c).isNone

def onTask (s : Tasks α τ β ν) (call : α → Option (Tasks α τ β ν)) : Option (Tasks α τ β ν) :=
  if free s then s.ctx.currentTask.bind call else none

-- Only a task that holds a mutex unlocks it.
def act (s : Tasks α τ β ν) : Action α β ν → Option (Tasks α τ β ν)
  | .other e => if free s then (step tree s.ctx e).map fun ctx => {s with ctx:=ctx} else none
  | .lock m x polls => onTask s fun c => (hevTaskMutexLock tree s.toMutexes c m x polls).map (s.tried c m x)
  | .again polls => s.ctx.currentTask.bind fun c => (s.inside c).bind fun place =>
      (lockAgain tree s.toMutexes place.1 place.2 polls).map (s.tried c place.1 place.2)
  | .trylock m => onTask s fun c =>
      let (res,self) := hevTaskMutexTrylock s.toMutexes m
      some (if res = 0 then {s with toMutexes:=self}.owns c m true else {s with toMutexes:=self})
  | .unlock m => onTask s fun c =>
      if s.holds m c then (hevTaskMutexUnlock tree s.toMutexes m).map fun self => {s with toMutexes:=self}.owns c m false else none

end Model

variable {α β ν : Type} {ctx ctx' : HevTaskSystemContext α (List α)} {live live' : List α} {turns : Nat}

abbrev ListTasks (α β ν : Type) := Tasks α (List α) β ν

def tasksInit (node : ν → HevTaskMutexNode α ν) : ListTasks α β ν :=
  ⟨⟨hevTaskSystemInit,fun _ => hevTaskMutexInit,node⟩,fun _ => none,fun _ _ => false⟩

structure Kept (live : List α) (turns : Nat) (s : ListTasks α β ν) : Prop where
  sound : Sound live turns s.ctx
  led : Led s.ctx
  stack : ∀ m, ∃ xs, Stacked (fun x => (s.node x).next) (s.mutex m).waiters xs ∧ xs.Nodup ∧ ∀ x, x ∈ xs ↔ ∃ c, s.inside c = some (m,x)
  own : ∀ c m x, s.inside c = some (m,x) → (s.node x).task = c ∧ c ∈ live
  unheld : ∀ m, (s.mutex m).locker = 0 → ∀ c, s.holds m c = false
  held : ∀ m, (s.mutex m).locker ≠ 0 → ∃ c, ∀ d, s.holds m d = true ↔ d = c
  woken : ∀ m x, (s.mutex m).locker = 0 → (s.mutex m).waiters = some x → (s.ctx.task (s.node x).task).state = .running

variable [DecidableEq α]

-- What a step leaves of the tasks that are not on the processor.
structure Stays (live live' : List α) (ctx ctx' : HevTaskSystemContext α (List α)) (exits : Prop) : Prop where
  alive : ∀ d ∈ live, ctx.currentTask = some d ∧ exits ∨ d ∈ live'
  ready : ∀ d ∈ live, ctx.currentTask ≠ some d → (ctx.task d).state = .running → (ctx'.task d).state = .running

theorem enter_stays {polls : List (List α)} (sound : Sound live turns ctx) (room : Room turns) (went : enterTask line ctx polls = some ctx') (d : α)
    (runs : (ctx.task d).state = .running) : (ctx'.task d).state = .running := by
  unfold enterTask at went
  split at went
  · cases went
    exact runs
  · have same : ctx'.task d = ctx.task d := woken_kept (pick_picked sound room went).woken runs
    rw [same]
    exact runs

theorem schedule_stays {type : SchedType} {polls : List (List α)} {c : α} (sound : Sound live turns ctx) (led : Led ctx) (room : Room (turns+1))
    (current : ctx.currentTask = some c) (went : hevTaskSystemSchedule line ctx (some type) polls = some ctx') :
    ∃ live', Sound live' (turns+1) ctx' ∧ Led ctx' ∧ Stays live live' ctx ctx' (type = .remove) := by
  obtain ⟨rest,_,after,entered⟩ := schedule_sound sound led room current went
  obtain ⟨sound',led'⟩ := enter_sound after room entered
  refine ⟨_,sound',led',fun d member => ?_,fun d _ other runs => ?_⟩
  · cases type with
    | switch => exact .inr member
    | waitio => exact .inr member
    | remove =>
      by_cases same : d = c
      · exact .inl ⟨same ▸ current,rfl⟩
      · exact .inr ((List.mem_erase_of_ne same).mpr member)
  · apply enter_stays after room entered
    rw [departed_state,if_neg]
    · exact runs
    · rintro rfl
      exact other current

def Exits (e : Event α) : Prop := ∃ polls, e = .exit polls

theorem step_stays {e : Event α} (sound : Sound live turns ctx) (led : Led ctx) (room : Room (turns+1)) (went : step line ctx e = some ctx') :
    ∃ live', Sound live' (turns+e.leaves) ctx' ∧ Led ctx' ∧ Stays live live' ctx ctx' (Exits e) := by
  cases e with
  | run x =>
    obtain ⟨led',_,⟨rfl,_⟩ | ⟨fresh,after,k,total,rfl,_⟩⟩ := run_sound sound led (room_less room (by omega)) went
    · exact ⟨live,sound,led,fun d member => .inr member,fun d _ _ runs => runs⟩
    · refine ⟨_,after,led',fun d member => .inr (List.mem_cons_of_mem _ member),fun d member _ runs => ?_⟩
      have other : d ≠ x := fun same => fresh (same ▸ member)
      change (Function.update ctx.task x _ d).state = .running
      rwa [Function.update_of_ne other]
  | setPriority x priority =>
    cases went
    refine ⟨live,priority_sound sound x priority,led,fun d member => .inr member,fun d _ _ runs => ?_⟩
    simp only [hevTaskSetPriority,HevTaskSystemContext.put,Function.update_apply]
    split
    · rename_i same
      exact same ▸ runs
    · exact runs
  | wakeup x =>
    have woken := wakeup_woken sound (room_less room (by omega)) went
    refine ⟨live,woken.sound,fun y same => woken.front y (led y (woken.current ▸ same)),fun d member => .inr member,fun d _ _ runs => ?_⟩
    exact woken_kept woken runs ▸ runs
  | start polls =>
    simp only [step,Option.ite_none_right_eq_some] at went
    have early : Room turns := room_less room (Nat.le_succ _)
    obtain ⟨sound',led'⟩ := enter_sound sound early went.2
    exact ⟨live,sound',led',fun d member => .inr member,fun d _ _ runs => enter_stays sound early went.2 d runs⟩
  | yield type polls =>
    simp only [step,Option.ite_none_right_eq_some,Option.isSome_iff_exists] at went
    obtain ⟨⟨c,current⟩,went⟩ := went
    obtain ⟨live',sound',led',stays⟩ := schedule_stays sound led room current went
    refine ⟨live',sound',led',fun d member => ?_,stays.ready⟩
    rcases stays.alive d member with ⟨_,removed⟩ | alive
    · cases type <;> cases removed
    · exact .inr alive
  | exit polls =>
    simp only [step,Option.ite_none_right_eq_some,Option.isSome_iff_exists] at went
    obtain ⟨⟨c,current⟩,went⟩ := went
    obtain ⟨live',sound',led',stays⟩ := schedule_stays sound led room current went
    exact ⟨live',sound',led',fun d member => (stays.alive d member).imp_left fun both => ⟨both.1,polls,rfl⟩,stays.ready⟩

variable {s next : ListTasks α β ν} {self : Mutexes α (List α) β ν} {out : Bool × Mutexes α (List α) β ν} {c : α} {m : β} {x : ν}

omit [DecidableEq α] in
-- Only a task that is in no lock leaves for good, and a waiter that a free mutex wakes up is not on
-- the processor.
theorem kept_ctx (kept : Kept live turns s) {turns' : Nat} (sound : Sound live' turns' ctx) (led : Led ctx)
    (alive : ∀ d ∈ live, s.inside d ≠ none → d ∈ live')
    (ready : ∀ m x, (s.mutex m).locker = 0 → (s.mutex m).waiters = some x → (ctx.task (s.node x).task).state = .running) :
    Kept live' turns' {s with ctx:=ctx} := by
  refine ⟨sound,led,kept.stack,fun d m x inside => ?_,kept.unheld,kept.held,ready⟩
  obtain ⟨task,member⟩ := kept.own d m x inside
  exact ⟨task,alive d member (by simp [show s.inside d = some (m,x) from inside])⟩

omit [DecidableEq α] in
theorem first_waiter (kept : Kept live turns s) (first : (s.mutex m).waiters = some x) :
    ∃ c, s.inside c = some (m,x) ∧ (s.node x).task = c ∧ c ∈ live := by
  obtain ⟨xs,stacked,_,members⟩ := kept.stack m
  cases xs with
  | nil =>
    rw [show (s.mutex m).waiters = none from stacked] at first
    cases first
  | cons y rest =>
    cases stacked.1.symm.trans first
    obtain ⟨c,inside⟩ := (members x).mp (by simp)
    obtain ⟨task,member⟩ := kept.own c m x inside
    exact ⟨c,inside,task,member⟩

theorem step_kept {e : Event α} (kept : Kept live turns s) (room : Room (turns+1)) (went : step line s.ctx e = some ctx)
    (stays : ∀ d, s.inside d ≠ none → s.ctx.currentTask = some d → ¬Exits e)
    (off : ∀ m x c, (s.mutex m).locker = 0 → (s.mutex m).waiters = some x → s.inside c = some (m,x) → s.ctx.currentTask ≠ some c) :
    ∃ live', Kept live' (turns+e.leaves) {s with ctx:=ctx} := by
  obtain ⟨live',sound,led,after⟩ := step_stays kept.sound kept.led room went
  refine ⟨live',kept_ctx kept sound led (fun d member inside => ?_) fun m x free_ first => ?_⟩
  · rcases after.alive d member with ⟨current,exits⟩ | alive
    · exact absurd exits (stays d inside current)
    · exact alive
  · obtain ⟨c,inside,rfl,member⟩ := first_waiter kept first
    exact after.ready _ member (off m x _ free_ first inside) (kept.woken m x free_ first)

omit [DecidableEq α] in
theorem free_off (frees : free s = true) (inside : s.inside c ≠ none) : s.ctx.currentTask ≠ some c := by
  intro current
  simp only [free,current,Option.isNone_iff_eq_none] at frees
  exact inside frees

variable [DecidableEq β]

theorem take_kept (kept : Kept live turns s) (unlocked : (s.mutex m).locker = 0) : Kept live turns (s.take c m) := by
  have mutex : ∀ k, ((s.take c m).mutex k).waiters = (s.mutex k).waiters ∧ (k ≠ m → (s.take c m).mutex k = s.mutex k) := by
    intro k
    simp only [Tasks.take,Tasks.owns,Tasks.set,Mutexes.put,Function.update_apply]
    split
    · rename_i same
      simp [same]
    · simp
  have locked : ((s.take c m).mutex m).locker = 1 := by simp only [Tasks.take,Tasks.owns,Tasks.set,Mutexes.put,Function.update_self]
  have holds : ∀ k d, (s.take c m).holds k d = if k = m ∧ d = c then true else s.holds k d := by
    intro k d
    by_cases same : k = m
    · subst same
      simp only [Tasks.take,Tasks.owns,Tasks.set,Function.update_self,Function.update_apply,true_and]
    · simp only [Tasks.take,Tasks.owns,Tasks.set,Function.update_of_ne same,same,false_and,if_false]
  refine ⟨kept.sound,kept.led,fun k => ?_,kept.own,fun k free_ d => ?_,fun k taken => ?_,fun k y free_ first => ?_⟩
  · rw [(mutex k).1]
    exact kept.stack k
  · have other : k ≠ m := by
      rintro rfl
      rw [locked] at free_
      cases free_
    rw [(mutex k).2 other] at free_
    rw [holds,if_neg (fun both => other both.1)]
    exact kept.unheld k free_ d
  · by_cases same : k = m
    · subst same
      refine ⟨c,fun d => ?_⟩
      rw [holds]
      by_cases equal : d = c
      · simp [equal]
      · simp [equal,kept.unheld k unlocked d]
    · rw [(mutex k).2 same] at taken
      obtain ⟨owner,only⟩ := kept.held k taken
      refine ⟨owner,fun d => ?_⟩
      rw [holds,if_neg (fun both => same both.1)]
      exact only d
  · have other : k ≠ m := by
      rintro rfl
      rw [locked] at free_
      cases free_
    rw [(mutex k).2 other] at free_ first
    exact kept.woken k y free_ first

omit [DecidableEq α] in
-- A mutex that is locked with other waiters than before.
theorem waiters_kept (kept : Kept live turns s) (locked : (s.mutex m).locker ≠ 0) {node : ν → HevTaskMutexNode α ν} {waiters : Option ν}
    {inside : α → Option (β × ν)}
    (stack : ∃ xs, Stacked (fun x => (node x).next) waiters xs ∧ xs.Nodup ∧ ∀ x, x ∈ xs ↔ ∃ c, inside c = some (m,x))
    (others : ∀ d k y, k ≠ m → (inside d = some (k,y) ↔ s.inside d = some (k,y)))
    (same : ∀ d k y, k ≠ m → s.inside d = some (k,y) → node y = s.node y)
    (own : ∀ d k y, inside d = some (k,y) → (node y).task = d ∧ d ∈ live) :
    Kept live turns {s.set m fun mutex => {mutex with waiters:=waiters} with node:=node,inside:=inside} := by
  have mutex : ∀ k, k ≠ m → (s.set m fun mutex => {mutex with waiters:=waiters}).mutex k = s.mutex k := fun k other => Function.update_of_ne other ..
  have here : (s.set m fun mutex => {mutex with waiters:=waiters}).mutex m = {s.mutex m with waiters:=waiters} := Function.update_self ..
  refine ⟨kept.sound,kept.led,fun k => ?_,own,fun k free_ => ?_,fun k taken => ?_,fun k y free_ first => ?_⟩
  · by_cases equal : k = m
    · subst equal
      rw [here]
      exact stack
    · rw [mutex k equal]
      obtain ⟨xs,stacked,distinct,members⟩ := kept.stack k
      have known : ∀ y, y ∈ xs ↔ ∃ d, inside d = some (k,y) := fun y => (members y).trans (exists_congr fun d => (others d k y equal).symm)
      refine ⟨xs,stacked_frame stacked fun y member => ?_,distinct,known⟩
      obtain ⟨d,inside'⟩ := (members y).mp member
      exact congrArg HevTaskMutexNode.next (same d k y equal inside')
  · by_cases equal : k = m
    · subst equal
      rw [here] at free_
      exact absurd free_ locked
    · rw [mutex k equal] at free_
      exact kept.unheld k free_
  · by_cases equal : k = m
    · subst equal
      exact kept.held k locked
    · rw [mutex k equal] at taken
      exact kept.held k taken
  · by_cases equal : k = m
    · subst equal
      rw [here] at free_
      exact absurd free_ locked
    · rw [mutex k equal] at free_ first
      obtain ⟨d,inside',_,_⟩ := first_waiter kept first
      change (s.ctx.task (node y).task).state = .running
      rw [same d k y equal inside']
      exact kept.woken k y free_ first

variable [DecidableEq ν]

theorem push_kept (kept : Kept live turns s) (locked : (s.mutex m).locker ≠ 0) (off : s.inside c = none) (alive : c ∈ live)
    (fresh : ∀ d k y, s.inside d = some (k,y) → y ≠ x) :
    Kept live turns {s.set m fun mutex => {mutex with waiters:=some x} with
                     node:=Function.update s.node x ⟨(s.mutex m).waiters,c⟩,inside:=Function.update s.inside c (some (m,x))} := by
  have inside : ∀ d k y, Function.update s.inside c (some (m,x)) d = some (k,y) ↔ (d = c ∧ k = m ∧ y = x) ∨ s.inside d = some (k,y) := by
    intro d k y
    rw [Function.update_apply]
    split
    · rename_i equal
      rw [equal,off]
      simp [eq_comm]
    · rename_i other
      simp [other]
  have old : ∀ d k y, s.inside d = some (k,y) → Function.update s.node x ⟨(s.mutex m).waiters,c⟩ y = s.node y :=
    fun d k y within => Function.update_of_ne (fresh d k y within) ..
  apply waiters_kept kept locked
  · obtain ⟨xs,stacked,distinct,members⟩ := kept.stack m
    have out : x ∉ xs := by
      intro member
      obtain ⟨d,within⟩ := (members x).mp member
      exact fresh d m x within rfl
    refine ⟨x::xs,⟨rfl,?_⟩,List.nodup_cons.mpr ⟨out,distinct⟩,fun y => ?_⟩
    · change Stacked _ (Function.update s.node x ⟨(s.mutex m).waiters,c⟩ x).next xs
      rw [Function.update_self]
      apply stacked_frame stacked
      intro y member
      obtain ⟨d,within⟩ := (members y).mp member
      exact congrArg HevTaskMutexNode.next (old d m y within)
    · rw [List.mem_cons,members]
      constructor
      · rintro (rfl | ⟨d,within⟩)
        · exact ⟨c,(inside c m y).mpr (.inl ⟨rfl,rfl,rfl⟩)⟩
        · exact ⟨d,(inside d m y).mpr (.inr within)⟩
      · rintro ⟨d,within⟩
        rcases (inside d m y).mp within with ⟨_,_,rfl⟩ | within
        · exact .inl rfl
        · exact .inr ⟨d,within⟩
  · intro d k y other
    rw [inside]
    simp [other]
  · exact fun d k y _ within => old d k y within
  · intro d k y within
    rcases (inside d k y).mp within with ⟨rfl,_,rfl⟩ | within
    · exact ⟨by rw [Function.update_self],alive⟩
    · rw [old d k y within]
      exact kept.own d k y within

omit [DecidableEq ν] in
theorem pop_kept (kept : Kept live turns s) (locked : (s.mutex m).locker ≠ 0) (first : (s.mutex m).waiters = some x) (within : s.inside c = some (m,x)) :
    Kept live turns {s.set m fun mutex => {mutex with waiters:=(s.node x).next} with inside:=Function.update s.inside c none} := by
  have inside : ∀ d k y, Function.update s.inside c none d = some (k,y) ↔ d ≠ c ∧ s.inside d = some (k,y) := by
    intro d k y
    rw [Function.update_apply]
    split
    · rename_i equal
      simp [equal]
    · rename_i other
      simp [other]
  apply waiters_kept kept locked
  · obtain ⟨xs,stacked,distinct,members⟩ := kept.stack m
    cases xs with
    | nil =>
      rw [show (s.mutex m).waiters = none from stacked] at first
      cases first
    | cons y rest =>
      cases stacked.1.symm.trans first
      have apart := List.nodup_cons.mp distinct
      refine ⟨rest,stacked.2,apart.2,fun y => ?_⟩
      have known := members y
      rw [List.mem_cons] at known
      constructor
      · intro member
        obtain ⟨d,within'⟩ := known.mp (.inr member)
        refine ⟨d,(inside d m y).mpr ⟨?_,within'⟩⟩
        rintro rfl
        cases within.symm.trans within'
        exact apart.1 member
      · rintro ⟨d,within'⟩
        obtain ⟨other,within'⟩ := (inside d m y).mp within'
        refine (known.mpr ⟨d,within'⟩).resolve_left ?_
        rintro rfl
        exact other ((kept.own d m y within').1.symm.trans (kept.own c m y within).1)
  · intro d k y other
    rw [inside]
    refine ⟨And.right,fun within' => ⟨?_,within'⟩⟩
    rintro rfl
    cases within.symm.trans within'
    exact other rfl
  · exact fun _ _ _ _ _ => rfl
  · exact fun d k y within' => kept.own d k y ((inside d k y).mp within').2

omit [DecidableEq β] [DecidableEq ν] in
theorem yield_kept {polls : List (List α)} (kept : Kept live turns s) (room : Room (turns+1)) (went : yieldIo line s.toMutexes polls = some self)
    (off : ∀ m x c, (s.mutex m).locker = 0 → (s.mutex m).waiters = some x → s.inside c = some (m,x) → s.ctx.currentTask ≠ some c) :
    ∃ live', Kept live' (turns+1) {s with toMutexes:=self} := by
  obtain ⟨ctx,left,rfl⟩ := Option.map_eq_some_iff.mp went
  exact step_kept kept room left (fun _ _ _ exits => by obtain ⟨_,same⟩ := exits; cases same) off

omit [DecidableEq ν] in
-- A mutex that is unlocked wakes up the first of its waiters.
theorem unlock_kept (kept : Kept live turns s) (room : Room (turns+1)) (owner : s.holds m c = true)
    (went : hevTaskMutexUnlock line s.toMutexes m = some self) : Kept live turns ({s with toMutexes:=self}.owns c m false) := by
  have locked : (s.mutex m).locker ≠ 0 := by
    intro free_
    rw [kept.unheld m free_ c] at owner
    cases owner
  have other : ∀ k, k ≠ m → (s.release c m).mutex k = s.mutex k := fun k apart => Function.update_of_ne apart ..
  have here : (s.release c m).mutex m = {s.mutex m with locker:=0} := Function.update_self ..
  have waiters : ∀ k, ((s.release c m).mutex k).waiters = (s.mutex k).waiters := by
    intro k
    by_cases equal : k = m
    · rw [equal,here]
    · rw [other k equal]
  have holds : ∀ k d, (s.release c m).holds k d = if k = m ∧ d = c then false else s.holds k d := by
    intro k d
    by_cases same : k = m
    · subst same
      simp only [Tasks.release,Tasks.owns,Tasks.set,Function.update_self,Function.update_apply,true_and]
    · simp only [Tasks.release,Tasks.owns,Tasks.set,Function.update_of_ne same,same,false_and,if_false]
  -- The context after the wakeup, in which the tasks that were ready are so.
  have after : ∀ ctx, Sound live turns ctx → Led ctx → (∀ d, (s.ctx.task d).state = .running → (ctx.task d).state = .running) →
      (∀ x, (s.mutex m).waiters = some x → (ctx.task (s.node x).task).state = .running) → Kept live turns {s.release c m with ctx:=ctx} := by
    intro ctx sound led ready woke
    refine ⟨sound,led,fun k => ?_,kept.own,fun k free_ d => ?_,fun k taken => ?_,fun k y free_ first => ?_⟩
    · change ∃ xs, Stacked _ ((s.release c m).mutex k).waiters xs ∧ _
      rw [waiters k]
      exact kept.stack k
    · change (s.release c m).holds k d = false
      rw [holds]
      by_cases same : k = m
      · subst same
        obtain ⟨d',only⟩ := kept.held k locked
        by_cases equal : d = c
        · simp [equal]
        · rw [if_neg (fun both => equal both.2)]
          by_contra held
          have one := (only d).mp (Bool.eq_true_of_not_eq_false held)
          exact equal (one.trans ((only c).mp owner).symm)
      · rw [if_neg (fun both => same both.1)]
        exact kept.unheld k (other k same ▸ free_) d
    · have same : k ≠ m := by
        rintro rfl
        exact taken (congrArg HevTaskMutex.locker here)
      obtain ⟨d',only⟩ := kept.held k (other k same ▸ taken)
      refine ⟨d',fun d => ?_⟩
      change (s.release c m).holds k d = true ↔ _
      rw [holds,if_neg (fun both => same both.1)]
      exact only d
    · have first' : (s.mutex k).waiters = some y := (waiters k).symm.trans first
      by_cases same : k = m
      · exact woke y (same ▸ first')
      · exact ready _ (kept.woken k y (other k same ▸ free_) first')
  have left : ((s.put m fun mutex => {mutex with locker:=0}).mutex m).waiters = (s.mutex m).waiters := waiters m
  simp only [hevTaskMutexUnlock,left] at went
  cases first : (s.mutex m).waiters with
  | none =>
    rw [first] at went
    cases went
    exact after s.ctx kept.sound kept.led (fun _ runs => runs) fun x some_ => by rw [first] at some_; cases some_
  | some x =>
    rw [first] at went
    obtain ⟨ctx,woke,rfl⟩ := Option.map_eq_some_iff.mp went
    have woken := wakeup_woken kept.sound (room_less room (by omega)) woke
    refine after ctx woken.sound (fun y same => woken.front y (kept.led y (woken.current ▸ same))) (fun d runs => woken_kept woken runs ▸ runs)
      fun y same => ?_
    cases first.symm.trans same
    rcases wakeup_cases woke with ⟨runs,rfl⟩ | ⟨_,rfl⟩
    · exact runs
    · exact congrArg HevTask.state (Function.update_self (s.node x).task _ s.ctx.task)

-- The node of a task in a lock is not that of another one.
def Fits (s : ListTasks α β ν) : Action α β ν → Prop
  | .lock _ x _ => ∀ d k y, s.inside d = some (k,y) → y ≠ x
  | _ => True

omit [DecidableEq α] [DecidableEq β] [DecidableEq ν] in
theorem on_task {call : α → Option (ListTasks α β ν)} (went : onTask s call = some next) :
    ∃ c, s.ctx.currentTask = some c ∧ s.inside c = none ∧ call c = some next := by
  unfold onTask at went
  split at went
  · rename_i frees
    obtain ⟨c,current,went⟩ := Option.bind_eq_some_iff.mp went
    refine ⟨c,current,?_,went⟩
    by_contra within
    exact free_off frees within current
  · cases went

theorem lock_kept {polls : List (List α)} (kept : Kept live turns s) (room : Room (turns+1)) (fits : Fits s (.lock m x polls))
    (current : s.ctx.currentTask = some c) (off : s.inside c = none) (went : hevTaskMutexLock line s.toMutexes c m x polls = some out) :
    ∃ live', ∃ turns' ≤ turns+1, Kept live' turns' (s.tried c m x out) := by
  unfold hevTaskMutexLock at went
  split at went
  · rename_i locked
    obtain ⟨self,left,rfl⟩ := Option.map_eq_some_iff.mp went
    have alive : c ∈ live := (kept.sound.alive c).mpr (by simp [(kept.sound.running c).mp (List.mem_of_mem_head? (kept.led c current))])
    have pushed := push_kept kept locked off alive fits
    obtain ⟨live',after⟩ := yield_kept pushed room left fun k y d free_ first within current' => by
      cases current.symm.trans current'
      have here : Function.update s.inside c (some (m,x)) c = some (k,y) := within
      rw [Function.update_self] at here
      cases here
      change (Function.update s.mutex m {s.mutex m with waiters:=some x} m).locker = 0 at free_
      rw [Function.update_self] at free_
      exact locked free_
    exact ⟨live',turns+1,Nat.le_refl _,after⟩
  · rename_i unlocked
    cases went
    have same : Function.update s.inside c none = s.inside := off ▸ Function.update_eq_self c s.inside
    have took : s.tried c m x (true,s.put m fun mutex => {mutex with locker:=1}) = s.take c m := by
      simp only [Tasks.tried,Tasks.goes,same,if_true]
      rfl
    exact ⟨live,turns,Nat.le_succ _,took ▸ take_kept kept (not_not.mp unlocked)⟩

theorem again_kept {polls : List (List α)} (kept : Kept live turns s) (room : Room (turns+1))
    (current : s.ctx.currentTask = some c) (within : s.inside c = some (m,x)) (went : lockAgain line s.toMutexes m x polls = some out) :
    ∃ live', ∃ turns' ≤ turns+1, Kept live' turns' (s.tried c m x out) := by
  unfold lockAgain at went
  split at went
  · rename_i blocked
    obtain ⟨self,left,rfl⟩ := Option.map_eq_some_iff.mp went
    have same : Function.update s.inside c (some (m,x)) = s.inside := within ▸ Function.update_eq_self c s.inside
    obtain ⟨live',after⟩ := yield_kept kept room left fun k y d free_ first within' current' => by
      cases current.symm.trans current'
      cases within.symm.trans within'
      exact blocked.elim (· free_) (· first)
    refine ⟨live',turns+1,Nat.le_refl _,?_⟩
    simp only [Tasks.tried,Tasks.goes,same,Bool.false_eq_true,if_false]
    exact after
  · rename_i open_
    obtain ⟨unlocked,first⟩ := not_or.mp open_
    have unlocked := not_not.mp unlocked
    have first := not_not.mp first
    cases went
    have taken := take_kept (c:=c) kept unlocked
    have here : (s.take c m).mutex m = {s.mutex m with locker:=1} := Function.update_self ..
    have popped := pop_kept (m:=m) (x:=x) taken (by simp [here]) (by rw [here]; exact first) within
    refine ⟨live,turns,Nat.le_succ _,?_⟩
    simp only [Tasks.tried,Tasks.goes,Tasks.take,Tasks.owns,Tasks.set,Mutexes.put,Function.update_idem,Function.update_self,if_true] at popped ⊢
    exact popped

theorem act_kept {e : Action α β ν} (kept : Kept live turns s) (room : Room (turns+1)) (fits : Fits s e) (went : act line s e = some next) :
    ∃ live', ∃ turns' ≤ turns+1, Kept live' turns' next := by
  cases e with
  | other e =>
    simp only [act,Option.ite_none_right_eq_some,Option.map_eq_some_iff] at went
    obtain ⟨frees,ctx,stepped,rfl⟩ := went
    obtain ⟨live',after⟩ := step_kept kept room stepped (fun d within current => absurd current (free_off frees within))
      fun k y d _ _ within => free_off frees (by simp [within])
    have few : e.leaves ≤ 1 := by cases e <;> simp [Event.leaves]
    exact ⟨live',_,Nat.add_le_add_left few _,after⟩
  | lock m x polls =>
    obtain ⟨c,current,off,locked⟩ := on_task went
    obtain ⟨out,called,rfl⟩ := Option.map_eq_some_iff.mp locked
    exact lock_kept kept room fits current off called
  | again polls =>
    obtain ⟨c,current,went⟩ := Option.bind_eq_some_iff.mp went
    obtain ⟨place,within,went⟩ := Option.bind_eq_some_iff.mp went
    obtain ⟨out,called,rfl⟩ := Option.map_eq_some_iff.mp went
    exact again_kept kept room current within called
  | trylock m =>
    obtain ⟨c,current,off,tried⟩ := on_task went
    by_cases locked : (s.mutex m).locker ≠ 0
    · simp only [hevTaskMutexTrylock,if_pos locked] at tried
      cases tried
      exact ⟨live,turns,Nat.le_succ _,kept⟩
    · simp only [hevTaskMutexTrylock,if_neg locked] at tried
      cases tried
      exact ⟨live,turns,Nat.le_succ _,take_kept kept (not_not.mp locked)⟩
  | unlock m =>
    obtain ⟨c,current,off,went⟩ := on_task went
    simp only [Option.ite_none_right_eq_some] at went
    obtain ⟨owner,unlocked⟩ := went
    obtain ⟨self,called,rfl⟩ := Option.map_eq_some_iff.mp unlocked
    exact ⟨live,turns,Nat.le_succ _,unlock_kept kept room owner called⟩

omit [DecidableEq α] [DecidableEq β] [DecidableEq ν] in
theorem init_kept (node : ν → HevTaskMutexNode α ν) : Kept [] 0 (tasksInit node : ListTasks α β ν) := by
  refine ⟨init_sound,(fun y same => by cases same),fun m => ⟨[],rfl,List.nodup_nil,fun x => ?_⟩,fun c m x within => ?_,fun _ _ _ => rfl,fun m locked => ?_,
    fun m x _ first => ?_⟩
  · simp [tasksInit]
  · cases within
  · exact absurd rfl locked
  · cases first

theorem actions_kept {actions : List (Action α β ν)} (kept : Kept live turns s) (room : Room (turns+actions.length))
    (fits : Runs.Along (act line) Fits s actions) (went : Runs.exec (act line) s actions = some next) :
    ∃ live', ∃ turns' ≤ turns+actions.length, Kept live' turns' next := by
  induction actions generalizing s live turns with
  | nil =>
    cases went
    exact ⟨live,turns,Nat.le_refl _,kept⟩
  | cons e actions ih =>
    obtain ⟨middle,first,rest⟩ := Runs.exec_cons went
    rw [List.length_cons] at room ⊢
    obtain ⟨live',turns',few,after⟩ := act_kept kept (room_less room (by omega)) fits.1 first
    obtain ⟨live'',turns'',fewer,last⟩ := ih after (room_less room (by omega)) (fits.2 middle first) rest
    exact ⟨live'',turns'',by omega,last⟩

-- However tasks are scheduled and woken up between their locks: a mutex is locked just while one
-- task holds it, its waiters are the tasks in its lock, each once, and with the mutex free the first
-- of them is ready, so that no wakeup is lost.
theorem mutex_kept {node : ν → HevTaskMutexNode α ν} {actions : List (Action α β ν)} (room : 15*(actions.length+3) < 2^64)
    (fits : Runs.Along (act line) Fits (tasksInit node) actions) (went : Runs.exec (act line) (tasksInit node) actions = some s) (m : β) :
    ((s.mutex m).locker ≠ 0 ↔ ∃ c, s.holds m c = true) ∧ (∀ c d, s.holds m c = true → s.holds m d = true → c = d) ∧
    (∃ xs, Stacked (fun x => (s.node x).next) (s.mutex m).waiters xs ∧ xs.Nodup ∧
      ∀ x, x ∈ xs ↔ s.inside (s.node x).task = some (m,x)) ∧
    ∀ x, (s.mutex m).locker = 0 → (s.mutex m).waiters = some x →
      s.inside (s.node x).task = some (m,x) ∧ (s.ctx.task (s.node x).task).state = .running := by
  have small : Room (0+actions.length) := by
    unfold Room hevTaskPriorityMax
    omega
  obtain ⟨live,turns,_,kept⟩ := actions_kept (init_kept node) small fits went
  refine ⟨⟨fun locked => ?_,?_⟩,fun c d first second => ?_,?_,fun x free_ first => ⟨?_,kept.woken m x free_ first⟩⟩
  · obtain ⟨c,only⟩ := kept.held m locked
    exact ⟨c,(only c).mpr rfl⟩
  · rintro ⟨c,owner⟩ free_
    rw [kept.unheld m free_ c] at owner
    cases owner
  · by_cases free_ : (s.mutex m).locker = 0
    · rw [kept.unheld m free_ c] at first
      cases first
    · obtain ⟨owner,only⟩ := kept.held m free_
      exact ((only c).mp first).trans ((only d).mp second).symm
  · obtain ⟨xs,stacked,distinct,members⟩ := kept.stack m
    refine ⟨xs,stacked,distinct,fun x => (members x).trans ⟨?_,fun within => ⟨_,within⟩⟩⟩
    rintro ⟨c,within⟩
    rwa [(kept.own c m x within).1]
  · obtain ⟨c,within,task,_⟩ := first_waiter kept first
    rwa [task]

-- Task 0 has the mutex, and task 1 waits for it when it is unlocked.
def handover : List (Action Nat Unit Nat) :=
  [.other (.run 0),.other (.run 1),.other (.start []),.lock () 7 [],.other (.yield .yield []),.lock () 8 [[]],.unlock ()]

theorem handover_fits : Runs.Along (act line) Fits (tasksInit fun _ => ⟨none,0⟩) handover := by
  refine ⟨trivial,fun s went => ?_⟩
  cases went
  refine ⟨trivial,fun s went => ?_⟩
  cases went
  refine ⟨trivial,fun s went => ?_⟩
  cases went
  refine ⟨(fun d k y within => by cases within),fun s went => ?_⟩
  cases went
  refine ⟨trivial,fun s went => ?_⟩
  cases went
  refine ⟨fun d k y within => ?_,fun s went => ?_⟩
  · have out : Function.update (fun _ : Nat => (none : Option (Unit × Nat))) 0 none d = some (k,y) := within
    rw [show Function.update (fun _ : Nat => (none : Option (Unit × Nat))) 0 none = fun _ => none from Function.update_eq_self 0 _] at out
    cases out
  cases went
  exact ⟨trivial,fun s went => trivial⟩

theorem handover_kept : ∃ s, Runs.exec (act line) (tasksInit fun _ => ⟨none,0⟩) handover = some s ∧ (s.mutex ()).waiters = some 8 ∧
    s.holds () 0 = false ∧ s.inside (s.node 8).task = some ((),8) ∧ (s.ctx.task (s.node 8).task).state = .running := by
  have went : (Runs.exec (act line) (tasksInit fun _ => ⟨none,0⟩) handover).any
      (fun s => (s.mutex ()).locker = 0 ∧ (s.mutex ()).waiters = some 8 ∧ s.holds () 0 = false) = true := by decide
  obtain ⟨s,went,reached⟩ := (Option.any_eq_true _ _).mp went
  obtain ⟨free_,first,let_go⟩ := of_decide_eq_true reached
  exact ⟨s,went,first,let_go,(mutex_kept (by decide) handover_fits went ()).2.2.2 8 free_ first⟩

end Psocks.Mutex
