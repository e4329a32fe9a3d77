import Psocks.Task.Schedule

namespace Psocks.Schedule
variable {α : Type}

-- How often a task can leave the processor before one with the key `k` is entered, while the
-- least key is `m` or more.
def weight (k m : Nat) (t : HevTask) : Nat :=
  match t.state with
  | .running => k+1-t.schedKey
  | .waiting => k-m
  | .stopped => 0

def budget (k m : Nat) (task : α → HevTask) : List α → Nat
  | [] => 0
  | x::live => weight k m (task x)+budget k m task live

def Event.starts : Event α → Nat
  | .run _ => 1
  | _ => 0

def launches : List (Event α) → Nat
  | [] => 0
  | e::events => e.starts+launches events

-- No task is given the priority of real time, under which its key would stand still.
def Event.Ordinary : Event α → Prop
  | .setPriority _ priority => 1 ≤ priority
  | _ => True

structure Lively {τ : Type} (ctx : HevTaskSystemContext α τ) : Prop where
  next : ∀ x, 1 ≤ (ctx.task x).nextPriority
  own : ∀ x, (ctx.task x).state ≠ .stopped → 1 ≤ (ctx.task x).priority
  idle : ∀ x, (ctx.task x).state = .waiting → 1 ≤ (ctx.task x).schedKey

variable {task task' : α → HevTask} {live : List α} {k m m' : Nat} {x c : α}

theorem weight_less (less : m ≤ m') (t : HevTask) : weight k m' t ≤ weight k m t := by
  unfold weight
  split
  · exact Nat.le_refl _
  · omega
  · exact Nat.le_refl _

theorem budget_less (each : ∀ y ∈ live, weight k m' (task' y) ≤ weight k m (task y)) : budget k m' task' live ≤ budget k m task live := by
  induction live with
  | nil => exact Nat.le_refl _
  | cons y live ih =>
    have here := each y List.mem_cons_self
    have later := ih fun z member => each z (List.mem_cons_of_mem _ member)
    simp only [budget]
    omega

theorem budget_bound {b : Nat} (each : ∀ y ∈ live, weight k m (task y) ≤ b) : budget k m task live ≤ live.length*b := by
  induction live with
  | nil => exact Nat.zero_le _
  | cons y live ih =>
    have here := each y List.mem_cons_self
    have later := ih fun z member => each z (List.mem_cons_of_mem _ member)
    simp only [budget,List.length_cons,Nat.add_mul,Nat.one_mul]
    omega

variable [DecidableEq α]

theorem budget_erase (task : α → HevTask) (member : c ∈ live) : budget k m task live = weight k m (task c)+budget k m task (live.erase c) := by
  induction live with
  | nil => cases member
  | cons y live ih =>
    by_cases same : y = c
    · rw [same,List.erase_cons_head]
      rfl
    · have inner := ih ((List.mem_cons.mp member).resolve_left (Ne.symm same))
      rw [List.erase_cons_tail (by simpa using same)]
      simp only [budget]
      omega

variable {ctx next : HevTaskSystemContext α (List α)} {turns : Nat} {polls : List (List α)} {e : Event α} {rest : List α}

theorem min_least (sound : Sound live turns ctx) (member : x ∈ ctx.runningTasks) : minKey ctx ≤ ctx.key x := by
  cases tasks : ctx.runningTasks with
  | nil => simp [tasks] at member
  | cons y rest =>
    have sorted := sound.sorted
    rw [tasks] at member sorted
    rw [min_first (c:=y) (by simp [tasks])]
    rcases List.mem_cons.mp member with rfl | later
    · exact Nat.le_refl _
    · exact (List.pairwise_cons.mp sorted).1 x later

theorem min_above (some_ : ctx.runningTasks ≠ []) (above : ∀ y ∈ ctx.runningTasks, m ≤ ctx.key y) : m ≤ minKey ctx := by
  cases tasks : ctx.runningTasks with
  | nil => exact (some_ tasks).elim
  | cons y rest =>
    rw [min_first (c:=y) (by simp [tasks])]
    exact above y (by simp [tasks])

theorem woken_lively (lively : Lively ctx) (woken : Woken live turns ctx next) : Lively next := by
  refine ⟨fun y => ?_,fun y busy => ?_,fun y waits => ?_⟩
  · rcases woken.change y with same | ⟨_,_,_,woke⟩
    · exact same ▸ lively.next y
    · simpa [woke] using lively.next y
  · rcases woken.change y with same | ⟨_,_,_,woke⟩
    · rw [same] at busy ⊢
      exact lively.own y busy
    · simpa [woke] using lively.next y
  · rcases woken.change y with same | ⟨_,_,_,woke⟩
    · rw [same] at waits ⊢
      exact lively.idle y waits
    · simp [woke] at waits

theorem woken_budget (sound : Sound live turns ctx) (lively : Lively ctx) (woken : Woken live turns ctx next) (k : Nat) :
    budget k (minKey next) next.task live ≤ budget k (minKey ctx) ctx.task live := by
  have rises := woken_min sound woken
  apply budget_less
  intro y _
  rcases woken.change y with same | ⟨waits,key,above,woke⟩
  · rw [same]
    exact weight_less rises _
  · have far := lively.idle y waits
    simp only [HevTaskSystemContext.key] at above
    simp only [weight,woke,waits]
    omega

theorem departed_lively (lively : Lively ctx) (shape : ctx.runningTasks = c::rest) (sound : Sound live turns ctx) (type : SchedType) :
    Lively (departed ctx c rest type) := by
  have runs : (ctx.task c).state = .running := (sound.running c).mp (by simp [shape])
  have own := lively.own c (by simp [runs])
  have next := lively.next c
  refine ⟨fun y => ?_,fun y busy => ?_,fun y waits => ?_⟩
  · by_cases same : y = c
    · cases type <;> simpa [departed,same] using next
    · cases type <;> simpa [departed,same] using lively.next y
  · by_cases same : y = c
    · cases type <;> simp [departed,same,own,next] at busy ⊢
    · rw [departed_state,if_neg same] at busy
      cases type <;> simpa [departed,same] using lively.own y busy
  · by_cases same : y = c
    · cases type <;> simp [departed,same,runs,next] at waits ⊢
    · rw [departed_state,if_neg same] at waits
      cases type <;> simpa [departed,same] using lively.idle y waits

-- A turn on the processor costs the task on it at least one.
theorem departed_budget (sound : Sound live turns ctx) (room : Room turns) (lively : Lively ctx) (shape : ctx.runningTasks = c::rest)
    (member : x ∈ rest) (type : SchedType) :
    minKey ctx ≤ minKey (departed ctx c rest type) ∧
      budget (ctx.key x) (minKey (departed ctx c rest type)) (departed ctx c rest type).task (survivors live c type)+1 ≤
        budget (ctx.key x) (minKey ctx) ctx.task live := by
  have runs : (ctx.task c).state = .running := (sound.running c).mp (by simp [shape])
  have own := lively.own c (by simp [runs])
  have here : c ∈ live := (sound.alive c).mpr (by simp [runs])
  have first : minKey ctx = ctx.key c := min_first (by simp [shape])
  have least : minKey ctx ≤ ctx.key x := min_least sound (by simp [shape,member])
  have distinct := sound.distinct
  rw [shape,List.nodup_cons] at distinct
  have step : add64 (ctx.task c).schedKey (ctx.task c).priority = ctx.key c+(ctx.task c).priority := by
    have := sound.front c (by simp [shape])
    have := (sound.priority c).1
    unfold add64
    rw [Nat.mod_eq_of_lt]
    · rfl
    · simp only [Room,HevTaskSystemContext.key,hevTaskPriorityMax] at *
      omega
  have rises : minKey ctx ≤ minKey (departed ctx c rest type) := by
    apply min_above
    · exact List.ne_nil_of_mem (departed_member.mpr (.inr member))
    · intro y inside
      rcases departed_member.mp inside with ⟨rfl,rfl⟩ | inside
      · simp only [departed,HevTaskSystemContext.key,Function.update_self]
        rw [step]
        omega
      · have other : y ≠ c := fun same => distinct.1 (same ▸ inside)
        rw [departed_key _ _ _ _ other]
        exact min_least sound (by simp [shape,inside])
  refine ⟨rises,?_⟩
  have others : ∀ y ∈ live.erase c, weight (ctx.key x) (minKey (departed ctx c rest type)) ((departed ctx c rest type).task y) ≤
      weight (ctx.key x) (minKey ctx) (ctx.task y) := by
    intro y inside
    have other : y ≠ c := fun same => sound.apart.not_mem_erase (same ▸ inside)
    have same : (departed ctx c rest type).task y = ctx.task y := by
      cases type <;> simp [departed,other]
    rw [same]
    exact weight_less rises _
  have rest_ := budget_less others
  have spent := budget_erase (k:=ctx.key x) (m:=minKey ctx) ctx.task here
  have cost : weight (ctx.key x) (minKey ctx) (ctx.task c) = ctx.key x+1-minKey ctx := by
    rw [first]
    simp only [weight,runs,HevTaskSystemContext.key]
  cases type with
  | remove =>
    simp only [survivors]
    omega
  | switch =>
    have again := budget_erase (k:=ctx.key x) (m:=minKey (departed ctx c rest .switch)) (departed ctx c rest .switch).task here
    have left : weight (ctx.key x) (minKey (departed ctx c rest .switch)) ((departed ctx c rest .switch).task c) =
        ctx.key x+1-(ctx.key c+(ctx.task c).priority) := by
      simp only [departed,Function.update_self,weight,runs,step]
    simp only [survivors]
    omega
  | waitio =>
    have again := budget_erase (k:=ctx.key x) (m:=minKey (departed ctx c rest .waitio)) (departed ctx c rest .waitio).task here
    have left : weight (ctx.key x) (minKey (departed ctx c rest .waitio)) ((departed ctx c rest .waitio).task c) =
        ctx.key x-minKey (departed ctx c rest .waitio) := by
      simp [departed,weight]
    simp only [survivors]
    omega

theorem entered_lively {total : Nat} (lively : Lively ctx) : Lively (entered ctx x k total) := by
  have next := lively.next x
  refine ⟨fun y => ?_,fun y busy => ?_,fun y waits => ?_⟩
  · by_cases same : y = x
    · simpa [entered,same] using next
    · simpa [entered,same] using lively.next y
  · by_cases same : y = x
    · simpa [entered,same] using next
    · simp [entered,same] at busy ⊢
      exact lively.own y busy
  · by_cases same : y = x
    · simp [entered,same] at waits
    · simp [entered,same] at waits ⊢
      exact lively.idle y waits

theorem priority_task (ctx : HevTaskSystemContext α (List α)) (x : α) (priority : Int) (y : α) :
    ((hevTaskSetPriority ctx x priority).task y).schedKey = (ctx.task y).schedKey ∧
      ((hevTaskSetPriority ctx x priority).task y).state = (ctx.task y).state ∧
      ((hevTaskSetPriority ctx x priority).task y).priority = (ctx.task y).priority := by
  simp only [hevTaskSetPriority,HevTaskSystemContext.put,Function.update_apply]
  split
  · rename_i equal
    simp [equal]
  · simp

theorem clamp_positive {priority : Int} (positive : 1 ≤ priority) : 1 ≤ clampPriority priority := by
  unfold clampPriority
  split
  · omega
  · split
    · decide
    · omega

theorem priority_lively {priority : Int} (lively : Lively ctx) (positive : 1 ≤ priority) : Lively (hevTaskSetPriority ctx x priority) := by
  have same := priority_task ctx x priority
  refine ⟨fun y => ?_,fun y busy => ?_,fun y waits => ?_⟩
  · simp only [hevTaskSetPriority,HevTaskSystemContext.put,Function.update_apply]
    split
    · exact clamp_positive positive
    · exact lively.next y
  · rw [(same y).2.2]
    exact lively.own y ((same y).2.1 ▸ busy)
  · rw [(same y).1]
    exact lively.idle y ((same y).2.1 ▸ waits)

theorem enter_lively (sound : Sound live turns ctx) (room : Room turns) (lively : Lively ctx) (went : enterTask line ctx polls = some next) :
    Lively next := by
  unfold enterTask at went
  split at went
  · cases went
    exact ⟨lively.next,lively.own,lively.idle⟩
  · have after := woken_lively lively (pick_picked sound room went).woken
    exact ⟨after.next,after.own,after.idle⟩

theorem schedule_lively {type : SchedType} (sound : Sound live turns ctx) (led : Led ctx) (lively : Lively ctx) (room : Room (turns+1))
    (current : ctx.currentTask = some c) (went : hevTaskSystemSchedule line ctx (some type) polls = some next) : Lively next := by
  obtain ⟨rest,shape,after,entered⟩ := schedule_sound sound led room current went
  exact enter_lively after room (departed_lively lively shape sound type) entered

theorem step_lively (sound : Sound live turns ctx) (led : Led ctx) (lively : Lively ctx) (room : Room (turns+1)) (ordinary : e.Ordinary)
    (went : step line ctx e = some next) : Lively next := by
  cases e with
  | run y =>
    obtain ⟨_,_,⟨rfl,_⟩ | ⟨_,_,k,total,rfl,_⟩⟩ := run_sound sound led (room_less room (by omega)) went
    · exact lively
    · exact entered_lively lively
  | setPriority y priority =>
    cases went
    exact priority_lively lively ordinary
  | wakeup y => exact woken_lively lively (wakeup_woken sound (room_less room (by omega)) went)
  | start polls =>
    simp only [step,Option.ite_none_right_eq_some] at went
    exact enter_lively sound (room_less room (by omega)) lively went.2
  | yield type polls =>
    simp only [step,Option.ite_none_right_eq_some,Option.isSome_iff_exists] at went
    obtain ⟨⟨c,current⟩,went⟩ := went
    exact schedule_lively sound led lively room current went
  | exit polls =>
    simp only [step,Option.ite_none_right_eq_some,Option.isSome_iff_exists] at went
    obtain ⟨⟨c,current⟩,went⟩ := went
    exact schedule_lively sound led lively room current went

theorem run_lively {events : List (Event α)} (sound : Sound live turns ctx) (led : Led ctx) (lively : Lively ctx)
    (room : Room (turns+departures events+1)) (ordinary : ∀ e ∈ events, e.Ordinary) (went : Runs.exec (step line) ctx events = some next) :
    Lively next := by
  induction events generalizing ctx live turns with
  | nil =>
    cases went
    exact lively
  | cons e events ih =>
    obtain ⟨middle,first,rest⟩ := Runs.exec_cons went
    rw [departures] at room
    have early : Room (turns+1) := room_less room (by omega)
    obtain ⟨live',after,led'⟩ := step_sound sound led early first
    exact ih after led' (step_lively sound led lively early (ordinary e (by simp)) first) (by rwa [← Nat.add_assoc] at room)
      (fun f member => ordinary f (by simp [member])) rest

-- What one event costs while the task `x` waits for its turn.
structure Cost (live : List α) (turns : Nat) (x : α) (ctx next : HevTaskSystemContext α (List α)) (e : Event α) (live' : List α) : Prop where
  sound : Sound live' (turns+e.leaves) next
  led : Led next
  on : next.currentTask ≠ none
  runs : (next.task x).state = .running
  key : next.key x = ctx.key x
  rises : minKey ctx ≤ minKey next
  spent : budget (ctx.key x) (minKey next) next.task live'+e.leaves ≤
    budget (ctx.key x) (minKey ctx) ctx.task live+e.starts*(ctx.key x-minKey ctx)

theorem enter_cost (sound : Sound live turns ctx) (lively : Lively ctx) (room : Room turns) (member : x ∈ ctx.runningTasks)
    (went : enterTask line ctx polls = some next) :
    Sound live turns next ∧ Led next ∧ next.currentTask ≠ none ∧ next.task x = ctx.task x ∧ minKey ctx ≤ minKey next ∧
      ∀ k, budget k (minKey next) next.task live ≤ budget k (minKey ctx) ctx.task live := by
  have runs := (sound.running x).mp member
  have here : x ∈ live := (sound.alive x).mpr (by simp [runs])
  have some_ : ctx.totalTaskCount ≠ 0 := by
    rw [sound.total]
    exact (List.length_pos_of_mem here).ne'
  obtain ⟨sound',led'⟩ := enter_sound sound room went
  rw [enterTask,if_neg some_] at went
  have picked := pick_picked sound room went
  have rises := woken_min sound picked.woken
  have spent := woken_budget sound lively picked.woken
  exact ⟨sound',led',picked.some_,woken_kept picked.woken runs,rises,spent⟩

theorem schedule_cost {type : SchedType} (sound : Sound live turns ctx) (led : Led ctx) (lively : Lively ctx) (room : Room (turns+1))
    (runs : (ctx.task x).state = .running) (off : ctx.currentTask ≠ some x) (current : ctx.currentTask = some c)
    (went : hevTaskSystemSchedule line ctx (some type) polls = some next) :
    Sound (survivors live c type) (turns+1) next ∧ Led next ∧ next.currentTask ≠ none ∧ next.task x = ctx.task x ∧
      minKey ctx ≤ minKey next ∧ budget (ctx.key x) (minKey next) next.task (survivors live c type)+1 ≤
        budget (ctx.key x) (minKey ctx) ctx.task live := by
  obtain ⟨rest,shape,after,entered⟩ := schedule_sound sound led room current went
  have apart : x ≠ c := by
    rintro rfl
    exact off current
  have member : x ∈ rest := by
    have inside := (sound.running x).mpr runs
    rw [shape] at inside
    exact (List.mem_cons.mp inside).resolve_left apart
  obtain ⟨rises,spent⟩ := departed_budget sound (room_less room (by omega)) lively shape member type
  obtain ⟨sound',led',on,same,higher,less⟩ := enter_cost after (departed_lively lively shape sound type) room
    (departed_member.mpr (.inr member)) entered
  have kept : (departed ctx c rest type).task x = ctx.task x := by cases type <;> simp [departed,apart]
  have := less (ctx.key x)
  exact ⟨sound',led',on,same.trans kept,by omega,by omega⟩

-- A task that is started comes in behind the least key, so that it costs less than a turn of the first one.
theorem launch_cost {y : α} (total : Nat) (sound : Sound live turns ctx) (lively : Lively ctx) (fresh : y ∉ live)
    (runs : (ctx.task x).state = .running) (late : minKey ctx+(ctx.task y).nextPriority = k) :
    minKey (entered ctx y k total) = minKey ctx ∧
      budget (ctx.key x) (minKey ctx) (entered ctx y k total).task (y::live) ≤
        budget (ctx.key x) (minKey ctx) ctx.task live+(ctx.key x-minKey ctx) := by
  have stopped : (ctx.task y).state = .stopped := not_not.mp (mt (sound.alive y).mpr fresh)
  have out : y ∉ ctx.runningTasks := by
    rw [sound.running,stopped]
    simp
  have same : ∀ z, z ≠ y → (entered ctx y k total).task z = ctx.task z := fun z other => Function.update_of_ne other ..
  have own : (entered ctx y k total).task y = ⟨k,(ctx.task y).nextPriority,(ctx.task y).nextPriority,.running⟩ := Function.update_self ..
  have positive := lively.next y
  constructor
  · cases first : ctx.runningTasks.head? with
    | none =>
      rw [List.head?_eq_none_iff] at first
      have member := (sound.running x).mpr runs
      simp [first] at member
    | some c =>
      have other : c ≠ y := fun equal => out (equal ▸ List.mem_of_mem_head? first)
      rw [min_first first,min_first (entered_first total out (by omega) first)]
      exact congrArg HevTask.schedKey (same c other)
  · have old : budget (ctx.key x) (minKey ctx) (entered ctx y k total).task live ≤ budget (ctx.key x) (minKey ctx) ctx.task live := by
      apply budget_less
      intro z member
      rw [same z fun equal => fresh (equal ▸ member)]
    have new_ : weight (ctx.key x) (minKey ctx) ((entered ctx y k total).task y) ≤ ctx.key x-minKey ctx := by
      simp only [own,weight]
      omega
    simp only [budget]
    omega

theorem step_cost (sound : Sound live turns ctx) (led : Led ctx) (lively : Lively ctx) (room : Room (turns+1)) (on : ctx.currentTask ≠ none)
    (runs : (ctx.task x).state = .running) (off : ctx.currentTask ≠ some x) (went : step line ctx e = some next) :
    ∃ live', Cost live turns x ctx next e live' := by
  cases e with
  | run y =>
    obtain ⟨led',current,⟨rfl,_⟩ | ⟨fresh,after,k,total,rfl,above⟩⟩ := run_sound sound led (room_less room (by omega)) went
    · exact ⟨live,sound,led,on,runs,rfl,Nat.le_refl _,Nat.le_add_right _ _⟩
    · obtain ⟨least,spent⟩ := launch_cost total sound lively fresh runs (above on)
      have apart : x ≠ y := by
        rintro rfl
        exact fresh ((sound.alive x).mpr (by simp [runs]))
      have same : (entered ctx y k total).task x = ctx.task x := Function.update_of_ne apart ..
      refine ⟨y::live,after,led',current ▸ on,same ▸ runs,congrArg HevTask.schedKey same,least.ge,?_⟩
      simp only [least,Event.leaves,Event.starts]
      omega
  | setPriority y priority =>
    cases went
    have same := priority_task ctx y priority
    have least : minKey (hevTaskSetPriority ctx y priority) = minKey ctx := by
      cases first : ctx.runningTasks.head? with
      | none => rw [min_none first,min_none (show (hevTaskSetPriority ctx y priority).runningTasks.head? = none from first)]
      | some c =>
        rw [min_first first,min_first (show (hevTaskSetPriority ctx y priority).runningTasks.head? = some c from first)]
        exact (same c).1
    refine ⟨live,priority_sound sound y priority,led,on,(same x).2.1 ▸ runs,(same x).1,least.ge,?_⟩
    rw [least]
    apply Nat.le_add_right_of_le
    apply budget_less
    intro z _
    simp only [weight,(same z).1,(same z).2.1]
    exact Nat.le_refl _
  | wakeup y =>
    have woken := wakeup_woken sound (room_less room (by omega)) went
    have same := woken_kept woken runs
    refine ⟨live,woken.sound,fun z head => woken.front z (led z (woken.current ▸ head)),woken.current ▸ on,same ▸ runs,
      congrArg HevTask.schedKey same,woken_min sound woken,?_⟩
    exact Nat.le_add_right_of_le (woken_budget sound lively woken _)
  | start polls =>
    simp only [step,Option.ite_none_right_eq_some,Option.isNone_iff_eq_none] at went
    exact (on went.1).elim
  | yield type polls =>
    simp only [step,Option.ite_none_right_eq_some,Option.isSome_iff_exists] at went
    obtain ⟨⟨c,current⟩,went⟩ := went
    obtain ⟨sound',led',on',same,rises,spent⟩ := schedule_cost sound led lively room runs off current went
    exact ⟨_,sound',led',on',same ▸ runs,congrArg HevTask.schedKey same,rises,Nat.le_add_right_of_le spent⟩
  | exit polls =>
    simp only [step,Option.ite_none_right_eq_some,Option.isSome_iff_exists] at went
    obtain ⟨⟨c,current⟩,went⟩ := went
    obtain ⟨sound',led',on',same,rises,spent⟩ := schedule_cost sound led lively room runs off current went
    exact ⟨_,sound',led',on',same ▸ runs,congrArg HevTask.schedKey same,rises,Nat.le_add_right_of_le spent⟩

theorem run_cost {events : List (Event α)} (sound : Sound live turns ctx) (led : Led ctx) (lively : Lively ctx)
    (room : Room (turns+departures events+1)) (ordinary : ∀ e ∈ events, e.Ordinary) (on : ctx.currentTask ≠ none)
    (runs : (ctx.task x).state = .running) (off : Runs.Throughout (step line) (·.currentTask ≠ some x) ctx events)
    (went : Runs.exec (step line) ctx events = some next) :
    departures events ≤ budget (ctx.key x) (minKey ctx) ctx.task live+launches events*(ctx.key x-minKey ctx) := by
  induction events generalizing ctx live turns with
  | nil => exact Nat.zero_le _
  | cons e events ih =>
    obtain ⟨middle,first,rest⟩ := Runs.exec_cons went
    rw [departures] at room ⊢
    have early : Room (turns+1) := room_less room (by omega)
    obtain ⟨live',cost⟩ := step_cost sound led lively early on runs off.1 first
    have later := ih cost.sound cost.led (step_lively sound led lively early (ordinary e (by simp)) first) (by rwa [← Nat.add_assoc] at room)
      (fun f member => ordinary f (by simp [member])) cost.on
      cost.runs (off.2 middle first) rest
    have spent := cost.spent
    have rises := cost.rises
    rw [cost.key] at later
    have fewer : launches events*(ctx.key x-minKey middle) ≤ launches events*(ctx.key x-minKey ctx) :=
      Nat.mul_le_mul_left _ (by omega)
    rw [launches,Nat.add_mul]
    omega

omit [DecidableEq α] in
theorem init_lively : Lively (hevTaskSystemInit : HevTaskSystemContext α (List α)) := by
  refine ⟨?_,?_,?_⟩ <;> simp [hevTaskSystemInit,hevTaskNew,hevTaskPriorityDefault]

-- No ready task starves: whatever the tasks do and the polls wake up, it is entered before more
-- turns than the tasks there are, and those started meanwhile, times its distance from the least key.
theorem bounded_waiting {before after : List (Event α)} {last : HevTaskSystemContext α (List α)}
    (first : Runs.exec (step line) hevTaskSystemInit before = some ctx) (went : Runs.exec (step line) ctx after = some last)
    (room : 15*(departures before+departures after+3) < 2^64) (ordinary : ∀ e ∈ before++after, e.Ordinary) (on : ctx.currentTask ≠ none)
    (runs : (ctx.task x).state = .running) (off : Runs.Throughout (step line) (·.currentTask ≠ some x) ctx after) :
    departures after ≤ (ctx.totalTaskCount+launches after)*(ctx.key x+1-minKey ctx) := by
  have small : Room (departures before+departures after+1) := by
    unfold Room hevTaskPriorityMax
    omega
  obtain ⟨live,sound,led⟩ := run_keeps init_sound (by simp [Led,hevTaskSystemInit]) (room_less small (by omega)) first
  have lively := run_lively init_sound (by simp [Led,hevTaskSystemInit]) init_lively (room_less small (by omega))
    (fun e member => ordinary e (by simp [member])) first
  rw [Nat.zero_add] at sound
  have cost := run_cost sound led lively small (fun e member => ordinary e (by simp [member])) on runs off went
  have bound : budget (ctx.key x) (minKey ctx) ctx.task live ≤ live.length*(ctx.key x+1-minKey ctx) := by
    apply budget_bound
    intro y _
    unfold weight
    split
    · rename_i ready
      have least := min_least sound ((sound.running y).mpr ready)
      simp only [HevTaskSystemContext.key] at *
      omega
    · omega
    · exact Nat.zero_le _
  have fewer : launches after*(ctx.key x-minKey ctx) ≤ launches after*(ctx.key x+1-minKey ctx) := Nat.mul_le_mul_left _ (by omega)
  rw [sound.total,Nat.add_mul]
  omega

theorem third_waits : ∃ ctx last : HevTaskSystemContext Nat (List Nat),
    Runs.exec (step line) hevTaskSystemInit [.run 0,.run 1,.run 2,.setPriority 0 1,.start []] = some ctx ∧
    Runs.exec (step line) ctx [.run 3,.yield .waitio [[0]]] = some last ∧ last.currentTask = some 1 ∧
    departures [Event.run 3,.yield .waitio [[0]]] ≤ (ctx.totalTaskCount+launches [Event.run 3,.yield .waitio [[0]]])*(ctx.key 2+1-minKey ctx) := by
  refine ⟨_,_,rfl,rfl,rfl,?_⟩
  have first : Runs.exec (step line) hevTaskSystemInit [.run 0,.run 1,.run 2,.setPriority 0 1,.start []] = some _ := rfl
  refine bounded_waiting first rfl (by decide) ?_ (by decide) rfl ?_
  · intro e member
    simp only [List.cons_append,List.nil_append,List.mem_cons,List.not_mem_nil,or_false] at member
    rcases member with rfl | rfl | rfl | rfl | rfl | rfl | rfl <;> simp [Event.Ordinary]
  · refine ⟨by decide,fun next went => ⟨?_,fun next' went' => ?_⟩⟩
    · cases went
      change some 0 ≠ some 2
      decide
    · cases went
      cases went'
      change some 1 ≠ some 2
      decide

end Psocks.Schedule
