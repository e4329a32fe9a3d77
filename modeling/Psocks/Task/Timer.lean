import Mathlib.Data.Prod.Lex
import Mathlib.Tactic.Linarith
import Psocks.Task.Schedule

namespace Psocks.Schedule

structure Timespec where
  tvSec : Int
  tvNsec : Int
deriving DecidableEq, Repr

structure HevTaskTimerNode (α : Type) where
  expire : Timespec
  task : α

def hevTaskTimerCmp (a b : Timespec) : Int :=
  if a.tvSec < b.tvSec then -1
  else if a.tvSec > b.tvSec then 1
  else if a.tvNsec < b.tvNsec then -1
  else if a.tvNsec > b.tvNsec then 1
  else 0

-- What falls to nodes with one time is the order of their addresses.
def hevTaskTimerNodeCmp {α : Type} {w : Nat} (node : BitVec w → HevTaskTimerNode α) (a b : BitVec w) : Int :=
  let res := hevTaskTimerCmp (node a).expire (node b).expire
  if res ≠ 0 then res
  else if a.toNat < b.toNat then -1
  else if a.toNat > b.toNat then 1
  else 0

def hevTaskTimerGetExpire (expire : Timespec) (milliseconds : Nat) : Timespec :=
  let sec := expire.tvSec+milliseconds/1000
  let nsec := expire.tvNsec+(milliseconds%1000)*1000000
  if nsec > 1000000000 then ⟨sec+1,nsec-1000000000⟩ else ⟨sec,nsec⟩

-- The milliseconds from `curr` to `expire`, as an unsigned int.
def hevTaskTimerGetTime (curr expire : Timespec) : Nat :=
  let sec := expire.tvSec-curr.tvSec
  let nsec := expire.tvNsec-curr.tvNsec
  let (sec,nsec) := if nsec < 0 then (sec-1,nsec+1000000000) else (sec,nsec)
  if sec < 0 then 0
  else ((sec*1000+(nsec+999999)/1000000) % 2^32).toNat

-- What `hev_task_timer_wait` keeps on the task's stack while it yields, and when it was called.
structure Frame (w : Nat) where
  node : BitVec w
  leftmost : Bool
  milliseconds : Nat
  since : Timespec

-- Where the kernel is: out of it, before a poll, or after the last one.
inductive Phase where
  | out
  | left
  | polled
deriving DecidableEq, Repr

-- `remaining` has what the last sleep of a task returned, `clock` the last reading of the clock,
-- and `checked` the one by which a sleeper was last looked for to be woken up.
structure System (α τ ρ : Type) (w : Nat) where
  ctx : HevTaskSystemContext α τ
  phase : Phase
  sortTree : ρ
  node : BitVec w → HevTaskTimerNode α
  waits : α → Option (Frame w)
  remaining : α → Nat
  clock : Timespec
  checked : Timespec

abbrev SortKey := Int ×ₗ Int ×ₗ Nat

def sortKey {α : Type} {w : Nat} (node : BitVec w → HevTaskTimerNode α) (x : BitVec w) : SortKey :=
  toLex ((node x).expire.tvSec,toLex ((node x).expire.tvNsec,x.toNat))

inductive Action (α : Type) (w : Nat) where
  | run (x : α)
  | setPriority (x : α) (priority : Int)
  | wakeup (x : α)
  | start
  | yield (type : HevTaskYieldType)
  | exit
  | sleep (milliseconds : Nat) (now : Timespec) (node : BitVec w)
  | resume (now : Timespec)
  | poll (events : List α) (now : Timespec)
  | enter

section Model
variable {α τ ρ : Type} {w : Nat} [DecidableEq α] (tree : Tree α τ) (sort : Tree (BitVec w) ρ)

-- The clock does not run backwards.
def tick (s : System α τ ρ w) (now : Timespec) : Option (System α τ ρ w) :=
  if 0 ≤ now.tvNsec ∧ now.tvNsec < 1000000000 ∧ 0 ≤ hevTaskTimerCmp now s.clock then some {s with clock:=now} else none

def hevTaskTimerGetTimeout (s : System α τ ρ w) (curr : Timespec) : Int :=
  match sort.first s.sortTree with
  | none => -1
  | some this => (BitVec.ofNat 32 (hevTaskTimerGetTime curr (s.node this).expire)).toInt

def hevTaskTimerWakeup (s : System α τ ρ w) (curr : Timespec) : Option (System α τ ρ w) :=
  let s := {s with checked:=curr}
  match sort.first s.sortTree with
  | none => some s
  | some this =>
    if hevTaskTimerCmp curr (s.node this).expire < 0 then some s
    else (hevTaskSystemWakeupTask tree s.ctx (s.node this).task).map fun ctx => {s with ctx:=ctx}

def hevTaskTimerWake (s : System α τ ρ w) (curr : Timespec) : Option (System α τ ρ w) :=
  match sort.first s.sortTree with
  | none => some s
  | some _ => hevTaskTimerWakeup tree sort s curr

-- `hev_task_timer_wait` up to its yield: with the new node in front, `leftmost` stays set.
def timerWaitEnter (s : System α τ ρ w) (milliseconds : Nat) (curr : Timespec) (task : α) (x : BitVec w) : Option (System α τ ρ w) := do
  let node := Function.update s.node x ⟨hevTaskTimerGetExpire curr milliseconds,task⟩
  let sorted ← sort.insert (fun this that => decide (hevTaskTimerNodeCmp node this that < 0)) s.sortTree x
  let leftmost := sort.first sorted == some x
  some {s with sortTree:=sorted,node:=node,waits:=Function.update s.waits task (some ⟨x,leftmost,milliseconds,curr⟩)}

def wakeupNext (s : System α τ ρ w) (leftmost : Bool) (curr : Timespec) : Option (System α τ ρ w) :=
  if leftmost then hevTaskTimerWakeup tree sort s curr else some s

-- And from there to its end.
def timerWaitLeave (s : System α τ ρ w) (frame : Frame w) (curr : Timespec) (task : α) : Option (System α τ ρ w) := do
  let leftmost := frame.leftmost || sort.first s.sortTree == some frame.node
  let sorted ← sort.erase s.sortTree frame.node
  let s ← wakeupNext tree sort {s with sortTree:=sorted,waits:=Function.update s.waits task none} leftmost curr
  some {s with remaining:=Function.update s.remaining task (hevTaskTimerGetTime curr (s.node frame.node).expire)}

def leaveTo (s : System α τ ρ w) (type : SchedType) : Option (System α τ ρ w) :=
  (leaveTask tree s.ctx type).map fun ctx => {s with ctx:=ctx,phase:=.left}

-- The processor is not with a task that has yet to come out of `hev_task_timer_wait`.
def awake (s : System α τ ρ w) : Bool :=
  s.phase == .out && match s.ctx.currentTask with
    | none => true
    | some c => (s.waits c).isNone

def hevTaskSleep (s : System α τ ρ w) (milliseconds : Nat) (now : Timespec) (c : α) (x : BitVec w) : Option (System α τ ρ w) :=
  if milliseconds = 0 then some {s with remaining:=Function.update s.remaining c 0}
  else do
    let s ← tick s now
    let s ← timerWaitEnter sort s milliseconds now c x
    leaveTo tree s .waitio

def onTask (s : System α τ ρ w) (call : α → Option (System α τ ρ w)) : Option (System α τ ρ w) :=
  if awake s then s.ctx.currentTask.bind call else none

def resumeTask (s : System α τ ρ w) (now : Timespec) : Option (System α τ ρ w) := do
  let c ← s.ctx.currentTask
  let frame ← s.waits c
  let s ← tick s now
  timerWaitLeave tree sort s frame now c

def pollOnce (s : System α τ ρ w) (events : List α) (now : Timespec) : Option (System α τ ρ w) := do
  let ctx ← hevTaskSystemIoPoll tree s.ctx events
  let s ← tick {s with ctx:=ctx} now
  let s ← hevTaskTimerWake tree sort s now
  some {s with phase:=if s.ctx.runningTaskCount = 0 then .left else .polled}

def pickTask (s : System α τ ρ w) : Option (System α τ ρ w) :=
  (tree.first s.ctx.runningTasks).map fun x => {s with ctx:={s.ctx with currentTask:=some x},phase:=.out}

def act (s : System α τ ρ w) : Action α w → Option (System α τ ρ w)
  | .run x => if awake s then (hevTaskRun tree s.ctx x).map fun ctx => {s with ctx:=ctx} else none
  | .setPriority x priority => if awake s then some {s with ctx:=hevTaskSetPriority s.ctx x priority} else none
  | .wakeup x => if awake s then (hevTaskSystemWakeupTask tree s.ctx x).map fun ctx => {s with ctx:=ctx} else none
  | .start => if awake s ∧ s.ctx.currentTask.isNone then some {s with phase:=.left} else none
  | .yield type => onTask s fun _ => leaveTo tree s type.sched
  | .exit => onTask s fun _ => leaveTo tree s .remove
  | .sleep milliseconds now x => onTask s fun c => hevTaskSleep tree sort s milliseconds now c x
  | .resume now => if s.phase = .out then resumeTask tree sort s now else none
  | .poll events now =>
    if s.phase = .left ∧ s.ctx.runningTaskCount < s.ctx.totalTaskCount then pollOnce tree sort s events now else none
  | .enter =>
    match s.phase with
    | .out => none
    | .left =>
      if s.ctx.totalTaskCount = 0 then some {s with ctx:={s.ctx with currentTask:=none},phase:=.out}
      else if s.ctx.runningTaskCount < s.ctx.totalTaskCount then none
      else pickTask tree s
    | .polled => pickTask tree s

end Model

def Timespec.value (t : Timespec) : Int := t.tvSec*1000000000+t.tvNsec

def Timespec.Normal (t : Timespec) : Prop := 0 ≤ t.tvNsec ∧ t.tvNsec < 1000000000

-- `hev_task_timer_get_expire` carries from above a whole second on.
def Timespec.Carried (t : Timespec) : Prop := 0 ≤ t.tvNsec ∧ t.tvNsec ≤ 1000000000

section Time
variable {a b now : Timespec} {milliseconds : Nat}

theorem cmp_negative : hevTaskTimerCmp a b < 0 ↔ a.tvSec < b.tvSec ∨ a.tvSec = b.tvSec ∧ a.tvNsec < b.tvNsec := by
  unfold hevTaskTimerCmp
  split_ifs <;> omega

theorem cmp_value (normal : a.Normal) (carried : b.Carried) : hevTaskTimerCmp a b < 0 ↔ a.value < b.value := by
  rw [cmp_negative]
  simp only [Timespec.Normal,Timespec.Carried,Timespec.value] at *
  omega

theorem clock_value (normal : now.Normal) (before : b.Normal) (forward : 0 ≤ hevTaskTimerCmp now b) : b.value ≤ now.value := by
  have carried : b.Carried := ⟨before.1,before.2.le⟩
  have := (cmp_value normal carried).not
  omega

theorem expire_value (now : Timespec) (milliseconds : Nat) : (hevTaskTimerGetExpire now milliseconds).value = now.value+milliseconds*1000000 := by
  simp only [hevTaskTimerGetExpire,Timespec.value]
  split <;> simp only <;> omega

theorem expire_carried (normal : now.Normal) (milliseconds : Nat) : (hevTaskTimerGetExpire now milliseconds).Carried := by
  simp only [hevTaskTimerGetExpire,Timespec.Normal,Timespec.Carried] at *
  split <;> simp only <;> omega

-- The time up to a moment less than 2^31 milliseconds ahead, rounded up.
theorem time_exact (normal : now.Normal) (carried : b.Carried) (near : b.value ≤ now.value+2147483647*1000000) :
    hevTaskTimerGetTime now b ≤ 2147483647 ∧ b.value ≤ now.value+hevTaskTimerGetTime now b*1000000 ∧
      (0 < hevTaskTimerGetTime now b → now.value+(hevTaskTimerGetTime now b-1)*1000000 < b.value) := by
  simp only [hevTaskTimerGetTime,Timespec.Normal,Timespec.Carried,Timespec.value] at *
  by_cases borrow : b.tvNsec-now.tvNsec < 0
  · simp only [if_pos borrow]
    split
    · omega
    · rw [Int.emod_eq_of_lt (by omega) (by omega)]
      omega
  · simp only [if_neg borrow]
    split
    · omega
    · rw [Int.emod_eq_of_lt (by omega) (by omega)]
      omega

theorem node_cmp_key {α : Type} {w : Nat} (node : BitVec w → HevTaskTimerNode α) (x y : BitVec w) :
    hevTaskTimerNodeCmp node x y < 0 ↔ sortKey node x < sortKey node y := by
  simp only [sortKey,Prod.Lex.toLex_lt_toLex,hevTaskTimerNodeCmp,hevTaskTimerCmp]
  split_ifs <;> omega

theorem insert_by_cmp {α : Type} {w : Nat} (node : BitVec w → HevTaskTimerNode α) (items : List (BitVec w)) (x : BitVec w) :
    insertBefore (fun a b => decide (hevTaskTimerNodeCmp node a b < 0)) items x = items.orderedInsert (fun a b => sortKey node a < sortKey node b) x :=
  insert_by (fun a b => decide_eq_true_iff.trans (node_cmp_key node a b)) items x

theorem key_value {α : Type} {w : Nat} {node : BitVec w → HevTaskTimerNode α} {x y : BitVec w} (first : (node x).expire.Carried)
    (second : (node y).expire.Carried) (less : sortKey node x ≤ sortKey node y) : (node x).expire.value ≤ (node y).expire.value := by
  simp only [sortKey,Prod.Lex.toLex_le_toLex,Timespec.Carried,Timespec.value] at *
  omega

end Time

variable {α : Type} {w : Nat} {s next : System α (List α) (List (BitVec w)) w} {live live' : List α} {turns turns' : Nat}
variable {x : BitVec w} {c : α} {frame : Frame w} {now : Timespec}

abbrev ListSystem (α : Type) (w : Nat) := System α (List α) (List (BitVec w)) w

def systemInit (clock : Timespec) (node : BitVec w → HevTaskTimerNode α) : ListSystem α w :=
  ⟨hevTaskSystemInit,.out,[],node,fun _ => none,fun _ => 0,clock,clock⟩

-- A sleeper's node lies in the tree, with its task and a time that its sleep has set.
structure Sleeps (live : List α) (s : ListSystem α w) (c : α) (frame : Frame w) : Prop where
  task : (s.node frame.node).task = c
  alive : c ∈ live
  carried : (s.node frame.node).expire.Carried
  due : (s.node frame.node).expire.value = frame.since.value+frame.milliseconds*1000000
  since : frame.since.value ≤ s.clock.value
  small : frame.milliseconds < 2^31

structure Kept (live : List α) (turns : Nat) (s : ListSystem α w) : Prop where
  sound : Sound live turns s.ctx
  led : s.phase = .out → Led s.ctx
  polled : s.phase = .polled → s.ctx.runningTaskCount ≠ 0
  nodes : ∀ x, x ∈ s.sortTree ↔ ∃ c frame, s.waits c = some frame ∧ frame.node = x
  sleeps : ∀ c frame, s.waits c = some frame → Sleeps live s c frame
  distinct : s.sortTree.Nodup
  sorted : s.sortTree.Pairwise (sortKey s.node · ≤ sortKey s.node ·)
  clock : s.clock.Normal
  checked : s.checked.value ≤ s.clock.value

-- The first sleeper, where its time is up by the last check, is ready.
def Chain (s : ListSystem α w) : Prop :=
  ∀ x, s.sortTree.head? = some x → (s.node x).expire.value ≤ s.checked.value → (s.ctx.task (s.node x).task).state = .running

theorem first_sleeper (kept : Kept live turns s) (first : s.sortTree.head? = some x) :
    ∃ frame, s.waits (s.node x).task = some frame ∧ frame.node = x ∧ Sleeps live s (s.node x).task frame := by
  obtain ⟨c,frame,waits,rfl⟩ := (kept.nodes x).mp (List.mem_of_mem_head? first)
  have sleeps := kept.sleeps c frame waits
  refine ⟨frame,?_,rfl,?_⟩
  · rwa [sleeps.task]
  · rwa [sleeps.task]

-- Tasks that are not asleep may change and may stop; a sleeper that is ready stays so.
theorem kept_ctx (kept : Kept live turns s) {ctx : HevTaskSystemContext α (List α)} {phase : Phase} (sound : Sound live' turns' ctx)
    (led : phase = .out → Led ctx) (polled : phase = .polled → ctx.runningTaskCount ≠ 0) (stay : ∀ c, s.waits c ≠ none → c ∈ live') :
    Kept live' turns' {s with ctx:=ctx,phase:=phase} := by
  refine ⟨sound,led,polled,kept.nodes,fun c frame waits => ?_,kept.distinct,kept.sorted,kept.clock,kept.checked⟩
  have sleeps := kept.sleeps c frame waits
  have asleep : s.waits c ≠ none := fun awake => by simp [show s.waits c = some frame from waits] at awake
  exact ⟨sleeps.task,stay c asleep,sleeps.carried,sleeps.due,sleeps.since,sleeps.small⟩

theorem chain_ctx (kept : Kept live turns s) (chain : Chain s) {ctx : HevTaskSystemContext α (List α)} (phase : Phase)
    (ready : ∀ c, s.waits c ≠ none → (s.ctx.task c).state = .running → (ctx.task c).state = .running) : Chain {s with ctx:=ctx,phase:=phase} := by
  intro x first due
  obtain ⟨frame,waits,_,_⟩ := first_sleeper kept first
  exact ready _ (by simp [waits]) (chain x first due)

theorem tick_kept (kept : Kept live turns s) (went : tick s now = some next) :
    next = {s with clock:=now} ∧ Kept live turns next ∧ s.clock.value ≤ now.value := by
  unfold tick at went
  split at went
  · rename_i valid
    cases went
    have later := clock_value ⟨valid.1,valid.2.1⟩ kept.clock valid.2.2
    refine ⟨rfl,⟨kept.sound,kept.led,kept.polled,kept.nodes,fun c frame waits => ?_,kept.distinct,kept.sorted,⟨valid.1,valid.2.1⟩,
      kept.checked.trans later⟩,later⟩
    have sleeps := kept.sleeps c frame waits
    exact ⟨sleeps.task,sleeps.alive,sleeps.carried,sleeps.due,sleeps.since.trans later,sleeps.small⟩
  · cases went

variable [DecidableEq α]

section Woken
variable {ctx ctx' : HevTaskSystemContext α (List α)}

theorem woken_led (woken : Woken live turns ctx ctx') (led : Led ctx) : Led ctx' :=
  fun y same => woken.front y (led y (woken.current ▸ same))

theorem woken_count (sound : Sound live turns ctx) (woken : Woken live turns ctx ctx') (some_ : ctx.runningTaskCount ≠ 0) :
    ctx'.runningTaskCount ≠ 0 := by
  rw [sound.count] at some_
  rw [woken.sound.count]
  cases first : ctx.runningTasks with
  | nil => simp [first] at some_
  | cons y rest =>
    have head := woken.front y (by simp [first])
    intro none_
    rw [List.length_eq_zero_iff.mp none_] at head
    cases head

theorem woken_ready (woken : Woken live turns ctx ctx') {c : α} (runs : (ctx.task c).state = .running) : (ctx'.task c).state = .running :=
  woken_kept woken runs ▸ runs

theorem wakeup_ready {c : α} (went : hevTaskSystemWakeupTask line ctx c = some ctx') : (ctx'.task c).state = .running := by
  rcases wakeup_cases went with ⟨runs,rfl⟩ | ⟨_,rfl⟩
  · exact runs
  · simp only [entered,Function.update_self]

end Woken

theorem woken_system (kept : Kept live turns s) {ctx : HevTaskSystemContext α (List α)} (woken : Woken live turns s.ctx ctx) :
    Kept live turns {s with ctx:=ctx} :=
  kept_ctx kept woken.sound (fun out => woken_led woken (kept.led out)) (fun polled => woken_count kept.sound woken (kept.polled polled))
    fun c waits => by
      obtain ⟨frame,waits⟩ := Option.ne_none_iff_exists'.mp waits
      exact (kept.sleeps c frame waits).alive

-- Looking for a sleeper to wake up makes the chain, whatever was before.
theorem timer_wakeup (kept : Kept live turns s) (room : Room turns) (clock : s.clock = now)
    (went : hevTaskTimerWakeup line line s now = some next) :
    ∃ ctx, next = {s with ctx:=ctx,checked:=now} ∧ Woken live turns s.ctx ctx ∧ Kept live turns next ∧ Chain next := by
  have looked : Kept live turns {s with checked:=now} :=
    ⟨kept.sound,kept.led,kept.polled,kept.nodes,fun c frame waits =>
      let sleeps := kept.sleeps c frame waits
      ⟨sleeps.task,sleeps.alive,sleeps.carried,sleeps.due,sleeps.since,sleeps.small⟩,kept.distinct,kept.sorted,kept.clock,clock ▸ Int.le_refl _⟩
  unfold hevTaskTimerWakeup at went
  cases first : s.sortTree.head? with
  | none =>
    simp only [line,first] at went
    cases went
    exact ⟨s.ctx,rfl,woken_same kept.sound,looked,fun x head => by simp [first] at head⟩
  | some x =>
    simp only [line,first] at went
    obtain ⟨frame,waits,rfl,sleeps⟩ := first_sleeper kept first
    have normal : now.Normal := clock ▸ kept.clock
    split at went
    · rename_i early
      cases went
      have later := (cmp_value normal sleeps.carried).mp early
      refine ⟨s.ctx,rfl,woken_same kept.sound,looked,fun y head due => ?_⟩
      cases first.symm.trans head
      exact absurd later (not_lt.mpr due)
    · obtain ⟨ctx,woke,rfl⟩ := Option.map_eq_some_iff.mp went
      have woken := wakeup_woken kept.sound room woke
      refine ⟨ctx,rfl,woken,woken_system looked woken,fun y head due => ?_⟩
      cases first.symm.trans head
      exact wakeup_ready woke

theorem timer_wake (kept : Kept live turns s) (room : Room turns) (clock : s.clock = now)
    (went : hevTaskTimerWake line line s now = some next) :
    ∃ ctx checked, next = {s with ctx:=ctx,checked:=checked} ∧ Woken live turns s.ctx ctx ∧ Kept live turns next ∧ Chain next ∧
      (s.sortTree ≠ [] → checked = now) := by
  unfold hevTaskTimerWake at went
  cases first : s.sortTree.head? with
  | none =>
    simp only [line,first] at went
    cases went
    refine ⟨s.ctx,s.checked,rfl,woken_same kept.sound,kept,fun x head => by simp [first] at head,fun some_ => ?_⟩
    exact absurd (List.head?_eq_none_iff.mp first) some_
  | some x =>
    simp only [line,first] at went
    obtain ⟨ctx,shape,woken,kept',chain⟩ := timer_wakeup kept room clock went
    exact ⟨ctx,now,shape,woken,kept',chain,fun _ => rfl⟩

theorem poll_kept {events : List α} (kept : Kept live turns s) (room : Room turns) (went : pollOnce line line s events now = some next) :
    Kept live turns next ∧ Chain next ∧ next.sortTree = s.sortTree ∧ next.node = s.node ∧ next.waits = s.waits ∧
      (next.phase = if next.ctx.runningTaskCount = 0 then .left else .polled) ∧ (s.sortTree ≠ [] → next.checked = now) ∧ next.clock = now := by
  simp only [pollOnce,Option.bind_eq_bind,Option.bind_eq_some_iff,Option.some.injEq] at went
  obtain ⟨ctx,polled,ticked,clock,woke,wake,rfl⟩ := went
  have first := woken_system kept (poll_woken kept.sound room polled)
  obtain ⟨rfl,second,_⟩ := tick_kept first clock
  obtain ⟨ctx',checked,rfl,woken,third,chain,looked⟩ := timer_wake second room rfl wake
  refine ⟨kept_ctx third third.sound ?_ ?_ ?_,chain_ctx third chain _ fun _ _ runs => runs,rfl,rfl,rfl,rfl,looked,rfl⟩
  · intro out
    split at out <;> cases out
  · intro polled
    split at polled
    · cases polled
    · assumption
  · intro c waits
    obtain ⟨frame,waits⟩ := Option.ne_none_iff_exists'.mp waits
    exact (third.sleeps c frame waits).alive

-- What a task may do that is not asleep: a sleeper's node is placed where no other one is.
def Fits (s : System α (List α) (List (BitVec w)) w) : Action α w → Prop
  | .sleep milliseconds _ x => milliseconds < 2^31 ∧ ∀ c frame, s.waits c = some frame → frame.node ≠ x
  | _ => True

-- A node that is placed anew comes into the tree, with a time that is not up.
theorem join_kept (frame : Frame w) {node : BitVec w → HevTaskTimerNode α} {waits : α → Option (Frame w)} (kept : Kept live turns s) (chain : Chain s)
    (placed : ∀ y, y ≠ frame.node → node y = s.node y) (asleep : waits c = some frame) (others : ∀ d, d ≠ c → waits d = s.waits d)
    (task : (node frame.node).task = c) (carried : (node frame.node).expire.Carried)
    (due : (node frame.node).expire.value = frame.since.value+frame.milliseconds*1000000) (since : frame.since.value ≤ s.clock.value)
    (small : frame.milliseconds < 2^31) (late : s.checked.value < (node frame.node).expire.value)
    (fresh : ∀ d frame', s.waits d = some frame' → frame'.node ≠ frame.node)
    (off : s.waits c = none) (alive : c ∈ live) :
    let joined := {s with sortTree:=s.sortTree.orderedInsert (fun a b => sortKey node a < sortKey node b) frame.node,node:=node,waits:=waits}
    Kept live turns joined ∧ Chain joined := by
  intro joined
  have out : frame.node ∉ s.sortTree := by
    intro member
    obtain ⟨d,frame',waits,same⟩ := (kept.nodes frame.node).mp member
    exact fresh d frame' waits same
  have apart : ∀ y ∈ s.sortTree, y ≠ frame.node := fun y member same => out (same ▸ member)
  have keys : ∀ y ∈ s.sortTree, sortKey node y = sortKey s.node y := by
    intro y member
    simp only [sortKey,placed y (apart y member)]
  refine ⟨⟨kept.sound,kept.led,kept.polled,fun y => ?_,fun d frame' waits' => ?_,?_,?_,kept.clock,kept.checked⟩,fun y first due => ?_⟩
  · refine (List.mem_orderedInsert ..).trans ((or_congr_right (kept.nodes y)).trans ⟨?_,?_⟩)
    · rintro (rfl | ⟨d,frame',waits',same⟩)
      · exact ⟨c,frame,asleep,rfl⟩
      · have other : d ≠ c := fun equal => by simp [equal ▸ waits'] at off
        exact ⟨d,frame',(others d other).trans waits',same⟩
    · rintro ⟨d,frame',waits',rfl⟩
      by_cases equal : d = c
      · subst equal
        cases asleep.symm.trans waits'
        exact .inl rfl
      · exact .inr ⟨d,frame',(others d equal).symm.trans waits',rfl⟩
  · by_cases equal : d = c
    · subst equal
      cases asleep.symm.trans waits'
      exact ⟨task,alive,carried,due,since,small⟩
    · have before := (others d equal).symm.trans waits'
      have sleeps := kept.sleeps d frame' before
      have same : joined.node frame'.node = s.node frame'.node := placed frame'.node (fresh d frame' before)
      exact ⟨same ▸ sleeps.task,sleeps.alive,same ▸ sleeps.carried,same ▸ sleeps.due,sleeps.since,sleeps.small⟩
  · exact ((List.perm_orderedInsert ..).nodup_iff).mpr (List.nodup_cons.mpr ⟨out,kept.distinct⟩)
  · apply insert_sorted
    apply kept.sorted.imp_of_mem
    intro a b ha hb less
    rwa [keys a ha,keys b hb]
  · rcases insert_head first with rfl | head
    · exact absurd due (not_le.mpr late)
    · have same : joined.node y = s.node y := placed y (apart y (List.mem_of_mem_head? head))
      rw [same] at due ⊢
      exact chain y head due

omit [DecidableEq α] in
theorem returned_kept (kept : Kept live turns s) (remaining : α → Nat) : Kept live turns {s with remaining:=remaining} := by
  refine ⟨kept.sound,kept.led,kept.polled,kept.nodes,fun c frame waits => ?_,kept.distinct,kept.sorted,kept.clock,kept.checked⟩
  have sleeps := kept.sleeps c frame waits
  exact ⟨sleeps.task,sleeps.alive,sleeps.carried,sleeps.due,sleeps.since,sleeps.small⟩

-- Only with the first sleeper does the chain go.
theorem erase_kept (kept : Kept live turns s) (asleep : s.waits c = some frame) :
    let gone := {s with sortTree:=s.sortTree.erase frame.node,waits:=Function.update s.waits c none}
    Kept live turns gone ∧ (Chain s → s.sortTree.head? ≠ some frame.node → Chain gone) := by
  intro gone
  have inside : ∀ d frame', gone.waits d = some frame' ↔ d ≠ c ∧ s.waits d = some frame' := by
    intro d frame'
    change Function.update s.waits c none d = some frame' ↔ _
    rw [Function.update_apply]
    split
    · rename_i equal
      simp [equal]
    · rename_i other
      simp [other]
  have single : ∀ d frame', s.waits d = some frame' → frame'.node = frame.node → d = c := by
    intro d frame' waits same
    rw [← (kept.sleeps d frame' waits).task,← (kept.sleeps c frame asleep).task,same]
  refine ⟨⟨kept.sound,kept.led,kept.polled,fun y => ?_,fun d frame' waits => ?_,kept.distinct.erase _,kept.sorted.sublist List.erase_sublist,
    kept.clock,kept.checked⟩,
    fun chain behind y first due => ?_⟩
  · change y ∈ s.sortTree.erase frame.node ↔ _
    rw [kept.distinct.mem_erase_iff,kept.nodes]
    constructor
    · rintro ⟨apart,d,frame',waits,rfl⟩
      refine ⟨d,frame',(inside d frame').mpr ⟨?_,waits⟩,rfl⟩
      rintro rfl
      cases asleep.symm.trans waits
      exact apart rfl
    · rintro ⟨d,frame',waits,rfl⟩
      obtain ⟨other,waits⟩ := (inside d frame').mp waits
      exact ⟨fun same => other (single d frame' waits same),d,frame',waits,rfl⟩
  · have sleeps := kept.sleeps d frame' ((inside d frame').mp waits).2
    exact ⟨sleeps.task,sleeps.alive,sleeps.carried,sleeps.due,sleeps.since,sleeps.small⟩
  · apply chain y _ due
    cases nodes : s.sortTree with
    | nil => simp [gone,nodes] at first
    | cons z rest =>
      rw [nodes] at behind
      have apart : z ≠ frame.node := fun same => behind (by simp [same])
      have kept' : gone.sortTree = z::rest.erase frame.node := by
        change s.sortTree.erase frame.node = _
        rw [nodes,List.erase_cons_tail (by simpa using apart)]
      rw [kept'] at first
      exact first

theorem resume_kept (kept : Kept live turns s) (chain : Chain s) (room : Room turns) (current : s.ctx.currentTask = some c)
    (asleep : s.waits c = some frame) (went : resumeTask line line s now = some next) :
    Kept live turns next ∧ Chain next ∧ next.waits = Function.update s.waits c none ∧
      next.remaining = Function.update s.remaining c (hevTaskTimerGetTime now (s.node frame.node).expire) := by
  simp only [resumeTask,current,asleep,timerWaitLeave,Option.bind_eq_bind,Option.bind_some,Option.bind_eq_some_iff] at went
  obtain ⟨ticked,clock,sorted,erased,looked,look,finished⟩ := went
  cases finished
  obtain ⟨rfl,kept',_⟩ := tick_kept kept clock
  cases erased
  have chain' : Chain {s with clock:=now} := chain
  obtain ⟨gone,still⟩ := erase_kept (s:={s with clock:=now}) kept' asleep
  unfold wakeupNext at look
  split at look
  · obtain ⟨ctx,rfl,_,after,chained⟩ := timer_wakeup gone room rfl look
    exact ⟨returned_kept after _,chained,rfl,rfl⟩
  · rename_i behind
    cases look
    refine ⟨returned_kept gone _,still chain' ?_,rfl,rfl⟩
    intro first
    simp only [line,first,beq_self_eq_true,Bool.or_true,not_true_eq_false] at behind

theorem leave_sound {ctx ctx' : HevTaskSystemContext α (List α)} {type : SchedType} (sound : Sound live turns ctx) (led : Led ctx)
    (room : Room turns) (current : ctx.currentTask = some c) (went : leaveTask line ctx type = some ctx') :
    Sound (survivors live c type) (turns+1) ctx' ∧ ∀ d, d ≠ c → (ctx'.task d).state = (ctx.task d).state := by
  obtain ⟨rest,shape⟩ := led_shape led current
  cases leave_departed current shape went
  refine ⟨departed_sound sound room shape type,fun d other => ?_⟩
  rw [departed_state,if_neg other]

theorem survivors_member {type : SchedType} {d : α} (member : d ∈ live) (other : d ≠ c) : d ∈ survivors live c type := by
  cases type with
  | remove => exact (List.mem_erase_of_ne other).mpr member
  | switch => exact member
  | waitio => exact member

theorem survivors_less {type : SchedType} {d : α} (member : d ∈ survivors live c type) : d ∈ live := by
  cases type with
  | remove => exact List.mem_of_mem_erase member
  | switch => exact member
  | waitio => exact member

theorem left_kept {type : SchedType} (kept : Kept live turns s) (chain : Chain s) (room : Room turns) (here : s.phase = .out)
    (current : s.ctx.currentTask = some c) (off : s.waits c = none) (went : leaveTo line s type = some next) :
    Kept (survivors live c type) (turns+1) next ∧ Chain next ∧ next = {s with ctx:=next.ctx,phase:=.left} := by
  obtain ⟨ctx,left,rfl⟩ := Option.map_eq_some_iff.mp went
  obtain ⟨sound,others⟩ := leave_sound kept.sound (kept.led here) room current left
  have apart : ∀ d, s.waits d ≠ none → d ≠ c := fun d asleep same => asleep (same ▸ off)
  refine ⟨kept_ctx kept sound (by simp) (by simp) fun d asleep => ?_,chain_ctx kept chain .left fun d asleep runs => ?_,rfl⟩
  · obtain ⟨frame,waits⟩ := Option.ne_none_iff_exists'.mp asleep
    exact survivors_member (kept.sleeps d frame waits).alive (apart d asleep)
  · rw [others d (apart d asleep)]
    exact runs

theorem sleep_kept {milliseconds : Nat} (kept : Kept live turns s) (chain : Chain s) (room : Room turns) (here : s.phase = .out)
    (current : s.ctx.currentTask = some c) (off : s.waits c = none) (fits : Fits s (.sleep milliseconds now x))
    (went : hevTaskSleep line line s milliseconds now c x = some next) : ∃ turns' ≤ turns+1, Kept live turns' next ∧ Chain next := by
  unfold hevTaskSleep at went
  split at went
  · cases went
    exact ⟨turns,Nat.le_succ _,returned_kept kept _,chain⟩
  · rename_i positive
    simp only [Option.bind_eq_bind,Option.bind_eq_some_iff] at went
    obtain ⟨ticked,clock,entered,enter,left⟩ := went
    obtain ⟨rfl,kept',_⟩ := tick_kept kept clock
    simp only [timerWaitEnter,line,insert_by_cmp,Option.bind_eq_bind,Option.bind_some,Option.some.injEq] at enter
    subst enter
    obtain ⟨ctx,departs,rfl⟩ := Option.map_eq_some_iff.mp left
    have before : leaveTo line {s with clock:=now} .waitio = some {s with clock:=now,ctx:=ctx,phase:=.left} :=
      Option.map_eq_some_iff.mpr ⟨ctx,departs,rfl⟩
    obtain ⟨departed,chained,_⟩ := left_kept kept' chain room here current off before
    have carried := expire_carried kept'.clock milliseconds
    have value := expire_value now milliseconds
    refine ⟨turns+1,Nat.le_refl _,?_⟩
    have alive : c ∈ live := (kept.sound.alive c).mpr (by simp [(kept.sound.running c).mp (List.mem_of_mem_head? (kept.led here c current))])
    have late : s.checked.value < now.value+milliseconds*1000000 := by
      have checked : s.checked.value ≤ now.value := kept'.checked
      omega
    have own : Function.update s.node x ⟨hevTaskTimerGetExpire now milliseconds,c⟩ x = ⟨hevTaskTimerGetExpire now milliseconds,c⟩ :=
      Function.update_self ..
    refine join_kept ⟨x,_,milliseconds,now⟩ departed chained (fun y apart => Function.update_of_ne apart ..) (Function.update_self ..)
      (fun d other => Function.update_of_ne other ..) (congrArg HevTaskTimerNode.task own) ?_ ?_ (Int.le_refl _) fits.1 ?_ fits.2 off alive
    · rw [own]
      exact carried
    · rw [own]
      exact value
    · rw [own]
      exact value ▸ late

def Action.leaves : Action α w → Nat
  | .yield _ | .exit | .sleep .. => 1
  | _ => 0

def partings : List (Action α w) → Nat
  | [] => 0
  | e::actions => e.leaves+partings actions

omit [DecidableEq α] in
theorem awake_cases (free : awake s = true) : s.phase = .out ∧ ∀ c, s.ctx.currentTask = some c → s.waits c = none := by
  simp only [awake,Bool.and_eq_true,beq_iff_eq] at free
  refine ⟨free.1,fun c current => ?_⟩
  have none_ := free.2
  rw [current] at none_
  exact Option.isNone_iff_eq_none.mp none_

omit [DecidableEq α] in
theorem on_task {call : α → Option (System α (List α) (List (BitVec w)) w)} (went : onTask s call = some next) :
    ∃ c, s.phase = .out ∧ s.ctx.currentTask = some c ∧ s.waits c = none ∧ call c = some next := by
  unfold onTask at went
  split at went
  · rename_i free
    obtain ⟨c,current,went⟩ := Option.bind_eq_some_iff.mp went
    exact ⟨c,(awake_cases free).1,current,(awake_cases free).2 c current,went⟩
  · cases went

theorem pick_kept (kept : Kept live turns s) (chain : Chain s) (went : pickTask line s = some next) : Kept live turns next ∧ Chain next := by
  obtain ⟨x,first,rfl⟩ := Option.map_eq_some_iff.mp went
  have sound : Sound live turns {s.ctx with currentTask:=some x} :=
    let old := kept.sound
    ⟨old.running,old.distinct,old.sorted,old.count,old.alive,old.apart,old.total,old.priority,old.idle,old.front,old.bounded⟩
  refine ⟨kept_ctx kept sound (fun _ y same => ?_) (by simp) fun c asleep => ?_,chain_ctx kept chain .out fun _ _ runs => runs⟩
  · cases same
    exact first
  · obtain ⟨frame,waits⟩ := Option.ne_none_iff_exists'.mp asleep
    exact (kept.sleeps c frame waits).alive

theorem act_kept {e : Action α w} (kept : Kept live turns s) (chain : Chain s) (room : Room turns) (fits : Fits s e)
    (went : act line line s e = some next) :
    ∃ live', (∀ d ∈ live', d ∈ live ∨ e = .run d) ∧ ∃ turns' ≤ turns+e.leaves, Kept live' turns' next ∧ Chain next := by
  have alive : ∀ d, s.waits d ≠ none → d ∈ live := by
    intro d asleep
    obtain ⟨frame,waits⟩ := Option.ne_none_iff_exists'.mp asleep
    exact (kept.sleeps d frame waits).alive
  cases e with
  | run x =>
    simp only [act,Option.ite_none_right_eq_some,Option.map_eq_some_iff] at went
    obtain ⟨free,ctx,ran,rfl⟩ := went
    have here := (awake_cases free).1
    obtain ⟨led,_,⟨rfl,_⟩ | ⟨fresh,sound,k,total,rfl,_⟩⟩ := run_sound kept.sound (kept.led here) room ran
    · exact ⟨live,fun _ => .inl,turns,Nat.le_refl _,kept,chain⟩
    · refine ⟨x::live,fun d member => (List.mem_cons.mp member).elim (fun same => .inr (same ▸ rfl)) .inl,turns,Nat.le_refl _,
        kept_ctx kept sound (fun _ => led) (by simp [here]) fun d asleep => List.mem_cons_of_mem _ (alive d asleep),
        chain_ctx kept chain _ fun d asleep runs => ?_⟩
      have apart : d ≠ x := fun same => fresh (same ▸ alive d asleep)
      change (Function.update s.ctx.task x _ d).state = .running
      rwa [Function.update_of_ne apart]
  | setPriority x priority =>
    simp only [act,Option.ite_none_right_eq_some,Option.some.injEq] at went
    obtain ⟨free,rfl⟩ := went
    have sound := priority_sound kept.sound x priority
    refine ⟨live,fun _ => .inl,turns,Nat.le_refl _,kept_ctx kept sound (kept.led ·) (kept.polled ·) alive,chain_ctx kept chain _ fun d _ runs => ?_⟩
    simp only [hevTaskSetPriority,HevTaskSystemContext.put,Function.update_apply]
    split
    · rename_i same
      exact same ▸ runs
    · exact runs
  | wakeup x =>
    simp only [act,Option.ite_none_right_eq_some,Option.map_eq_some_iff] at went
    obtain ⟨free,ctx,woke,rfl⟩ := went
    have woken := wakeup_woken kept.sound room woke
    exact ⟨live,fun _ => .inl,turns,Nat.le_refl _,woken_system kept woken,chain_ctx kept chain _ fun d _ runs => woken_ready woken runs⟩
  | start =>
    simp only [act,Option.ite_none_right_eq_some,Option.some.injEq] at went
    obtain ⟨free,rfl⟩ := went
    exact ⟨live,fun _ => .inl,turns,Nat.le_refl _,kept_ctx kept kept.sound (by simp) (by simp) alive,chain_ctx kept chain _ fun _ _ runs => runs⟩
  | yield type =>
    obtain ⟨c,here,current,off,left⟩ := on_task went
    obtain ⟨after,chained,_⟩ := left_kept kept chain room here current off left
    exact ⟨_,fun d member => .inl (survivors_less member),turns+1,Nat.le_refl _,after,chained⟩
  | exit =>
    obtain ⟨c,here,current,off,left⟩ := on_task went
    obtain ⟨after,chained,_⟩ := left_kept kept chain room here current off left
    exact ⟨_,fun d member => .inl (survivors_less member),turns+1,Nat.le_refl _,after,chained⟩
  | sleep milliseconds now x =>
    obtain ⟨c,here,current,off,slept⟩ := on_task went
    obtain ⟨turns',few,after⟩ := sleep_kept kept chain room here current off fits slept
    exact ⟨live,fun _ => .inl,turns',few,after⟩
  | resume now =>
    simp only [act,Option.ite_none_right_eq_some] at went
    obtain ⟨_,resumed⟩ := went
    have parts := resumed
    simp only [resumeTask,Option.bind_eq_bind,Option.bind_eq_some_iff] at parts
    obtain ⟨c,current,frame,asleep,_⟩ := parts
    obtain ⟨after,chained,_⟩ := resume_kept kept chain room current asleep resumed
    exact ⟨live,fun _ => .inl,turns,Nat.le_refl _,after,chained⟩
  | poll events now =>
    simp only [act,Option.ite_none_right_eq_some] at went
    obtain ⟨after,chained,_⟩ := poll_kept kept room went.2
    exact ⟨live,fun _ => .inl,turns,Nat.le_refl _,after,chained⟩
  | enter =>
    unfold act at went
    cases here : s.phase with
    | out =>
      rw [here] at went
      cases went
    | polled =>
      rw [here] at went
      exact ⟨live,fun _ => .inl,turns,Nat.le_refl _,pick_kept kept chain went⟩
    | left =>
      rw [here] at went
      simp only at went
      split at went
      · cases went
        refine ⟨live,fun _ => .inl,turns,Nat.le_refl _,kept_ctx kept ?_ (fun _ y same => by cases same) (by simp) alive,
          chain_ctx kept chain .out fun _ _ runs => runs⟩
        let old := kept.sound
        exact ⟨old.running,old.distinct,old.sorted,old.count,old.alive,old.apart,old.total,old.priority,old.idle,old.front,old.bounded⟩
      · split at went
        · cases went
        · exact ⟨live,fun _ => .inl,turns,Nat.le_refl _,pick_kept kept chain went⟩

omit [DecidableEq α] in
theorem init_kept (clock : Timespec) (node : BitVec w → HevTaskTimerNode α) (normal : clock.Normal) :
    Kept [] 0 (systemInit clock node : ListSystem α w) ∧ Chain (systemInit clock node : ListSystem α w) := by
  refine ⟨⟨init_sound,fun _ y same => ?_,?_,fun y => ?_,fun c frame waits => ?_,List.nodup_nil,.nil,normal,Int.le_refl _⟩,fun y first => ?_⟩
  · cases same
  · simp [systemInit]
  · simp [systemInit]
  · simp [systemInit] at waits
  · cases first

theorem actions_kept {actions : List (Action α w)} (kept : Kept live turns s) (chain : Chain s) (room : Room (turns+partings actions))
    (fits : Runs.Along (act line line) Fits s actions) (went : Runs.exec (act line line) s actions = some next) :
    ∃ live', ∃ turns' ≤ turns+partings actions, Kept live' turns' next ∧ Chain next := by
  induction actions generalizing s live turns with
  | nil =>
    cases went
    exact ⟨live,turns,Nat.le_refl _,kept,chain⟩
  | cons e actions ih =>
    obtain ⟨middle,first,rest⟩ := Runs.exec_cons went
    rw [partings] at room ⊢
    obtain ⟨live',_,turns',few,after,chained⟩ := act_kept kept chain (room_less room (by omega)) fits.1 first
    obtain ⟨live'',turns'',fewer,last⟩ := ih after chained (room_less room (by omega)) (fits.2 middle first) rest
    exact ⟨live'',turns'',by omega,last⟩

section Kept
variable {curr : Timespec}

omit [DecidableEq α] in
theorem first_due (kept : Kept live turns s) {x y : BitVec w} (first : s.sortTree.head? = some x) (member : y ∈ s.sortTree) :
    (s.node x).expire.value ≤ (s.node y).expire.value := by
  have carried : ∀ z ∈ s.sortTree, (s.node z).expire.Carried := by
    intro z inside
    obtain ⟨c,frame,waits,rfl⟩ := (kept.nodes z).mp inside
    exact (kept.sleeps c frame waits).carried
  have here := List.mem_of_mem_head? first
  cases nodes : s.sortTree with
  | nil => simp [nodes] at member
  | cons z rest =>
    have sorted := kept.sorted
    rw [nodes] at first member sorted
    cases first
    rcases List.mem_cons.mp member with rfl | later
    · exact Int.le_refl _
    · exact key_value (carried _ here) (carried y (by simp [nodes,later])) ((List.pairwise_cons.mp sorted).1 y later)

omit [DecidableEq α] in
theorem idle_early (kept : Kept live turns s) (chain : Chain s) (idle : s.ctx.runningTaskCount = 0) {x : BitVec w} (member : x ∈ s.sortTree) :
    s.checked.value < (s.node x).expire.value := by
  obtain ⟨y,first⟩ : ∃ y, s.sortTree.head? = some y := by
    cases nodes : s.sortTree with
    | nil => simp [nodes] at member
    | cons y rest => exact ⟨y,rfl⟩
  apply lt_of_lt_of_le _ (first_due kept first member)
  apply not_le.mp
  intro due
  have ready := (kept.sound.running _).mpr (chain y first due)
  rw [kept.sound.count] at idle
  rw [List.length_eq_zero_iff.mp idle] at ready
  cases ready

omit [DecidableEq α] in
theorem timeout_exact (kept : Kept live turns s) (normal : curr.Normal) (later : s.clock.value ≤ curr.value) :
    (s.sortTree = [] ∧ hevTaskTimerGetTimeout line s curr = -1) ∨
    ∃ x, s.sortTree.head? = some x ∧ 0 ≤ hevTaskTimerGetTimeout line s curr ∧
      (s.node x).expire.value ≤ curr.value+hevTaskTimerGetTimeout line s curr*1000000 ∧
      (0 < hevTaskTimerGetTimeout line s curr → curr.value+(hevTaskTimerGetTimeout line s curr-1)*1000000 < (s.node x).expire.value) := by
  cases first : s.sortTree.head? with
  | none =>
    refine .inl ⟨List.head?_eq_none_iff.mp first,?_⟩
    simp only [hevTaskTimerGetTimeout,line,first]
  | some x =>
    obtain ⟨frame,_,rfl,sleeps⟩ := first_sleeper kept first
    have due := sleeps.due
    have since := sleeps.since
    have small := sleeps.small
    obtain ⟨bound,above,below⟩ := time_exact normal sleeps.carried (by omega)
    have same : hevTaskTimerGetTimeout line s curr = hevTaskTimerGetTime curr (s.node frame.node).expire := by
      simp only [hevTaskTimerGetTimeout,line,first]
      rw [BitVec.toInt_eq_toNat_of_lt (by simp only [BitVec.toNat_ofNat]; omega),BitVec.toNat_ofNat,Nat.mod_eq_of_lt (by omega)]
    rw [same]
    refine .inr ⟨_,rfl,by omega,above,fun positive => ?_⟩
    exact below (by omega)

end Kept

-- After any run of tasks that sleep, wake each other up and come and go: the timer's tree holds
-- one node for each sleeper, by their deadlines; while one is reached, the first sleeper is ready,
-- so that with no task ready all of them are still ahead, and a poll for the timer's timeout ends that.
theorem sleepers_woken (start : Timespec) {node : BitVec w → HevTaskTimerNode α} {actions : List (Action α w)} (normal : start.Normal)
    (room : 15*(partings actions+3) < 2^64) (fits : Runs.Along (act line line) Fits (systemInit start node) actions)
    (went : Runs.exec (act line line) (systemInit start node) actions = some s) :
    (∀ x, x ∈ s.sortTree ↔ ∃ frame, s.waits (s.node x).task = some frame ∧ frame.node = x) ∧ s.sortTree.Nodup ∧
    s.sortTree.Pairwise (fun x y => (s.node x).expire.value ≤ (s.node y).expire.value) ∧
    (∀ x ∈ s.sortTree, (s.node x).expire.value ≤ s.checked.value →
      ∃ y, s.sortTree.head? = some y ∧ (s.node y).expire.value ≤ (s.node x).expire.value ∧ (s.ctx.task (s.node y).task).state = .running) ∧
    (s.ctx.runningTaskCount = 0 → ∀ x ∈ s.sortTree, s.checked.value < (s.node x).expire.value) ∧
    ∀ curr events now next, curr.Normal → s.clock.value ≤ curr.value → s.sortTree ≠ [] →
      curr.value+hevTaskTimerGetTimeout line s curr*1000000 ≤ now.value → act line line s (.poll events now) = some next → next.phase = .polled := by
  have small : Room (0+partings actions) := by
    unfold Room hevTaskPriorityMax
    omega
  obtain ⟨live,turns,few,kept,chain⟩ := actions_kept (init_kept start node normal).1 (init_kept start node normal).2 small fits went
  have carried : ∀ x ∈ s.sortTree, (s.node x).expire.Carried := by
    intro x member
    obtain ⟨c,frame,waits,rfl⟩ := (kept.nodes x).mp member
    exact (kept.sleeps c frame waits).carried
  refine ⟨fun x => ⟨fun member => ?_,?_⟩,kept.distinct,?_,fun x member due => ?_,fun idle x member => idle_early kept chain idle member,?_⟩
  · obtain ⟨c,frame,waits,rfl⟩ := (kept.nodes x).mp member
    exact ⟨frame,(kept.sleeps c frame waits).task ▸ waits,rfl⟩
  · rintro ⟨frame,waits,same⟩
    exact (kept.nodes x).mpr ⟨_,frame,waits,same⟩
  · apply kept.sorted.imp_of_mem
    intro x y hx hy less
    exact key_value (carried x hx) (carried y hy) less
  · obtain ⟨y,first⟩ : ∃ y, s.sortTree.head? = some y := by
      cases nodes : s.sortTree with
      | nil => simp [nodes] at member
      | cons y rest => exact ⟨y,rfl⟩
    have early := first_due kept first member
    exact ⟨y,first,early,chain y first (early.trans due)⟩
  · intro curr events now next fine later some_ waited went
    simp only [act,Option.ite_none_right_eq_some] at went
    obtain ⟨after,chained,tree,nodes,_,phase,looked,_⟩ := poll_kept kept (room_less small (by omega)) went.2
    rcases timeout_exact kept fine later with ⟨none_,_⟩ | ⟨x,first,_,reached,_⟩
    · exact absurd none_ some_
    · have ready := chained x (tree ▸ first) (by rw [nodes,looked some_]; omega)
      have inside := (after.sound.running _).mpr ready
      rw [phase,if_neg]
      rw [after.sound.count]
      intro none_
      rw [List.length_eq_zero_iff.mp none_] at inside
      cases inside

-- A sleep that is left, by its deadline or a wakeup before, returns 0 just when its time is over,
-- else the rest, which is no more than it was called with; and the timeout of a poll is the time
-- to the first deadline, rounded up to milliseconds, or -1 without a sleeper.
theorem sleeps_timed (start : Timespec) {node : BitVec w → HevTaskTimerNode α} {actions : List (Action α w)} (normal : start.Normal)
    (room : 15*(partings actions+3) < 2^64) (fits : Runs.Along (act line line) Fits (systemInit start node) actions)
    (went : Runs.exec (act line line) (systemInit start node) actions = some s) :
    (∀ c frame now next, s.ctx.currentTask = some c → s.waits c = some frame → act line line s (.resume now) = some next →
      next.waits c = none ∧ (next.remaining c = 0 ↔ frame.since.value+frame.milliseconds*1000000 ≤ now.value) ∧
      next.remaining c ≤ frame.milliseconds ∧ frame.since.value+frame.milliseconds*1000000 ≤ now.value+next.remaining c*1000000) ∧
    ∀ curr, curr.Normal → s.clock.value ≤ curr.value →
      (s.sortTree = [] ∧ hevTaskTimerGetTimeout line s curr = -1) ∨
      ∃ x, s.sortTree.head? = some x ∧ 0 ≤ hevTaskTimerGetTimeout line s curr ∧
        (s.node x).expire.value ≤ curr.value+hevTaskTimerGetTimeout line s curr*1000000 ∧
        (0 < hevTaskTimerGetTimeout line s curr → curr.value+(hevTaskTimerGetTimeout line s curr-1)*1000000 < (s.node x).expire.value) := by
  have small : Room (0+partings actions) := by
    unfold Room hevTaskPriorityMax
    omega
  obtain ⟨live,turns,few,kept,chain⟩ := actions_kept (init_kept start node normal).1 (init_kept start node normal).2 small fits went
  refine ⟨fun c frame now next current asleep went => ?_,fun curr fine later => timeout_exact kept fine later⟩
  simp only [act,Option.ite_none_right_eq_some] at went
  have parts := went.2
  simp only [resumeTask,current,asleep,Option.bind_eq_bind,Option.bind_some,Option.bind_eq_some_iff] at parts
  obtain ⟨ticked,clock,_⟩ := parts
  obtain ⟨rfl,kept',later⟩ := tick_kept kept clock
  obtain ⟨_,_,waits,remaining⟩ := resume_kept kept chain (room_less small (by omega)) current asleep went.2
  have sleeps := kept.sleeps c frame asleep
  have due := sleeps.due
  have since := sleeps.since
  have short := sleeps.small
  have fine : now.Normal := kept'.clock
  obtain ⟨_,above,below⟩ := time_exact fine sleeps.carried (by omega)
  rw [waits,remaining,Function.update_self,Function.update_self]
  refine ⟨rfl,?_,?_,?_⟩
  · constructor
    · intro zero
      omega
    · intro over_
      by_contra positive
      have := below (by omega)
      omega
  · by_contra more
    have := below (by omega)
    omega
  · omega

def twoSleepers : List (Action (BitVec 64) 64) :=
  [.run 32,.run 64,.start,.enter,.sleep 5 ⟨7,0⟩ 8,.poll [] ⟨7,0⟩,.enter,.sleep 2 ⟨7,999000000⟩ 16,.poll [] ⟨8,1000000⟩,.enter]

def readyTime : ListSystem (BitVec 64) 64 := systemInit ⟨0,0⟩ fun _ => ⟨⟨0,0⟩,0⟩

theorem two_fit : Runs.Along (act line line) Fits readyTime twoSleepers := by
  refine ⟨trivial,fun s went => ?_⟩
  cases went
  refine ⟨trivial,fun s went => ?_⟩
  cases went
  refine ⟨trivial,fun s went => ?_⟩
  cases went
  refine ⟨trivial,fun s went => ?_⟩
  cases went
  refine ⟨⟨by decide,fun c frame waits => by cases waits⟩,fun s went => ?_⟩
  cases went
  refine ⟨trivial,fun s went => ?_⟩
  cases went
  refine ⟨trivial,fun s went => ?_⟩
  cases went
  refine ⟨⟨by decide,fun c frame waits => ?_⟩,fun s went => ?_⟩
  · change Function.update (fun _ => none) 32 (some (⟨8,true,5,⟨7,0⟩⟩ : Frame 64)) c = some frame at waits
    rw [Function.update_apply] at waits
    split at waits
    · cases waits
      decide
    · cases waits
  cases went
  refine ⟨trivial,fun s went => ?_⟩
  cases went
  exact ⟨trivial,fun s went => trivial⟩

theorem two_woken : ∃ s, Runs.exec (act line line) readyTime twoSleepers = some s ∧ s.sortTree = [8,16] ∧
    ∃ y, s.sortTree.head? = some y ∧ (s.node y).expire.value ≤ (s.node 16).expire.value ∧ (s.ctx.task (s.node y).task).state = .running := by
  refine ⟨_,rfl,rfl,?_⟩
  have woken := sleepers_woken ⟨0,0⟩ ⟨by decide,by decide⟩ (by decide) two_fit rfl
  exact woken.2.2.2.1 16 (by decide) (by decide)

theorem two_timed : ∃ s next, Runs.exec (act line line) readyTime twoSleepers = some s ∧ s.ctx.currentTask = some 32 ∧
    act line line s (.resume ⟨8,2000000⟩) = some next ∧ next.remaining 32 ≤ 5 ∧ next.remaining 32 = 0 := by
  refine ⟨_,_,rfl,rfl,rfl,?_⟩
  have timed := (sleeps_timed ⟨0,0⟩ ⟨by decide,by decide⟩ (by decide) two_fit rfl).1 32 ⟨8,true,5,⟨7,0⟩⟩ ⟨8,2000000⟩ _ rfl rfl rfl
  exact ⟨timed.2.2.1,timed.2.1.mpr (by decide)⟩

end Psocks.Schedule
