import Mathlib.Data.List.Basic

namespace Psocks.Runs
variable {σ ε : Type} {step : σ → ε → Option σ} {s next : σ} {events : List ε}

-- A system that takes one labelled step after another; a step that is not
-- possible ends the run without a state.
def exec (step : σ → ε → Option σ) (s : σ) : List ε → Option σ
  | [] => some s
  | e::rest => (step s e).bind (exec step · rest)

-- Every step the run takes meets `ok` in the state it is taken in.
def Along (step : σ → ε → Option σ) (ok : σ → ε → Prop) (s : σ) : List ε → Prop
  | [] => True
  | e::rest => ok s e ∧ ∀ next, step s e = some next → Along step ok next rest

-- Every state the run reaches meets `inv`.
def Throughout (step : σ → ε → Option σ) (inv : σ → Prop) (s : σ) : List ε → Prop
  | [] => inv s
  | e::rest => inv s ∧ ∀ next, step s e = some next → Throughout step inv next rest

theorem throughout_first {inv : σ → Prop} (all : Throughout step inv s events) : inv s := by
  cases events with
  | nil => exact all
  | cons e rest => exact all.1

-- Where a step keeps the invariant exactly when it meets `ok`, a run keeps it exactly
-- when all its steps do. `base` is what every step keeps from such a state.
theorem throughout_within {base inv : σ → Prop} {ok : σ → ε → Prop}
    (kept : ∀ s e next, base s → inv s → step s e = some next → base next)
    (exact_ : ∀ s e next, base s → inv s → step s e = some next → (inv next ↔ ok s e))
    (stuck : ∀ s e, base s → inv s → step s e = none → ok s e) (here : base s) (before : inv s) :
    Throughout step inv s events ↔ Along step ok s events := by
  induction events generalizing s with
  | nil => exact ⟨fun _ => trivial,fun _ => before⟩
  | cons e rest ih =>
    constructor
    · intro all
      refine ⟨?_,fun next went => ?_⟩
      · cases went : step s e with
        | none => exact stuck s e here before went
        | some next => exact (exact_ s e next here before went).mp (throughout_first (all.2 next went))
      · have later := all.2 next went
        exact (ih (kept s e next here before went) (throughout_first later)).mp later
    · intro along
      exact ⟨before,fun next went =>
        (ih (kept s e next here before went) ((exact_ s e next here before went).mpr along.1)).mpr (along.2 next went)⟩

theorem throughout_along {inv : σ → Prop} {ok : σ → ε → Prop}
    (exact_ : ∀ s e next, inv s → step s e = some next → (inv next ↔ ok s e))
    (stuck : ∀ s e, inv s → step s e = none → ok s e) (before : inv s) :
    Throughout step inv s events ↔ Along step ok s events :=
  @throughout_within _ _ _ _ _ (fun _ => True) _ _ (fun _ _ _ _ _ _ => trivial) (fun s e next _ => exact_ s e next)
    (fun s e _ => stuck s e) trivial before

instance decAlong (step : σ → ε → Option σ) (ok : σ → ε → Prop) [∀ s e, Decidable (ok s e)] :
    ∀ (s : σ) (events : List ε), Decidable (Along step ok s events)
  | _, [] => .isTrue trivial
  | s, e::rest =>
    have _later := fun next => decAlong step ok next rest
    inferInstanceAs (Decidable (ok s e ∧ ∀ next ∈ step s e, Along step ok next rest))

theorem exec_cons (went : exec step s (e::rest) = some next) :
    ∃ middle, step s e = some middle ∧ exec step middle rest = some next :=
  Option.bind_eq_some_iff.mp went

theorem exec_append (a b : List ε) : exec step s (a++b) = (exec step s a).bind (exec step · b) := by
  induction a generalizing s with
  | nil => rfl
  | cons e rest ih =>
    simp only [List.cons_append,exec]
    cases step s e with
    | none => rfl
    | some middle => exact ih

theorem along_all {ok : σ → ε → Prop} (all : ∀ e ∈ events, ∀ s, ok s e) : Along step ok s events := by
  induction events generalizing s with
  | nil => trivial
  | cons e rest ih => exact ⟨all e (by simp) s,fun _ _ => ih fun d member => all d (List.mem_cons_of_mem _ member)⟩

-- Conditions that say the same wherever a run of such events can come.
theorem along_iff (inv : σ → Prop) {p q : σ → ε → Prop} {fits : ε → Prop}
    (preserved : ∀ s e next, inv s → fits e → step s e = some next → inv next)
    (same : ∀ s e, inv s → (p s e ↔ q s e)) (before : inv s) (all : ∀ e ∈ events, fits e) :
    Along step p s events ↔ Along step q s events := by
  induction events generalizing s with
  | nil => exact Iff.rfl
  | cons e rest ih =>
    obtain ⟨first,later⟩ := List.forall_mem_cons.mp all
    apply and_congr (same s e before)
    apply forall_congr'
    intro next
    apply forall_congr'
    intro went
    exact ih (preserved s e next before first went) later

theorem exec_along (inv : σ → Prop) {ok : σ → ε → Prop}
    (preserved : ∀ s e next, inv s → ok s e → step s e = some next → inv next)
    (before : inv s) (along : Along step ok s events) (went : exec step s events = some next) : inv next := by
  induction events generalizing s with
  | nil => cases Option.some.inj went; exact before
  | cons e rest ih =>
    obtain ⟨middle,first,later⟩ := exec_cons went
    exact ih (preserved s e middle before along.1 first) (along.2 middle first) later

theorem exec_invariant (inv : σ → Prop) (preserved : ∀ s e next, inv s → step s e = some next → inv next)
    (before : inv s) (went : exec step s events = some next) : inv next := by
  induction events generalizing s with
  | nil => cases Option.some.inj went; exact before
  | cons e rest ih =>
    obtain ⟨middle,first,later⟩ := exec_cons went
    exact ih (preserved s e middle before first) later

theorem exec_constant (value : σ → α) (kept : ∀ s e next, step s e = some next → value next = value s)
    (went : exec step s events = some next) : value next = value s :=
  exec_invariant (fun x => value x = value s) (fun s e next same first => (kept s e next first).trans same) rfl went

theorem throughout_kept {base inv : σ → Prop} {ok : σ → ε → Prop}
    (preserved : ∀ s e next, base s → ok s e → step s e = some next → base next) (gives : ∀ s, base s → inv s)
    (before : base s) (along : Along step ok s events) : Throughout step inv s events := by
  induction events generalizing s with
  | nil => exact gives s before
  | cons e rest ih =>
    exact ⟨gives s before,fun next went => ih (preserved s e next before along.1 went) (along.2 next went)⟩

-- Steps that do not disable each other, in either order with the same outcome.
def Commutes (step : σ → ε → Option σ) : Prop :=
  ∀ s a b x y, a ≠ b → step s a = some x → step s b = some y → ∃ z, step x b = some z ∧ step y a = some z

def Stuck (step : σ → ε → Option σ) (s : σ) : Prop := ∀ e, step s e = none

-- A step that a run to the end did not start with can be taken first.
theorem exec_detour (commutes : Commutes step) (stuck : Stuck step last) (went : exec step s path = some last)
    (first : step s e = some next) : ∃ rest, exec step next rest = some last ∧ rest.length+1 = path.length := by
  induction path generalizing s next with
  | nil =>
    cases Option.some.inj went
    rw [stuck e] at first
    cases first
  | cons d path ih =>
    obtain ⟨middle,step_,later⟩ := exec_cons went
    by_cases same : d = e
    · subst same
      cases Option.some.inj (step_.symm.trans first)
      exact ⟨path,later,rfl⟩
    · obtain ⟨join,left,right⟩ := commutes s d e middle next same step_ first
      obtain ⟨rest,ends,size⟩ := ih later left
      refine ⟨d::rest,?_,by simp [size]⟩
      rw [exec,right]
      exact ends

-- Where one run gets to an end, every run can be completed to this end, and all complete
-- runs are of one length.
theorem exec_complete (commutes : Commutes step) (stuck : Stuck step last) (went : exec step s path = some last)
    (run : exec step s events = some next) : ∃ rest, exec step next rest = some last ∧ events.length+rest.length = path.length := by
  induction events generalizing s path with
  | nil =>
    cases Option.some.inj run
    exact ⟨path,went,by simp⟩
  | cons e events ih =>
    obtain ⟨middle,step_,later⟩ := exec_cons run
    obtain ⟨rest,ends,size⟩ := exec_detour commutes stuck went step_
    obtain ⟨more,last_,count⟩ := ih ends later
    exact ⟨more,last_,by rw [List.length_cons,← size]; omega⟩

theorem exec_ends (commutes : Commutes step) (stuck : Stuck step last) (went : exec step s path = some last)
    (run : exec step s events = some next) (over_ : Stuck step next) : next = last := by
  obtain ⟨rest,ends,_⟩ := exec_complete commutes stuck went run
  cases rest with
  | nil => exact Option.some.inj ends
  | cons e rest =>
    obtain ⟨middle,step_,_⟩ := exec_cons ends
    rw [over_ e] at step_
    cases step_

end Psocks.Runs
