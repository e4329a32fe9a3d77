import Mathlib.Data.List.Induction
import Mathlib.Logic.Function.Basic

namespace Psocks.Variables

-- An assignment to a variable of a program: of a value, or of a function of the value
-- it has.
inductive Write {ι : Type} (τ : ι → Type) where
  | set (v : ι) (x : τ v)
  | map (v : ι) (f : τ v → τ v)

variable {ι : Type} [DecidableEq ι] {τ ω : ι → Type} {fresh s t : (v : ι) → τ v} {v : ι} {writes later : List (Write τ)}

def Write.apply (w : Write τ) (s : (v : ι) → τ v) : (v : ι) → τ v :=
  match w with
  | .set v x => Function.update s v x
  | .map v f => Function.update s v (f (s v))

def run (writes : List (Write τ)) (s : (v : ι) → τ v) : (v : ι) → τ v := writes.foldl (fun s w => w.apply s) s

-- The last value assigned to the variable.
def given (writes : List (Write τ)) (v : ι) : Option (τ v) :=
  writes.foldl (fun last w => match w with
    | .set u x => if same : u = v then some (same ▸ x) else last
    | .map _ _ => last) none

-- `see` is what can be seen of a variable. Functions do not bring values together that
-- look different, do not tell apart values that look the same, and keep the initial one.
def Tame (see : (v : ι) → τ v → ω v) (fresh : (v : ι) → τ v) (w : Write τ) : Prop :=
  match w with
  | .set _ _ => True
  | .map v f => f (fresh v) = fresh v ∧ ∀ x y, see v (f x) = see v (f y) ↔ see v x = see v y

theorem run_append (a b : List (Write τ)) (s : (v : ι) → τ v) : run (a++b) s = run b (run a s) := List.foldl_append

-- What the writes make of a variable: from the value given last, or else the one it had.
theorem run_given {see : (v : ι) → τ v → ω v} (tame : ∀ w ∈ writes, Tame see fresh w) (v : ι) :
    ∃ f : τ v → τ v, f (fresh v) = fresh v ∧ (∀ x y, see v (f x) = see v (f y) ↔ see v x = see v y) ∧
      ∀ s, run writes s v = f ((given writes v).getD (s v)) := by
  induction writes using List.reverseRecOn with
  | nil => exact ⟨id,rfl,fun _ _ => Iff.rfl,fun _ => rfl⟩
  | append_singleton writes w ih =>
    obtain ⟨f,keeps,tells,runs⟩ := ih fun u member => tame u (List.mem_append_left _ member)
    have last := tame w (by simp)
    cases w with
    | set u x =>
      by_cases same : u = v
      · subst same
        refine ⟨id,rfl,fun _ _ => Iff.rfl,fun s => ?_⟩
        simp [run,given,Write.apply]
      · refine ⟨f,keeps,tells,fun s => ?_⟩
        have other : run (writes++[.set u x]) s v = run writes s v := by
          rw [run_append]
          exact Function.update_of_ne (Ne.symm same) _ _
        rw [other,runs]
        simp [given,same]
    | map u g =>
      by_cases same : u = v
      · subst same
        refine ⟨g ∘ f,?_,fun x y => (last.2 _ _).trans (tells x y),fun s => ?_⟩
        · rw [Function.comp_apply,keeps,last.1]
        · have here : run (writes++[.map u g]) s u = g (run writes s u) := by
            rw [run_append]
            exact Function.update_self _ _ _
          rw [here,runs]
          simp [given]
      · refine ⟨f,keeps,tells,fun s => ?_⟩
        have other : run (writes++[.map u g]) s v = run writes s v := by
          rw [run_append]
          exact Function.update_of_ne (Ne.symm same) _ _
        rw [other,runs]
        simp [given]

def Write.Maps (w : Write τ) (v : ι) : Prop :=
  match w with
  | .set _ _ => False
  | .map u _ => u = v

theorem run_unmapped (unmapped : ∀ w ∈ writes, ¬w.Maps v) (s : (v : ι) → τ v) :
    run writes s v = (given writes v).getD (s v) := by
  induction writes using List.reverseRecOn with
  | nil => rfl
  | append_singleton writes w ih =>
    have before := ih fun u member => unmapped u (List.mem_append_left _ member)
    have last := unmapped w (by simp)
    rw [run_append]
    cases w with
    | set u x =>
      by_cases same : u = v
      · subst same
        simp [run,given,Write.apply]
      · have other : run [.set u x] (run writes s) v = run writes s v := Function.update_of_ne (Ne.symm same) _ _
        rw [other,before]
        simp [given,same]
    | map u g =>
      have other : run [.map u g] (run writes s) v = run writes s v := Function.update_of_ne (Ne.symm last) _ _
      rw [other,before]
      simp [given]

-- Two programs one after the other against the second alone: it writes the variable
-- itself, or the first leaves it looking as at the start.
theorem rerun_exact {see : (v : ι) → τ v → ω v} {first second : List (Write τ)} (one : ∀ w ∈ first, Tame see fresh w)
    (two : ∀ w ∈ second, Tame see fresh w) (v : ι) :
    see v (run second (run first fresh) v) = see v (run second fresh v) ↔
      (given second v).isSome = true ∨ see v ((given first v).getD (fresh v)) = see v (fresh v) := by
  obtain ⟨f,fKeeps,fTells,fRuns⟩ := run_given one v
  obtain ⟨g,gKeeps,gTells,gRuns⟩ := run_given two v
  rw [gRuns,gRuns,gTells]
  cases given second v with
  | some x => simp
  | none =>
    rw [Option.getD_none,fRuns]
    have start := fTells ((given first v).getD (fresh v)) (fresh v)
    rw [fKeeps] at start
    simpa using start

end Psocks.Variables
