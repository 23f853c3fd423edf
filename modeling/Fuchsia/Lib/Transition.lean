import Mathlib.Tactic

/-! Runs of a system whose steps are partial functions of a state and an action,
restricted to actions that are allowed where they are taken. -/
namespace Fuchsia.Transition

variable {S A : Type*}

inductive Reachable (start : S → Prop) (allowed : S → A → Prop) (step : S → A → Option S) :
    S → Prop
  | start {s : S} : start s → Reachable start allowed step s
  | step {s s' : S} {a : A} : Reachable start allowed step s → allowed s a →
      step s a = some s' → Reachable start allowed step s'

variable {start : S → Prop} {allowed : S → A → Prop} {step : S → A → Option S}

lemma Reachable.invariant {I : S → Prop} {s : S} (h : Reachable start allowed step s) (hstart : ∀ s,start s → I s)
    (hstep : ∀ s a s',I s → allowed s a → step s a = some s' → I s') : I s := by
  induction h with
  | start h => exact hstart _ h
  | step _ ha hs ih => exact hstep _ _ _ ih ha hs

/-- Take the actions in turn, as long as they are allowed. -/
def run (allowed : S → A → Prop) [∀ s a,Decidable (allowed s a)] (step : S → A → Option S) :
    S → List A → Option S
  | s,[] => some s
  | s,a::as => if allowed s a then (step s a).bind fun s' => run allowed step s' as else none

lemma Reachable.run [∀ s a,Decidable (allowed s a)] {s s' : S} {as : List A} (h : Reachable start allowed step s)
    (hrun : run allowed step s as = some s') : Reachable start allowed step s' := by
  induction as generalizing s with
  | nil =>
    cases hrun
    exact h
  | cons a as ih =>
    simp only [Transition.run] at hrun
    split_ifs at hrun with ha
    cases hs : step s a with
    | none => simp [hs] at hrun
    | some t =>
      rw [hs] at hrun
      exact ih (h.step ha hs) hrun

end Fuchsia.Transition
