import Mathlib.Tactic

/-! Lists that are linked by a function from each item to the next, and end at 0. -/
namespace Fuchsia.Linked

open Function

def Links (next : ℕ → ℕ) : ℕ → List ℕ → Prop
  | head,[] => head = 0
  | head,i::rest => head = i ∧ Links next (next i) rest

variable {next next' : ℕ → ℕ} {head i p v : ℕ} {xs ys : List ℕ}

lemma Links.congr (h : Links next head xs) (heq : ∀ i ∈ xs,next' i = next i) : Links next' head xs := by
  induction xs generalizing head with
  | nil => exact h
  | cons i rest ih =>
    obtain ⟨rfl,hrest⟩ := h
    refine ⟨rfl,?_⟩
    rw [heq head List.mem_cons_self]
    exact ih hrest (List.forall_mem_cons.mp heq).2

lemma Links.update (h : Links next head xs) (hp : p ∉ xs) : Links (Function.update next p v) head xs := by
  refine h.congr fun i hi => update_of_ne ?_ _ _
  rintro rfl
  exact hp hi

lemma Links.push (h : Links next head xs) (hi : i ∉ xs) : Links (Function.update next i head) i (i::xs) := by
  refine ⟨rfl,?_⟩
  rw [update_self]
  exact h.update hi

lemma Links.bypass (h : Links next head (xs++p::i::ys)) (hnodup : (xs++p::i::ys).Nodup) :
    Links (Function.update next p (next i)) head (xs++p::ys) := by
  induction xs generalizing head with
  | nil =>
    obtain ⟨rfl,-,hrest⟩ := h
    have hp : head ∉ ys := by
      have := (List.nodup_cons.mp hnodup).1
      simp only [List.mem_cons,not_or] at this
      exact this.2
    refine ⟨rfl,?_⟩
    rw [update_self]
    exact hrest.update hp
  | cons x xs ih =>
    obtain ⟨rfl,hrest⟩ := h
    obtain ⟨hx,hnodup⟩ := List.nodup_cons.mp hnodup
    have hne : head ≠ p := by
      rintro rfl
      simp at hx
    refine ⟨rfl,?_⟩
    rw [update_of_ne hne]
    exact ih hrest hnodup

lemma Links.next_eq {q : ℕ} (h : Links next head (xs++p::q::ys)) : next p = q := by
  induction xs generalizing head with
  | nil =>
    obtain ⟨rfl,hq,-⟩ := h
    exact hq
  | cons x xs ih => exact ih h.2

end Fuchsia.Linked
