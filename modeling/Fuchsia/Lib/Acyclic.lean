import Mathlib.Tactic

/-! Relations without cycles. -/
namespace Fuchsia.Acyclic

open Relation

variable {A : Type} {r : A → A → Prop}

lemma wellFounded (s : Finset A) (hs : ∀ a b,r a b → a ∈ s) (h : ∀ a,¬TransGen r a a) : WellFounded r := by
  have hirrefl : Std.Irrefl (TransGen r) := ⟨h⟩
  have hstrict : IsStrictOrder A (TransGen r) := {}
  have hon : (s : Set A).WellFoundedOn (TransGen r) := s.finite_toSet.wellFoundedOn
  have hacc : ∀ a ∈ s,Acc r a := by
    intro a ha
    refine hon.induction ha fun a _ ih => ⟨a,fun b hb => ?_⟩
    exact ih b (hs b a hb) (.single hb)
  refine ⟨fun a => ⟨a,fun b hb => ?_⟩⟩
  exact hacc b (hs b a hb)

end Fuchsia.Acyclic
