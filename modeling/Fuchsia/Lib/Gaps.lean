import Mathlib.Tactic

/-! Ascending lists of inclusive intervals of numbers that neither meet nor touch. -/
namespace Fuchsia.Gaps

open List

abbrev Gap := ℕ × ℕ

/-- The order of pairs by the first and then the second number. -/
def Before (g h : Gap) : Prop := g.1 < h.1 ∨ g.1 = h.1 ∧ g.2 ≤ h.2

instance : DecidableRel Before := fun g h => inferInstanceAs (Decidable (g.1 < h.1 ∨ _))

def Has (g : Gap) (n : ℕ) : Prop := g.1 ≤ n ∧ n ≤ g.2

def Missing (gaps : List Gap) (n : ℕ) : Prop := ∃ g ∈ gaps,Has g n

structure Separated (gaps : List Gap) : Prop where
  nonempty : ∀ g ∈ gaps,g.1 ≤ g.2
  apart : gaps.Pairwise fun g h => g.2+1 < h.1

variable {gaps : List Gap} {g h : Gap} {n : ℕ}

section

variable (hs : Separated gaps)
include hs

lemma Separated.apart_of_ne (hg : g ∈ gaps) (hh : h ∈ gaps) (hne : g ≠ h) : g.2+1 < h.1 ∨ h.2+1 < g.1 := by
  have hsymm : Std.Symm fun g h : Gap => g.2+1 < h.1 ∨ h.2+1 < g.1 := ⟨fun _ _ hor => hor.symm⟩
  have hpair : gaps.Pairwise fun g h => g.2+1 < h.1 ∨ h.2+1 < g.1 := hs.apart.imp Or.inl
  exact hpair.forall hg hh hne

lemma Separated.nodup : gaps.Nodup := by
  refine hs.apart.imp_of_mem fun hg _ hlt => ?_
  rintro rfl
  have := hs.nonempty _ hg
  omega

lemma Separated.erase (g : Gap) : Separated (gaps.erase g) :=
  ⟨fun _ hh => hs.nonempty _ (mem_of_mem_erase hh),hs.apart.sublist erase_sublist⟩

lemma Separated.insert (hg : g.1 ≤ g.2)
    (hfar : ∀ h ∈ gaps,g.2+1 < h.1 ∨ h.2+1 < g.1) : Separated (gaps.orderedInsert Before g) := by
  refine ⟨fun h hh => ?_,?_⟩
  · obtain rfl | hh := (mem_orderedInsert _).mp hh
    · exact hg
    · exact hs.nonempty h hh
  · induction gaps with
    | nil => exact pairwise_singleton _ _
    | cons h rest ih =>
      have hh := hs.nonempty h mem_cons_self
      have hrest : Separated rest :=
        ⟨(forall_mem_cons.mp hs.nonempty).2,(pairwise_cons.mp hs.apart).2⟩
      have hfirst := (pairwise_cons.mp hs.apart).1
      rw [orderedInsert_cons]
      split_ifs with hbefore
      · refine pairwise_cons.mpr ⟨fun x hx => ?_,hs.apart⟩
        have hle : h.1 ≤ x.1 := by
          obtain rfl | hx := mem_cons.mp hx
          · exact le_rfl
          · have := hfirst x hx
            omega
        have hxx := hs.nonempty x hx
        obtain hlt | hlt := hfar x hx
        · exact hlt
        · obtain hb | hb := hbefore <;> omega
      · refine pairwise_cons.mpr ⟨fun x hx => ?_,ih hrest (forall_mem_cons.mp hfar).2⟩
        obtain rfl | hx := (mem_orderedInsert _).mp hx
        · obtain hlt | hlt := hfar h mem_cons_self
          · exact absurd (.inl (by omega)) hbefore
          · exact hlt
        · exact hfirst x hx

lemma missing_erase (hg : g ∈ gaps) : Missing (gaps.erase g) n ↔ Missing gaps n ∧ ¬Has g n := by
  constructor
  · rintro ⟨h,hh,hn⟩
    rw [hs.nodup.mem_erase_iff] at hh
    refine ⟨⟨h,hh.2,hn⟩,fun hgn => ?_⟩
    obtain hlt | hlt := hs.apart_of_ne hh.2 hg hh.1
    · have := hn.2
      have := hgn.1
      omega
    · have := hn.1
      have := hgn.2
      omega
  · rintro ⟨⟨h,hh,hn⟩,hgn⟩
    refine ⟨h,hs.nodup.mem_erase_iff.mpr ⟨?_,hh⟩,hn⟩
    rintro rfl
    exact hgn hn

end

lemma missing_insert : Missing (gaps.orderedInsert Before g) n ↔ Has g n ∨ Missing gaps n := by
  simp only [Missing,mem_orderedInsert]
  constructor
  · rintro ⟨h,rfl | hh,hn⟩
    · exact .inl hn
    · exact .inr ⟨h,hh,hn⟩
  · rintro (hn | ⟨h,hh,hn⟩)
    · exact ⟨g,.inl rfl,hn⟩
    · exact ⟨h,.inr hh,hn⟩

end Fuchsia.Gaps
