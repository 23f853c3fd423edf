import Fuchsia.Lib.Ranges

/-! Intervals of numbers that follow each other without a gap, and the data that they
carry one after another. -/
namespace Fuchsia.Tiling

open Ranges Ranged List Nat

variable {A B : Type} [Ranged A ℕ]

/-- The intervals lead from the first number to the second. -/
def Tiles : ℕ → ℕ → List A → Prop
  | s,e,[] => s = e
  | s,e,x::xs => lo x = s ∧ lo x < hi x ∧ Tiles (hi x) e xs

variable {s e : ℕ} {xs : List A}

lemma Tiles.le (h : Tiles s e xs) : s ≤ e := by
  induction xs generalizing s with
  | nil => exact h.le
  | cons x xs ih =>
    obtain ⟨rfl,hlt,hrest⟩ := h
    exact hlt.le.trans (ih hrest)

lemma Tiles.within (h : Tiles s e xs) {x : A} (hx : x ∈ xs) : s ≤ lo x ∧ lo x < hi x ∧ hi x ≤ e := by
  induction xs generalizing s with
  | nil => cases hx
  | cons y xs ih =>
    obtain ⟨rfl,hlt,hrest⟩ := h
    obtain rfl | hx := mem_cons.mp hx
    · exact ⟨le_rfl,hlt,hrest.le⟩
    · obtain ⟨hlo,hne,hhi⟩ := ih hrest hx
      exact ⟨hlt.le.trans hlo,hne,hhi⟩

lemma Tiles.eq_nil (h : Tiles e e xs) : xs = [] := by
  cases xs with
  | nil => rfl
  | cons x xs =>
    have := h.within mem_cons_self
    omega

lemma tiles_of_covers (hasc : Ascending xs) (hle : s ≤ e)
    (h : ∀ n,(∃ x ∈ xs,Covers x n) ↔ s ≤ n ∧ n < e) : Tiles s e xs := by
  induction xs generalizing s with
  | nil =>
    by_contra hne
    obtain ⟨x,hx,-⟩ := (h s).mpr ⟨le_rfl,lt_of_le_of_ne hle hne⟩
    cases hx
  | cons x xs ih =>
    obtain ⟨hne,hafter,hrest⟩ := ascending_cons.mp hasc
    have hlo := (h (lo x)).mp ⟨x,mem_cons_self,le_rfl,hne⟩
    have hstart : lo x = s := by
      obtain ⟨y,hy,hcovers⟩ := (h s).mpr ⟨le_rfl,hlo.1.trans_lt hlo.2⟩
      exact le_antisymm ((hasc.lo_head_le hy).trans hcovers.1) hlo.1
    have hhi : hi x ≤ e := by
      have := (h (hi x-1)).mp ⟨x,mem_cons_self,by simp only [Covers]; omega⟩
      omega
    refine ⟨hstart,hne,ih hrest hhi fun n => ?_⟩
    constructor
    · rintro ⟨y,hy,hcovers⟩
      exact ⟨(hafter y hy).trans hcovers.1,((h n).mp ⟨y,mem_cons_of_mem _ hy,hcovers⟩).2⟩
    · rintro ⟨hge,hlt⟩
      obtain ⟨y,hy,hcovers⟩ := (h n).mpr ⟨(hstart ▸ hne.le).trans hge,hlt⟩
      obtain rfl | hy := mem_cons.mp hy
      · exact absurd hcovers.2 (not_lt.mpr hge)
      · exact ⟨y,hy,hcovers⟩

variable {data : A → List B} {unit : ℕ}

section

variable (h : Tiles s e xs) (hfull : ∀ x ∈ xs,hi x ≠ e → (data x).length = unit*(hi x-lo x))
  {x : A} (hx : x ∈ xs)
include h hfull hx

lemma Tiles.flatMap_split : ∃ before after,xs.flatMap data = before++(data x++after) ∧
    before.length = unit*(lo x-s) ∧ (hi x = e → after = []) := by
  induction xs generalizing s with
  | nil => cases hx
  | cons y xs ih =>
    obtain ⟨rfl,hlt,hrest⟩ := h
    rw [flatMap_cons]
    obtain rfl | hx := mem_cons.mp hx
    · refine ⟨[],xs.flatMap data,rfl,by simp,fun hend => ?_⟩
      rw [hend] at hrest
      rw [hrest.eq_nil,flatMap_nil]
    · obtain ⟨before,after,heq,hlen,hafter⟩ := ih hrest (forall_mem_cons.mp hfull).2 hx
      have hwithin := hrest.within hx
      refine ⟨data y++before,after,by rw [heq,append_assoc],?_,hafter⟩
      rw [length_append,hlen,hfull y mem_cons_self (by omega),← mul_add]
      congr 1
      omega

lemma Tiles.getElem_flatMap {j : ℕ} (hj : j < (data x).length) : (xs.flatMap data)[unit*(lo x-s)+j]? = (data x)[j]? := by
  obtain ⟨before,after,heq,hlen,-⟩ := h.flatMap_split hfull hx
  rw [heq,← hlen,getElem?_append_right (Nat.le_add_right _ _),Nat.add_sub_cancel_left,getElem?_append_left hj]

lemma Tiles.length_flatMap (hend : hi x = e) : (xs.flatMap data).length = unit*(lo x-s)+(data x).length := by
  obtain ⟨before,after,heq,hlen,hafter⟩ := h.flatMap_split hfull hx
  rw [heq,hafter hend,append_nil,length_append,hlen]

end

end Fuchsia.Tiling
