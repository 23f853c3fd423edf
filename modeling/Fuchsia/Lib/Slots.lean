import Mathlib.Data.List.TakeWhile
import Mathlib.Tactic

/-! Sums over a list whose entries are replaced, added and removed by position, and
over functions that are bounded by such a list. -/
namespace Fuchsia.Slots

open Function Finset

variable {A M : Type*} {xs : List A} {t : ℕ}

variable {x y : A}

lemma map_set_eq (h : xs[t]? = some x) {f : A → M} (hf : f y = f x) : (xs.set t y).map f = xs.map f := by
  obtain ⟨ht,rfl⟩ := List.getElem?_eq_some_iff.mp h
  rw [List.map_set,hf,← List.getElem_map f (h := by simpa using ht),List.set_getElem_self]

lemma getD_map_of_getElem? (h : xs[t]? = some x) (f : A → M) (d : M) : (xs.map f).getD t d = f x := by
  simp [List.getD,h]

lemma getD_map_set (h : xs[t]? = some x) (f : A → M) (y : A) (u : ℕ) (d : M) :
    ((xs.set t y).map f).getD u d = if t = u then f y else (xs.map f).getD u d := by
  have hlt := (List.getElem?_eq_some_iff.mp h).1
  by_cases htu : t = u
  · subst htu
    simp [List.getD,hlt]
  · simp [List.getD,htu]

variable [AddCommMonoid M]

lemma sum_set (h : xs[t]? = some x) (f : A → M) :
    ∃ rest,(xs.map f).sum = f x+rest ∧ (∀ y,((xs.set t y).map f).sum = f y+rest) ∧
      ((xs.eraseIdx t).map f).sum = rest := by
  induction xs generalizing t with
  | nil => simp at h
  | cons a as ih =>
    cases t with
    | zero =>
      obtain rfl : a = x := by simpa using h
      exact ⟨(as.map f).sum,by simp⟩
    | succ t =>
      obtain ⟨rest,hsum,hset,herase⟩ := ih (by simpa using h)
      refine ⟨f a+rest,?_,fun y => ?_,?_⟩
      · rw [List.map_cons,List.sum_cons,hsum,add_left_comm]
      · rw [List.set_cons_succ,List.map_cons,List.sum_cons,hset y,add_left_comm]
      · rw [List.eraseIdx_cons_succ,List.map_cons,List.sum_cons,herase]

lemma sum_set_eq (h : xs[t]? = some x) {f : A → M} (hf : f y = f x) : ((xs.set t y).map f).sum = (xs.map f).sum := by
  obtain ⟨rest,hsum,hset,-⟩ := sum_set h f
  rw [hsum,hset,hf]

lemma sum_update (f : A → ℕ) (g : ℕ → A) {i n : ℕ} (hi : i < n) (a : A) :
    ∑ j ∈ range n,f (update g i a j)+f (g i) = ∑ j ∈ range n,f (g j)+f a := by
  have hmem := mem_range.mpr hi
  rw [← add_sum_erase _ _ hmem,← add_sum_erase _ (fun j => f (g j)) hmem,update_self]
  have hrest : ∑ j ∈ (range n).erase i,f (update g i a j) = ∑ j ∈ (range n).erase i,f (g j) :=
    sum_congr rfl fun j hj => by rw [update_of_ne (ne_of_mem_erase hj)]
  rw [hrest]
  omega

lemma sum_update_pair (f : A → ℕ) (g : ℕ → A) {n i j : ℕ} (hi : i < n) (hj : j < n) (hij : j ≠ i) {a b : A}
    (h : f a+f b = f (g i)+f (g j)) : ∑ x ∈ range n,f (update (update g i a) j b x) = ∑ x ∈ range n,f (g x) := by
  have h1 := sum_update f g hi a
  have h2 := sum_update f (update g i a) hj b
  rw [update_of_ne hij] at h2
  omega

lemma mem_dropWhile_of_mem {q : A → Bool} (hx : x ∈ xs) (hq : q x = false) : x ∈ xs.dropWhile q := by
  rw [← List.takeWhile_append_dropWhile (p := q) (l := xs)] at hx
  refine (List.mem_append.mp hx).resolve_left fun h => ?_
  simp [List.mem_takeWhile_imp h] at hq

lemma sum_getD (xs : List ℕ) : ∑ i ∈ range xs.length,xs.getD i 0 = xs.sum := by
  rw [← Fin.sum_univ_eq_sum_range,← Fin.sum_univ_getElem]
  exact sum_congr rfl fun i _ => by simp [List.getD]

lemma degree_le_of_slots {f : Option ℕ →₀ ℕ} {xs : List ℕ}
    (h : ∀ i,f (some i) ≤ xs.getD i 0) : f.degree ≤ f none+xs.sum := by
  have hsupport : f.support ⊆ insertNone (range xs.length) := by
    intro o ho
    cases o with
    | none => simp
    | some i =>
      have hi : f (some i) ≠ 0 := Finsupp.mem_support_iff.mp ho
      have hlt : i < xs.length := by
        by_contra hle
        have hz : xs.getD i 0 = 0 := by simp [List.getD,not_lt.mp hle]
        have hle := h i
        omega
      simpa using hlt
  have hsum : f.degree = ∑ o ∈ insertNone (range xs.length),f o := by
    rw [Finsupp.degree_apply]
    exact sum_subset hsupport fun o _ ho => Finsupp.notMem_support_iff.mp ho
  rw [hsum,sum_insertNone,← sum_getD]
  exact Nat.add_le_add_left (sum_le_sum fun i _ => h i) _

end Fuchsia.Slots
