import Mathlib.Tactic

/-! Half-open intervals of a linear order, ascending lists of them, and the item
of such a list that covers a point. -/
namespace Fuchsia.Ranges

/-- Things that occupy the half-open interval from `lo a` to `hi a`. -/
class Ranged (A : Type*) (T : outParam Type*) where
  lo : A → T
  hi : A → T

open Ranged List

variable {A T : Type*} [LinearOrder T] [Ranged A T]

def Covers (a : A) (p : T) : Prop := lo a ≤ p ∧ p < hi a

instance coversDecidable (a : A) (p : T) : Decidable (Covers a p) := inferInstanceAs (Decidable (_ ∧ _))

variable {a b : A} {p : T}

lemma covers_cut_iff {c : A} (hlo : lo a ≤ lo b) (hover : lo b ≤ hi a)
    (hc : lo c = hi a) (hc' : hi c = hi b) (hp : ¬Covers a p) : Covers b p ↔ Covers c p := by
  simp only [Covers,hc,hc'] at hp ⊢
  constructor
  · intro h
    exact ⟨not_lt.mp fun hlt => hp ⟨hlo.trans h.1,hlt⟩,h.2⟩
  · intro h
    exact ⟨hover.trans h.1,h.2⟩

lemma covers_join_iff {c : A} (hlo : lo a ≤ lo b) (hover : lo b ≤ hi a)
    (hc : lo c = lo a) (hc' : hi c = hi b) (hp : ¬Covers a p) : Covers b p ↔ Covers c p := by
  simp only [Covers,hc,hc'] at hp ⊢
  constructor
  · intro h
    exact ⟨hlo.trans h.1,h.2⟩
  · intro h
    exact ⟨hover.trans (not_lt.mp fun hlt => hp ⟨h.1,hlt⟩),h.2⟩

/-- Non-empty intervals, each ending no later than every following one starts. -/
def Ascending (xs : List A) : Prop := (∀ a ∈ xs,lo a < hi a) ∧ xs.Pairwise (fun a b => hi a ≤ lo b)

instance ascendingDecidable (xs : List A) : Decidable (Ascending xs) :=
  inferInstanceAs (Decidable (_ ∧ _))

@[simp] lemma ascending_nil : Ascending ([] : List A) := by simp [Ascending]

variable {xs : List A}

lemma ascending_cons : Ascending (a::xs) ↔ lo a < hi a ∧ (∀ b ∈ xs,hi a ≤ lo b) ∧ Ascending xs := by
  simp only [Ascending,mem_cons,forall_eq_or_imp,pairwise_cons]
  tauto

lemma Ascending.tail {a : A} {xs : List A} (h : Ascending (a::xs)) : Ascending xs :=
  (ascending_cons.mp h).2.2

lemma Ascending.lo_head_le (h : Ascending (a::xs)) (hb : b ∈ a::xs) : lo a ≤ lo b := by
  obtain ⟨hne,hle,-⟩ := ascending_cons.mp h
  rcases mem_cons.mp hb with rfl | hb
  · exact le_rfl
  · exact hne.le.trans (hle b hb)

variable {ys : List A}

lemma Ascending.append (hx : Ascending xs) (hy : Ascending ys)
    (h : ∀ a ∈ xs,∀ b ∈ ys,hi a ≤ lo b) : Ascending (xs++ys) := by
  exact ⟨forall_mem_append.mpr ⟨hx.1,hy.1⟩,pairwise_append.mpr ⟨hx.2,hy.2,h⟩⟩

lemma Ascending.append_left (h : Ascending (xs++ys)) : Ascending xs :=
  ⟨fun a ha => h.1 a (by simp [ha]),(pairwise_append.mp h.2).1⟩

lemma Ascending.append_right (h : Ascending (xs++ys)) : Ascending ys :=
  ⟨fun a ha => h.1 a (by simp [ha]),(pairwise_append.mp h.2).2.1⟩

lemma Ascending.append_le (h : Ascending (xs++ys)) (ha : a ∈ xs) (hb : b ∈ ys) : hi a ≤ lo b :=
  (pairwise_append.mp h.2).2.2 a ha b hb

lemma Ascending.sublist (h : Ascending ys) (hs : xs.Sublist ys) : Ascending xs :=
  ⟨fun a ha => h.1 a (hs.subset ha),h.2.sublist hs⟩

/-- The first item that covers `p`; in an ascending list, the only one. -/
def find (xs : List A) (p : T) : Option A := xs.find? (fun a => decide (Covers a p))

@[simp] lemma find_nil (p : T) : find ([] : List A) p = none := rfl

lemma find_cons_of_covers (xs : List A) (h : Covers a p) : find (a::xs) p = some a := by simp [find,h]

lemma find_cons_of_not_covers (xs : List A) (h : ¬Covers a p) : find (a::xs) p = find xs p := by simp [find,h]

lemma find_eq_none_iff : find xs p = none ↔ ∀ a ∈ xs,¬Covers a p := by simp [find]

lemma mem_of_find_eq_some (h : find xs p = some a) : a ∈ xs ∧ Covers a p := by
  have h1 := mem_of_find?_eq_some h
  have h2 := find?_some h
  exact ⟨h1,by simpa using h2⟩

lemma Ascending.eq_of_covers (h : Ascending xs)
    (ha : a ∈ xs) (hb : b ∈ xs) (hap : Covers a p) (hbp : Covers b p) : a = b := by
  induction xs with
  | nil => simp at ha
  | cons c xs ih =>
    obtain ⟨-,hle,hxs⟩ := ascending_cons.mp h
    rcases mem_cons.mp ha with hac | hac <;> rcases mem_cons.mp hb with hbc | hbc
    · rw [hac,hbc]
    · subst hac
      exact absurd (hap.2.trans_le ((hle b hbc).trans hbp.1)) (lt_irrefl p)
    · subst hbc
      exact absurd (hbp.2.trans_le ((hle a hac).trans hap.1)) (lt_irrefl p)
    · exact ih hxs hac hbc

lemma Ascending.find_eq_some_iff (h : Ascending xs) : find xs p = some a ↔ a ∈ xs ∧ Covers a p := by
  refine ⟨mem_of_find_eq_some,fun ⟨ha,hp⟩ => ?_⟩
  cases hf : find xs p with
  | none => exact absurd hp (find_eq_none_iff.mp hf a ha)
  | some b =>
    obtain ⟨hb,hbp⟩ := mem_of_find_eq_some hf
    rw [h.eq_of_covers hb ha hbp hp]

lemma find_eq_none_of_lt (h : ∀ a ∈ xs,p < lo a) : find xs p = none :=
  find_eq_none_iff.mpr fun a ha hp => absurd (h a ha) (not_lt.mpr hp.1)

lemma find_dropWhile (q : A → Bool) (hq : ∀ a,q a = true → ¬Covers a p) : find (xs.dropWhile q) p = find xs p := by
  induction xs with
  | nil => rfl
  | cons a xs ih =>
    by_cases h : q a = true
    · rw [dropWhile_cons_of_pos h,ih,find_cons_of_not_covers xs (hq a h)]
    · rw [dropWhile_cons_of_neg h]

end Fuchsia.Ranges
