import Mathlib.Tactic

/-! Items laid out one after the other, each with the position where it starts. -/
namespace Fuchsia.Segments

variable {α : Type} {len : α → ℕ} {start p : ℕ} {x : α} {xs ys : List α}

/-- The length of the items together. -/
def total (len : α → ℕ) (xs : List α) : ℕ := (xs.map len).sum

def segments (len : α → ℕ) : ℕ → List α → List (ℕ × α)
  | _,[] => []
  | start,x::xs => (start,x)::segments len (start+len x) xs

@[simp] lemma total_nil : total len [] = 0 := rfl

@[simp] lemma total_cons : total len (x::xs) = len x+total len xs := by simp [total]

@[simp] lemma total_append : total len (xs++ys) = total len xs+total len ys := by simp [total]

lemma segments_append : segments len start (xs++ys) = segments len start xs++segments len (start+total len xs) ys := by
  induction xs generalizing start with
  | nil => simp [segments]
  | cons x xs ih => simp [segments,ih,Nat.add_assoc]

lemma segments_singleton : segments len start [x] = [(start,x)] := rfl

lemma mem_segments (h : (p,x) ∈ segments len start xs) : x ∈ xs ∧ start ≤ p ∧ p+len x ≤ start+total len xs := by
  induction xs generalizing start with
  | nil => cases h
  | cons y ys ih =>
    rw [total_cons]
    obtain heq | hrest := List.mem_cons.mp h
    · cases heq
      exact ⟨List.mem_cons_self,le_rfl,by omega⟩
    · obtain ⟨hmem,hstart,hend⟩ := ih hrest
      exact ⟨List.mem_cons_of_mem y hmem,by omega,by omega⟩

/-- Two ranges, of the first and of the second length, have a position in common. -/
def Overlap (p n q m : ℕ) : Prop := ∃ i,p ≤ i ∧ i < p+n ∧ q ≤ i ∧ i < q+m

lemma not_overlap_of_le {n q m : ℕ} (h : p+n ≤ q) : ¬ Overlap p n q m := by
  rintro ⟨i,hi⟩
  omega

end Fuchsia.Segments
