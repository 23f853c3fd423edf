import Mathlib.Data.List.AList
import Mathlib.Tactic

/-! Sums over the values of a finite map. -/
namespace Fuchsia.Tables

open List

variable {K V : Type}

/-- The sum of a number for each value. -/
def total (f : V → ℕ) (m : AList fun _ : K => V) : ℕ := (m.entries.map fun e => f e.2).sum

variable [DecidableEq K] (f : V → ℕ)

lemma total_insert (m : AList fun _ : K => V) (k : K) (v : V) : total f (m.insert k v) = f v+total f (m.erase k) := by
  rw [total,AList.entries_insert,map_cons,sum_cons]
  rfl

variable {k : K}

lemma sum_kerase {l : List (Sigma fun _ : K => V)} {v : V} (h : l.dlookup k = some v) :
    (l.map fun e => f e.2).sum = f v+((l.kerase k).map fun e => f e.2).sum := by
  induction l with
  | nil => cases h
  | cons e l ih =>
    obtain ⟨k',v'⟩ := e
    by_cases hk : k = k'
    · subst hk
      rw [dlookup_cons_eq] at h
      cases h
      have hkerase : kerase k (⟨k,v⟩::l) = l := kerase_cons_eq rfl
      rw [hkerase,map_cons,sum_cons]
    · rw [dlookup_cons_ne _ _ hk] at h
      have hkerase : kerase k (⟨k',v'⟩::l) = ⟨k',v'⟩::l.kerase k := kerase_cons_ne hk
      rw [hkerase,map_cons,map_cons,sum_cons,sum_cons,ih h]
      omega

variable {m : AList fun _ : K => V}

lemma total_erase {v : V} (h : m.lookup k = some v) : total f m = f v+total f (m.erase k) :=
  sum_kerase f h

lemma erase_of_lookup_none (h : m.lookup k = none) : m.erase k = m := by
  refine AList.ext ?_
  exact kerase_of_notMem_keys (AList.lookup_eq_none.mp h)

end Fuchsia.Tables
