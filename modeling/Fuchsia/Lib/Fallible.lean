import Mathlib.Tactic

/-! Inversion of fallible computations. -/
namespace Fuchsia.Fallible

variable {ε : Type*} {A B : Type}

def require (e : ε) (p : Prop) [Decidable p] : Except ε Unit := if p then .ok () else .error e

variable {e : ε}

lemma require_eq_ok {p : Prop} [Decidable p] {u : Unit} : require e p = .ok u ↔ p := by
  simp only [require]
  split_ifs with h <;> simp [h]

lemma require_of {p : Prop} [Decidable p] (h : p) : require e p = .ok () := if_pos h

variable {f : A → Except ε B} {x : Except ε A}

lemma bind_eq_ok {b : B} : (x >>= f) = .ok b ↔ ∃ a,x = .ok a ∧ f a = .ok b := by
  cases x <;> simp [bind,Except.bind]

lemma bind_eq_error : (x >>= f) = .error e ↔ x = .error e ∨ ∃ a,x = .ok a ∧ f a = .error e := by
  cases x <;> simp [bind,Except.bind]

lemma ok_bind (a : A) (f : A → Except ε B) : (Except.ok a >>= f) = f a := by simp only [bind,Except.bind]

lemma pure_eq_ok {a b : A} : (pure a : Except ε A) = .ok b ↔ a = b := by simp [pure,Except.pure]

lemma pure_eq (a : A) : (pure a : Except ε A) = .ok a := by simp only [pure,Except.pure]

lemma mapM_perm {l l' : List A} {r : List B} (h : l.Perm l') (hr : l.mapM f = .ok r) :
    ∃ r',l'.mapM f = .ok r' ∧ r.Perm r' := by
  induction h generalizing r with
  | nil => exact ⟨r,hr,.refl r⟩
  | cons a _ ih =>
    rw [List.mapM_cons] at hr
    obtain ⟨b,hb,hr⟩ := bind_eq_ok.mp hr
    obtain ⟨bs,hbs,hr⟩ := bind_eq_ok.mp hr
    obtain ⟨bs',hbs',hperm⟩ := ih hbs
    rw [pure_eq_ok] at hr
    refine ⟨b::bs',?_,hr ▸ hperm.cons b⟩
    rw [List.mapM_cons,hb,ok_bind,hbs',ok_bind,pure_eq]
  | swap a a' l =>
    simp only [List.mapM_cons,bind_eq_ok,pure_eq_ok] at hr
    obtain ⟨b,hb,_,⟨b',hb',bs,hbs,rfl⟩,rfl⟩ := hr
    refine ⟨b'::b::bs,?_,.swap b' b bs⟩
    simp [hb,hb',hbs,ok_bind,pure_eq]
  | trans _ _ ih ih' =>
    obtain ⟨r',hr',hperm⟩ := ih hr
    obtain ⟨r'',hr'',hperm'⟩ := ih' hr'
    exact ⟨r'',hr'',hperm.trans hperm'⟩

end Fuchsia.Fallible
