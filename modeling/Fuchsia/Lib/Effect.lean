import Mathlib.Tactic

/-! Computations on a state that may fail, leaving the state that they had reached, or
panic. -/
namespace Fuchsia

inductive Result (S E A : Type)
  | ok (a : A) (s : S)
  | fail (e : E) (s : S)
  | panic

def Effect (S E A : Type) : Type := S → Result S E A

namespace Effect

variable {S E A B : Type}

protected def pure (a : A) : Effect S E A := fun s => .ok a s

protected def bind (x : Effect S E A) (f : A → Effect S E B) : Effect S E B := fun s =>
  match x s with
  | .ok a s' => f a s'
  | .fail e s' => .fail e s'
  | .panic => .panic

instance : Monad (Effect S E) where
  pure := Effect.pure
  bind := Effect.bind

def get : Effect S E S := fun s => .ok s s

def modify (f : S → S) : Effect S E Unit := fun s => .ok () (f s)

def throw (e : E) : Effect S E A := fun s => .fail e s

def panicked : Effect S E A := fun _ => .panic

/-- An error is a panic: `unwrap`. -/
def unwrap (x : Effect S E A) : Effect S E A := fun s =>
  match x s with
  | .ok a s' => .ok a s'
  | .fail _ _ => .panic
  | .panic => .panic

/-- The outcome as a value, with the state that was reached. -/
def attempt (x : Effect S E A) : Effect S E (Except E A) := fun s =>
  match x s with
  | .ok a s' => .ok (.ok a) s'
  | .fail e s' => .ok (.error e) s'
  | .panic => .panic

/-- The computation on a state of its own, with its errors translated. -/
def isolate {T F : Type} (x : Effect S E A) (s : S) (f : E → F) : Effect T F A := fun t =>
  match x s with
  | .ok a _ => .ok a t
  | .fail e _ => .fail (f e) t
  | .panic => .panic

def focus {T : Type} (view : T → S) (update : T → S → T) (x : Effect S E A) : Effect T E A := fun t =>
  match x (view t) with
  | .ok a s => .ok a (update t s)
  | .fail e s => .fail e (update t s)
  | .panic => .panic

def ofExcept : Except E A → Effect S E A
  | .ok a => fun s => .ok a s
  | .error e => fun s => .fail e s

variable {x : Effect S E A} {f : A → Effect S E B} {s s' : S} {a : A} {e : E}

lemma isolate_eq_ok {T F : Type} {g : E → F} {t t' : T} :
    isolate x s g t = .ok a t' ↔ (∃ s',x s = .ok a s') ∧ t = t' := by
  unfold isolate
  cases x s <;> simp

lemma ofExcept_eq_ok {y : Except E A} : (ofExcept y : Effect S E A) s = .ok a s' ↔ y = .ok a ∧ s = s' := by
  cases y <;> simp [ofExcept]

lemma bind_apply : (x >>= f) s = match x s with
    | .ok a s' => f a s'
    | .fail e s' => .fail e s'
    | .panic => .panic := rfl

lemma bind_of_ok (h : x s = .ok a s') : (x >>= f) s = f a s' := by rw [bind_apply,h]

lemma bind_of_fail (h : x s = .fail e s') : (x >>= f) s = .fail e s' := by rw [bind_apply,h]

lemma bind_of_panic (h : x s = .panic) : (x >>= f) s = .panic := by rw [bind_apply,h]

variable {t : S}

lemma bind_eq_ok {b : B} : (x >>= f) s = .ok b t ↔ ∃ a s',x s = .ok a s' ∧ f a s' = .ok b t := by
  rw [bind_apply]
  cases x s <;> simp

variable {g : A → Effect S E Unit} {l : List A}

lemma forM_cons_eq_ok : (a::l).forM g s = .ok () t ↔ ∃ s',g a s = .ok () s' ∧ l.forM g s' = .ok () t := by
  change (g a >>= fun _ => l.forM g) s = _ ↔ _
  rw [bind_eq_ok]
  constructor
  · rintro ⟨⟨⟩,s',h⟩
    exact ⟨s',h⟩
  · rintro ⟨s',h⟩
    exact ⟨(),s',h⟩

lemma forM_eq_ok_of_mem (h : l.forM g s = .ok () t) (ha : a ∈ l) : ∃ s' t',g a s' = .ok () t' := by
  induction l generalizing s with
  | nil => cases ha
  | cons b l ih =>
    obtain ⟨s',hb,h⟩ := forM_cons_eq_ok.mp h
    obtain rfl | ha := List.mem_cons.mp ha
    · exact ⟨s,s',hb⟩
    · exact ih h ha

@[simp] lemma pure_apply (a : A) : (pure a : Effect S E A) s = .ok a s := rfl

@[simp] lemma get_bind (f : S → Effect S E B) : (get >>= f) s = f s s := rfl

@[simp] lemma modify_bind (g : S → S) (f : Unit → Effect S E B) : (modify g >>= f) s = f () (g s) := rfl

@[simp] lemma pure_bind (a : A) (f : A → Effect S E B) : ((pure a : Effect S E A) >>= f) s = f a s := rfl

@[simp] lemma ofExcept_ok_bind (a : A) (f : A → Effect S E B) :
    ((ofExcept (.ok a) : Effect S E A) >>= f) s = f a s := rfl

@[simp] lemma ofExcept_error_bind (e : E) (f : A → Effect S E B) :
    ((ofExcept (.error e) : Effect S E A) >>= f) s = .fail e s := rfl

@[simp] lemma get_apply : (get : Effect S E S) s = .ok s s := rfl

@[simp] lemma modify_apply (g : S → S) : (modify g : Effect S E Unit) s = .ok () (g s) := rfl

@[simp] lemma throw_apply : (throw e : Effect S E A) s = .fail e s := rfl

lemma unwrap_of_ok (h : x s = .ok a s') : unwrap x s = .ok a s' := by rw [unwrap,h]

/-- The computation panics only if that is allowed, and otherwise ends in a state that
satisfies the condition for its outcome. -/
def Ends (panics : Prop) (x : Effect S E A) (s : S) (ok : A → S → Prop) (fail : E → S → Prop) : Prop :=
  match x s with
  | .ok a s' => ok a s'
  | .fail e s' => fail e s'
  | .panic => panics

section Rules

variable {panics : Prop} {ok : A → S → Prop} {ok' : B → S → Prop} {fail fail' : E → S → Prop}

lemma Ends.bind (h : Ends panics x s (fun a s' => Ends panics (f a) s' ok' fail) fail) :
    Ends panics (x >>= f) s ok' fail := by
  unfold Ends at h ⊢
  change match (match x s with
    | .ok a s' => f a s'
    | .fail e s' => .fail e s'
    | .panic => .panic) with
    | .ok a s' => ok' a s'
    | .fail e s' => fail e s'
    | .panic => panics
  cases hx : x s <;> simp only [hx] at h ⊢ <;> exact h

lemma Ends.mono {ok'' : A → S → Prop} (h : Ends panics x s ok'' fail') (hok : ∀ a s',ok'' a s' → ok a s')
    (hfail : ∀ e s',fail' e s' → fail e s') : Ends panics x s ok fail := by
  unfold Ends at h ⊢
  cases hx : x s with
  | ok a s' =>
    simp only [hx] at h ⊢
    exact hok a s' h
  | fail e s' =>
    simp only [hx] at h ⊢
    exact hfail e s' h
  | panic =>
    simp only [hx] at h ⊢
    exact h

lemma Ends.pure (h : ok a s) : Ends panics (Pure.pure a : Effect S E A) s ok fail := h

lemma Ends.throw (h : fail e s) : Ends panics (throw e : Effect S E A) s ok fail := h

lemma Ends.panicked (h : panics) : Ends panics (panicked : Effect S E A) s ok fail := h

lemma Ends.get_bind {g : S → Effect S E B} (h : Ends panics (g s) s ok' fail) : Ends panics (get >>= g) s ok' fail := h

variable {u : S → S}

lemma Ends.modify_bind {g : Unit → Effect S E B}
    (h : Ends panics (g ()) (u s) ok' fail) : Ends panics (modify u >>= g) s ok' fail := h

lemma Ends.modify {ok : Unit → S → Prop} (h : ok () (u s)) : Ends panics (modify u : Effect S E Unit) s ok fail := h

lemma Ends.attempt_bind {g : Except E A → Effect S E B}
    (h : Ends panics x s (fun a s' => Ends panics (g (.ok a)) s' ok' fail) (fun e s' => Ends panics (g (.error e)) s' ok' fail)) :
    Ends panics (attempt x >>= g) s ok' fail := by
  apply Ends.bind
  unfold Ends at h ⊢
  unfold attempt
  cases hx : x s <;> simp only [hx] at h ⊢ <;> exact h

lemma Ends.isolate {T F : Type} {g : E → F} {t : T} {ok : A → T → Prop} {fail : F → T → Prop}
    (h : Ends panics x s (fun a _ => ok a t) (fun e _ => fail (g e) t)) : Ends panics (isolate x s g) t ok fail := by
  unfold Ends at h ⊢
  unfold Effect.isolate
  cases hx : x s <;> simp only [hx] at h ⊢ <;> exact h

lemma Ends.of_eq (hx : x s = .ok a s') (h : ok a s') : Ends panics x s ok fail := by
  rw [Ends,hx]
  exact h

lemma Ends.ne_panic (h : Ends False x s ok fail) : x s ≠ .panic := by
  intro hx
  rw [Ends,hx] at h
  exact h

lemma Ends.of_ok (h : Ends panics x s ok fail) (hx : x s = .ok a s') : ok a s' := by
  rw [Ends,hx] at h
  exact h

lemma Ends.of_fail (h : Ends panics x s ok fail) (hx : x s = .fail e s') : fail e s' := by
  rw [Ends,hx] at h
  exact h

end Rules

end Effect
end Fuchsia
