import Mathlib.Tactic

/-! Values offered by numbered sources, of which the lowest-numbered one wins.
A source that offers nothing is present with `none`. -/
namespace Fuchsia.Priority

open List

variable {W : Type*}

/-- `w` is offered by a source, and no lower-numbered source offers anything. -/
def Newest (xs : List (ℕ × Option W)) (w : W) : Prop :=
  ∃ i,(i,some w) ∈ xs ∧ ∀ j v,(j,some v) ∈ xs → i ≤ j

@[simp] lemma newest_nil (w : W) : ¬Newest ([] : List (ℕ × Option W)) w := by simp [Newest]

variable {xs ys : List (ℕ × Option W)}

lemma newest_congr (h : ∀ i v,(i,some v) ∈ xs ↔ (i,some v) ∈ ys) (w : W) : Newest xs w ↔ Newest ys w := by
  simp only [Newest,h]

lemma newest_perm (h : xs.Perm ys) (w : W) : Newest xs w ↔ Newest ys w := by simp only [Newest,h.mem_iff]

lemma newest_swap (x y : ℕ × Option W) (xs : List (ℕ × Option W)) (w : W) : Newest (x::y::xs) w ↔ Newest (y::x::xs) w :=
  newest_perm (List.Perm.swap _ _ _) w

@[simp] lemma newest_none_cons (i : ℕ) (xs : List (ℕ × Option W)) (w : W) : Newest ((i,none)::xs) w ↔ Newest xs w := by
  simp [Newest]

lemma newest_cons_none (i : ℕ) (y : ℕ × Option W) (xs : List (ℕ × Option W)) (w : W) :
    Newest (y::(i,none)::xs) w ↔ Newest (y::xs) w := by simp [Newest]

lemma newest_hidden {i j : ℕ} (hij : i < j) (u : W) (y : Option W) (xs : List (ℕ × Option W)) (w : W) :
    Newest ((i,some u)::(j,y)::xs) w ↔ Newest ((i,some u)::xs) w := by
  constructor
  · rintro ⟨k,hk,hmin⟩
    have hki : k ≤ i := hmin i u (by simp)
    refine ⟨k,?_,fun a v ha => hmin a v (by grind)⟩
    grind
  · rintro ⟨k,hk,hmin⟩
    have hki : k ≤ i := hmin i u (by simp)
    refine ⟨k,by grind,fun a v ha => ?_⟩
    by_cases haj : a = j
    · omega
    · exact hmin a v (by grind)

/-- No source is numbered between `l` and `s`, nor shares a number with them. -/
def Adjacent (l s : ℕ) (is : List ℕ) : Prop := ∀ j ∈ is,j ≠ l ∧ j ≠ s ∧ (j < l ↔ j < s)

variable {l s : ℕ}

lemma Adjacent.symm {is : List ℕ} (h : Adjacent l s is) : Adjacent s l is :=
  fun j hj => ⟨(h j hj).2.1,(h j hj).1,(h j hj).2.2.symm⟩

section

variable (h : Adjacent l s (xs.map Prod.fst))
include h

lemma Adjacent.of_mem {j : ℕ} {y : Option W} (hj : (j,y) ∈ xs) : j ≠ l ∧ j ≠ s ∧ (j < l ↔ j < s) :=
  h j (mem_map_of_mem hj)

lemma newest_move (u w : W) : Newest ((l,some u)::xs) w ↔ Newest ((s,some u)::xs) w := by
  suffices key : ∀ {l s : ℕ},Adjacent l s (xs.map Prod.fst) → Newest ((l,some u)::xs) w →
      Newest ((s,some u)::xs) w from ⟨key h,key h.symm⟩
  rintro l s h ⟨k,hk,hmin⟩
  rcases mem_cons.mp hk with hk | hk
  · obtain ⟨rfl,rfl⟩ : k = l ∧ w = u := by simpa using hk
    refine ⟨s,by simp,fun j v hj => ?_⟩
    rcases mem_cons.mp hj with hj | hj
    · simp_all
    · have h1 := hmin j v (by simp [hj])
      have h2 := h.of_mem hj
      omega
  · refine ⟨k,by simp [hk],fun j v hj => ?_⟩
    rcases mem_cons.mp hj with hj | hj
    · have h1 := hmin l u (by simp)
      have h2 := h.of_mem hk
      have h3 : j = s := by simp_all
      omega
    · exact hmin j v (by simp [hj])

lemma newest_dup (u w : W) : Newest ((l,some u)::(s,some u)::xs) w ↔ Newest ((l,some u)::xs) w := by
  constructor
  · rintro ⟨k,hk,hmin⟩
    by_cases hks : (k,w) = (s,u)
    · obtain ⟨rfl,rfl⟩ : k = s ∧ w = u := by simpa using hks
      refine ⟨l,by simp,fun j v hj => ?_⟩
      rcases mem_cons.mp hj with hj | hj
      · simp_all
      · have h1 := hmin j v (by simp [hj])
        have h2 := h.of_mem hj
        omega
    · refine ⟨k,by grind,fun j v hj => hmin j v (by grind)⟩
  · rintro ⟨k,hk,hmin⟩
    rcases mem_cons.mp hk with hk | hk
    · obtain ⟨rfl,rfl⟩ : k = l ∧ w = u := by simpa using hk
      refine ⟨min k s,?_,fun j v hj => ?_⟩
      · rcases Nat.le_total k s with hle | hle <;> simp [hle]
      · rcases mem_cons.mp hj with hj | hj
        · grind
        · rcases mem_cons.mp hj with hj | hj
          · grind
          · have h1 := hmin j v (by simp [hj])
            omega
    · refine ⟨k,by simp [hk],fun j v hj => ?_⟩
      rcases mem_cons.mp hj with hj | hj
      · exact hmin j v (by simp [hj])
      · rcases mem_cons.mp hj with hj | hj
        · have h1 := hmin l u (by simp)
          have h2 := h.of_mem hk
          have h3 : j = s := by simp_all
          omega
        · exact hmin j v (by simp [hj])

end

lemma newest_exists {i : ℕ} {v : W} (h : (i,some v) ∈ xs) : ∃ w,Newest xs w := by
  classical
  have hex : ∃ j,∃ w,(j,some w) ∈ xs := ⟨i,v,h⟩
  obtain ⟨w,hw⟩ := Nat.find_spec hex
  exact ⟨w,Nat.find hex,hw,fun j u hj => Nat.find_min' hex ⟨u,hj⟩⟩

lemma newest_append (h : ∀ i x j y,(i,x) ∈ xs → (j,y) ∈ ys → i < j) (w : W) :
    Newest (xs++ys) w ↔ Newest xs w ∨ (∀ i v,(i,some v) ∉ xs) ∧ Newest ys w := by
  constructor
  · rintro ⟨k,hk,hmin⟩
    by_cases hx : ∃ i v,(i,some v) ∈ xs
    · obtain ⟨i,v,hi⟩ := hx
      have hki := hmin i v (by simp [hi])
      left
      refine ⟨k,?_,fun j u hj => hmin j u (by simp [hj])⟩
      rcases mem_append.mp hk with hk | hk
      · exact hk
      · have h1 := h i _ k _ hi hk
        omega
    · push Not at hx
      right
      refine ⟨hx,k,?_,fun j u hj => hmin j u (by simp [hj])⟩
      exact (mem_append.mp hk).resolve_left (hx k w)
  · rintro (⟨k,hk,hmin⟩ | ⟨hx,k,hk,hmin⟩)
    · refine ⟨k,by simp [hk],fun j u hj => ?_⟩
      rcases mem_append.mp hj with hj | hj
      · exact hmin j u hj
      · exact (h k _ j _ hk hj).le
    · refine ⟨k,by simp [hk],fun j u hj => ?_⟩
      rcases mem_append.mp hj with hj | hj
      · exact absurd hj (hx j u)
      · exact hmin j u hj

lemma newest_append_congr {xs' : List (ℕ × Option W)} (hx : ∀ i x j y,(i,x) ∈ xs → (j,y) ∈ ys → i < j)
    (hx' : ∀ i x j y,(i,x) ∈ xs' → (j,y) ∈ ys → i < j)
    (h : ∀ v,Newest xs v ↔ Newest xs' v) (w : W) : Newest (xs++ys) w ↔ Newest (xs'++ys) w := by
  have hnone : ∀ zs : List (ℕ × Option W),(∀ i v,(i,some v) ∉ zs) ↔ ∀ v,¬Newest zs v := by
    intro zs
    constructor
    · intro hz v hv
      obtain ⟨i,hi,-⟩ := hv
      exact hz i v hi
    · intro hz i v hi
      obtain ⟨u,hu⟩ := newest_exists hi
      exact hz u hu
  rw [newest_append hx,newest_append hx',hnone,hnone]
  simp only [h]

lemma newest_zipIdx {B : Type*} (f : B → Option W) (bs : List B) (n : ℕ) (w : W) :
    Newest ((bs.zipIdx n).map fun b => (b.2,f b.1)) w ↔ bs.findSome? f = some w := by
  induction bs generalizing n with
  | nil => simp
  | cons b bs ih =>
    rw [zipIdx_cons,map_cons]
    cases hb : f b with
    | none => simpa [hb] using ih (n+1)
    | some v =>
      have hlt : ∀ i x j y,(i,x) ∈ [(n,some v)] → (j,y) ∈ ((bs.zipIdx (n+1)).map fun b => (b.2,f b.1)) → i < j := by
        intro i x j y hi hj
        obtain ⟨⟨c,k⟩,hc,he⟩ := mem_map.mp hj
        have h1 := le_snd_of_mem_zipIdx hc
        simp only [mem_singleton,Prod.mk.injEq] at hi he
        simp only at h1
        omega
      have h := newest_append hlt w
      simp only [singleton_append] at h
      rw [h]
      simp [Newest,hb,eq_comm]

end Fuchsia.Priority
