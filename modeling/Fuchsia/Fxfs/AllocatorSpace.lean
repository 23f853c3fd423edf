import Fuchsia.Fxfs.Range

/-! What the allocator is for: which bytes of the device are taken, by whom, and how
they change hands. `Move` lists everything that may happen to them, one step at a
time, and `Safe` is what all of it keeps. -/
namespace Fuchsia.Fxfs

open Multiset Nat

def Range.Has (r : Range) (p : ℕ) : Prop := r.start ≤ p ∧ p < r.stop

instance (r : Range) (p : ℕ) : Decidable (r.Has p) := inferInstanceAs (Decidable (_ ∧ _))

def Range.Aligned (b : ℕ) (r : Range) : Prop := b ∣ r.start ∧ b ∣ r.stop

instance (b : ℕ) (r : Range) : Decidable (r.Aligned b) := inferInstanceAs (Decidable (_ ∧ _))

/-- Ranges of which one ends before the other begins. -/
def Range.Apart (a b : Range) : Prop := a.stop ≤ b.start ∨ b.stop ≤ a.start

instance (a b : Range) : Decidable (a.Apart b) := inferInstanceAs (Decidable (_ ∨ _))

variable {p : ℕ}

lemma Range.Apart.not_has {a b : Range} (h : a.Apart b) (hp : b.Has p) : ¬a.Has p := by
  intro ha
  simp only [Range.Apart,Range.Has] at *
  omega

def coverage (m : Multiset Range) (p : ℕ) : ℕ := m.countP fun r => r.Has p

@[simp] lemma coverage_zero (p : ℕ) : coverage 0 p = 0 := rfl

@[simp] lemma coverage_add (m n : Multiset Range) (p : ℕ) : coverage (m+n) p = coverage m p+coverage n p :=
  countP_add _ _ _

lemma coverage_singleton (r : Range) (p : ℕ) : coverage {r} p = if r.Has p then 1 else 0 := by
  rw [coverage,← cons_zero,countP_cons]
  simp

variable {m : Multiset Range}

lemma coverage_le {n : Multiset Range} (h : m ≤ n) (p : ℕ) : coverage m p ≤ coverage n p :=
  countP_le_of_le _ h

lemma coverage_pos {r : Range} (hr : r ∈ m) (hp : r.Has p) : 0 < coverage m p := countP_pos.mpr ⟨r,hr,hp⟩

lemma coverage_block {b : ℕ} (h : ∀ r ∈ m,r.Aligned b) {q : ℕ} (hpq : p/b = q/b) : coverage m p = coverage m q := by
  refine countP_congr rfl fun r hr => propext ?_
  -- an aligned range has all of a block or nothing of it
  obtain ⟨⟨k,hk⟩,⟨l,hl⟩⟩ := h r hr
  rcases Nat.eq_zero_or_pos b with hb | hb
  · simp [Range.Has,hk,hl,hb]
  · have hle : ∀ k x,b*k ≤ x ↔ k ≤ x/b := fun k x => by rw [le_div_iff_mul_le hb,mul_comm]
    simp only [Range.Has,hk,hl,hle,← not_le,hpq]

/-- `count` are the reference counts. `reserved` are the ranges withheld from
allocation beside those: `allocs`, which open transactions were given, and `stale`,
which were dropped, or freed but not flushed. `freeing` are the deallocations of open
transactions and `found` is what a search has found. While its commit moves a range
between the counts and `reserved` it is in both: `arriving`, `leaving`. -/
@[ext] structure Space where
  count : ℕ → ℤ
  reserved : Multiset Range
  allocs : Multiset Range
  stale : Multiset Range
  freeing : Multiset Range
  arriving : Multiset Range
  leaving : Multiset Range
  found : Multiset Range

namespace Space

structure Free (b n : ℕ) (v : Space) (r : Range) : Prop where
  nonempty : r.start < r.stop
  aligned : r.Aligned b
  inside : r.stop ≤ n
  free : ∀ p,r.Has p → coverage v.reserved p+v.count p ≤ 0

structure Safe (b n : ℕ) (v : Space) : Prop where
  held_le : v.allocs+v.stale ≤ v.reserved
  freeing_le : ∀ p,(coverage v.freeing p : ℤ) ≤ v.count p
  exclusive : ∀ p,coverage v.reserved p+v.count p ≤ 1+coverage v.arriving p+coverage v.leaving p
  owned : ∀ p,coverage v.allocs p+v.count p ≤ 1+coverage v.arriving p
  inside : ∀ p,0 < coverage v.reserved p+v.count p → p < n
  found : ∀ r ∈ v.found,v.Free b n r
  nonempty : ∀ r ∈ v.freeing,r.start < r.stop
  reserved_aligned : ∀ r ∈ v.reserved,r.Aligned b
  freeing_aligned : ∀ r ∈ v.freeing,r.Aligned b
  count_block : ∀ p q,p/b = q/b → v.count p = v.count q

inductive Move (b n : ℕ) : Space → Space → Prop
  | refl {v : Space} : Move b n v v
  | find {v : Space} {r : Range} : v.Free b n r → Move b n v { v with found := {r} }
  | keep {v : Space} {r : Range} : v.found = {r} → Move b n v
      { v with reserved := {r}+v.reserved,allocs := {r}+v.allocs,found := 0 }
  | mark {v : Space} {r : Range} : v.Free b n r → (∀ p,r.Has p → coverage v.found p = 0) →
      Move b n v { v with reserved := {r}+v.reserved,allocs := {r}+v.allocs }
  | discard {v : Space} {r : Range} {as : Multiset Range} : v.allocs = {r}+as →
      Move b n v { v with allocs := as,stale := {r}+v.stale }
  | erase {v : Space} {r : Range} {rs ss : Multiset Range} : v.reserved = {r}+rs →
      v.stale = {r}+ss → Move b n v { v with reserved := rs,stale := ss }
  | pend {v : Space} {m : Multiset Range} : (∀ r ∈ m,r.start < r.stop ∧ r.Aligned b) →
      (∀ p,(coverage (m+v.freeing) p : ℤ) ≤ v.count p) →
      Move b n v { v with freeing := m+v.freeing }
  | giveUp {v : Space} {fs : Multiset Range} : fs ≤ v.freeing → Move b n v { v with freeing := fs }
  | arrive {v : Space} {r : Range} : r ∈ v.allocs → v.arriving = 0 → Move b n v
      { v with count := fun p => v.count p+coverage {r} p,arriving := {r} }
  | settle {v : Space} {r : Range} {rs as : Multiset Range} : v.arriving = {r} →
      v.reserved = {r}+rs → v.allocs = {r}+as →
      Move b n v { v with reserved := rs,allocs := as,arriving := 0 }
  | leave {v : Space} {r : Range} : r ∈ v.freeing → v.arriving = 0 → v.leaving = 0 → Move b n v
      { v with reserved := {r}+v.reserved,stale := {r}+v.stale,leaving := {r} }
  | gone {v : Space} {r : Range} {fs : Multiset Range} : v.freeing = {r}+fs → v.leaving ≤ {r} → Move b n v
      { v with count := fun p => v.count p-coverage {r} p,freeing := fs,leaving := 0 }

variable {b n : ℕ} {v v' : Space} {r : Range}

lemma Safe.count_nonneg (h : v.Safe b n) (p : ℕ) : 0 ≤ v.count p :=
  (Int.natCast_nonneg _).trans (h.freeing_le p)

lemma Safe.held_coverage (h : v.Safe b n) (p : ℕ) : coverage v.allocs p+coverage v.stale p ≤ coverage v.reserved p := by
  rw [← coverage_add]
  exact coverage_le h.held_le p

lemma coverage_singleton_le (r : Range) (p : ℕ) : coverage {r} p ≤ 1 := by
  rw [coverage_singleton]
  split_ifs <;> simp

lemma coverage_singleton_le_of_mem (h : r ∈ m) (p : ℕ) : coverage {r} p ≤ coverage m p :=
  coverage_le (singleton_le.mpr h) p

lemma Safe.free_eq (h : v.Safe b n) (hr : v.Free b n r) (hp : r.Has p) : coverage v.reserved p = 0 ∧ v.count p = 0 := by
  have hfree := hr.free p hp
  have hcount := h.count_nonneg p
  omega

lemma Free.mono (hr : v.Free b n r)
    (hle : ∀ p,r.Has p → coverage v'.reserved p+v'.count p ≤ coverage v.reserved p+v.count p) : v'.Free b n r :=
  ⟨hr.nonempty,hr.aligned,hr.inside,fun p hp => (hle p hp).trans (hr.free p hp)⟩

section

variable (h : v.Safe b n)
include h

variable {fs : Multiset Range}

lemma Safe.take (hr : v.Free b n r) (hfound : ∀ x ∈ fs,x ∈ v.found ∧ ∀ p,x.Has p → ¬r.Has p) : Safe b n { v with
      reserved := {r}+v.reserved,allocs := {r}+v.allocs,found := fs } := by
  have hcases : ∀ p,coverage {r} p = 0 ∨ r.Has p ∧ coverage {r} p = 1 ∧ coverage v.reserved p = 0 ∧ v.count p = 0 := by
    intro p
    by_cases hp : r.Has p
    · exact .inr ⟨hp,by simp [coverage_singleton,hp],h.free_eq hr hp⟩
    · exact .inl (by simp [coverage_singleton,hp])
  have hheld := h.held_coverage
  exact {
    held_le := by
      rw [add_assoc]
      exact add_le_add_right h.held_le {r}
    freeing_le := h.freeing_le
    exclusive := by
      intro p
      have hex := h.exclusive p
      simp only [coverage_add,cast_add]
      rcases hcases p with h0 | ⟨-,h1,h2,h3⟩ <;> omega
    owned := by
      intro p
      have how := h.owned p
      have hh := hheld p
      simp only [coverage_add,cast_add]
      rcases hcases p with h0 | ⟨-,h1,h2,h3⟩ <;> omega
    inside := by
      intro p hpos
      simp only [coverage_add,cast_add] at hpos
      rcases hcases p with h0 | ⟨hp,-,-,-⟩
      · exact h.inside p (by omega)
      · exact hp.2.trans_le hr.inside
    found := by
      intro x hx
      obtain ⟨hx,hdis⟩ := hfound x hx
      refine (h.found x hx).mono fun p hp => ?_
      simp only [coverage_add,coverage_singleton,hdis p hp,if_false,zero_add,le_refl]
    nonempty := h.nonempty
    reserved_aligned := by
      intro x hx
      rcases mem_add.mp hx with hx | hx
      · exact mem_singleton.mp hx ▸ hr.aligned
      · exact h.reserved_aligned x hx
    freeing_aligned := h.freeing_aligned
    count_block := h.count_block }

lemma Safe.unreserve {rs as ss arriving : Multiset Range} (hrs : v.reserved = {r}+rs) (hheld : as+ss ≤ rs)
    (hexclusive : ∀ p,coverage rs p+v.count p ≤ 1+coverage arriving p+coverage v.leaving p)
    (howned : ∀ p,coverage as p+v.count p ≤ 1+coverage arriving p) :
    Safe b n { v with reserved := rs,allocs := as,stale := ss,arriving := arriving } := by
  have hcov : ∀ p,coverage rs p ≤ coverage v.reserved p := by
    intro p
    rw [hrs,coverage_add]
    exact le_add_left _ _
  exact { h with
    held_le := hheld
    exclusive := hexclusive
    owned := howned
    inside := by
      intro p hpos
      have hc := hcov p
      exact h.inside p (by simp only at hpos; omega)
    found := by
      intro x hx
      refine (h.found x hx).mono fun p _ => ?_
      have hc := hcov p
      simp only
      omega
    reserved_aligned := by
      intro x hx
      exact h.reserved_aligned x (by simp [hrs,hx]) }

lemma Safe.erase {rs ss : Multiset Range} (hrs : v.reserved = {r}+rs)
    (hss : v.stale = {r}+ss) : Safe b n { v with reserved := rs,stale := ss } := by
  refine h.unreserve hrs ?_ (fun p => ?_) h.owned
  · have hle := h.held_le
    rw [hrs,hss,add_left_comm] at hle
    exact le_of_add_le_add_left hle
  · have hex := h.exclusive p
    rw [hrs,coverage_add] at hex
    omega

lemma Safe.arrive (hr : r ∈ v.allocs) (ha : v.arriving = 0) :
    Safe b n { v with count := fun p => v.count p+coverage {r} p,arriving := {r} } := by
  have hle : ∀ p,coverage {r} p ≤ coverage v.reserved p := fun p =>
    (coverage_singleton_le_of_mem hr p).trans (le_trans (le_add_right _ _) (h.held_coverage p))
  have hone := coverage_singleton_le r
  have hmem : r ∈ v.reserved := mem_of_le h.held_le (by simp [hr])
  exact { h with
    freeing_le := by
      intro p
      have hf := h.freeing_le p
      simp only
      omega
    exclusive := by
      intro p
      have hex := h.exclusive p
      simp only [ha,coverage_zero] at hex ⊢
      omega
    owned := by
      intro p
      have how := h.owned p
      simp only [ha,coverage_zero] at how ⊢
      omega
    inside := by
      intro p hpos
      have hl := hle p
      have hc := h.count_nonneg p
      exact h.inside p (by simp only at hpos; omega)
    found := by
      intro x hx
      refine (h.found x hx).mono fun p hp => ?_
      have hfree := (h.free_eq (h.found x hx) hp).1
      have hl := hle p
      simp only
      omega
    count_block := by
      intro p q hpq
      have haligned : ∀ x ∈ ({r} : Multiset Range),x.Aligned b := by simpa using h.reserved_aligned r hmem
      simp only [h.count_block p q hpq,coverage_block haligned hpq] }

lemma Safe.settle {rs as : Multiset Range} (ha : v.arriving = {r}) (hrs : v.reserved = {r}+rs)
    (has : v.allocs = {r}+as) : Safe b n { v with reserved := rs,allocs := as,arriving := 0 } := by
  refine h.unreserve hrs ?_ (fun p => ?_) fun p => ?_
  · have hle := h.held_le
    rw [hrs,has,add_assoc] at hle
    exact le_of_add_le_add_left hle
  · have hex := h.exclusive p
    simp only [ha,hrs,coverage_add,coverage_zero] at hex ⊢
    omega
  · have how := h.owned p
    simp only [ha,has,coverage_add,coverage_zero] at how ⊢
    omega

lemma Safe.leave (hr : r ∈ v.freeing) (ha : v.arriving = 0) (hl : v.leaving = 0) :
    Safe b n { v with reserved := {r}+v.reserved,stale := {r}+v.stale,leaving := {r} } := by
  have hle : ∀ p,(coverage {r} p : ℤ) ≤ v.count p := fun p =>
    le_trans (by exact_mod_cast coverage_singleton_le_of_mem hr p) (h.freeing_le p)
  have hone := coverage_singleton_le r
  exact { h with
    held_le := by
      rw [add_left_comm]
      exact add_le_add_right h.held_le {r}
    exclusive := by
      intro p
      have hex := h.exclusive p
      simp only [ha,hl,coverage_add,coverage_zero] at hex ⊢
      omega
    inside := by
      intro p hpos
      simp only [coverage_add] at hpos
      have hp := hle p
      exact h.inside p (by omega)
    found := by
      intro x hx
      refine (h.found x hx).mono fun p hp => ?_
      have hfree := (h.free_eq (h.found x hx) hp).2
      have hp' := hle p
      simp only [coverage_add]
      omega
    reserved_aligned := by
      intro x hx
      rcases mem_add.mp hx with hx | hx
      · exact mem_singleton.mp hx ▸ h.freeing_aligned r hr
      · exact h.reserved_aligned x hx }

lemma Safe.gone (hf : v.freeing = {r}+fs) (hl : v.leaving ≤ {r}) : Safe b n { v with
      count := fun p => v.count p-coverage {r} p,freeing := fs,leaving := 0 } := by
  have hle : ∀ p,coverage v.leaving p ≤ coverage {r} p := fun p => coverage_le hl p
  have hcov : ∀ p,coverage v.freeing p = coverage {r} p+coverage fs p := by
    intro p
    rw [hf,coverage_add]
  exact { h with
    freeing_le := by
      intro p
      have hfree := h.freeing_le p
      have hc := hcov p
      simp only
      omega
    exclusive := by
      intro p
      have hex := h.exclusive p
      have hlp := hle p
      simp only [coverage_zero]
      omega
    owned := by
      intro p
      have how := h.owned p
      simp only
      omega
    inside := by
      intro p hpos
      exact h.inside p (by simp only at hpos; omega)
    found := by
      intro x hx
      refine (h.found x hx).mono fun p _ => ?_
      simp only
      omega
    nonempty := by
      intro x hx
      exact h.nonempty x (by simp [hf,hx])
    freeing_aligned := by
      intro x hx
      exact h.freeing_aligned x (by simp [hf,hx])
    count_block := by
      intro p q hpq
      have haligned : ∀ x ∈ ({r} : Multiset Range),x.Aligned b := by
        simpa using h.freeing_aligned r (by simp [hf])
      simp only [h.count_block p q hpq,coverage_block haligned hpq] }

end

lemma Move.safe (hm : Move b n v v') (h : v.Safe b n) : v'.Safe b n := by
  cases hm with
  | refl => exact h
  | find hr =>
    exact { h with
      found := by
        intro x hx
        obtain rfl := mem_singleton.mp hx
        exact hr.mono fun p _ => le_rfl }
  | keep hf => exact h.take (h.found _ (by simp [hf])) (by simp)
  | mark hr hdis =>
    refine h.take hr fun x hx => ⟨hx,fun p hp hrp => ?_⟩
    exact absurd (hdis p hrp) (coverage_pos hx hp).ne'
  | discard ha =>
    exact { h with
      held_le := by
        have hle := h.held_le
        rw [ha,add_comm {_} _,add_assoc] at hle
        exact hle
      owned := by
        intro p
        have how := h.owned p
        simp only [ha,coverage_add] at how ⊢
        omega
      found := fun x hx => (h.found x hx).mono fun _ _ => le_rfl }
  | erase hrs hss => exact h.erase hrs hss
  | pend hm hle =>
    exact { h with
      freeing_le := hle
      found := fun x hx => (h.found x hx).mono fun _ _ => le_rfl
      nonempty := by
        intro x hx
        rcases mem_add.mp hx with hx | hx
        · exact (hm x hx).1
        · exact h.nonempty x hx
      freeing_aligned := by
        intro x hx
        rcases mem_add.mp hx with hx | hx
        · exact (hm x hx).2
        · exact h.freeing_aligned x hx }
  | giveUp hle =>
    exact { h with
      freeing_le := by
        intro p
        have hp := coverage_le hle p
        have hf := h.freeing_le p
        simp only
        omega
      found := fun x hx => (h.found x hx).mono fun _ _ => le_rfl
      nonempty := fun x hx => h.nonempty x (mem_of_le hle hx)
      freeing_aligned := fun x hx => h.freeing_aligned x (mem_of_le hle hx) }
  | arrive hr ha => exact h.arrive hr ha
  | settle ha hrs has => exact h.settle ha hrs has
  | leave hr ha hl => exact h.leave hr ha hl
  | gone hf hl => exact h.gone hf hl

end Space

end Fuchsia.Fxfs
