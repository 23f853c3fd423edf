import Mathlib.Data.Nat.Bitwise
import Mathlib.Tactic

/-! Partitions of an initial segment of the numbers into aligned blocks whose lengths are
powers of two, as a map from the start of each block to its order. -/
namespace Fuchsia.Buddies

open Function Nat

/-- The other half of the block that is twice as long. -/
def buddy (i k : ℕ) : ℕ := i^^^2^k

lemma buddy_mul (q k : ℕ) : buddy (2^k*q) k = 2^k*(q^^^1) := by
  have hxor : (q^^^1)*2^k = (q*2^k)^^^(1*2^k) := by
    simp only [← shiftLeft_eq]
    exact shiftLeft_xor_distrib
  rw [buddy,mul_comm (2^k) (q^^^1),hxor,mul_comm q,one_mul]

lemma xor_one (q : ℕ) : q%2 = 0 ∧ q^^^1 = q+1 ∨ q%2 = 1 ∧ (q^^^1)+1 = q := by
  obtain heven | hodd := even_or_odd q
  · exact .inl ⟨even_iff.mp heven,xor_one_of_even heven⟩
  · have hmod := odd_iff.mp hodd
    refine .inr ⟨hmod,?_⟩
    rw [xor_one_of_odd hodd]
    omega

lemma buddy_cases {i k : ℕ} (h : 2^k ∣ i) :
    2^(k+1) ∣ i ∧ buddy i k = i+2^k ∨ 2^(k+1) ∣ buddy i k ∧ i = buddy i k+2^k := by
  obtain ⟨q,rfl⟩ := h
  rw [buddy_mul]
  obtain ⟨heven,hq⟩ | ⟨hodd,hq⟩ := xor_one q
  · left
    obtain ⟨r,rfl⟩ := dvd_of_mod_eq_zero heven
    refine ⟨⟨r,by rw [pow_succ,mul_assoc]⟩,?_⟩
    rw [hq]
    ring
  · right
    have heven : (q^^^1)%2 = 0 := by omega
    obtain ⟨r,hr⟩ := dvd_of_mod_eq_zero heven
    refine ⟨⟨r,by rw [hr,pow_succ,mul_assoc]⟩,?_⟩
    conv_lhs => rw [← hq]
    ring

lemma buddy_of_dvd {i k : ℕ} (h : 2^(k+1) ∣ i) : buddy i k = i+2^k := by
  obtain ⟨q,rfl⟩ := h
  have hq : 2^(k+1)*q = 2^k*(2*q) := by ring
  rw [hq,buddy_mul]
  obtain ⟨-,hb⟩ | ⟨hodd,-⟩ := xor_one (2*q)
  · rw [hb]
    ring
  · omega

lemma buddy_buddy (i k : ℕ) : buddy (buddy i k) k = i := by
  rw [buddy,buddy,Nat.xor_assoc,Nat.xor_self,Nat.xor_zero]

lemma dvd_buddy {i k : ℕ} (h : 2^k ∣ i) : 2^k ∣ buddy i k := by
  obtain ⟨q,rfl⟩ := h
  exact ⟨q^^^1,buddy_mul q k⟩

lemma buddy_ne (i k : ℕ) : buddy i k ≠ i := by
  intro heq
  have hzero : i^^^(i^^^2^k) = i^^^i := congrArg (i^^^·) heq
  rw [← Nat.xor_assoc,Nat.xor_self,Nat.zero_xor] at hzero
  exact (Nat.two_pow_pos k).ne' hzero

lemma buddy_lt {i k n : ℕ} (h : 2^k ∣ i) (hlt : i < n) (hn : 2^(k+1) ∣ n) : buddy i k < n := by
  have hpos : 0 < 2^k := Nat.two_pow_pos _
  obtain ⟨hdvd,hb⟩ | ⟨-,hb⟩ := buddy_cases h
  · have hle : 2^(k+1) ≤ n-i := le_of_dvd (by omega) (dvd_sub hn hdvd)
    rw [pow_succ] at hle
    omega
  · omega

lemma nested {i j k l m : ℕ} (hi : 2^k ∣ i) (hj : 2^l ∣ j) (hkl : k ≤ l) (him : i ≤ m)
    (hmi : m < i+2^k) (hjm : j ≤ m) (hmj : m < j+2^l) : j ≤ i ∧ i+2^k ≤ j+2^l := by
  have hdvd : 2^k ∣ 2^l := pow_dvd_pow 2 hkl
  obtain ⟨a,ha⟩ := hi
  obtain ⟨b,hb⟩ := hdvd.trans hj
  obtain ⟨c,hc⟩ := hdvd
  have hpos : 0 < 2^k := Nat.two_pow_pos _
  subst ha
  rw [hc] at hmj ⊢
  rw [hb] at hjm hmj ⊢
  constructor
  · refine Nat.mul_le_mul_left _ ?_
    by_contra hlt
    have : 2^k*(a+1) ≤ 2^k*b := Nat.mul_le_mul_left _ (by omega)
    rw [mul_add,mul_one] at this
    omega
  · rw [← mul_add]
    have hlt : 2^k*a < 2^k*(b+c) := by
      rw [mul_add]
      omega
    have := Nat.mul_le_mul_left (2^k) (show a+1 ≤ b+c from Nat.lt_of_mul_lt_mul_left hlt)
    rw [mul_add _ a,mul_one] at this
    exact this

structure Partition (n : ℕ) (blk : ℕ → Option ℕ) : Prop where
  aligned : ∀ {i k},blk i = some k → 2^k ∣ i
  within : ∀ {i k},blk i = some k → i+2^k ≤ n
  cover : ∀ {m},m < n → ∃ i k,blk i = some k ∧ i ≤ m ∧ m < i+2^k
  apart : ∀ {i j k l},blk i = some k → blk j = some l → i < j → i+2^k ≤ j

variable {n i j k l m : ℕ} {blk : ℕ → Option ℕ}

lemma Partition.eq_of_mem (h : Partition n blk) (hi : blk i = some k) (hj : blk j = some l)
    (him : i ≤ m) (hmi : m < i+2^k) (hjm : j ≤ m) (hmj : m < j+2^l) : i = j := by
  by_contra hne
  obtain hlt | hlt := lt_or_gt_of_ne hne
  · have := h.apart hi hj hlt
    omega
  · have := h.apart hj hi hlt
    omega

lemma Partition.inside (h : Partition n blk) (hi : blk i = some k) (hlt : i < j) (hj : j < i+2^k) : blk j = none := by
  cases hbj : blk j with
  | none => rfl
  | some l =>
    have := h.apart hi hbj hlt
    omega

lemma Partition.buddy_block (h : Partition n blk) (hi : blk i = some k)
    (hn : buddy i k < n) : ∃ l ≤ k,blk (buddy i k) = some l := by
  have haligned := h.aligned hi
  have hbuddy := dvd_buddy haligned
  have hpos : 0 < 2^k := Nat.two_pow_pos _
  obtain ⟨j,l,hj,hle,hlt⟩ := h.cover hn
  by_cases hkl : l ≤ k
  · have hdvd : 2^l ∣ buddy i k := (pow_dvd_pow 2 hkl).trans hbuddy
    have hpos' : 0 < 2^l := Nat.two_pow_pos _
    have hnested := nested hdvd (h.aligned hj) le_rfl le_rfl (by omega) hle hlt
    have heq : j = buddy i k := by omega
    exact ⟨l,hkl,heq ▸ hj⟩
  · exfalso
    have hinside : j ≤ i ∧ i < j+2^l := by
      obtain ⟨hdvd,hb⟩ | ⟨hdvd,hb⟩ := buddy_cases haligned
      · have := nested hdvd (h.aligned hj) (by omega) (by omega)
          (show buddy i k < i+2^(k+1) by rw [pow_succ]; omega) hle hlt
        omega
      · have := nested hdvd (h.aligned hj) (by omega) le_rfl
          (show buddy i k < buddy i k+2^(k+1) by rw [pow_succ]; omega) hle hlt
        rw [pow_succ] at this
        omega
    have heq := h.eq_of_mem hi hj le_rfl (by omega) hinside.1 hinside.2
    subst heq
    rw [hi] at hj
    cases hj
    omega

def split (blk : ℕ → Option ℕ) (i k : ℕ) : ℕ → Option ℕ := update (update blk i (some k)) (i+2^k) (some k)

/-- Two halves are replaced by the block. -/
def merge (blk : ℕ → Option ℕ) (i k : ℕ) : ℕ → Option ℕ := update (update blk (i+2^k) none) i (some (k+1))

lemma split_eq_some : split blk i k j = some l ↔ (j = i ∨ j = i+2^k) ∧ l = k ∨ j ≠ i ∧ j ≠ i+2^k ∧ blk j = some l := by
  rw [split]
  by_cases hright : j = i+2^k
  · rw [hright,update_self]
    simp [eq_comm]
  · rw [update_of_ne hright]
    by_cases hleft : j = i
    · rw [hleft,update_self]
      simp [eq_comm]
    · rw [update_of_ne hleft]
      simp [hleft,hright]

lemma merge_eq_some : merge blk i k j = some l ↔ j = i ∧ l = k+1 ∨ j ≠ i ∧ j ≠ i+2^k ∧ blk j = some l := by
  rw [merge]
  by_cases hleft : j = i
  · rw [hleft,update_self]
    simp [eq_comm]
  · rw [update_of_ne hleft]
    by_cases hright : j = i+2^k
    · rw [hright,update_self]
      simp
    · rw [update_of_ne hright]
      simp [hleft,hright]

lemma Partition.split (h : Partition n blk) (hi : blk i = some (k+1)) : Partition n (split blk i k) := by
  have haligned := h.aligned hi
  have hwithin := h.within hi
  have hpow : 2^(k+1) = 2^k+2^k := by ring
  have hpos : 0 < 2^k := Nat.two_pow_pos _
  rw [hpow] at haligned hwithin
  have hhalf : 2^k ∣ i := (Dvd.intro_left 2 (by ring)).trans haligned
  have hout : ∀ {j l},j ≠ i → blk j = some l → i+(2^k+2^k) ≤ j ∨ j+2^l ≤ i := by
    intro j l hj hjl
    obtain hlt | hlt := lt_or_gt_of_ne hj
    · exact .inr (h.apart hjl hi hlt)
    · left
      have := h.apart hi hjl hlt
      omega
  refine ⟨fun hj => ?_,fun hj => ?_,fun {m} hm => ?_,fun {a b k' l'} ha hb hlt => ?_⟩
  · obtain ⟨rfl | rfl,rfl⟩ | ⟨-,-,hj⟩ := split_eq_some.mp hj
    · exact hhalf
    · exact dvd_add hhalf dvd_rfl
    · exact h.aligned hj
  · obtain ⟨rfl | rfl,rfl⟩ | ⟨-,-,hj⟩ := split_eq_some.mp hj
    · omega
    · omega
    · exact h.within hj
  · obtain ⟨j,l,hj,hle,hlt⟩ := h.cover hm
    by_cases hji : j = i
    · subst hji
      rw [hi] at hj
      cases hj
      by_cases hright : m < j+2^k
      · exact ⟨j,k,split_eq_some.mpr (.inl ⟨.inl rfl,rfl⟩),hle,hright⟩
      · exact ⟨j+2^k,k,split_eq_some.mpr (.inl ⟨.inr rfl,rfl⟩),by omega,by omega⟩
    · refine ⟨j,l,split_eq_some.mpr (.inr ⟨hji,?_,hj⟩),hle,hlt⟩
      have := hout hji hj
      have := Nat.two_pow_pos l
      omega
  · obtain ⟨hai,rfl⟩ | ⟨hai,-,hal⟩ := split_eq_some.mp ha <;>
      obtain ⟨hbi,rfl⟩ | ⟨hbi,-,hbl⟩ := split_eq_some.mp hb
    · omega
    · have := hout hbi hbl
      have := Nat.two_pow_pos l'
      omega
    · have := hout hai hal
      omega
    · exact h.apart hal hbl hlt

lemma Partition.merge (h : Partition n blk) (hi : blk i = some k)
    (hright : blk (i+2^k) = some k) (haligned : 2^(k+1) ∣ i) : Partition n (merge blk i k) := by
  have hwithin := h.within hright
  have hpow : 2^(k+1) = 2^k+2^k := by ring
  have hpos : 0 < 2^k := Nat.two_pow_pos _
  have hout : ∀ {j l},j ≠ i → j ≠ i+2^k → blk j = some l → i+(2^k+2^k) ≤ j ∨ j+2^l ≤ i := by
    intro j l hj hj' hjl
    obtain hlt | hlt := lt_or_gt_of_ne hj
    · exact .inr (h.apart hjl hi hlt)
    · left
      have hge := h.apart hi hjl hlt
      have := h.apart hright hjl (by omega)
      omega
  refine ⟨fun hj => ?_,fun hj => ?_,fun {m} hm => ?_,fun {a b k' l'} ha hb hlt => ?_⟩
  · obtain ⟨rfl,rfl⟩ | ⟨-,-,hj⟩ := merge_eq_some.mp hj
    · exact haligned
    · exact h.aligned hj
  · obtain ⟨rfl,rfl⟩ | ⟨-,-,hj⟩ := merge_eq_some.mp hj
    · omega
    · exact h.within hj
  · obtain ⟨j,l,hj,hle,hlt⟩ := h.cover hm
    by_cases hboth : j = i ∨ j = i+2^k
    · refine ⟨i,k+1,merge_eq_some.mpr (.inl ⟨rfl,rfl⟩),by omega,?_⟩
      obtain rfl | rfl := hboth
      · rw [hi] at hj
        cases hj
        omega
      · rw [hright] at hj
        cases hj
        omega
    · rw [not_or] at hboth
      exact ⟨j,l,merge_eq_some.mpr (.inr ⟨hboth.1,hboth.2,hj⟩),hle,hlt⟩
  · obtain ⟨rfl,rfl⟩ | ⟨ha,ha',hal⟩ := merge_eq_some.mp ha <;>
      obtain ⟨rfl,rfl⟩ | ⟨hb,hb',hbl⟩ := merge_eq_some.mp hb
    · omega
    · have := hout hb hb' hbl
      have := Nat.two_pow_pos l'
      omega
    · have := hout ha ha' hal
      omega
    · exact h.apart hal hbl hlt

lemma Partition.extend (h : Partition n blk) (haligned : 2^k ∣ n) : Partition (n+2^k) (update blk n (some k)) := by
  have hupdate : ∀ {j l},update blk n (some k) j = some l ↔ j = n ∧ l = k ∨ j ≠ n ∧ blk j = some l := by
    intro j l
    by_cases hj : j = n
    · rw [hj,update_self]
      simp [eq_comm]
    · rw [update_of_ne hj]
      simp [hj]
  refine ⟨fun hj => ?_,fun hj => ?_,fun {m} hm => ?_,fun {a b k' l'} ha hb hlt => ?_⟩
  · obtain ⟨rfl,rfl⟩ | ⟨-,hj⟩ := hupdate.mp hj
    · exact haligned
    · exact h.aligned hj
  · obtain ⟨rfl,rfl⟩ | ⟨-,hj⟩ := hupdate.mp hj
    · exact le_rfl
    · exact (h.within hj).trans (le_add_right _ _)
  · by_cases hmn : m < n
    · obtain ⟨j,l,hj,hle,hlt⟩ := h.cover hmn
      exact ⟨j,l,hupdate.mpr (.inr ⟨by omega,hj⟩),hle,hlt⟩
    · exact ⟨n,k,hupdate.mpr (.inl ⟨rfl,rfl⟩),not_lt.mp hmn,hm⟩
  · obtain ⟨rfl,rfl⟩ | ⟨-,hal⟩ := hupdate.mp ha <;> obtain ⟨rfl,rfl⟩ | ⟨-,hbl⟩ := hupdate.mp hb
    · omega
    · have := h.within hbl
      have := Nat.two_pow_pos l'
      omega
    · exact h.within hal
    · exact h.apart hal hbl hlt

end Fuchsia.Buddies
