import Fuchsia.Fxfs.Allocator
import Fuchsia.Lib.Slots

/-! The allocator's books: which bytes are allocated, promised or on hold, and for
whom. `Move` lists the entries that may be made, and all of them keep the books
balanced. -/
namespace Fuchsia.Fxfs.SimpleAllocator

open Slots List
open Finsupp (single degree_single single_eq_same)

def amountOf (o : Option ReservationInner) : ℕ := o.elim 0 ReservationInner.amount

def reservedOf (o : Option ReservationInner) : ℕ := o.elim 0 ReservationInner.reserved

variable (r : ReservationInner)

@[simp] lemma amountOf_some : amountOf (some r) = r.amount := rfl
@[simp] lemma amountOf_none : amountOf none = 0 := rfl
@[simp] lemma reservedOf_some : reservedOf (some r) = r.reserved := rfl
@[simp] lemma reservedOf_none : reservedOf none = 0 := rfl

/-- The first four are the counters, and `counted` and `queued` what the first and the
fourth of them count. `accounts` are the reservations. The other three say how many
bytes each of them has promised, and how many the device has promised itself
(`none`): as `holds` of callers, as `granted` to calls of `allocate`, and as `owed`
for what transactions have allocated but not committed. -/
structure Ledger where
  allocated : ℤ
  uncommitted : ℕ
  reserved : ℕ
  deallocated : ℕ
  counted : ℤ
  queued : ℕ
  accounts : List (Option ReservationInner)
  holds : Option ℕ →₀ ℕ
  granted : Option ℕ →₀ ℕ
  owed : Option ℕ →₀ ℕ

namespace Ledger

def amounts (l : Ledger) : ℕ := (l.accounts.map amountOf).sum

structure Balanced (n : ℕ) (l : Ledger) : Prop where
  counted : l.allocated = l.counted
  queued : l.deallocated = l.queued
  nonneg : 0 ≤ l.allocated
  within : l.allocated+l.uncommitted+l.reserved ≤ n
  uncommitted : l.uncommitted = l.owed.degree
  reserved : l.reserved+l.uncommitted = l.amounts+l.granted none+l.owed none
  account : ∀ i,l.holds (some i)+l.granted (some i)+l.owed (some i) = (l.accounts.map reservedOf).getD i 0
  solvent : ∀ r,some r ∈ l.accounts → r.reserved ≤ r.amount

inductive Move (n : ℕ) (l : Ledger) : Ledger → Prop
  | refl : Move n l l
  | openAccount {amount : ℕ} : l.allocated+l.uncommitted+l.reserved+amount ≤ n → Move n l
      { l with reserved := l.reserved+amount,accounts := l.accounts++[some ⟨amount,0⟩] }
  | closeAccount {i reserved : ℕ} {r : ReservationInner} : l.accounts[i]? = some (some r) →
      r.reserved = 0 → l.reserved = reserved+r.amount →
      Move n l { l with reserved := reserved,accounts := l.accounts.set i none }
  | hold {i amount : ℕ} {r : ReservationInner} : l.accounts[i]? = some (some r) →
      r.reserved+amount ≤ r.amount → Move n l { l with
        accounts := l.accounts.set i (some ⟨r.amount,r.reserved+amount⟩)
        holds := single (some i) amount+l.holds }
  | unhold {i amount reserved : ℕ} {r : ReservationInner} {holds : Option ℕ →₀ ℕ} :
      l.accounts[i]? = some (some r) → r.reserved = reserved+amount →
      l.holds = single (some i) amount+holds →
      Move n l { l with accounts := l.accounts.set i (some ⟨r.amount,reserved⟩),holds := holds }
  | grant {amount : ℕ} : l.allocated+l.uncommitted+l.reserved+amount ≤ n → Move n l
      { l with reserved := l.reserved+amount,granted := single none amount+l.granted }
  | grantIn {i amount : ℕ} {r : ReservationInner} : l.accounts[i]? = some (some r) →
      r.reserved+amount ≤ r.amount → Move n l { l with
        accounts := l.accounts.set i (some ⟨r.amount,r.reserved+amount⟩)
        granted := single (some i) amount+l.granted }
  | giveBack {amount reserved : ℕ} {granted : Option ℕ →₀ ℕ} : l.reserved = reserved+amount →
      l.granted = single none amount+granted →
      Move n l { l with reserved := reserved,granted := granted }
  | giveBackIn {i amount reserved : ℕ} {r : ReservationInner} {granted : Option ℕ →₀ ℕ} :
      l.accounts[i]? = some (some r) → r.reserved = reserved+amount →
      l.granted = single (some i) amount+granted →
      Move n l { l with accounts := l.accounts.set i (some ⟨r.amount,reserved⟩),granted := granted }
  | use {o : Option ℕ} {amount reserved : ℕ} {granted : Option ℕ →₀ ℕ} :
      l.reserved = reserved+amount → l.granted = single o amount+granted → Move n l { l with
        uncommitted := l.uncommitted+amount
        reserved := reserved
        granted := granted
        owed := single o amount+l.owed }
  | mark {amount : ℕ} : l.allocated+l.uncommitted+l.reserved+amount ≤ n → Move n l
      { l with uncommitted := l.uncommitted+amount,owed := single none amount+l.owed }
  | free {amount : ℕ} : amount ≤ l.allocated → Move n l { l with
        allocated := l.allocated-amount
        deallocated := l.deallocated+amount
        counted := l.counted-amount
        queued := l.queued+amount }
  | freeIn {i amount : ℕ} {r : ReservationInner} : l.accounts[i]? = some (some r) →
      amount ≤ l.allocated → Move n l { l with
        allocated := l.allocated-amount
        reserved := l.reserved+amount
        deallocated := l.deallocated+amount
        counted := l.counted-amount
        queued := l.queued+amount
        accounts := l.accounts.set i (some ⟨r.amount+amount,r.reserved⟩) }
  | settle {amount uncommitted : ℕ} {owed : Option ℕ →₀ ℕ} : l.uncommitted = uncommitted+amount →
      l.owed = single none amount+owed → Move n l { l with
        allocated := l.allocated+amount
        uncommitted := uncommitted
        counted := l.counted+amount
        owed := owed }
  | settleIn {i amount uncommitted : ℕ} {r : ReservationInner} {owed : Option ℕ →₀ ℕ} :
      l.accounts[i]? = some (some ⟨r.amount+amount,r.reserved+amount⟩) →
      l.uncommitted = uncommitted+amount → l.owed = single (some i) amount+owed →
      Move n l { l with
        allocated := l.allocated+amount
        uncommitted := uncommitted
        counted := l.counted+amount
        accounts := l.accounts.set i (some r)
        owed := owed }
  | discard {amount uncommitted : ℕ} {owed : Option ℕ →₀ ℕ} :
      l.uncommitted = uncommitted+amount → l.owed = single none amount+owed →
      Move n l { l with uncommitted := uncommitted,owed := owed }
  | discardIn {i amount uncommitted reserved : ℕ} {r : ReservationInner} {owed : Option ℕ →₀ ℕ} :
      l.accounts[i]? = some (some r) → r.reserved = reserved+amount →
      l.uncommitted = uncommitted+amount → l.owed = single (some i) amount+owed →
      Move n l { l with
        uncommitted := uncommitted
        reserved := l.reserved+amount
        accounts := l.accounts.set i (some ⟨r.amount,reserved⟩)
        owed := owed }
  | flush {amount deallocated queued : ℕ} : l.deallocated = deallocated+amount →
      l.queued = queued+amount → Move n l { l with deallocated := deallocated,queued := queued }

variable {n : ℕ} {l l' : Ledger} {i : ℕ}

lemma Balanced.account_set (h : l.Balanced n) {o o' : Option ReservationInner}
    (hi : l.accounts[i]? = some o) {promised : ℕ → ℕ} (hself : promised i = reservedOf o')
    (hother : ∀ j,i ≠ j → promised j = l.holds (some j)+l.granted (some j)+l.owed (some j))
    (j : ℕ) : promised j = ((l.accounts.set i o').map reservedOf).getD j 0 := by
  rw [getD_map_set hi]
  split_ifs with hij
  · rw [← hij,hself]
  · rw [hother j hij,h.account]

lemma Balanced.account_of_eq (h : l.Balanced n) {o : Option ReservationInner} (hi : l.accounts[i]? = some o) :
    l.holds (some i)+l.granted (some i)+l.owed (some i) = reservedOf o := by
  rw [h.account,getD_map_of_getElem? hi]

variable {r : ReservationInner}

section

variable (h : l.Balanced n)
include h

lemma Balanced.solvent_of_eq (hi : l.accounts[i]? = some (some r)) : r.reserved ≤ r.amount :=
  h.solvent r (mem_of_getElem? hi)

lemma Balanced.reserved_le_amounts (i : ℕ) :
    (l.accounts.map reservedOf).getD i 0 ≤ (l.accounts.map amountOf).getD i 0 := by
  cases hi : l.accounts[i]? with
  | none => simp [getD,hi]
  | some o =>
    rw [getD_map_of_getElem? hi,getD_map_of_getElem? hi]
    cases o with
    | none => exact le_rfl
    | some r => exact h.solvent_of_eq hi

lemma Balanced.granted_le : l.granted.degree ≤ l.reserved := by
  have hslots : ∀ i,(l.granted+l.owed) (some i) ≤ (l.accounts.map amountOf).getD i 0 := by
    intro i
    have ha := h.account i
    have hle := h.reserved_le_amounts i
    rw [Finsupp.add_apply]
    omega
  have hdegree := degree_le_of_slots hslots
  rw [map_add,Finsupp.add_apply] at hdegree
  have hr := h.reserved
  have hu := h.uncommitted
  simp only [amounts] at hr
  omega

end

variable {amount : ℕ}

section

variable (h : l.Balanced n)
include h

variable {o : Option ℕ}

lemma Balanced.granted_single_le
    {granted : Option ℕ →₀ ℕ} (hg : l.granted = single o amount+granted) : amount ≤ l.reserved := by
  have hle := h.granted_le
  rw [hg,map_add,degree_single] at hle
  omega

lemma Balanced.amount_le (hi : l.accounts[i]? = some (some r)) (hr : r.reserved = 0) : r.amount ≤ l.reserved := by
  obtain ⟨rest,hsum,hset,-⟩ := sum_set hi amountOf
  have hslots : ∀ j,l.owed (some j) ≤ ((l.accounts.set i none).map amountOf).getD j 0 := by
    intro j
    have ha := h.account j
    rw [getD_map_set hi]
    split_ifs with hij
    · rw [← hij,getD_map_of_getElem? hi,reservedOf_some,hr] at ha
      rw [← hij]
      omega
    · have hle := h.reserved_le_amounts j
      omega
  have hdegree := degree_le_of_slots hslots
  have hres := h.reserved
  have hu := h.uncommitted
  rw [hset,amountOf_none] at hdegree
  simp only [amounts,hsum,amountOf_some] at hres
  omega

lemma Balanced.owed_single_le {owed : Option ℕ →₀ ℕ} (ho : l.owed = single o amount+owed) : amount ≤ l.uncommitted := by
  rw [h.uncommitted,ho,map_add,degree_single]
  omega

lemma Balanced.promised_le {promised : Option ℕ →₀ ℕ} (hi : l.accounts[i]? = some (some r))
    (hp : l.holds = single (some i) amount+promised ∨ l.granted = single (some i) amount+promised ∨ l.owed = single (some i) amount+promised) :
    amount ≤ r.reserved := by
  have ha := h.account_of_eq hi
  rw [reservedOf_some] at ha
  rcases hp with hp | hp | hp <;>
  · rw [hp,Finsupp.add_apply,single_eq_same] at ha
    omega

lemma Balanced.of_set {r' : ReservationInner} (hi : l.accounts[i]? = some (some r))
    (haccounts : l'.accounts = l.accounts.set i (some r')) (hr' : r'.reserved ≤ r'.amount)
    (hcounted : l'.allocated = l'.counted) (hqueued : l'.deallocated = l'.queued) (hnonneg : 0 ≤ l'.allocated)
    (hwithin : l'.allocated+l'.uncommitted+l'.reserved ≤ n) (huncommitted : l'.uncommitted = l'.owed.degree)
    (hreserved : l'.reserved+l'.uncommitted+r.amount = l.amounts+r'.amount+l'.granted none+l'.owed none)
    (hself : l'.holds (some i)+l'.granted (some i)+l'.owed (some i) = r'.reserved)
    (hother : ∀ j,i ≠ j → l'.holds (some j)+l'.granted (some j)+l'.owed (some j) = l.holds (some j)+l.granted (some j)+l.owed (some j)) :
    l'.Balanced n := by
  refine ⟨hcounted,hqueued,hnonneg,hwithin,huncommitted,?_,?_,?_⟩
  · obtain ⟨rest,hsum,hset,-⟩ := sum_set hi amountOf
    simp only [amounts,haccounts,hset,hsum,amountOf_some] at hreserved ⊢
    omega
  · rw [haccounts]
    exact h.account_set hi hself hother
  · rw [haccounts]
    intro q hq
    rcases mem_or_eq_of_mem_set hq with hq | hq
    · exact h.solvent q hq
    · obtain rfl := Option.some.inj hq
      exact hr'

lemma Balanced.of_accounts (haccounts : l'.accounts = l.accounts) (hcounted : l'.allocated = l'.counted)
    (hqueued : l'.deallocated = l'.queued) (hnonneg : 0 ≤ l'.allocated)
    (hwithin : l'.allocated+l'.uncommitted+l'.reserved ≤ n) (huncommitted : l'.uncommitted = l'.owed.degree)
    (hreserved : l'.reserved+l'.uncommitted = l.amounts+l'.granted none+l'.owed none)
    (hpromised : ∀ j,l'.holds (some j)+l'.granted (some j)+l'.owed (some j) = l.holds (some j)+l.granted (some j)+l.owed (some j)) :
    l'.Balanced n := by
  refine ⟨hcounted,hqueued,hnonneg,hwithin,huncommitted,?_,fun j => ?_,?_⟩
  · rw [hreserved]
    simp only [amounts,haccounts]
  · rw [hpromised,haccounts,h.account]
  · rw [haccounts]
    exact h.solvent

lemma Balanced.openAccount (hle : l.allocated+l.uncommitted+l.reserved+amount ≤ n) : Balanced n
      { l with reserved := l.reserved+amount,accounts := l.accounts++[some ⟨amount,0⟩] } := by
  refine { h with within := ?_,reserved := ?_,account := fun i => ?_,solvent := fun r hr => ?_ }
  · simp only [Nat.cast_add]
    omega
  · have hr := h.reserved
    simp only [amounts,map_append,sum_append,map_cons,sum_cons,map_nil,sum_nil,amountOf_some] at hr ⊢
    omega
  · rw [h.account]
    simp only [getD,map_append]
    by_cases hi : i < l.accounts.length
    · rw [getElem?_append_left (by simpa using hi)]
    · rw [getElem?_append_right (by simpa using hi)]
      have hnone : l.accounts[i]? = none := getElem?_eq_none (not_lt.mp hi)
      cases hz : i-l.accounts.length <;> simp [hnone,hz]
  · rcases mem_append.mp hr with hr | hr
    · exact h.solvent r hr
    · obtain rfl : r = ⟨amount,0⟩ := by simpa using hr
      exact Nat.zero_le _

lemma Balanced.closeAccount {reserved : ℕ} (hi : l.accounts[i]? = some (some r)) (hz : r.reserved = 0)
    (hres : l.reserved = reserved+r.amount) :
    Balanced n { l with reserved := reserved,accounts := l.accounts.set i none } := by
  refine { h with within := ?_,reserved := ?_,account := ?_,solvent := fun r' hr' => ?_ }
  · have hwithin := h.within
    simp only
    omega
  · obtain ⟨rest,hsum,hset,-⟩ := sum_set hi amountOf
    have hr := h.reserved
    simp only [amounts,hset,hsum,amountOf_some,amountOf_none] at hr ⊢
    omega
  · refine h.account_set hi ?_ fun _ _ => rfl
    rw [h.account_of_eq hi,reservedOf_some,hz,reservedOf_none]
  · rcases mem_or_eq_of_mem_set hr' with hr' | hr'
    · exact h.solvent r' hr'
    · simp at hr'

end

lemma Move.balanced (hm : Move n l l') (h : l.Balanced n) : l'.Balanced n := by
  have hwithin := h.within
  have hnonneg := h.nonneg
  have hu := h.uncommitted
  have hr := h.reserved
  have hc := h.counted
  have hq := h.queued
  cases hm with
  | refl => exact h
  | openAccount hle => exact h.openAccount hle
  | closeAccount hi hz hres => exact h.closeAccount hi hz hres
  | @hold i amount r hi hle =>
    have ha := h.account_of_eq hi
    refine h.of_set hi rfl hle hc hq hnonneg hwithin hu (by simp only; omega) ?_ fun j hij => ?_
    · simp only [Finsupp.add_apply,single_eq_same,reservedOf_some] at ha ⊢
      omega
    · simp [hij]
  | @unhold i amount reserved r holds hi hres hholds =>
    have ha := h.account_of_eq hi
    have hs := h.solvent_of_eq hi
    refine h.of_set hi rfl (by simp only; omega) hc hq hnonneg hwithin hu (by simp only; omega) ?_ fun j hij => ?_
    · simp only [hholds,Finsupp.add_apply,single_eq_same,reservedOf_some] at ha ⊢
      omega
    · simp [hholds,hij]
  | @grant amount hle =>
    refine h.of_accounts rfl hc hq hnonneg (by simp only [Nat.cast_add]; omega) hu ?_ fun j => ?_
    · simp only [Finsupp.add_apply,single_eq_same]
      omega
    · simp
  | @grantIn i amount r hi hle =>
    have ha := h.account_of_eq hi
    refine h.of_set hi rfl hle hc hq hnonneg hwithin hu ?_ ?_ fun j hij => ?_
    · simp
      omega
    · simp only [Finsupp.add_apply,single_eq_same,reservedOf_some] at ha ⊢
      omega
    · simp [hij]
  | @giveBack amount reserved granted hres hg =>
    refine h.of_accounts rfl hc hq hnonneg (by simp only; omega) hu ?_ fun j => ?_
    · simp only [hg,Finsupp.add_apply,single_eq_same] at hr ⊢
      omega
    · simp [hg]
  | @giveBackIn i amount reserved r granted hi hres hg =>
    have ha := h.account_of_eq hi
    have hs := h.solvent_of_eq hi
    refine h.of_set hi rfl (by simp only; omega) hc hq hnonneg hwithin hu ?_ ?_ fun j hij => ?_
    · simp [hg] at hr ⊢
      omega
    · simp only [hg,Finsupp.add_apply,single_eq_same,reservedOf_some] at ha ⊢
      omega
    · simp [hg,hij]
  | @use o amount reserved granted hres hg =>
    refine h.of_accounts rfl hc hq hnonneg (by simp only [Nat.cast_add]; omega) ?_ ?_ fun j => ?_
    · simp only [map_add,degree_single]
      omega
    · simp only [hg,Finsupp.add_apply] at hr ⊢
      omega
    · simp only [hg,Finsupp.add_apply]
      omega
  | @mark amount hle =>
    refine h.of_accounts rfl hc hq hnonneg (by simp only [Nat.cast_add]; omega) ?_ ?_ fun j => ?_
    · simp only [map_add,degree_single]
      omega
    · simp only [Finsupp.add_apply,single_eq_same]
      omega
    · simp
  | @free amount hle =>
    exact h.of_accounts rfl (by simp only; omega) (by simp only; omega) (by simp only; omega)
      (by simp only; omega) hu hr fun j => rfl
  | @freeIn i amount r hi hle =>
    have hs := h.solvent_of_eq hi
    have ha := h.account_of_eq hi
    exact h.of_set hi rfl (by simp only; omega) (by simp only; omega) (by simp only; omega)
      (by simp only; omega) (by simp only [Nat.cast_add]; omega) hu (by simp only; omega) ha fun j _ => rfl
  | @settle amount uncommitted owed hun ho =>
    refine h.of_accounts rfl (by simp only; omega) hq (by simp only; omega) (by simp only; omega) ?_ ?_ fun j => ?_
    · simp only [ho,map_add,degree_single] at hu ⊢
      omega
    · simp only [ho,Finsupp.add_apply,single_eq_same] at hr ⊢
      omega
    · simp [ho]
  | @settleIn i amount uncommitted r owed hi hun ho =>
    have hs := h.solvent_of_eq hi
    have ha := h.account_of_eq hi
    refine h.of_set hi rfl (by simp only at hs; omega) (by simp only; omega) hq
      (by simp only; omega) (by simp only; omega) ?_ ?_ ?_ fun j hij => ?_
    · simp only [ho,map_add,degree_single] at hu ⊢
      omega
    · simp [ho] at hr ⊢
      omega
    · simp only [ho,Finsupp.add_apply,single_eq_same,reservedOf_some] at ha ⊢
      omega
    · simp [ho,hij]
  | @discard amount uncommitted owed hun ho =>
    refine h.of_accounts rfl hc hq hnonneg (by simp only; omega) ?_ ?_ fun j => ?_
    · simp only [ho,map_add,degree_single] at hu ⊢
      omega
    · simp only [ho,Finsupp.add_apply,single_eq_same] at hr ⊢
      omega
    · simp [ho]
  | @discardIn i amount uncommitted reserved r owed hi hres hun ho =>
    have hs := h.solvent_of_eq hi
    have ha := h.account_of_eq hi
    refine h.of_set hi rfl (by simp only; omega) hc hq hnonneg
      (by simp only [Nat.cast_add]; omega) ?_ ?_ ?_ fun j hij => ?_
    · simp only [ho,map_add,degree_single] at hu ⊢
      omega
    · simp [ho] at hr ⊢
      omega
    · simp only [ho,Finsupp.add_apply,single_eq_same,reservedOf_some] at ha ⊢
      omega
    · simp [ho,hij]
  | flush hd hqueue =>
    exact h.of_accounts rfl hc (by simp only; omega) hnonneg hwithin hu hr fun j => rfl

end Ledger

end Fuchsia.Fxfs.SimpleAllocator
