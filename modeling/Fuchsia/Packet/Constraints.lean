import Fuchsia.Lib.Fallible

/-! `PacketConstraints` (`packet/src/serialize.rs`) and the builders that are made of
`PacketBuilder`s with `encapsulate` and `with_mtu`, for a `usize` of any width. -/
namespace Fuchsia.Packet

open Fallible

structure PacketConstraints where
  headerLen : ℕ
  footerLen : ℕ
  minBodyLen : ℕ
  maxBodyLen : ℕ
  deriving DecidableEq,Repr

/-- Why there are no constraints: the result is `None`, or a sum that is not checked overflows. -/
inductive Fault
  | none
  | overflow
  deriving DecidableEq,Repr

section Usize

variable (maxUsize : ℕ)

def checkedAdd (a b : ℕ) : Except Fault ℕ := if a+b ≤ maxUsize then .ok (a+b) else .error .none

def checkedSub (a b : ℕ) : Except Fault ℕ := if b ≤ a then .ok (a-b) else .error .none

/-- A sum that is not checked. -/
def add (a b : ℕ) : Except Fault ℕ := if a+b ≤ maxUsize then .ok (a+b) else .error .overflow

namespace PacketConstraints

def tryNew (headerLen footerLen minBodyLen maxBodyLen : ℕ) : Except Fault PacketConstraints :=
  let headerMinBodyFooter := checkedAdd maxUsize headerLen minBodyLen >>= fun sum =>
    checkedAdd maxUsize sum footerLen
  if maxBodyLen < minBodyLen ∨ headerMinBodyFooter.isOk = false then .error .none
  else .ok ⟨headerLen,footerLen,minBodyLen,maxBodyLen⟩

/-- The two properties that every `PacketConstraints` is documented to have. -/
structure Valid (c : PacketConstraints) : Prop where
  min_le_max : c.minBodyLen ≤ c.maxBodyLen
  no_overflow : c.headerLen+c.minBodyLen+c.footerLen ≤ maxUsize

end PacketConstraints

open PacketConstraints

/-- A `PacketBuilder` has constraints that `PacketConstraints::new` accepts. -/
inductive Builder
  | packet (c : PacketConstraints)
      (accepted : tryNew maxUsize c.headerLen c.footerLen c.minBodyLen c.maxBodyLen = .ok c)
  | nested (inner outer : Builder)
  | withMtu (mtu : ℕ) (inner : Builder)

end Usize

open PacketConstraints

variable {maxUsize : ℕ}

namespace Builder

def tryConstraints : Builder maxUsize → Except Fault PacketConstraints
  | .packet c _ => .ok c
  | .nested inner outer => do
    let inner ← inner.tryConstraints
    let outer ← outer.tryConstraints
    let headerLen ← checkedAdd maxUsize inner.headerLen outer.headerLen
    let footerLen ← checkedAdd maxUsize inner.footerLen outer.footerLen
    let innerHeaderFooterLen ← add maxUsize inner.headerLen inner.footerLen
    let minBodyLen := max (outer.minBodyLen-innerHeaderFooterLen) inner.minBodyLen
    let room ← checkedSub outer.maxBodyLen innerHeaderFooterLen
    tryNew maxUsize headerLen footerLen minBodyLen (min room inner.maxBodyLen)
  | .withMtu mtu inner => do
    let c ← inner.tryConstraints
    let headerFooterLen ← add maxUsize c.headerLen c.footerLen
    let room ← checkedSub mtu headerFooterLen
    return { c with maxBodyLen := min room c.maxBodyLen }

/-- The length of the packet that `serialize_into` makes of a body; each `PacketBuilder` pads its own. -/
def serializedLen : Builder maxUsize → ℕ → ℕ
  | .packet c _,len => c.headerLen+max len c.minBodyLen+c.footerLen
  | .nested inner outer,len => outer.serializedLen (inner.serializedLen len)
  | .withMtu _ inner,len => inner.serializedLen len

def WithinMtu : Builder maxUsize → ℕ → Prop
  | .packet _ _,_ => True
  | .nested inner outer,len => inner.WithinMtu len ∧ outer.WithinMtu (inner.serializedLen len)
  | .withMtu mtu inner,len => inner.WithinMtu len ∧ inner.serializedLen len ≤ mtu

/-- What callers rely on. -/
structure Guaranteed (b : Builder maxUsize) : Prop where
  sums : b.tryConstraints ≠ .error .overflow
  valid : ∀ c,b.tryConstraints = .ok c → c.Valid maxUsize
  within : ∀ c,b.tryConstraints = .ok c → ∀ len,c.minBodyLen ≤ len → len ≤ c.maxBodyLen → b.WithinMtu len

def headerFooterLen : Builder maxUsize → ℕ
  | .packet c _ => c.headerLen+c.footerLen
  | .nested inner outer => inner.headerFooterLen+outer.headerFooterLen
  | .withMtu _ inner => inner.headerFooterLen

def minBodyLen : Builder maxUsize → ℕ
  | .packet c _ => c.minBodyLen
  | .nested inner outer => max (outer.minBodyLen-inner.headerFooterLen) inner.minBodyLen
  | .withMtu _ inner => inner.minBodyLen

/-- Each limit around the whole leaves room for the shortest packet inside it, if there is one, or not even
for the headers and footers. -/
def Roomy : Builder maxUsize → Prop
  | .withMtu mtu inner => inner.tryConstraints.isOk → inner.headerFooterLen ≤ mtu →
      inner.headerFooterLen+inner.minBodyLen ≤ mtu ∧ inner.Roomy
  | _ => True

end Builder

variable {c : PacketConstraints}

section Arithmetic

variable {a b n : ℕ}

lemma checkedAdd_eq_ok : checkedAdd maxUsize a b = .ok n ↔ a+b ≤ maxUsize ∧ a+b = n := by
  unfold checkedAdd
  split_ifs with h <;> simp [h]

lemma checkedSub_eq_ok : checkedSub a b = .ok n ↔ b ≤ a ∧ a-b = n := by
  unfold checkedSub
  split_ifs with h <;> simp [h]

lemma checkedAdd_ne : checkedAdd maxUsize a b ≠ .error .overflow := by
  unfold checkedAdd
  split_ifs <;> simp

lemma checkedSub_ne : checkedSub a b ≠ .error .overflow := by
  unfold checkedSub
  split_ifs <;> simp

lemma add_eq (h : a+b ≤ maxUsize) : add maxUsize a b = .ok (a+b) := if_pos h

lemma tryNew_eq_ok {header footer least most : ℕ} : tryNew maxUsize header footer least most = .ok c ↔
      (least ≤ most ∧ header+least+footer ≤ maxUsize) ∧ c = ⟨header,footer,least,most⟩ := by
  have hsum : (checkedAdd maxUsize header least >>= fun sum => checkedAdd maxUsize sum footer).isOk = true ↔
      header+least+footer ≤ maxUsize := by
    unfold checkedAdd
    by_cases h : header+least ≤ maxUsize
    · rw [if_pos h,ok_bind]
      split_ifs with h' <;> simp [Except.isOk,Except.toBool,h']
    · rw [if_neg h]
      simp only [bind,Except.bind,Except.isOk,Except.toBool,Bool.false_eq_true,false_iff]
      omega
  simp only [tryNew,Bool.eq_false_iff,ne_eq,hsum]
  split_ifs with h
  · simp only [false_iff]
    omega
  · rw [Except.ok.injEq,eq_comm,iff_and_self]
    omega

end Arithmetic

namespace Builder

structure Describes (c : PacketConstraints) (b : Builder maxUsize) : Prop where
  headerFooterLen : c.headerLen+c.footerLen = b.headerFooterLen
  minBodyLen : c.minBodyLen = b.minBodyLen
  no_overflow : c.headerLen+c.minBodyLen+c.footerLen ≤ maxUsize
  serializedLen : ∀ len,c.minBodyLen ≤ len → b.serializedLen len = b.headerFooterLen+len
  within : ∀ len,c.minBodyLen ≤ len → len ≤ c.maxBodyLen → b.WithinMtu len

lemma nested_eq_ok {inner outer : Builder maxUsize} (h : (nested inner outer).tryConstraints = .ok c) :
    ∃ i o,inner.tryConstraints = .ok i ∧ outer.tryConstraints = .ok o ∧
      i.headerLen+i.footerLen ≤ o.maxBodyLen ∧ c.Valid maxUsize ∧ c = ⟨i.headerLen+o.headerLen,i.footerLen+o.footerLen,
        max (o.minBodyLen-(i.headerLen+i.footerLen)) i.minBodyLen,
        min (o.maxBodyLen-(i.headerLen+i.footerLen)) i.maxBodyLen⟩ := by
  rw [tryConstraints] at h
  obtain ⟨i,hi,h⟩ := bind_eq_ok.mp h
  obtain ⟨o,ho,h⟩ := bind_eq_ok.mp h
  obtain ⟨header,hheader,h⟩ := bind_eq_ok.mp h
  obtain ⟨footer,hfooter,h⟩ := bind_eq_ok.mp h
  obtain ⟨both,hboth,h⟩ := bind_eq_ok.mp h
  obtain ⟨room,hroom,h⟩ := bind_eq_ok.mp h
  obtain ⟨-,rfl⟩ := checkedAdd_eq_ok.mp hheader
  obtain ⟨-,rfl⟩ := checkedAdd_eq_ok.mp hfooter
  obtain ⟨hle,rfl⟩ := checkedSub_eq_ok.mp hroom
  obtain ⟨⟨hmin,hsum⟩,rfl⟩ := tryNew_eq_ok.mp h
  unfold add at hboth
  split_ifs at hboth
  cases hboth
  exact ⟨i,o,hi,ho,hle,⟨hmin,hsum⟩,rfl⟩

lemma mtu_eq {mtu : ℕ} {inner : Builder maxUsize} (h : inner.tryConstraints = .ok c)
    (hsum : c.headerLen+c.footerLen ≤ maxUsize) :
    (withMtu mtu inner).tryConstraints = if c.headerLen+c.footerLen ≤ mtu then
      .ok { c with maxBodyLen := min (mtu-(c.headerLen+c.footerLen)) c.maxBodyLen } else .error .none := by
  rw [tryConstraints,h,ok_bind,add_eq hsum,ok_bind,checkedSub]
  split_ifs with hle
  · rfl
  · rfl

variable (b : Builder maxUsize)

lemma describes (h : b.tryConstraints = .ok c) : Describes c b := by
  induction b generalizing c with
  | packet c' accepted =>
    cases h
    obtain ⟨⟨-,hsum⟩,-⟩ := tryNew_eq_ok.mp accepted
    refine ⟨rfl,rfl,hsum,fun len hlen => ?_,fun _ _ _ => trivial⟩
    simp only [serializedLen,Builder.headerFooterLen,max_eq_left hlen]
    omega
  | nested inner outer ihi iho =>
    obtain ⟨i,o,hi,ho,hle,hvalid,rfl⟩ := nested_eq_ok h
    have di := ihi hi
    have dO := iho ho
    have hlen : ∀ len,max (o.minBodyLen-(i.headerLen+i.footerLen)) i.minBodyLen ≤ len →
        inner.serializedLen len = i.headerLen+i.footerLen+len ∧ o.minBodyLen ≤ i.headerLen+i.footerLen+len := by
      intro len hlen
      rw [di.serializedLen len (le_of_max_le_right hlen),di.headerFooterLen]
      have hmin := le_of_max_le_left hlen
      rw [di.headerFooterLen] at hmin
      exact ⟨rfl,by omega⟩
    refine ⟨?_,?_,hvalid.no_overflow,fun len h => ?_,fun len h h' => ?_⟩
    · simp only [Builder.headerFooterLen,← di.headerFooterLen,← dO.headerFooterLen]
      omega
    · simp only [Builder.minBodyLen,← di.headerFooterLen,← di.minBodyLen,← dO.minBodyLen]
    · rw [Builder.serializedLen,(hlen len h).1,dO.serializedLen _ (hlen len h).2,Builder.headerFooterLen,
        di.headerFooterLen]
      omega
    · have hroom := le_min_iff.mp h'
      rw [WithinMtu,(hlen len h).1]
      exact ⟨di.within len (le_of_max_le_right h) hroom.2,dO.within _ (hlen len h).2 (by omega)⟩
  | withMtu mtu inner ih =>
    cases hinner : inner.tryConstraints with
    | error e =>
      rw [tryConstraints,hinner] at h
      cases h
    | ok i =>
      have di := ih hinner
      have hsum := di.no_overflow
      rw [mtu_eq hinner (by omega)] at h
      split_ifs at h with hle
      cases h
      refine ⟨di.headerFooterLen,di.minBodyLen,hsum,di.serializedLen,fun len h h' => ?_⟩
      have hroom := le_min_iff.mp h'
      refine ⟨di.within len h hroom.2,?_⟩
      rw [di.serializedLen len h,← di.headerFooterLen]
      omega

lemma sums_within : b.tryConstraints ≠ .error .overflow := by
  induction b with
  | packet c accepted => simp [tryConstraints]
  | nested inner outer ihi iho =>
    rw [tryConstraints]
    intro h
    obtain h | ⟨i,hi,h⟩ := bind_eq_error.mp h
    · exact ihi h
    obtain h | ⟨o,-,h⟩ := bind_eq_error.mp h
    · exact iho h
    obtain ⟨header,-,h⟩ := (bind_eq_error.mp h).resolve_left checkedAdd_ne
    obtain ⟨footer,-,h⟩ := (bind_eq_error.mp h).resolve_left checkedAdd_ne
    have hsum := (inner.describes hi).no_overflow
    rw [add_eq (by omega),ok_bind] at h
    obtain ⟨room,-,h⟩ := (bind_eq_error.mp h).resolve_left checkedSub_ne
    simp only [tryNew] at h
    split_ifs at h
    simp at h
  | withMtu mtu inner ih =>
    cases hinner : inner.tryConstraints with
    | error e =>
      rw [tryConstraints,hinner]
      intro h
      cases h
      exact ih hinner
    | ok i =>
      have hsum := (inner.describes hinner).no_overflow
      rw [mtu_eq hinner (by omega)]
      split_ifs <;> simp

lemma valid_iff (h : b.tryConstraints = .ok c) : c.Valid maxUsize ↔ b.Roomy := by
  have hsum := (b.describes h).no_overflow
  induction b generalizing c with
  | packet c' accepted =>
    cases h
    exact iff_of_true ⟨(tryNew_eq_ok.mp accepted).1.1,hsum⟩ trivial
  | nested inner outer =>
    obtain ⟨i,o,-,-,-,hvalid,-⟩ := nested_eq_ok h
    exact iff_of_true hvalid trivial
  | withMtu mtu inner ih =>
    cases hinner : inner.tryConstraints with
    | error e =>
      rw [tryConstraints,hinner] at h
      cases h
    | ok i =>
      have di := inner.describes hinner
      have hinsum := di.no_overflow
      have hrec := ih hinner hinsum
      rw [mtu_eq hinner (by omega)] at h
      split_ifs at h with hle
      cases h
      have hok : inner.tryConstraints.isOk = true := by rw [hinner]; rfl
      rw [Roomy,← di.headerFooterLen,← di.minBodyLen]
      constructor
      · intro hv _ _
        have hmin : i.minBodyLen ≤ mtu-(i.headerLen+i.footerLen) ∧ i.minBodyLen ≤ i.maxBodyLen :=
          le_min_iff.mp hv.min_le_max
        exact ⟨by omega,hrec.mp ⟨hmin.2,hinsum⟩⟩
      · intro hroomy
        obtain ⟨hroom,hinner⟩ := hroomy hok hle
        exact ⟨le_min (by simp only; omega) (hrec.mpr hinner).min_le_max,hsum⟩

/-- The documented properties of constraints hold for a builder if and only if the limits around the whole
of it leave room for the shortest packet; the constructor that checks them is not used for these. -/
theorem guaranteed_iff (b : Builder maxUsize) : b.Guaranteed ↔ b.Roomy := by
  cases hb : b.tryConstraints with
  | ok c =>
    rw [← b.valid_iff hb]
    constructor
    · exact fun h => h.valid c hb
    · intro h
      refine ⟨b.sums_within,fun c' hc' => ?_,fun c' hc' => (b.describes hc').within⟩
      cases hb.symm.trans hc'
      exact h
  | error e =>
    refine iff_of_true ⟨b.sums_within,by simp [hb],by simp [hb]⟩ ?_
    cases b with
    | packet c accepted | nested inner outer => trivial
    | withMtu mtu inner =>
      intro hok hle
      cases hinner : inner.tryConstraints with
      | error e =>
        rw [hinner] at hok
        cases hok
      | ok i =>
        have di := inner.describes hinner
        have hsum := di.no_overflow
        rw [mtu_eq hinner (by omega),if_pos (di.headerFooterLen.trans_le hle)] at hb
        cases hb

def shortFrame : Builder (2^64-1) := .withMtu 50 (.packet ⟨14,0,46,2^64-1⟩ (by decide))

theorem shortFrame_not_guaranteed : ¬ shortFrame.Guaranteed := by
  intro h
  have hmin := (h.valid ⟨14,0,46,36⟩ (by decide)).min_le_max
  exact absurd hmin (by decide)

end Builder

end Fuchsia.Packet
