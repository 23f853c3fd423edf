import Fuchsia.Fxfs.IntervalTree

/-! What the operations of the interval tree do to the points of the intervals. The
intervals of a tree are ascending and disjoint; adding one whose properties win over
those it overlaps gives its points to it, and removing a range takes its points out. -/
namespace Fuchsia.Fxfs.IntervalTree

open Fallible Ranges List Range

variable {P : Type}

instance : Ranged (Interval P) ℕ := ⟨fun a => a.range.start,fun a => a.range.stop⟩

def Holds (t : List (Interval P)) (x : ℕ) (p : P) : Prop :=
  ∃ a ∈ t,(a.range.start ≤ x ∧ x < a.range.stop) ∧ a.properties = p

def InRange (r : Range) (x : ℕ) : Prop := r.start ≤ x ∧ x < r.stop

instance (r : Range) (x : ℕ) : Decidable (InRange r x) := inferInstanceAs (Decidable (_ ∧ _))

/-- The two ends of every interval have the property. -/
def Ends (Q : ℕ → Prop) (t : List (Interval P)) : Prop := ∀ a ∈ t,Q a.range.start ∧ Q a.range.stop

@[simp] lemma holds_nil (x : ℕ) (p : P) : ¬Holds [] x p := by simp [Holds]

variable {Q : ℕ → Prop} {a current : Interval P} {t u others : List (Interval P)}
  {x : ℕ} {p : P}

lemma holds_cons : Holds (a::t) x p ↔ (InRange a.range x ∧ a.properties = p) ∨ Holds t x p := by
  simp [Holds,InRange]

lemma holds_singleton : Holds [a] x p ↔ InRange a.range x ∧ a.properties = p := by simp [holds_cons]

lemma holds_append : Holds (t++u) x p ↔ Holds t x p ∨ Holds u x p := by simp [Holds,or_and_right,exists_or]

lemma ends_append : Ends Q (t++u) ↔ Ends Q t ∧ Ends Q u := forall_mem_append

lemma ascending_unique (ht : Ascending t) {q : P} (hp : Holds t x p) (hq : Holds t x q) : p = q := by
  obtain ⟨a,ha,hax,rfl⟩ := hp
  obtain ⟨b,hb,hbx,rfl⟩ := hq
  rw [ht.eq_of_covers ha hb hax hbx]

/-- Intervals that share no point. -/
def Apart (t u : List (Interval P)) : Prop := ∀ x p q,Holds t x p → ¬Holds u x q

section Insertion

lemma Apart.tail {b : Interval P} (h : Apart u (b::t)) : Apart u t := fun x p q hp hq =>
  h x p q hp (holds_cons.mpr (.inr hq))

lemma Apart.ranges {b : Interval P} (ha : a.range.start < a.range.stop) (hb : b.range.start < b.range.stop)
    (h : Apart [a] (b::t)) : a.range.stop ≤ b.range.start ∨ b.range.stop ≤ a.range.start := by
  by_contra hcon
  push Not at hcon
  refine h (max a.range.start b.range.start) a.properties b.properties ?_ ?_
  · exact holds_cons.mpr (.inl ⟨⟨le_max_left _ _,max_lt ha hcon.1⟩,rfl⟩)
  · exact holds_cons.mpr (.inl ⟨⟨le_max_right _ _,max_lt hcon.2 hb⟩,rfl⟩)

lemma insertAt_holds (ha : a.range.isValid) (ht : Ascending t) (hapart : Apart [a] t) :
    Holds (insertAt a t) x p ↔ Holds [a] x p ∨ Holds t x p := by
  induction t with
  | nil => simp [insertAt]
  | cons b t ih =>
    have hb : b.range.start < b.range.stop := (ascending_cons.mp ht).1
    have ha : a.range.start < a.range.stop := ha
    have hdisj := hapart.ranges ha hb
    by_cases hlt : a.range.start < b.range.start
    · rw [insertAt,if_pos hlt,holds_cons]
      simp [holds_cons]
    · rw [insertAt,if_neg hlt,if_neg (by omega),holds_cons,ih ht.tail hapart.tail,@holds_cons _ b]
      grind

lemma mem_insertAt {b : Interval P} (h : b ∈ insertAt a t) : b = a ∨ b ∈ t := by
  induction t with
  | nil => simpa [insertAt] using h
  | cons c t ih =>
    simp only [insertAt] at h
    split_ifs at h
    · simpa using h
    · rcases mem_cons.mp h with h | h
      · exact .inl h
      · exact .inr (by simp [h])
    · rcases mem_cons.mp h with h | h
      · exact .inr (by simp [h])
      · rcases ih h with h | h
        · exact .inl h
        · exact .inr (by simp [h])

lemma insertAt_ascending (ha : a.range.isValid) (ht : Ascending t) (hapart : Apart [a] t) :
    Ascending (insertAt a t) := by
  induction t with
  | nil =>
    rw [insertAt,ascending_cons]
    exact ⟨ha,by simp,ascending_nil⟩
  | cons b t ih =>
    obtain ⟨hb,hle,htail⟩ := ascending_cons.mp ht
    change b.range.start < b.range.stop at hb
    have ha : a.range.start < a.range.stop := ha
    have hdisj := hapart.ranges ha hb
    by_cases hlt : a.range.start < b.range.start
    · rw [insertAt,if_pos hlt,ascending_cons]
      have hab : a.range.stop ≤ b.range.start := by omega
      refine ⟨ha,fun c hc => ?_,ht⟩
      exact hab.trans (ht.lo_head_le hc)
    · have hba : b.range.stop ≤ a.range.start := by omega
      rw [insertAt,if_neg hlt,if_neg (by omega),ascending_cons]
      refine ⟨hb,fun c hc => ?_,ih htail hapart.tail⟩
      rcases mem_insertAt hc with rfl | hc
      · exact hba
      · exact hle c hc

lemma Apart.step {news t' : List (Interval P)} (hsep : ∀ b ∈ news,Apart [a] [b]) (hapart : Apart (a::news) t)
    (hholds : ∀ x p,Holds t' x p ↔ Holds [a] x p ∨ Holds t x p) : Apart news t' := by
  intro x p q hp hq
  rcases (hholds x q).mp hq with hq | hq
  · obtain ⟨b,hb,hbx,hbp⟩ := hp
    exact hsep b hb x q p hq (holds_cons.mpr (.inl ⟨hbx,hbp⟩))
  · exact hapart x p q (holds_cons.mpr (.inr hp)) hq

lemma insertAll (news : List (Interval P)) (ht : Ascending t) (hvalid : ∀ a ∈ news,a.range.isValid)
    (hnews : news.Pairwise fun a b => Apart [a] [b]) (hapart : Apart news t) :
    Ascending (news.foldl (fun t a => insertAt a t) t) ∧
    (∀ x p,Holds (news.foldl (fun t a => insertAt a t) t) x p ↔ Holds news x p ∨ Holds t x p) ∧
    ∀ Q : ℕ → Prop,Ends Q t → Ends Q news → Ends Q (news.foldl (fun t a => insertAt a t) t) := by
  induction news generalizing t with
  | nil => exact ⟨ht,by simp,fun Q hq _ => hq⟩
  | cons a news ih =>
    rw [pairwise_cons] at hnews
    have ha : a.range.isValid := hvalid a (by simp)
    have hat : Apart [a] t := fun x p q hp hq => hapart x p q
      (holds_cons.mpr ((holds_cons.mp hp).imp_right (by simp))) hq
    have hholds : ∀ x p,Holds (insertAt a t) x p ↔ Holds [a] x p ∨ Holds t x p :=
      fun x p => insertAt_holds ha ht hat
    obtain ⟨hasc,hall,hends⟩ := ih (insertAt_ascending ha ht hat)
      (fun b hb => hvalid b (by simp [hb])) hnews.2 (hapart.step hnews.1 hholds)
    refine ⟨hasc,fun x p => ?_,fun Q hq hqn => hends Q (fun b hb => ?_) fun b hb => ?_⟩
    · rw [foldl_cons,hall x p,hholds,holds_cons,holds_cons]
      simp only [holds_nil,or_false]
      grind
    · rcases mem_insertAt hb with rfl | hb
      · exact hqn b (by simp)
      · exact hq b hb
    · exact hqn b (by simp [hb])

lemma mem_removeAffected (ht : Ascending t) (r : Range) : removeAffected t r = t.filter fun b => ¬r.touches b.range := by
  have hfold : ∀ (u s : List (Interval P)),u.foldl (fun t a => t.filter fun b => b.range.start ≠ a.range.start) s =
        s.filter fun b => ∀ a ∈ u,b.range.start ≠ a.range.start := by
    intro u
    induction u with
    | nil => simp
    | cons a u ih =>
      intro s
      rw [foldl_cons,ih,filter_filter]
      refine filter_congr fun b _ => ?_
      simp [Bool.and_comm]
  rw [removeAffected,hfold]
  refine filter_congr fun b hb => ?_
  rw [decide_eq_decide]
  simp only [affected,mem_filter,decide_eq_true_eq]
  constructor
  · exact fun h htouch => h b ⟨hb,htouch⟩ rfl
  · intro h a ha heq
    have hlt : a.range.start < b.range.stop := heq ▸ ht.1 b hb
    have hab : a = b := ht.eq_of_covers ha.1 hb ⟨le_rfl,ht.1 a ha.1⟩ ⟨heq.le,hlt⟩
    exact h (hab ▸ ha.2)

end Insertion

section Pieces

def keep (a : Interval P) (start stop : ℕ) : List (Interval P) :=
  if start < stop then [piece a start stop] else []

def Separate (t : List (Interval P)) : Prop := t.Pairwise fun a b => Apart [a] [b]

def Valid (t : List (Interval P)) : Prop := ∀ a ∈ t,a.range.isValid

variable {start stop : ℕ}

lemma holds_keep : Holds (keep a start stop) x p ↔ (start ≤ x ∧ x < stop) ∧ a.properties = p := by
  rw [keep]
  split_ifs with h
  · simp [holds_singleton,piece,InRange]
  · simp only [holds_nil,false_iff,not_and]
    omega

lemma valid_keep : Valid (keep a start stop) := by
  intro b hb
  rw [keep] at hb
  split_ifs at hb with h
  · obtain rfl : b = piece a start stop := by simpa using hb
    exact h
  · simp at hb

lemma ends_keep (h : start < stop → Q start ∧ Q stop) : Ends Q (keep a start stop) := by
  intro b hb
  rw [keep] at hb
  split_ifs at hb with hlt
  · obtain rfl : b = piece a start stop := by simpa using hb
    exact h hlt
  · simp at hb

lemma separate_keep : Separate (keep a start stop) := by
  rw [keep]
  split_ifs <;> simp [Separate]

lemma separate_singleton : Separate [a] := by simp [Separate]

lemma valid_singleton (ha : a.range.isValid) : Valid [a] := forall_mem_singleton.mpr ha

lemma Valid.append (ht : Valid t) (hu : Valid u) : Valid (t++u) := forall_mem_append.mpr ⟨ht,hu⟩

lemma Separate.append (ht : Separate t) (hu : Separate u) (h : Apart t u) : Separate (t++u) := by
  refine pairwise_append.mpr ⟨ht,hu,fun a ha b hb x p q hp hq => ?_⟩
  rw [holds_singleton] at hp hq
  exact h x p q ⟨a,ha,hp.1,hp.2⟩ ⟨b,hb,hq.1,hq.2⟩

end Pieces

section Adding

variable {r o : Interval P}

/-- What `split_or_merge` does with an interval that wins over the other one. -/
structure Split (r o : Interval P) (pushed : List (Interval P)) (next : Interval P) : Prop where
  properties : next.properties = r.properties
  valid : Valid (pushed++[next])
  separate : Separate (pushed++[next])
  range : next.range = r.range ∨
    (next.range = r.range.merge o.range ∧ r.range.touches o.range ∧ o.properties = r.properties)
  holds : ∀ x p,Holds (pushed++[next]) x p ↔ (InRange r.range x ∧ r.properties = p) ∨
      (¬InRange r.range x ∧ InRange o.range x ∧ o.properties = p)
  ends : ∀ Q : ℕ → Prop,Ends Q [r,o] → Ends Q (pushed++[next])

lemma ends_merge (ha : a.range = r.range.merge o.range) (h : Ends Q [r,o]) : Ends Q [a] := by
  intro b hb
  obtain rfl : b = a := by simpa using hb
  have hr := h r (by simp)
  have ho := h o (by simp)
  rw [ha]
  refine ⟨?_,?_⟩
  · rcases min_choice r.range.start o.range.start with h | h
    · exact (congrArg Q h).mpr hr.1
    · exact (congrArg Q h).mpr ho.1
  · rcases max_choice r.range.stop o.range.stop with h | h
    · exact (congrArg Q h).mpr hr.2
    · exact (congrArg Q h).mpr ho.2

lemma inRange_merge {a b : Range} (h : a.touches b) : InRange (a.merge b) x ↔ InRange a x ∨ InRange b x := by
  simp only [InRange,Range.merge,touches,overlaps,isAdjacent] at h ⊢
  omega

section

variable (hr : r.range.isValid)
include hr

lemma split_merge (htouch : r.range.touches o.range)
    (hp : r.properties = o.properties) : Split r o [] ⟨r.range.merge o.range,r.properties⟩ where
  properties := rfl
  valid := valid_singleton <| by
    simp only [isValid,Range.merge] at hr ⊢
    omega
  separate := separate_singleton
  range := .inr ⟨rfl,htouch,hp.symm⟩
  holds x p := by
    rw [nil_append,holds_singleton,inRange_merge htouch,hp]
    grind
  ends Q h := ends_merge rfl h

lemma split_adjacent (ho : o.range.isValid) (hadj : r.range.isAdjacent o.range) : Split r o [o] r where
  properties := rfl
  valid := (valid_singleton ho).append (valid_singleton hr)
  separate := by
    refine separate_singleton.append separate_singleton fun x p q hp hq => ?_
    rw [holds_singleton] at hp hq
    simp only [InRange,isAdjacent] at hp hq hadj
    omega
  range := .inl rfl
  holds x p := by
    have hne : InRange r.range x → ¬InRange o.range x := by
      simp only [InRange,isAdjacent] at hadj ⊢
      omega
    rw [holds_append,holds_singleton,holds_singleton]
    grind
  ends Q h := fun a ha => h a (by simp at ha ⊢; grind)

lemma split_override (hover : r.range.overlaps o.range) :
    Split r o (keep o o.range.start r.range.start++keep o r.range.stop o.range.stop) r where
  properties := rfl
  valid := (valid_keep.append valid_keep).append (valid_singleton hr)
  separate := by
    refine (separate_keep.append separate_keep fun x p q hp hq => ?_).append separate_singleton fun x p q hp hq => ?_
    · rw [holds_keep] at hp hq
      simp only [isValid] at hr
      omega
    · rw [holds_append,holds_keep,holds_keep] at hp
      rw [holds_singleton,InRange] at hq
      omega
  range := .inl rfl
  holds x p := by
    have hin : ((o.range.start ≤ x ∧ x < r.range.start) ∨ (r.range.stop ≤ x ∧ x < o.range.stop)) ↔
        ¬InRange r.range x ∧ InRange o.range x := by
      simp only [InRange,overlaps] at hover ⊢
      omega
    rw [holds_append,holds_append,holds_keep,holds_keep,holds_singleton,← or_and_right,hin]
    grind
  ends Q h := by
    have hqr := h r (by simp)
    have hqo := h o (by simp)
    refine ends_append.mpr ⟨ends_append.mpr ⟨ends_keep fun _ => ⟨hqo.1,hqr.1⟩,ends_keep fun _ => ⟨hqr.2,hqo.2⟩⟩,?_⟩
    exact fun a ha => h a (by simp at ha ⊢; grind)

lemma splitOrMerge_spec [DecidableEq P] {overrides : P → P → Bool} (ho : o.range.isValid)
    (htouch : r.range.touches o.range) (hdom : r.range.overlaps o.range → o.properties = r.properties ∨
      overrides r.properties o.properties) :
    ∃ pushed next,splitOrMerge overrides r o = .ok (pushed,some next) ∧ Split r o pushed next := by
  rw [splitOrMerge,if_neg (not_not.mpr htouch)]
  by_cases hp : r.properties = o.properties
  · rw [if_pos hp]
    exact ⟨_,_,rfl,split_merge hr htouch hp⟩
  · rw [if_neg hp]
    by_cases hadj : r.range.isAdjacent o.range
    · rw [if_pos hadj]
      exact ⟨_,_,rfl,split_adjacent hr ho hadj⟩
    · have hover := htouch.resolve_right hadj
      rw [if_neg hadj,if_pos ((hdom hover).resolve_left fun h => hp h.symm)]
      have hsplit := split_override hr hover
      by_cases hcon : r.range.containsRange o.range
      · rw [if_pos hcon]
        simp only [containsRange] at hcon
        rw [keep,if_neg (by omega),keep,if_neg (by omega)] at hsplit
        exact ⟨_,_,rfl,hsplit⟩
      · rw [if_neg hcon]
        exact ⟨_,_,rfl,hsplit⟩

end

/-- What remains of the current interval, before the affected intervals that are left:
only its last step can move its end, and only its first step its start. -/
structure Growing (current r : Interval P) (others : List (Interval P)) : Prop where
  properties : r.properties = current.properties
  valid : r.range.isValid
  start_le : r.range.start ≤ current.range.start
  stop_le : current.range.stop ≤ r.range.stop
  stop : others = [] ∨ r.range.stop = current.range.stop
  start : r.range.start = current.range.start ∨ ∀ o ∈ others,current.range.start ≤ o.range.start

section

variable (h : Growing current r (o::others))
include h

lemma Growing.touches (ho : o.range.isValid) (htouch : current.range.touches o.range) : r.range.touches o.range := by
  have hstop := h.stop.resolve_left (by simp)
  have hstart := h.start.imp_right fun hs => hs o (by simp)
  have hle := h.start_le
  simp only [Range.touches,overlaps,isAdjacent,isValid] at htouch ho ⊢
  omega

lemma Growing.overlaps (hover : r.range.overlaps o.range) : current.range.overlaps o.range := by
  have hstop := h.stop.resolve_left (by simp)
  have hstart := h.start.imp_right fun hs => hs o (by simp)
  simp only [Range.overlaps] at hover ⊢
  omega

lemma Growing.next {next : Interval P} {pushed : List (Interval P)}
    (hs : Split r o pushed next) (hasc : Ascending (o::others))
    (htouch : ∀ a ∈ o::others,current.range.touches a.range) : Growing current next others := by
  have ho : o.range.isValid := hasc.1 o (by simp)
  have hrest : ∀ a ∈ others,o.range.stop ≤ a.range.start := (ascending_cons.mp hasc).2.1
  have hstop := h.stop.resolve_left (by simp)
  have hvalid := hs.valid next (by simp)
  have hle := h.start_le
  rcases hs.range with hrange | ⟨hrange,-,-⟩
  · refine ⟨hs.properties.trans h.properties,hvalid,?_,?_,.inr ?_,?_⟩
    · rw [hrange]
      exact hle
    · rw [hrange]
      exact h.stop_le
    · rw [hrange]
      exact hstop
    · rw [hrange]
      exact h.start.imp_right fun hs a ha => hs a (by simp [ha])
  · have htouch_o := htouch o (by simp)
    simp only [Range.touches,Range.overlaps,isAdjacent,isValid] at htouch_o ho
    refine ⟨hs.properties.trans h.properties,hvalid,?_,?_,?_,?_⟩
    · simp only [hrange,Range.merge]
      omega
    · simp only [hrange,Range.merge]
      omega
    · cases others with
      | nil => exact .inl rfl
      | cons a others =>
        have ha := hrest a (by simp)
        have htouch_a := htouch a (by simp)
        simp only [Range.touches,Range.overlaps,isAdjacent] at htouch_a
        refine .inr ?_
        simp only [hrange,Range.merge]
        omega
    · by_cases hlt : o.range.start < current.range.start
      · refine .inr fun a ha => ?_
        have ha := hrest a ha
        omega
      · rcases h.start with hs | hs
        · refine .inl ?_
          simp only [hrange,Range.merge]
          omega
        · exact .inr fun a ha => hs a (by simp [ha])

end

variable {next : Interval P}

lemma Split.inRange {pushed : List (Interval P)} (hs : Split r o pushed next)
    (hx : InRange r.range x) : InRange next.range x := by
  rcases hs.range with h | ⟨h,htouch,-⟩
  · exact h ▸ hx
  · rw [h,inRange_merge htouch]
    exact .inl hx

lemma Split.pushed {pushed : List (Interval P)} (hs : Split r o pushed next)
    (hx : Holds pushed x p) : ¬InRange next.range x ∧ InRange o.range x := by
  have hnext : ¬InRange next.range x := by
    intro hin
    obtain ⟨a,ha,hax,hap⟩ := hx
    have happ := (pairwise_append.mp hs.separate).2.2 a ha next (by simp)
    exact happ x p next.properties (holds_singleton.mpr ⟨hax,hap⟩) (holds_singleton.mpr ⟨hin,rfl⟩)
  rcases (hs.holds x p).mp (holds_append.mpr (.inl hx)) with ⟨hr,-⟩ | ⟨-,ho,-⟩
  · exact absurd (hs.inRange hr) hnext
  · exact ⟨hnext,ho⟩

lemma not_holds_of_ascending (hasc : Ascending (o::others)) (hx : InRange o.range x) : ¬Holds others x p := by
  rintro ⟨a,ha,hax,-⟩
  have hle : o.range.stop ≤ a.range.start := (ascending_cons.mp hasc).2.1 a ha
  have hlt := hx.2
  omega

lemma Ends.filter (h : Ends Q t) (f : Interval P → Bool) : Ends Q (t.filter f) := fun a ha => h a (mem_filter.mp ha).1

section Affected

variable (ht : Ascending t) (r : Range)
include ht

lemma removeAffected_ascending : Ascending (removeAffected t r) := by
  rw [mem_removeAffected ht]
  exact ht.sublist filter_sublist

lemma holds_affected_or : Holds t x p ↔ Holds (affected t r) x p ∨ Holds (removeAffected t r) x p := by
  rw [mem_removeAffected ht]
  simp [Holds,affected,← exists_or,← or_and_right,← and_or_left,em]

lemma affected_apart : Apart (affected t r) (removeAffected t r) := by
  rw [mem_removeAffected ht]
  rintro x p q ⟨a,ha,hax,-⟩ ⟨b,hb,hbx,-⟩
  have ha : a ∈ t ∧ r.touches a.range := by simpa [affected] using ha
  have hb : b ∈ t ∧ ¬r.touches b.range := by simpa using hb
  have hab : a = b := ht.eq_of_covers ha.1 hb.1 hax hbx
  exact hb.2 (hab ▸ ha.2)

lemma not_inRange_of_removeAffected (h : Holds (removeAffected t r) x p) : ¬InRange r x := by
  rw [mem_removeAffected ht] at h
  obtain ⟨b,hb,hbx,-⟩ := h
  have hb : b ∈ t ∧ ¬r.touches b.range := by simpa using hb
  have hno := hb.2
  simp only [InRange,touches,overlaps] at hno ⊢
  omega

end Affected

variable [DecidableEq P] {overrides : P → P → Bool}

lemma insertLoop_spec {count i : ℕ} (h : Growing current r others) (hasc : Ascending others)
    (htouch : ∀ a ∈ others,current.range.touches a.range)
    (hdom : ∀ a ∈ others,current.range.overlaps a.range → a.properties = current.properties ∨ overrides current.properties a.properties) :
    ∃ news last,insertLoop overrides current count i others (some r) = .ok (news,some last) ∧
      Valid (news++[last]) ∧ Separate (news++[last]) ∧
      (∀ x p,Holds (news++[last]) x p ↔ (InRange r.range x ∧ current.properties = p) ∨
        (¬InRange r.range x ∧ Holds others x p)) ∧ ∀ Q : ℕ → Prop,Ends Q (r::others) → Ends Q (news++[last]) := by
  induction others generalizing r i with
  | nil =>
    refine ⟨[],r,rfl,valid_singleton h.valid,separate_singleton,fun x p => ?_,fun Q hQ => hQ⟩
    rw [nil_append,holds_singleton,h.properties]
    simp
  | cons o others ih =>
    have ho : o.range.isValid := hasc.1 o (by simp)
    have hto : current.range.touches o.range := htouch o (by simp)
    have hwin : r.range.overlaps o.range → o.properties = r.properties ∨
        overrides r.properties o.properties := fun hover => by
      rw [h.properties]
      exact hdom o (by simp) (h.overlaps hover)
    obtain ⟨pushed,next,hsplit,hs⟩ := splitOrMerge_spec h.valid ho (h.touches ho hto) hwin
    obtain ⟨news,last,hloop,hvalid,hsep,hholds,hends⟩ := @ih next (i+1)
      (h.next hs hasc htouch) hasc.tail (fun a ha => htouch a (by simp [ha])) fun a ha => hdom a (by simp [ha])
    refine ⟨pushed++news,last,?_,?_,?_,fun x p => ?_,fun Q hQ => ?_⟩
    · simp [insertLoop,require,hto,hsplit,hloop,bind,Except.bind,pure,Except.pure]
    · rw [append_assoc]
      exact Valid.append (fun a ha => hs.valid a (by simp [ha])) hvalid
    · rw [append_assoc]
      refine Separate.append (pairwise_append.mp hs.separate).1 hsep fun x p q hp hq => ?_
      obtain ⟨hnext,hox⟩ := hs.pushed hp
      rcases (hholds x q).mp hq with ⟨hin,-⟩ | ⟨-,hq⟩
      · exact hnext hin
      · exact not_holds_of_ascending hasc hox hq
    · have hsplits := hs.holds x p
      have hsub : InRange r.range x → InRange next.range x := hs.inRange
      have hcov : InRange next.range x → InRange r.range x ∨ InRange o.range x := by
        intro hx
        rcases hs.range with h | ⟨h,htouch,-⟩
        · exact .inl (h ▸ hx)
        · rwa [h,inRange_merge htouch] at hx
      have hdis : InRange o.range x → ¬Holds others x p := not_holds_of_ascending hasc
      rw [holds_append,holds_singleton,hs.properties,h.properties] at hsplits
      rw [append_assoc,holds_append,hholds,holds_cons]
      by_cases hR : InRange r.range x
      · have hN := hsub hR
        simp only [hR,hN,true_and,not_true,false_and,or_false] at hsplits ⊢
        exact hsplits
      · by_cases hN : InRange next.range x
        · have hO := (hcov hN).resolve_left hR
          simp only [hR,hN,hO,hdis hO,true_and,not_true,not_false_iff,false_and,false_or,or_false] at hsplits ⊢
          exact hsplits
        · simp only [hR,hN,true_and,not_false_iff,false_and,false_or,or_false] at hsplits ⊢
          rw [hsplits]
    · rw [append_assoc,ends_append]
      have hpair : Ends Q [r,o] := fun a ha => hQ a (by simp at ha ⊢; grind)
      have hparts := ends_append.mp (hs.ends Q hpair)
      refine ⟨hparts.1,hends Q fun a ha => ?_⟩
      rcases mem_cons.mp ha with rfl | ha
      · exact hparts.2 a (by simp)
      · exact hQ a (by simp [ha])

structure Added (t : List (Interval P)) (current : Interval P) (t' : List (Interval P)) :
    Prop where
  ascending : Ascending t'
  holds : ∀ x p,Holds t' x p ↔ (InRange current.range x ∧ current.properties = p) ∨
    (¬InRange current.range x ∧ Holds t x p)
  ends : ∀ Q : ℕ → Prop,Ends Q t → Ends Q [current] → Ends Q t'

lemma addInterval_spec (ht : Ascending t) (hc : current.range.isValid)
    (hdom : ∀ a ∈ t,current.range.overlaps a.range → a.properties = current.properties ∨ overrides current.properties a.properties) :
    ∃ t',addInterval overrides t current = .ok t' ∧ Added t current t' := by
  have hgrow : Growing current current (affected t current.range) :=
    ⟨rfl,hc,le_rfl,le_rfl,.inr rfl,.inl rfl⟩
  have hmem : ∀ a ∈ affected t current.range,a ∈ t ∧ current.range.touches a.range := by
    intro a ha
    simpa [affected] using ha
  obtain ⟨news,last,hloop,hvalid,hsep,hholds,hends⟩ := @insertLoop_spec _ current _ _ _ overrides
    (affected t current.range).length 0 hgrow (ht.sublist filter_sublist)
    (fun a ha => (hmem a ha).2) fun a ha => hdom a (hmem a ha).1
  have hapart : Apart (news++[last]) (removeAffected t current.range) := by
    intro x p q hp hq
    rcases (hholds x p).mp hp with ⟨hin,-⟩ | ⟨-,hp⟩
    · exact not_inRange_of_removeAffected ht _ hq hin
    · exact affected_apart ht _ x p q hp hq
  refine ⟨(news++[last]).foldl (fun t a => insertAt a t) (removeAffected t current.range),?_,?_⟩
  · simp [addInterval,require,hc,hloop,bind,Except.bind,pure,Except.pure]
  · obtain ⟨hasc,hall,hkeep⟩ := insertAll _ (removeAffected_ascending ht _) hvalid hsep hapart
    refine ⟨hasc,fun x p => ?_,fun Q hQt hQc => hkeep Q ?_ (hends Q fun a ha => ?_)⟩
    · rw [hall,hholds,holds_affected_or ht current.range]
      have hno := @not_inRange_of_removeAffected _ t x p ht current.range
      grind
    · rw [mem_removeAffected ht]
      exact hQt.filter _
    · rcases mem_cons.mp ha with rfl | ha
      · exact hQc a (by simp)
      · exact hQt a (hmem a ha).1

lemma addIntervals_spec {news : List (Interval P)} (ht : Ascending t) (hvalid : Valid news) (hsep : Separate news)
    (hapart : Apart news t) : ∃ t',addIntervals overrides t news = .ok t' ∧ Ascending t' ∧
      (∀ x p,Holds t' x p ↔ Holds news x p ∨ Holds t x p) ∧ ∀ Q : ℕ → Prop,Ends Q t → Ends Q news → Ends Q t' := by
  induction news generalizing t with
  | nil => exact ⟨t,rfl,ht,by simp,fun Q hq _ => hq⟩
  | cons a news ih =>
    have ha := hvalid a (by simp)
    rw [Separate,pairwise_cons] at hsep
    have hfree : ∀ x p,InRange a.range x → ¬Holds t x p := fun x p hx =>
      hapart x a.properties p (holds_cons.mpr (.inl ⟨hx,rfl⟩))
    obtain ⟨t1,hadd,h1⟩ := @addInterval_spec _ a t _ overrides ht ha fun b hb hover => by
      have hx : max a.range.start b.range.start < min a.range.stop b.range.stop := hover
      refine absurd ⟨b,hb,⟨le_max_right _ _,hx.trans_le (min_le_right _ _)⟩,rfl⟩
        (hfree (max a.range.start b.range.start) b.properties ⟨le_max_left _ _,hx.trans_le (min_le_left _ _)⟩)
    have hholds1 : ∀ x p,Holds t1 x p ↔ Holds [a] x p ∨ Holds t x p := by
      intro x p
      rw [h1.holds,holds_singleton]
      have hno := hfree x p
      grind
    obtain ⟨t2,hadds,hasc,hall,hends⟩ := ih h1.ascending (fun b hb => hvalid b (by simp [hb]))
      hsep.2 (.step hsep.1 hapart hholds1)
    refine ⟨t2,by simp [addIntervals,hadd,hadds,bind,Except.bind],hasc,fun x p => ?_,
      fun Q hq hqn => hends Q (h1.ends Q hq fun b hb => hqn b (by simp at hb ⊢; grind)) fun b hb => hqn b (by simp [hb])⟩
    rw [hall,hholds1,@holds_cons _ a news,holds_singleton]
    grind

end Adding

section Removing

variable {range : Range}

def CutEnds (Q : ℕ → Prop) (range : Range) (t : List (Interval P)) : Prop :=
  ∀ a ∈ t,(a.range.start < range.start → range.start < a.range.stop → Q range.start) ∧
    (a.range.start < range.stop → range.stop < a.range.stop → Q range.stop)

structure Cut (a : Interval P) (range : Range) (remainings : List (Interval P))
    (out : Option (Interval P)) : Prop where
  valid : Valid remainings
  separate : Separate remainings
  remaining : ∀ x p,Holds remainings x p ↔ (InRange a.range x ∧ a.properties = p) ∧ ¬InRange range x
  removed : ∀ x p,Holds out.toList x p ↔ (InRange a.range x ∧ a.properties = p) ∧ InRange range x
  removedValid : Valid out.toList
  ends : ∀ Q : ℕ → Prop,Ends Q [a] → CutEnds Q range [a] → Ends Q remainings ∧ Ends Q out.toList

lemma cut_pieces (hover : a.range.overlaps range) :
    Cut a range (keep a a.range.start range.start++keep a range.stop a.range.stop)
      (some (piece a (max a.range.start range.start) (min a.range.stop range.stop))) where
  valid := valid_keep.append valid_keep
  separate := by
    refine separate_keep.append separate_keep fun x p q hp hq => ?_
    rw [holds_keep] at hp hq
    simp only [overlaps] at hover
    omega
  remaining x p := by
    have hin : ((a.range.start ≤ x ∧ x < range.start) ∨ (range.stop ≤ x ∧ x < a.range.stop)) ↔
        InRange a.range x ∧ ¬InRange range x := by
      simp only [InRange,overlaps] at hover ⊢
      omega
    rw [holds_append,holds_keep,holds_keep,← or_and_right,hin]
    grind
  removed x p := by
    simp only [Option.toList_some,holds_singleton,piece,InRange,max_le_iff,lt_min_iff]
    grind
  removedValid b hb := by
    obtain rfl : b = piece a (max a.range.start range.start) (min a.range.stop range.stop) := by simpa using hb
    exact hover
  ends Q hQ hcut := by
    have hqa := hQ a (by simp)
    have hc := hcut a (by simp)
    have hov : max a.range.start range.start < min a.range.stop range.stop := hover
    refine ⟨ends_append.mpr ⟨ends_keep fun h => ⟨hqa.1,hc.1 h (by omega)⟩,
      ends_keep fun h => ⟨hc.2 (by omega) h,hqa.2⟩⟩,fun b hb => ?_⟩
    obtain rfl : b = piece a (max a.range.start range.start) (min a.range.stop range.stop) := by simpa using hb
    refine ⟨?_,?_⟩
    · rcases le_or_gt range.start a.range.start with h | h
      · exact (congrArg Q (max_eq_left h)).mpr hqa.1
      · exact (congrArg Q (max_eq_right h.le)).mpr (hc.1 h (by omega))
    · rcases le_or_gt a.range.stop range.stop with h | h
      · exact (congrArg Q (min_eq_left h)).mpr hqa.2
      · exact (congrArg Q (min_eq_right h.le)).mpr (hc.2 (by omega) h)

lemma difference_eq (ha : a.range.isValid) (hover : a.range.overlaps range) :
    difference a range = .ok (keep a a.range.start range.start++keep a range.stop a.range.stop,
        some (piece a (max a.range.start range.start) (min a.range.stop range.stop))) := by
  obtain ⟨⟨start,stop⟩,p⟩ := a
  have hover' := hover
  simp only [overlaps] at hover'
  simp only [difference,if_neg (not_not.mpr hover),keep,piece]
  by_cases h1 : range.containsRange ⟨start,stop⟩
  · rw [if_pos h1]
    simp only [containsRange] at h1
    rw [if_neg (by omega),if_neg (by omega),max_eq_left (by omega),min_eq_left (by omega)]
    rfl
  · rw [if_neg h1]
    by_cases h2 : containsRange ⟨start,stop⟩ range
    · rw [if_pos h2]
      simp only [containsRange] at h2
      rw [max_eq_right (by omega),min_eq_right (by omega)]
    · rw [if_neg h2]
      simp only [containsRange] at h1 h2
      by_cases h3 : start < range.start
      · rw [if_pos h3,if_pos h3,if_neg (by omega),max_eq_right (by omega), min_eq_left (by omega)]
        rfl
      · rw [if_neg h3,if_pos (by omega),if_neg h3,if_pos (by omega),max_eq_left (by omega),min_eq_right (by omega)]
        rfl

lemma difference_spec (ha : a.range.isValid) :
    ∃ remainings out,difference a range = .ok (remainings,out) ∧ Cut a range remainings out := by
  by_cases hover : a.range.overlaps range
  · exact ⟨_,_,difference_eq ha hover,cut_pieces hover⟩
  · have hno : ∀ x,InRange a.range x → ¬InRange range x := by
      simp only [InRange,overlaps] at hover ⊢
      omega
    refine ⟨[a],none,by simp [difference,hover],valid_singleton ha,separate_singleton,
      fun x p => ?_,fun x p => ?_,by simp [Valid],fun Q hQ _ => ⟨hQ,by simp [Ends]⟩⟩
    · rw [holds_singleton]
      have hx := hno x
      grind
    · simp only [Option.toList_none,holds_nil,false_iff,not_and]
      exact fun h => hno x h.1

variable [DecidableEq P] {overrides : P → P → Bool}

structure Removed (t : List (Interval P)) (range : Range) (predicate : P → Bool)
    (t' out : List (Interval P)) : Prop where
  ascending : Ascending t'
  holds : ∀ x p,Holds t' x p ↔ Holds t x p ∧ ¬(InRange range x ∧ predicate p)
  outValid : Valid out
  outSeparate : Separate out
  outHolds : ∀ x p,Holds out x p ↔ Holds t x p ∧ InRange range x ∧ predicate p
  ends : ∀ Q : ℕ → Prop,Ends Q t → CutEnds Q range t → Ends Q t' ∧ Ends Q out

structure Taken (a : Interval P) (range : Range) (predicate : P → Bool)
    (back outs : List (Interval P)) : Prop where
  valid : Valid back
  separate : Separate back
  outsValid : Valid outs
  outsSeparate : Separate outs
  holds : ∀ x p,Holds back x p ↔ (InRange a.range x ∧ a.properties = p) ∧ ¬(InRange range x ∧ predicate p)
  outsHolds : ∀ x p,Holds outs x p ↔
    (InRange a.range x ∧ a.properties = p) ∧ InRange range x ∧ predicate p
  ends : ∀ Q : ℕ → Prop,Ends Q [a] → CutEnds Q range [a] → Ends Q back ∧ Ends Q outs

lemma removeLoop_cons {predicate : P → Bool} (ha : a.range.isValid) : ∃ back outs,Taken a range predicate back outs ∧
      removeLoop overrides range (fun a => predicate a.properties) t (a::others) = (do
        let t ← addIntervals overrides t back
        let (t,more) ← removeLoop overrides range (fun a => predicate a.properties) t others
        return (t,outs++more)) := by
  by_cases hp : predicate a.properties = true
  · obtain ⟨remainings,out,hdiff,hcut⟩ := @difference_spec _ a range ha
    refine ⟨remainings,out.toList,⟨hcut.valid,hcut.separate,hcut.removedValid,?_,?_,?_,hcut.ends⟩,?_⟩
    · cases out <;> simp [Separate]
    · intro x p
      rw [hcut.remaining]
      constructor
      · exact fun ⟨h,hx⟩ => ⟨h,fun hxp => hx hxp.1⟩
      · exact fun ⟨h,hx⟩ => ⟨h,fun hin => hx ⟨hin,h.2 ▸ hp⟩⟩
    · intro x p
      rw [hcut.removed]
      constructor
      · exact fun ⟨h,hx⟩ => ⟨h,hx,h.2 ▸ hp⟩
      · exact fun ⟨h,hx,_⟩ => ⟨h,hx⟩
    · simp [removeLoop,hp,hdiff,bind,Except.bind]
  · refine ⟨[a],[],⟨valid_singleton ha,separate_singleton,by simp [Valid],by simp [Separate],?_,?_,
      fun Q hQ _ => ⟨hQ,by simp [Ends]⟩⟩,?_⟩
    · intro x p
      rw [holds_singleton]
      exact ⟨fun h => ⟨h,fun hxp => hp (h.2 ▸ hxp.2)⟩,fun h => h.1⟩
    · intro x p
      simp only [holds_nil,false_iff]
      exact fun ⟨h,_,hpp⟩ => hp (h.2 ▸ hpp)
    · cases hadd : addInterval overrides t a with
      | error e => simp [removeLoop,addIntervals,hp,hadd,bind,Except.bind]
      | ok t1 =>
        cases hrest : removeLoop overrides range (fun a => predicate a.properties) t1 others <;>
          simp [removeLoop,addIntervals,hp,hadd,hrest,bind,Except.bind,pure,Except.pure]

lemma removeLoop_spec (predicate : P → Bool) (ht : Ascending t) (hothers : Ascending others) (hapart : Apart others t) :
    ∃ t' out,removeLoop overrides range (fun a => predicate a.properties) t others =
        .ok (t',out) ∧ Ascending t' ∧ Valid out ∧ Separate out ∧
      (∀ x p,Holds t' x p ↔ Holds t x p ∨ (Holds others x p ∧ ¬(InRange range x ∧ predicate p))) ∧
      (∀ x p,Holds out x p ↔ Holds others x p ∧ InRange range x ∧ predicate p) ∧
      ∀ Q : ℕ → Prop,Ends Q t → Ends Q others → CutEnds Q range others → Ends Q t' ∧ Ends Q out := by
  induction others generalizing t with
  | nil =>
    exact ⟨t,[],rfl,ht,by simp [Valid],by simp [Separate],by simp,by simp,fun Q hq _ _ => ⟨hq,by simp [Ends]⟩⟩
  | cons a others ih =>
    have ha : a.range.isValid := hothers.1 a (by simp)
    obtain ⟨back,outs,htaken,heq⟩ := @removeLoop_cons _ a t others range _ overrides predicate ha
    have hback : Apart back t := fun x p q hp hq => hapart x p q (holds_cons.mpr (.inl ((htaken.holds x p).mp hp).1)) hq
    obtain ⟨t1,hadd,hasc1,hholds1,hends1⟩ := @addIntervals_spec _ t _ overrides back ht
      htaken.valid htaken.separate hback
    have hrest : Apart others t1 := by
      intro x p q hp hq
      rcases (hholds1 x q).mp hq with hq | hq
      · exact not_holds_of_ascending hothers ((htaken.holds x q).mp hq).1.1 hp
      · exact hapart x p q (holds_cons.mpr (.inr hp)) hq
    obtain ⟨t',more,hloop,hasc,hvalid,hsep,hholds,hout,hends⟩ := ih hasc1 hothers.tail hrest
    refine ⟨t',outs++more,?_,hasc,htaken.outsValid.append hvalid,
      htaken.outsSeparate.append hsep ?_,fun x p => ?_,fun x p => ?_,fun Q hq hqo hcut => ?_⟩
    · rw [heq,hadd]
      simp only [bind,Except.bind,hloop]
      rfl
    · intro x p q hp hq
      exact not_holds_of_ascending hothers ((htaken.outsHolds x p).mp hp).1.1 ((hout x q).mp hq).1
    · rw [hholds,hholds1,htaken.holds,holds_cons]
      grind
    · rw [holds_append,hout,htaken.outsHolds,holds_cons]
      grind
    · have hqa : Ends Q [a] := fun b hb => hqo b (by simp at hb ⊢; grind)
      have hca : CutEnds Q range [a] := fun b hb => hcut b (by simp at hb ⊢; grind)
      obtain ⟨hqback,hqouts⟩ := htaken.ends Q hqa hca
      obtain ⟨hqt,hqmore⟩ := hends Q (hends1 Q hq hqback) (fun b hb => hqo b (by simp [hb]))
        fun b hb => hcut b (by simp [hb])
      exact ⟨hqt,ends_append.mpr ⟨hqouts,hqmore⟩⟩

lemma removeMatchingInterval_spec (predicate : P → Bool) (ht : Ascending t) (hr : range.isValid) :
    ∃ t' out,removeMatchingInterval overrides t range (fun a => predicate a.properties) =
      .ok (t',out) ∧ Removed t range predicate t' out := by
  obtain ⟨t',out,hloop,hasc,hvalid,hsep,hholds,houts,hends⟩ := @removeLoop_spec _ _
    (affected t range) range _ overrides predicate (removeAffected_ascending ht range)
    (ht.sublist filter_sublist) (affected_apart ht range)
  have hout := fun x p => @not_inRange_of_removeAffected _ t x p ht range
  refine ⟨t',out,?_,hasc,fun x p => ?_,hvalid,hsep,fun x p => ?_,fun Q hq hcut => ?_⟩
  · rw [removeMatchingInterval,require_of hr]
    exact hloop
  · rw [hholds,holds_affected_or ht range]
    have hx := hout x p
    grind
  · rw [houts,holds_affected_or ht range]
    have hx := hout x p
    grind
  · refine hends Q ?_ (hq.filter _) fun a ha => hcut a (mem_filter.mp ha).1
    rw [mem_removeAffected ht]
    exact hq.filter _

end Removing

section Counting

lemma separate_of_ascending (ht : Ascending t) : Separate t := by
  refine ht.2.imp fun {a b} hle => ?_
  intro x p q hp hq
  have hle : a.range.stop ≤ b.range.start := hle
  have ha := (holds_singleton.mp hp).1.2
  have hb := (holds_singleton.mp hq).1.1
  omega

variable [DecidableEq P]

def points (p : P) : List (Interval P) → Finset ℕ
  | [] => ∅
  | a::t => (if a.properties = p then Finset.Ico a.range.start a.range.stop else ∅) ∪ points p t

/-- The length of the intervals with the properties. -/
def total (p : P) (t : List (Interval P)) : ℕ :=
  (t.map fun a => if a.properties = p then a.range.length else 0).sum

lemma mem_points : x ∈ points p t ↔ Holds t x p := by
  induction t with
  | nil => simp [points]
  | cons a t ih =>
    rw [points,Finset.mem_union,ih,holds_cons]
    by_cases hp : a.properties = p <;> simp [hp,InRange]

lemma card_points (hsep : Separate t) : (points p t).card = total p t := by
  induction t with
  | nil => simp [points,total]
  | cons a t ih =>
    rw [Separate,pairwise_cons] at hsep
    have hrest : (points p t).card = (t.map fun a =>
        if a.properties = p then a.range.length else 0).sum := ih hsep.2
    simp only [points,total,map_cons,sum_cons]
    by_cases hp : a.properties = p
    · rw [if_pos hp,if_pos hp,Finset.card_union_of_disjoint,Nat.card_Ico,hrest,Range.length]
      rw [Finset.disjoint_left]
      intro x hx hxt
      obtain ⟨b,hb,hbx,hbp⟩ := mem_points.mp hxt
      exact hsep.1 b hb x p p (holds_singleton.mpr ⟨Finset.mem_Ico.mp hx,hp⟩) (holds_singleton.mpr ⟨hbx,hbp⟩)
    · rw [if_neg hp,if_neg hp,Finset.empty_union,zero_add,hrest]

lemma dvd_total {n : ℕ} (h : Ends (n ∣ ·) t) : n ∣ total p t := by
  refine dvd_sum fun x hx => ?_
  obtain ⟨a,ha,rfl⟩ := mem_map.mp hx
  split_ifs
  · exact Nat.dvd_sub (h a ha).2 (h a ha).1
  · exact dvd_zero n

end Counting

end Fuchsia.Fxfs.IntervalTree
