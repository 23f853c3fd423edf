import Fuchsia.Fxfs.IntervalTreePoints
import Fuchsia.Fxfs.WritebackCache

/-! The accounts of the writeback cache balance along every run whose writes are not
empty and in which no flush fails while a write is under way. -/
namespace Fuchsia.Fxfs.WritebackCache

open Fallible Ranges IntervalTree PendingWrite Finset Option

variable {a b offset : ℕ} {c : Config} {s : State}

section Reservations

/-- `reservation_needed` of whole blocks. -/
def needed (bytes : ℕ) : ℕ := bytes+(bytes+524287)/524288*98304

lemma needed_zero : needed 0 = 0 := by norm_num [needed]

lemma needed_mono (h : a ≤ b) : needed a ≤ needed b := by
  simp only [needed]
  omega

lemma needed_add_le (a b : ℕ) : needed (a+b) ≤ needed a+needed b := by
  simp only [needed]
  omega

def limit (c : Config) : ℕ := roundDown (maxSize+(c.blockSize-1)) c.blockSize

lemma limit_lt (c : Config) : limit c < 2^63+2^32 := by
  have hle := roundDown_le (maxSize+(c.blockSize-1)) c.blockSize
  have hlt := c.lt
  simp only [limit,maxSize] at hle ⊢
  omega

/-- Where interval ends may lie. -/
def Aligned (c : Config) (x : ℕ) : Prop := c.blockSize ∣ x ∧ x ≤ limit c

lemma roundUp_eq {blockSize : ℕ} (h : offset+(blockSize-1) < 2^64) :
    roundUp offset blockSize = .ok (roundDown (offset+(blockSize-1)) blockSize) := if_pos h

lemma aligned_of_lt {x : ℕ} (h : x ≤ maxSize) :
    roundUp x c.blockSize = .ok (roundDown (x+(c.blockSize-1)) c.blockSize) := by
  refine roundUp_eq ?_
  have hb := c.lt
  rw [maxSize] at h
  omega

lemma roundDown_of_dvd (hb : 0 < b) (h : b ∣ a) : roundDown (a+(b-1)) b = a := by
  obtain ⟨k,rfl⟩ := h
  rw [roundDown,Nat.mul_add_mod,Nat.mod_eq_of_lt (by omega),Nat.add_sub_cancel]

lemma roundDown_eq_mul (y b : ℕ) : roundDown y b = b*(y/b) := by
  have hdm := Nat.div_add_mod y b
  rw [roundDown]
  omega

lemma reservationNeeded_eq (h : c.blockSize ∣ a) (hle : a < 2^63+2^32) : reservationNeeded c a = .ok (needed a) := by
  have hbatch : roundUp a flushBatchSize = .ok (roundDown (a+(flushBatchSize-1)) flushBatchSize) := by
    refine roundUp_eq ?_
    have hsize : flushBatchSize-1 = 524287 := rfl
    omega
  have hdiv : roundDown (a+(flushBatchSize-1)) flushBatchSize/flushBatchSize =
      (a+(flushBatchSize-1))/flushBatchSize := by rw [roundDown_eq_mul,Nat.mul_div_cancel_left _ (by decide)]
  have hb := c.lt
  rw [reservationNeeded,roundUp_eq (by omega),roundDown_of_dvd c.pos h,ok_bind,hbatch,ok_bind,
    pure_eq,hdiv,needed,flushBatchSize,transactionMetadataMaxAmount]

lemma reservationDelta_eq {d : ℕ} (hd : c.blockSize ∣ d) (hb : c.blockSize ∣ b)
    (hle : d+b < 2^63+2^32) : reservationDelta c d b = .ok (needed (d+b)-needed d) := by
  have hmono := needed_mono (Nat.le_add_right d b)
  rw [reservationDelta]
  split_ifs with hz
  · rw [reservationNeeded_eq hd (by omega),ok_bind,reservationNeeded_eq (hd.add hb) hle,ok_bind,sub,if_pos hmono]
  · obtain rfl : b = 0 := by omega
    rw [Nat.add_zero,Nat.sub_self]

lemma aligned_roundDown {x : ℕ} (h : x ≤ maxSize) : Aligned c (roundDown (x+(c.blockSize-1)) c.blockSize) := by
  refine ⟨dvd_roundDown _ _,?_⟩
  rw [limit,roundDown_eq_mul,roundDown_eq_mul]
  exact Nat.mul_le_mul_left _ (Nat.div_le_div_right (by omega))

end Reservations

section Trees

variable {t : List (Interval CacheState)}

lemma addDirty_spec {news : List (Interval CacheState)} (ht : Ascending t) (hvalid : Valid news)
    (hdirty : ∀ i ∈ news,i.properties = .dirty) : ∃ t',addIntervals overrides t news = .ok t' ∧ Ascending t' ∧
      (∀ x,Holds t' x .dirty ↔ Holds news x .dirty ∨ Holds t x .dirty) ∧
      (∀ x,Holds t' x .flushing ↔ Holds t x .flushing ∧ ¬Holds news x .dirty) ∧
      ∀ Q : ℕ → Prop,Ends Q t → Ends Q news → Ends Q t' := by
  induction news generalizing t with
  | nil => exact ⟨t,rfl,ht,by simp,by simp,fun Q hq _ => hq⟩
  | cons a news ih =>
    have ha : a.properties = .dirty := hdirty a (by simp)
    obtain ⟨t1,hadd,h1⟩ := @addInterval_spec _ a t _ overrides ht (hvalid a (by simp)) fun b hb _ => by
        rw [ha]
        cases b.properties with
        | dirty => exact .inl rfl
        | flushing => exact .inr rfl
    obtain ⟨t2,hadds,hasc,hd,hf,hends⟩ := ih h1.ascending (fun b hb => hvalid b (by simp [hb]))
      fun b hb => hdirty b (by simp [hb])
    refine ⟨t2,by simp [addIntervals,hadd,hadds,bind,Except.bind],hasc,fun x => ?_,fun x => ?_,
      fun Q hq hqn => hends Q (h1.ends Q hq fun b hb => hqn b (by simp at hb ⊢; tauto)) fun b hb => hqn b (by simp [hb])⟩
    · rw [hd,h1.holds,holds_cons,ha]
      by_cases hx : InRange a.range x <;> simp [hx]
    · rw [hf,h1.holds,holds_cons,ha]
      by_cases hx : InRange a.range x <;> simp [hx]

variable {p q : CacheState}

lemma points_congr {u : List (Interval CacheState)} (h : ∀ x,Holds t x p ↔ Holds u x q) : points p t = points q u := by
  ext x
  rw [mem_points,mem_points,h]

lemma points_union {u v : List (Interval CacheState)}
    (h : ∀ x,Holds t x p ↔ Holds u x q ∨ Holds v x p) : points p t = points q u ∪ points p v := by
  ext x
  rw [mem_union,mem_points,mem_points,mem_points,h]

lemma total_of_forall {p : CacheState} (h : ∀ i ∈ t,i.properties = p) :
    total p t = (t.map fun i => i.range.length).sum := by
  rw [total]
  congr 1
  exact List.map_congr_left fun i hi => by rw [if_pos (h i hi)]

lemma holds_eq_nil (h : ∀ x p,¬Holds t x p) (ht : Valid t) : t = [] := by
  cases t with
  | nil => rfl
  | cons a t =>
    exact absurd (holds_cons.mpr (.inl ⟨⟨le_rfl,ht a (by simp)⟩,rfl⟩)) (h a.range.start a.properties)

lemma removeAll_spec {n : ℕ} (ht : Ascending t) (hn : n < 2^64-1) (hends : Ends (· ≤ n) t) :
    ∃ out,removeInterval overrides t ⟨0,2^64-1⟩ = .ok ([],out) ∧ Valid out ∧ Separate out ∧
      (∀ x p,Holds out x p ↔ Holds t x p) ∧ ∀ Q : ℕ → Prop,Ends Q t → Ends Q out := by
  obtain ⟨t',out,hrem,hr⟩ := @removeMatchingInterval_spec _ t ⟨0,2^64-1⟩ _ overrides
    (fun _ => true) ht (by simp [Range.isValid])
  have hin : ∀ x p,Holds t x p → InRange ⟨0,2^64-1⟩ x := by
    rintro x p ⟨a,ha,hax,-⟩
    have hle := (hends a ha).2
    simp only [InRange]
    omega
  have hnil : t' = [] := by
    refine holds_eq_nil (fun x p hx => ?_) hr.ascending.1
    have hx := (hr.holds x p).mp hx
    exact hx.2 ⟨hin x p hx.1,rfl⟩
  subst hnil
  refine ⟨out,hrem,hr.outValid,hr.outSeparate,fun x p => ?_,fun Q hq =>
    (hr.ends Q hq fun a ha => ?_).2⟩
  · rw [hr.outHolds]
    exact ⟨fun h => h.1,fun h => ⟨h,hin x p h,rfl⟩⟩
  · have hle := (hends a ha).2
    exact ⟨fun h => absurd h (Nat.not_lt_zero _),fun _ (h : 2^64-1 < a.range.stop) => by omega⟩

end Trees

section Writing

variable {alignedStop stop : ℕ}

structure Dirtied (c : Config) (is : List (Interval CacheState)) (offset alignedStop : ℕ)
    (d : List (Interval CacheState)) (bytes : ℕ) : Prop where
  valid : Valid d
  separate : Separate d
  dirty : ∀ i ∈ d,i.properties = .dirty
  holds : ∀ x,Holds d x .dirty ↔ (offset ≤ x ∧ x < alignedStop) ∧ ¬Holds is x .dirty
  bytes_eq : bytes = total .dirty d
  ends : ∀ i ∈ d,(c.blockSize ∣ i.range.start ∧ i.range.start ≤ alignedStop) ∧
    c.blockSize ∣ i.range.stop ∧ i.range.stop ≤ alignedStop

variable {is d : List (Interval CacheState)} {bytes : ℕ}

lemma dirtied_nil (h : alignedStop ≤ offset) : Dirtied c is offset alignedStop [] 0 := by
  refine ⟨by simp [Valid],by simp [Separate],by simp,fun x => ?_,by simp [total],by simp⟩
  simp only [holds_nil,false_iff]
  omega

lemma Dirtied.aligned (h : Dirtied c is offset alignedStop d bytes)
    (hlimit : Aligned c alignedStop) : Ends (Aligned c) d := fun i hi => by
  obtain ⟨⟨h1,h2⟩,h3,h4⟩ := h.ends i hi
  exact ⟨⟨h1,h2.trans hlimit.2⟩,h3,h4.trans hlimit.2⟩

lemma total_keep (start stop : ℕ) :
    total .dirty (keep (dirtyInterval 0 0) start stop) = if start < stop then stop-start else 0 := by
  rw [keep]
  split_ifs <;> simp [total,piece,dirtyInterval,Range.length]

lemma total_append {P : Type} [DecidableEq P] (p : P) (t u : List (Interval P)) :
    total p (t++u) = total p t+total p u := by simp [total]

variable {i : Interval CacheState}

lemma dirty_of_mem_keep {start : ℕ} (h : i ∈ keep (dirtyInterval 0 0) start stop) :
    i.properties = .dirty ∧ i.range.start = start ∧ i.range.stop = stop ∧ start < stop := by
  rw [keep] at h
  split_ifs at h with hlt
  · obtain rfl : i = piece (dirtyInterval 0 0) start stop := by simpa using h
    exact ⟨rfl,rfl,rfl,hlt⟩
  · simp at h

lemma writeStep_dirtied {rest more : List (Interval CacheState)} {offset' bytes : ℕ}
    (hoffset : c.blockSize ∣ offset) (hends : Ends (c.blockSize ∣ ·) (i::rest))
    (hnext : c.blockSize ∣ min i.range.stop alignedStop) (hi : i.range.start < i.range.stop)
    (hi1 : offset < i.range.stop) (hi2 : i.range.start < alignedStop) (hlt : offset < stop)
    (hstop : stop ≤ alignedStop) (hrest : ∀ j ∈ rest,i.range.stop ≤ j.range.start)
    (hd : Dirtied c rest (min i.range.stop alignedStop) alignedStop more bytes)
    (hoff' : offset' = max offset i.range.start) :
    Dirtied c (i::rest) offset alignedStop (keep (dirtyInterval 0 0) offset i.range.start++
        ((if i.properties = .flushing then
          [dirtyInterval offset' (min i.range.stop alignedStop)] else [])++more))
      ((if offset < i.range.start then i.range.start-offset else 0)+
        ((if i.properties = .flushing then min i.range.stop alignedStop-offset' else 0)+bytes)) := by
  have hi0 := hends i (by simp)
  have hlt' : offset' < min i.range.stop alignedStop := by omega
  have hmore : ∀ x,Holds more x .dirty → min i.range.stop alignedStop ≤ x := fun x hx =>
    ((hd.holds x).mp hx).1.1
  have hnot : ∀ x p,x < i.range.stop → ¬Holds rest x p := by
    rintro x p hx ⟨j,hj,hjx,-⟩
    have hj := hrest j hj
    omega
  have hoff : c.blockSize ∣ offset' := by
    rw [hoff']
    rcases max_choice offset i.range.start with h | h <;> rw [h]
    exacts [hoffset,hi0.1]
  have hdirty : ∀ {t : List (Interval CacheState)} {x : ℕ} {p : CacheState},
      (∀ j ∈ t,j.properties = .dirty) → Holds t x p → Holds t x .dirty := by
    rintro t x p ht ⟨j,hj,hjx,-⟩
    exact ⟨j,hj,hjx,ht j hj⟩
  obtain ⟨e,he,hstate⟩ : ∃ e,(e = offset' ∨ e = min i.range.stop alignedStop) ∧ ((if i.properties = .flushing then
        [dirtyInterval offset' (min i.range.stop alignedStop)] else []) = keep (dirtyInterval 0 0) offset' e ∧
        (if i.properties = .flushing then min i.range.stop alignedStop-offset' else 0) =
          (if offset' < e then e-offset' else 0) ∧
        ∀ x,offset' ≤ x ∧ x < min i.range.stop alignedStop → (x < e ↔ ¬i.properties = .dirty)) := by
    cases hp : i.properties with
    | dirty =>
      refine ⟨offset',.inl rfl,by simp [keep],by simp,fun x hx => ?_⟩
      simp only [not_true,iff_false]
      omega
    | flushing =>
      refine ⟨min i.range.stop alignedStop,.inr rfl,?_,by simp [hlt'],fun x hx => ?_⟩
      · rw [keep,if_pos hlt']
        rfl
      · simp [hx.2]
  obtain ⟨hlist,hbytes,hin⟩ := hstate
  have hebs : c.blockSize ∣ e := by
    rcases he with rfl | rfl
    exacts [hoff,hnext]
  rw [hlist,hbytes]
  refine ⟨valid_keep.append (valid_keep.append hd.valid),
    separate_keep.append (separate_keep.append hd.separate fun x p q hx hy => ?_) fun x p q hx hy => ?_,
    List.forall_mem_append.mpr ⟨?_,List.forall_mem_append.mpr ⟨?_,hd.dirty⟩⟩,fun x => ?_,?_,
    List.forall_mem_append.mpr ⟨fun j hj => ?_,List.forall_mem_append.mpr ⟨fun j hj => ?_,hd.ends⟩⟩⟩
  · have hx := (holds_keep.mp hx).1
    have hy := hmore x (hdirty hd.dirty hy)
    omega
  · have hx := (holds_keep.mp hx).1
    rcases holds_append.mp hy with hy | hy
    · have hy := (holds_keep.mp hy).1
      omega
    · have hy := hmore x (hdirty hd.dirty hy)
      omega
  · exact fun j hj => (dirty_of_mem_keep hj).1
  · exact fun j hj => (dirty_of_mem_keep hj).1
  · have hout := hnot x .dirty
    have hinx := hin x
    rw [holds_append,holds_append,holds_keep,holds_keep,hd.holds,holds_cons]
    simp only [dirtyInterval,InRange,and_true]
    by_cases hH : Holds rest x .dirty
    · have hge : i.range.stop ≤ x := not_lt.mp fun h => hout h hH
      simp only [hH,not_true,and_false,or_false,or_true,iff_false]
      omega
    · by_cases hp : i.properties = .dirty
      · simp only [hH,hp,not_true,iff_false,not_false_iff,and_true,or_false] at hinx ⊢
        omega
      · simp only [hH,hp,not_false_iff,iff_true,and_true,and_false,or_false] at hinx ⊢
        omega
  · rw [total_append,total_append,total_keep,total_keep,hd.bytes_eq]
  · obtain ⟨-,h1,h2,h3⟩ := dirty_of_mem_keep hj
    rw [h1,h2]
    exact ⟨⟨hoffset,by omega⟩,hi0.1,by omega⟩
  · obtain ⟨-,h1,h2,h3⟩ := dirty_of_mem_keep hj
    rw [h1,h2]
    exact ⟨⟨hoff,by omega⟩,hebs,by omega⟩

lemma writeLoop_spec (halign : c.blockSize ∣ alignedStop) (hstop : stop ≤ alignedStop)
    (hleast : ∀ x,c.blockSize ∣ x → stop ≤ x → alignedStop ≤ x) {is : List (Interval CacheState)}
    (hoffset : c.blockSize ∣ offset) (hle : offset ≤ alignedStop) (hasc : Ascending is)
    (hends : Ends (c.blockSize ∣ ·) is) (hover : ∀ i ∈ is,offset < i.range.stop ∧ i.range.start < alignedStop) :
    ∃ d bytes,writeLoop c alignedStop stop is offset = .ok (d,bytes) ∧ Dirtied c is offset alignedStop d bytes := by
  induction is generalizing offset with
  | nil =>
    by_cases hlt : offset < stop
    · refine ⟨[dirtyInterval offset alignedStop],alignedStop-offset,by simp [writeLoop,hlt],?_⟩
      have hpos : offset < alignedStop := by omega
      refine ⟨valid_singleton hpos,separate_singleton,?_,fun x => ?_,?_,?_⟩
      · simp [dirtyInterval]
      · simp [holds_singleton,dirtyInterval,InRange]
      · simp [total,dirtyInterval,Range.length]
      · simp [dirtyInterval,hoffset,halign,hle]
    · exact ⟨[],0,by simp [writeLoop,hlt],dirtied_nil (hleast offset hoffset (by omega))⟩
  | cons i rest ih =>
    by_cases hlt : offset < stop
    · obtain ⟨hi,hrest,htail⟩ := ascending_cons.mp hasc
      change i.range.start < i.range.stop at hi
      change ∀ j ∈ rest,i.range.stop ≤ j.range.start at hrest
      obtain ⟨hi1,hi2⟩ := hover i (by simp)
      have hnext : c.blockSize ∣ min i.range.stop alignedStop := by
        rcases min_choice i.range.stop alignedStop with h | h <;> rw [h]
        exacts [(hends i (by simp)).2,halign]
      obtain ⟨more,bytes,hloop,hd⟩ := ih hnext (min_le_right _ _) htail
        (fun j hj => hends j (by simp [hj])) fun j hj => by
          have hj1 := hrest j hj
          have hj2 := htail.1 j hj
          change j.range.start < j.range.stop at hj2
          exact ⟨by omega,(hover j (by simp [hj])).2⟩
      set offset' := if offset < i.range.start then i.range.start else offset with hoff
      have hoff' : offset' = max offset i.range.start := by
        rw [hoff]
        split_ifs <;> omega
      have hpart := writeStep_dirtied hoffset hends hnext hi hi1 hi2 hlt hstop hrest hd hoff'
      refine ⟨_,_,?_,hpart⟩
      rw [writeLoop,if_pos hlt]
      have hs := Nat.mod_eq_zero_of_dvd (hends i (by simp)).1
      have he := Nat.mod_eq_zero_of_dvd (hends i (by simp)).2
      simp only [require_of hs,require_of he,ok_bind,hloop,pure_eq]
      rfl
    · exact ⟨[],0,if_neg hlt,dirtied_nil (hleast offset hoffset (by omega))⟩

end Writing

section Invariant

/-- A write under way: what it is going to make dirty is not dirty yet, and its
reservation is enough for it. -/
structure WriteOk (c : Config) (s : State) (w : PendingWrite) : Prop where
  valid : Valid w.dirtiedIntervals
  separate : Separate w.dirtiedIntervals
  dirty : ∀ i ∈ w.dirtiedIntervals,i.properties = .dirty
  ends : Ends (Aligned c) w.dirtiedIntervals
  bytes : w.dirtiedBytes = (points .dirty w.dirtiedIntervals).card
  apart : Disjoint (points .dirty w.dirtiedIntervals) (points .dirty s.inner.intervals)
  covers : ∀ x,roundDown w.offset c.blockSize ≤ x → x < roundDown (w.stop+(c.blockSize-1)) c.blockSize →
    Holds w.dirtiedIntervals x .dirty ∨ Holds s.inner.intervals x .dirty
  enough : needed w.dirtiedBytes ≤ w.reservation

/-- A flush under way: its ranges have all that is marked as being flushed, and its
reservation is enough to take that back. -/
structure FlushOk (c : Config) (s : State) (f : Flushable) : Prop where
  ranges : ∀ ranges,f.ranges = some ranges → ∀ r ∈ ranges,r.isValid ∧ Aligned c r.start ∧ Aligned c r.stop
  flushing : ∀ x,Holds s.inner.intervals x .flushing →
    ∃ ranges,f.ranges = some ranges ∧ ∃ r ∈ ranges,InRange r x
  enough : needed (points .flushing s.inner.intervals).card ≤ f.amount

structure Inv (c : Config) (s : State) : Prop where
  ascending : Ascending s.inner.intervals
  ends : Ends (Aligned c) s.inner.intervals
  dirty : s.inner.dirtyBytes = (points .dirty s.inner.intervals).card
  account : s.reserved = needed s.inner.dirtyBytes+(s.write.elim 0 reservation)+
    s.flush.elim 0 Flushable.amount
  write : ∀ w,s.write = some w → WriteOk c s w
  flush : ∀ f,s.flush = some f → FlushOk c s f
  idle : s.flush = none → ∀ x,¬Holds s.inner.intervals x .flushing

/-- Empty writes start inside a block, and no flush fails while a write is under way or its transaction has
something of its reservation. -/
def Allowed (c : Config) (s : State) : Action → Prop
  | .writeBegin offset length _ _ => 0 < length ∨ ¬c.blockSize ∣ offset.getD s.size
  | .endFlush completed => completed ∨ s.write.isNone ∧ ∀ f ∈ s.flush,f.held = 0
  | _ => True

lemma start_inv (c : Config) : Inv c start where
  ascending := ascending_nil
  ends := by simp [start,Ends]
  dirty := rfl
  account := rfl
  write := by simp [start]
  flush := by simp [start]
  idle := by simp [start]

lemma card_points_dvd {t : List (Interval CacheState)} {p : CacheState} (hsep : Separate t)
    (hends : Ends (Aligned c) t) : c.blockSize ∣ (points p t).card := by
  rw [card_points hsep]
  exact dvd_total fun a ha => ⟨(hends a ha).1.1,(hends a ha).2.1⟩

lemma points_subset_limit {t : List (Interval CacheState)} {p : CacheState}
    (hends : Ends (Aligned c) t) : points p t ⊆ range (limit c) := by
  intro x hx
  obtain ⟨a,ha,hax,-⟩ := mem_points.mp hx
  exact mem_range.mpr (hax.2.trans_le (hends a ha).2.2)

lemma card_le_limit {S : Finset ℕ} (h : S ⊆ range (limit c)) : S.card < 2^63+2^32 := by
  have hle := card_le_card h
  rw [card_range] at hle
  exact hle.trans_lt (limit_lt c)

lemma Inv.separate (h : Inv c s) : Separate s.inner.intervals := separate_of_ascending h.ascending

lemma Inv.dirty_dvd (h : Inv c s) : c.blockSize ∣ s.inner.dirtyBytes := by
  rw [h.dirty]
  exact card_points_dvd h.separate h.ends

lemma Inv.reservation (h : Inv c s) : reservationNeeded c s.inner.dirtyBytes = .ok (needed s.inner.dirtyBytes) := by
  refine reservationNeeded_eq h.dirty_dvd ?_
  rw [h.dirty]
  exact card_le_limit (points_subset_limit h.ends)

lemma sub_eq (h : b ≤ a) : sub a b = .ok (a-b) := if_pos h

end Invariant

def Dropped (c : Config) (x : ℕ) : Action → Prop
  | .resize size => roundDown (size+(c.blockSize-1)) c.blockSize ≤ x
  | .cleanup => True
  | _ => False

structure Effect (c : Config) (s : State) (a : Action) (s' : State) (r : Response) : Prop where
  inv : Inv c s'
  failed : r = .failed → s'.inner = s.inner ∧ s'.flush = s.flush ∧ s'.write = none ∧
    s'.reserved = s.reserved-s.write.elim 0 reservation
  kept : s.flush.isSome → ∀ x,¬Dropped c x a → Holds s.inner.intervals x .dirty →
    Holds s'.inner.intervals x .dirty

def Safe (c : Config) (s : State) (a : Action) : Prop :=
  step c s a = .error .blocked ∨ ∃ s' r,step c s a = .ok (s',r) ∧ Effect c s a s' r

lemma Inv.unchanged (h : Inv c s) (hw : s.write = none) {a : Action} : Effect c s a s .failed where
  inv := h
  failed _ := ⟨rfl,rfl,hw,by rw [hw]; rfl⟩
  kept _ _ _ hd := hd

variable {w : PendingWrite}

section WriteBegin

lemma roundDown_lt_iff {x stop : ℕ} (hx : c.blockSize ∣ x) :
    x < roundDown (stop+(c.blockSize-1)) c.blockSize ↔ x < stop := by
  obtain ⟨k,rfl⟩ := hx
  have hpos := c.pos
  rw [roundDown_eq_mul,Nat.mul_lt_mul_left hpos,← Nat.add_one_le_iff,
    Nat.le_div_iff_mul_le hpos,add_mul,one_mul,mul_comm k]
  omega

lemma writeBegin_dirtied (h : Inv c s) {stop : ℕ} (hle : offset ≤ stop) (hne : offset < stop ∨ ¬c.blockSize ∣ offset) :
    ∃ is d bytes,unwrap (getIntervals s.inner.intervals
        ⟨roundDown offset c.blockSize,roundDown (stop+(c.blockSize-1)) c.blockSize⟩) = .ok is ∧
      writeLoop c (roundDown (stop+(c.blockSize-1)) c.blockSize) stop is (roundDown offset c.blockSize) = .ok (d,bytes) ∧
      Dirtied c s.inner.intervals (roundDown offset c.blockSize)
        (roundDown (stop+(c.blockSize-1)) c.blockSize) d bytes := by
  have hdvd := dvd_roundDown offset c.blockSize
  have hlow := roundDown_le offset c.blockSize
  have hlt : roundDown offset c.blockSize < stop := by
    rcases hne with hne | hne
    · omega
    · refine lt_of_le_of_ne (hlow.trans hle) fun heq => hne ?_
      have hsame : roundDown offset c.blockSize = offset := by omega
      rwa [hsame] at hdvd
  have hlt' := (roundDown_lt_iff hdvd).mpr hlt
  set alignedStop := roundDown (stop+(c.blockSize-1)) c.blockSize with halignedStop
  have halign : c.blockSize ∣ alignedStop := dvd_roundDown _ _
  have hleast : ∀ x,c.blockSize ∣ x → stop ≤ x → alignedStop ≤ x := by
    intro x hx hsx
    by_contra hcon
    have hxs := (roundDown_lt_iff hx).mp (not_le.mp hcon)
    omega
  have hge : stop ≤ alignedStop := by
    have hmod : (stop+(c.blockSize-1))%c.blockSize < c.blockSize := Nat.mod_lt _ c.pos
    have hpos := c.pos
    rw [halignedStop,roundDown]
    omega
  have hover : ∀ i ∈ s.inner.intervals.filter fun a =>
      Range.overlaps ⟨roundDown offset c.blockSize,alignedStop⟩ a.range,
      roundDown offset c.blockSize < i.range.stop ∧ i.range.start < alignedStop := by
    intro i hi
    have hi : max (roundDown offset c.blockSize) i.range.start < min alignedStop i.range.stop :=
      of_decide_eq_true (List.mem_filter.mp hi).2
    omega
  obtain ⟨d,bytes,hloop,hd⟩ := writeLoop_spec halign hge hleast hdvd hlt'.le
    (h.ascending.sublist List.filter_sublist) (fun i hi => ⟨(h.ends i (List.mem_filter.mp hi).1).1.1,
      (h.ends i (List.mem_filter.mp hi).1).2.1⟩) hover
  refine ⟨_,d,bytes,?_,hloop,{ hd with holds := fun x => ?_ }⟩
  · rw [getIntervals,require_of (show Range.isValid ⟨roundDown offset c.blockSize,alignedStop⟩ from hlt')]
    rfl
  · rw [hd.holds]
    refine and_congr_right fun hx => not_congr ?_
    constructor
    · rintro ⟨a,ha,hax,hap⟩
      exact ⟨a,(List.mem_filter.mp ha).1,hax,hap⟩
    · rintro ⟨a,ha,hax,hap⟩
      refine ⟨a,List.mem_filter.mpr ⟨ha,decide_eq_true ?_⟩,hax,hap⟩
      simp only [Range.overlaps]
      omega

lemma writeOk_of_dirtied {bytes alignedStop : ℕ}
    (hd : Dirtied c s.inner.intervals (roundDown w.offset c.blockSize) alignedStop w.dirtiedIntervals bytes)
    (hstop : alignedStop = roundDown (w.stop+(c.blockSize-1)) c.blockSize) (hlimit : Aligned c alignedStop)
    (hbytes : w.dirtiedBytes = bytes) (henough : needed bytes ≤ w.reservation) : WriteOk c s w where
  valid := hd.valid
  separate := hd.separate
  dirty := hd.dirty
  ends := hd.aligned hlimit
  bytes := by rw [hbytes,hd.bytes_eq,card_points hd.separate]
  apart := by
    rw [disjoint_left]
    intro x hx hxs
    exact ((hd.holds x).mp (mem_points.mp hx)).2 (mem_points.mp hxs)
  covers x h1 h2 := by
    by_cases hx : Holds s.inner.intervals x .dirty
    · exact .inr hx
    · exact .inl ((hd.holds x).mpr ⟨⟨h1,hstop ▸ h2⟩,hx⟩)
  enough := by rw [hbytes]; exact henough

lemma Inv.waiting (h : Inv c s) (hw : s.write = none) (hok : WriteOk c s w) :
    Inv c { s with reserved := s.reserved+w.reservation,write := some w } where
  ascending := h.ascending
  ends := h.ends
  dirty := h.dirty
  account := by
    have hacc := h.account
    rw [hw] at hacc
    simp only [Option.elim] at hacc ⊢
    omega
  write w' hw' := by
    obtain rfl : w = w' := by simpa using hw'
    exact { hok with }
  flush f hf := { h.flush f hf with }
  idle := h.idle

lemma reserveWrite_cases {w : PendingWrite} {granted : Bool}
    (hdvd : c.blockSize ∣ w.dirtiedBytes) (hlt : w.dirtiedBytes < 2^63+2^32)
    (hok : ∀ amount,needed w.dirtiedBytes ≤ amount → WriteOk c s { w with reservation := amount })
    (hzero : w.reservation = 0) : reserveWrite c s w granted = .ok (s,.failed) ∨
    ∃ w',WriteOk c s w' ∧ reserveWrite c s w granted =
      .ok ({ s with reserved := s.reserved+w'.reservation,write := some w' },.waits) := by
  rw [reserveWrite,reservationNeeded_eq hdvd hlt,ok_bind]
  by_cases hz : needed w.dirtiedBytes = 0
  · have hw : { w with reservation := 0 } = w := by rw [← hzero]
    refine .inr ⟨w,hw ▸ hok 0 hz.le,?_⟩
    rw [if_pos hz,hzero,pure_eq,Nat.add_zero]
  · rw [if_neg hz]
    cases granted with
    | false =>
      refine .inl ?_
      rw [if_neg (by decide),pure_eq]
    | true =>
      have hb := c.lt
      have hmod := Nat.mod_lt (needed w.dirtiedBytes+(c.blockSize-1)) c.pos
      have hround := roundUp_eq (show needed w.dirtiedBytes+(c.blockSize-1) < 2^64 by
        simp only [needed]
        omega)
      rw [roundDown] at hround
      rw [if_pos rfl,hround]
      exact .inr ⟨_,hok _ (by omega),rfl⟩

lemma writeBegin_cases (h : Inv c s) {offset : Option ℕ} {length : ℕ} {time : Option ℕ}
    {granted : Bool} (ha : Allowed c s (.writeBegin offset length time granted)) :
    writeBegin c s offset length time granted = .error .blocked ∨ s.write = none ∧
    (writeBegin c s offset length time granted = .ok (s,.failed) ∨
    ∃ w,WriteOk c s w ∧ writeBegin c s offset length time granted =
      .ok ({ s with reserved := s.reserved+w.reservation,write := some w },.waits)) := by
  cases hw : s.write with
  | some w => exact .inl (by rw [writeBegin,hw]; rfl)
  | none =>
    refine .inr ⟨rfl,?_⟩
    have hguard := isNone_iff_eq_none.mpr hw
    set o := offset.getD s.size with ho
    by_cases hmax : o < maxSize
    · set stop := o+min length (maxSize-o) with hstop
      have hstop_le : stop ≤ maxSize := by omega
      have hne : o < stop ∨ ¬c.blockSize ∣ o := by
        have ha : 0 < length ∨ ¬c.blockSize ∣ o := ha
        rcases ha with ha | ha
        · exact .inl (by omega)
        · exact .inr ha
      obtain ⟨is,d,bytes,his,hloop,hd⟩ := writeBegin_dirtied h (by omega) hne
      have hal := @aligned_roundDown c stop hstop_le
      have hbegin : writeBegin c s offset length time granted = reserveWrite c s ⟨d,bytes,0,o,stop,time⟩ granted := by
        rw [writeBegin,require_of hguard,ok_bind]
        simp only [← ho,not_not.mpr hmax,if_false,← hstop,aligned_of_lt hstop_le,ok_bind,his,hloop]
      rw [hbegin]
      have hends := hd.aligned hal
      have hcard : bytes = (points .dirty d).card := by rw [hd.bytes_eq,card_points hd.separate]
      have hcases := @reserveWrite_cases c s ⟨d,bytes,0,o,stop,time⟩ granted (hcard ▸ card_points_dvd hd.separate hends)
        (hcard ▸ card_le_limit (points_subset_limit hends)) (fun amount hle => writeOk_of_dirtied hd rfl hal rfl hle) rfl
      exact hcases
    · refine .inl ?_
      rw [writeBegin,require_of hguard,ok_bind]
      simp only [← ho,hmax,not_false_iff,if_true]
      rfl

end WriteBegin

variable {s' : State} {f : Flushable}

section WriteEnd

lemma FlushOk.of_subset (h : FlushOk c s f)
    (hsub : ∀ x,Holds s'.inner.intervals x .flushing → Holds s.inner.intervals x .flushing) : FlushOk c s' f where
  ranges := h.ranges
  flushing x hx := h.flushing x (hsub x hx)
  enough := by
    refine (needed_mono (card_le_card fun x hx => ?_)).trans h.enough
    exact mem_points.mpr (hsub x (mem_points.mp hx))

lemma writeEnd_done (h : Inv c s) (hw : s.write = some w) :
    ∃ s',writeEnd c s true = .ok (s',.done) ∧ Inv c s' ∧ ∀ x,Holds s'.inner.intervals x .dirty ↔
        Holds w.dirtiedIntervals x .dirty ∨ Holds s.inner.intervals x .dirty := by
  have hok := h.write w hw
  obtain ⟨t,hadd,hasc,hdirty,hflush,hends⟩ := addDirty_spec h.ascending hok.valid hok.dirty
  have hcard : (points .dirty t).card = s.inner.dirtyBytes+w.dirtiedBytes := by
    rw [points_union hdirty,card_union_of_disjoint hok.apart,h.dirty,hok.bytes,add_comm]
  have hendst : Ends (Aligned c) t := hends _ h.ends hok.ends
  have hlt : s.inner.dirtyBytes+w.dirtiedBytes < 2^63+2^32 := by
    rw [← hcard]
    exact card_le_limit (points_subset_limit hendst)
  have hwd : c.blockSize ∣ w.dirtiedBytes := by
    rw [hok.bytes]
    exact card_points_dvd hok.separate hok.ends
  have hacc := h.account
  rw [hw] at hacc
  simp only [Option.elim] at hacc
  have hle := needed_add_le s.inner.dirtyBytes w.dirtiedBytes
  have hmono := needed_mono (Nat.le_add_right s.inner.dirtyBytes w.dirtiedBytes)
  have henough := hok.enough
  have htaken := reservationDelta_eq h.dirty_dvd hwd hlt
  set taken := needed (s.inner.dirtyBytes+w.dirtiedBytes)-needed s.inner.dirtyBytes with htk
  have hleft : sub w.reservation taken = .ok (w.reservation-taken) := sub_eq (by omega)
  have hres : sub s.reserved (w.reservation-taken) = .ok (s.reserved-(w.reservation-taken)) :=
    sub_eq (by omega)
  have hmod : ∀ i ∈ w.dirtiedIntervals,i.range.start%c.blockSize = 0 ∧ i.range.stop%c.blockSize = 0 := fun i hi =>
    ⟨Nat.mod_eq_zero_of_dvd (hok.ends i hi).1.1,Nat.mod_eq_zero_of_dvd (hok.ends i hi).2.1⟩
  refine ⟨{ s with
      inner := { s.inner with
        intervals := t
        dirtyBytes := s.inner.dirtyBytes+w.dirtiedBytes
        modificationTime := w.currentTime }
      size := max s.size w.stop
      reserved := s.reserved-(w.reservation-taken)
      write := none },?_,⟨hasc,hendst,hcard.symm,?_,by simp,fun f hf => ?_,fun hf x hx => ?_⟩,
    hdirty⟩
  · simp only [writeEnd,hw,if_true]
    rw [require_of hmod,ok_bind,hadd,unwrap,ok_bind,htaken,ok_bind,hleft,ok_bind,hres,ok_bind,pure_eq]
  · simp only [Option.elim]
    omega
  · exact (h.flush f hf).of_subset fun x hx => ((hflush x).mp hx).1
  · exact h.idle hf x ((hflush x).mp hx).1

lemma writeEnd_safe (h : Inv c s) (written : Bool) : Safe c s (.writeEnd written) := by
  cases hw : s.write with
  | none => exact .inl (by rw [step,writeEnd,hw])
  | some w =>
    cases written with
    | false =>
      have hacc := h.account
      rw [hw] at hacc
      simp only [Option.elim] at hacc
      have hsub : sub s.reserved w.reservation = .ok (s.reserved-w.reservation) := sub_eq (by omega)
      refine .inr ⟨{ s with reserved := s.reserved-w.reservation,write := none },.failed,?_,
        ⟨h.ascending,h.ends,h.dirty,?_,by simp,fun f hf => { h.flush f hf with },h.idle⟩,
        fun _ => ⟨rfl,rfl,rfl,by rw [hw]; rfl⟩,fun _ _ _ hd => hd⟩
      · simp only [step,writeEnd,hw,hsub]
        rfl
      · simp only [Option.elim]
        omega
    | true =>
      obtain ⟨s',heq,hinv,hdirty⟩ := writeEnd_done h hw
      exact .inr ⟨s',_,heq,hinv,by simp,fun _ x _ hd => (hdirty x).mpr (.inr hd)⟩

end WriteEnd

section Resize

lemma giveBack_eq {reserved before after : ℕ} (hle : before-after ≤ reserved) :
    giveBack reserved before after = .ok (reserved-(before-after)) := by
  rw [giveBack]
  split_ifs with hlt
  · exact sub_eq hle
  · rw [Nat.sub_eq_zero_of_le (not_lt.mp hlt),Nat.sub_zero]

lemma limit_lt_max (c : Config) : limit c < 2^64-1 := by
  have hlt := limit_lt c
  omega

variable (h : Inv c s)
include h

lemma removeFrom_spec {bound : ℕ} (hb : Aligned c bound) :
    ∃ t out,removeInterval overrides s.inner.intervals ⟨bound,2^64-1⟩ = .ok (t,out) ∧ Ascending t ∧ Ends (Aligned c) t ∧
      (∀ x p,Holds t x p ↔ Holds s.inner.intervals x p ∧ x < bound) ∧
      (points .dirty t).card+total .dirty out = s.inner.dirtyBytes := by
  have hlim := limit_lt c
  have hb2 := hb.2
  obtain ⟨t,out,hrem,hr⟩ := @removeMatchingInterval_spec _ s.inner.intervals
    ⟨bound,2^64-1⟩ _ overrides (fun _ => true) h.ascending (by
      simp only [Range.isValid]
      omega)
  have hx : ∀ x p,Holds s.inner.intervals x p → x < limit c := fun x p hx => by
    obtain ⟨a,ha,hax,-⟩ := hx
    exact hax.2.trans_le (h.ends a ha).2.2
  have hholds : ∀ x p,Holds t x p ↔ Holds s.inner.intervals x p ∧ x < bound := by
    intro x p
    rw [hr.holds]
    simp only [InRange,and_true]
    refine and_congr_right fun hxp => ?_
    have hxl := hx x p hxp
    omega
  have hout : ∀ x,Holds out x .dirty ↔ Holds s.inner.intervals x .dirty ∧ bound ≤ x := by
    intro x
    rw [hr.outHolds]
    simp only [InRange,and_true]
    refine and_congr_right fun hxp => ?_
    have hxl := hx x _ hxp
    omega
  have hends : Ends (Aligned c) t := (hr.ends _ h.ends fun a ha => by
    have hle := (h.ends a ha).2.2
    exact ⟨fun _ _ => hb,fun _ (hlt : 2^64-1 < a.range.stop) => by omega⟩).1
  refine ⟨t,out,hrem,hr.ascending,hends,hholds,?_⟩
  rw [← card_points hr.outSeparate,h.dirty,← card_union_of_disjoint]
  · congr 1
    ext x
    rw [mem_union,mem_points,mem_points,mem_points,hholds,hout]
    have hcases := lt_or_ge x bound
    tauto
  · rw [disjoint_left]
    intro x hxt hxo
    have h1 := ((hholds x _).mp (mem_points.mp hxt)).2
    have h2 := ((hout x).mp (mem_points.mp hxo)).2
    omega

lemma Inv.shrink (hw : s.write = none) {t : List (Interval CacheState)} (hasc : Ascending t) (hends : Ends (Aligned c) t)
    (hsub : ∀ x p,Holds t x p → Holds s.inner.intervals x p) {reserved size : ℕ} {inner : Inner}
    (hintervals : inner.intervals = t) (hdirty : inner.dirtyBytes = (points .dirty t).card)
    (hreserved : reserved+needed s.inner.dirtyBytes = s.reserved+needed inner.dirtyBytes) :
    Inv c { s with inner := inner,reserved := reserved,size := size } where
  ascending := by simpa only [hintervals] using hasc
  ends := by simpa only [hintervals] using hends
  dirty := by simpa only [hintervals] using hdirty
  account := by
    have hacc := h.account
    rw [hw] at hacc
    simp only [hw,Option.elim] at hacc ⊢
    omega
  write w hw' := by simp [hw] at hw'
  flush f hf := (h.flush f hf).of_subset fun x hx => hsub x _ (by simpa only [hintervals] using hx)
  idle hf x hx := h.idle hf x (hsub x _ (by simpa only [hintervals] using hx))

lemma resize_done (hw : s.write = none) (size : ℕ) :
    ∃ s' r,resize c s size = .ok (s',r) ∧ Inv c s' ∧ (r = .failed → s' = s) ∧
      ∀ x,Holds s.inner.intervals x .dirty → x < roundDown (size+(c.blockSize-1)) c.blockSize →
        Holds s'.inner.intervals x .dirty := by
  rw [resize,require_of (isNone_iff_eq_none.mpr hw),ok_bind]
  by_cases hmax : size ≤ maxSize
  · rw [if_neg (not_not.mpr hmax),aligned_of_lt hmax,ok_bind]
    by_cases hlt : size < s.size
    · rw [if_pos hlt]
      obtain ⟨t,out,hrem,hasc,hends,hholds,hcard⟩ := removeFrom_spec h (@aligned_roundDown c _ hmax)
      have hacc := h.account
      have hsub : sub s.inner.dirtyBytes (total .dirty out) = .ok (points .dirty t).card := by
        rw [sub_eq (by omega),← hcard,Nat.add_sub_cancel]
      have hafter : reservationNeeded c (points .dirty t).card = .ok (needed (points .dirty t).card) :=
        reservationNeeded_eq (card_points_dvd (separate_of_ascending hasc) hends)
          (card_le_limit (points_subset_limit hends))
      have hmono : needed (points .dirty t).card ≤ needed s.inner.dirtyBytes :=
        needed_mono (by omega)
      rw [hrem,unwrap,ok_bind]
      change ∃ s' r,(do
        let before ← reservationNeeded c s.inner.dirtyBytes
        let dirtyBytes ← sub s.inner.dirtyBytes (total CacheState.dirty out)
        let needed ← reservationNeeded c dirtyBytes
        let reserved ← giveBack s.reserved before needed
        return ({ s with
          inner := { s.inner with intervals := t,dirtyBytes := dirtyBytes }
          size := size
          reserved := reserved },Response.done)) = .ok (s',r) ∧ Inv c s' ∧ _
      rw [h.reservation,ok_bind,hsub,ok_bind,hafter,ok_bind,giveBack_eq (by omega),ok_bind,pure_eq]
      refine ⟨_,_,rfl,h.shrink hw hasc hends (fun x p hx => ((hholds x p).mp hx).1) rfl rfl
        (by simp only; omega),by simp,fun x hx hlt => (hholds x _).mpr ⟨hx,hlt⟩⟩
    · rw [if_neg hlt]
      exact ⟨_,_,rfl,{ h with
        write := fun w hw' => { h.write w hw' with }
        flush := fun f hf => { h.flush f hf with } },by simp,fun x hx _ => hx⟩
  · rw [if_pos hmax]
    exact ⟨s,.failed,rfl,h,fun _ => rfl,fun x hx _ => hx⟩

lemma resize_safe (size : ℕ) : Safe c s (.resize size) := by
  cases hw : s.write with
  | some w => exact .inl (by rw [step,resize,hw]; rfl)
  | none =>
    obtain ⟨s',r,heq,hinv,hfailed,hkept⟩ := resize_done h hw size
    refine .inr ⟨s',r,heq,hinv,fun hr => ?_,fun _ x hx hd => hkept x hd (not_le.mp hx)⟩
    rw [hfailed hr]
    exact (h.unchanged hw (a := .resize size)).failed rfl

lemma Inv.ends_le : Ends (· ≤ limit c) s.inner.intervals := fun a ha =>
  ⟨(h.ends a ha).1.2,(h.ends a ha).2.2⟩

lemma cleanup_safe : Safe c s .cleanup := by
  cases hw : s.write with
  | some w => exact .inl (by rw [step,cleanup,hw]; rfl)
  | none =>
    refine .inr ?_
    obtain ⟨out,hrem,-⟩ := removeAll_spec h.ascending (limit_lt_max c) h.ends_le
    have hacc := h.account
    have hreserved : cleanupReserved c s = .ok (s.reserved-needed s.inner.dirtyBytes) := by
      rw [cleanupReserved]
      split_ifs with hz
      · rw [h.reservation,ok_bind,sub_eq (by omega)]
      · have hz : s.inner.dirtyBytes = 0 := by omega
        rw [hz]
        rfl
    rw [step,cleanup,require_of (isNone_iff_eq_none.mpr hw),ok_bind,hreserved,ok_bind,hrem,unwrap,ok_bind]
    refine ⟨_,_,rfl,h.shrink hw ascending_nil (by simp [Ends]) (by simp) rfl rfl ?_,by simp,
      fun _ x hx => absurd trivial hx⟩
    simp only [needed_zero]
    omega

end Resize

section Flush

variable {out : List (Interval CacheState)}

lemma takeLoop_eq {tree : List (Interval CacheState)} (hends : Ends (c.blockSize ∣ ·) out)
    (hdirty : ∀ i ∈ out,i.properties ≠ .flushing) : takeLoop c tree out = unwrap (addIntervals overrides tree
      (out.map fun i => ⟨i.range,.flushing⟩)) := by
  induction out generalizing tree with
  | nil => rfl
  | cons i out ih =>
    have hi := hends i (by simp)
    rw [takeLoop,require_of (Nat.mod_eq_zero_of_dvd hi.1),ok_bind,
      require_of (Nat.mod_eq_zero_of_dvd hi.2),ok_bind,require_of (hdirty i (by simp)),ok_bind,
      List.map_cons,addIntervals]
    cases hadd : addInterval overrides tree ⟨i.range,.flushing⟩ with
    | error e => rfl
    | ok tree' =>
      rw [unwrap,ok_bind,ok_bind,ih (fun j hj => hends j (by simp [hj])) fun j hj => hdirty j (by simp [hj])]

lemma holds_map_flushing {x : ℕ} {p : CacheState} :
    Holds (out.map fun i => ⟨i.range,.flushing⟩) x p ↔ p = .flushing ∧ ∃ q,Holds out x q := by
  simp only [Holds,List.mem_map]
  constructor
  · rintro ⟨a,⟨i,hi,rfl⟩,hx,rfl⟩
    exact ⟨rfl,i.properties,i,hi,hx,rfl⟩
  · rintro ⟨rfl,q,i,hi,hx,-⟩
    exact ⟨⟨i.range,.flushing⟩,⟨i,hi,rfl⟩,hx,rfl⟩

lemma separate_map_flushing (h : Separate out) :
    Separate (out.map fun i => (⟨i.range,.flushing⟩ : Interval CacheState)) := by
  rw [Separate,List.pairwise_map]
  refine h.imp fun {a b} hab x p q hp hq => ?_
  exact hab x a.properties b.properties (holds_singleton.mpr ⟨(holds_singleton.mp hp).1,rfl⟩)
    (holds_singleton.mpr ⟨(holds_singleton.mp hq).1,rfl⟩)

lemma takeTree_spec (h : Inv c s) (hidle : ∀ x,¬Holds s.inner.intervals x .flushing) :
    ∃ out t,removeInterval overrides s.inner.intervals ⟨0,2^64-1⟩ = .ok ([],out) ∧
      takeLoop c [] out = .ok t ∧ Ascending t ∧ Ends (Aligned c) t ∧
      (∀ x,¬Holds t x .dirty) ∧ (∀ x,Holds t x .flushing ↔ Holds s.inner.intervals x .dirty) ∧
      (∀ x,Holds t x .flushing → ∃ r ∈ out.map fun i => i.range,InRange r x) ∧
      (∀ i ∈ out,i.range.isValid ∧ Aligned c i.range.start ∧ Aligned c i.range.stop) ∧
      (out.map fun i => i.range.length).sum = s.inner.dirtyBytes := by
  obtain ⟨out,hrem,hvalid,hsep,hholds,hends⟩ := removeAll_spec h.ascending (limit_lt_max c) h.ends_le
  have hal := hends _ h.ends
  have hdirty : ∀ i ∈ out,i.properties = .dirty := by
    intro i hi
    have hx := (hholds i.range.start i.properties).mp ⟨i,hi,⟨le_rfl,hvalid i hi⟩,rfl⟩
    cases hp : i.properties with
    | dirty => rfl
    | flushing => exact absurd (hp ▸ hx) (hidle _)
  have hq : ∀ x,(∃ q,Holds out x q) ↔ Holds s.inner.intervals x .dirty := by
    intro x
    constructor
    · rintro ⟨q,i,hi,hx,-⟩
      exact (hholds x _).mp ⟨i,hi,hx,hdirty i hi⟩
    · exact fun hx => ⟨.dirty,(hholds x _).mpr hx⟩
  obtain ⟨t,hadd,hasc,hall,hendst⟩ := @addIntervals_spec _ [] _ overrides
    (out.map fun i => ⟨i.range,.flushing⟩) ascending_nil
    (List.forall_mem_map.mpr fun i hi => hvalid i hi) (separate_map_flushing hsep) fun x p q _ => holds_nil x q
  have hflush : ∀ x,Holds t x .flushing ↔ Holds s.inner.intervals x .dirty := by
    intro x
    rw [hall,holds_map_flushing,hq]
    simp
  refine ⟨out,t,hrem,?_,hasc,?_,fun x hx => ?_,hflush,fun x hx => ?_,fun i hi =>
    ⟨hvalid i hi,(hal i hi).1,(hal i hi).2⟩,?_⟩
  · rw [takeLoop_eq (fun i hi => ⟨(hal i hi).1.1,(hal i hi).2.1⟩) fun i hi => by simp [hdirty i hi],hadd,unwrap]
  · exact hendst _ (by simp [Ends]) (List.forall_mem_map.mpr hal)
  · rw [hall,holds_map_flushing] at hx
    simp at hx
  · obtain ⟨i,hi,hix,-⟩ := (hholds x _).mpr ((hflush x).mp hx)
    exact ⟨i.range,List.mem_map_of_mem hi,hix⟩
  · rw [← total_of_forall hdirty,← card_points hsep,h.dirty,points_congr fun x => hholds x _]

lemma takeFlushable_safe (h : Inv c s) (size : ℕ) : Safe c s (.takeFlushable size) := by
  by_cases hguard : s.write.isNone ∧ s.flush.isNone
  · refine .inr ?_
    have hw : s.write = none := isNone_iff_eq_none.mp hguard.1
    have hf : s.flush = none := isNone_iff_eq_none.mp hguard.2
    have hacc : s.reserved = needed s.inner.dirtyBytes := by
      rw [h.account,hw,hf]
      exact (Nat.add_zero _).trans (Nat.add_zero _)
    obtain ⟨out,t,hrem,htake,hasc,hends,hnd,hflush,hranges,hout,hsum⟩ := takeTree_spec h (h.idle hf)
    obtain ⟨inner,metadata,hpair⟩ : ∃ inner metadata,takeMetadata { s.inner with intervals := t }
      (if size < s.size then some s.size else none) = (inner,metadata) := ⟨_,_,rfl⟩
    obtain ⟨rfl,hbytes⟩ : inner.intervals = t ∧ inner.dirtyBytes = s.inner.dirtyBytes := by
      rw [takeMetadata] at hpair
      split_ifs at hpair <;> cases hpair <;> exact ⟨rfl,rfl⟩
    have hd : (points .dirty inner.intervals).card = 0 := by
      rw [card_eq_zero,eq_empty_iff_forall_notMem]
      exact fun x hx => hnd x (mem_points.mp hx)
    have hpoints := points_congr hflush
    rw [step,takeFlushable,require_of hguard,ok_bind,hrem,unwrap,ok_bind]
    simp only [htake,ok_bind,hpair]
    rw [hsum]
    by_cases hz : s.inner.dirtyBytes = 0
    · rw [if_pos hz]
      refine ⟨_,_,rfl,?_,by simp,by simp [hf]⟩
      have hnone : ∀ x,¬Holds inner.intervals x .flushing := by
        intro x hx
        have hmem := mem_points.mpr ((hflush x).mp hx)
        rw [h.dirty,card_eq_zero] at hz
        simp [hz] at hmem
      have hflush0 : (points .flushing inner.intervals).card = 0 := by rw [hpoints,← h.dirty,hz]
      refine ⟨hasc,hends,hbytes.trans (hz.trans hd.symm),?_,by simp [hw],fun f hf' => ?_,by simp⟩
      · change s.reserved = needed inner.dirtyBytes+s.write.elim 0 reservation+0
        rw [hbytes,hw,hacc]
        exact ((Nat.add_zero _).trans (Nat.add_zero _)).symm
      · obtain rfl := some.inj hf'
        refine ⟨by simp,fun x hx => absurd hx (hnone x),?_⟩
        simp only [hflush0]
        exact le_rfl
    · obtain ⟨amount,hamount,heq⟩ : ∃ amount,reservationNeeded c s.inner.dirtyBytes = .ok amount ∧
        amount = needed s.inner.dirtyBytes := ⟨_,h.reservation,rfl⟩
      rw [if_neg hz,hbytes,hamount,ok_bind]
      refine ⟨_,_,rfl,?_,by simp,by simp [hf]⟩
      refine ⟨hasc,hends,hd.symm,?_,by simp [hw],fun f hf' => ?_,by simp⟩
      · change s.reserved = needed 0+s.write.elim 0 reservation+amount
        rw [needed_zero,hw,hacc,heq]
        exact (Nat.zero_add _).symm
      · obtain rfl := some.inj hf'
        refine ⟨fun ranges hr r hmem => ?_,fun x hx => ⟨_,rfl,hranges x hx⟩,?_⟩
        · obtain rfl := some.inj hr
          obtain ⟨i,hi,rfl⟩ := List.mem_map.mp hmem
          exact hout i hi
        · simp only [hpoints,← h.dirty,heq]
          exact le_rfl
  · refine .inl ?_
    rw [step,takeFlushable,require,if_neg hguard]
    rfl

/-- The tree after a flush has ended for some ranges. -/
structure Ended (completed : Bool) (t : List (Interval CacheState)) (ranges : List Range)
    (t' : List (Interval CacheState)) (bytes : ℕ) : Prop where
  ascending : Ascending t'
  ends : ∀ c : Config,Ends (Aligned c) t →
    (∀ r ∈ ranges,Aligned c r.start ∧ Aligned c r.stop) → Ends (Aligned c) t'
  flushing : ∀ x,Holds t' x .flushing ↔ Holds t x .flushing ∧ ¬∃ r ∈ ranges,InRange r x
  dirty : ∀ x,Holds t' x .dirty ↔ Holds t x .dirty ∨
    (completed = false ∧ Holds t x .flushing ∧ ∃ r ∈ ranges,InRange r x)
  bytes_eq : (points .dirty t').card = (points .dirty t).card+bytes

lemma card_dirtied {t t' : List (Interval CacheState)} (ht : Ascending t) (hsep : Separate out)
    (hof : ∀ i ∈ out,i.properties = .flushing) (hout : ∀ x,Holds out x .flushing → Holds t x .flushing)
    (hd : ∀ x,Holds t' x .dirty ↔ Holds out x .flushing ∨ Holds t x .dirty) :
    (points .dirty t').card = (points .dirty t).card+(out.map fun i => i.range.length).sum := by
  have hdisj : Disjoint (points .flushing out) (points .dirty t) := by
    rw [disjoint_left]
    intro x hx hy
    have hpq := ascending_unique ht (hout x (mem_points.mp hx)) (mem_points.mp hy)
    simp at hpq
  rw [points_union hd,card_union_of_disjoint hdisj,card_points hsep,total_of_forall hof,add_comm]

lemma holds_map_dirtied (hof : ∀ i ∈ out,i.properties = .flushing) (x : ℕ) :
    Holds (out.map dirtied) x .dirty ↔ Holds out x .flushing := by
  constructor
  · rintro ⟨a,ha,hax,-⟩
    obtain ⟨i,hi,rfl⟩ := List.mem_map.mp ha
    exact ⟨i,hi,hax,hof i hi⟩
  · rintro ⟨i,hi,hix,-⟩
    exact ⟨dirtied i,List.mem_map_of_mem hi,hix,rfl⟩

variable {ranges : List Range}

lemma completeLoop_spec (completed : Bool) {t : List (Interval CacheState)} (ht : Ascending t)
    (hranges : ∀ r ∈ ranges,r.isValid) : ∃ t' bytes,completeLoop completed t ranges = .ok (t',bytes) ∧
      Ended completed t ranges t' bytes := by
  induction ranges generalizing t with
  | nil =>
    exact ⟨t,0,rfl,ht,fun c h _ => h,by simp,by simp,rfl⟩
  | cons r ranges ih =>
    obtain ⟨t1,out,hrem,hr⟩ := @removeMatchingInterval_spec _ t r _ overrides
      (fun p => p = .flushing) ht (hranges r (by simp))
    have hd1 : ∀ x,Holds t1 x .dirty ↔ Holds t x .dirty := by
      intro x
      rw [hr.holds]
      simp
    have hf1 : ∀ x,Holds t1 x .flushing ↔ Holds t x .flushing ∧ ¬InRange r x := by
      intro x
      rw [hr.holds]
      simp
    have hends1 : ∀ c : Config,Ends (Aligned c) t → Aligned c r.start ∧ Aligned c r.stop →
        Ends (Aligned c) t1 ∧ Ends (Aligned c) out := fun c h hc =>
      hr.ends _ h fun _ _ => ⟨fun _ _ => hc.1,fun _ _ => hc.2⟩
    have hexists : ∀ x,(∃ q ∈ r::ranges,InRange q x) ↔ InRange r x ∨ ∃ q ∈ ranges,InRange q x := by simp
    cases completed with
    | true =>
      obtain ⟨t',bytes,hloop,he⟩ := ih hr.ascending fun q hq => hranges q (by simp [hq])
      refine ⟨t',bytes,?_,he.ascending,fun c h hc => ?_,fun x => ?_,fun x => ?_,?_⟩
      · rw [completeLoop,hrem,unwrap,ok_bind]
        exact hloop
      · exact he.ends c (hends1 c h (hc r (by simp))).1 fun q hq => hc q (by simp [hq])
      · rw [he.flushing,hf1,hexists,not_or,and_assoc]
      · rw [he.dirty,hd1]
        simp
      · rw [he.bytes_eq,points_congr hd1]
    | false =>
      have hof : ∀ i ∈ out,i.properties = .flushing := by
        intro i hi
        have hx := (hr.outHolds i.range.start i.properties).mp ⟨i,hi,⟨le_rfl,hr.outValid i hi⟩,rfl⟩
        simpa using hx.2.2
      have hout : ∀ x,Holds out x .flushing ↔ Holds t x .flushing ∧ InRange r x := by
        intro x
        rw [hr.outHolds]
        simp
      obtain ⟨t2,hadd,hasc2,hd2,hf2,hends2⟩ := @addDirty_spec t1 (out.map dirtied) hr.ascending
        (List.forall_mem_map.mpr hr.outValid) (List.forall_mem_map.mpr fun i _ => rfl)
      simp only [holds_map_dirtied hof] at hd2 hf2
      have hleft : ∀ x,Holds t2 x .flushing ↔ Holds t x .flushing ∧ ¬InRange r x := by
        intro x
        rw [hf2,hf1,hout]
        by_cases hx : InRange r x <;> simp [hx]
      obtain ⟨t',bytes,hloop,he⟩ := ih hasc2 fun q hq => hranges q (by simp [hq])
      refine ⟨t',(out.map fun i => i.range.length).sum+bytes,?_,he.ascending,fun c h hc => ?_,
        fun x => ?_,fun x => ?_,?_⟩
      · rw [completeLoop,hrem,unwrap,ok_bind]
        simp [hadd,unwrap,ok_bind,hloop,pure_eq]
      · obtain ⟨h1,ho⟩ := hends1 c h (hc r (by simp))
        exact he.ends c (hends2 _ h1 (List.forall_mem_map.mpr ho)) fun q hq => hc q (by simp [hq])
      · rw [he.flushing,hleft,hexists,not_or,and_assoc]
      · rw [he.dirty,hd2,hleft,hd1,hout,hexists]
        by_cases hx : InRange r x <;> simp [hx,or_comm]
      · rw [he.bytes_eq,card_dirtied ht hr.outSeparate hof (fun x hx => ((hout x).mp hx).1)
          fun x => by rw [hd2,hd1],add_assoc]

/-- What the end of a flush makes of the state of the cache: how much of the reservation
of the flush is taken back, and that nothing is marked as being flushed any more. -/
structure FlushEnd (c : Config) (s : State) (f : Flushable) (completed : Bool) (inner : Inner)
    (delta : ℕ) : Prop where
  ascending : Ascending inner.intervals
  ends : Ends (Aligned c) inner.intervals
  dirty : inner.dirtyBytes = (points .dirty inner.intervals).card
  flushing : ∀ x,¬Holds inner.intervals x .flushing
  account : needed inner.dirtyBytes = needed s.inner.dirtyBytes+delta
  enough : delta ≤ f.amount
  kept : ∀ x,Holds s.inner.intervals x .dirty → Holds inner.intervals x .dirty
  untouched : completed → delta = 0
  completed : completed → ∀ x,Holds inner.intervals x .dirty ↔ Holds s.inner.intervals x .dirty

variable {inner : Inner}

lemma completeInner_spec (h : Inv c s) (hf : FlushOk c s f) (hranges : f.ranges = some ranges) (completed : Bool)
    (hinner : inner.intervals = s.inner.intervals ∧ inner.dirtyBytes = s.inner.dirtyBytes) :
    ∃ inner' delta,completeInner c inner ranges completed = .ok (inner',delta) ∧
      FlushEnd c s f completed inner' delta := by
  have hr := hf.ranges ranges hranges
  obtain ⟨t,bytes,hloop,he⟩ := completeLoop_spec completed h.ascending fun r hmem => (hr r hmem).1
  have hends : Ends (Aligned c) t := he.ends c h.ends fun r hmem => (hr r hmem).2
  have hnone : ∀ x,¬Holds t x .flushing := by
    intro x hx
    obtain ⟨hold,hout⟩ := (he.flushing x).mp hx
    obtain ⟨ranges',heq,hin⟩ := hf.flushing x hold
    rw [hranges] at heq
    obtain rfl := some.inj heq
    exact hout hin
  have hcard : (points .dirty t).card = s.inner.dirtyBytes+bytes := by rw [he.bytes_eq,h.dirty]
  have hbytes : bytes ≤ (points .flushing s.inner.intervals).card := by
    have hsub : points .dirty t ⊆ points .dirty s.inner.intervals ∪ points .flushing s.inner.intervals := by
      intro x hx
      rw [mem_union,mem_points,mem_points]
      exact ((he.dirty x).mp (mem_points.mp hx)).imp_right fun hx => hx.2.1
    have hle := (card_le_card hsub).trans (card_union_le _ _)
    rw [he.bytes_eq] at hle
    omega
  have hdvd : c.blockSize ∣ bytes := by
    have hall := @card_points_dvd c t .dirty (separate_of_ascending he.ascending) hends
    rw [hcard] at hall
    exact (Nat.dvd_add_right h.dirty_dvd).mp hall
  have hlt : s.inner.dirtyBytes+bytes < 2^63+2^32 := by
    rw [← hcard]
    exact card_le_limit (points_subset_limit hends)
  obtain ⟨delta,hdelta,heq⟩ : ∃ delta,reservationDelta c s.inner.dirtyBytes bytes = .ok delta ∧
      needed (s.inner.dirtyBytes+bytes) = needed s.inner.dirtyBytes+delta :=
    ⟨_,reservationDelta_eq h.dirty_dvd hdvd hlt,
      (Nat.add_sub_cancel' (needed_mono (Nat.le_add_right s.inner.dirtyBytes bytes))).symm⟩
  have hle := (needed_add_le s.inner.dirtyBytes bytes).trans
    (Nat.add_le_add_left ((needed_mono hbytes).trans hf.enough) _)
  refine ⟨{ inner with intervals := t,dirtyBytes := s.inner.dirtyBytes+bytes },delta,?_,
    he.ascending,hends,hcard.symm,hnone,heq,?_,fun x hx => (he.dirty x).mpr (.inl hx),fun hc => ?_,fun hc x => ?_⟩
  · rw [completeInner,hinner.1,hloop,ok_bind]
    simp only [hinner.2,hdelta,ok_bind,pure_eq]
  · omega
  · have hsame : points .dirty t = points .dirty s.inner.intervals := points_congr fun x => by
      rw [he.dirty,hc]
      simp
    rw [hsame,← h.dirty] at hcard
    rw [Nat.left_eq_add.mp hcard] at heq
    exact Nat.left_eq_add.mp heq
  · rw [he.dirty,hc]
    simp

lemma completeRanges_spec (h : Inv c s) (hf : FlushOk c s f) (completed : Bool)
    (hinner : inner.intervals = s.inner.intervals ∧ inner.dirtyBytes = s.inner.dirtyBytes) :
    ∃ inner' delta,completeRanges c inner completed f.ranges = .ok (inner',delta) ∧
      FlushEnd c s f completed inner' delta := by
  cases hranges : f.ranges with
  | some ranges => exact completeInner_spec h hf hranges completed hinner
  | none =>
    obtain ⟨hi,hd⟩ := hinner
    refine ⟨inner,0,rfl,hi ▸ h.ascending,hi ▸ h.ends,?_,fun x hx => ?_,?_,Nat.zero_le _,?_,fun _ => rfl,?_⟩
    · rw [hd,hi,h.dirty]
    · rw [hi] at hx
      obtain ⟨ranges,hsome,-⟩ := hf.flushing x hx
      rw [hranges] at hsome
      cases hsome
    · rw [hd,Nat.add_zero]
    · exact fun x hx => hi ▸ hx
    · exact fun _ x => by rw [hi]

lemma endFlush_done (h : Inv c s) (hf : s.flush = some f) {completed : Bool} (ha : Allowed c s (.endFlush completed)) :
    ∃ s',endFlush c s completed = .ok (s',.done) ∧ Inv c s' ∧
      ∀ x,Holds s.inner.intervals x .dirty → Holds s'.inner.intervals x .dirty := by
  have hinner : (if completed then s.inner else restoreMetadata s.inner f.metadata).intervals = s.inner.intervals ∧
      (if completed then s.inner else restoreMetadata s.inner f.metadata).dirtyBytes =
        s.inner.dirtyBytes := by
    cases completed with
    | true => exact ⟨rfl,rfl⟩
    | false => cases f.metadata <;> exact ⟨rfl,rfl⟩
  obtain ⟨inner,delta,hend,he⟩ := completeRanges_spec h (h.flush f hf) completed hinner
  have hacc := h.account
  rw [hf] at hacc
  simp only [elim_some] at hacc
  have henough := he.enough
  have hheld : f.held ≤ f.amount-delta := by
    obtain hc | ⟨-,hnone⟩ := ha
    · rw [he.untouched hc]
      exact f.held_le
    · rw [hnone f hf]
      exact Nat.zero_le _
  have hleft : forgetSome f delta = .ok (f.amount-delta) := by
    rw [forgetSome,sub_eq henough,ok_bind,require_of hheld,ok_bind,pure_eq]
  have hres : sub s.reserved (f.amount-delta) = .ok (s.reserved-(f.amount-delta)) :=
    sub_eq (by omega)
  refine ⟨{ s with inner := inner,reserved := s.reserved-(f.amount-delta),flush := none },?_,
    ⟨he.ascending,he.ends,he.dirty,?_,fun w hw => ?_,by simp,fun _ => he.flushing⟩,he.kept⟩
  · simp only [endFlush,hf]
    rw [hend,ok_bind,hleft,ok_bind,hres,ok_bind,pure_eq]
  · have haccount := he.account
    simp only [elim_none]
    omega
  · have hc : completed := ha.resolve_right fun hn => by simp [show s.write = some w from hw] at hn
    refine { h.write w hw with apart := ?_,covers := fun x h1 h2 => ?_ }
    · rw [points_congr (he.completed hc)]
      exact (h.write w hw).apart
    · rw [he.completed hc]
      exact (h.write w hw).covers x h1 h2

end Flush

section Run

lemma Inv.withFlush {f' : Flushable} (h : Inv c s) (hf : s.flush = some f) (hranges : f'.ranges = f.ranges)
    (hamount : f'.amount = f.amount) : Inv c { s with flush := some f' } := by
  have hok := h.flush f hf
  refine ⟨h.ascending,h.ends,h.dirty,?_,fun w hw => { h.write w hw with },fun g hg => ?_,nofun⟩
  · rw [h.account,hf,elim_some,elim_some,hamount]
  · obtain rfl := some.inj hg
    exact ⟨hranges ▸ hok.ranges,hranges ▸ hok.flushing,hamount ▸ hok.enough⟩

lemma step_safe (h : Inv c s) {a : Action} (ha : Allowed c s a) : Safe c s a := by
  cases a with
  | writeBegin offset length time granted =>
    rcases writeBegin_cases h ha with hb | ⟨hw,hf | ⟨w,hok,heq⟩⟩
    · exact .inl hb
    · exact .inr ⟨s,.failed,hf,h.unchanged hw⟩
    · exact .inr ⟨_,_,heq,h.waiting hw hok,by simp,fun _ _ _ hd => hd⟩
  | writeEnd written => exact writeEnd_safe h written
  | resize size => exact resize_safe h size
  | takeFlushable size => exact takeFlushable_safe h size
  | hold amount =>
    cases hf : s.flush with
    | none => exact .inl (by rw [step,hold,hf])
    | some f =>
      by_cases hle : f.held+amount ≤ f.amount
      · have hstep : step c s (.hold amount) =
            .ok ({ s with flush := some { f with held := f.held+amount,held_le := hle } },.done) := by
          simp [step,hold,hf,hle]
        exact .inr ⟨_,_,hstep,h.withFlush hf rfl rfl,by simp,fun _ _ _ hd => hd⟩
      · exact .inl (by simp [step,hold,hf,hle])
  | release =>
    cases hf : s.flush with
    | none => exact .inl (by rw [step,release,hf])
    | some f =>
      have hstep : step c s .release =
          .ok ({ s with flush := some { f with held := 0,held_le := Nat.zero_le f.amount } },.done) := by
        simp [step,release,hf]
      exact .inr ⟨_,_,hstep,h.withFlush hf rfl rfl,by simp,fun _ _ _ hd => hd⟩
  | endFlush completed =>
    cases hf : s.flush with
    | none => exact .inl (by rw [step,endFlush,hf])
    | some f =>
      obtain ⟨s',heq,hinv,hkept⟩ := endFlush_done h hf ha
      exact .inr ⟨s',_,heq,hinv,by simp,fun _ x _ => hkept x⟩
  | cleanup => exact cleanup_safe h

def next (c : Config) (s : State) (a : Action) : Option State := (step c s a).toOption.map Prod.fst

lemma step_effect (h : Inv c s) {a : Action} {r : Response} (ha : Allowed c s a)
    (hstep : step c s a = .ok (s',r)) : Effect c s a s' r := by
  rcases step_safe h ha with hb | ⟨t,q,heq,he⟩
  · cases hb.symm.trans hstep
  · cases heq.symm.trans hstep
    exact he

lemma step_inv {a : Action} (h : Inv c s) (ha : Allowed c s a) (hnext : next c s a = some s') : Inv c s' := by
  cases hstep : step c s a with
  | error e => simp [next,hstep,Except.toOption] at hnext
  | ok p =>
    simp only [next,hstep,Except.toOption,map_some,some.injEq] at hnext
    exact hnext ▸ (step_effect h ha hstep).inv

/-- The states in which allowed actions end. -/
def Reached (c : Config) : State → Prop := Transition.Reachable (· = start) (Allowed c) (next c)

lemma Reached.inv (h : Reached c s) : Inv c s :=
  Transition.Reachable.invariant h (fun _ hs => hs ▸ start_inv c) fun _ _ _ => step_inv

/-- The books of a cache are in order: what is dirty is counted and reserved, nothing
panics, a write that fails leaves no trace, and what is written during a flush is dirty
and stays dirty to the end of that flush. -/
structure Accounted (c : Config) (s : State) : Prop where
  dirtyBytes : s.inner.dirtyBytes = total .dirty s.inner.intervals
  disjoint : Ascending s.inner.intervals
  aligned : ∀ i ∈ s.inner.intervals,c.blockSize ∣ i.range.start ∧ c.blockSize ∣ i.range.stop
  owned : ∃ owned,reservationNeeded c s.inner.dirtyBytes = .ok owned ∧
    s.reserved = owned+s.write.elim 0 reservation+s.flush.elim 0 Flushable.amount
  noPanic : ∀ a,Allowed c s a → step c s a ≠ .error .panic
  failed : ∀ a s',Allowed c s a → step c s a = .ok (s',.failed) →
    s'.inner = s.inner ∧ s'.flush = s.flush ∧ s'.write = none ∧
      s'.reserved = s.reserved-s.write.elim 0 reservation
  written : ∀ w,s.write = some w → ∃ s',step c s (.writeEnd true) = .ok (s',.done) ∧
    ∀ x,roundDown w.offset c.blockSize ≤ x →
      x < roundDown (w.stop+(c.blockSize-1)) c.blockSize → Holds s'.inner.intervals x .dirty
  kept : s.flush.isSome → ∀ a s' r,Allowed c s a → step c s a = .ok (s',r) →
    ∀ x,¬Dropped c x a → Holds s.inner.intervals x .dirty → Holds s'.inner.intervals x .dirty

theorem reached_accounted (h : Reached c s) : Accounted c s := by
  have hinv := h.inv
  refine ⟨?_,hinv.ascending,fun i hi => ⟨(hinv.ends i hi).1.1,(hinv.ends i hi).2.1⟩,
    ⟨_,hinv.reservation,hinv.account⟩,fun a ha hpanic => ?_,
    fun a s' ha hstep => (step_effect hinv ha hstep).failed rfl,fun w hw => ?_,
    fun hf a s' r ha hstep => (step_effect hinv ha hstep).kept hf⟩
  · rw [hinv.dirty,card_points hinv.separate]
  · rcases step_safe hinv ha with hb | ⟨s',r,heq,-⟩
    · cases hb.symm.trans hpanic
    · cases heq.symm.trans hpanic
  · obtain ⟨s',heq,-,hdirty⟩ := writeEnd_done hinv hw
    exact ⟨s',heq,fun x h1 h2 => (hdirty x).mpr ((hinv.write w hw).covers x h1 h2)⟩

instance (c : Config) (s : State) : ∀ a,Decidable (Allowed c s a)
  | .writeBegin offset length _ _ =>
    inferInstanceAs (Decidable (0 < length ∨ ¬c.blockSize ∣ offset.getD s.size))
  | .endFlush completed => inferInstanceAs (Decidable (completed ∨ s.write.isNone ∧ ∀ f ∈ s.flush,f.held = 0))
  | .hold _ => .isTrue trivial
  | .release => .isTrue trivial
  | .writeEnd _ => .isTrue trivial
  | .resize _ => .isTrue trivial
  | .takeFlushable _ => .isTrue trivial
  | .cleanup => .isTrue trivial

def sectors : Config := ⟨512,by decide,by decide⟩

def racing : Option State := Transition.run (Allowed sectors) (next sectors) start
    [.writeBegin (some 0) 1024 none true,.writeEnd true,.takeFlushable 0,.hold transactionMetadataMaxAmount,
      .writeBegin (some 512) 100 none true,.writeEnd true,.release,.endFlush false]

theorem reached_accounted_racing :
    ∃ h : racing.isSome,(racing.get h).inner.dirtyBytes = 1024 ∧ Accounted sectors (racing.get h) :=
  ⟨by decide +kernel,by decide +kernel,
    reached_accounted (Transition.Reachable.run (.start rfl) (some_get _).symm)⟩

def overtaken : Option State := Transition.run (fun _ _ => True) (next sectors) start
    [.writeBegin (some 0) 512 none true,.writeEnd true,.takeFlushable 0,
      .writeBegin (some 0) 512 none true,.endFlush false,.writeEnd true]

def underway : Option State := Transition.run (fun _ _ => True) (next sectors) start
    [.writeBegin (some 0) 512 none true,.writeEnd true,.takeFlushable 0,.hold transactionMetadataMaxAmount]

/-- An empty write at the start of a block panics, a block whose flush fails while it is written again is
counted twice, and the drop of a `Flushable` panics while the transaction of the flush has its hold. -/
theorem writeBegin_empty_panics :
    step sectors start (.writeBegin (some 0) 0 none true) = .error .panic ∧
      overtaken.map (fun s => (s.inner.dirtyBytes,total .dirty s.inner.intervals)) =
        some (1024,512) ∧
      underway.map (fun s => (step sectors s (.endFlush false)).map fun _ => ()) = some (.error .panic) := by
  refine ⟨rfl,?_,?_⟩ <;> decide +kernel

end Run

end Fuchsia.Fxfs.WritebackCache
