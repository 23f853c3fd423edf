import Fuchsia.Fxfs.Allocator
import Fuchsia.Fxfs.AllocatorSpace
import Fuchsia.Lib.Tiling

/-! What the layer operations of the allocator do to the bytes that the layers
count: merging a record into the tree, reserving and releasing a range, the
search for a gap and the walk of a deallocation. -/
namespace Fuchsia.Fxfs

open Ranges Ranged Key MergeView List SkipListLayer Allocator Nat

variable {xs : List AllocatorItem}

lemma deltaAt_append {ys : List AllocatorItem} (h : Ascending (xs++ys)) (p : ℕ) :
    deltaAt (xs++ys) p = deltaAt xs p+deltaAt ys p := by
  induction xs with
  | nil => simp
  | cons x xs ih =>
    rw [cons_append] at h ⊢
    obtain ⟨-,hle,hrest⟩ := ascending_cons.mp h
    rw [deltaAt_cons hle,ih hrest,deltaAt_cons (forall_mem_append.mp hle).1]
    ring

lemma deltaAt_of_mem (h : Ascending xs) {i : AllocatorItem} {p : ℕ} (hi : i ∈ xs)
    (hp : Covers i p) : deltaAt xs p = i.value.delta := by simp [deltaAt,h.find_eq_some_iff.mpr ⟨hi,hp⟩]

lemma exists_mem_of_deltaAt_ne_zero {p : ℕ} (h : deltaAt xs p ≠ 0) : ∃ i ∈ xs,Covers i p := by
  cases hf : find xs p with
  | none => simp [deltaAt,hf] at h
  | some i => exact ⟨i,mem_of_find_eq_some hf⟩

def ranges (layer : List AllocatorItem) : Multiset Range := layer.map fun i => i.key.deviceRange

def IsReservedLayer (layer : List AllocatorItem) : Prop := Ascending layer ∧ ∀ i ∈ layer,i.value.delta = 1

variable {layer : List AllocatorItem}

@[simp] lemma ranges_nil : ranges [] = 0 := rfl

lemma ranges_middle (l r : List AllocatorItem) (i : AllocatorItem) :
    ranges (l++i::r) = {i.key.deviceRange}+ranges (l++r) := by
  rw [Multiset.singleton_add,ranges,ranges,Multiset.cons_coe,Multiset.coe_eq_coe]
  simp

lemma mem_ranges {r : Range} : r ∈ ranges layer ↔ ∃ i ∈ layer,i.key.deviceRange = r := by simp [ranges]

section

variable (h : IsReservedLayer layer)
include h

lemma deltaAt_eq_coverage (p : ℕ) : deltaAt layer p = coverage (ranges layer) p := by
  induction layer with
  | nil => rfl
  | cons i layer ih =>
    obtain ⟨hasc,hone⟩ := h
    obtain ⟨-,hle,hrest⟩ := ascending_cons.mp hasc
    have hcons : ranges (i::layer) = {i.key.deviceRange}+ranges layer := ranges_middle [] layer i
    rw [deltaAt_cons hle,ih ⟨hrest,fun j hj => hone j (by simp [hj])⟩,hcons,coverage_add,
      coverage_singleton,own,hone i (by simp)]
    have hcov : Covers i p ↔ i.key.deviceRange.Has p := Iff.rfl
    simp only [hcov]
    split_ifs <;> simp

lemma erase_spec {r : Range} (hr : r ∈ ranges layer) : IsReservedLayer (erase layer ⟨r⟩) ∧
      ranges layer = {r}+ranges (erase layer ⟨r⟩) := by
  obtain ⟨i,hi,rfl⟩ := mem_ranges.mp hr
  obtain ⟨l,rest,rfl⟩ := append_of_mem hi
  have herase : erase (l++i::rest) ⟨i.key.deviceRange⟩ = l++rest := by
    obtain ⟨hl,hr⟩ := split_at_key h.1
    simp [erase,hl,hr]
  have hsub : (l++rest).Sublist (l++i::rest) := (List.Sublist.refl l).append (sublist_cons_self i rest)
  rw [herase]
  exact ⟨⟨h.1.sublist hsub,fun j hj => h.2 j (hsub.subset hj)⟩,ranges_middle l rest i⟩

lemma insert_spec {r : Range} (hne : r.start < r.stop) (hfree : ∀ p,r.Has p → coverage (ranges layer) p = 0)
    (sequence : ℕ) : ∃ layer',SkipListLayer.insert layer ⟨⟨r⟩,⟨1⟩,sequence⟩ = some layer' ∧
      IsReservedLayer layer' ∧ ranges layer' = {r}+ranges layer := by
  obtain ⟨item,hitem⟩ : ∃ item : AllocatorItem,item = ⟨⟨r⟩,⟨1⟩,sequence⟩ := ⟨_,rfl⟩
  have hlo : lo item = r.start := by rw [hitem]; rfl
  have hhi : hi item = r.stop := by rw [hitem]; rfl
  have hdis : ∀ i ∈ layer,hi i ≤ lo item ∨ hi item ≤ lo i := by
    intro i hi'
    by_contra hover
    rw [hlo,hhi,not_or,not_le,not_le] at hover
    have hine : lo i < hi i := h.1.1 i hi'
    have hp : r.Has (max (lo i) r.start) := ⟨le_max_right _ _,by simp [hover.2,hne]⟩
    have hip : i.key.deviceRange.Has (max (lo i) r.start) := ⟨le_max_left _ _,max_lt hine hover.1⟩
    exact absurd (hfree _ hp) (coverage_pos (mem_ranges.mpr ⟨i,hi',rfl⟩) hip).ne'
  obtain ⟨l,rest,rfl,hins,hasc⟩ := insert_eq_some h.1 (hlo ▸ hhi ▸ hne) hdis
  rw [← hitem]
  obtain ⟨hl,hrest⟩ := forall_mem_append.mp h.2
  refine ⟨_,hins,⟨hasc,forall_mem_append.mpr ⟨hl,forall_mem_cons.mpr ⟨by rw [hitem],hrest⟩⟩⟩,?_⟩
  rw [ranges_middle,hitem]

end

section Merge

open SimpleAllocator

lemma work_layerCursors (layers : List (List AllocatorItem)) :
    allocatorView.work (layerCursors layers)+2 = mergeFuel layers := by
  suffices h : ∀ n,allocatorView.work ((layers.zipIdx n).flatMap fun l => leftover (l.2 % 2^16) l.1)+2 =
        mergeFuel layers from h 0
  induction layers with
  | nil => simp [mergeFuel]
  | cons layer layers ih =>
    intro n
    have hrest := ih (n+1)
    rw [zipIdx_cons,flatMap_cons,work_append,work_leftover]
    simp only [mergeFuel,map_cons,sum_cons] at hrest ⊢
    have hlayer : allocatorView.cursorWork layer = (layer.map fun i => i.key.deviceRange.length+1).sum := rfl
    omega

lemma merged_spec {layers : List (List AllocatorItem)} (h : ∀ l ∈ layers,IsAllocatorLayer l) :
    ∃ out,merged layers = .ok out ∧ IsAllocatorLayer out ∧ ∀ p,deltaAt out p = referenceCount layers p := by
  obtain ⟨out,hy,hrun⟩ := mergeFrom_unbounded merge_law (valid_allocatorCursors h)
  refine ⟨out,?_,⟨hy.ascending,hy.good⟩,fun p => ?_⟩
  · have hfuel := work_layerCursors layers
    simp [merged,hrun (mergeFuel layers) (by omega)]
  · rw [deltaAt_of_yields hy,totalDelta_layerCursors]

/-- A key that is not past any that may overlap. -/
def AllocatorKey.lowerBoundForMergeInto (key : AllocatorKey) : AllocatorKey := ⟨⟨0,key.deviceRange.start⟩⟩

variable {item : AllocatorItem}

lemma mergeInto_spec (h : IsAllocatorLayer layer) (hne : lo item < hi item) (hd : item.value.delta ≠ 0) :
    ∃ out,IsAllocatorLayer out ∧ (∀ p,deltaAt out p = deltaAt layer p+own item p) ∧
      ∀ fuel,allocatorView.cursorWork (item::layer) < fuel → mergeInto
        merge fuel layer item item.key.lowerBoundForMergeInto = some out := by
  obtain ⟨before,rest,merged,rfl,-,hy,hasc,hgood,hrun⟩ := mergeInto_yields
    merge_law (fun _ _ => trivial) item.key.lowerBoundForMergeInto h.1 h.2 hne hd le_rfl
  refine ⟨before++merged,⟨hasc,hgood⟩,fun p => ?_,hrun⟩
  rw [deltaAt_append hasc,deltaAt_of_yields hy,deltaAt_append h.1]
  simp only [totalDelta_append,totalDelta_leftover]
  rw [deltaAt_cons (by simp : ∀ x ∈ ([] : List AllocatorItem),hi item ≤ lo x)]
  simp [add_assoc]

lemma mergeIntoTree_spec {s : State} (h : IsAllocatorLayer s.tree) (hne : lo item < hi item)
    (hd : item.value.delta ≠ 0) : ∃ tree,mergeIntoTree s item = .ok { s with tree := tree } ∧ IsAllocatorLayer tree ∧
      ∀ p,deltaAt tree p = deltaAt s.tree p+own item p := by
  obtain ⟨out,hout,hdelta,hrun⟩ := mergeInto_spec h hne hd
  refine ⟨out,?_,hout,hdelta⟩
  have hfuel := work_layerCursors [[item],s.tree]
  have hcur : allocatorView.work (layerCursors [[item],s.tree]) = allocatorView.cursorWork (item::s.tree) := by
    simp [layerCursors,zipIdx_cons,MergeView.work_leftover]
  have hm := hrun (mergeFuel [[item],s.tree]) (by omega)
  rw [AllocatorKey.lowerBoundForMergeInto] at hm
  simp [mergeIntoTree,hm]

end Merge

section Flush

open SimpleAllocator Transition

/-- The layers of the allocator's tree, and what was merged into it. -/
structure LSMTree where
  mutableLayer : List AllocatorItem
  layers : List (List AllocatorItem)
  records : List AllocatorItem
  deriving DecidableEq

namespace LSMTree

/-- A flush seals the mutable layer and, unless it fails, sets the layers to their compaction. -/
inductive Action
  | mergeInto (item : AllocatorItem)
  | sealLayer
  | setLayers

def step (t : LSMTree) : Action → Option LSMTree
  | .mergeInto item => do
    let layer ← SkipListLayer.mergeInto merge (mergeFuel [item::t.mutableLayer]) t.mutableLayer item
      item.key.lowerBoundForMergeInto
    return ⟨layer,t.layers,item::t.records⟩
  | .sealLayer => some ⟨[],t.mutableLayer::t.layers,t.records⟩
  | .setLayers => do
    let out ← (merged t.layers).toOption
    let it ← CoalescingIterator.new out
    let layer ← it.drain (out.length+1)
    return { t with layers := [layer] }

def Allowed (_ : LSMTree) : Action → Prop
  | .mergeInto item => lo item < hi item ∧ item.value.delta ≠ 0
  | _ => True

structure Counts (t : LSMTree) : Prop where
  layer : ∀ l ∈ t.mutableLayer::t.layers,IsAllocatorLayer l
  count : ∀ p,referenceCount (t.mutableLayer::t.layers) p = (t.records.map (own · p)).sum

variable {t : LSMTree}

lemma Counts.step {a : Action} (h : Counts t) (ha : Allowed t a) : ∃ t',t.step a = some t' ∧ Counts t' := by
  obtain ⟨hmutable,hlayers⟩ := forall_mem_cons.mp h.layer
  cases a with
  | mergeInto item =>
    obtain ⟨out,hout,hdelta,hrun⟩ := mergeInto_spec hmutable ha.1 ha.2
    have hmerge := hrun (mergeFuel [item::t.mutableLayer]) (lt_add_of_pos_right _ two_pos)
    refine ⟨⟨out,t.layers,item::t.records⟩,by simp [LSMTree.step,hmerge],forall_mem_cons.mpr ⟨hout,hlayers⟩,fun p => ?_⟩
    have hp := h.count p
    simp only [referenceCount,map_cons,sum_cons,hdelta] at hp ⊢
    omega
  | sealLayer =>
    refine ⟨_,rfl,forall_mem_cons.mpr ⟨by simp [IsAllocatorLayer],h.layer⟩,fun p => ?_⟩
    rw [← h.count]
    simp [referenceCount,deltaAt]
  | setLayers =>
    obtain ⟨out,hmerged,hout,hsum⟩ := merged_spec hlayers
    obtain ⟨it,layer,hnew,hco,hdrain⟩ := coalesced_drain out hout
    refine ⟨{ t with layers := [layer] },by simp [LSMTree.step,hmerged,hnew,hdrain,Except.toOption],
      by simp [hmutable,hco.layer],fun p => ?_⟩
    rw [← h.count]
    simp [referenceCount,hco.delta,hsum]

def sampleActions : List Action := [.mergeInto ⟨⟨⟨0,4⟩⟩,⟨1⟩,0⟩,.mergeInto ⟨⟨⟨2,6⟩⟩,⟨1⟩,0⟩,.sealLayer,
  .mergeInto ⟨⟨⟨2,3⟩⟩,⟨-1⟩,0⟩,.sealLayer,.setLayers,.mergeInto ⟨⟨⟨6,8⟩⟩,⟨1⟩,0⟩]

instance (t : LSMTree) (a : Action) : Decidable (Allowed t a) := by
  cases a <;> unfold Allowed <;> infer_instance

end LSMTree

end Flush

section Search

open SimpleAllocator

variable {b n len last : ℕ} {out : List AllocatorItem} {r : Range}

/-- A gap: it begins where the search stood or some item ends, and it ends with the
length asked for, the device, or where some item begins. -/
structure IsGap (n len last : ℕ) (out : List AllocatorItem) (r : Range) : Prop where
  nonempty : r.start < r.stop
  length_le : r.length ≤ len
  ge : last ≤ r.start
  uncovered : ∀ p,r.Has p → ∀ i ∈ out,¬Covers i p
  start : r.start = last ∨ 0 < r.start ∧ ∃ i ∈ out,Covers i (r.start-1)
  stop : r.stop = r.start+len ∨ r.stop = n ∨ ∃ i ∈ out,Covers i r.stop
  inside : r.stop ≤ n ∨ ∃ i ∈ out,∃ p,Covers i p ∧ r.stop ≤ p

lemma firstGap_isGap (hasc : Ascending out) (hlast : ∀ i ∈ out,last ≤ lo i) (hlen : 0 < len)
    (h : firstGap n len last out = some r) : IsGap n len last out r := by
  induction out generalizing last with
  | nil =>
    simp only [firstGap,Option.ite_none_left_eq_some,Option.some.injEq] at h
    obtain ⟨hlt,rfl⟩ := h
    have hstop : min (last+len) n = last+len ∨ min (last+len) n = n := min_choice _ _
    exact {
      nonempty := not_le.mp hlt
      length_le := by simp only [Range.length]; omega
      ge := le_rfl
      uncovered := by simp
      start := .inl rfl
      stop := hstop.imp id .inl
      inside := .inl (min_le_right _ _) }
  | cons i out ih =>
    obtain ⟨hne,hle,hrest⟩ := ascending_cons.mp hasc
    have hcov : Covers i (lo i) := ⟨le_rfl,hne⟩
    rw [firstGap,← lo_allocatorItem,← hi_allocatorItem] at h
    split_ifs at h with hgap
    · obtain rfl := Option.some.inj h
      have hstop : min (last+len) (lo i) = last+len ∨ min (last+len) (lo i) = lo i := min_choice _ _
      exact {
        nonempty := lt_min (Nat.lt_add_of_pos_right hlen) hgap
        length_le := by simp only [Range.length]; omega
        ge := le_rfl
        uncovered := by
          intro p hp j hj hjp
          have hplt : p < lo i := hp.2.trans_le (min_le_right _ _)
          exact absurd (hplt.trans_le ((hasc.lo_head_le hj).trans hjp.1)) (lt_irrefl p)
        start := .inl rfl
        stop := hstop.imp id fun hs => .inr ⟨i,by simp,by rw [hs]; exact hcov⟩
        inside := .inr ⟨i,by simp,lo i,hcov,min_le_right _ _⟩ }
    · have hg := ih hrest hle h
      have hge : hi i ≤ r.start := hg.ge
      have hlo := hlast i (by simp)
      exact {
        nonempty := hg.nonempty
        length_le := hg.length_le
        ge := by omega
        uncovered := by
          intro p hp j hj hjp
          rcases mem_cons.mp hj with rfl | hj
          · exact absurd (hjp.2.trans_le (hge.trans hp.1)) (lt_irrefl p)
          · exact hg.uncovered p hp j hj hjp
        start := by
          rcases hg.start with hs | ⟨hpos,j,hj,hjp⟩
          · exact .inr ⟨by omega,i,by simp,by constructor <;> omega⟩
          · exact .inr ⟨hpos,j,by simp [hj],hjp⟩
        stop := hg.stop.imp id fun hs => hs.imp id fun ⟨j,hj,hjp⟩ => ⟨j,by simp [hj],hjp⟩
        inside := hg.inside.imp id fun ⟨j,hj,hjp⟩ => ⟨j,by simp [hj],hjp⟩ }

lemma div_eq_pred_div {x : ℕ} (hx : 0 < x) (hb : ¬b ∣ x) : (x-1)/b = x/b := by
  obtain ⟨y,rfl⟩ := Nat.exists_eq_add_of_lt hx
  rw [zero_add] at hb ⊢
  simp [Nat.succ_div,hb]

lemma firstGap_free {v : Space} (hv : v.Safe b n) (hn : b ∣ n) (hlen : b ∣ len) (hpos : 0 < len)
    (hout : IsAllocatorLayer out) (hsum : ∀ p,deltaAt out p = coverage v.reserved p+v.count p)
    (h : firstGap n len 0 out = some r) : v.Free b n r ∧ r.length ≤ len := by
  have hg := firstGap_isGap hout.1 (by simp) hpos h
  have hzero : ∀ p,(∀ i ∈ out,¬Covers i p) → deltaAt out p = 0 := by
    intro p hp
    by_contra hne
    obtain ⟨i,hi,hip⟩ := exists_mem_of_deltaAt_ne_zero hne
    exact hp i hi hip
  have hne : ∀ i ∈ out,∀ p,Covers i p → deltaAt out p ≠ 0 := by
    intro i hi p hp
    rw [deltaAt_of_mem hout.1 hi hp]
    exact hout.2 i hi
  have hblock : ∀ p q,p/b = q/b → deltaAt out p = deltaAt out q := by
    intro p q hpq
    rw [hsum,hsum,hv.count_block p q hpq,coverage_block hv.reserved_aligned hpq]
  have hedge : ∀ x,0 < x → (deltaAt out (x-1) = 0 ↔ deltaAt out x ≠ 0) → b ∣ x := by
    intro x hx hchange
    by_contra hb
    rw [hblock _ _ (div_eq_pred_div hx hb)] at hchange
    tauto
  have hstart : deltaAt out r.start = 0 := hzero _ (hg.uncovered _ ⟨le_rfl,hg.nonempty⟩)
  have hlast : deltaAt out (r.stop-1) = 0 := by
    have hlt := hg.nonempty
    exact hzero _ (hg.uncovered _ ⟨by omega,by omega⟩)
  have hds : b ∣ r.start := by
    rcases hg.start with hs | ⟨hx,i,hi,hip⟩
    · simp [hs]
    · exact hedge _ hx (by simp [hstart,hne i hi _ hip])
  have hinside : ∀ p,deltaAt out p ≠ 0 → p < n := by
    intro p hp
    refine hv.inside p ?_
    have hc := hv.count_nonneg p
    rw [hsum] at hp
    omega
  refine ⟨⟨hg.nonempty,⟨hds,?_⟩,?_,fun p hp => ?_⟩,hg.length_le⟩
  · rcases hg.stop with hs | hs | ⟨i,hi,hip⟩
    · exact hs ▸ (dvd_add hds hlen)
    · exact hs ▸ hn
    · exact hedge _ (by have := hg.nonempty; omega) (by simp [hlast,hne i hi _ hip])
  · rcases hg.inside with hs | ⟨i,hi,p,hip,hle⟩
    · exact hs
    · exact hle.trans (hinside p (hne i hi p hip)).le
  · rw [← hsum,hzero p (hg.uncovered p hp)]

end Search

section Deallocate

open SimpleAllocator Tiling MergeLayerIterator

variable {b : ℕ} {count : ℕ → ℤ} {range : Range} {tree : List AllocatorItem}

/-- What the walk of a deallocation yields: records that each take one off counted
bytes, in order, between two offsets. -/
structure Deallocates (b : ℕ) (count : ℕ → ℤ) (low high : ℕ) (ms : List Mutation) : Prop where
  delta : ∀ m ∈ ms,m.item.value.delta = -1
  nonempty : ∀ m ∈ ms,m.range.start < m.range.stop
  aligned : ∀ m ∈ ms,m.range.Aligned b
  within : ∀ m ∈ ms,low ≤ m.range.start ∧ m.range.stop ≤ high
  counted : ∀ m ∈ ms,∀ p,m.range.Has p → 1 ≤ count p
  kind : ∀ m ∈ ms,(m.kind = .allocator ↔ count (m.range.stop-1) = 1)
  ordered : ms.Pairwise fun a b => a.range.stop ≤ b.range.start

/-- The record the walk is extending, which has reached `stop`. -/
structure Pending (b : ℕ) (count : ℕ → ℤ) (stop : ℕ) (m : Mutation) : Prop where
  delta : m.item.value.delta = -1
  nonempty : m.range.start < m.range.stop
  stop_eq : m.range.stop = stop
  start_aligned : b ∣ m.range.start
  counted : ∀ p,m.range.Has p → 1 ≤ count p
  kind : m.kind = .allocator ↔ count (stop-1) = 1

variable {m : Mutation}

variable {ms : List Mutation}

lemma Deallocates.cons {stop high : ℕ} (h : Pending b count stop m) (hb : b ∣ stop)
    (hms : Deallocates b count stop high ms) (hle : stop ≤ high) : Deallocates b count m.range.start high (m::ms) := by
  obtain rfl := h.stop_eq
  exact {
    delta := forall_mem_cons.mpr ⟨h.delta,hms.delta⟩
    nonempty := forall_mem_cons.mpr ⟨h.nonempty,hms.nonempty⟩
    aligned := forall_mem_cons.mpr ⟨⟨h.start_aligned,hb⟩,hms.aligned⟩
    within := forall_mem_cons.mpr ⟨⟨le_rfl,hle⟩,fun x hx =>
      ⟨h.nonempty.le.trans (hms.within x hx).1,(hms.within x hx).2⟩⟩
    counted := forall_mem_cons.mpr ⟨h.counted,hms.counted⟩
    kind := forall_mem_cons.mpr ⟨h.kind,hms.kind⟩
    ordered := pairwise_cons.mpr ⟨fun x hx => (hms.within x hx).1,hms.ordered⟩ }

/-- Records that take one off every byte from `start` to `stop`, all of them counted, and
tell the bytes that this frees from those that stay referenced. -/
structure Frees (count : ℕ → ℤ) (start stop : ℕ) (ms : List Mutation) : Prop where
  delta : ∀ m ∈ ms,m.item.value.delta = -1
  tiles : Tiles start stop (ms.map Mutation.item)
  counted : ∀ p,start ≤ p → p < stop → count p ≠ 0
  kind : ∀ m ∈ ms,∀ p,m.range.Has p → (m.kind = .allocator ↔ count p = 1)

/-- The number of bytes with one reference. -/
def freed (count : ℕ → ℤ) (start stop : ℕ) : ℕ :=
  ((Finset.Ico start stop).filter fun p => count p = 1).card

variable {start mid stop : ℕ} {items : List AllocatorItem}

lemma freed_add (h : start ≤ mid) (h' : mid ≤ stop) :
    freed count start stop = freed count start mid+freed count mid stop := by
  simp only [freed,Finset.card_filter]
  exact (Finset.sum_Ico_consecutive _ h h').symm

lemma freed_const {delta : ℤ} (h : ∀ p,start ≤ p → p < stop → count p = delta) :
    freed count start stop = if delta = 1 then stop-start else 0 := by
  have hcount : ∀ p ∈ Finset.Ico start stop,(count p = 1 ↔ delta = 1) := fun p hp => by
    rw [h p (Finset.mem_Ico.mp hp).1 (Finset.mem_Ico.mp hp).2]
  rw [freed,Finset.filter_congr hcount]
  split_ifs with hd <;> simp [hd]

lemma frees_nil (count : ℕ → ℤ) (start : ℕ) : Frees count start start [] where
  delta := by simp
  tiles := rfl
  counted p hp hps := absurd hp hps.not_ge
  kind := by simp

lemma frees_singleton : Frees count start stop [m] ↔ m.item.value.delta = -1 ∧ m.range = ⟨start,stop⟩ ∧ start < stop ∧
      ∀ p,start ≤ p → p < stop → count p ≠ 0 ∧ (m.kind = .allocator ↔ count p = 1) := by
  have htiles : Tiles start stop [m.item] ↔ m.range = ⟨start,stop⟩ ∧ start < stop := by
    obtain ⟨kind,⟨⟨⟨low,high⟩⟩,value,sequence⟩⟩ := m
    show (low = start ∧ low < high ∧ high = stop) ↔ Range.mk low high = ⟨start,stop⟩ ∧ start < stop
    rw [Range.mk.injEq]
    omega
  constructor
  · intro h
    have hr := htiles.mp h.tiles
    exact ⟨h.delta m (by simp),hr.1,hr.2,fun p hp hps =>
      ⟨h.counted p hp hps,h.kind m (by simp) p (by rw [hr.1]; exact ⟨hp,hps⟩)⟩⟩
  · rintro ⟨hd,hr,hlt,hp⟩
    refine ⟨by simpa using hd,htiles.mpr ⟨hr,hlt⟩,fun p h h' => (hp p h h').1,?_⟩
    simpa [hr,Range.Has] using fun p h h' => (hp p h h').2

lemma Frees.cons (h : Frees count start mid [m]) (hms : Frees count mid stop ms) : Frees count start stop (m::ms) where
  delta := forall_mem_cons.mpr ⟨h.delta m (by simp),hms.delta⟩
  tiles := by
    obtain ⟨hlo,hne,hend⟩ := h.tiles
    exact ⟨hlo,hne,hend ▸ hms.tiles⟩
  counted p hp hps := (lt_or_ge p mid).elim (h.counted p hp) fun hmid => hms.counted p hmid hps
  kind := forall_mem_cons.mpr ⟨h.kind m (by simp),hms.kind⟩

lemma extendMutation_frees {delta : ℤ} {pending : Option Mutation} (hlt : start < stop) (hdelta : delta ≠ 0)
    (hcount : ∀ p,start ≤ p → p < stop → count p = delta)
    (hpending : ∀ m ∈ pending,Frees count m.range.start start [m]) :
    ∃ added m,extendMutation (if delta = 1 then .allocator else .allocatorRef) start stop pending =
      (added,m) ∧ Frees count m.range.start stop [m] ∧
      (∀ x ∈ added,count (x.range.stop-1) ≠ count x.range.stop) ∧ ∀ high ms,Frees count m.range.start high ms →
          Frees count (pending.elim start fun m => m.range.start) high (added++ms) := by
  obtain ⟨kind,hk⟩ : ∃ kind : MutationKind,kind = if delta = 1 then .allocator else .allocatorRef := ⟨_,rfl⟩
  have hkind : ∀ p,start ≤ p → p < stop → count p ≠ 0 ∧ (kind = .allocator ↔ count p = 1) := by
    intro p hp hps
    rw [hk,hcount p hp hps]
    split_ifs <;> simp_all
  rw [← hk]
  have hfresh : Frees count start stop [⟨kind,⟨⟨⟨start,stop⟩⟩,⟨-1⟩,0⟩⟩] :=
    frees_singleton.mpr ⟨rfl,rfl,hlt,hkind⟩
  cases pending with
  | none => exact ⟨[],_,rfl,hfresh,by simp,fun high ms h => h⟩
  | some m =>
    have hm := hpending m rfl
    obtain ⟨hd,hr,hne,hmk⟩ := frees_singleton.mp hm
    by_cases heq : m.kind = kind
    · refine ⟨[],{ m with item := { m.item with key := ⟨⟨m.range.start,stop⟩⟩ } },
        by simp only [extendMutation,heq,if_true],?_,by simp,fun high ms h => h⟩
      refine frees_singleton.mpr ⟨hd,rfl,hne.trans hlt,fun p hp hps => ?_⟩
      by_cases hp' : p < start
      · exact hmk p hp hp'
      · exact heq ▸ hkind p (not_lt.mp hp') hps
    · refine ⟨[m],⟨kind,⟨⟨⟨start,stop⟩⟩,⟨-1⟩,0⟩⟩,by simp only [extendMutation,heq,if_false],hfresh,
        ?_,fun high ms h => hm.cons h⟩
      have h1 := (hmk (start-1) (by omega) (by omega)).2
      have h2 := (hkind start le_rfl hlt).2
      intro x hx hcount
      obtain rfl := mem_singleton.mp hx
      rw [hr] at hcount
      rw [hcount,← h2] at h1
      exact heq (by cases hx : x.kind <;> cases hy : kind <;> simp [hx,hy] at h1 ⊢)

/-- The records say what the count is from `start` on, each one from where the last one ended. -/
def Walks (count : ℕ → ℤ) : ℕ → List AllocatorItem → Prop
  | start,[] => ∀ p,start ≤ p → count p = 0
  | start,i::items => start < hi i ∧ lo i < hi i ∧ i.value.delta ≠ 0 ∧
      (∀ p,start ≤ p → p < hi i → count p = own i p) ∧ Walks count (hi i) items

lemma walks_of_ascending (hasc : Ascending items) (hgood : ∀ i ∈ items,i.value.delta ≠ 0)
    (hend : ∀ i ∈ items,start < hi i) (hcount : ∀ p,start ≤ p → count p = deltaAt items p) :
    Walks count start items := by
  induction items generalizing start with
  | nil => exact hcount
  | cons i items ih =>
    obtain ⟨hne,hle,hrest⟩ := ascending_cons.mp hasc
    refine ⟨hend i mem_cons_self,hne,hgood i mem_cons_self,fun p hp hlt => ?_,?_⟩
    · rw [hcount p hp,deltaAt_cons hle,deltaAt_of_lt hle hlt,add_zero]
    · refine ih hrest (fun j hj => hgood j (mem_cons_of_mem _ hj))
        (fun j hj => (hle j hj).trans_lt (hrest.1 j hj)) fun p hp => ?_
      rw [hcount p ((hend i mem_cons_self).le.trans hp),deltaAt_cons hle,
        own_of_not_covers fun hc => absurd hc.2 (not_lt.mpr hp),zero_add]

lemma deallocateLoop_walk (hwalks : Walks count range.start items) (hlt : range.start < range.stop)
    {pending : Option Mutation} (hpending : ∀ m ∈ pending,Frees count m.range.start range.start [m])
    (deallocated : ℕ) :
    ∃ ms result reached,deallocateLoop range pending deallocated items = (ms,result) ∧ reached ≤ range.stop ∧
      Frees count (pending.elim range.start fun m => m.range.start) reached ms ∧
      (∀ m ∈ ms,m.range.stop = range.stop ∨ count (m.range.stop-1) ≠ count m.range.stop) ∧
      (result = some (deallocated+freed count range.start reached) ∧ range.start ≤ reached ∧
          (reached = range.stop ∨ ∀ p,reached ≤ p → count p = 0) ∨
        result = none ∧ ∃ p q,range.Has p ∧ count p = 0 ∧ p ≤ q ∧ count q ≠ 0) := by
  induction items generalizing range pending deallocated with
  | nil =>
    refine ⟨pending.toList,_,range.start,rfl,hlt.le,?_,?_,.inl ⟨by simp [freed],le_rfl,.inr hwalks⟩⟩
    · cases pending with
      | none => exact frees_nil _ _
      | some m => exact hpending m rfl
    · intro m hm
      obtain ⟨-,hr,hne,hmk⟩ := frees_singleton.mp (hpending m (by simpa using hm))
      rw [hr]
      exact .inr fun heq => (hmk (range.start-1) (by omega) (by omega)).1 (heq.trans (hwalks _ le_rfl))
  | cons i items ih =>
    obtain ⟨hi',hne,hgood,hcount,hrest⟩ := hwalks
    rw [hi_allocatorItem] at hi'
    by_cases hgap : range.start < i.key.deviceRange.start
    · have hstart : (pending.elim range.start fun m => m.range.start) ≤ range.stop := by
        cases pending with
        | none => exact hlt.le
        | some m => exact (hpending m rfl).tiles.le.trans hlt.le
      refine ⟨[],none,_,by rw [deallocateLoop,if_pos hgap],hstart,frees_nil _ _,by simp,
        .inr ⟨rfl,range.start,lo i,⟨le_rfl,hlt⟩,?_,hgap.le,?_⟩⟩
      · exact (hcount _ le_rfl hi').trans (own_of_not_covers fun hc => absurd hc.1 (not_le.mpr hgap))
      · rw [hcount (lo i) hgap.le hne,own_of_covers ⟨le_rfl,hne⟩]
        exact hgood
    · obtain ⟨stop,hst⟩ : ∃ stop,stop = min i.key.deviceRange.stop range.stop := ⟨_,rfl⟩
      have hpiece : ∀ p,range.start ≤ p → p < stop → count p = i.value.delta := by
        intro p hp hps
        have hlt : p < hi i := by
          rw [hi_allocatorItem]
          omega
        refine (hcount p hp hlt).trans (own_of_covers ⟨?_,hlt⟩)
        rw [lo_allocatorItem]
        omega
      obtain ⟨added,m,hext,hm,hmax,hadd⟩ := extendMutation_frees (by omega : range.start < stop)
        hgood hpiece hpending
      have hfreed := freed_const hpiece
      simp only [deallocateLoop,if_neg hgap,← hst,hext]
      by_cases hdone : stop = range.stop
      · rw [hdone] at hfreed hm
        refine ⟨added++[m],_,range.stop,if_pos hdone,le_rfl,hadd _ _ hm,?_,.inl ⟨?_,hlt.le,.inl rfl⟩⟩
        · refine forall_mem_append.mpr ⟨fun x hx => .inr (hmax x hx),forall_mem_singleton.mpr ?_⟩
          exact .inl (by rw [(frees_singleton.mp hm).2.1])
        · rw [hdone,hfreed]
          split_ifs <;> simp
      · have hend : stop = hi i := by
          rw [hi_allocatorItem]
          omega
        obtain ⟨ms,result,reached,hloop,hreach,hms,hmax',hresult⟩ := @ih ⟨stop,range.stop⟩ (hend ▸ hrest)
          (by simp only; omega) (some m) (by simpa using hm)
          (if i.value.delta = 1 then deallocated+(stop-range.start) else deallocated)
        refine ⟨added++ms,result,reached,by rw [if_neg hdone,hloop],hreach,hadd _ _ hms,?_,?_⟩
        · exact forall_mem_append.mpr ⟨fun x hx => .inr (hmax x hx),hmax'⟩
        · have hstop : range.start ≤ stop := by omega
          rcases hresult with ⟨rfl,hge,hall⟩ | ⟨rfl,p,q,hp,hzero⟩
          · refine .inl ⟨?_,hstop.trans hge,hall⟩
            rw [freed_add hstop hge,hfreed]
            split_ifs <;> simp [add_assoc]
          · exact .inr ⟨rfl,p,q,⟨hstop.trans hp.1,hp.2⟩,hzero⟩

lemma Frees.deallocates {low high : ℕ} (h : Frees count low stop ms) (hle : stop ≤ high)
    (hmax : ∀ m ∈ ms,m.range.stop = high ∨ count (m.range.stop-1) ≠ count m.range.stop)
    (hnonneg : ∀ p,0 ≤ count p) (hblock : ∀ p q,p/b = q/b → count p = count q) (hlow : b ∣ low)
    (hhigh : b ∣ high) : Deallocates b count low high ms := by
  induction ms generalizing low with
  | nil => constructor <;> simp
  | cons m ms ih =>
    obtain ⟨rfl,hne,htiles⟩ := h.tiles
    have hstop : m.range.stop ≤ stop := htiles.le
    have hb : b ∣ m.range.stop := by
      rcases hmax m (by simp) with heq | hmax
      · exact heq ▸ hhigh
      · by_contra hb
        exact hmax (hblock _ _ (div_eq_pred_div (zero_lt_of_lt hne) hb))
    have hm : Pending b count m.range.stop m := by
      refine ⟨h.delta m (by simp),hne,rfl,hlow,fun p hp => ?_,
        h.kind m (by simp) _ ⟨le_sub_one_of_lt hne,sub_one_lt_of_lt hne⟩⟩
      have hp' := h.counted p hp.1 (hp.2.trans_le hstop)
      have := hnonneg p
      omega
    refine Deallocates.cons hm hb (ih ⟨fun x hx => h.delta x (by simp [hx]),htiles,
      fun p hp => h.counted p (hne.le.trans hp),fun x hx => h.kind x (by simp [hx])⟩
      (fun x hx => hmax x (by simp [hx])) hb) (hstop.trans hle)

variable {layers : List (List AllocatorItem)}

lemma deltaAt_seekLayer (layer : List AllocatorItem) {p : ℕ} (hp : range.start ≤ p) :
    deltaAt (seekLayer layer (.included ⟨⟨0,range.start+1⟩⟩)) p = deltaAt layer p := by
  rw [deltaAt,deltaAt,seekLayer,find_dropWhile]
  intro i hi hc
  have hlt : i.key.deviceRange.stop < range.start+1 := compare_lt_iff_lt.mp (eq_of_beq hi)
  have hend := hc.2
  rw [hi_allocatorItem] at hend
  omega

lemma deallocate_merge (h : ∀ l ∈ layers,IsAllocatorLayer l)
    (hzero : ∀ l ∈ layers.dropLast,∀ i ∈ l,i.key.deviceRange.start = 0 → i.key.deviceRange.stop ≤ range.start) :
    ∃ items,(∀ fuel ≥ mergeFuel layers,mergeFrom merge fuel layers
        (.included ⟨⟨0,range.start+1⟩⟩) = some items) ∧ IsAllocatorLayer items ∧ (∀ i ∈ items,range.start < hi i) ∧
      ∀ p,range.start ≤ p → referenceCount layers p = deltaAt items p := by
  obtain ⟨key,hkey⟩ : ∃ key : AllocatorKey,key = ⟨⟨0,range.start+1⟩⟩ := ⟨_,rfl⟩
  have hsub : ∀ l : List AllocatorItem,(seekLayer l (.included key)).Sublist l := fun l =>
    dropWhile_sublist _
  have hpast : ∀ l : List AllocatorItem,Ascending l → ∀ i ∈ seekLayer l (.included key),range.start < hi i := by
    intro l hl i hi
    have hle : Ranged.hi key ≤ Ranged.hi i := hi_le_of_mem_seekLayer hl hi
    rw [hkey] at hle
    exact hle
  have hseek : ∀ l ∈ layers.map (seekLayer · (.included key)),IsAllocatorLayer l := by
    intro l hl
    obtain ⟨layer,hlayer,rfl⟩ := mem_map.mp hl
    exact ⟨(h layer hlayer).1.sublist (hsub _),fun i hi => (h layer hlayer).2 i ((hsub _).subset hi)⟩
  obtain ⟨out,hy,hrun⟩ := mergeFrom_opened merge_law (fun _ => rfl) (valid_allocatorCursors hseek)
    fun opened rest heap hsplit hperm (hstop : needsMoreIterators rest heap (some key) = false) => by
      by_contra hne
      have hready : ∀ x ∈ heap,x.remaining ≠ [] := by
        intro x hx
        obtain ⟨it,-,hit,hc⟩ := mem_openCursors.mp (hperm.subset (mem_map_of_mem hx))
        rw [← cursor_snd,hc]
        exact hit
      obtain ⟨c,hc,i,hi,hlo⟩ := exists_head_of_needsMoreIterators hready hne hstop
      obtain ⟨it,hit,-,rfl⟩ := mem_openCursors.mp (hperm.subset hc)
      have hl : layers = opened.map (·.layer)++rest.map (·.layer) := by
        rw [← map_append,← hsplit]
        simp [MergeLayerIterator.new,Function.comp_def]
      have hmem : it.layer ∈ layers.dropLast := by
        rw [hl,dropLast_append_of_ne_nil (by simpa using hne)]
        exact mem_append_left _ (mem_map_of_mem hit)
      rw [hkey] at hlo
      have hasc := (h _ (mem_of_mem_dropLast hmem)).1
      exact absurd (hpast _ hasc i hi) (hzero _ hmem i ((hsub _).subset hi) (le_zero.mp hlo)).not_gt
  have hdrop : out.dropWhile (fun i => !withinBound i.key (.included key)) = seekLayer out (.included key) := by
    simp [seekLayer,withinBound,bne]
  have hfuel : allocatorView.work (layerCursors (layers.map (seekLayer · (.included key)))) < mergeFuel layers := by
    refine lt_of_succ_lt ((work_layerCursors _).trans_le ?_)
    rw [mergeFuel,mergeFuel,map_map]
    gcongr
    exact sum_le_sum fun l _ => allocatorView.cursorWork_sublist (hsub l)
  rw [hdrop] at hrun
  subst hkey
  refine ⟨_,fun fuel h => hrun fuel (hfuel.trans_le h),⟨hy.ascending.sublist (hsub _),fun i hi => hy.good i ((hsub _).subset hi)⟩,
    hpast out hy.ascending,fun p hp => ?_⟩
  rw [deltaAt_seekLayer out hp,deltaAt_of_yields hy,totalDelta_layerCursors]
  simp [referenceCount,Function.comp_def,deltaAt_seekLayer _ hp]

lemma deallocate_search (htree : IsAllocatorLayer tree) (hnonneg : ∀ p,0 ≤ deltaAt tree p)
    (hblock : ∀ p q,p/b = q/b → deltaAt tree p = deltaAt tree q) (hlt : range.start < range.stop)
    (hr : range.Aligned b) : ∃ items,mergeFrom merge (mergeFuel [tree]) [tree]
        (.included ⟨⟨0,range.start+1⟩⟩) = some items ∧
      Deallocates b (deltaAt tree) range.start range.stop (deallocateLoop range none 0 items).1 := by
  obtain ⟨items,hrun,hitems,hend,hcount⟩ := @deallocate_merge range [tree] (by simpa) (by simp)
  have hwalks : Walks (deltaAt tree) range.start items :=
    walks_of_ascending hitems.1 hitems.2 hend (by simpa [referenceCount] using hcount)
  obtain ⟨ms,result,reached,hloop,hreach,hfrees,hmax,-⟩ :=
    deallocateLoop_walk hwalks hlt (by simp : ∀ m ∈ none,_) 0
  refine ⟨items,hrun _ le_rfl,?_⟩
  rw [hloop]
  exact hfrees.deallocates hreach hmax hnonneg hblock hr.1 hr.2

end Deallocate

end Fuchsia.Fxfs
