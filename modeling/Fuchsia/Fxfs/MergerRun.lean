import Fuchsia.Fxfs.MergerLaw

/-! A merge of whole layers: every pass of the loop is one the merge law speaks
of, the loop ends within the cursors' work, and what it yields shows what the
layers assign. -/
namespace Fuchsia.Fxfs

open Ranges Ranged Key MergeLayerIterator List
open MergerIterator (advanceImpl drain resume)

variable {K V T D : Type}

lemma cursors_pushIfSome_setItemFromIter (heap : List (MergeLayerIterator K V)) (it : MergeLayerIterator K V) :
    cursors (pushIfSome heap it.setItemFromIter) = leftover it.layerIndex it.iter++cursors heap := by
  have hidx : it.setItemFromIter.layerIndex = it.layerIndex := rfl
  cases h : it.iter with
  | nil => simp [pushIfSome,leftover,h]
  | cons a t => simp [pushIfSome,leftover,h,cursor,hidx]

lemma mem_leftover {i : ℕ} {t : List (Item K V)} {c : Cursor K V} : c ∈ leftover i t ↔ t ≠ [] ∧ c = (i,t) := by
  cases t <;> simp [leftover]

section Iterators

variable [Key K]

def openCursors (bound : Bound K) (pending : List (MergeLayerIterator K V)) :
    List (Cursor K V) :=
  pending.flatMap fun it => leftover it.layerIndex (seekLayer it.layer bound)

lemma mem_openCursors {bound : Bound K} {opened : List (MergeLayerIterator K V)}
    {c : Cursor K V} : c ∈ openCursors bound opened ↔ ∃ it ∈ opened,
      seekLayer it.layer bound ≠ [] ∧ c = (it.layerIndex,seekLayer it.layer bound) := by
  simp [openCursors,mem_leftover]

lemma pushIterators_spec (next : Option K) (bound : Bound K) (pending heap : List (MergeLayerIterator K V)) :
    ∃ opened rest heap',pushIterators next bound pending heap = (rest,heap') ∧
      pending = opened++rest ∧ (cursors heap').Perm (openCursors bound opened++cursors heap) ∧
      needsMoreIterators rest heap' next = false ∧ (needsMoreIterators pending heap next = true → opened ≠ []) := by
  induction pending generalizing heap with
  | nil =>
    exact ⟨[],[],heap,by simp [pushIterators],rfl,by simp [openCursors],rfl,by simp [needsMoreIterators]⟩
  | cons it pending ih =>
    by_cases h : needsMoreIterators (it::pending) heap next
    · obtain ⟨opened,rest,heap',hpush,hsplit,hperm,hstop,-⟩ :=
        ih (pushIfSome heap ({ it with iter := seekLayer it.layer bound }.setItemFromIter))
      refine ⟨it::opened,rest,heap',by simp [pushIterators,h,hpush],by simp [hsplit],?_,hstop,by simp⟩
      rw [cursors_pushIfSome_setItemFromIter] at hperm
      refine hperm.trans ?_
      simp only [openCursors,flatMap_cons,append_assoc]
      rw [← append_assoc,← append_assoc]
      exact perm_append_comm.append_right _
    · exact ⟨[],it::pending,heap,by simp [pushIterators,h],rfl,by simp [openCursors],
        by simpa using h,fun hmore => absurd hmore h⟩

end Iterators

variable [LinearOrder T] [Ranged K T]

namespace MergeView

/-- `out` lies in order and shows what `cs` assign, at every point they assign
something to. -/
structure Yields (w : MergeView K V T D) (cs : List (Cursor K V)) (out : List (Item K V)) :
    Prop where
  ascending : Ascending out
  good : ∀ e ∈ out,w.Good e
  ge : ∀ b,AllGe b cs → ∀ e ∈ out,b ≤ lo e
  covered : ∀ e ∈ out,∀ p,Covers e p → ∃ d,w.View cs p d
  shows : ∀ e ∈ out,∀ p d,Covers e p → w.View cs p d → w.Shows e p d
  rest : ∀ p d,(∀ e ∈ out,¬Covers e p) → (w.View cs p d ↔ w.View [] p d)

variable {w : MergeView K V T D} {cs ds : List (Cursor K V)} {e : Item K V}
  {out : List (Item K V)}

lemma yields_nil (w : MergeView K V T D) : w.Yields [] [] where
  ascending := ascending_nil
  good := by simp
  ge := by simp
  covered := by simp
  shows := by simp
  rest p d _ := Iff.rfl

lemma Silent.yields (h : w.Silent cs ds) (hy : w.Yields ds out) : w.Yields cs out where
  ascending := hy.ascending
  good := hy.good
  ge b hb := hy.ge b (h.ge b hb)
  covered x hx p hp := by
    obtain ⟨d,hd⟩ := hy.covered x hx p hp
    exact ⟨d,(h.view p d).mpr hd⟩
  shows x hx p d hp hd := hy.shows x hx p d hp ((h.view p d).mp hd)
  rest p d hp := (h.view p d).trans (hy.rest p d hp)

lemma Emits.yields (h : w.Emits cs e ds) (hy : w.Yields ds out) : w.Yields cs (e::out) := by
  have hge := hy.ge (hi e) h.after
  have hnot : ∀ x ∈ out,∀ p,Covers x p → ¬Covers e p := fun x hx p hp hep =>
    absurd (hep.2.trans_le ((hge x hx).trans hp.1)) (lt_irrefl p)
  exact {
    ascending := ascending_cons.mpr ⟨h.nonempty,hge,hy.ascending⟩
    good := by
      intro x hx
      cases mem_cons.mp hx with
      | inl hx => exact hx ▸ h.good
      | inr hx => exact hy.good x hx
    ge := by
      intro b hb x hx
      have hbe := h.ge b hb
      cases mem_cons.mp hx with
      | inl hx => exact hx ▸ hbe
      | inr hx => exact hbe.trans (h.nonempty.le.trans (hge x hx))
    covered := by
      intro x hx p hp
      cases mem_cons.mp hx with
      | inl hx => exact h.covered p (hx ▸ hp)
      | inr hx =>
        obtain ⟨d,hd⟩ := hy.covered x hx p hp
        exact ⟨d,(h.other p d (hnot x hx p hp)).mpr hd⟩
    shows := by
      intro x hx p d hp hd
      cases mem_cons.mp hx with
      | inl hx => exact hx ▸ h.shows p d (hx ▸ hp) hd
      | inr hx => exact hy.shows x hx p d hp ((h.other p d (hnot x hx p hp)).mp hd)
    rest := by
      intro p d hp
      have hrest := hy.rest p d fun x hx => hp x (by simp [hx])
      exact (h.other p d (hp e (by simp))).trans hrest }

end MergeView

lemma MergeLaw.yields_perm {w : MergeView K V T D} {mergeFn : MergeFn K V} (law : MergeLaw w mergeFn)
    {cs ds : List (Cursor K V)} {out : List (Item K V)} (h : cs.Perm ds) (hy : w.Yields ds out) : w.Yields cs out where
  ascending := hy.ascending
  good := hy.good
  ge b hb := hy.ge b ((allGe_perm h).mp hb)
  covered x hx p hp := by
    obtain ⟨d,hd⟩ := hy.covered x hx p hp
    exact ⟨d,law.view_perm h.symm hd⟩
  shows x hx p d hp hd := hy.shows x hx p d hp (law.view_perm h hd)
  rest p d hp := (law.view_iff h p d).trans (hy.rest p d hp)

variable [Key K] [RangedKey K T] {w : MergeView K V T D} {mergeFn : MergeFn K V}

/-- What one call of `advance_impl` does to the cursors: it finds nothing, or it
stops at an item. -/
def Advanced (w : MergeView K V T D) (cs : List (Cursor K V)) (m : MergerIterator K V) : Prop :=
  m.get = none ∧ w.Yields cs [] ∨ ∃ e,m.get = some e ∧ w.Emits cs e (cursors (settle m.heap m.item))

variable (law : MergeLaw w mergeFn)
include law

lemma mergeStep_cases {heap : List (MergeLayerIterator K V)}
    (hv : w.Valid (cursors heap)) : heap = [] ∧ mergeStep mergeFn heap = some .exhausted ∨
    (∃ heap',mergeStep mergeFn heap = some (.again heap') ∧ w.Silent (cursors heap) (cursors heap')) ∨
    ∃ item e heap',mergeStep mergeFn heap = some (.yielded item heap') ∧ item.get = some e ∧
      w.Emits (cursors heap) e (cursors (settle heap' item)) := by
  rcases mergeStep_sound law hv with h | h | ⟨it,e,t,heap',hstep,hr,-,-,he⟩ | ⟨e,heap',hstep,he,-⟩
  · exact .inl h
  · exact .inr (.inl h)
  · refine .inr (.inr ⟨.iterator it,e,heap',hstep,current_eq hr,?_⟩)
    simpa [settle,cursors_pushIfSome hr] using he
  · exact .inr (.inr ⟨.item e,e,heap',hstep,rfl,he⟩)

lemma advanceImpl_unbounded (m : MergerIterator K V) (hv : w.Valid (cursors m.heap)) :
    ∃ m' : MergerIterator K V,m'.pendingIterators = m.pendingIterators ∧
      Advanced w (cursors m.heap) m' ∧ ∀ fuel,w.work (cursors m.heap) < fuel →
        advanceImpl mergeFn .unbounded fuel m = some m' := by
  induction hn : w.work (cursors m.heap) using Nat.strong_induction_on generalizing m with
  | _ n ih =>
  subst hn
  rcases mergeStep_cases law hv with
    ⟨hheap,hstep⟩ | ⟨heap',hstep,hs⟩ | ⟨item,e,heap',hstep,hget,he⟩
  · refine ⟨{ m with heap := [],item := .none },rfl,.inl ⟨rfl,?_⟩,?_⟩
    · simpa [hheap] using w.yields_nil
    · intro fuel hfuel
      obtain ⟨k,rfl⟩ := Nat.exists_eq_add_of_lt hfuel
      simp [advanceImpl,hstep]
  · obtain ⟨m',hpend,hadv,hrun⟩ := ih _ hs.work_lt { m with heap := heap' } hs.valid rfl
    refine ⟨m',hpend,?_,?_⟩
    · cases hadv with
      | inl h => exact .inl ⟨h.1,hs.yields h.2⟩
      | inr h =>
        obtain ⟨e,hget,he⟩ := h
        exact .inr ⟨e,hget,hs.emits he⟩
    · intro fuel hfuel
      obtain ⟨k,rfl⟩ := Nat.exists_eq_add_of_lt hfuel
      have hlt := hs.work_lt
      have hk := hrun (w.work (cursors m.heap)+k) (by omega)
      simpa [advanceImpl,hstep] using hk
  · refine ⟨{ m with heap := heap',item := item },rfl,.inr ⟨e,hget,he⟩,fun fuel hfuel => ?_⟩
    obtain ⟨k,rfl⟩ := Nat.exists_eq_add_of_lt hfuel
    simp [advanceImpl,hstep,hget,withinBound]

lemma drain_yields {cs : List (Cursor K V)} (m : MergerIterator K V) (hpend : m.pendingIterators = [])
    (hadv : Advanced w cs m) : ∃ out,w.Yields cs out ∧ out.head? = m.get ∧ ∀ n fuel,w.work cs < n → w.work cs < fuel →
      m.drain mergeFn fuel n = some out := by
  induction hn : w.work cs using Nat.strong_induction_on generalizing m cs with
  | _ k ih =>
  subst hn
  cases hadv with
  | inl h =>
    refine ⟨[],h.2,h.1.symm,fun n fuel hn _ => ?_⟩
    obtain ⟨j,rfl⟩ := Nat.exists_eq_add_of_lt hn
    simp [drain,h.1]
  | inr h =>
    obtain ⟨e,hget,he⟩ := h
    -- with every layer on the heap, `advance` searches on from where it stands
    obtain ⟨item,hitem⟩ : ∃ item,∀ fuel,m.advance mergeFn fuel =
        advanceImpl mergeFn .unbounded fuel ⟨[],settle m.heap m.item,item⟩ := by
      have hbound : m.nextBound = (none,.unbounded) := by simp [MergerIterator.nextBound,hpend]
      cases hitem : m.item with
      | none =>
        exact ⟨.none,fun fuel => by
          simp [MergerIterator.advance,hbound,resume,hitem,hpend,pushIterators,settle]⟩
      | item i =>
        exact ⟨.item i,fun fuel => by
          simp [MergerIterator.advance,hbound,resume,hitem,hpend,pushIterators,settle]⟩
      | iterator it =>
        exact ⟨.none,fun fuel => by
          simp [MergerIterator.advance,hbound,resume,hitem,hpend,needsMoreIterators, settle]⟩
    obtain ⟨m',hpend',hadv',hrun⟩ := advanceImpl_unbounded law ⟨[],settle m.heap m.item,item⟩ he.valid
    have hlt := he.work_lt
    obtain ⟨out,hout,-,hdrain⟩ := ih _ hlt m' hpend' hadv' rfl
    refine ⟨e::out,he.yields hout,hget.symm,fun n fuel hn hfuel => ?_⟩
    obtain ⟨j,rfl⟩ := Nat.exists_eq_add_of_lt hn
    have hstep : m.advance mergeFn fuel = some m' := by
      rw [hitem]
      exact hrun fuel (hlt.trans hfuel)
    have hrest := hdrain (w.work cs+j) fuel (by omega) (hlt.trans hfuel)
    simp [drain,hget,hstep,hrest]

def layerCursors (layers : List (List (Item K V))) : List (Cursor K V) :=
  layers.zipIdx.flatMap fun l => leftover (l.2 % 2^16) l.1

lemma search_yields (bound : Bound K) (m : MergerIterator K V) (hpend : m.pendingIterators = [])
    (hv : w.Valid (cursors m.heap)) : ∃ out,w.Yields (cursors m.heap) out ∧ ∀ k n fuel,w.work (cursors m.heap) < k →
      w.work (cursors m.heap) < n → w.work (cursors m.heap) < fuel →
      (m.advanceImpl mergeFn bound k).bind (drain mergeFn fuel n) = some (out.dropWhile fun i => !withinBound i.key bound) := by
  induction hn : w.work (cursors m.heap) using Nat.strong_induction_on generalizing m with
  | _ n ih =>
  subst hn
  rcases mergeStep_cases law hv with
    ⟨hheap,hstep⟩ | ⟨heap',hstep,hs⟩ | ⟨item,e,heap',hstep,hget,he⟩
  · refine ⟨[],by simpa [hheap] using w.yields_nil,fun k n fuel hk hn hfuel => ?_⟩
    obtain ⟨k,rfl⟩ := Nat.exists_eq_add_of_lt hk
    obtain ⟨n,rfl⟩ := Nat.exists_eq_add_of_lt hn
    simp [advanceImpl,hstep,drain,MergerIterator.get,CurrentItem.get]
  · obtain ⟨out,hy,hrun⟩ := ih _ hs.work_lt { m with heap := heap' } hpend hs.valid rfl
    refine ⟨out,hs.yields hy,fun k n fuel hk hn hfuel => ?_⟩
    have hlt := hs.work_lt
    obtain ⟨k,rfl⟩ := Nat.exists_eq_add_of_lt hk
    have hrest := hrun (w.work (cursors m.heap)+k) n fuel (by omega) (by omega) (by omega)
    simpa [advanceImpl,hstep] using hrest
  · have hlt := he.work_lt
    by_cases hb : withinBound e.key bound = true
    · obtain ⟨out,hy,hhead,hdrain⟩ := drain_yields law ⟨[],heap',item⟩ rfl (.inr ⟨e,hget,he⟩)
      refine ⟨out,hy,fun k n fuel hk hn hfuel => ?_⟩
      obtain ⟨k,rfl⟩ := Nat.exists_eq_add_of_lt hk
      obtain ⟨t,rfl⟩ := head?_eq_some_iff.mp (hhead.trans hget)
      simp [advanceImpl,hstep,hget,hb,hpend,hdrain n fuel hn hfuel]
    · obtain ⟨out,hy,hrun⟩ := ih _ hlt ⟨[],settle heap' item,.none⟩ rfl he.valid rfl
      refine ⟨e::out,he.yields hy,fun k n fuel hk hn hfuel => ?_⟩
      obtain ⟨k,rfl⟩ := Nat.exists_eq_add_of_lt hk
      have hrest := hrun (w.work (cursors m.heap)+k) n fuel (by omega) (by omega) (by omega)
      simpa [advanceImpl,hstep,hget,hb,hpend] using hrest

omit law in
lemma exists_head_of_needsMoreIterators {heap pending : List (MergeLayerIterator K V)} {key : K}
    (hready : ∀ x ∈ heap,x.remaining ≠ []) (hne : pending ≠ [])
    (h : needsMoreIterators pending heap (some key) = false) :
    ∃ c ∈ cursors heap,∃ i ∈ c.2,lo i ≤ lo key := by
  cases hp : popLowest heap with
  | none => simp [needsMoreIterators,hp,hne] at h
  | some q =>
    obtain ⟨it,rest⟩ := q
    obtain ⟨hperm,-⟩ := popLowest_spec hready hp
    have hit : it ∈ heap := hperm.symm.subset (by simp)
    obtain ⟨i,t,hr⟩ := exists_remaining hready hit
    refine ⟨it.cursor,mem_map_of_mem hit,i,by simp [hr],?_⟩
    simp only [needsMoreIterators,hp,Option.bind_some,current_eq hr,
      RangedKey.cmpLowerBound_eq (T := T)] at h
    by_contra hlt
    have hgt := compare_gt_iff_gt.mpr (not_le.mp hlt)
    have hgt : compare (lo i.key) (lo key) = .gt := hgt
    simp [hgt,hne] at h

omit law in
lemma needsMoreIterators_eq_false {heap : List (MergeLayerIterator K V)} {key : K}
    (pending : List (MergeLayerIterator K V)) (hready : ∀ x ∈ heap,x.remaining ≠ [])
    (hasc : ∀ x ∈ heap,Ascending x.remaining) (h : StartsAt (lo key) (cursors heap)) :
    needsMoreIterators pending heap (some key) = false := by
  obtain ⟨c,hc,x,hx,hlo⟩ := h
  obtain ⟨jt,hjt,rfl⟩ := mem_map.mp hc
  cases hp : popLowest heap with
  | none =>
    rw [popLowest_eq_none] at hp
    simp [hp] at hjt
  | some q =>
    obtain ⟨it,rest⟩ := q
    obtain ⟨hperm,hlow⟩ := popLowest_spec hready hp
    have hit : it ∈ heap := hperm.symm.subset (by simp)
    obtain ⟨i,t,hr⟩ := exists_remaining hready hit
    obtain ⟨b,u,hb⟩ := exists_remaining hready hjt
    have hbx : lo b ≤ lo x := by
      have hasc := hasc jt hjt
      rw [cursor_snd] at hx
      rw [hb] at hasc hx
      exact hasc.lo_head_le hx
    have hib : lo i ≤ lo b := by
      cases mem_cons.mp (hperm.subset hjt) with
      | inl he =>
        subst he
        rw [hb] at hr
        simp only [cons.injEq] at hr
        rw [hr.1]
      | inr hmem => exact (hlow i (current_eq hr) jt hmem b (current_eq hb)).lo_le
    have hle : compare (lo i.key) (lo key) ≠ .gt := by
      intro hgt
      have hlt := compare_gt_iff_gt.mp hgt
      exact absurd (hlt.trans_le ((hib.trans hbx).trans hlo.le)) (lt_irrefl _)
    simp [needsMoreIterators,hp,current_eq hr,RangedKey.cmpLowerBound_eq (T := T),hle]

variable {layers : List (List (Item K V))}

lemma mergeFrom_opened {next : Option K} {bound : Bound K} (hseek : ∀ fuel,seek mergeFn fuel layers bound =
      let pushed := pushIterators next bound (layers.zipIdx.map fun l => new l.2 l.1) []
      advanceImpl mergeFn bound fuel ⟨pushed.1,pushed.2,.none⟩)
    (hv : w.Valid (layerCursors (layers.map (seekLayer · bound))))
    (hall : ∀ opened rest heap,layers.zipIdx.map (fun l => new l.2 l.1) = opened++rest →
      (cursors heap).Perm (openCursors bound opened) → needsMoreIterators rest heap next = false → rest = []) :
    ∃ out,w.Yields (layerCursors (layers.map (seekLayer · bound))) out ∧
      ∀ fuel,w.work (layerCursors (layers.map (seekLayer · bound))) < fuel → mergeFrom mergeFn fuel layers bound =
          some (out.dropWhile fun i => !withinBound i.key bound) := by
  obtain ⟨opened,rest,heap,hpush,hsplit,hperm,hstop,-⟩ := pushIterators_spec next
    bound (layers.zipIdx.map fun l => new l.2 l.1) []
  rw [cursors_nil,append_nil] at hperm
  have hrest := hall opened rest heap hsplit hperm hstop
  subst hrest
  rw [append_nil] at hsplit
  have hopen : openCursors bound opened = layerCursors (layers.map (seekLayer · bound)) := by
    simp [← hsplit,openCursors,layerCursors,flatMap_map,new,zipIdx_map]
  rw [hopen] at hperm
  obtain ⟨out,hout,hrun⟩ := search_yields law bound ⟨[],heap,.none⟩ rfl (law.valid_perm hperm.symm hv)
  rw [w.work_perm hperm] at hrun
  refine ⟨out,law.yields_perm hperm.symm hout,fun fuel hfuel => ?_⟩
  simpa [mergeFrom,hseek,hpush] using hrun fuel fuel fuel hfuel hfuel hfuel

lemma mergeFrom_unbounded (hv : w.Valid (layerCursors layers)) :
    ∃ out,w.Yields (layerCursors layers) out ∧ ∀ fuel,w.work (layerCursors layers) < fuel →
      mergeFrom mergeFn fuel layers .unbounded = some out := by
  have hid : layers.map (seekLayer · .unbounded) = layers := map_id layers
  obtain ⟨out,hout,hrun⟩ := mergeFrom_opened law (fun _ => rfl) (hid.symm ▸ hv)
    fun _ _ _ _ _ h => by simpa [needsMoreIterators] using h
  rw [hid] at hout hrun
  have hkeep : out.dropWhile (fun i => !withinBound i.key .unbounded) = out := by
    cases out <;> simp [withinBound]
  exact ⟨out,hout,fun fuel hfuel => (hrun fuel hfuel).trans (by rw [hkeep])⟩

end Fuchsia.Fxfs
