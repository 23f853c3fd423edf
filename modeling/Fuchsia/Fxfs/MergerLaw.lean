import Fuchsia.Fxfs.Merger

/-! What a merge function must do for the merger to be right, and what a full
merge then yields. A `MergeView` says which value a set of cursors assigns to a
point; a `MergeLaw` says that each result of the merge function keeps it. -/
namespace Fuchsia.Fxfs

open Ranges Ranged Key MergeLayerIterator List Prod

/-- `View cs p d`: the cursors `cs` together assign `d` to the point `p`.
`Shows e p d`: so does the single item `e`. -/
structure MergeView (K V T D : Type) where
  Good : Item K V → Prop
  Indexed : List ℕ → Prop
  weight : Item K V → ℕ
  View : List (Cursor K V) → T → D → Prop
  Shows : Item K V → T → D → Prop

variable {K V T D : Type} {cs ds : List (Cursor K V)}

namespace MergeView

variable (w : MergeView K V T D)

def cursorWork (t : List (Item K V)) : ℕ := (t.map fun x => w.weight x + 1).sum

def work (cs : List (Cursor K V)) : ℕ := (cs.map fun c => w.cursorWork c.2).sum

@[simp] lemma cursorWork_nil : w.cursorWork [] = 0 := rfl
@[simp] lemma cursorWork_cons (x : Item K V) (t : List (Item K V)) :
    w.cursorWork (x::t) = w.weight x + 1 + w.cursorWork t := by simp [cursorWork]
lemma cursorWork_sublist {t u : List (Item K V)} (h : t.Sublist u) : w.cursorWork t ≤ w.cursorWork u :=
  (h.map _).sum_le_sum fun _ _ => Nat.zero_le _

lemma cursorWork_append (t u : List (Item K V)) : w.cursorWork (t++u) = w.cursorWork t + w.cursorWork u := by
  simp [cursorWork]
@[simp] lemma work_nil : w.work [] = 0 := rfl
@[simp] lemma work_cons (c : Cursor K V) (cs : List (Cursor K V)) : w.work (c::cs) = w.cursorWork c.2 + w.work cs := by
  simp [work]
@[simp] lemma work_append (cs ds : List (Cursor K V)) : w.work (cs++ds) = w.work cs + w.work ds := by
  simp [work]
@[simp] lemma work_leftover (i : ℕ) (t : List (Item K V)) : w.work (leftover i t) = w.cursorWork t := by
  cases t <;> simp [leftover]

lemma work_perm (h : cs.Perm ds) : w.work cs = w.work ds := (h.map _).sum_eq

end MergeView

variable [LinearOrder T] [Ranged K T]

/-- Everything still to come starts at `b` or later. -/
def AllGe (b : T) (cs : List (Cursor K V)) : Prop := ∀ c ∈ cs,∀ x ∈ c.2,b ≤ lo x

/-- Some item starts at `b`. -/
def StartsAt (b : T) (cs : List (Cursor K V)) : Prop := ∃ c ∈ cs,∃ x ∈ c.2,lo x = b

@[simp] lemma allGe_nil (b : T) : AllGe b ([] : List (Cursor K V)) := by simp [AllGe]

variable {b : T}

lemma allGe_cons {c : Cursor K V} : AllGe b (c::cs) ↔ (∀ x ∈ c.2,b ≤ lo x) ∧ AllGe b cs := by simp [AllGe]

lemma allGe_append : AllGe b (cs++ds) ↔ AllGe b cs ∧ AllGe b ds := by
  simp only [AllGe,mem_append]
  exact ⟨fun h => ⟨fun c hc => h c (.inl hc),fun c hc => h c (.inr hc)⟩,fun h c hc => hc.elim (h.1 c) (h.2 c)⟩

lemma allGe_perm (h : cs.Perm ds) : AllGe b cs ↔ AllGe b ds := by simp only [AllGe,h.mem_iff]

lemma AllGe.mono {a : T} (h : AllGe b cs) (hab : a ≤ b) : AllGe a cs :=
  fun c hc x hx => hab.trans (h c hc x hx)

variable {i : ℕ} {t : List (Item K V)}

lemma allGe_leftover : AllGe b (leftover i t) ↔ ∀ x ∈ t,b ≤ lo x := by cases t <;> simp [leftover,AllGe]

namespace MergeView

variable (w : MergeView K V T D)

def ValidCursor (c : Cursor K V) : Prop := c.2 ≠ [] ∧ Ascending c.2 ∧ ∀ x ∈ c.2,w.Good x

def Valid (cs : List (Cursor K V)) : Prop := (∀ c ∈ cs,w.ValidCursor c) ∧ w.Indexed (cs.map fst)

structure Silent (cs ds : List (Cursor K V)) : Prop where
  valid : w.Valid ds
  sources : ds.map fst ⊆ cs.map fst
  work_lt : w.work ds < w.work cs
  ge : ∀ b,AllGe b cs → AllGe b ds
  view : ∀ p d,w.View cs p d ↔ w.View ds p d

/-- The merge loop yields `e`: it shows what the cursors assign to the points it
covers, lies before everything that is left, and leaves the other points alone. -/
structure Emits (cs : List (Cursor K V)) (e : Item K V) (ds : List (Cursor K V)) : Prop where
  valid : w.Valid ds
  sources : ds.map fst ⊆ cs.map fst
  work_lt : w.work ds < w.work cs
  good : w.Good e
  nonempty : lo e < hi e
  ge : ∀ b,AllGe b cs → b ≤ lo e
  after : AllGe (hi e) ds
  covered : ∀ p,Covers e p → ∃ d,w.View cs p d
  shows : ∀ p d,Covers e p → w.View cs p d → w.Shows e p d
  other : ∀ p d,¬Covers e p → (w.View cs p d ↔ w.View ds p d)

/-- A merge function that makes an item of its own leaves one that starts where
that item ends. -/
def Outcome (cs : List (Cursor K V)) : Option (Item K V) → List (Cursor K V) → Prop
  | none,ds => w.Silent cs ds
  | some e,ds => w.Emits cs e ds ∧ StartsAt (hi e) ds

variable {w} {a : Item K V}

lemma validCursor_cons : w.ValidCursor (i,a::t) ↔ lo a < hi a ∧ w.Good a ∧ (∀ x ∈ t,hi a ≤ lo x) ∧
      Ascending t ∧ ∀ x ∈ t,w.Good x := by
  simp only [ValidCursor,ascending_cons,mem_cons,forall_eq_or_imp,ne_eq,reduceCtorEq,not_false_eq_true,true_and]
  tauto

lemma valid_two {c c' : Cursor K V} :
    w.Valid (c::c'::cs) ↔ w.ValidCursor c ∧ w.ValidCursor c' ∧ (∀ x ∈ cs,w.ValidCursor x) ∧
      w.Indexed (c.1::c'.1::cs.map fst) := by simp [Valid,and_assoc]

lemma Valid.perm (hv : w.Valid cs) (hperm : ∀ {is js : List ℕ},is.Perm js → w.Indexed is → w.Indexed js)
    (h : cs.Perm ds) : w.Valid ds :=
  ⟨fun c hc => hv.1 c (h.symm.subset hc),hperm (h.map _) hv.2⟩

lemma Valid.leftover (h : w.Valid ((i,a::t)::cs)) (htail : ∀ {i : ℕ} {is : List ℕ},w.Indexed (i::is) → w.Indexed is) :
    w.Valid (Fxfs.leftover i t++cs) := by
  obtain ⟨-,-,-,hasc,hgood⟩ := validCursor_cons.mp (h.1 (i,a::t) (by simp))
  have hcs : ∀ c ∈ cs,w.ValidCursor c := fun c hc => h.1 c (by simp [hc])
  cases t with
  | nil => exact ⟨hcs,htail h.2⟩
  | cons b t =>
    refine ⟨fun c hc => ?_,h.2⟩
    cases mem_cons.mp hc with
    | inl hc =>
      subst hc
      exact ⟨by simp,hasc,hgood⟩
    | inr hc => exact hcs c hc

lemma Silent.emits {es : List (Cursor K V)} {e : Item K V} (h : w.Silent cs ds)
    (h' : w.Emits ds e es) : w.Emits cs e es where
  valid := h'.valid
  sources := List.Subset.trans h'.sources h.sources
  work_lt := h'.work_lt.trans h.work_lt
  good := h'.good
  nonempty := h'.nonempty
  ge b hb := h'.ge b (h.ge b hb)
  after := h'.after
  covered p hp := by
    obtain ⟨d,hd⟩ := h'.covered p hp
    exact ⟨d,(h.view p d).mpr hd⟩
  shows p d hp hd := h'.shows p d hp ((h.view p d).mp hd)
  other p d hp := (h.view p d).trans (h'.other p d hp)

end MergeView

/-- The merge function keeps what the cursors assign. `a` is the heap's lowest
item and `b` the second lowest. -/
structure MergeLaw (w : MergeView K V T D) (mergeFn : MergeFn K V) : Prop where
  indexed_perm : ∀ {is js : List ℕ},is.Perm js → w.Indexed is → w.Indexed js
  indexed_tail : ∀ {i : ℕ} {is : List ℕ},w.Indexed (i::is) → w.Indexed is
  view_perm : ∀ {cs ds : List (Cursor K V)} {p : T} {d : D},cs.Perm ds → w.View cs p d → w.View ds p d
  covered : ∀ {i : ℕ} {a : Item K V} {t : List (Item K V)} {cs : List (Cursor K V)} {p : T},
    w.Valid ((i,a::t)::cs) → Covers a p → ∃ d,w.View ((i,a::t)::cs) p d
  shows : ∀ {i : ℕ} {a : Item K V} {t : List (Item K V)} {cs : List (Cursor K V)} {p : T} {d : D},
    w.Valid ((i,a::t)::cs) → AllGe (hi a) cs → Covers a p → w.View ((i,a::t)::cs) p d → w.Shows a p d
  other : ∀ {i : ℕ} {a : Item K V} {t : List (Item K V)} {cs : List (Cursor K V)} {p : T} {d : D},
    w.Valid ((i,a::t)::cs) → ¬Covers a p → (w.View ((i,a::t)::cs) p d ↔ w.View (leftover i t++cs) p d)
  emitLeft : ∀ {i j : ℕ} {a b : Item K V} {t u : List (Item K V)} {cs : List (Cursor K V)},
    w.Valid ((i,a::t)::(j,b::u)::cs) → NotAfter i a j b → mergeFn ⟨i,a⟩ ⟨j,b⟩ = .emitLeft → hi a ≤ lo b
  merges : ∀ {i j : ℕ} {a b : Item K V} {t u : List (Item K V)} {cs : List (Cursor K V)}
    {emit : Option (Item K V)} {left right : ItemOp K V},
    w.Valid ((i,a::t)::(j,b::u)::cs) → NotAfter i a j b → AllGe (lo b) cs →
      mergeFn ⟨i,a⟩ ⟨j,b⟩ = .other emit left right →
      w.Outcome ((i,a::t)::(j,b::u)::cs) emit (applyOp j b u right++(applyOp i a t left++cs))

namespace MergeLaw

variable {w : MergeView K V T D} {mergeFn : MergeFn K V}

section

variable (law : MergeLaw w mergeFn)
include law

lemma view_iff (h : cs.Perm ds) (p : T) (d : D) : w.View cs p d ↔ w.View ds p d :=
  ⟨law.view_perm h,law.view_perm h.symm⟩

lemma valid_perm (h : cs.Perm ds) (hv : w.Valid cs) : w.Valid ds := hv.perm law.indexed_perm h

variable {es : List (Cursor K V)}

lemma emits_perm {e : Item K V} (h : cs.Perm ds) (he : w.Emits ds e es) : w.Emits cs e es where
  valid := he.valid
  sources := List.Subset.trans he.sources (h.map _).symm.subset
  work_lt := by rw [w.work_perm h]; exact he.work_lt
  good := he.good
  nonempty := he.nonempty
  ge b hb := he.ge b ((allGe_perm h).mp hb)
  after := he.after
  covered p hp := by
    obtain ⟨d,hd⟩ := he.covered p hp
    exact ⟨d,law.view_perm h.symm hd⟩
  shows p d hp hd := he.shows p d hp (law.view_perm h hd)
  other p d hp := (law.view_iff h p d).trans (he.other p d hp)

lemma silent_perm (h : cs.Perm ds) (hs : w.Silent ds es) : w.Silent cs es where
  valid := hs.valid
  sources := List.Subset.trans hs.sources (h.map _).symm.subset
  work_lt := by rw [w.work_perm h]; exact hs.work_lt
  ge b hb := hs.ge b ((allGe_perm h).mp hb)
  view p d := (law.view_iff h p d).trans (hs.view p d)

lemma emits_head {a : Item K V} (hv : w.Valid ((i,a::t)::cs)) (hge : AllGe (hi a) cs) :
    w.Emits ((i,a::t)::cs) a (leftover i t++cs) := by
  obtain ⟨-,hasc,hgood⟩ := hv.1 (i,a::t) (by simp)
  obtain ⟨hne,hle,-⟩ := ascending_cons.mp hasc
  exact {
    valid := hv.leftover law.indexed_tail
    sources := by cases t <;> simp [leftover]
    work_lt := by simp
    good := hgood a (by simp)
    nonempty := hne
    ge := fun b hb => hb (i,a::t) (by simp) a (by simp)
    after := allGe_append.mpr ⟨allGe_leftover.mpr hle,hge⟩
    covered := fun p hp => law.covered hv hp
    shows := fun p d hp hd => law.shows hv hge hp hd
    other := fun p d hp => law.other hv hp }

end

end MergeLaw

variable {w : MergeView K V T D} {mergeFn : MergeFn K V} {heap : List (MergeLayerIterator K V)}

omit [LinearOrder T] [Ranged K T] in
lemma exists_remaining (hready : ∀ x ∈ heap,x.remaining ≠ []) {it : MergeLayerIterator K V} (h : it ∈ heap) :
    ∃ a t,it.remaining = a::t :=
  exists_cons_of_ne_nil (hready it h)

lemma allGe_of_current (hv : ∀ x ∈ heap,Ascending x.remaining)
    (h : ∀ x ∈ heap,∀ a ∈ x.current,b ≤ lo a) : AllGe b (cursors heap) := by
  intro c hc y hy
  obtain ⟨x,hx,rfl⟩ := mem_map.mp hc
  simp only [cursor_snd] at hy
  cases hr : x.remaining with
  | nil => simp [hr] at hy
  | cons a t =>
    have hasc := hv x hx
    rw [hr] at hasc hy
    exact (h x hx a (by simp [current_eq hr])).trans (hasc.lo_head_le hy)

variable [Key K] [RangedKey K T]

lemma mergeStep_sound (law : MergeLaw w mergeFn) (hv : w.Valid (cursors heap)) :
    heap = [] ∧ mergeStep mergeFn heap = some .exhausted ∨
    (∃ heap',mergeStep mergeFn heap = some (.again heap') ∧ w.Silent (cursors heap) (cursors heap')) ∨
    (∃ it e t heap',mergeStep mergeFn heap = some (.yielded (.iterator it) heap') ∧
      it.remaining = e::t ∧ heap.Perm (it::heap') ∧ AllGe (hi e) (cursors heap') ∧
      w.Emits (cursors heap) e (leftover it.layerIndex t++cursors heap')) ∨
    (∃ e heap',mergeStep mergeFn heap = some (.yielded (.item e) heap') ∧
      w.Emits (cursors heap) e (cursors heap') ∧ StartsAt (hi e) (cursors heap')) := by
  cases hp : popLowest heap with
  | none => exact .inl ⟨popLowest_eq_none.mp hp,by simp [mergeStep,hp]⟩
  | some q =>
    obtain ⟨l,rest⟩ := q
    have hready : ∀ x ∈ heap,x.remaining ≠ [] := fun x hx => (hv.1 x.cursor (mem_map_of_mem hx)).1
    obtain ⟨hperm,hlow⟩ := popLowest_spec hready hp
    obtain ⟨a,t,hl⟩ := exists_remaining hready (hperm.symm.subset (by simp : l ∈ l::rest))
    have hcur := current_eq hl
    have hcperm : (cursors heap).Perm ((l.layerIndex,a::t)::cursors rest) := by
      have h := hperm.map cursor
      simpa [cursors,cursor,hl] using h
    have hv' := law.valid_perm hcperm hv
    cases hq : popLowest rest with
    | none =>
      have hrest := popLowest_eq_none.mp hq
      subst hrest
      refine .inr (.inr (.inl ⟨l,a,t,[],by simp [mergeStep,hp,hq],hl,hperm,by simp,?_⟩))
      exact law.emits_perm hcperm (law.emits_head hv' (by simp))
    | some q =>
      obtain ⟨s,others⟩ := q
      have hready' : ∀ x ∈ rest,x.remaining ≠ [] := fun x hx =>
        hready x (hperm.symm.subset (by simp [hx]))
      obtain ⟨hperm',hlow'⟩ := popLowest_spec hready' hq
      obtain ⟨b,u,hs⟩ := exists_remaining hready' (hperm'.symm.subset (by simp : s ∈ s::others))
      have hcurs := current_eq hs
      have hab : NotAfter l.layerIndex a s.layerIndex b :=
        hlow a hcur s (hperm'.symm.subset (by simp)) b hcurs
      have hcperm' : (cursors heap).Perm ((l.layerIndex,a::t)::(s.layerIndex,b::u)::cursors others) := by
        have h := hperm'.map cursor
        refine hcperm.trans (List.Perm.cons _ ?_)
        simpa [cursors,cursor,hs] using h
      have hv'' := law.valid_perm hcperm' hv
      have hasc : ∀ x ∈ rest,Ascending x.remaining := fun x hx =>
        (hv.1 x.cursor (mem_map.mpr ⟨x,hperm.symm.subset (by simp [hx]),rfl⟩)).2.1
      have hges : AllGe (lo b) (cursors others) :=
        allGe_of_current (fun x hx => hasc x (hperm'.symm.subset (by simp [hx])))
          fun x hx c hc => (hlow' b hcurs x hx c hc).lo_le
      cases hm : mergeFn ⟨l.layerIndex,a⟩ ⟨s.layerIndex,b⟩ with
      | emitLeft =>
        have hle : hi a ≤ lo b := law.emitLeft hv'' hab hm
        have hge : AllGe (hi a) (cursors (s::others)) := by
          rw [cursors_cons,allGe_cons]
          refine ⟨fun x hx => hle.trans ?_,hges.mono hle⟩
          have h := hasc s (hperm'.symm.subset (by simp))
          rw [cursor_snd,hs] at hx
          rw [hs] at h
          exact h.lo_head_le hx
        have hcc : cursors (s::others) = (s.layerIndex,b::u)::cursors others := by simp [cursor,hs]
        refine .inr (.inr (.inl ⟨l,a,t,s::others,by simp [mergeStep,hp,hq,hcur,hcurs,hm],
          hl,hperm.trans (hperm'.cons l),hge,?_⟩))
        rw [hcc] at hge ⊢
        exact law.emits_perm hcperm' (law.emits_head hv'' hge)
      | other emit left right =>
        have hout := law.merges hv'' hab hges hm
        obtain ⟨heap',hheap⟩ : ∃ heap',heap' = updateItem
            (updateItem others (l.maybeAdvance left) left) (s.maybeAdvance right) right :=
          ⟨_,rfl⟩
        have hcs : cursors heap' = applyOp s.layerIndex b u right++ (applyOp l.layerIndex a t left++cursors others) := by
          rw [hheap,cursors_updateItem hs,cursors_updateItem hl]
        cases emit with
        | none =>
          refine .inr (.inl ⟨heap',by simp [mergeStep,hp,hq,hcur,hcurs,hm,hheap],?_⟩)
          rw [hcs]
          exact law.silent_perm hcperm' hout
        | some e =>
          refine .inr (.inr (.inr ⟨e,heap',by
            simp [mergeStep,hp,hq,hcur,hcurs,hm,hheap],?_⟩))
          rw [hcs]
          exact ⟨law.emits_perm hcperm' hout.1,hout.2⟩

end Fuchsia.Fxfs
