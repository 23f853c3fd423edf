import Fuchsia.Fxfs.ExtentTree

/-! Seeking in the extent tree. The merger opens a layer only where the newer
ones leave a gap at the key it searches for, and merges the item it yielded last
once more with the layers it opens. The frontier is the point up to which the
layers have been read: everything from there on is on the heap or pending. -/
namespace Fuchsia.Fxfs

open Ranges Ranged Key Priority MergeLayerIterator List MergerIterator MergeView

abbrev ExtentCursor := Cursor ExtentKey ExtentValue
abbrev ExtentIterator := MergeLayerIterator ExtentKey ExtentValue

/-- A key whose search finds what reaches past `f`. -/
def KeyAt (f : Point) (key : ExtentKey) : Prop := lo key ≤ f ∧ ∀ q,hi key ≤ q ↔ f < q

lemma keyAt_mk {o a s x : ℕ} (h : s ≤ x) : KeyAt (point o a x) ⟨o,a,⟨s,x+1⟩⟩ := by
  constructor
  · rw [lo_extentKey,point_le_point]
    exact .inr ⟨rfl,.inr ⟨rfl,h⟩⟩
  · intro q
    obtain ⟨o',a',hq⟩ := point_eta q
    rw [hq,hi_extentKey,point_le_point,point_lt_point]
    simp only
    omega

variable {key : ExtentKey}

lemma withinBound_included {f : Point} (hkey : KeyAt f key)
    (i : ExtentItem) : withinBound i.key (.included key) = true ↔ f < hi i := by
  rw [withinBound,RangedKey.cmpUpperBound_eq (T := Point),← hkey.2 (hi i)]
  simp [compare_lt_iff_lt]
  rfl

lemma seekLayer_included {f : Point} (hkey : KeyAt f key) (layer : List ExtentItem) :
    seekLayer layer (.included key) = layer.dropWhile fun i => decide (¬f < hi i) := by
  simp only [seekLayer]
  congr 1
  funext i
  have h := withinBound_included hkey i
  by_cases hi : f < Ranged.hi i
  · simpa [withinBound,hi] using h
  · simpa [withinBound,hi] using h

lemma cellAt_seekLayer {f p : Point} (hkey : KeyAt f key) (hp : f ≤ p) (layer : List ExtentItem) :
    cellAt (seekLayer layer (.included key)) p = cellAt layer p := by
  rw [seekLayer_included hkey,cellAt,cellAt,find_dropWhile]
  intro i hi hcov
  simp only [decide_eq_true_eq,not_lt] at hi
  exact absurd (hcov.2.trans_le (hi.trans hp)) (lt_irrefl p)

lemma seekLayer_past {f : Point} (hkey : KeyAt f key) {layer : List ExtentItem} (hasc : Ascending layer) :
    ∀ x ∈ seekLayer layer (.included key),f < hi x := by
  rw [seekLayer_included hkey]
  induction layer with
  | nil => simp
  | cons a t ih =>
    obtain ⟨-,hle,hasct⟩ := ascending_cons.mp hasc
    by_cases h : f < hi a
    · rw [dropWhile_cons_of_neg (by simpa using h)]
      intro x hx
      cases mem_cons.mp hx with
      | inl hx => exact hx ▸ h
      | inr hx => exact h.trans_le ((hle x hx).trans (hasct.1 x hx).le)
    · rw [dropWhile_cons_of_pos (by simpa using h)]
      exact ih hasct

lemma seekLayer_suffix (key : ExtentKey) (layer : List ExtentItem) : seekLayer layer (.included key) <:+ layer :=
  dropWhile_suffix _

def pendingEntry (p : Point) (it : ExtentIterator) : ℕ × Option Cell := (it.layerIndex,cellAt it.layer p)

/-- From `f` on, the cursors and the pending layers say what all the layers say. -/
structure Frontier (blockSize : ℕ) (layers : List (List ExtentItem)) (f : Point)
    (cs : List ExtentCursor) (pending : List ExtentIterator) : Prop where
  valid : (extentView blockSize).Valid cs
  wellFormed : ∀ it ∈ pending,IsExtentLayer blockSize it.layer
  ordered : pending.Pairwise fun it jt => it.layerIndex < jt.layerIndex
  newer : ∀ c ∈ cs,∀ it ∈ pending,c.1 < it.layerIndex
  view : ∀ p,f ≤ p → ∀ d,Newest (cs.map (entry p)++pending.map (pendingEntry p)) d ↔
    newestCell layers p = some d

variable {blockSize : ℕ} {layers : List (List ExtentItem)} {f : Point} {cs ds : List ExtentCursor}
  {pending : List ExtentIterator}

lemma entry_lt_pendingEntry (h : ∀ c ∈ cs,∀ it ∈ pending,c.1 < it.layerIndex) (p : Point) :
    ∀ i x j y,(i,x) ∈ cs.map (entry p) → (j,y) ∈ pending.map (pendingEntry p) → i < j := by
  intro i x j y hi hj
  obtain ⟨c,hc,he⟩ := mem_map.mp hi
  obtain ⟨it,hit,he'⟩ := mem_map.mp hj
  have hlt := h c hc it hit
  simp only [entry,pendingEntry,Prod.mk.injEq] at he he'
  omega

namespace Frontier

section

variable (h : Frontier blockSize layers f cs pending)
include h

variable {g : Point}

lemma advance (hfg : f ≤ g) (hv : (extentView blockSize).Valid ds) (hs : ds.map Prod.fst ⊆ cs.map Prod.fst)
    (hview : ∀ p,g ≤ p → ∀ d, (extentView blockSize).View cs p d ↔ (extentView blockSize).View ds p d) :
    Frontier blockSize layers g ds pending := by
  have hnewer : ∀ c ∈ ds,∀ it ∈ pending,c.1 < it.layerIndex := by
    intro c hc it hit
    obtain ⟨c',hc',he⟩ := mem_map.mp (hs (mem_map_of_mem hc))
    rw [← he]
    exact h.newer c' hc' it hit
  exact {
    valid := hv
    wellFormed := h.wellFormed
    ordered := h.ordered
    newer := hnewer
    view := by
      intro p hp d
      rw [← h.view p (hfg.trans hp) d]
      exact newest_append_congr (entry_lt_pendingEntry hnewer p)
        (entry_lt_pendingEntry h.newer p) (fun v => (hview p hp v).symm) d }

lemma silent (hs : (extentView blockSize).Silent cs ds) : Frontier blockSize layers f ds pending :=
  h.advance le_rfl hs.valid hs.sources fun p _ d => hs.view p d

lemma emits {e : ExtentItem} (he : (extentView blockSize).Emits cs e ds) (hfg : f ≤ g)
    (hg : hi e ≤ g) : Frontier blockSize layers g ds pending :=
  h.advance hfg he.valid he.sources fun p hp d =>
    he.other p d fun hcov => absurd (hcov.2.trans_le (hg.trans hp)) (lt_irrefl p)

lemma mono (hfg : f ≤ g) : Frontier blockSize layers g cs pending :=
  h.advance hfg h.valid (fun _ hc => hc) fun _ _ _ => Iff.rfl

lemma perm (hperm : cs.Perm ds) : Frontier blockSize layers f ds pending :=
  h.advance le_rfl ((mergeExtents_law blockSize).valid_perm hperm h.valid)
    (hperm.map _).symm.subset fun p _ d => (mergeExtents_law blockSize).view_iff hperm p d

end

end Frontier

variable {c : ExtentCursor}

lemma Frontier.opens {opened : List ExtentIterator} (hkey : KeyAt f key)
    (h : Frontier blockSize layers f cs (opened++pending)) :
    Frontier blockSize layers f (openCursors (.included key) opened++cs) pending := by
  have hord := pairwise_append.mp h.ordered
  have hsub : ((openCursors (.included key) opened).map Prod.fst).Sublist (opened.map layerIndex) :=
    map_fst_leftover_sublist _ _ _
  exact {
    valid := by
      constructor
      · intro c hc
        cases mem_append.mp hc with
        | inl hc =>
          obtain ⟨it,hit,hne,rfl⟩ := mem_openCursors.mp hc
          obtain ⟨hasc,hgood⟩ := h.wellFormed it (by simp [hit])
          have hsuf := seekLayer_suffix key it.layer
          exact ⟨hne,hasc.sublist hsuf.sublist,fun x hx => hgood x (hsuf.subset hx)⟩
        | inr hc => exact h.valid.1 c hc
      · have hopened : (opened.map layerIndex).Nodup := pairwise_map.mpr (hord.1.imp fun hlt => hlt.ne)
        show ((openCursors (.included key) opened++cs).map Prod.fst).Nodup
        rw [map_append]
        apply nodup_append.mpr
        refine ⟨hopened.sublist hsub,h.valid.2,?_⟩
        intro j hj i hi
        obtain ⟨it,hit,rfl⟩ := mem_map.mp (hsub.subset hj)
        obtain ⟨c,hc,rfl⟩ := mem_map.mp hi
        exact (h.newer c hc it (by simp [hit])).ne'
    wellFormed := fun it hit => h.wellFormed it (by simp [hit])
    ordered := hord.2.1
    newer := by
      intro c hc it hit
      cases mem_append.mp hc with
      | inl hc =>
        obtain ⟨jt,hjt,-,rfl⟩ := mem_openCursors.mp hc
        exact hord.2.2 jt hjt it hit
      | inr hc => exact h.newer c hc it (by simp [hit])
    view := by
      intro p hp d
      rw [← h.view p hp d]
      have hopen : ∀ i v,(i,some v) ∈ (openCursors (.included key) opened).map (entry p) ↔
          (i,some v) ∈ opened.map (pendingEntry p) := by
        intro i v
        simp only [mem_map,mem_openCursors,entry,pendingEntry,Prod.mk.injEq]
        constructor
        · rintro ⟨c,⟨it,hit,-,rfl⟩,hi,hv⟩
          exact ⟨it,hit,hi,by rw [← hv,cellAt_seekLayer hkey hp]⟩
        · rintro ⟨it,hit,hi,hv⟩
          rw [← cellAt_seekLayer hkey hp] at hv
          refine ⟨_,⟨it,hit,?_,rfl⟩,hi,hv⟩
          intro hnil
          simp [hnil,cellAt] at hv
      apply newest_congr
      intro i v
      simp only [map_append,mem_append,hopen]
      tauto }

/-! ### The state in which the merger stops at an item -/

/-- Below the frontier every data record that still shows ends at the frontier. -/
def Clean (f : Point) (cs : List ExtentCursor) : Prop :=
  ∀ s < f,∃ q,s ≤ q ∧ q < f ∧ ∀ d,Newest (cs.map (entry q)) d → ∀ l ∈ d.2,l ≤ f

variable {m : MergerIterator ExtentKey ExtentValue} {e : ExtentItem}

lemma Clean.silent (h : Clean f cs) (hs : (extentView blockSize).Silent cs ds) : Clean f ds := by
  intro s hsf
  obtain ⟨q,hsq,hqf,hq⟩ := h s hsf
  exact ⟨q,hsq,hqf,fun d hd => hq d ((hs.view q d).mpr hd)⟩

lemma Clean.emits (h : Clean f cs) (he : (extentView blockSize).Emits cs e ds) : Clean f ds := by
  intro s hsf
  obtain ⟨q,hsq,hqf,hq⟩ := h s hsf
  refine ⟨q,hsq,hqf,fun d hd => ?_⟩
  by_cases hcov : Covers e q
  · exact absurd hd (not_view_of_allGe he.after hcov.2)
  · exact hq d ((he.other q d hcov).mpr hd)

lemma Clean.le_lo (h : Clean f cs) (he : (extentView blockSize).Emits cs e ds) (hf : f < hi e)
    (hdata : e.value ≠ .none) : f ≤ lo e := by
  by_contra hlt
  obtain ⟨q,hsq,hqf,hq⟩ := h (lo e) (not_le.mp hlt)
  have hcov : Covers e q := ⟨hsq,hqf.trans hf⟩
  obtain ⟨d,hd⟩ := he.covered q hcov
  obtain ⟨hmap,hlim⟩ := he.shows q d hcov hd
  obtain ⟨l,hl⟩ : ∃ l,d.2 = some l := by
    obtain ⟨i,hi,-⟩ := hd
    obtain ⟨c,-,hc⟩ := mem_map.mp hi
    obtain ⟨x,-,rfl⟩ := Option.map_eq_some_iff.mp (congrArg Prod.snd hc)
    cases hv : x.value with
    | none =>
      cases he : e.value with
      | none => exact absurd he hdata
      | some dev sums key => simp [cell,extentMapping,ExtentValue.mapping,hv,he] at hmap
    | some dev sums key => exact ⟨Ranged.hi x,by simp [cell,limit,hv]⟩
  exact absurd (hf.trans_le ((hlim l hl).trans (hq d hd l hl))) (lt_irrefl f)

def Halted (cs : List ExtentCursor) (e : ExtentItem)
    (m : MergerIterator ExtentKey ExtentValue) : Prop :=
  (∃ it t,m.item = .iterator it ∧ it.remaining = e::t ∧ cs.Perm (it.cursor::cursors m.heap) ∧
    AllGe (hi e) (cursors m.heap)) ∨
  m.item = .item e ∧ StartsAt (hi e) (cursors m.heap)

lemma Halted.get_eq (h : Halted cs e m) : m.get = some e := by
  cases h with
  | inl h =>
    obtain ⟨it,t,hit,hr,-⟩ := h
    simp [MergerIterator.get,hit,CurrentItem.get,current_eq hr]
  | inr h => simp [MergerIterator.get,h.1,CurrentItem.get]

/-- The merger stopped at `e`, the first item that reaches past the frontier;
`cs` are the cursors just before it was taken. -/
structure Stopped (blockSize : ℕ) (layers : List (List ExtentItem)) (f : Point)
    (m : MergerIterator ExtentKey ExtentValue) (e : ExtentItem) (cs : List ExtentCursor) :
    Prop where
  halted : Halted cs e m
  past : f < hi e
  frontier : Frontier blockSize layers f cs m.pendingIterators
  emits : (extentView blockSize).Emits cs e (cursors (settle m.heap m.item))

/-- How a search from the cursors `cs` on may end. -/
def Searched (blockSize : ℕ) (layers : List (List ExtentItem)) (f : Point)
    (cs : List ExtentCursor) (m : MergerIterator ExtentKey ExtentValue) : Prop :=
  m.get = none ∧ (∀ p,f ≤ p → ∀ d,¬(extentView blockSize).View cs p d) ∨
    ∃ e ds,Stopped blockSize layers f m e ds ∧ (Clean f cs → Clean f ds) ∧
      (∀ d,(extentView blockSize).View cs f d ↔ (extentView blockSize).View ds f d) ∧
      (extentView blockSize).work ds ≤ (extentView blockSize).work cs

lemma Searched.silent (hs : (extentView blockSize).Silent cs ds) (h : Searched blockSize layers f ds m) :
    Searched blockSize layers f cs m := by
  cases h with
  | inl h => exact .inl ⟨h.1,fun p hp d hd => h.2 p hp d ((hs.view p d).mp hd)⟩
  | inr h =>
    obtain ⟨e,es,hstop,hclean,hview,hwork⟩ := h
    exact .inr ⟨e,es,hstop,fun hc => hclean (hc.silent hs),
      fun d => (hs.view f d).trans (hview d),hwork.trans hs.work_lt.le⟩

lemma Searched.emits (he : (extentView blockSize).Emits cs e ds) (hf : hi e ≤ f)
    (h : Searched blockSize layers f ds m) : Searched blockSize layers f cs m := by
  have hview : ∀ p,f ≤ p → ∀ d,(extentView blockSize).View cs p d ↔ (extentView blockSize).View ds p d :=
    fun p hp d => he.other p d fun hcov =>
      absurd (hcov.2.trans_le (hf.trans hp)) (lt_irrefl p)
  cases h with
  | inl h => exact .inl ⟨h.1,fun p hp d hd => h.2 p hp d ((hview p hp d).mp hd)⟩
  | inr h =>
    obtain ⟨x,es,hstop,hclean,hview',hwork⟩ := h
    exact .inr ⟨x,es,hstop,fun hc => hclean (hc.emits he),
      fun d => (hview f le_rfl d).trans (hview' d),hwork.trans he.work_lt.le⟩

lemma advanceImpl_included (hkey : KeyAt f key) (m : MergerIterator ExtentKey ExtentValue)
    (hfr : Frontier blockSize layers f (cursors m.heap) m.pendingIterators) :
    ∃ m' : MergerIterator ExtentKey ExtentValue,m'.pendingIterators = m.pendingIterators ∧
      Searched blockSize layers f (cursors m.heap) m' ∧ ∀ fuel,(extentView blockSize).work (cursors m.heap) < fuel →
        advanceImpl mergeExtents (.included key) fuel m = some m' := by
  induction hn : (extentView blockSize).work (cursors m.heap) using Nat.strong_induction_on generalizing m with
  | _ n ih =>
  subst hn
  rcases mergeStep_sound (mergeExtents_law blockSize) hfr.valid with
    ⟨hheap,hstep⟩ | ⟨heap',hstep,hs⟩ | hyield
  · refine ⟨{ m with heap := [],item := .none },rfl,.inl ⟨rfl,?_⟩,?_⟩
    · intro p _ d
      rw [hheap]
      exact newest_nil d
    · intro fuel hfuel
      obtain ⟨k,rfl⟩ := Nat.exists_eq_add_of_lt hfuel
      simp [advanceImpl,hstep]
  · obtain ⟨m',hpend,hres,hrun⟩ := ih _ hs.work_lt { m with heap := heap' } (hfr.silent hs) rfl
    refine ⟨m',hpend,hres.silent hs,fun fuel hfuel => ?_⟩
    obtain ⟨k,rfl⟩ := Nat.exists_eq_add_of_lt hfuel
    have hk := hrun ((extentView blockSize).work (cursors m.heap)+k) (by have := hs.work_lt; omega)
    simpa [advanceImpl,hstep] using hk
  · obtain ⟨item,e,heap',hstep,hget,hhalt,he⟩ : ∃ item e heap',
        mergeStep mergeExtents m.heap = some (.yielded item heap') ∧ item.get = some e ∧
        Halted (cursors m.heap) e { m with heap := heap',item := item } ∧
        (extentView blockSize).Emits (cursors m.heap) e (cursors (settle heap' item)) := by
      rcases hyield with ⟨it,e,t,heap',hstep,hr,hperm,hge,he⟩ | ⟨e,heap',hstep,he,hstart⟩
      · refine ⟨.iterator it,e,heap',hstep,current_eq hr,.inl ⟨it,t,rfl,hr,hperm.map _,hge⟩,?_⟩
        simpa [settle,cursors_pushIfSome hr] using he
      · exact ⟨.item e,e,heap',hstep,rfl,.inr ⟨rfl,hstart⟩,he⟩
    by_cases hpast : f < hi e
    · refine ⟨{ m with heap := heap',item := item },rfl,.inr ⟨e,cursors m.heap,
        ⟨hhalt,hpast,hfr,he⟩,fun hc => hc,fun d => Iff.rfl,le_rfl⟩,fun fuel hfuel => ?_⟩
      obtain ⟨k,rfl⟩ := Nat.exists_eq_add_of_lt hfuel
      simp [advanceImpl,hstep,hget,(withinBound_included hkey e).mpr hpast]
    -- an item that ends by the frontier is put back and searched past
    · obtain ⟨m',hpend,hres,hrun⟩ := ih _ he.work_lt { m with heap := settle heap' item,item := .none }
        (hfr.emits he le_rfl (not_lt.mp hpast)) rfl
      refine ⟨m',hpend,hres.emits he (not_lt.mp hpast),fun fuel hfuel => ?_⟩
      obtain ⟨k,rfl⟩ := Nat.exists_eq_add_of_lt hfuel
      have hk := hrun ((extentView blockSize).work (cursors m.heap)+k) (by have := he.work_lt; omega)
      simpa [advanceImpl,hstep,hget,withinBound_included hkey e,hpast] using hk

/-! ### Taking the next item -/

/-- `next_key` of an extent's key. -/
def nextExtent (e : ExtentItem) : ExtentKey :=
  ⟨e.key.objectId,e.key.attributeId,⟨e.key.range.stop,e.key.range.stop+1⟩⟩

lemma keyAt_nextExtent (e : ExtentItem) : KeyAt (hi e) (nextExtent e) := keyAt_mk le_rfl

variable {heap : List ExtentIterator}

variable {x : ExtentItem}

lemma viewed_of_covers (hv : (extentView blockSize).Valid cs) (hc : c ∈ cs) (hx : x ∈ c.2)
    (hcov : Covers x f) : ∃ d,(extentView blockSize).View cs f d := by
  have hfind := ((hv.1 c hc).2.1.find_eq_some_iff).mpr ⟨hx,hcov⟩
  apply newest_exists (i := c.1) (v := cell x f)
  exact mem_map.mpr ⟨c,hc,by simp [entry,cellAt,hfind]⟩

def pendingWork (blockSize : ℕ) (pending : List ExtentIterator) : ℕ :=
  (pending.map fun it => (extentView blockSize).cursorWork it.layer+1).sum

lemma work_openCursors (key : ExtentKey) (opened : List ExtentIterator) :
    (extentView blockSize).work (openCursors (.included key) opened)+opened.length ≤ pendingWork blockSize opened := by
  induction opened with
  | nil => simp [openCursors,pendingWork]
  | cons it opened ih =>
    have hle := (extentView blockSize).cursorWork_sublist (seekLayer_suffix key it.layer).sublist
    simp only [openCursors,pendingWork,flatMap_cons,map_cons,sum_cons,work_append,work_leftover,length_cons] at ih ⊢
    omega

lemma pendingWork_append (its jts : List ExtentIterator) :
    pendingWork blockSize (its++jts) = pendingWork blockSize its+pendingWork blockSize jts := by
  simp [pendingWork]

variable {t : List ExtentItem}

lemma clean_putBack {i : ℕ} {opened : List ExtentCursor} (hne : lo e < hi e) (hge : AllGe (hi e) cs)
    (hnewer : ∀ c ∈ opened,i < c.1) : Clean (hi e) ((i,e::t)::(opened++cs)) := by
  intro s hs
  refine ⟨max s (lo e),le_max_left _ _,max_lt hs hne,?_⟩
  have hcov : Covers e (max s (lo e)) := ⟨le_max_right _ _,max_lt hs hne⟩
  intro d hd l hl
  simp only [map_cons,map_append,entry,cellAt_of_covers hcov] at hd
  obtain ⟨k,hk,hmin⟩ := hd
  cases mem_cons.mp hk with
  | inl hk =>
    simp only [Prod.mk.injEq,Option.some.injEq] at hk
    rw [hk.2] at hl
    exact (limit_eq hl).le
  | inr hk =>
    cases mem_append.mp hk with
    | inl hk =>
      obtain ⟨c,hc,he⟩ := mem_map.mp hk
      have hki := hmin i _ mem_cons_self
      have hlt := hnewer c hc
      have hck : c.1 = k := congrArg Prod.fst he
      omega
    | inr hk =>
      obtain ⟨c,hc,he⟩ := mem_map.mp hk
      rw [entry,cellAt_of_lt (hge c hc) hcov.2] at he
      simp at he

/-- What `advance` makes of a stopped merger before it searches on. -/
structure Resumed (blockSize : ℕ) (layers : List (List ExtentItem)) (f : Point) (bound : ℕ)
    (m : MergerIterator ExtentKey ExtentValue) : Prop where
  frontier : Frontier blockSize layers f (cursors m.heap) m.pendingIterators
  clean : Clean f (cursors m.heap)
  viewed : m.pendingIterators ≠ [] → ∃ d,(extentView blockSize).View (cursors m.heap) f d
  work_lt : (extentView blockSize).work (cursors m.heap)+ pendingWork blockSize m.pendingIterators < bound

lemma Stopped.resumed_settled (h : Stopped blockSize layers f m e cs) {item : CurrentItem ExtentKey ExtentValue}
    (hheap : cursors heap = cursors (settle m.heap m.item)) (hc : c ∈ cursors heap) (hx : x ∈ c.2) (hlo : lo x ≤ hi e) :
    Resumed blockSize layers (hi e) ((extentView blockSize).work cs+pendingWork blockSize m.pendingIterators)
      ⟨m.pendingIterators,heap,item⟩ := by
  have he := h.emits
  rw [← hheap] at he
  exact {
    frontier := h.frontier.emits he h.past.le le_rfl
    clean s hs := ⟨s,le_rfl,hs,fun _ hd => absurd hd (not_view_of_allGe he.after hs)⟩
    viewed := fun _ => viewed_of_covers he.valid hc hx ⟨hlo,(he.after _ hc x hx).trans_lt ((he.valid.1 _ hc).2.1.1 x hx)⟩
    work_lt := by
      have hlt := he.work_lt
      simp only
      omega }

variable {it : ExtentIterator}

lemma Stopped.resumed_putBack (h : Stopped blockSize layers f m e cs) {opened rest : List ExtentIterator}
    (hr : it.remaining = e::t) (hperm : cs.Perm (it.cursor::cursors m.heap)) (hge : AllGe (hi e) (cursors m.heap))
    (hsplit : m.pendingIterators = opened++rest) (hopened : opened ≠ [])
    (hheap : (cursors heap).Perm (openCursors (.included (nextExtent e)) opened++cursors m.heap))
    (hstop : needsMoreIterators rest heap (some (nextExtent e)) = false) : Resumed blockSize layers (hi e)
      ((extentView blockSize).work cs+pendingWork blockSize m.pendingIterators)
      ⟨rest,it.advance.replace e::heap,.none⟩ := by
  have hcursor : it.cursor = (it.layerIndex,e::t) := by simp [cursor,hr]
  have hback : (it.advance.replace e).cursor = (it.layerIndex,e::t) := by
    simp [cursor,remaining_replace_advance hr]
  have hfr := (h.frontier.perm hperm).mono h.past.le
  rw [hsplit] at hfr
  have hopen := hfr.opens (keyAt_nextExtent e)
  have hmid : (openCursors (.included (nextExtent e)) opened++it.cursor::cursors m.heap).Perm
      ((it.layerIndex,e::t)::(openCursors (.included (nextExtent e)) opened++cursors m.heap)) := by
    rw [hcursor]
    exact perm_middle
  have hfinal : Frontier blockSize layers (hi e) ((it.layerIndex,e::t)::cursors heap) rest :=
    hopen.perm (hmid.trans (hheap.symm.cons _))
  have hready : ∀ x ∈ heap,x.remaining ≠ [] := fun x hx =>
    (hfinal.valid.1 x.cursor (mem_cons_of_mem _ (mem_map_of_mem hx))).1
  exact {
    frontier := by
      rw [cursors_cons,hback]
      exact hfinal
    clean := by
      have hnewer : ∀ c ∈ openCursors (.included (nextExtent e)) opened,it.layerIndex < c.1 := by
        intro c hc
        obtain ⟨jt,hjt,-,rfl⟩ := mem_openCursors.mp hc
        exact hfr.newer it.cursor (by simp) jt (by simp [hjt])
      rw [cursors_cons,hback]
      intro s hs
      obtain ⟨q,hsq,hq,hd⟩ := clean_putBack h.emits.nonempty hge hnewer (t := t) s hs
      refine ⟨q,hsq,hq,fun d hview => hd d ?_⟩
      exact (newest_perm ((hheap.cons _).map _) d).mp hview
    viewed := by
      intro hne
      obtain ⟨c,hc,x,hx,hlo⟩ := exists_head_of_needsMoreIterators hready hne hstop
      have hcov : Covers x (hi e) := by
        cases mem_append.mp (hheap.subset hc) with
        | inl hc =>
          obtain ⟨jt,hjt,-,rfl⟩ := mem_openCursors.mp hc
          have hasc := (hfr.wellFormed jt (by simp [hjt])).1
          exact ⟨hlo,seekLayer_past (keyAt_nextExtent e) hasc x hx⟩
        | inr hc =>
          have hv : (extentView blockSize).ValidCursor c := hfr.valid.1 c (by simp [hc])
          exact ⟨hlo,(hge c hc x hx).trans_lt (hv.2.1.1 x hx)⟩
      rw [cursors_cons,hback]
      exact viewed_of_covers hfinal.valid (mem_cons_of_mem _ hc) hx hcov
    work_lt := by
      have hwork := @work_openCursors blockSize (nextExtent e) opened
      have hlen := length_pos_of_ne_nil hopened
      rw [cursors_cons,hback,hsplit,pendingWork_append,(extentView blockSize).work_perm hperm,hcursor]
      simp only [work_cons,(extentView blockSize).work_perm hheap,work_append]
      omega }

def followedBy (it : ExtentIterator) (key : ExtentKey) : Bool :=
  match it.advance.current with
  | some i => cmpLowerBound i.key key != .gt
  | none => false

lemma followedBy_eq_true (hr : it.remaining = e::t) (h : followedBy it key = true) : ∃ i u,t = i::u ∧ lo i ≤ lo key := by
  rw [followedBy,current_eq_head,remaining_advance hr] at h
  cases t with
  | nil => simp at h
  | cons i u =>
    refine ⟨i,u,rfl,?_⟩
    simp only [head?_cons,RangedKey.cmpLowerBound_eq (T := Point),bne_iff_ne,ne_eq] at h
    by_contra hlt
    exact h (compare_gt_iff_gt.mpr (not_le.mp hlt))

lemma Stopped.resume (h : Stopped blockSize layers f m e cs) (hne : m.pendingIterators ≠ []) :
    ∃ m',m.resume (some (nextExtent e)) (.included (nextExtent e)) = some m' ∧ Resumed blockSize layers (hi e)
        ((extentView blockSize).work cs+pendingWork blockSize m.pendingIterators) m' := by
  have hhalted := h.halted
  cases hhalted with
  | inl hit =>
    obtain ⟨it,t,hitem,hr,hperm,hge⟩ := hit
    have hvalid := (mergeExtents_law blockSize).valid_perm hperm h.frontier.valid
    have hready : ∀ x ∈ m.heap,x.remaining ≠ [] := fun x hx =>
      (hvalid.1 x.cursor (mem_cons_of_mem _ (mem_map_of_mem hx))).1
    have hsettle : cursors (settle m.heap m.item) = leftover it.layerIndex t++cursors m.heap := by
      rw [hitem]
      exact cursors_pushIfSome hr m.heap
    by_cases hmore : needsMoreIterators m.pendingIterators m.heap (some (nextExtent e)) = true
    · by_cases hfollow : followedBy it (nextExtent e) = true
      · obtain ⟨i,u,rfl,hlo⟩ := followedBy_eq_true hr hfollow
        have hcursor : it.advance.cursor = (it.layerIndex,i::u) := by simp [cursor,remaining_advance hr]
        refine ⟨⟨m.pendingIterators,it.advance::m.heap,.none⟩,?_,
          h.resumed_settled (c := it.advance.cursor) (x := i) ?_ (by simp) (by simp [hcursor]) hlo⟩
        · have hnext := current_eq (remaining_advance hr)
          simp only [followedBy,hnext] at hfollow
          simp only [MergerIterator.resume,hitem,hmore,if_true,current_eq hr,hnext,hfollow]
        · rw [hsettle,cursors_cons,hcursor]
          rfl
      · obtain ⟨opened,rest,heap,hpush,hsplit,hheap,hstop,hopened⟩ := pushIterators_spec
          (some (nextExtent e)) (.included (nextExtent e)) m.pendingIterators m.heap
        refine ⟨⟨rest,it.advance.replace e::heap,.none⟩,?_,
          h.resumed_putBack hr hperm hge hsplit (hopened hmore) hheap hstop⟩
        cases hnext : it.advance.current with
        | none => simp [MergerIterator.resume,hitem,hmore,current_eq hr,hpush,hnext]
        | some i =>
          simp only [followedBy,hnext] at hfollow
          simp [MergerIterator.resume,hitem,hmore,current_eq hr,hpush,hnext,hfollow]
    · have hless := Bool.eq_false_iff.mpr hmore
      obtain ⟨c,hc,x,hx,hlo⟩ := exists_head_of_needsMoreIterators hready hne hless
      refine ⟨⟨m.pendingIterators,pushIfSome m.heap it.advance,.none⟩,?_,
        h.resumed_settled (c := c) (x := x) ?_ ?_ hx hlo⟩
      · simp [MergerIterator.resume,hitem,hless]
      · rw [hitem]
        rfl
      · rw [cursors_pushIfSome hr]
        exact mem_append_right _ hc
  | inr hit =>
    obtain ⟨hitem,hstart⟩ := hit
    have hsettle : settle m.heap m.item = m.heap := by
      rw [hitem]
      rfl
    have hvalid := h.emits.valid
    rw [hsettle] at hvalid
    have hready : ∀ x ∈ m.heap,x.remaining ≠ [] := fun x hx =>
      (hvalid.1 x.cursor (mem_map_of_mem hx)).1
    have hasc : ∀ x ∈ m.heap,Ascending x.remaining := fun x hx =>
      (hvalid.1 x.cursor (mem_map_of_mem hx)).2.1
    have hless := needsMoreIterators_eq_false m.pendingIterators hready hasc
      (show StartsAt (lo (nextExtent e)) _ from hstart)
    have hpush : pushIterators (some (nextExtent e)) (.included (nextExtent e))
        m.pendingIterators m.heap = (m.pendingIterators,m.heap) := by
      obtain ⟨it,pending,hp⟩ := exists_cons_of_ne_nil hne
      rw [hp] at hless ⊢
      simp [pushIterators,hless]
    obtain ⟨c,hc,x,hx,hlo⟩ := hstart
    refine ⟨⟨m.pendingIterators,m.heap,.item e⟩,?_,h.resumed_settled (c := c) (x := x) (by rw [hsettle]) hc hx hlo.le⟩
    simp [MergerIterator.resume,hitem,hpush]

/-- The records among `out` that hold data. -/
def dataExtents (out : List ExtentItem) : List ExtentItem := out.filter fun i => i.value ≠ .none

/-- From `f` on the first item of `out` that covers a point says what the layers
say, and the data records lie in order. -/
structure SeekOutput (layers : List (List ExtentItem)) (f : Point) (out : List ExtentItem) :
    Prop where
  lookup_eq : ∀ p,f ≤ p → lookup out p = newestMapping layers p
  ascending : Ascending (dataExtents out)

lemma advance_eq_resume (h : m.get = some e) (hne : m.pendingIterators ≠ []) (fuel : ℕ) :
    m.advance mergeExtents fuel = (m.resume (some (nextExtent e)) (.included (nextExtent e))).bind
      (advanceImpl mergeExtents (.included (nextExtent e)) fuel) := by
  have hbound : m.nextBound = (some (nextExtent e),.included (nextExtent e)) := by
    simp [nextBound,hne,h,nextKey,nextExtent]
  simp [MergerIterator.advance,hbound]

/-- With more than `bound` passes, iterating on yields what the layers say from `f` on, and from a
clean frontier no data before it. -/
def Drains (layers : List (List ExtentItem)) (f : Point) (cs : List ExtentCursor)
    (m : MergerIterator ExtentKey ExtentValue) (bound : ℕ) : Prop :=
  ∃ out,SeekOutput layers f out ∧ (Clean f cs → ∀ x ∈ dataExtents out,f ≤ lo x) ∧
    ∀ n fuel,bound < n → bound < fuel → m.drain mergeExtents fuel n = some out

lemma Drains.mono {bound bound' : ℕ} (h : Drains layers f cs m bound) (hle : bound ≤ bound') :
    Drains layers f cs m bound' := by
  obtain ⟨out,hout,hlow,hrun⟩ := h
  exact ⟨out,hout,hlow,fun n fuel hn hfuel => hrun n fuel (by omega) (by omega)⟩

lemma Stopped.drain_open (h : Stopped blockSize layers f m e cs)
    (hpend : m.pendingIterators = []) : Drains layers f cs m ((extentView blockSize).work cs) := by
  obtain ⟨out,hy,hhead,hrun⟩ := drain_yields (mergeExtents_law blockSize) m hpend (.inr ⟨e,h.halted.get_eq,h.emits⟩)
  refine ⟨out,⟨fun p hp => ?_,hy.ascending.sublist filter_sublist⟩,?_,hrun⟩
  · rw [newestMapping_eq]
    apply lookup_of_yields hy
    intro d
    have hview := h.frontier.view p hp d
    rwa [hpend,map_nil,append_nil] at hview
  · intro hclean x hx
    obtain ⟨hx,hdata⟩ := mem_filter.mp hx
    have hdata : x.value ≠ .none := by simpa using hdata
    cases out with
    | nil => simp at hx
    | cons y ys =>
      obtain rfl : y = e := by simpa [h.halted.get_eq] using hhead
      cases mem_cons.mp hx with
      | inl hx =>
        subst hx
        exact hclean.le_lo h.emits h.past hdata
      | inr hx => exact h.past.le.trans ((ascending_cons.mp hy.ascending).2.1 x hx)

lemma SeekOutput.cons {out : List ExtentItem} (h : SeekOutput layers (hi e) out)
    (hlow : ∀ x ∈ dataExtents out,hi e ≤ lo x) (hcov : Covers e f)
    (he : ∀ p,Covers e p → f ≤ p → newestMapping layers p = some (extentMapping e p)) :
    SeekOutput layers f (e::out) where
  lookup_eq p hp := by
    by_cases hpe : p < hi e
    · have hcp : Covers e p := ⟨hcov.1.trans hp,hpe⟩
      rw [he p hcp hp,lookup,find_cons_of_covers out hcp]
      rfl
    · have hcp : ¬Covers e p := fun hc => hpe hc.2
      rw [← h.lookup_eq p (not_lt.mp hpe),lookup,find_cons_of_not_covers out hcp]
      rfl
  ascending := by
    by_cases hdata : e.value = .none
    · simpa [dataExtents,hdata] using h.ascending
    · have hcons : dataExtents (e::out) = e::dataExtents out := by simp [dataExtents,hdata]
      rw [hcons]
      exact ascending_cons.mpr ⟨hcov.1.trans_lt hcov.2,hlow,h.ascending⟩

lemma Searched.output {bound : ℕ} (hfr : Frontier blockSize layers f cs m.pendingIterators)
    (hview : m.pendingIterators ≠ [] → ∃ d,(extentView blockSize).View cs f d) (h : Searched blockSize layers f cs m)
    (hdrain : ∀ e ds,Stopped blockSize layers f m e ds →
      (extentView blockSize).work ds ≤ (extentView blockSize).work cs →
      (m.pendingIterators ≠ [] → ∃ d,(extentView blockSize).View ds f d) → Drains layers f ds m bound) :
    Drains layers f cs m bound := by
  cases h with
  | inl h =>
    obtain ⟨hget,hno⟩ := h
    have hpend : m.pendingIterators = [] := by
      by_contra hne
      obtain ⟨d,hd⟩ := hview hne
      exact hno f le_rfl d hd
    refine ⟨[],⟨fun p hp => ?_,ascending_nil⟩,by simp [dataExtents],fun n fuel hn _ => ?_⟩
    · have hnone : newestCell layers p = none := by
        apply Option.eq_none_iff_forall_not_mem.mpr
        intro d hd
        have hnew := (hfr.view p hp d).mpr hd
        rw [hpend,map_nil,append_nil] at hnew
        exact hno p hp d hnew
      rw [newestMapping_eq,hnone]
      rfl
    · obtain ⟨j,rfl⟩ := Nat.exists_eq_add_of_lt hn
      simp [drain,hget]
  | inr h =>
    obtain ⟨e,ds,hstop,hclean,hviews,hwork⟩ := h
    obtain ⟨out,hout,hlow,hrun⟩ := hdrain e ds hstop hwork fun hne => by
      obtain ⟨d,hd⟩ := hview hne
      exact ⟨d,(hviews d).mp hd⟩
    exact ⟨out,hout,fun hc => hlow (hclean hc),hrun⟩

lemma Stopped.drain (h : Stopped blockSize layers f m e cs)
    (hview : m.pendingIterators ≠ [] → ∃ d,(extentView blockSize).View cs f d) : Drains layers f cs m
      ((extentView blockSize).work cs+pendingWork blockSize m.pendingIterators) := by
  induction hk : (extentView blockSize).work cs+pendingWork blockSize m.pendingIterators
    using Nat.strong_induction_on generalizing m e cs f with
  | _ k ih =>
  subst hk
  by_cases hne : m.pendingIterators = []
  · exact (h.drain_open hne).mono (Nat.le_add_right _ _)
  · have hcov : Covers e f := by
      by_contra hcov
      obtain ⟨d,hd⟩ := hview hne
      exact not_view_of_allGe h.emits.after h.past ((h.emits.other f d hcov).mp hd)
    obtain ⟨r,hres,hr⟩ := h.resume hne
    obtain ⟨m',hpend,hsearch,hrun⟩ := advanceImpl_included (keyAt_nextExtent e) r hr.frontier
    have hlt := hr.work_lt
    have hstep : ∀ fuel,(extentView blockSize).work cs+
        pendingWork blockSize m.pendingIterators < fuel → m.advance mergeExtents fuel = some m' := by
      intro fuel hfuel
      rw [advance_eq_resume h.halted.get_eq hne,hres]
      exact hrun fuel (by omega)
    have hnewest : ∀ p,Covers e p → f ≤ p → newestMapping layers p = some (extentMapping e p) := by
      intro p hp hfp
      obtain ⟨d,hd⟩ := h.emits.covered p hp
      have hview := (newest_append (entry_lt_pendingEntry h.frontier.newer p) d).mpr (.inl hd)
      rw [newestMapping_eq,(h.frontier.view p hfp d).mp hview,(h.emits.shows p d hp hd).1]
      rfl
    obtain ⟨out,hout,hlow,hdrain⟩ := hsearch.output (hpend ▸ hr.frontier) (hpend ▸ hr.viewed)
      (fun x ds hstop hwork hviewed => by
        rw [← hpend] at hlt
        exact (ih _ (by omega) hstop hviewed rfl).mono (Nat.add_le_add_right hwork _))
    rw [← hpend] at hlt
    have hlow := hlow hr.clean
    refine ⟨e::out,hout.cons hlow hcov hnewest,?_,?_⟩
    · intro hclean x hx
      obtain ⟨hx,hdata⟩ := mem_filter.mp hx
      cases mem_cons.mp hx with
      | inl hx =>
        subst hx
        exact hclean.le_lo h.emits h.past (by simpa using hdata)
      | inr hx => exact h.past.le.trans (hlow x (mem_filter.mpr ⟨hx,hdata⟩))
    · intro n fuel hn hfuel
      obtain ⟨j,rfl⟩ := Nat.exists_eq_add_of_lt hn
      have htail := hdrain ((extentView blockSize).work cs+
        pendingWork blockSize m.pendingIterators+j) fuel (by omega) (by omega)
      simp [drain,h.halted.get_eq,hstep fuel hfuel,htail]

lemma frontier_start (f : Point) (hlen : layers.length ≤ 2^16) (hlayers : ∀ l ∈ layers,IsExtentLayer blockSize l) :
    Frontier blockSize layers f [] (layers.zipIdx.map fun l => new l.2 l.1) where
  valid := ⟨by simp,nodup_nil⟩
  wellFormed it hit := by
    obtain ⟨l,hl,rfl⟩ := mem_map.mp hit
    exact hlayers l.1 (fst_mem_of_mem_zipIdx hl)
  ordered := by
    have hsorted := pairwise_lt_range (n := layers.length)
    rw [← map_index_zipIdx hlen] at hsorted
    exact pairwise_map.mpr (pairwise_map.mp hsorted)
  newer := by simp
  view p _ d := by
    have hmap : (layers.zipIdx.map fun l => new l.2 l.1).map (pendingEntry p) =
        layers.zipIdx.map fun l => (l.2,cellAt l.1 p) := by
      rw [map_map]
      apply map_congr_left
      intro l hl
      simp only [Function.comp_apply,pendingEntry,new,zipIdx_index_eq hlen hl]
    rw [map_nil,nil_append,hmap,newest_zipIdx (fun layer => cellAt layer p)]
    rfl

lemma mergeFrom_included (hkey : KeyAt f key) (hlen : layers.length ≤ 2^16)
    (hlayers : ∀ l ∈ layers,IsExtentLayer blockSize l) : ∃ out,SeekOutput layers f out ∧
      ∃ n,∀ fuel ≥ n,mergeFrom mergeExtents fuel layers (.included key) = some out := by
  have hstart := frontier_start f hlen hlayers
  obtain ⟨opened,rest,heap,hpush,hsplit,hheap,hstop,-⟩ := pushIterators_spec (some key)
    (.included key) (layers.zipIdx.map fun l => new l.2 l.1) []
  rw [hsplit] at hstart
  have hopen := (hstart.opens hkey).perm hheap.symm
  have hready : ∀ x ∈ heap,x.remaining ≠ [] := fun x hx =>
    (hopen.valid.1 x.cursor (mem_map_of_mem hx)).1
  have hview : rest ≠ [] → ∃ d,(extentView blockSize).View (cursors heap) f d := by
    intro hne
    obtain ⟨c,hc,x,hx,hlo⟩ := exists_head_of_needsMoreIterators hready hne hstop
    apply viewed_of_covers hopen.valid hc hx
    have hc' := hheap.subset hc
    rw [cursors_nil,append_nil] at hc'
    obtain ⟨jt,hjt,-,rfl⟩ := mem_openCursors.mp hc'
    exact ⟨hlo.trans hkey.1,seekLayer_past hkey (hstart.wellFormed jt (by simp [hjt])).1 x hx⟩
  obtain ⟨m,hpend,hsearch,hrun⟩ := advanceImpl_included hkey ⟨rest,heap,.none⟩ hopen
  obtain ⟨out,hout,-,hdrain⟩ := hsearch.output (hpend ▸ hopen) (hpend ▸ hview)
    fun e ds hstopped hwork hviewed => (hstopped.drain hviewed).mono (Nat.add_le_add_right hwork _)
  refine ⟨out,hout,(extentView blockSize).work (cursors heap)+
    pendingWork blockSize m.pendingIterators+1,fun fuel hfuel => ?_⟩
  have hseek : seek mergeExtents fuel layers (.included key) = some m := by
    simp only [seek,hpush]
    exact hrun fuel (by simp only; omega)
  simp only [mergeFrom,hseek,Option.bind_some]
  exact hdrain fuel fuel (by simp only; omega) (by simp only; omega)

/-- Seeking to an offset of an attribute and iterating agrees, from that offset
on, with the merge of all layers. -/
theorem mergeExtents_seek {objectId attributeId offset : ℕ} {key : ExtentKey}
    (hkey : key = ExtentKey.searchKeyFromOffset objectId attributeId offset ∨
      key = ⟨objectId,attributeId,⟨offset,offset+1⟩⟩)
    (hlen : layers.length ≤ 2^16) (hlayers : ∀ l ∈ layers,IsExtentLayer blockSize l) :
    ∃ out full,(∃ n,∀ fuel ≥ n,mergeFrom mergeExtents fuel layers (.included key) = some out ∧
        mergeFrom mergeExtents fuel layers .unbounded = some full) ∧
      (∀ p ≥ offset,lookup out (point objectId attributeId p) =
        lookup full (point objectId attributeId p)) ∧
      (∀ p ≥ offset,lookup full (point objectId attributeId p) =
        newestMapping layers (point objectId attributeId p)) ∧ Ascending (dataExtents out) := by
  have hat : KeyAt (point objectId attributeId offset) key := by
    cases hkey with
    | inl h => exact h ▸ keyAt_mk (Nat.zero_le offset)
    | inr h => exact h ▸ keyAt_mk le_rfl
  obtain ⟨out,hout,n,hrun⟩ := mergeFrom_included hat hlen hlayers
  obtain ⟨full,hy,hfull⟩ :=
    mergeFrom_unbounded (mergeExtents_law blockSize) (valid_layerCursors hlen hlayers)
  have hnewest : ∀ p,lookup full p = newestMapping layers p := by
    intro p
    rw [newestMapping_eq]
    exact lookup_of_yields hy p fun d => view_layerCursors hlen p d
  refine ⟨out,full,⟨n+((extentView blockSize).work (layerCursors layers)+1),fun fuel hfuel =>
    ⟨hrun fuel (by omega),hfull fuel (by omega)⟩⟩,fun p hp => ?_,fun p _ => hnewest _,
    hout.ascending⟩
  rw [hnewest]
  apply hout.lookup_eq
  rw [point_le_point]
  omega

theorem mergeExtents_seek_twoLayers :
    ∃ out full,(∃ n,∀ fuel ≥ n,mergeFrom mergeExtents fuel twoLayers
          (.included (ExtentKey.searchKeyFromOffset 1 0 5000)) = some out ∧
        mergeFrom mergeExtents fuel twoLayers .unbounded = some full) ∧
      (∀ p ≥ 5000,lookup out (point 1 0 p) = lookup full (point 1 0 p)) ∧
      (∀ p ≥ 5000,lookup full (point 1 0 p) = newestMapping twoLayers (point 1 0 p)) ∧
      Ascending (dataExtents out) :=
  @mergeExtents_seek 4096 twoLayers 1 0 5000 _ (.inl rfl) (by decide) (by decide)

def pairedLayers : List (List ExtentItem) := [[⟨⟨1,0,⟨4096,8192⟩⟩,.some 40960 .none 0,0⟩],
   [⟨⟨1,0,⟨0,16384⟩⟩,.some 0 (.fletcher [7,8]) 0,0⟩]]

/-- With checksums for more than one block a seek past the newer extent finds the
right checksum, and the full merge a wrong one. -/
theorem mergeExtents_seek_coarse_checksum :
    (∀ l ∈ pairedLayers,Ascending l ∧ ∀ i ∈ l,4096 ∣ i.key.range.start ∧ 4096 ∣ i.key.range.stop ∧
        i.value.EvenlyDivided (i.key.range.stop-i.key.range.start)) ∧ ∃ out full,
      (∀ fuel ≥ 20,mergeFrom mergeExtents fuel pairedLayers
          (.included (ExtentKey.searchKeyFromOffset 1 0 8192)) = some out ∧
        mergeFrom mergeExtents fuel pairedLayers .unbounded = some full) ∧
      lookup out (point 1 0 8192) = some (.data 8192 0 (some (8,8192,0))) ∧
      lookup full (point 1 0 8192) = some (.data 8192 0 (some (7,4096,0))) := by
  refine ⟨by decide,[⟨⟨1,0,⟨0,16384⟩⟩,.some 0 (.fletcher [7,8]) 0,0⟩],
    [⟨⟨1,0,⟨0,4096⟩⟩,.some 0 (.fletcher []) 0,0⟩,⟨⟨1,0,⟨4096,8192⟩⟩,.some 40960 .none 0,0⟩,
      ⟨⟨1,0,⟨8192,16384⟩⟩,.some 8192 (.fletcher [7,8]) 0,0⟩],?_,by decide,by decide⟩
  intro fuel hfuel
  obtain ⟨k,rfl⟩ := Nat.exists_eq_add_of_le' hfuel
  exact ⟨rfl,rfl⟩

end Fuchsia.Fxfs
