import Fuchsia.Fxfs.MergerRun
import Mathlib.Data.List.TakeWhile

/-! The mutable layer of a tree (`lsm_tree/skip_list_layer.rs`), a list of items in
key order, and `merge_into` (`lsm_tree/merge.rs`). Each operation publishes its
changes at once, in `commit_and_wait`. -/
namespace Fuchsia.Fxfs

open Ranges Ranged Key List RangedKey MergeView

variable {K V T D : Type}

/-- What an operation of a merge result leaves of a layer that stands at `a`. -/
def ItemOp.onLayer (a : Item K V) (rest : List (Item K V)) : ItemOp K V → List (Item K V)
  | .keep => a::rest
  | .discard => rest
  | .replace x => x::rest

def ItemOp.onItem (b : Item K V) : ItemOp K V → Option (Item K V)
  | .keep => some b
  | .discard => none
  | .replace x => some x

namespace SkipListLayer

variable [Key K]

/-- The items an iterator at `key` has passed. -/
def passed (layer : List (Item K V)) (key : K) : List (Item K V) :=
  layer.takeWhile fun i => cmpUpperBound i.key key == .lt

lemma passed_append (layer : List (Item K V)) (key : K) : passed layer key++seekLayer layer (.included key) = layer :=
  takeWhile_append_dropWhile

/-- `insert`, which panics where this is `none`. -/
def insert [DecidableEq K] (layer : List (Item K V)) (item : Item K V) :
    Option (List (Item K V)) :=
  match seekLayer layer (.included item.key) with
  | [] => some (passed layer item.key++[item])
  | found::rest =>
    if found.key = item.key then none else some (passed layer item.key++item::found::rest)

def erase [DecidableEq K] (layer : List (Item K V)) (key : K) : List (Item K V) :=
  match seekLayer layer (.included key) with
  | [] => layer
  | found::rest => if found.key = key then passed layer key++rest else layer

/-- The loop of `merge_into`: `out` is behind the iterator, which stands at the first of
`rest`; the layer has index 1 and the item 0. -/
def mergeLoop (mergeFn : MergeFn K V) : ℕ → List (Item K V) → List (Item K V) →
    Option (Item K V) → Option (List (Item K V))
  | 0,_,_,_ => none
  | fuel+1,out,a::rest,some b =>
    if cmpLowerBound a.key b.key == .lt then
      match mergeFn ⟨1,a⟩ ⟨0,b⟩ with
      | .emitLeft => mergeLoop mergeFn fuel (out++[a]) rest (some b)
      | .other emit left right =>
        mergeLoop mergeFn fuel (out++emit.toList) (left.onLayer a rest) (right.onItem b)
    else
      match mergeFn ⟨0,b⟩ ⟨1,a⟩ with
      | .emitLeft => some (out++b::a::rest)
      | .other emit left right =>
        mergeLoop mergeFn fuel (out++emit.toList) (right.onLayer a rest) (left.onItem b)
  | _+1,out,rest,item => some (out++item.toList++rest)

def mergeInto (mergeFn : MergeFn K V) (fuel : ℕ) (layer : List (Item K V)) (item : Item K V)
    (lowerBound : K) : Option (List (Item K V)) :=
  mergeLoop mergeFn fuel (passed layer lowerBound) (seekLayer layer (.included lowerBound))
    (some item)

end SkipListLayer

lemma leftover_onLayer (i : ℕ) (a : Item K V) (t : List (Item K V)) (op : ItemOp K V) :
    leftover i (op.onLayer a t) = applyOp i a t op := by cases op <;> simp [ItemOp.onLayer,applyOp,leftover]

lemma leftover_onItem (i : ℕ) (b : Item K V) (op : ItemOp K V) :
    leftover i (op.onItem b).toList = applyOp i b [] op := by cases op <;> simp [ItemOp.onItem,applyOp,leftover]

section Order

variable [LinearOrder T] [Key K] [Ranged K T] [RangedKey K T] {layer : List (Item K V)} {key : K}

variable {i : Item K V}

lemma SkipListLayer.hi_lt_of_mem_passed (h : i ∈ SkipListLayer.passed layer key) : hi i < hi key := by
  have hlt := mem_takeWhile_imp h
  rw [cmpUpperBound_eq (T := T),beq_iff_eq] at hlt
  exact compare_lt_iff_lt.mp hlt

lemma hi_le_of_seekLayer {rest : List (Item K V)} (h : seekLayer layer (.included key) = i::rest) : hi key ≤ hi i := by
  have hhead := head?_dropWhile_not (fun i : Item K V => cmpUpperBound i.key key == .lt) layer
  rw [seekLayer] at h
  rw [h,head?_cons] at hhead
  have hge : ¬compare (hi i.key) (hi key) = .lt := by simpa [cmpUpperBound_eq (T := T)] using hhead
  exact not_lt.mp fun hlt => hge (compare_lt_iff_lt.mpr hlt)

lemma hi_le_of_mem_seekLayer (hasc : Ascending layer) (h : i ∈ seekLayer layer (.included key)) : hi key ≤ hi i := by
  have hrest : Ascending (seekLayer layer (.included key)) := hasc.sublist (dropWhile_sublist _)
  cases hs : seekLayer layer (.included key) with
  | nil => simp [hs] at h
  | cons a t =>
    have hge := hi_le_of_seekLayer hs
    rw [hs] at h hrest
    rcases mem_cons.mp h with rfl | hi
    · exact hge
    · exact hge.trans (((ascending_cons.mp hrest).2.1 i hi).trans (hrest.1 i h).le)

lemma SkipListLayer.split_at_key {l r : List (Item K V)} (h : Ascending (l++i::r)) :
    passed (l++i::r) i.key = l ∧ seekLayer (l++i::r) (.included i.key) = i::r := by
  have hl : ∀ x ∈ l,(cmpUpperBound x.key i.key == .lt) = true := by
    intro x hx
    have hlt : hi x < hi i := (h.append_le hx (by simp)).trans_lt (h.1 i (by simp))
    rw [cmpUpperBound_eq (T := T),beq_iff_eq]
    exact compare_lt_iff_lt.mpr hlt
  have hi : (cmpUpperBound i.key i.key == .lt) = false := by simp [cmpUpperBound_eq (T := T)]
  constructor
  · rw [passed,takeWhile_append_of_pos hl]
    simp [hi]
  · rw [seekLayer,dropWhile_append_of_pos hl]
    simp [hi]

lemma SkipListLayer.insert_eq_some [DecidableEq K] {item : Item K V} (h : Ascending layer)
    (hne : lo item < hi item) (hdis : ∀ i ∈ layer,hi i ≤ lo item ∨ hi item ≤ lo i) :
    ∃ l r,layer = l++r ∧ insert layer item = some (l++item::r) ∧ Ascending (l++item::r) := by
  have happ := passed_append layer item.key
  have hleft : ∀ i ∈ passed layer item.key,hi i ≤ lo item := by
    intro i hi
    have hmem : i ∈ layer := happ ▸ mem_append_left _ hi
    cases hdis i hmem with
    | inl h => exact h
    | inr hle =>
      have hlt : Ranged.hi i < lo i := (hi_lt_of_mem_passed hi).trans_le hle
      exact absurd (h.1 i hmem) hlt.not_gt
  refine ⟨passed layer item.key,seekLayer layer (.included item.key),happ.symm,?_⟩
  rw [← happ] at h
  cases hr : seekLayer layer (.included item.key) with
  | nil =>
    refine ⟨by simp [insert,hr],h.append_left.append ?_ fun i hi j hj => ?_⟩
    · simpa [ascending_cons] using hne
    · obtain rfl : j = item := by simpa using hj
      exact hleft i hi
  | cons found rest =>
    rw [hr] at h
    have hge : hi item ≤ hi found := hi_le_of_seekLayer hr
    have hle : hi item ≤ lo found := by
      have hmem : found ∈ layer := by rw [← happ,hr]; simp
      cases hdis found hmem with
      | inl hle => exact absurd (hle.trans_lt hne) hge.not_gt
      | inr hle => exact hle
    have hkey : found.key ≠ item.key := by
      intro hk
      have hlo : lo found = lo item := congrArg (fun k : K => lo k) hk
      exact absurd (hlo ▸ hne) hle.not_gt
    refine ⟨by simp [insert,hr,hkey],h.append_left.append ?_ fun i hi j hj => ?_⟩
    · refine ascending_cons.mpr ⟨hne,fun j hj => ?_,h.append_right⟩
      exact hle.trans (h.append_right.lo_head_le hj)
    · cases mem_cons.mp hj with
      | inl hj => exact hj ▸ hleft i hi
      | inr hj => exact h.append_le hi hj

end Order

section MergeInto

variable [LinearOrder T] [Ranged K T] {w : MergeView K V T D} {mergeFn : MergeFn K V}

lemma MergeLaw.yields_leftover (law : MergeLaw w mergeFn) {i : ℕ} {t : List (Item K V)}
    (hv : w.Valid (leftover i t)) : w.Yields (leftover i t) t := by
  induction t with
  | nil => exact w.yields_nil
  | cons a t ih =>
    have hrest := hv.leftover law.indexed_tail
    rw [append_nil] at hrest
    have hemit := law.emits_head hv (allGe_nil _)
    rw [append_nil] at hemit
    exact hemit.yields (ih hrest)

lemma MergeLaw.outcome_perm (law : MergeLaw w mergeFn) {cs ds es : List (Cursor K V)} {emit : Option (Item K V)}
    (h : cs.Perm ds) (hout : w.Outcome ds emit es) : w.Outcome cs emit es := by
  cases emit with
  | none => exact law.silent_perm h hout
  | some e => exact ⟨law.emits_perm h hout.1,hout.2⟩

variable [Key K] [RangedKey K T]

lemma SkipListLayer.mergeLoop_yields (law : MergeLaw w mergeFn) (rest : List (Item K V))
    (item : Option (Item K V)) (hv : w.Valid (leftover 1 rest++leftover 0 item.toList)) :
    ∃ merged,w.Yields (leftover 1 rest++leftover 0 item.toList) merged ∧
      ∀ fuel out,w.work (leftover 1 rest++leftover 0 item.toList) < fuel →
        mergeLoop mergeFn fuel out rest item = some (out++merged) := by
  induction hn : w.work (leftover 1 rest++leftover 0 item.toList) using Nat.strong_induction_on
    generalizing rest item with
  | _ n ih =>
  subst hn
  have hstep : ∀ emit rest' item' ds,w.Outcome (leftover 1 rest++leftover 0 item.toList) emit ds →
      ds.Perm (leftover 1 rest'++leftover 0 item'.toList) →
      ∃ merged,w.Yields (leftover 1 rest++leftover 0 item.toList) (emit.toList++merged) ∧
        ∀ fuel out,w.work (leftover 1 rest++leftover 0 item.toList) ≤ fuel →
          mergeLoop mergeFn fuel (out++emit.toList) rest' item' = some (out++(emit.toList++merged)) := by
    intro emit rest' item' ds hout hperm
    have hwork := w.work_perm hperm
    cases emit with
    | none =>
      have hlt := hwork ▸ hout.work_lt
      obtain ⟨merged,hy,hrun⟩ := ih _ hlt rest' item' (law.valid_perm hperm hout.valid) rfl
      refine ⟨merged,hout.yields (law.yields_perm hperm hy),fun fuel out hfuel => ?_⟩
      simpa using hrun fuel out (hlt.trans_le hfuel)
    | some e =>
      have hlt := hwork ▸ hout.1.work_lt
      obtain ⟨merged,hy,hrun⟩ := ih _ hlt rest' item' (law.valid_perm hperm hout.1.valid) rfl
      refine ⟨merged,hout.1.yields (law.yields_perm hperm hy),fun fuel out hfuel => ?_⟩
      simpa using hrun fuel (out++[e]) (hlt.trans_le hfuel)
  cases rest with
  | nil =>
    refine ⟨item.toList,law.yields_leftover hv,fun fuel out hfuel => ?_⟩
    obtain ⟨k,rfl⟩ := Nat.exists_eq_add_of_lt hfuel
    simp [mergeLoop]
  | cons a rest =>
    cases item with
    | none =>
      refine ⟨a::rest,?_,fun fuel out hfuel => ?_⟩
      · have hnil : leftover 0 (none : Option (Item K V)).toList = [] := rfl
        rw [hnil,append_nil] at hv ⊢
        exact law.yields_leftover hv
      · obtain ⟨k,rfl⟩ := Nat.exists_eq_add_of_lt hfuel
        simp [mergeLoop]
    | some b =>
      have hcs : leftover 1 (a::rest)++leftover 0 (some b).toList = [(1,a::rest),(0,[b])] := rfl
      rw [hcs] at hv hstep ⊢
      have hsw : ([(1,a::rest),(0,[b])] : List (Cursor K V)).Perm [(0,[b]),(1,a::rest)] :=
        List.Perm.swap _ _ _
      have hcmp : (cmpLowerBound a.key b.key == .lt) = true ↔ lo a < lo b := by
        rw [cmpLowerBound_eq (T := T),beq_iff_eq]
        exact compare_lt_iff_lt
      by_cases hlt : lo a < lo b
      · have hc := hcmp.mpr hlt
        cases hm : mergeFn ⟨1,a⟩ ⟨0,b⟩ with
        | emitLeft =>
          have hle := law.emitLeft hv (.inl hlt) hm
          have he := law.emits_head hv (allGe_cons.mpr ⟨by simpa using hle,allGe_nil _⟩)
          obtain ⟨merged,hy,hrun⟩ := ih _ he.work_lt rest (some b) he.valid rfl
          refine ⟨a::merged,he.yields hy,fun fuel out hfuel => ?_⟩
          obtain ⟨k,rfl⟩ := Nat.exists_eq_add_of_lt hfuel
          simpa [mergeLoop,hc,hm] using hrun _ (out++[a]) (he.work_lt.trans_le (Nat.le_add_right _ k))
        | other emit left right =>
          have hout := law.merges hv (.inl hlt) (allGe_nil _) hm
          rw [← leftover_onItem,← leftover_onLayer,append_nil] at hout
          obtain ⟨merged,hy,hrun⟩ := hstep _ _ _ _ hout perm_append_comm
          refine ⟨emit.toList++merged,hy,fun fuel out hfuel => ?_⟩
          obtain ⟨k,rfl⟩ := Nat.exists_eq_add_of_lt hfuel
          simpa [mergeLoop,hc,hm] using hrun _ out (Nat.le_add_right _ k)
      · have hc : ¬(cmpLowerBound a.key b.key == .lt) = true := fun h => hlt (hcmp.mp h)
        have hv' := law.valid_perm hsw hv
        have hba : NotAfter 0 b 1 a := by
          simp only [NotAfter]
          grind
        cases hm : mergeFn ⟨0,b⟩ ⟨1,a⟩ with
        | emitLeft =>
          have hle := law.emitLeft hv' hba hm
          have hasc := (hv.1 (1,a::rest) (by simp)).2.1
          have he := law.emits_head hv' (allGe_cons.mpr ⟨fun x hx => hle.trans (hasc.lo_head_le hx),allGe_nil _⟩)
          have hvr : w.Valid (leftover 1 (a::rest)) := he.valid
          have hy := he.yields (law.yields_leftover hvr)
          refine ⟨b::a::rest,law.yields_perm hsw hy,fun fuel out hfuel => ?_⟩
          obtain ⟨k,rfl⟩ := Nat.exists_eq_add_of_lt hfuel
          simp [mergeLoop,hc,hm]
        | other emit left right =>
          have hout := law.merges hv' hba (allGe_nil _) hm
          rw [← leftover_onItem,← leftover_onLayer,append_nil] at hout
          have hout' : w.Outcome [(1,a::rest),(0,[b])] emit _ := law.outcome_perm hsw hout
          obtain ⟨merged,hy,hrun⟩ := hstep _ _ _ _ hout' (List.Perm.refl _)
          refine ⟨emit.toList++merged,hy,fun fuel out hfuel => ?_⟩
          obtain ⟨k,rfl⟩ := Nat.exists_eq_add_of_lt hfuel
          simpa [mergeLoop,hc,hm] using hrun _ out (Nat.le_add_right _ k)

lemma SkipListLayer.mergeInto_yields (law : MergeLaw w mergeFn) (hindexed : ∀ is : List ℕ,is.Nodup → w.Indexed is)
    {layer : List (Item K V)} {item : Item K V} (bound : K) (hasc : Ascending layer) (hgood : ∀ i ∈ layer,w.Good i)
    (hne : lo item < hi item) (hitem : w.Good item) (hbound : hi bound ≤ lo item) :
    ∃ before rest merged,layer = before++rest ∧ (∀ i ∈ before,hi i ≤ lo item) ∧
      w.Yields (leftover 1 rest++leftover 0 [item]) merged ∧ Ascending (before++merged) ∧
      (∀ i ∈ before++merged,w.Good i) ∧ ∀ fuel,w.cursorWork (item::layer) < fuel →
        mergeInto mergeFn fuel layer item bound = some (before++merged) := by
  have happ := passed_append layer bound
  obtain ⟨before,hbefore⟩ : ∃ l,l = passed layer bound := ⟨_,rfl⟩
  obtain ⟨rest,hrest⟩ : ∃ l,l = seekLayer layer (.included bound) := ⟨_,rfl⟩
  rw [← hbefore,← hrest] at happ
  rw [← happ] at hasc hgood
  have hv : w.Valid (leftover 1 rest++leftover 0 [item]) := by
    have hsingle : w.ValidCursor (0,[item]) :=
      ⟨by simp,by simpa [ascending_cons] using hne,by simpa using hitem⟩
    cases hr : rest with
    | nil => exact ⟨by simpa [leftover] using hsingle,hindexed _ (by simp [leftover])⟩
    | cons a t =>
      rw [hr] at hasc hgood
      have hlayer : w.ValidCursor (1,a::t) :=
        ⟨by simp,hasc.append_right,(forall_mem_append.mp hgood).2⟩
      exact ⟨by simpa [leftover] using ⟨hlayer,hsingle⟩,hindexed _ (by simp [leftover])⟩
  obtain ⟨merged,hy,hrun⟩ := mergeLoop_yields law rest (some item) hv
  have hleft : ∀ x ∈ before,hi x ≤ lo item := by
    intro x hx
    have hlt : hi x < hi bound := hi_lt_of_mem_passed (hbefore ▸ hx)
    exact hlt.le.trans hbound
  have hafter : ∀ x ∈ before,∀ y ∈ merged,hi x ≤ lo y := by
    intro x hx
    refine hy.ge (hi x) (allGe_append.mpr ⟨allGe_leftover.mpr fun z hz => hasc.append_le hx hz,?_⟩)
    exact allGe_leftover.mpr (by simpa using hleft x hx)
  refine ⟨before,rest,merged,happ.symm,hleft,hy,hasc.append_left.append hy.ascending hafter,
    forall_mem_append.mpr ⟨fun i hi => hgood i (by simp [hi]),hy.good⟩,fun fuel hfuel => ?_⟩
  · rw [mergeInto,← hbefore,← hrest]
    refine hrun fuel before ?_
    simp only [← happ,work_append,work_leftover,cursorWork_append,
      cursorWork_cons,Option.toList_some,cursorWork_nil] at hfuel ⊢
    omega

end MergeInto

end Fuchsia.Fxfs
