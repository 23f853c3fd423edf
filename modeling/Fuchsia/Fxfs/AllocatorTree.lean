import Fuchsia.Fxfs.MergerRun
import Fuchsia.Fxfs.Range

/-! The merge function of the allocator's tree (`object_store/allocator/merge.rs`),
whose records are changes of the reference counts of device ranges. -/
namespace Fuchsia.Fxfs

open Ranges Ranged Key MergeView MergeResult List

structure AllocatorKey where
  deviceRange : Range
  deriving DecidableEq,Repr

/-- The change of a reference count; an `i64` in the source. -/
structure AllocatorValue where
  delta : ℤ
  deriving DecidableEq,Repr

abbrev AllocatorItem := Item AllocatorKey AllocatorValue

instance : Key AllocatorKey where
  cmpUpperBound a b := compare a.deviceRange.stop b.deviceRange.stop
  cmpLowerBound a b := compare a.deviceRange.start b.deviceRange.start
  nextKey _ := none

instance : Ranged AllocatorKey ℕ where
  lo k := k.deviceRange.start
  hi k := k.deviceRange.stop

instance : RangedKey AllocatorKey ℕ where
  cmpLowerBound_eq _ _ := rfl
  cmpUpperBound_eq _ _ := rfl

lemma lo_allocatorItem (a : AllocatorItem) : lo a = a.key.deviceRange.start := rfl
lemma hi_allocatorItem (a : AllocatorItem) : hi a = a.key.deviceRange.stop := rfl

namespace Allocator

/-- The source's cases 1 to 6, in its order. -/
def merge (left right : LayerItem AllocatorKey AllocatorValue) :
    MergeResult AllocatorKey AllocatorValue :=
  let l := left.item.key.deviceRange
  let r := right.item.key.deviceRange
  let leftDelta := left.item.value.delta
  let rightDelta := right.item.value.delta
  let sequence := min left.item.sequence right.item.sequence
  if l.stop < r.start then .emitLeft
  else if l.stop = r.start ∧ leftDelta = rightDelta then
    .other none .discard (.replace ⟨⟨⟨l.start,r.stop⟩⟩,⟨leftDelta⟩,sequence⟩)
  else if l.start = r.start then
    if l.stop = r.stop then
      .other none
        (if leftDelta+rightDelta = 0 then .discard
          else .replace ⟨left.item.key,⟨leftDelta+rightDelta⟩,sequence⟩)
        .discard
    else if l.stop < r.stop then
      .other none
        (if leftDelta+rightDelta = 0 then .discard
          else .replace ⟨left.item.key,⟨leftDelta+rightDelta⟩,sequence⟩)
        (.replace ⟨⟨⟨l.stop,r.stop⟩⟩,⟨rightDelta⟩,sequence⟩)
    else
      .other none
        (.replace ⟨⟨⟨r.stop,l.stop⟩⟩,⟨leftDelta⟩,sequence⟩)
        (if leftDelta+rightDelta = 0 then .discard
          else .replace ⟨right.item.key,⟨leftDelta+rightDelta⟩,sequence⟩)
  else
    .other (some ⟨⟨⟨l.start,r.start⟩⟩,⟨leftDelta⟩,sequence⟩)
      (if r.start = l.stop then .discard
        else .replace ⟨⟨⟨r.start,l.stop⟩⟩,left.item.value,sequence⟩)
      .keep

end Allocator

/-- What a record adds to the count of a device offset. -/
def own (a : AllocatorItem) (p : ℕ) : ℤ := if Covers a p then a.value.delta else 0

/-- What a layer adds to the count of a device offset. -/
def deltaAt (xs : List AllocatorItem) (p : ℕ) : ℤ := ((find xs p).map fun i => i.value.delta).getD 0

@[simp] lemma deltaAt_nil (p : ℕ) : deltaAt [] p = 0 := rfl

variable {a : AllocatorItem}

lemma own_of_covers {p : ℕ} (h : Covers a p) : own a p = a.value.delta := by simp [own,h]

lemma own_of_not_covers {p : ℕ} (h : ¬Covers a p) : own a p = 0 := by simp [own,h]

variable {t : List AllocatorItem}

lemma deltaAt_of_lt {b p : ℕ} (h : ∀ x ∈ t,b ≤ lo x) (hp : p < b) : deltaAt t p = 0 := by
  simp [deltaAt,find_eq_none_of_lt fun x hx => hp.trans_le (h x hx)]

lemma deltaAt_cons (h : ∀ x ∈ t,hi a ≤ lo x) (p : ℕ) : deltaAt (a::t) p = own a p+deltaAt t p := by
  by_cases hp : Covers a p
  · rw [own_of_covers hp,deltaAt_of_lt h hp.2,deltaAt,find_cons_of_covers t hp]
    simp
  · rw [own_of_not_covers hp,deltaAt,find_cons_of_not_covers t hp,zero_add]
    rfl

def totalDelta (cs : List (Cursor AllocatorKey AllocatorValue)) (p : ℕ) : ℤ :=
  (cs.map fun c => deltaAt c.2 p).sum

@[simp] lemma totalDelta_nil (p : ℕ) : totalDelta [] p = 0 := rfl

@[simp] lemma totalDelta_cons (c : Cursor AllocatorKey AllocatorValue) (cs : List (Cursor AllocatorKey AllocatorValue))
    (p : ℕ) : totalDelta (c::cs) p = deltaAt c.2 p+totalDelta cs p := by simp [totalDelta]

@[simp] lemma totalDelta_append (cs ds : List (Cursor AllocatorKey AllocatorValue)) (p : ℕ) :
    totalDelta (cs++ds) p = totalDelta cs p+totalDelta ds p := by simp [totalDelta]

@[simp] lemma totalDelta_leftover (i : ℕ) (t : List AllocatorItem) (p : ℕ) :
    totalDelta (leftover i t) p = deltaAt t p := by cases t <;> simp [leftover]

variable {cs : List (Cursor AllocatorKey AllocatorValue)}

lemma totalDelta_of_allGe {b p : ℕ} (h : AllGe b cs) (hp : p < b) : totalDelta cs p = 0 := by
  induction cs with
  | nil => rfl
  | cons c cs ih =>
    obtain ⟨hc,hcs⟩ := allGe_cons.mp h
    rw [totalDelta_cons,deltaAt_of_lt hc hp,ih hcs]
    rfl

def allocatorView : MergeView AllocatorKey AllocatorValue ℕ ℤ where
  Good i := i.value.delta ≠ 0
  Indexed _ := True
  weight i := i.key.deviceRange.stop-i.key.deviceRange.start
  View cs p d := totalDelta cs p = d
  Shows e _ d := e.value.delta = d

/-- A record an operation leaves: not empty, no further than the one it stands for, and
not below the lowest one. -/
def OpFits (low : ℕ) (a : AllocatorItem) : ItemOp AllocatorKey AllocatorValue → Prop
  | .keep => low ≤ lo a
  | .discard => True
  | .replace x => low ≤ lo x ∧ lo x < hi x ∧ hi x ≤ hi a ∧ x.value.delta ≠ 0

lemma opFits_discard {low : ℕ} : OpFits low a .discard := trivial

def opOwn (a : AllocatorItem) (p : ℕ) : ItemOp AllocatorKey AllocatorValue → ℤ
  | .keep => own a p
  | .discard => 0
  | .replace x => own x p

def opWeight (a : AllocatorItem) : ItemOp AllocatorKey AllocatorValue → ℕ
  | .keep => allocatorView.weight a+1
  | .discard => 0
  | .replace x => allocatorView.weight x+1

section Ops

variable {i low : ℕ} {a : AllocatorItem} {t : List AllocatorItem}
  {op : ItemOp AllocatorKey AllocatorValue}

lemma validCursor_applyOp (h : allocatorView.ValidCursor (i,a::t)) (hop : OpFits low a op) :
    ∀ c ∈ applyOp i a t op,allocatorView.ValidCursor c := by
  obtain ⟨-,-,hle,hasc,hgood⟩ := validCursor_cons.mp h
  cases op with
  | keep => simpa [applyOp] using h
  | discard =>
    cases t with
    | nil => simp [applyOp,leftover]
    | cons b t => simpa [applyOp,leftover] using ⟨by simp,hasc,hgood⟩
  | replace x =>
    obtain ⟨-,hne,hhi,hx⟩ := hop
    simp only [applyOp,mem_singleton,forall_eq]
    exact validCursor_cons.mpr ⟨hne,hx,fun y hy => hhi.trans (hle y hy),hasc,hgood⟩

lemma totalDelta_applyOp (h : allocatorView.ValidCursor (i,a::t)) (hop : OpFits low a op)
    (p : ℕ) : totalDelta (applyOp i a t op) p = opOwn a p op+deltaAt t p := by
  obtain ⟨-,-,hle,-,-⟩ := validCursor_cons.mp h
  cases op with
  | keep => simp [applyOp,opOwn,deltaAt_cons hle]
  | discard => simp [applyOp,opOwn]
  | replace x =>
    obtain ⟨-,-,hhi,-⟩ := hop
    simp [applyOp,opOwn,deltaAt_cons fun y hy => hhi.trans (hle y hy)]

lemma work_applyOp : allocatorView.work (applyOp i a t op) = opWeight a op+allocatorView.cursorWork t := by
  cases op <;> simp [applyOp,opWeight]

lemma allGe_applyOp (h : allocatorView.ValidCursor (i,a::t)) (hlow : low ≤ hi a)
    (hop : OpFits low a op) : AllGe low (applyOp i a t op) := by
  obtain ⟨-,-,hle,-,-⟩ := validCursor_cons.mp h
  have ht : ∀ x ∈ t,low ≤ lo x := fun x hx => hlow.trans (hle x hx)
  cases op with
  | keep => simpa [applyOp,AllGe] using ⟨hop,ht⟩
  | discard => exact allGe_leftover.mpr ht
  | replace x => simpa [applyOp,AllGe] using ⟨hop.1,ht⟩

lemma sources_applyOp : (applyOp i a t op).map Prod.fst ⊆ [i] := by
  cases op with
  | keep | replace x => simp [applyOp]
  | discard => cases t <;> simp [applyOp,leftover]

end Ops

section Merges

variable {i j low low' : ℕ} {a b : AllocatorItem} {t u : List AllocatorItem}
  {cs : List (Cursor AllocatorKey AllocatorValue)}
  {left right : ItemOp AllocatorKey AllocatorValue}

lemma sources_ops : (applyOp j b u right++(applyOp i a t left++cs)).map Prod.fst ⊆
    ((i,a::t)::(j,b::u)::cs).map Prod.fst := by
  have hj := @sources_applyOp j b u right
  have hi := @sources_applyOp i a t left
  intro k hk
  simp only [map_append,mem_append,map_cons,mem_cons] at hk ⊢
  rcases hk with hk | hk | hk
  · have := hj hk
    simp_all
  · have := hi hk
    simp_all
  · simp_all

lemma work_ops (hweight : opWeight a left+opWeight b right < allocatorView.weight a+1+(allocatorView.weight b+1)) :
    allocatorView.work (applyOp j b u right++(applyOp i a t left++cs)) <
      allocatorView.work ((i,a::t)::(j,b::u)::cs) := by
  simp only [work_append,work_applyOp,work_cons,cursorWork_cons]
  omega

variable (hv : allocatorView.Valid ((i,a::t)::(j,b::u)::cs))
include hv

lemma totalDelta_ops (hl : OpFits low a left) (hr : OpFits low' b right) (p : ℕ) :
    totalDelta (applyOp j b u right++(applyOp i a t left++cs)) p+(own a p+own b p) =
      totalDelta ((i,a::t)::(j,b::u)::cs) p+(opOwn a p left+opOwn b p right) := by
  obtain ⟨hva,hvb,-,-⟩ := valid_two.mp hv
  have hta := (validCursor_cons.mp hva).2.2.1
  have htb := (validCursor_cons.mp hvb).2.2.1
  rw [totalDelta_append,totalDelta_append,totalDelta_applyOp hva hl,totalDelta_applyOp hvb hr,
    totalDelta_cons,totalDelta_cons,deltaAt_cons hta,deltaAt_cons htb]
  ring

lemma valid_ops (hl : OpFits low a left) (hr : OpFits low' b right) :
    allocatorView.Valid (applyOp j b u right++(applyOp i a t left++cs)) := by
  obtain ⟨hva,hvb,hcs,-⟩ := valid_two.mp hv
  refine ⟨fun c hc => ?_,trivial⟩
  simp only [mem_append] at hc
  rcases hc with hc | hc | hc
  · exact validCursor_applyOp hvb hr c hc
  · exact validCursor_applyOp hva hl c hc
  · exact hcs c hc

lemma silent_ops (hlo : lo a ≤ lo b) (hl : OpFits (lo a) a left) (hr : OpFits (lo a) b right)
    (hweight : opWeight a left+opWeight b right < allocatorView.weight a+1+(allocatorView.weight b+1))
    (hown : ∀ p,opOwn a p left+opOwn b p right = own a p+own b p) : allocatorView.Silent ((i,a::t)::(j,b::u)::cs)
      (applyOp j b u right++(applyOp i a t left++cs)) := by
  obtain ⟨hva,hvb,-,-⟩ := valid_two.mp hv
  have hnea := (validCursor_cons.mp hva).1
  have hneb := (validCursor_cons.mp hvb).1
  exact {
    valid := valid_ops hv hl hr
    sources := sources_ops
    work_lt := work_ops hweight
    ge := by
      intro x hx
      have hxa : x ≤ lo a := hx (i,a::t) (by simp) a (by simp)
      have hcs : AllGe x cs := fun c hc => hx c (by simp [hc])
      rw [allGe_append,allGe_append]
      exact ⟨(allGe_applyOp hvb (hlo.trans hneb.le) hr).mono hxa,(allGe_applyOp hva hnea.le hl).mono hxa,hcs⟩
    view := by
      intro p d
      show totalDelta _ p = d ↔ totalDelta _ p = d
      have h := totalDelta_ops hv hl hr p
      rw [hown p] at h
      rw [add_right_cancel h] }

lemma emits_ops {e : AllocatorItem} (hge : AllGe (lo b) cs) (hlo : lo a < lo b) (hover : lo b ≤ hi a)
    (hloe : lo e = lo a) (hhie : hi e = lo b) (hdelta : e.value.delta = a.value.delta) (hl : OpFits (lo b) a left)
    (hr : OpFits (lo b) b right)
    (hweight : opWeight a left+opWeight b right < allocatorView.weight a+1+(allocatorView.weight b+1))
    (hown : ∀ p,own e p+(opOwn a p left+opOwn b p right) = own a p+own b p) :
    allocatorView.Emits ((i,a::t)::(j,b::u)::cs) e (applyOp j b u right++(applyOp i a t left++cs)) := by
  obtain ⟨hva,hvb,-,-⟩ := valid_two.mp hv
  obtain ⟨-,hga,hta,-,-⟩ := validCursor_cons.mp hva
  obtain ⟨hneb,-,htb,-,-⟩ := validCursor_cons.mp hvb
  exact {
    valid := valid_ops hv hl hr
    sources := sources_ops
    work_lt := work_ops hweight
    good := by
      show e.value.delta ≠ 0
      rw [hdelta]
      exact hga
    nonempty := by
      rw [hloe,hhie]
      exact hlo
    ge := by
      intro x hx
      rw [hloe]
      exact hx (i,a::t) (by simp) a (by simp)
    after := by
      rw [hhie,allGe_append,allGe_append]
      exact ⟨allGe_applyOp hvb hneb.le hr,allGe_applyOp hva hover hl,hge⟩
    covered := fun p _ => ⟨_,rfl⟩
    shows := by
      intro p d hp hd
      have hd : totalDelta ((i,a::t)::(j,b::u)::cs) p = d := hd
      have hpb : p < lo b := hhie ▸ hp.2
      have hpa : Covers a p := ⟨hloe ▸ hp.1,hpb.trans_le hover⟩
      have hbp : ¬Covers b p := fun h => absurd (hpb.trans_le h.1) (lt_irrefl p)
      have hbu : deltaAt u p = 0 := deltaAt_of_lt htb (hpb.trans hneb)
      show e.value.delta = d
      rw [← hd,totalDelta_cons,totalDelta_cons,totalDelta_of_allGe hge hpb,deltaAt_cons hta,
        deltaAt_cons htb,own_of_covers hpa,own_of_not_covers hbp,deltaAt_of_lt hta hpa.2,hbu,hdelta]
      ring
    other := by
      intro p d hp
      show totalDelta _ p = d ↔ totalDelta _ p = d
      have h := totalDelta_ops hv hl hr p
      have ho := hown p
      rw [own_of_not_covers hp,zero_add] at ho
      rw [ho] at h
      rw [add_right_cancel h] }

end Merges

lemma own_mk (l r : ℕ) (d : ℤ) (s p : ℕ) : own ⟨⟨⟨l,r⟩⟩,⟨d⟩,s⟩ p = if l ≤ p ∧ p < r then d else 0 := rfl

lemma merge_emitLeft {i j : ℕ} {a b : AllocatorItem} (hm : Allocator.merge ⟨i,a⟩ ⟨j,b⟩ = .emitLeft) : hi a ≤ lo b := by
  by_cases h : a.key.deviceRange.stop < b.key.deviceRange.start
  · exact h.le
  · simp only [Allocator.merge,h,if_false] at hm
    split_ifs at hm

/-- What is left of two records that add up to `delta` over the range of `key`. -/
def sumOp (key : AllocatorKey) (delta : ℤ) (sequence : ℕ) : ItemOp AllocatorKey AllocatorValue :=
  if delta = 0 then .discard else .replace ⟨key,⟨delta⟩,sequence⟩

lemma opFits_sumOp {low : ℕ} {key : AllocatorKey} {delta : ℤ} {sequence : ℕ} (hlow : low ≤ lo key)
    (hne : lo key < hi key) (hhi : hi key ≤ hi a) : OpFits low a (sumOp key delta sequence) := by
  by_cases h : delta = 0
  · simp [sumOp,h,OpFits]
  · simp only [sumOp,h,if_false]
    exact ⟨hlow,hne,hhi,h⟩

lemma opOwn_sumOp (a : AllocatorItem) (key : AllocatorKey) (delta : ℤ) (sequence p : ℕ) :
    opOwn a p (sumOp key delta sequence) =
      if key.deviceRange.start ≤ p ∧ p < key.deviceRange.stop then delta else 0 := by
  by_cases h : delta = 0
  · simp [sumOp,h,opOwn]
  · simp only [sumOp,h,if_false,opOwn]
    rfl

lemma opWeight_sumOp_le (a : AllocatorItem) (key : AllocatorKey) (delta : ℤ) (sequence : ℕ) :
    opWeight a (sumOp key delta sequence) ≤ key.deviceRange.stop-key.deviceRange.start+1 := by
  by_cases h : delta = 0
  · simp [sumOp,h,opWeight]
  · simp only [sumOp,h,if_false,opWeight]
    rfl

lemma merge_other {i j : ℕ} {a b : AllocatorItem} {t u : List AllocatorItem} {emit : Option AllocatorItem}
    {left right : ItemOp AllocatorKey AllocatorValue} (hv : allocatorView.Valid ((i,a::t)::(j,b::u)::cs))
    (hlo : lo a ≤ lo b) (hge : AllGe (lo b) cs) (hm : Allocator.merge ⟨i,a⟩ ⟨j,b⟩ = .other emit left right) :
    allocatorView.Outcome ((i,a::t)::(j,b::u)::cs) emit (applyOp j b u right++(applyOp i a t left++cs)) := by
  obtain ⟨hva,hvb,-,-⟩ := valid_two.mp hv
  obtain ⟨hnea,hga,-,-,-⟩ := validCursor_cons.mp hva
  obtain ⟨hneb,hgb,-,-,-⟩ := validCursor_cons.mp hvb
  obtain ⟨⟨⟨as,ae⟩⟩,⟨da⟩,sa⟩ := a
  obtain ⟨⟨⟨bs,be⟩⟩,⟨db⟩,sb⟩ := b
  have hga : da ≠ 0 := hga
  have hgb : db ≠ 0 := hgb
  have hnea : as < ae := hnea
  have hneb : bs < be := hneb
  have hlo : as ≤ bs := hlo
  by_cases h1 : ae < bs
  · simp [Allocator.merge,h1] at hm
  by_cases h2 : ae = bs ∧ da = db
  · obtain ⟨hbs,hdb⟩ := h2
    subst hbs
    subst hdb
    simp only [Allocator.merge,lt_irrefl,if_false,true_and,if_true,other.injEq] at hm
    obtain ⟨rfl,rfl,rfl⟩ := hm
    apply silent_ops hv hlo opFits_discard
    · exact ⟨le_rfl,hnea.trans hneb,le_rfl,hga⟩
    · show 0+(be-as+1) < ae-as+1+(be-ae+1)
      omega
    · intro p
      simp only [opOwn,own_mk]
      split_ifs <;> omega
  simp only [Allocator.merge] at hm
  rw [if_neg h1,if_neg h2] at hm
  by_cases h3 : as = bs
  · rw [if_pos h3] at hm
    subst h3
    by_cases h4 : ae = be
    · rw [if_pos h4] at hm
      subst h4
      cases hm
      apply silent_ops hv hlo (opFits_sumOp le_rfl hnea le_rfl) opFits_discard
      · apply (Nat.add_le_add_right (opWeight_sumOp_le _ _ _ _) _).trans_lt
        show ae-as+1+0 < ae-as+1+(ae-as+1)
        omega
      · intro p
        rw [opOwn_sumOp]
        simp only [opOwn,own_mk]
        split_ifs <;> omega
    · rw [if_neg h4] at hm
      by_cases h5 : ae < be
      · rw [if_pos h5] at hm
        cases hm
        apply silent_ops hv hlo (opFits_sumOp le_rfl hnea le_rfl)
        · exact ⟨hnea.le,h5,le_rfl,hgb⟩
        · apply (Nat.add_le_add_right (opWeight_sumOp_le _ _ _ _) _).trans_lt
          show ae-as+1+(be-ae+1) < ae-as+1+(be-as+1)
          omega
        · intro p
          rw [opOwn_sumOp]
          simp only [opOwn,own_mk]
          split_ifs <;> omega
      · rw [if_neg h5,← sumOp] at hm
        cases hm
        have hlt : be < ae := by omega
        refine silent_ops hv hlo ?_ (opFits_sumOp le_rfl hneb le_rfl) ?_ ?_
        · exact ⟨hneb.le,hlt,le_rfl,hga⟩
        · apply (Nat.add_le_add_left (opWeight_sumOp_le _ _ _ _) _).trans_lt
          show (ae-be+1)+(be-as+1) < ae-as+1+(be-as+1)
          omega
        · intro p
          rw [opOwn_sumOp]
          simp only [opOwn,own_mk]
          split_ifs <;> omega
  · have hlt : as < bs := by omega
    rw [if_neg h3] at hm
    cases hm
    refine ⟨?_,(j,⟨⟨⟨bs,be⟩⟩,⟨db⟩,sb⟩::u),by simp [applyOp],_,mem_cons_self,rfl⟩
    by_cases h6 : bs = ae
    · subst h6
      rw [if_pos rfl]
      apply emits_ops hv hge hlt le_rfl
      · rfl
      · rfl
      · rfl
      · exact opFits_discard
      · exact le_refl bs
      · show 0+(be-bs+1) < bs-as+1+(be-bs+1)
        omega
      · intro p
        simp only [opOwn,own_mk]
        split_ifs <;> omega
    · rw [if_neg h6]
      have hlt' : bs < ae := by omega
      apply emits_ops hv hge hlt hlt'.le
      · rfl
      · rfl
      · rfl
      · exact ⟨le_rfl,hlt',le_rfl,hga⟩
      · exact le_refl bs
      · show (ae-bs+1)+(be-bs+1) < ae-as+1+(be-bs+1)
        omega
      · intro p
        simp only [opOwn,own_mk]
        split_ifs <;> omega

lemma merge_law : MergeLaw allocatorView Allocator.merge where
  indexed_perm _ _ := trivial
  indexed_tail _ := trivial
  view_perm {cs ds p d} h hd := by
    have hd : totalDelta cs p = d := hd
    show totalDelta ds p = d
    rw [← hd]
    exact (h.map _).sum_eq.symm
  covered _ _ := ⟨_,rfl⟩
  shows {i a t cs p d} hv hge hp hd := by
    have hd : totalDelta ((i,a::t)::cs) p = d := hd
    have hle := (validCursor_cons.mp (hv.1 (i,a::t) (by simp))).2.2.1
    show a.value.delta = d
    rw [← hd,totalDelta_cons,totalDelta_of_allGe hge hp.2,deltaAt_cons hle,own_of_covers hp,deltaAt_of_lt hle hp.2]
    ring
  other {i a t cs p d} hv hp := by
    have hle := (validCursor_cons.mp (hv.1 (i,a::t) (by simp))).2.2.1
    show totalDelta _ p = d ↔ totalDelta _ p = d
    rw [totalDelta_cons,totalDelta_append,totalDelta_leftover,deltaAt_cons hle,own_of_not_covers hp,zero_add]
  emitLeft _ _ hm := merge_emitLeft hm
  merges hv hab hge hm := merge_other hv hab.lo_le hge hm

/-! The allocator's tree: reference counts as sums over the layers, and the
compaction of its layers, which passes the merge of them through a
`CoalescingIterator` (`object_store/allocator.rs`). -/

/-- Ascending, disjoint and non-empty device ranges with non-zero changes. -/
def IsAllocatorLayer (layer : List AllocatorItem) : Prop :=
  Ascending layer ∧ ∀ i ∈ layer,i.value.delta ≠ 0

instance (layer : List AllocatorItem) : Decidable (IsAllocatorLayer layer) :=
  inferInstanceAs (Decidable (_ ∧ _))

/-- The changes of all layers at a device offset, added up. -/
def referenceCount (layers : List (List AllocatorItem)) (p : ℕ) : ℤ :=
  (layers.map fun layer => deltaAt layer p).sum

/-- `iter` is what the inner iterator has left, its current item first. -/
structure CoalescingIterator where
  iter : List AllocatorItem
  item : Option AllocatorItem

namespace CoalescingIterator

/-- The loop of `advance`; `none` is its assertion failing. -/
def coalesce (left : AllocatorItem) : List AllocatorItem → Option (AllocatorItem × List AllocatorItem)
  | [] => some (left,[])
  | right::iter =>
    if ¬left.key.deviceRange.stop ≤ right.key.deviceRange.start then none
    else if left.key.deviceRange.stop < right.key.deviceRange.start ∨
        left.value.delta ≠ right.value.delta then
      some (left,right::iter)
    else
      coalesce { left with
        key := ⟨⟨left.key.deviceRange.start,right.key.deviceRange.stop⟩⟩ } iter

def advance (it : CoalescingIterator) : Option CoalescingIterator :=
  match it.iter with
  | [] => some ⟨[],none⟩
  | left::iter => (coalesce left iter).map fun r => ⟨r.2,some r.1⟩

def new (iter : List AllocatorItem) : Option CoalescingIterator := advance ⟨iter,none⟩

/-- Every item from the current one on, until `get` is `None`. -/
def drain : ℕ → CoalescingIterator → Option (List AllocatorItem)
  | 0,_ => none
  | n+1,it =>
    match it.item with
    | none => some []
    | some i => do
      let it ← it.advance
      let is ← drain n it
      return i::is

end CoalescingIterator

/-- What a compaction of `layers` writes. -/
def compactLayers (fuel : ℕ) (layers : List (List AllocatorItem)) : Option (List AllocatorItem) := do
  let out ← mergeFrom Allocator.merge fuel layers .unbounded
  let it ← CoalescingIterator.new out
  it.drain fuel

/-- No two touching records have the same change. -/
def Separated (xs : List AllocatorItem) : Prop :=
  xs.Pairwise fun a b => hi a = lo b → a.value.delta ≠ b.value.delta

lemma own_extend {left right : AllocatorItem} (hne : lo left < hi left) (hne' : lo right < hi right)
    (htouch : hi left = lo right) (hdelta : left.value.delta = right.value.delta) (p : ℕ) :
    own { left with key := ⟨⟨left.key.deviceRange.start,right.key.deviceRange.stop⟩⟩ } p = own left p+own right p := by
  simp only [lo_allocatorItem,hi_allocatorItem] at hne hne' htouch
  simp only [own,Covers,lo_allocatorItem,hi_allocatorItem,hdelta]
  split_ifs <;> omega

lemma coalesce_spec (left : AllocatorItem) (iter : List AllocatorItem) (h : IsAllocatorLayer (left::iter)) :
    ∃ left' rest,CoalescingIterator.coalesce left iter = some (left',rest) ∧
      IsAllocatorLayer (left'::rest) ∧ lo left' = lo left ∧ left'.value.delta = left.value.delta ∧ rest <:+ iter ∧
      (∀ p,deltaAt (left'::rest) p = deltaAt (left::iter) p) ∧
      ∀ r ∈ rest.head?,hi left' = lo r → left'.value.delta ≠ r.value.delta := by
  induction iter generalizing left with
  | nil => exact ⟨left,[],rfl,h,rfl,rfl,suffix_refl _,fun _ => rfl,by simp⟩
  | cons right iter ih =>
    obtain ⟨hasc,hgood⟩ := h
    obtain ⟨hne,hle,hasc'⟩ := ascending_cons.mp hasc
    obtain ⟨hne',hle',-⟩ := ascending_cons.mp hasc'
    have hlr : hi left ≤ lo right := hle right (by simp)
    by_cases hstop : left.key.deviceRange.stop < right.key.deviceRange.start ∨
        left.value.delta ≠ right.value.delta
    · refine ⟨left,right::iter,?_,⟨hasc,hgood⟩,rfl,rfl,suffix_refl _,fun _ => rfl,?_⟩
      · have hlr : left.key.deviceRange.stop ≤ right.key.deviceRange.start := hlr
        simp [CoalescingIterator.coalesce,hlr,hstop]
      · intro r hr htouch
        obtain rfl : right = r := by simpa using hr
        exact hstop.resolve_left htouch.not_lt
    · have htouch : hi left = lo right := le_antisymm hlr (not_lt.mp fun hlt => hstop (.inl hlt))
      have hdelta : left.value.delta = right.value.delta := by
        by_contra hd
        exact hstop (.inr hd)
      obtain ⟨hascr,hgoodr⟩ : IsAllocatorLayer ({ left with
          key := ⟨⟨left.key.deviceRange.start,right.key.deviceRange.stop⟩⟩ }::iter) := by
        constructor
        · apply ascending_cons.mpr
          exact ⟨hne.trans (htouch ▸ hne'),hle',hasc'.tail⟩
        · intro i hi
          cases mem_cons.mp hi with
          | inl hi =>
            rw [hi]
            exact hgood left (by simp)
          | inr hi => exact hgood i (by simp [hi])
      obtain ⟨left',rest,hrun,hlayer,hlo,hd,hsuf,hsum,hsep⟩ := ih _ ⟨hascr,hgoodr⟩
      refine ⟨left',rest,?_,hlayer,hlo,hd,hsuf.trans (suffix_cons _ _),fun p => ?_,hsep⟩
      · have hlr : left.key.deviceRange.stop ≤ right.key.deviceRange.start := hlr
        simpa only [CoalescingIterator.coalesce,hlr,not_true_eq_false,if_false,hstop] using hrun
      · rw [hsum,deltaAt_cons (ascending_cons.mp hascr).2.1,deltaAt_cons hle,deltaAt_cons hle',
          own_extend hne hne' htouch hdelta]
        ring

/-- `out` is `xs` with touching equal records joined. -/
structure Coalesced (xs out : List AllocatorItem) : Prop where
  layer : IsAllocatorLayer out
  separated : Separated out
  delta : ∀ p,deltaAt out p = deltaAt xs p
  head : (out.head?.map fun i => (lo i,i.value.delta)) = xs.head?.map fun i => (lo i,i.value.delta)

lemma Coalesced.le_lo {xs out : List AllocatorItem} (h : Coalesced xs out) {b : ℕ}
    (hb : ∀ x ∈ xs,b ≤ lo x) : ∀ x ∈ out,b ≤ lo x := by
  intro x hx
  have hhead := h.head
  cases out with
  | nil => simp at hx
  | cons y ys =>
    cases xs with
    | nil => simp at hhead
    | cons z zs =>
      simp only [head?_cons,Option.map_some,Option.some.injEq,Prod.mk.injEq] at hhead
      calc b ≤ lo z := hb z (by simp)
        _ = lo y := hhead.1.symm
        _ ≤ lo x := h.layer.1.lo_head_le hx

lemma Coalesced.cons {left : AllocatorItem} {rest out : List AllocatorItem}
    (h : Coalesced rest out) (hlayer : IsAllocatorLayer (left::rest))
    (hsep : ∀ r ∈ rest.head?,hi left = lo r → left.value.delta ≠ r.value.delta) :
    Coalesced (left::rest) (left::out) := by
  obtain ⟨hne,hle,-⟩ := ascending_cons.mp hlayer.1
  have hle' := h.le_lo hle
  exact {
    layer := by
      refine ⟨ascending_cons.mpr ⟨hne,hle',h.layer.1⟩,fun i hi => ?_⟩
      cases mem_cons.mp hi with
      | inl hi => exact hlayer.2 i (by simp [hi])
      | inr hi => exact h.layer.2 i hi
    separated := by
      refine pairwise_cons.mpr ⟨fun x hx htouch => ?_,h.separated⟩
      have hhead := h.head
      cases out with
      | nil => simp at hx
      | cons y ys =>
        cases rest with
        | nil => simp at hhead
        | cons r rs =>
          simp only [head?_cons,Option.map_some,Option.some.injEq,Prod.mk.injEq] at hhead
          cases mem_cons.mp hx with
          | inl hx =>
            subst hx
            rw [hhead.2]
            exact hsep r rfl (htouch.trans hhead.1)
          | inr hx =>
            obtain ⟨hney,hley,-⟩ := ascending_cons.mp h.layer.1
            have hlt : hi left < lo x :=
              (hle' y (by simp)).trans_lt (hney.trans_le (hley x hx))
            exact absurd htouch hlt.ne
    delta := by
      intro p
      rw [deltaAt_cons hle,deltaAt_cons hle',h.delta]
    head := rfl }

lemma coalesced_drain (xs : List AllocatorItem) (h : IsAllocatorLayer xs) :
    ∃ it out,CoalescingIterator.new xs = some it ∧ Coalesced xs out ∧ ∀ n,xs.length < n → it.drain n = some out := by
  induction hk : xs.length using Nat.strong_induction_on generalizing xs with
  | _ k ih =>
  subst hk
  cases xs with
  | nil =>
    refine ⟨⟨[],none⟩,[],rfl,⟨h,List.Pairwise.nil,fun _ => rfl,rfl⟩,fun n hn => ?_⟩
    obtain ⟨j,rfl⟩ := Nat.exists_eq_add_of_lt hn
    simp [CoalescingIterator.drain]
  | cons left iter =>
    obtain ⟨left',rest,hrun,hlayer,hlo,hd,hsuf,hsum,hsep⟩ := coalesce_spec left iter h
    have hlen := hsuf.length_le
    obtain ⟨it,out,hnew,hout,hdrain⟩ := ih rest.length (by simp; omega) rest
      ⟨hlayer.1.tail,fun i hi => hlayer.2 i (by simp [hi])⟩ rfl
    have hcons := hout.cons hlayer hsep
    refine ⟨⟨rest,some left'⟩,left'::out,?_,?_,fun n hn => ?_⟩
    · simp [CoalescingIterator.new,CoalescingIterator.advance,hrun]
    · exact ⟨hcons.layer,hcons.separated,fun p => (hcons.delta p).trans (hsum p), by simp [hlo,hd]⟩
    · obtain ⟨j,rfl⟩ := Nat.exists_eq_add_of_lt hn
      have hadv : CoalescingIterator.advance ⟨rest,some left'⟩ = some it := hnew
      have htail := hdrain ((left::iter).length+j) (by simp; omega)
      simp [CoalescingIterator.drain,hadv] at htail ⊢
      simp [htail]

lemma valid_allocatorCursors {layers : List (List AllocatorItem)}
    (h : ∀ l ∈ layers,IsAllocatorLayer l) : allocatorView.Valid (layerCursors layers) := by
  refine ⟨fun c hc => ?_,trivial⟩
  obtain ⟨l,hl,hc⟩ := mem_flatMap.mp hc
  obtain ⟨hasc,hgood⟩ := h l.1 (fst_mem_of_mem_zipIdx hl)
  cases hnil : l.1 with
  | nil => simp [leftover,hnil] at hc
  | cons a t =>
    obtain rfl : c = (l.2 % 2^16,l.1) := by simpa [leftover,hnil] using hc
    exact ⟨by simp [hnil],hasc,hgood⟩

lemma totalDelta_layerCursors (layers : List (List AllocatorItem)) (p : ℕ) :
    totalDelta (layerCursors layers) p = referenceCount layers p := by
  suffices h : ∀ n,totalDelta ((layers.zipIdx n).flatMap fun l => leftover (l.2 % 2^16) l.1) p =
      referenceCount layers p from h 0
  induction layers with
  | nil => simp [referenceCount]
  | cons layer layers ih =>
    intro n
    rw [zipIdx_cons,flatMap_cons,totalDelta_append,totalDelta_leftover,ih (n+1)]
    rfl

lemma deltaAt_of_yields {out : List AllocatorItem} (hy : allocatorView.Yields cs out) (p : ℕ) :
    deltaAt out p = totalDelta cs p := by
  cases hf : find out p with
  | none =>
    have hrest : 0 = totalDelta cs p := (hy.rest p (totalDelta cs p) (find_eq_none_iff.mp hf)).mp rfl
    simpa [deltaAt,hf] using hrest
  | some e =>
    obtain ⟨he,hp⟩ := mem_of_find_eq_some hf
    have hshow : e.value.delta = totalDelta cs p := hy.shows e he p _ hp rfl
    simpa [deltaAt,hf] using hshow

/-- The merge of the allocator's layers ends and adds up their changes; passing it
through the coalescing iterator keeps every sum and joins touching records, so
that the compacted layer may replace the layers below any newer ones. -/
theorem allocator_merge_coalesce {layers : List (List AllocatorItem)}
    (h : ∀ l ∈ layers,IsAllocatorLayer l) :
    ∃ out compacted,(∃ n,∀ fuel ≥ n,mergeFrom Allocator.merge fuel layers .unbounded = some out ∧
        compactLayers fuel layers = some compacted) ∧
      IsAllocatorLayer out ∧ (∀ p,deltaAt out p = referenceCount layers p) ∧
      IsAllocatorLayer compacted ∧ (∀ p,deltaAt compacted p = deltaAt out p) ∧
      Separated compacted ∧
      ∀ newer p,referenceCount (newer++[compacted]) p = referenceCount (newer++layers) p := by
  obtain ⟨out,hy,hrun⟩ := mergeFrom_unbounded merge_law (valid_allocatorCursors h)
  have hlayer : IsAllocatorLayer out := ⟨hy.ascending,hy.good⟩
  have hsum : ∀ p,deltaAt out p = referenceCount layers p := by
    intro p
    rw [deltaAt_of_yields hy,totalDelta_layerCursors]
  obtain ⟨it,compacted,hnew,hco,hdrain⟩ := coalesced_drain out hlayer
  refine ⟨out,compacted,⟨allocatorView.work (layerCursors layers)+1+out.length+1,
    fun fuel hfuel => ?_⟩,hlayer,hsum,hco.layer,hco.delta,hco.separated,fun newer p => ?_⟩
  · have hm := hrun fuel (by omega)
    exact ⟨hm,by simp [compactLayers,hm,hnew,hdrain fuel (by omega)]⟩
  · have hp : deltaAt compacted p = referenceCount layers p := (hco.delta p).trans (hsum p)
    simp only [referenceCount,map_append,sum_append,map_cons,map_nil,sum_cons,sum_nil,add_zero] at hp ⊢
    rw [hp]

def overlappingLayers : List (List AllocatorItem) :=
  [[⟨⟨⟨0,4⟩⟩,⟨1⟩,0⟩,⟨⟨⟨4,8⟩⟩,⟨2⟩,0⟩],[⟨⟨⟨4,8⟩⟩,⟨-1⟩,0⟩],[⟨⟨⟨8,12⟩⟩,⟨1⟩,0⟩]]

theorem allocator_merge_coalesce_overlappingLayers :
    ∃ out compacted,(∃ n,∀ fuel ≥ n,
        mergeFrom Allocator.merge fuel overlappingLayers .unbounded = some out ∧
          compactLayers fuel overlappingLayers = some compacted) ∧
      IsAllocatorLayer out ∧ (∀ p,deltaAt out p = referenceCount overlappingLayers p) ∧
      IsAllocatorLayer compacted ∧ (∀ p,deltaAt compacted p = deltaAt out p) ∧
      Separated compacted ∧ ∀ newer p,referenceCount (newer++[compacted]) p =
        referenceCount (newer++overlappingLayers) p :=
  allocator_merge_coalesce (by decide)

end Fuchsia.Fxfs
