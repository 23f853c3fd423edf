import Fuchsia.Fxfs.Range
import Fuchsia.Lib.Priority
import Fuchsia.Fxfs.SkipListLayer

/-! Extent records (`object_store/extent_record.rs`): keys, values, and what a
record says about one byte offset of its attribute. -/
namespace Fuchsia.Fxfs

section

open Ranges Ranged Key Nat List

structure ExtentKey where
  objectId : ℕ
  attributeId : ℕ
  range : Range
  deriving DecidableEq,Repr

namespace ExtentKey

/-- A search key that finds the first extent that touches `offset..`. -/
def searchKeyFromOffset (objectId attributeId offset : ℕ) : ExtentKey :=
  ⟨objectId,attributeId,⟨0,offset+1⟩⟩

instance : Key ExtentKey where
  cmpUpperBound a b := (compare a.objectId b.objectId).then
    ((compare a.attributeId b.attributeId).then (compare a.range.stop b.range.stop))
  cmpLowerBound a b := (compare a.objectId b.objectId).then
    ((compare a.attributeId b.attributeId).then (compare a.range.start b.range.start))
  nextKey a := some ⟨a.objectId,a.attributeId,⟨a.range.stop,a.range.stop+1⟩⟩

end ExtentKey

inductive Checksums
  | none
  | fletcher (sums : List ℕ)
  deriving DecidableEq,Repr

/-- `ExtentValue.none` marks a deleted extent. -/
inductive ExtentValue
  | none
  | some (deviceOffset : ℕ) (checksums : Checksums) (keyId : ℕ)
  deriving DecidableEq,Repr

namespace ExtentValue

def offsetBy (v : ExtentValue) (amount extentLen : ℕ) : ExtentValue :=
  match v with
  | .none => .none
  | .some deviceOffset (.fletcher sums) keyId =>
    if sums.length > 0 then
      let index := amount / (extentLen / sums.length)
      .some (deviceOffset+amount) (.fletcher (sums.drop index)) keyId
    else .some (deviceOffset+amount) .none keyId
  | .some deviceOffset .none keyId => .some (deviceOffset+amount) .none keyId

def shrunk (v : ExtentValue) (originalLen newLen : ℕ) : ExtentValue :=
  match v with
  | .none => .none
  | .some deviceOffset (.fletcher sums) keyId =>
    if sums.length > 0 then
      let checksumLen := newLen / (originalLen / sums.length)
      .some deviceOffset (.fletcher (sums.take checksumLen)) keyId
    else .some deviceOffset .none keyId
  | .some deviceOffset .none keyId => .some deviceOffset .none keyId

end ExtentValue

/-! ### Points of the extent tree -/

/-- Object, attribute and byte offset, ordered in that order. -/
abbrev Point := ℕ ×ₗ ℕ ×ₗ ℕ

def point (objectId attributeId offset : ℕ) : Point := toLex (objectId,toLex (attributeId,offset))

def Point.offset (p : Point) : ℕ := (ofLex (ofLex p).2).2

lemma point_eta (p : Point) : ∃ o a,p = point o a p.offset := ⟨(ofLex p).1,(ofLex (ofLex p).2).1,rfl⟩

lemma point_lt_point {o a x o' a' y : ℕ} :
    point o a x < point o' a' y ↔ o < o' ∨ o = o' ∧ (a < a' ∨ a = a' ∧ x < y) := by
  simp [point,Prod.Lex.toLex_lt_toLex]

lemma point_le_point {o a x o' a' y : ℕ} :
    point o a x ≤ point o' a' y ↔ o < o' ∨ o = o' ∧ (a < a' ∨ a = a' ∧ x ≤ y) := by
  simp [point,Prod.Lex.toLex_le_toLex]

@[simp] lemma point_inj {o a x o' a' y : ℕ} : point o a x = point o' a' y ↔ o = o' ∧ a = a' ∧ x = y := by
  simp [point]

lemma compare_point (o a x o' a' y : ℕ) : compare (point o a x) (point o' a' y) =
      (compare o o').then ((compare a a').then (compare x y)) := by
  rcases lt_trichotomy o o' with h | h | h
  · simp [compare_lt_iff_lt.mpr h,compare_lt_iff_lt,point_lt_point,h]
  · subst h
    rcases lt_trichotomy a a' with h | h | h
    · simp [compare_lt_iff_lt.mpr h,compare_lt_iff_lt,point_lt_point,h]
    · subst h
      rcases lt_trichotomy x y with h | h | h
      · simp [compare_lt_iff_lt.mpr h,compare_lt_iff_lt,point_lt_point,h]
      · simp [h]
      · simp [compare_gt_iff_gt.mpr h,compare_gt_iff_gt,point_lt_point,h]
    · simp [compare_gt_iff_gt.mpr h,compare_gt_iff_gt,point_lt_point,h]
  · simp [compare_gt_iff_gt.mpr h,compare_gt_iff_gt,point_lt_point,h]

instance : Ranged ExtentKey Point where
  lo k := point k.objectId k.attributeId k.range.start
  hi k := point k.objectId k.attributeId k.range.stop

lemma lo_extentKey (k : ExtentKey) : lo k = point k.objectId k.attributeId k.range.start := rfl
lemma hi_extentKey (k : ExtentKey) : hi k = point k.objectId k.attributeId k.range.stop := rfl

instance : RangedKey ExtentKey Point where
  cmpLowerBound_eq _ _ := (compare_point _ _ _ _ _ _).symm
  cmpUpperBound_eq _ _ := (compare_point _ _ _ _ _ _).symm

lemma covers_extentKey {k : ExtentKey} {p : Point} : Covers k p ↔ p = point k.objectId k.attributeId p.offset ∧
      k.range.start ≤ p.offset ∧ p.offset < k.range.stop := by
  obtain ⟨o,a,hp⟩ := point_eta p
  generalize p.offset = x at hp ⊢
  subst hp
  simp only [Covers,lo_extentKey,hi_extentKey,point_le_point,point_lt_point,point_inj,and_true]
  omega

/-! ### What a record says about an offset -/

/-- The checksum that covers the byte `offset` of an extent of length `len`, with
the length of the block it is for and the position of the byte in that block. -/
def Checksums.covering (c : Checksums) (len offset : ℕ) : Option (ℕ × ℕ × ℕ) :=
  match c with
  | .none => Option.none
  | .fletcher sums =>
    let block := len / sums.length
    sums[offset / block]?.map fun sum => (sum,block,offset % block)

inductive Mapping
  | deleted
  | data (deviceOffset keyId : ℕ) (checksum : Option (ℕ × ℕ × ℕ))
  deriving DecidableEq,Repr

def ExtentValue.mapping (v : ExtentValue) (len offset : ℕ) : Mapping :=
  match v with
  | .none => .deleted
  | .some deviceOffset checksums keyId =>
    .data (deviceOffset+offset) keyId (checksums.covering len offset)

/-- What an extent record maps a point it covers to. -/
def extentMapping (i : Item ExtentKey ExtentValue) (p : Point) : Mapping :=
  i.value.mapping (i.key.range.stop-i.key.range.start) (p.offset-i.key.range.start)

def Checksums.PerBlock (blockSize len : ℕ) : Checksums → Prop
  | .none => True
  | .fletcher sums => sums = [] ∨ sums.length ∣ len ∧ len / sums.length ∣ blockSize

def ExtentValue.PerBlock (blockSize len : ℕ) : ExtentValue → Prop
  | .none => True
  | .some _ checksums _ => checksums.PerBlock blockSize len

instance (blockSize len : ℕ) (c : Checksums) : Decidable (c.PerBlock blockSize len) := by
  cases c <;> simp only [Checksums.PerBlock] <;> infer_instance

instance (blockSize len : ℕ) (v : ExtentValue) : Decidable (v.PerBlock blockSize len) := by
  cases v <;> simp only [ExtentValue.PerBlock] <;> infer_instance

lemma exists_cut {blockSize len amount : ℕ} {sums : List ℕ} (hne : sums ≠ [])
    (hv : (Checksums.fletcher sums).PerBlock blockSize len) (hpos : 0 < len) (hamount : blockSize ∣ amount) :
    ∃ c k,0 < c ∧ 0 < sums.length ∧ len = c*sums.length ∧ amount = c*k ∧ len / sums.length = c ∧
      amount / c = k ∧ c ∣ blockSize ∧ (amount < len ↔ k < sums.length) ∧ (amount ≤ len ↔ k ≤ sums.length) := by
  have hn : 0 < sums.length := length_pos_of_ne_nil hne
  obtain ⟨⟨c,hc⟩,hblock⟩ := Or.resolve_left hv hne
  have hdiv : len / sums.length = c := by rw [hc,Nat.mul_div_cancel_left c hn]
  rw [hdiv] at hblock
  obtain ⟨k,hk⟩ := hblock.trans hamount
  have hcpos : 0 < c := by
    apply pos_of_ne_zero
    intro h
    simp [hc,h] at hpos
  refine ⟨c,k,hcpos,hn,by rw [hc,mul_comm],hk,hdiv,?_,hblock,?_,?_⟩
  · rw [hk,Nat.mul_div_cancel_left k hcpos]
  · rw [hk,hc,mul_comm _ c,Nat.mul_lt_mul_left hcpos]
  · rw [hk,hc,mul_comm _ c,Nat.mul_le_mul_left_iff hcpos]

namespace ExtentValue

variable {blockSize len amount : ℕ} {v : ExtentValue}

section

variable (hv : v.PerBlock blockSize len)
include hv

section

variable (hdvd : blockSize ∣ amount)
include hdvd

lemma offsetBy_spec (hlt : amount < len) : (v.offsetBy amount len).PerBlock blockSize (len-amount) ∧
    ∀ offset,(v.offsetBy amount len).mapping (len-amount) offset = v.mapping len (amount+offset) := by
  cases v with
  | none => exact ⟨trivial,fun _ => rfl⟩
  | some dev cs key =>
    cases cs with
    | none => exact ⟨trivial,by simp [offsetBy,mapping,Checksums.covering,add_assoc]⟩
    | fletcher sums =>
      by_cases hs : sums = []
      · simp [offsetBy,hs,PerBlock,Checksums.PerBlock,mapping,Checksums.covering,add_assoc]
      · obtain ⟨c,k,hc,hn,hl,hk,hd,hindex,hblock,hlt',-⟩ := exists_cut hs hv (by omega) hdvd
        have hsub : len-amount = c*(sums.length-k) := by rw [hl,hk,Nat.mul_sub]
        have hdiv : (len-amount) / (sums.length-k) = c := by rw [hsub,Nat.mul_div_cancel c (by omega)]
        simp only [offsetBy,gt_iff_lt,hn,if_true,PerBlock,Checksums.PerBlock,mapping,Checksums.covering,hd,
          hindex,length_drop,hdiv,getElem?_drop,add_assoc]
        refine ⟨.inr ⟨hsub ▸ Dvd.intro_left c rfl,hblock⟩,fun offset => ?_⟩
        rw [hk,mul_add_div hc,mul_add_mod]

lemma shrunk_spec (hpos : 0 < amount) (hle : amount ≤ len) : (v.shrunk len amount).PerBlock blockSize amount ∧
    ∀ offset < amount,(v.shrunk len amount).mapping amount offset = v.mapping len offset := by
  cases v with
  | none => exact ⟨trivial,fun _ _ => rfl⟩
  | some dev cs key =>
    cases cs with
    | none => exact ⟨trivial,fun _ _ => rfl⟩
    | fletcher sums =>
      by_cases hs : sums = []
      · simp [shrunk,hs,PerBlock,Checksums.PerBlock,mapping,Checksums.covering]
      · obtain ⟨c,k,hc,hn,hl,hk,hd,hindex,hblock,-,hle'⟩ := exists_cut hs hv (by omega) hdvd
        have hkpos : 0 < k := pos_of_ne_zero fun h => by simp [hk,h] at hpos
        have hdiv : amount / k = c := by rw [hk,Nat.mul_div_cancel c hkpos]
        simp only [shrunk,gt_iff_lt,hn,if_true,PerBlock,Checksums.PerBlock,mapping,Checksums.covering,hd,
          hindex,length_take,min_eq_left (hle'.mp hle),hdiv]
        refine ⟨.inr ⟨hk ▸ Dvd.intro_left c rfl,hblock⟩,fun offset hlt => ?_⟩
        rw [getElem?_take_of_lt (Nat.div_lt_of_lt_mul (hk ▸ hlt))]

end

end

end ExtentValue

end

/-! The merge function of the extent tree (`object_store/merge.rs`), and that it
keeps, at every point, what the newest covering layer says. -/

open Ranges Ranged Key Priority MergeView List MergeResult

abbrev ExtentItem := Item ExtentKey ExtentValue

def mergeDeletedExtents (left right : LayerItem ExtentKey ExtentValue) :
    MergeResult ExtentKey ExtentValue :=
  let leftKey := left.item.key
  let rightKey := right.item.key
  if leftKey.range.stop < rightKey.range.start then .emitLeft
  else if leftKey.range.stop ≥ rightKey.range.stop then .other none .keep .discard
  else .other none .discard (.replace
    ⟨⟨leftKey.objectId,leftKey.attributeId,⟨leftKey.range.start,rightKey.range.stop⟩⟩,
      .none,min left.item.sequence right.item.sequence⟩)

def mergeExtents (left right : LayerItem ExtentKey ExtentValue) :
    MergeResult ExtentKey ExtentValue :=
  let leftKey := left.item.key
  let rightKey := right.item.key
  let sequence := min left.item.sequence right.item.sequence
  if leftKey.objectId ≠ rightKey.objectId ∨ leftKey.attributeId ≠ rightKey.attributeId then
    .emitLeft
  else if left.item.value = .none ∧ right.item.value = .none ∧
      ((left.layerIndex : ℤ)-right.layerIndex).natAbs = 1 then
    mergeDeletedExtents left right
  else if leftKey.range.stop ≤ rightKey.range.start then .emitLeft
  else if right.layerIndex < left.layerIndex then
    .other
      (some ⟨⟨leftKey.objectId,leftKey.attributeId,⟨leftKey.range.start,rightKey.range.start⟩⟩,
        left.item.value.shrunk (leftKey.range.stop-leftKey.range.start)
          (rightKey.range.start-leftKey.range.start),sequence⟩)
      (.replace
        ⟨⟨leftKey.objectId,leftKey.attributeId,⟨rightKey.range.start,leftKey.range.stop⟩⟩,
          left.item.value.offsetBy (rightKey.range.start-leftKey.range.start)
            (leftKey.range.stop-leftKey.range.start),sequence⟩)
      .keep
  else if leftKey.range.stop ≥ rightKey.range.stop then .other none .keep .discard
  else .other none .keep (.replace
    ⟨⟨leftKey.objectId,leftKey.attributeId,⟨leftKey.range.stop,rightKey.range.stop⟩⟩,
      right.item.value.offsetBy (leftKey.range.stop-rightKey.range.start)
        (rightKey.range.stop-rightKey.range.start),sequence⟩)

def limit (i : ExtentItem) : Option Point :=
  match i.value with
  | .none => none
  | .some _ _ _ => some (hi i)

abbrev Cell := Mapping × Option Point

def cell (i : ExtentItem) (p : Point) : Cell := (extentMapping i p,limit i)

def cellAt (xs : List ExtentItem) (p : Point) : Option Cell := (find xs p).map fun i => cell i p

/-- What a cursor offers at a point. -/
def entry (p : Point) (c : Cursor ExtentKey ExtentValue) : ℕ × Option Cell := (c.1,cellAt c.2 p)

def extentView (blockSize : ℕ) : MergeView ExtentKey ExtentValue Point Cell where
  Good i := blockSize ∣ i.key.range.start ∧ blockSize ∣ i.key.range.stop ∧
    i.value.PerBlock blockSize (i.key.range.stop-i.key.range.start)
  Indexed := List.Nodup
  weight i := i.key.range.stop-i.key.range.start
  View cs p d := Newest (cs.map (entry p)) d
  Shows e p d := extentMapping e p = d.1 ∧ ∀ l,d.2 = some l → hi e ≤ l

variable {p : Point} {i j : ℕ} {a b : ExtentItem} {t u : List ExtentItem}
  {cs : List (Cursor ExtentKey ExtentValue)}

lemma cellAt_of_covers (h : Covers a p) : cellAt (a::t) p = some (cell a p) := by
  simp [cellAt,find_cons_of_covers t h]

lemma cellAt_of_not_covers (h : ¬Covers a p) : cellAt (a::t) p = cellAt t p := by
  simp [cellAt,find_cons_of_not_covers t h]

lemma cellAt_of_lt {b : Point} (h : ∀ x ∈ t,b ≤ lo x) (hp : p < b) : cellAt t p = none := by
  simp [cellAt,find_eq_none_of_lt fun x hx => hp.trans_le (h x hx)]

lemma cellAt_replace (hiff : Covers a p ↔ Covers b p) (hcell : Covers b p → cell a p = cell b p) :
    cellAt (a::t) p = cellAt (b::t) p := by
  by_cases h : Covers b p
  · rw [cellAt_of_covers h,cellAt_of_covers (hiff.mpr h),hcell h]
  · rw [cellAt_of_not_covers h,cellAt_of_not_covers (mt hiff.mp h)]

variable {d : Cell}

lemma newest_leftover : Newest ((leftover i t++cs).map (entry p)) d ↔ Newest ((i,cellAt t p)::cs.map (entry p)) d := by
  cases t with
  | nil => simp [leftover,cellAt]
  | cons a t => simp [leftover,entry]

lemma not_view_of_allGe {b : Point} (h : AllGe b cs) (hp : p < b) : ¬Newest (cs.map (entry p)) d := by
  intro hd
  obtain ⟨i,hi,-⟩ := hd
  obtain ⟨c,hc,he⟩ := mem_map.mp hi
  rw [entry,cellAt_of_lt (h c hc) hp] at he
  simp at he

lemma newest_head {b : Point} {v : Cell} (h : AllGe b cs) (hp : p < b)
    (hd : Newest ((i,some v)::cs.map (entry p)) d) : d = v := by
  obtain ⟨k,hk,hmin⟩ := hd
  cases mem_cons.mp hk with
  | inl hk => simpa using congrArg Prod.snd hk
  | inr hk =>
    obtain ⟨c,hc,he⟩ := mem_map.mp hk
    rw [entry,cellAt_of_lt (h c hc) hp] at he
    simp at he

lemma map_fst_entry (p : Point) (cs : List (Cursor ExtentKey ExtentValue)) :
    (cs.map (entry p)).map Prod.fst = cs.map Prod.fst := by simp [entry,Function.comp_def]

lemma limit_eq {i : ExtentItem} {l : Point} (h : limit i = some l) : l = hi i := by
  cases hv : i.value with
  | none => simp [limit,hv] at h
  | some dev cs key => simpa [limit,hv,eq_comm] using h

lemma cell_of_deleted {i : ExtentItem} (h : i.value = .none) (p : Point) : cell i p = (.deleted,none) := by
  simp [cell,extentMapping,limit,h,ExtentValue.mapping]

section Cases

variable {blockSize : ℕ} (hv : (extentView blockSize).Valid ((i,a::t)::(j,b::u)::cs))
include hv

lemma silent_eclipse (hlo : lo a ≤ lo b) (hhi : hi b ≤ hi a)
    (hwins : i < j ∨ a.value = .none ∧ b.value = .none ∧ Adjacent i j (cs.map Prod.fst)) :
    (extentView blockSize).Silent ((i,a::t)::(j,b::u)::cs) (leftover j u++(i,a::t)::cs) := by
  have hv' := hv.perm (fun h => h.nodup_iff.mp) (List.Perm.swap _ _ _)
  exact {
    valid := hv'.leftover fun h => (nodup_cons.mp h).2
    sources := by cases u <;> simp [leftover]
    work_lt := by simp; omega
    ge := by
      intro x hx
      simp only [allGe_cons,allGe_append,allGe_leftover] at hx ⊢
      exact ⟨fun y hy => hx.2.1 y (by simp [hy]),hx.1,hx.2.2⟩
    view := by
      intro p d
      show Newest _ d ↔ Newest _ d
      rw [newest_leftover]
      simp only [map_cons,entry]
      rw [newest_swap (j,cellAt u p)]
      by_cases hb : Covers b p
      · have ha : Covers a p := ⟨hlo.trans hb.1,hb.2.trans_le hhi⟩
        rw [cellAt_of_covers ha,cellAt_of_covers hb]
        cases hwins with
        | inl hij => rw [newest_hidden hij,newest_hidden hij]
        | inr hdel =>
          obtain ⟨hda,hdb,hadj⟩ := hdel
          have hu := (validCursor_cons.mp (hv'.1 (j,b::u) (by simp))).2.2.1
          rw [← map_fst_entry p] at hadj
          rw [cell_of_deleted hda,cell_of_deleted hdb,cellAt_of_lt hu hb.2,newest_cons_none]
          exact newest_dup hadj _ _
      · rw [cellAt_of_not_covers hb] }

variable {b' : ExtentItem}

lemma silent_truncate (hij : i < j) (hlo : lo a ≤ lo b) (hover : lo b ≤ hi a) (hhi : hi a < hi b)
    (hlo' : lo b' = hi a) (hhi' : hi b' = hi b) (hgood : (extentView blockSize).Good b')
    (hweight : (extentView blockSize).weight b' < (extentView blockSize).weight b)
    (hcell : ∀ p,Covers b' p → cell b' p = cell b p) :
    (extentView blockSize).Silent ((i,a::t)::(j,b::u)::cs) ((j,b'::u)::(i,a::t)::cs) := by
  obtain ⟨hva,hvb,hvcs,hidx⟩ := valid_two.mp hv
  obtain ⟨-,-,hu,hasc,hgu⟩ := validCursor_cons.mp hvb
  exact {
    valid := by
      refine valid_two.mpr ⟨validCursor_cons.mpr ?_,hva,hvcs,?_⟩
      · exact ⟨by rw [hlo',hhi']; exact hhi,hgood,by rw [hhi']; exact hu,hasc,hgu⟩
      · exact (List.Perm.swap _ _ _).nodup_iff.mp hidx
    sources := by simp
    work_lt := by
      simp only [work_cons,cursorWork_cons]
      omega
    ge := by
      intro x hx
      simp only [allGe_cons,mem_cons,forall_eq_or_imp] at hx ⊢
      exact ⟨⟨hlo' ▸ hx.2.1.1.trans hover,hx.2.1.2⟩,hx.1,hx.2.2⟩
    view := by
      intro p d
      show Newest _ d ↔ Newest _ d
      by_cases ha : Covers a p
      · simp only [map_cons,entry]
        rw [newest_swap (j,_),cellAt_of_covers ha,newest_hidden hij,newest_hidden hij]
      · refine (newest_swap _ _ _ _).trans (iff_of_eq ?_)
        refine congrArg (fun c => Newest ((j,c)::_::_) d) ?_
        apply cellAt_replace
        · exact covers_cut_iff hlo hover hlo' hhi' ha
        · intro hb
          exact (hcell p hb).symm }

lemma silent_coalesce (hadj : Adjacent i j (cs.map Prod.fst)) (hda : a.value = .none) (hdb : b.value = .none)
    (hdb' : b'.value = .none) (hlo : lo a ≤ lo b) (hover : lo b ≤ hi a) (hhi : hi a < hi b) (hlo' : lo b' = lo a)
    (hhi' : hi b' = hi b) (hgood : (extentView blockSize).Good b')
    (hweight : (extentView blockSize).weight b' ≤ (extentView blockSize).weight a + (extentView blockSize).weight b) :
    (extentView blockSize).Silent ((i,a::t)::(j,b::u)::cs) ((j,b'::u)::(leftover i t++cs)) := by
  obtain ⟨hva,hvb,hvcs,hidx⟩ := valid_two.mp hv
  obtain ⟨hne,-,ht,-,-⟩ := validCursor_cons.mp hva
  obtain ⟨-,-,hu,hasc,hgu⟩ := validCursor_cons.mp hvb
  have hvb' : (extentView blockSize).ValidCursor (j,b'::u) := by
    apply validCursor_cons.mpr
    exact ⟨by rw [hlo',hhi']; exact hne.trans hhi,hgood,by rw [hhi']; exact hu,hasc,hgu⟩
  have hv' : (extentView blockSize).Valid ((i,a::t)::(j,b'::u)::cs) := valid_two.mpr ⟨hva,hvb',hvcs,hidx⟩
  exact {
    valid := by
      have h := hv'.leftover fun h => (nodup_cons.mp h).2
      exact h.perm (fun h => h.nodup_iff.mp) perm_middle
    sources := by cases t <;> simp [leftover]
    work_lt := by
      simp only [work_cons,work_append,work_leftover,cursorWork_cons]
      omega
    ge := by
      intro x hx
      simp only [allGe_cons,allGe_append,allGe_leftover,mem_cons,forall_eq_or_imp] at hx ⊢
      exact ⟨⟨hlo' ▸ hx.1.1,hx.2.1.2⟩,hx.1.2,hx.2.2⟩
    view := by
      intro p d
      show Newest _ d ↔ Newest _ d
      rw [newest_perm (perm_middle.symm.map _) d,newest_leftover]
      simp only [map_cons,entry]
      by_cases ha : Covers a p
      · have hb' : Covers b' p := ⟨hlo' ▸ ha.1,hhi' ▸ ha.2.trans hhi⟩
        rw [← map_fst_entry p] at hadj
        rw [cellAt_of_covers ha,cellAt_of_covers hb',cell_of_deleted hda,cell_of_deleted hdb',
          cellAt_of_lt ht ha.2,newest_none_cons,← newest_move hadj]
        by_cases hb : Covers b p
        · rw [cellAt_of_covers hb,cell_of_deleted hdb]
          exact newest_dup hadj _ _
        · rw [cellAt_of_not_covers hb,cellAt_of_lt hu (ha.2.trans hhi),newest_cons_none]
      · have hcell : cellAt (b::u) p = cellAt (b'::u) p := by
          apply cellAt_replace (covers_join_iff hlo hover hlo' hhi' ha)
          intro _
          rw [cell_of_deleted hdb,cell_of_deleted hdb']
        rw [cellAt_of_not_covers ha,hcell] }

lemma emits_split {e a' : ExtentItem} (hge : AllGe (lo b) cs) (hlo : lo a < lo b) (hover : lo b < hi a)
    (hloe : lo e = lo a) (hhie : hi e = lo b) (hlo' : lo a' = lo b) (hhi' : hi a' = hi a)
    (hgoode : (extentView blockSize).Good e) (hgood : (extentView blockSize).Good a')
    (hweight : (extentView blockSize).weight a' < (extentView blockSize).weight a)
    (hcelle : ∀ p,Covers e p → extentMapping e p = extentMapping a p) (hcell : ∀ p,Covers a' p → cell a' p = cell a p) :
    (extentView blockSize).Emits ((i,a::t)::(j,b::u)::cs) e ((j,b::u)::(i,a'::t)::cs) := by
  obtain ⟨hva,hvb,hvcs,hidx⟩ := valid_two.mp hv
  obtain ⟨-,-,ht,hasc,hgt⟩ := validCursor_cons.mp hva
  obtain ⟨hneb,-,hu,-,-⟩ := validCursor_cons.mp hvb
  have hcov : ∀ p,Covers e p → Covers a p := fun p hp =>
    ⟨hloe ▸ hp.1,(hhie ▸ hp.2).trans hover⟩
  have hgeb : AllGe (lo b) ((j,b::u)::cs) := by
    refine allGe_cons.mpr ⟨?_,hge⟩
    simp only [mem_cons,forall_eq_or_imp,le_refl,true_and]
    exact fun x hx => hneb.le.trans (hu x hx)
  exact {
    valid := by
      refine valid_two.mpr ⟨hvb,validCursor_cons.mpr ?_,hvcs,?_⟩
      · exact ⟨by rw [hlo',hhi']; exact hover,hgood,by rw [hhi']; exact ht,hasc,hgt⟩
      · exact (List.Perm.swap _ _ _).nodup_iff.mp hidx
    sources := by simp
    work_lt := by
      simp only [work_cons,cursorWork_cons]
      omega
    good := hgoode
    nonempty := by rw [hloe,hhie]; exact hlo
    ge := by
      intro x hx
      rw [hloe]
      exact hx (i,a::t) (by simp) a (by simp)
    after := by
      rw [hhie]
      simp only [allGe_cons,mem_cons,forall_eq_or_imp] at hgeb ⊢
      exact ⟨hgeb.1,⟨hlo'.ge,fun x hx => hover.le.trans (ht x hx)⟩,hge⟩
    covered := by
      intro p hp
      apply newest_exists (i := i) (v := cell a p)
      simp [entry,cellAt_of_covers (hcov p hp)]
    shows := by
      intro p d hp hd
      have hd : Newest (((i,a::t)::(j,b::u)::cs).map (entry p)) d := hd
      rw [map_cons,entry,cellAt_of_covers (hcov p hp)] at hd
      have hda := newest_head hgeb (hhie ▸ hp.2) hd
      subst hda
      refine ⟨hcelle p hp,fun l hl => ?_⟩
      have hlim : l = hi a := limit_eq hl
      rw [hlim,hhie]
      exact hover.le
    other := by
      intro p d hp
      show Newest _ d ↔ Newest _ d
      have hcut : cellAt (a::t) p = cellAt (a'::t) p := by
        apply cellAt_replace
        · exact covers_cut_iff hloe.le (by rw [hhie]; exact hlo.le) (by rw [hlo',hhie]) hhi' hp
        · intro ha
          exact (hcell p ha).symm
      simp only [map_cons,entry,hcut]
      exact newest_swap _ _ _ _ }

end Cases

section Cut

variable {blockSize m sequence : ℕ}

/-- What is left of `a` from offset `m` on. -/
def cutFrom (a : ExtentItem) (m sequence : ℕ) : ExtentItem :=
  ⟨⟨a.key.objectId,a.key.attributeId,⟨m,a.key.range.stop⟩⟩,
    a.value.offsetBy (m-a.key.range.start) (a.key.range.stop-a.key.range.start),sequence⟩

/-- What is left of `a` up to offset `m`. -/
def cutTo (a : ExtentItem) (m sequence : ℕ) : ExtentItem :=
  ⟨⟨a.key.objectId,a.key.attributeId,⟨a.key.range.start,m⟩⟩,
    a.value.shrunk (a.key.range.stop-a.key.range.start) (m-a.key.range.start),sequence⟩

section

variable (h : (extentView blockSize).Good a)
include h

section

variable (hm : blockSize ∣ m)
include hm

lemma good_cutFrom (hlo : a.key.range.start ≤ m) (hhi : m < a.key.range.stop) :
    (extentView blockSize).Good (cutFrom a m sequence) := by
  obtain ⟨hs,he,hv⟩ := h
  refine ⟨hm,he,?_⟩
  have hlen : a.key.range.stop-m = a.key.range.stop-a.key.range.start-(m-a.key.range.start) := by omega
  simp only [cutFrom,hlen]
  exact (ExtentValue.offsetBy_spec hv (Nat.dvd_sub hm hs) (by omega)).1

lemma good_cutTo (hlo : a.key.range.start < m) (hhi : m ≤ a.key.range.stop) :
    (extentView blockSize).Good (cutTo a m sequence) := by
  obtain ⟨hs,-,hv⟩ := h
  have hpos : 0 < m-a.key.range.start := by omega
  have hle : m-a.key.range.start ≤ a.key.range.stop-a.key.range.start := by omega
  exact ⟨hs,hm,(ExtentValue.shrunk_spec hv (Nat.dvd_sub hm hs) hpos hle).1⟩

lemma cell_cutFrom (hlo : a.key.range.start ≤ m) (hhi : m < a.key.range.stop)
    (hp : Covers (cutFrom a m sequence) p) : cell (cutFrom a m sequence) p = cell a p := by
  obtain ⟨hs,-,hv⟩ := h
  obtain ⟨-,hmp,-⟩ := covers_extentKey.mp hp
  have hmp : m ≤ p.offset := hmp
  have hlim : limit (cutFrom a m sequence) = limit a := by
    cases hval : a.value with
    | none => simp [limit,cutFrom,hval,ExtentValue.offsetBy]
    | some dev cs key =>
      cases cs with
      | none => simp only [limit,cutFrom,hval,ExtentValue.offsetBy,hi_item]; rfl
      | fletcher sums =>
        by_cases hn : sums.length > 0
        · simp only [limit,cutFrom,hval,ExtentValue.offsetBy,hi_item,hn,if_true]; rfl
        · simp only [limit,cutFrom,hval,ExtentValue.offsetBy,hi_item,hn,if_false]; rfl
  have hmap := (ExtentValue.offsetBy_spec hv (Nat.dvd_sub hm hs)
    (by omega : m-a.key.range.start < a.key.range.stop-a.key.range.start)).2 (p.offset-m)
  have hlen : a.key.range.stop-a.key.range.start-(m-a.key.range.start) = a.key.range.stop-m := by omega
  have hoff : m-a.key.range.start+(p.offset-m) = p.offset-a.key.range.start := by omega
  rw [hlen,hoff] at hmap
  simp only [cell,hlim,Prod.mk.injEq,and_true]
  exact hmap

lemma mapping_cutTo (hlo : a.key.range.start < m) (hhi : m ≤ a.key.range.stop) (hp : Covers (cutTo a m sequence) p) :
    extentMapping (cutTo a m sequence) p = extentMapping a p := by
  obtain ⟨hs,-,hv⟩ := h
  obtain ⟨-,hsp,hpm⟩ := covers_extentKey.mp hp
  have hsp : a.key.range.start ≤ p.offset := hsp
  have hpm : p.offset < m := hpm
  have hle : m-a.key.range.start ≤ a.key.range.stop-a.key.range.start := by omega
  have hlt : p.offset-a.key.range.start < m-a.key.range.start := by omega
  exact (ExtentValue.shrunk_spec hv (Nat.dvd_sub hm hs) (by omega) hle).2 _ hlt

end

end

end Cut

lemma mergeExtents_cases (hattr : a.key.objectId = b.key.objectId ∧ a.key.attributeId = b.key.attributeId) (hij : i ≠ j)
    (hlt : j < i → a.key.range.start < b.key.range.start) :
    let deletions := a.value = .none ∧ b.value = .none ∧ ((i : ℤ)-j).natAbs = 1
    let sequence := min a.sequence b.sequence
    mergeExtents ⟨i,a⟩ ⟨j,b⟩ = .emitLeft ∧ a.key.range.stop ≤ b.key.range.start ∨
    mergeExtents ⟨i,a⟩ ⟨j,b⟩ = .other none .keep .discard ∧ b.key.range.stop ≤ a.key.range.stop ∧ (i < j ∨ deletions) ∨
    mergeExtents ⟨i,a⟩ ⟨j,b⟩ = .other none .keep (.replace (cutFrom b a.key.range.stop sequence)) ∧
      b.key.range.start < a.key.range.stop ∧ a.key.range.stop < b.key.range.stop ∧ i < j ∨
    mergeExtents ⟨i,a⟩ ⟨j,b⟩ = .other none .discard (.replace
        ⟨⟨a.key.objectId,a.key.attributeId,⟨a.key.range.start,b.key.range.stop⟩⟩,.none,sequence⟩) ∧
      b.key.range.start ≤ a.key.range.stop ∧ a.key.range.stop < b.key.range.stop ∧ deletions ∨
    mergeExtents ⟨i,a⟩ ⟨j,b⟩ = .other (some (cutTo a b.key.range.start sequence))
        (.replace (cutFrom a b.key.range.start sequence)) .keep ∧
      a.key.range.start < b.key.range.start ∧ b.key.range.start < a.key.range.stop ∧ j < i := by
  intro deletions sequence
  have hsame : ¬(a.key.objectId ≠ b.key.objectId ∨ a.key.attributeId ≠ b.key.attributeId) := by
    simp [hattr.1,hattr.2]
  by_cases hdel : deletions
  · have heq : mergeExtents ⟨i,a⟩ ⟨j,b⟩ = mergeDeletedExtents ⟨i,a⟩ ⟨j,b⟩ := by
      simp only [mergeExtents]
      rw [if_neg hsame,if_pos hdel]
    rw [heq]
    by_cases h : a.key.range.stop < b.key.range.start
    · exact .inl ⟨by simp [mergeDeletedExtents,h],h.le⟩
    · by_cases h' : a.key.range.stop ≥ b.key.range.stop
      · exact .inr (.inl ⟨by simp only [mergeDeletedExtents,h,if_false,h',if_true],h',.inr hdel⟩)
      · exact .inr (.inr (.inr (.inl ⟨by
          simp only [mergeDeletedExtents,h,if_false,h']; rfl,by omega,by omega,hdel⟩)))
  · simp only [mergeExtents]
    rw [if_neg hsame,if_neg hdel]
    by_cases h : a.key.range.stop ≤ b.key.range.start
    · exact .inl ⟨if_pos h,h⟩
    · rw [if_neg h]
      by_cases hji : j < i
      · exact .inr (.inr (.inr (.inr ⟨if_pos hji,hlt hji,by omega,hji⟩)))
      · rw [if_neg hji]
        by_cases h' : a.key.range.stop ≥ b.key.range.stop
        · exact .inr (.inl ⟨if_pos h',h',.inl (by omega)⟩)
        · refine .inr (.inr (.inl ⟨?_,by omega,by omega,by omega⟩))
          rw [if_neg h',hattr.1,hattr.2]
          rfl

lemma lo_extentItem (a : ExtentItem) : lo a = point a.key.objectId a.key.attributeId a.key.range.start := rfl
lemma hi_extentItem (a : ExtentItem) : hi a = point a.key.objectId a.key.attributeId a.key.range.stop := rfl

lemma adjacent_of_abs {is : List ℕ} (hidx : (i::j::is).Nodup) (habs : ((i : ℤ)-j).natAbs = 1) : Adjacent i j is := by
  intro k hk
  simp only [nodup_cons,mem_cons,not_or] at hidx
  have hki : k ≠ i := fun h => hidx.1.2 (h ▸ hk)
  have hkj : k ≠ j := fun h => hidx.2.1 (h ▸ hk)
  omega

lemma mergeExtents_other {blockSize : ℕ} {emit : Option ExtentItem} {left right : ItemOp ExtentKey ExtentValue}
    (hv : (extentView blockSize).Valid ((i,a::t)::(j,b::u)::cs)) (hab : NotAfter i a j b) (hge : AllGe (lo b) cs)
    (hm : mergeExtents ⟨i,a⟩ ⟨j,b⟩ = .other emit left right) :
    (extentView blockSize).Outcome ((i,a::t)::(j,b::u)::cs) emit (applyOp j b u right++(applyOp i a t left++cs)) := by
  obtain ⟨hva,hvb,-,hidx⟩ := valid_two.mp hv
  obtain ⟨hnea,hga,-⟩ := validCursor_cons.mp hva
  obtain ⟨hneb,hgb,-⟩ := validCursor_cons.mp hvb
  have hidx : (i::j::cs.map Prod.fst).Nodup := hidx
  have hij : i ≠ j := by
    simp only [nodup_cons,mem_cons,not_or] at hidx
    exact hidx.1.1
  have hattr : a.key.objectId = b.key.objectId ∧ a.key.attributeId = b.key.attributeId := by
    by_contra h
    rw [Classical.not_and_iff_not_or_not] at h
    simp [mergeExtents,h] at hm
  have hlo := hab.lo_le
  have hlt : j < i → a.key.range.start < b.key.range.start := by
    simp only [NotAfter,lo_extentItem,point_lt_point,point_inj] at hab
    omega
  have hs : a.key.range.start ≤ b.key.range.start := by
    rw [lo_extentItem,lo_extentItem,point_le_point] at hlo
    omega
  have hsa : a.key.range.start < a.key.range.stop := by
    rw [lo_extentItem,hi_extentItem,point_lt_point] at hnea
    omega
  have hsb : b.key.range.start < b.key.range.stop := by
    rw [lo_extentItem,hi_extentItem,point_lt_point] at hneb
    omega
  have hbi : ∀ x,point a.key.objectId a.key.attributeId x = point b.key.objectId b.key.attributeId x := by
    intro x
    rw [hattr.1,hattr.2]
  rcases mergeExtents_cases hattr hij hlt with h | h | h | h | h <;> rw [h.1] at hm <;> cases hm
  · apply silent_eclipse hv hlo
    · rw [hi_extentItem,hi_extentItem,hbi,point_le_point]
      omega
    · exact h.2.2.imp_right fun hd => ⟨hd.1,hd.2.1,adjacent_of_abs hidx hd.2.2⟩
  · obtain ⟨-,hov,hstop,hij⟩ := h
    apply silent_truncate hv hij hlo
    · rw [hi_extentItem,lo_extentItem,hbi,point_le_point]
      omega
    · rw [hi_extentItem,hi_extentItem,hbi,point_lt_point]
      omega
    · exact (hbi _).symm
    · rfl
    · exact good_cutFrom hgb hga.2.1 hov.le hstop
    · show b.key.range.stop-a.key.range.stop < b.key.range.stop-b.key.range.start
      omega
    · intro p hp
      exact cell_cutFrom hgb hga.2.1 hov.le hstop hp
  · obtain ⟨-,hov,hstop,hda,hdb,habs⟩ := h
    apply silent_coalesce hv (adjacent_of_abs hidx habs) hda hdb rfl hlo
    · rw [hi_extentItem,lo_extentItem,hbi,point_le_point]
      omega
    · rw [hi_extentItem,hi_extentItem,hbi,point_lt_point]
      omega
    · rfl
    · exact hbi _
    · exact ⟨hga.1,hgb.2.1,trivial⟩
    · show b.key.range.stop-a.key.range.start ≤ a.key.range.stop-a.key.range.start+(b.key.range.stop-b.key.range.start)
      omega
  · obtain ⟨-,hst,hov,hji⟩ := h
    constructor
    · apply emits_split hv hge
      · rw [lo_extentItem,lo_extentItem,hbi,point_lt_point]
        omega
      · rw [lo_extentItem,hi_extentItem,hbi,point_lt_point]
        omega
      · rfl
      · exact hbi _
      · exact hbi _
      · rfl
      · exact good_cutTo hga hgb.1 hst hov.le
      · exact good_cutFrom hga hgb.1 hst.le hov
      · show a.key.range.stop-b.key.range.start < a.key.range.stop-a.key.range.start
        omega
      · intro p hp
        exact mapping_cutTo hga hgb.1 hst hov.le hp
      · intro p hp
        exact cell_cutFrom hga hgb.1 hst.le hov hp
    · exact ⟨(j,b::u),by simp [applyOp],b,by simp,(hbi _).symm⟩

lemma mergeExtents_law (blockSize : ℕ) : MergeLaw (extentView blockSize) mergeExtents where
  indexed_perm h := h.nodup_iff.mp
  indexed_tail h := (nodup_cons.mp h).2
  view_perm h hd := (newest_perm (h.map _) _).mp hd
  covered {i a t cs p} _ hp := by
    apply newest_exists (i := i) (v := cell a p)
    simp [entry,cellAt_of_covers hp]
  shows {i a t cs p d} _ hge hp hd := by
    have hd : Newest (((i,a::t)::cs).map (entry p)) d := hd
    rw [map_cons,entry,cellAt_of_covers hp] at hd
    have hda := newest_head hge hp.2 hd
    subst hda
    exact ⟨rfl,fun l hl => (limit_eq hl).ge⟩
  other {i a t cs p d} _ hp := by
    show Newest _ d ↔ Newest _ d
    rw [newest_leftover,map_cons,entry,cellAt_of_not_covers hp]
  emitLeft {i j a b t u cs} hv hab hm := by
    have hidx : (i::j::cs.map Prod.fst).Nodup := (valid_two.mp hv).2.2.2
    simp only [nodup_cons,mem_cons,not_or] at hidx
    have hle := hab.lo_le
    rw [lo_extentItem,lo_extentItem,point_le_point] at hle
    rw [hi_extentItem,lo_extentItem,point_le_point]
    by_cases hattr : a.key.objectId = b.key.objectId ∧ a.key.attributeId = b.key.attributeId
    · have hlt : j < i → a.key.range.start < b.key.range.start := by
        simp only [NotAfter,lo_extentItem,point_lt_point,point_inj] at hab
        omega
      rcases mergeExtents_cases hattr hidx.1.1 hlt with h | h | h | h | h <;> rw [h.1] at hm
      · exact .inr ⟨hattr.1,.inr ⟨hattr.2,h.2⟩⟩
      all_goals simp at hm
    · omega
  merges hv hab hge hm := mergeExtents_other hv hab hge hm

/-! Reading the extent tree: what the layers say about a point, newest layer
first, and that a merge of all of them says the same. -/

open SkipListLayer

/-- Ascending, disjoint and non-empty extents on block boundaries, with checksums
for blocks or whole parts of blocks. -/
def IsExtentLayer (blockSize : ℕ) (layer : List ExtentItem) : Prop :=
  Ascending layer ∧ ∀ i ∈ layer,blockSize ∣ i.key.range.start ∧ blockSize ∣ i.key.range.stop ∧
    i.value.PerBlock blockSize (i.key.range.stop-i.key.range.start)

instance (blockSize : ℕ) (layer : List ExtentItem) : Decidable (IsExtentLayer blockSize layer) :=
  inferInstanceAs (Decidable (_ ∧ _))

/-- What a list of extents maps a point to, if one of them covers it. -/
def lookup (layer : List ExtentItem) (p : Point) : Option Mapping :=
  (find layer p).map fun i => extentMapping i p

/-- What the newest layer that covers a point maps it to. -/
def newestMapping (layers : List (List ExtentItem)) (p : Point) : Option Mapping :=
  layers.findSome? fun layer => lookup layer p

def newestCell (layers : List (List ExtentItem)) (p : Point) : Option Cell :=
  layers.findSome? fun layer => cellAt layer p

lemma newestMapping_eq (layers : List (List ExtentItem)) (p : Point) :
    newestMapping layers p = (newestCell layers p).map Prod.fst := by
  induction layers with
  | nil => rfl
  | cons layer layers ih =>
    have hlookup : lookup layer p = (cellAt layer p).map Prod.fst := by
      simp [lookup,cellAt,cell,Function.comp_def]
    simp only [newestMapping,newestCell,findSome?_cons,hlookup] at ih ⊢
    cases cellAt layer p with
    | none => simpa using ih
    | some c => simp

variable {B : Type}

lemma zipIdx_index_eq {bs : List B} (hlen : bs.length ≤ 2^16) {b : B × ℕ} (hb : b ∈ bs.zipIdx) : b.2 % 2^16 = b.2 := by
  have h := snd_lt_of_mem_zipIdx hb
  exact Nat.mod_eq_of_lt (by omega)

variable {layers : List (List ExtentItem)}

lemma view_layerCursors (hlen : layers.length ≤ 2^16) (p : Point) (d : Cell) :
    Newest ((layerCursors layers).map (entry p)) d ↔ newestCell layers p = some d := by
  have hmap : (layers.zipIdx.map fun l => (l.2 % 2^16,cellAt l.1 p)) =
      layers.zipIdx.map fun l => (l.2,cellAt l.1 p) := by
    apply map_congr_left
    intro l hl
    rw [zipIdx_index_eq hlen hl]
  -- layers with nothing left may be dropped from the heap
  refine Iff.trans (newest_congr (fun i v => ?_) d) (newest_zipIdx (fun layer => cellAt layer p) _ 0 d)
  rw [← hmap]
  simp only [layerCursors,mem_map,mem_flatMap,mem_leftover,entry,Prod.mk.injEq]
  constructor
  · rintro ⟨c,⟨b,hb,-,rfl⟩,hi,hv⟩
    exact ⟨b,hb,hi,hv⟩
  · rintro ⟨b,hb,hi,hv⟩
    refine ⟨_,⟨b,hb,?_,rfl⟩,hi,hv⟩
    intro h
    simp [h,cellAt] at hv

lemma map_fst_leftover_sublist (bs : List B) (f : B → ℕ) (g : B → List ExtentItem) :
    ((bs.flatMap fun b => leftover (f b) (g b)).map Prod.fst).Sublist (bs.map f) := by
  induction bs with
  | nil => simp
  | cons b bs ih =>
    simp only [flatMap_cons,map_append,map_cons]
    cases hg : g b with
    | nil => simpa [leftover] using ih.cons (f b)
    | cons a t => simpa [leftover] using ih

lemma map_index_zipIdx (hlen : layers.length ≤ 2^16) :
    (layers.zipIdx.map fun l => l.2 % 2^16) = range layers.length := by
  rw [map_congr_left fun l hl => zipIdx_index_eq hlen hl]
  simp [zipIdx_map_snd,range_eq_range']

variable {blockSize : ℕ}

lemma valid_layerCursors (hlen : layers.length ≤ 2^16) (hlayers : ∀ l ∈ layers,IsExtentLayer blockSize l) :
    (extentView blockSize).Valid (layerCursors layers) := by
  constructor
  · intro c hc
    obtain ⟨l,hl,hc⟩ := mem_flatMap.mp hc
    obtain ⟨hne,rfl⟩ := mem_leftover.mp hc
    obtain ⟨hasc,hgood⟩ := hlayers l.1 (fst_mem_of_mem_zipIdx hl)
    exact ⟨hne,hasc,hgood⟩
  · apply (map_fst_leftover_sublist _ _ _).nodup
    rw [map_index_zipIdx hlen]
    exact nodup_range

lemma lookup_of_yields {cs : List (Cursor ExtentKey ExtentValue)} {out : List ExtentItem}
    (hy : (extentView blockSize).Yields cs out) (p : Point) {r : Option Cell}
    (hr : ∀ d,Newest (cs.map (entry p)) d ↔ r = some d) : lookup out p = r.map Prod.fst := by
  cases hf : find out p with
  | none =>
    have hnone : r = none := by
      apply Option.eq_none_iff_forall_not_mem.mpr
      intro d hd
      have hrest := (hy.rest p d (find_eq_none_iff.mp hf)).mp ((hr d).mpr hd)
      exact newest_nil d hrest
    simp [lookup,hf,hnone]
  | some e =>
    obtain ⟨he,hp⟩ := mem_of_find_eq_some hf
    obtain ⟨d,hd⟩ := hy.covered e he p hp
    have hshow := (hy.shows e he p d hp hd).1
    simp [lookup,hf,(hr d).mp hd,hshow]

/-- A full merge of the extent tree ends with ascending, disjoint extents that
map every point as the newest covering layer does. -/
theorem mergeExtents_full {blockSize : ℕ} {layers : List (List ExtentItem)}
    (hlen : layers.length ≤ 2^16) (hlayers : ∀ l ∈ layers,IsExtentLayer blockSize l) :
    ∃ out,(∃ n,∀ fuel ≥ n,mergeFrom mergeExtents fuel layers .unbounded = some out) ∧
      Ascending out ∧ ∀ p,lookup out p = newestMapping layers p := by
  obtain ⟨out,hy,hrun⟩ :=
    mergeFrom_unbounded (mergeExtents_law blockSize) (valid_layerCursors hlen hlayers)
  refine ⟨out,⟨_,fun fuel hfuel => hrun fuel hfuel⟩,hy.ascending,fun p => ?_⟩
  rw [newestMapping_eq]
  exact lookup_of_yields hy p fun d => view_layerCursors hlen p d

def twoLayers : List (List ExtentItem) := [[⟨⟨1,0,⟨4096,8192⟩⟩,.some 40960 .none 0,0⟩],
   [⟨⟨1,0,⟨0,12288⟩⟩,.some 0 (.fletcher [7,8,9]) 0,0⟩]]

theorem mergeExtents_full_twoLayers :
    ∃ out,(∃ n,∀ fuel ≥ n,mergeFrom mergeExtents fuel twoLayers .unbounded = some out) ∧
      Ascending out ∧ ∀ p,lookup out p = newestMapping twoLayers p :=
  @mergeExtents_full 4096 twoLayers (by decide) (by decide)

/-- A key that is not past any extent that may overlap. -/
def ExtentKey.keyForMergeInto (key : ExtentKey) : ExtentKey :=
  ⟨key.objectId,key.attributeId,⟨0,key.range.start⟩⟩

lemma lookup_append (l r : List ExtentItem) (p : Point) : lookup (l++r) p = (lookup l p).or (lookup r p) := by
  simp [lookup,find,Option.map_or]

/-- `merge_into` with `merge_extents` ends, and leaves ascending, disjoint extents that map the
points of the new extent as it does and all others as the layer did. -/
theorem mergeInto_extents {blockSize : ℕ} {layer : List ExtentItem} {item : ExtentItem}
    (h : IsExtentLayer blockSize layer) (hitem : IsExtentLayer blockSize [item]) :
    ∃ out,(∃ n,∀ fuel ≥ n,mergeInto mergeExtents fuel layer item
        item.key.keyForMergeInto = some out) ∧ IsExtentLayer blockSize out ∧
      ∀ p,lookup out p = if Covers item p then some (extentMapping item p) else lookup layer p := by
  obtain ⟨before,rest,merged,rfl,hleft,hy,hasc,hgood,hrun⟩ := mergeInto_yields
    (mergeExtents_law blockSize) (fun _ h => h) item.key.keyForMergeInto h.1 h.2
    (hitem.1.1 item (by simp)) (hitem.2 item (by simp)) le_rfl
  refine ⟨before++merged,⟨_,hrun⟩,⟨hasc,hgood⟩,fun p => ?_⟩
  have hcursors : (layerCursors [[item],rest]).Perm (leftover 1 rest++leftover 0 [item]) := by
    simpa [layerCursors,zipIdx_cons] using perm_append_comm
  have hmerged : lookup merged p = (lookup [item] p).or (lookup rest p) := by
    rw [lookup_of_yields ((mergeExtents_law blockSize).yields_perm hcursors hy) p
      fun d => view_layerCursors (by simp) p d,← newestMapping_eq]
    cases hl : lookup [item] p <;> simp [newestMapping,hl]
  rw [lookup_append,hmerged,lookup_append]
  split_ifs with hp
  · have hbefore : find before p = none :=
      find_eq_none_iff.mpr fun i hi hip => absurd (hip.2.trans_le (hleft i hi)) hp.1.not_gt
    simp [lookup,hbefore,find_cons_of_covers [] hp]
  · simp [lookup,find_cons_of_not_covers [] hp]

theorem mergeInto_extents_cut : ∃ out,(∃ n,∀ fuel ≥ n,mergeInto mergeExtents fuel
      [⟨⟨1,0,⟨0,12288⟩⟩,.some 0 (.fletcher [7,8,9]) 0,0⟩]
      ⟨⟨1,0,⟨4096,8192⟩⟩,.some 40960 .none 0,0⟩ ⟨1,0,⟨0,4096⟩⟩ = some out) ∧
    IsExtentLayer 4096 out ∧ ∀ p,lookup out p =
      if Covers (⟨⟨1,0,⟨4096,8192⟩⟩,.some 40960 .none 0,0⟩ : ExtentItem) p then
        some (extentMapping ⟨⟨1,0,⟨4096,8192⟩⟩,.some 40960 .none 0,0⟩ p)
      else lookup [⟨⟨1,0,⟨0,12288⟩⟩,.some 0 (.fletcher [7,8,9]) 0,0⟩] p :=
  mergeInto_extents (by decide) (by decide)

def ExtentValue.EvenlyDivided (len : ℕ) : ExtentValue → Prop
  | .some _ (.fletcher sums) _ => sums.length ∣ len
  | _ => True

instance (len : ℕ) (v : ExtentValue) : Decidable (v.EvenlyDivided len) := by
  unfold ExtentValue.EvenlyDivided
  split <;> infer_instance

def coarseLayers : List (List ExtentItem) := [[⟨⟨1,0,⟨4096,8192⟩⟩,.some 40960 .none 0,0⟩],
   [⟨⟨1,0,⟨0,8192⟩⟩,.some 0 (.fletcher [7]) 0,0⟩]]

/-- A checksum for more than one block is lost where its extent is split. -/
theorem mergeExtents_coarse_checksum_lost :
    (∀ l ∈ coarseLayers,Ascending l ∧ ∀ i ∈ l,4096 ∣ i.key.range.start ∧ 4096 ∣ i.key.range.stop ∧
        i.value.EvenlyDivided (i.key.range.stop-i.key.range.start)) ∧
    ∃ out,(∀ fuel ≥ 20,mergeFrom mergeExtents fuel coarseLayers .unbounded = some out) ∧
      lookup out (point 1 0 0) = some (.data 0 0 none) ∧
      newestMapping coarseLayers (point 1 0 0) = some (.data 0 0 (some (7,8192,0))) := by
  refine ⟨by decide,[⟨⟨1,0,⟨0,4096⟩⟩,.some 0 (.fletcher []) 0,0⟩,
    ⟨⟨1,0,⟨4096,8192⟩⟩,.some 40960 .none 0,0⟩],?_,rfl,rfl⟩
  intro fuel hfuel
  obtain ⟨k,rfl⟩ := Nat.exists_eq_add_of_le' hfuel
  rfl

/-- So it is where a new block is merged into the layer that holds the extent. -/
theorem mergeInto_coarse_checksum_lost : ∃ (layer : List ExtentItem) (item : ExtentItem),
    coarseLayers = [[item],layer] ∧ (∀ l ∈ coarseLayers,Ascending l ∧ ∀ i ∈ l,
      4096 ∣ i.key.range.start ∧ 4096 ∣ i.key.range.stop) ∧ ¬ Covers item (point 1 0 0) ∧
    ∃ out,(∀ fuel ≥ 20,mergeInto mergeExtents fuel layer item
        item.key.keyForMergeInto = some out) ∧ lookup out (point 1 0 0) = some (.data 0 0 none) ∧
      lookup layer (point 1 0 0) = some (.data 0 0 (some (7,8192,0))) := by
  refine ⟨_,_,rfl,by decide,by decide,[⟨⟨1,0,⟨0,4096⟩⟩,.some 0 (.fletcher []) 0,0⟩,
    ⟨⟨1,0,⟨4096,8192⟩⟩,.some 40960 .none 0,0⟩],?_,rfl,rfl⟩
  intro fuel hfuel
  obtain ⟨k,rfl⟩ := Nat.exists_eq_add_of_le' hfuel
  rfl

end Fuchsia.Fxfs
