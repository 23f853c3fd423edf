import Fuchsia.Lib.Ranges

/-! The LSM tree's merger (`lsm_tree/merge.rs`, `lsm_tree/types.rs`). A layer is
the list of its items in key order and a layer iterator is the suffix it has not
passed yet. Loops carry fuel; `none` stands for a panic or for fuel running out. -/
namespace Fuchsia.Fxfs

structure Item (K V : Type) where
  key : K
  value : V
  sequence : ℕ
  deriving DecidableEq,Repr

/-- The comparisons and the successor that the `OrdUpperBound`, `OrdLowerBound`
and `NextKey` traits provide. -/
class Key (K : Type) where
  cmpUpperBound : K → K → Ordering
  cmpLowerBound : K → K → Ordering
  nextKey : K → Option K

open Key

inductive Bound (K : Type)
  | unbounded
  | included (key : K)
  | excluded (key : K)

inductive ItemOp (K V : Type)
  | keep
  | discard
  | replace (item : Item K V)
  deriving DecidableEq,Repr

inductive MergeResult (K V : Type)
  | emitLeft
  | other (emit : Option (Item K V)) (left right : ItemOp K V)
  deriving DecidableEq,Repr

structure LayerItem (K V : Type) where
  layerIndex : ℕ
  item : Item K V

abbrev MergeFn (K V : Type) := LayerItem K V → LayerItem K V → MergeResult K V

variable {K V : Type} [Key K]

/-- `Layer::seek`: the first item at or (for an excluded bound) above the key. -/
def seekLayer (layer : List (Item K V)) : Bound K → List (Item K V)
  | .unbounded => layer
  | .included key => layer.dropWhile fun i => cmpUpperBound i.key key == .lt
  | .excluded key => layer.dropWhile fun i => cmpUpperBound i.key key != .gt

inductive MergeItem (K V : Type)
  | none
  | item (i : Item K V)
  | iter

structure MergeLayerIterator (K V : Type) where
  layer : List (Item K V)
  iter : List (Item K V)
  layerIndex : ℕ
  item : MergeItem K V

namespace MergeLayerIterator

/-- Layer indices are `u16`. -/
def new (layerIndex : ℕ) (layer : List (Item K V)) : MergeLayerIterator K V :=
  ⟨layer,[],layerIndex % 2^16,.none⟩

/-- `MergeLayerIterator::item`, which panics where this is `none`. -/
def current (it : MergeLayerIterator K V) : Option (Item K V) :=
  match it.item with
  | .none => none
  | .item i => some i
  | .iter => it.iter.head?

def setItemFromIter (it : MergeLayerIterator K V) : MergeLayerIterator K V :=
  { it with item := if it.iter.isEmpty then .none else .iter }

def advance (it : MergeLayerIterator K V) : MergeLayerIterator K V :=
  match it.item with
  | .iter => setItemFromIter { it with iter := it.iter.tail }
  | _ => setItemFromIter it

def replace (it : MergeLayerIterator K V) (i : Item K V) : MergeLayerIterator K V :=
  { it with item := .item i }

def isSome (it : MergeLayerIterator K V) : Bool :=
  match it.item with
  | .none => false
  | _ => true

def maybeAdvance (it : MergeLayerIterator K V) : ItemOp K V → MergeLayerIterator K V
  | .keep => it
  | _ => it.advance

end MergeLayerIterator

/-- The heap order: by lower bound, then by layer index. -/
def isLower (a b : MergeLayerIterator K V) : Bool :=
  match a.current,b.current with
  | some x,some y =>
    (cmpLowerBound x.key y.key).then (compare a.layerIndex b.layerIndex) == .lt
  | _,_ => false

/-- `BinaryHeap::pop` on the reversed order. -/
def popLowest : List (MergeLayerIterator K V) →
    Option (MergeLayerIterator K V × List (MergeLayerIterator K V))
  | [] => none
  | it::its =>
    match popLowest its with
    | none => some (it,[])
    | some (lowest,rest) =>
      if isLower lowest it then some (lowest,it::rest) else some (it,lowest::rest)

inductive CurrentItem (K V : Type)
  | none
  | item (i : Item K V)
  | iterator (it : MergeLayerIterator K V)

def CurrentItem.get : CurrentItem K V → Option (Item K V)
  | .none => Option.none
  | .item i => some i
  | .iterator it => it.current

/-- `pendingIterators` lists the layers not yet on the heap, next one first. -/
structure MergerIterator (K V : Type) where
  pendingIterators : List (MergeLayerIterator K V)
  heap : List (MergeLayerIterator K V)
  item : CurrentItem K V

def MergerIterator.get (m : MergerIterator K V) : Option (Item K V) := m.item.get

def pushIfSome (heap : List (MergeLayerIterator K V)) (it : MergeLayerIterator K V) :
    List (MergeLayerIterator K V) :=
  if it.isSome then it::heap else heap

def updateItem (heap : List (MergeLayerIterator K V)) (it : MergeLayerIterator K V) :
    ItemOp K V → List (MergeLayerIterator K V)
  | .keep => it::heap
  | .discard => pushIfSome heap it
  | .replace i => it.replace i::heap

/-- One pass of the inner loop of `advance_impl`. -/
inductive MergeStep (K V : Type)
  | exhausted
  | again (heap : List (MergeLayerIterator K V))
  | yielded (item : CurrentItem K V) (heap : List (MergeLayerIterator K V))

def mergeStep (mergeFn : MergeFn K V) (heap : List (MergeLayerIterator K V)) :
    Option (MergeStep K V) :=
  match popLowest heap with
  | none => some .exhausted
  | some (lowest,rest) =>
    match popLowest rest with
    | none => some (.yielded (.iterator lowest) rest)
    | some (secondLowest,rest) =>
      match lowest.current,secondLowest.current with
      | some a,some b =>
        match mergeFn ⟨lowest.layerIndex,a⟩ ⟨secondLowest.layerIndex,b⟩ with
        | .emitLeft => some (.yielded (.iterator lowest) (secondLowest::rest))
        | .other emit left right =>
          let heap := updateItem (updateItem rest (lowest.maybeAdvance left) left)
            (secondLowest.maybeAdvance right) right
          match emit with
          | some e => some (.yielded (.item e) heap)
          | none => some (.again heap)
      | _,_ => none

def withinBound (key : K) : Bound K → Bool
  | .unbounded => true
  | .included bound => cmpUpperBound key bound != .lt
  | .excluded bound => cmpUpperBound key bound == .gt

def settle (heap : List (MergeLayerIterator K V)) :
    CurrentItem K V → List (MergeLayerIterator K V)
  | .iterator it => pushIfSome heap it.advance
  | _ => heap

def MergerIterator.advanceImpl (mergeFn : MergeFn K V) (bound : Bound K) :
    ℕ → MergerIterator K V → Option (MergerIterator K V)
  | 0,_ => none
  | fuel+1,m =>
    match mergeStep mergeFn m.heap with
    | none => none
    | some .exhausted => some { m with heap := [],item := .none }
    | some (.again heap) => advanceImpl mergeFn bound fuel { m with heap := heap }
    | some (.yielded item heap) =>
      match item.get with
      | none => none
      | some i =>
        if withinBound i.key bound then some { m with heap := heap,item := item }
        else advanceImpl mergeFn bound fuel { m with heap := settle heap item,item := .none }

def needsMoreIterators (pending heap : List (MergeLayerIterator K V)) (next : Option K) : Bool :=
  !pending.isEmpty &&
    match (popLowest heap).bind (fun p => p.1.current),next with
    | some i,some key => cmpLowerBound i.key key == .gt
    | _,_ => true

def pushIterators (next : Option K) (bound : Bound K) :
    List (MergeLayerIterator K V) → List (MergeLayerIterator K V) →
      List (MergeLayerIterator K V) × List (MergeLayerIterator K V)
  | [],heap => ([],heap)
  | it::pending,heap =>
    if needsMoreIterators (it::pending) heap next then
      pushIterators next bound pending
        (pushIfSome heap ({ it with iter := seekLayer it.layer bound }.setItemFromIter))
    else (it::pending,heap)

/-- `Merger::seek` on the layers, newest first. -/
def seek (mergeFn : MergeFn K V) (fuel : ℕ) (layers : List (List (Item K V)))
    (bound : Bound K) : Option (MergerIterator K V) :=
  let pending := layers.zipIdx.map fun l => MergeLayerIterator.new l.2 l.1
  let start (next : Option K) :=
    let pushed := pushIterators next bound pending []
    MergerIterator.advanceImpl mergeFn bound fuel ⟨pushed.1,pushed.2,.none⟩
  match bound with
  | .unbounded => start none
  | .included key => start (some key)
  | .excluded _ => none

def MergerIterator.nextBound (m : MergerIterator K V) : Option K × Bound K :=
  if m.pendingIterators.isEmpty then (none,.unbounded)
  else match m.get with
    | none => (none,.unbounded)
    | some i =>
      match nextKey i.key with
      | none => (none,.excluded i.key)
      | some key => (some key,.included key)

def MergerIterator.resume (m : MergerIterator K V) (next : Option K) (bound : Bound K) :
    Option (MergerIterator K V) :=
  match m.item with
  | .iterator it =>
    if needsMoreIterators m.pendingIterators m.heap next then
      match it.current with
      | none => none
      | some existing =>
        let it := it.advance
        let followed : Bool := match next,it.current with
          | some key,some i => cmpLowerBound i.key key != .gt
          | _,_ => false
        if followed then some { m with heap := it::m.heap,item := .none }
        else
          let pushed := pushIterators next bound m.pendingIterators m.heap
          some ⟨pushed.1,it.replace existing::pushed.2,.none⟩
    else some { m with heap := pushIfSome m.heap it.advance,item := .none }
  | item =>
    let pushed := pushIterators next bound m.pendingIterators m.heap
    some ⟨pushed.1,pushed.2,item⟩

def MergerIterator.advance (mergeFn : MergeFn K V) (fuel : ℕ) (m : MergerIterator K V) :
    Option (MergerIterator K V) :=
  let b := m.nextBound
  (m.resume b.1 b.2).bind (advanceImpl mergeFn b.2 fuel)

/-- Every item an iterator yields from its current one on, until `get` is `None`. -/
def MergerIterator.drain (mergeFn : MergeFn K V) (fuel : ℕ) :
    ℕ → MergerIterator K V → Option (List (Item K V))
  | 0,_ => none
  | n+1,m =>
    match m.get with
    | none => some []
    | some i => do
      let m ← m.advance mergeFn fuel
      let is ← drain mergeFn fuel n m
      return i::is

/-- Seek to a bound and iterate to the end. -/
def mergeFrom (mergeFn : MergeFn K V) (fuel : ℕ) (layers : List (List (Item K V)))
    (bound : Bound K) : Option (List (Item K V)) :=
  (seek mergeFn fuel layers bound).bind (MergerIterator.drain mergeFn fuel fuel)

/-! The merger's heap, seen as cursors: a layer index with the items the layer
still has to offer. Whether the first of them sits in the iterator or was put
there by a merge function makes no difference to any operation of the merger. -/

open Ranges Ranged List

variable {K V T : Type}

instance itemRanged [Ranged K T] : Ranged (Item K V) T where
  lo i := lo i.key
  hi i := hi i.key

@[simp] lemma hi_item [Ranged K T] (k : K) (v : V) (s : ℕ) : hi (⟨k,v,s⟩ : Item K V) = hi k := rfl

abbrev Cursor (K V : Type) := ℕ × List (Item K V)

variable {it : MergeLayerIterator K V} {a : Item K V} {t : List (Item K V)}

namespace MergeLayerIterator

def remaining (it : MergeLayerIterator K V) : List (Item K V) :=
  match it.item with
  | .none => []
  | .item i => i::it.iter
  | .iter => it.iter

def cursor (it : MergeLayerIterator K V) : Cursor K V := (it.layerIndex,it.remaining)

variable (it)

@[simp] lemma cursor_snd : it.cursor.2 = it.remaining := rfl

lemma current_eq_head : it.current = it.remaining.head? := by cases h : it.item <;> simp [current,remaining,h]

@[simp] lemma remaining_setItemFromIter : it.setItemFromIter.remaining = it.iter := by
  cases h : it.iter <;> simp [setItemFromIter,remaining,h]

@[simp] lemma isSome_setItemFromIter : it.setItemFromIter.isSome = !it.iter.isEmpty := by
  cases h : it.iter <;> simp [setItemFromIter,isSome,h]

@[simp] lemma layerIndex_advance : it.advance.layerIndex = it.layerIndex := by
  cases h : it.item <;> simp [advance,setItemFromIter,h]

@[simp] lemma layerIndex_replace (i : Item K V) : (it.replace i).layerIndex = it.layerIndex := rfl

variable {it} (h : it.remaining = a::t)
include h

lemma current_eq : it.current = some a := by
  rw [current_eq_head,h]
  rfl

lemma remaining_isSome_advance : it.advance.remaining = t ∧ it.advance.isSome = !t.isEmpty := by
  cases hi : it.item with
  | none => simp [remaining,hi] at h
  | item i =>
    simp only [remaining,hi,cons.injEq] at h
    simp [advance,hi,h.2]
  | iter =>
    simp only [remaining,hi] at h
    simp [advance,hi,h]

lemma remaining_advance : it.advance.remaining = t := (remaining_isSome_advance h).1

lemma isSome_advance : it.advance.isSome = !t.isEmpty := (remaining_isSome_advance h).2

lemma remaining_replace_advance (i : Item K V) : (it.advance.replace i).remaining = i::t := by
  cases hi : it.item <;> simp_all [advance,remaining,setItemFromIter,replace]

end MergeLayerIterator

open MergeLayerIterator

def cursors (heap : List (MergeLayerIterator K V)) : List (Cursor K V) := heap.map cursor

@[simp] lemma cursors_nil : cursors ([] : List (MergeLayerIterator K V)) = [] := rfl
@[simp] lemma cursors_cons (it : MergeLayerIterator K V) (heap : List (MergeLayerIterator K V)) :
    cursors (it::heap) = it.cursor::cursors heap := rfl

def leftover (i : ℕ) (t : List (Item K V)) : List (Cursor K V) := if t.isEmpty then [] else [(i,t)]

/-- The cursors an `ItemOp` leaves of a layer whose items are `a::t`. -/
def applyOp (i : ℕ) (a : Item K V) (t : List (Item K V)) : ItemOp K V → List (Cursor K V)
  | .keep => [(i,a::t)]
  | .discard => leftover i t
  | .replace x => [(i,x::t)]

lemma cursors_pushIfSome (h : it.remaining = a::t) (heap : List (MergeLayerIterator K V)) :
    cursors (pushIfSome heap it.advance) = leftover it.layerIndex t ++ cursors heap := by
  cases t with
  | nil => simp [pushIfSome,isSome_advance h,leftover]
  | cons b t =>
    simp [pushIfSome,isSome_advance h,leftover,cursor,remaining_advance h]

lemma cursors_updateItem (h : it.remaining = a::t) (heap : List (MergeLayerIterator K V)) (op : ItemOp K V) :
    cursors (updateItem heap (it.maybeAdvance op) op) = applyOp it.layerIndex a t op ++ cursors heap := by
  cases op with
  | keep => simp [updateItem,maybeAdvance,applyOp,cursor,h]
  | discard => simpa [updateItem,maybeAdvance,applyOp] using cursors_pushIfSome h heap
  | replace x =>
    simp [updateItem,maybeAdvance,applyOp,cursor,remaining_replace_advance h]

section Heap

variable [LinearOrder T] [Key K] [Ranged K T]

class RangedKey (K T : Type) [LinearOrder T] [Key K] [Ranged K T] : Prop where
  cmpLowerBound_eq : ∀ a b : K,cmpLowerBound a b = compare (lo a) (lo b)
  cmpUpperBound_eq : ∀ a b : K,cmpUpperBound a b = compare (hi a) (hi b)

/-- An item of layer `i` stands no later in the heap order than one of layer `j`. -/
def NotAfter (i : ℕ) (a : Item K V) (j : ℕ) (b : Item K V) : Prop := lo a < lo b ∨ lo a = lo b ∧ i ≤ j

omit [Key K] in
lemma NotAfter.trans {i j k : ℕ} {b c : Item K V} (h : NotAfter i a j b)
    (h' : NotAfter j b k c) : NotAfter i a k c := by
  rcases h with h | ⟨h,hij⟩ <;> rcases h' with h' | ⟨h',hjk⟩
  · exact .inl (h.trans h')
  · exact .inl (h'.symm ▸ h)
  · exact .inl (h ▸ h')
  · exact .inr ⟨h.trans h',hij.trans hjk⟩

omit [Key K] in
lemma NotAfter.lo_le {i j : ℕ} {b : Item K V} (h : NotAfter i a j b) : lo a ≤ lo b := by
  rcases h with h | ⟨h,-⟩
  · exact h.le
  · exact h.le

lemma isLower_iff [RangedKey K T] {x y : MergeLayerIterator K V} {b : Item K V} (hx : x.current = some a)
    (hy : y.current = some b) : isLower x y = true ↔ ¬NotAfter y.layerIndex b x.layerIndex a := by
  have hc : cmpLowerBound a.key b.key = compare (lo a) (lo b) := RangedKey.cmpLowerBound_eq a.key b.key
  simp only [isLower,hx,hy,hc,NotAfter]
  rcases lt_trichotomy (lo a) (lo b) with h | h | h
  · simp [compare_lt_iff_lt.mpr h,h.not_gt,h.ne']
  · simp [h,compare_lt_iff_lt]
  · simp [compare_gt_iff_gt.mpr h,h]

lemma popLowest_eq_none {heap : List (MergeLayerIterator K V)} : popLowest heap = none ↔ heap = [] := by
  cases heap with
  | nil => simp [popLowest]
  | cons it its =>
    cases h : popLowest its with
    | none => simp [popLowest,h]
    | some p =>
      simp only [popLowest,h]
      split_ifs <;> simp

lemma popLowest_spec [RangedKey K T] {heap rest : List (MergeLayerIterator K V)} (hready : ∀ x ∈ heap,x.remaining ≠ [])
    (h : popLowest heap = some (it,rest)) : heap.Perm (it::rest) ∧ ∀ a ∈ it.current,∀ x ∈ rest,∀ b ∈ x.current,
      NotAfter it.layerIndex a x.layerIndex b := by
  induction heap generalizing it rest with
  | nil => simp [popLowest] at h
  | cons y ys ih =>
    simp only [popLowest] at h
    cases hp : popLowest ys with
    | none =>
      rw [popLowest_eq_none] at hp
      subst hp
      simp only [popLowest,Option.some.injEq,Prod.mk.injEq] at h
      obtain ⟨rfl,rfl⟩ := h
      simp
    | some p =>
      obtain ⟨m,ms⟩ := p
      obtain ⟨hperm,hlow⟩ := ih (fun x hx => hready x (by simp [hx])) hp
      have hm : m ∈ ys := hperm.symm.subset (by simp)
      obtain ⟨am,tm,hrm⟩ := exists_cons_of_ne_nil (hready m (by simp [hm]))
      obtain ⟨ay,ty,hry⟩ := exists_cons_of_ne_nil (hready y (by simp))
      have hcm := current_eq hrm
      have hcy := current_eq hry
      have hiff := isLower_iff hcm hcy
      have hms := hlow am hcm
      rw [hp] at h
      simp only at h
      split_ifs at h with hl
      · obtain ⟨rfl,rfl⟩ : m = it ∧ y::ms = rest := by simpa using h
        have hmy : NotAfter m.layerIndex am y.layerIndex ay := by
          have hn := hiff.mp hl
          simp only [NotAfter] at hn ⊢
          grind
        refine ⟨(hperm.cons y).trans (List.Perm.swap _ _ _),?_⟩
        intro a ha x hx b hb
        obtain rfl : am = a := by simpa [hcm] using ha
        rcases mem_cons.mp hx with hx | hx
        · subst hx
          obtain rfl : ay = b := by simpa [hcy] using hb
          exact hmy
        · exact hms x hx b hb
      · obtain ⟨rfl,rfl⟩ : y = it ∧ m::ms = rest := by simpa using h
        have hym : NotAfter y.layerIndex ay m.layerIndex am := by
          by_contra hn
          exact hl (hiff.mpr hn)
        refine ⟨hperm.cons y,?_⟩
        intro a ha x hx b hb
        obtain rfl : ay = a := by simpa [hcy] using ha
        rcases mem_cons.mp hx with hx | hx
        · subst hx
          obtain rfl : am = b := by simpa [hcm] using hb
          exact hym
        · exact hym.trans (hms x hx b hb)

end Heap

end Fuchsia.Fxfs
