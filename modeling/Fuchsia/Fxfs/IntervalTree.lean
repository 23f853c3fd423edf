import Fuchsia.Fxfs.Range
import Fuchsia.Lib.Ranges
import Fuchsia.Lib.Fallible

/-! The interval tree of `storage/lib/interval_tree`: intervals with properties, merged
where they touch and have the same ones. The tree is the list of its intervals in the
order of their starts. -/
namespace Fuchsia.Fxfs

namespace Range

def overlaps (a b : Range) : Prop := max a.start b.start < min a.stop b.stop

def isAdjacent (a b : Range) : Prop := min a.stop b.stop = max a.start b.start

def containsRange (a b : Range) : Prop :=
  ¬(a.stop ≤ a.start ∨ b.stop ≤ b.start) ∧ a.start ≤ b.start ∧ b.stop ≤ a.stop

def isValid (a : Range) : Prop := a.start < a.stop

/-- `is_mergeable` of two ranges. -/
def touches (a b : Range) : Prop := a.overlaps b ∨ a.isAdjacent b

def merge (a b : Range) : Range := ⟨min a.start b.start,max a.stop b.stop⟩

instance (a b : Range) : Decidable (a.overlaps b) := inferInstanceAs (Decidable (_ < _))
instance (a b : Range) : Decidable (a.isAdjacent b) := inferInstanceAs (Decidable (_ = _))
instance (a b : Range) : Decidable (a.containsRange b) := inferInstanceAs (Decidable (_ ∧ _))
instance (a : Range) : Decidable a.isValid := inferInstanceAs (Decidable (_ < _))
instance (a b : Range) : Decidable (a.touches b) := inferInstanceAs (Decidable (_ ∨ _))

end Range

/-- A range with properties, of which two merge if and only if they are equal. -/
structure Interval (P : Type) where
  range : Range
  properties : P
  deriving DecidableEq,Repr

namespace IntervalTree

open Fallible

inductive Error
  | invalidRange
  | assertion
  deriving DecidableEq,Repr

variable {P : Type} [DecidableEq P] (overrides : P → P → Bool)

def piece (a : Interval P) (start stop : ℕ) : Interval P := ⟨⟨start,stop⟩,a.properties⟩

/-- `split_or_merge`: what is pushed to the result, and what remains of `self`. -/
def splitOrMerge (self other : Interval P) :
    Except Error (List (Interval P) × Option (Interval P)) :=
  if ¬self.range.touches other.range then .error .assertion
  else if self.properties = other.properties then
    .ok ([],some ⟨self.range.merge other.range,self.properties⟩)
  else if self.range.isAdjacent other.range then .ok ([other],some self)
  else if overrides self.properties other.properties then
    if self.range.containsRange other.range then .ok ([],some self)
    else .ok ((if other.range.start < self.range.start then
        [piece other other.range.start self.range.start] else [])++
      (if self.range.stop < other.range.stop then
        [piece other self.range.stop other.range.stop] else []),some self)
  else if other.range.containsRange self.range ∨ self.range = other.range then
    .ok ([other],none)
  else .ok ((if self.range.start < other.range.start then
      [piece self self.range.start other.range.start] else [])++[other],
    if other.range.stop < self.range.stop then
      some (piece self other.range.stop self.range.stop) else none)

/-- `difference`: what is left of `self`, and what is taken out of it. -/
def difference (self : Interval P) (other : Range) :
    Except Error (List (Interval P) × Option (Interval P)) :=
  let range := self.range
  if ¬range.overlaps other then .ok ([self],none)
  else if other.containsRange range then .ok ([],some self)
  else if range.containsRange other then
    .ok ((if range.start < other.start then [piece self range.start other.start] else [])++
      (if other.stop < range.stop then [piece self other.stop range.stop] else []),
      some (piece self other.start other.stop))
  else if range.start < other.start then
    .ok ([piece self range.start other.start],some (piece self other.start range.stop))
  else if other.start < range.start then
    .ok ([piece self other.stop range.stop],some (piece self range.start other.stop))
  else .error .assertion

/-- Insertion into the map, which is keyed by the start. -/
def insertAt (a : Interval P) : List (Interval P) → List (Interval P)
  | [] => [a]
  | b::rest =>
    if a.range.start < b.range.start then a::b::rest
    else if a.range.start = b.range.start then a::rest
    else b::insertAt a rest

def affected (tree : List (Interval P)) (range : Range) : List (Interval P) :=
  tree.filter fun a => range.touches a.range

/-- The tree that `remove_affected` leaves. -/
def removeAffected (tree : List (Interval P)) (range : Range) : List (Interval P) :=
  (affected tree range).foldl (fun t a => t.filter fun b => b.range.start ≠ a.range.start) tree

/-- The loop of `insert_interval` over the affected intervals, with the index of the
present one and the number of them. -/
def insertLoop (current : Interval P) (count : ℕ) : ℕ → List (Interval P) →
    Option (Interval P) → Except Error (List (Interval P) × Option (Interval P))
  | _,[],remaining => .ok ([],remaining)
  | i,other::rest,none => do
    require .assertion (current.range.touches other.range)
    let (intervals,last) ← insertLoop current count (i+1) rest none
    return (other::intervals,last)
  | i,other::rest,some r => do
    require .assertion (current.range.touches other.range)
    let (pushed,remaining) ← splitOrMerge overrides r other
    require .assertion (remaining.isSome ∨ count-2 ≤ i)
    let (intervals,last) ← insertLoop current count (i+1) rest remaining
    return (pushed++intervals,last)

def addInterval (tree : List (Interval P)) (current : Interval P) :
    Except Error (List (Interval P)) := do
  require .invalidRange current.range.isValid
  let others := affected tree current.range
  let (intervals,last) ← insertLoop overrides current others.length 0 others (some current)
  return (intervals++last.toList).foldl (fun t a => insertAt a t)
    (removeAffected tree current.range)

def addIntervals : List (Interval P) → List (Interval P) → Except Error (List (Interval P))
  | tree,[] => .ok tree
  | tree,a::rest => do
    let tree ← addInterval overrides tree a
    addIntervals tree rest

def removeLoop (range : Range) (predicate : Interval P → Bool) :
    List (Interval P) → List (Interval P) → Except Error (List (Interval P) × List (Interval P))
  | tree,[] => .ok (tree,[])
  | tree,a::rest =>
    if predicate a then do
      let (remainings,removed) ← difference a range
      let tree ← addIntervals overrides tree remainings
      let (tree,others) ← removeLoop range predicate tree rest
      return (tree,removed.toList++others)
    else do
      let tree ← addInterval overrides tree a
      removeLoop range predicate tree rest

def removeMatchingInterval (tree : List (Interval P)) (range : Range)
    (predicate : Interval P → Bool) : Except Error (List (Interval P) × List (Interval P)) := do
  require .invalidRange range.isValid
  removeLoop overrides range predicate (removeAffected tree range) (affected tree range)

def removeInterval (tree : List (Interval P)) (range : Range) :
    Except Error (List (Interval P) × List (Interval P)) :=
  removeMatchingInterval overrides tree range fun _ => true

def getIntervals (tree : List (Interval P)) (range : Range) : Except Error (List (Interval P)) := do
  require .invalidRange range.isValid
  return tree.filter fun a => range.overlaps a.range

end IntervalTree
end Fuchsia.Fxfs
