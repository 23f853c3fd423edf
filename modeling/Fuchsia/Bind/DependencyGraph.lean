import Fuchsia.Lib.Effect
import Mathlib.Data.List.AList

/-! The dependency graph of the bind compiler. Nodes are addressed by their index; edges are
kept twice, in the children of one end and in the parents of the other. The order in which a hash
set is traversed is not determined, so it is a parameter. -/
namespace Fuchsia.Bind

inductive Node (K V : Type)
  | root
  | data (key : K) (value : V)
  | zombie

inductive DependencyError (K : Type)
  | missingDependency (key : K)
  | circularDependency

structure DependencyGraph (K V : Type) where
  nodes : List (Node K V)
  indices : AList fun _ : K => ℕ
  children : AList fun _ : ℕ => Finset ℕ
  parents : AList fun _ : ℕ => Finset ℕ

/-- An order of traversal for the children of each node. -/
structure Traversal where
  list : ℕ → Finset ℕ → List ℕ
  nodup : ∀ i s,(list i s).Nodup
  mem : ∀ i s x,x ∈ list i s ↔ x ∈ s

def Traversal.ascending : Traversal where
  list _ s := (List.range (s.sup id+1)).filter (· ∈ s)
  nodup _ _ := List.nodup_range.filter _
  mem i s x := by
    simp only [List.mem_filter,List.mem_range,decide_eq_true_eq,and_iff_right_iff_imp]
    intro h
    exact Nat.lt_succ_of_le (Finset.le_sup (f := id) h)

namespace DependencyGraph

variable {K V : Type} [DecidableEq K]

def rootIndex : ℕ := 0

def new : DependencyGraph K V where
  nodes := [.root]
  indices := ∅
  children := ∅
  parents := ∅

/-- What the calls on a graph do: they may fail, and indexing may panic. -/
abbrev Call (K V A : Type) : Type := Effect (DependencyGraph K V) (DependencyError K) A

open Effect

def insertNode (key : K) (value : V) : Call K V Unit := do
  let g ← get
  modify fun g => {g with
    nodes := g.nodes++[.data key value]
    indices := g.indices.insert key g.nodes.length}
  match g.indices.lookup key with
  | none => pure ()
  | some previous =>
    if previous < g.nodes.length+1 then modify fun g => {g with nodes := g.nodes.set previous .zombie}
    else panicked

def getIndex (key : K) : Call K V ℕ := do
  let g ← get
  match g.indices.lookup key with
  | none => throw (.missingDependency key)
  | some index => pure index

def childrenOf (g : DependencyGraph K V) (i : ℕ) : Finset ℕ := (g.children.lookup i).getD ∅

def parentsOf (g : DependencyGraph K V) (i : ℕ) : Finset ℕ := (g.parents.lookup i).getD ∅

def link (g : DependencyGraph K V) (i j : ℕ) : DependencyGraph K V := {g with
  children := g.children.insert i (insert j (g.childrenOf i))
  parents := g.parents.insert j (insert i (g.parentsOf j))}

def insertEdgeFromRoot (target : K) : Call K V Unit := do
  let toIndex ← getIndex target
  modify fun g => g.link rootIndex toIndex

def insertEdge (source target : K) : Call K V Unit := do
  let fromIndex ← getIndex source
  let toIndex ← getIndex target
  modify fun g => g.link fromIndex toIndex

def removeEdge (i j : ℕ) : Call K V Unit := do
  let g ← get
  match g.parents.lookup j with
  | none => panicked
  | some toParents =>
    modify fun g => {g with parents := g.parents.insert j (toParents.erase i)}
    match g.children.lookup i with
    | none => panicked
    | some fromChildren =>
      modify fun g => {g with children := g.children.insert i (fromChildren.erase j)}

def isOrphaned : Node K V → Call K V Bool
  | .data key _ => do
    let g ← get
    match g.indices.lookup key with
    | none => panicked
    | some index =>
      match g.parents.lookup index with
      | none => pure true
      | some vs => pure (decide (vs = ∅))
  | .root => pure false
  | .zombie => pure false

def remove (index : ℕ) : Call K V (Option V) := do
  let g ← get
  match g.nodes[index]? with
  | none => panicked
  | some node =>
    modify fun g => {g with nodes := g.nodes.set index .zombie}
    match node with
    | .data _ value => pure (some value)
    | _ => pure none

def childIndices (order : Traversal) (index : ℕ) : Call K V (List ℕ) := do
  let g ← get
  modify fun g => {g with children := g.children.insert index (g.childrenOf index)}
  pure (order.list index (g.childrenOf index))

def findOrphan : List (Node K V×ℕ) → Call K V (Option ℕ)
  | [] => pure none
  | (node,index)::rest => do
    if ← isOrphaned node then pure (some index) else findOrphan rest

def removeEdges (index : ℕ) : List ℕ → Call K V Unit
  | [] => pure ()
  | child::rest => do
    removeEdge index child
    removeEdges index rest

/-- The loop of `prune_orphans`, for at most `fuel` turns. -/
def pruneOrphans (order : Traversal) : ℕ → Call K V Unit
  | 0 => panicked
  | fuel+1 => do
    let g ← get
    match ← findOrphan g.nodes.zipIdx with
    | none => pure ()
    | some index =>
      let _ ← remove index
      let children ← childIndices order index
      removeEdges index children
      pruneOrphans order fuel

/-- The inner loop of `resolve`: the children that have become orphans are pushed. -/
def releaseChildren (index : ℕ) : List ℕ → List ℕ → Call K V (List ℕ)
  | [],next => pure next
  | child::rest,next => do
    removeEdge index child
    let g ← get
    match g.nodes[child]? with
    | none => panicked
    | some node =>
      if ← isOrphaned node then releaseChildren index rest (child::next)
      else releaseChildren index rest next

/-- The outer loop of `resolve`, for at most `fuel` turns; the top of the stack comes first. -/
def resolveLoop (order : Traversal) : ℕ → List V → List ℕ → Call K V (List V)
  | 0,_,_ => panicked
  | _+1,result,[] => pure result
  | fuel+1,result,index::next => do
    let value ← remove index
    let children ← childIndices order index
    let next ← releaseChildren index children next
    resolveLoop order fuel (result++value.toList) next

def isEmpty (g : DependencyGraph K V) : Bool :=
  g.children.entries.all (fun e => decide (e.2 = ∅)) && g.parents.entries.all (fun e => decide (e.2 = ∅))

/-- Each loop makes at most one turn for every node. -/
def resolve (order : Traversal) : Call K V (List V) := do
  let g ← get
  pruneOrphans order (g.nodes.length+1)
  let result ← resolveLoop order (g.nodes.length+1) [] [rootIndex]
  let g ← get
  if g.isEmpty then pure result else throw .circularDependency

end DependencyGraph
end Fuchsia.Bind
