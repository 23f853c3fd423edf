import Fuchsia.Fxfs.IntervalTree
import Fuchsia.Lib.Transition

/-! `WritebackCache` (`object_store/writeback_cache.rs`) with the reservations of
`CachingObjectHandle`. A write has two actions, since the lock is not held while the
data buffer is written; in between a flush may end, but the callers keep all other
operations out. The account of the reserver is the bytes that it has handed out; of the
reservation of a flush, its transaction can hold a part. -/
namespace Fuchsia.Fxfs.WritebackCache

open Fallible IntervalTree

inductive CacheState
  | dirty
  | flushing
  deriving DecidableEq,Repr

/-- `overrides` of `CachedRange`: a write to a range that is being flushed makes it
dirty. -/
def overrides : CacheState → CacheState → Bool
  | .dirty,.flushing => true
  | _,_ => false

inductive Fault
  | blocked
  | panic
  deriving DecidableEq,Repr

/-- The block size is a `u32`. -/
structure Config where
  blockSize : ℕ
  pos : 0 < blockSize
  lt : blockSize < 2^32

/-- `i64::MAX`, the largest size of a file. -/
def maxSize : ℕ := 2^63-1

def flushBatchSize : ℕ := 524288

/-- `reserved_space_from_journal_usage(24_576)`. -/
def transactionMetadataMaxAmount : ℕ := 98304

/-- `round_up(..).unwrap()`. -/
def roundUp (offset blockSize : ℕ) : Except Fault ℕ :=
  if offset+(blockSize-1) < 2^64 then .ok (roundDown (offset+(blockSize-1)) blockSize)
  else .error .panic

def reservationNeeded (c : Config) (amount : ℕ) : Except Fault ℕ := do
  let amount ← roundUp amount c.blockSize
  let batches ← roundUp amount flushBatchSize
  return amount+batches/flushBatchSize*transactionMetadataMaxAmount

structure Inner where
  intervals : List (Interval CacheState)
  dirtyBytes : ℕ
  creationTime : Option ℕ
  modificationTime : Option ℕ

structure FlushableMetadata where
  contentSize : Option ℕ
  creationTime : Option ℕ
  modificationTime : Option ℕ

/-- A `Flushable` with its ranges and the reservation that was passed to `take_flushable`: its amount, and what
the transaction of the flush has of it, as a hold or for what it has allocated. -/
structure Flushable where
  metadata : Option FlushableMetadata
  ranges : Option (List Range)
  amount : ℕ
  held : ℕ
  held_le : held ≤ amount

/-- A `write_or_append` that waits for the data buffer. -/
structure PendingWrite where
  dirtiedIntervals : List (Interval CacheState)
  dirtiedBytes : ℕ
  reservation : ℕ
  offset : ℕ
  stop : ℕ
  currentTime : Option ℕ

structure State where
  inner : Inner
  size : ℕ
  reserved : ℕ
  write : Option PendingWrite
  flush : Option Flushable

def start : State := ⟨⟨[],0,none,none⟩,0,0,none,none⟩

/-- How a call ends: it waits, or it returns `Ok` or an error. -/
inductive Response
  | waits
  | done
  | failed
  deriving DecidableEq,Repr

/-- `unwrap` of what an interval tree operation returns. -/
def unwrap {A : Type} : Except IntervalTree.Error A → Except Fault A
  | .ok a => .ok a
  | .error _ => .error .panic

def sub (a b : ℕ) : Except Fault ℕ := if b ≤ a then .ok (a-b) else .error .panic

def reservationDelta (c : Config) (dirtyBytes bytes : ℕ) : Except Fault ℕ :=
  if bytes > 0 then do
    let before ← reservationNeeded c dirtyBytes
    let needed ← reservationNeeded c (dirtyBytes+bytes)
    sub needed before
  else .ok 0

/-- The drop of a wrapped reservation of what is needed no more. -/
def giveBack (reserved before needed : ℕ) : Except Fault ℕ :=
  if needed < before then sub reserved (before-needed) else .ok reserved

def dirtyInterval (start stop : ℕ) : Interval CacheState := ⟨⟨start,stop⟩,.dirty⟩

/-- The loop of `write_or_append` over the intervals that overlap the aligned range: the
intervals that become dirty, and how many bytes they are. -/
def writeLoop (c : Config) (alignedStop stop : ℕ) :
    List (Interval CacheState) → ℕ → Except Fault (List (Interval CacheState) × ℕ)
  | intervals,offset =>
    if offset < stop then
      match intervals with
      | [] => .ok ([dirtyInterval offset alignedStop],alignedStop-offset)
      | i::rest => do
        require .panic (i.range.start%c.blockSize = 0)
        require .panic (i.range.stop%c.blockSize = 0)
        let hole := if offset < i.range.start then [dirtyInterval offset i.range.start] else []
        let offset' := if offset < i.range.start then i.range.start else offset
        let nextEnd := min i.range.stop alignedStop
        let overlap := if i.properties = .flushing then [dirtyInterval offset' nextEnd] else []
        let (more,bytes) ← writeLoop c alignedStop stop rest nextEnd
        return (hole++(overlap++more),(if offset < i.range.start then i.range.start-offset else 0)+
            ((if i.properties = .flushing then nextEnd-offset' else 0)+bytes))
    else .ok ([],0)

/-- The reservation of a write; `granted` tells whether the allocator can make it. -/
def reserveWrite (c : Config) (s : State) (w : PendingWrite) (granted : Bool) :
    Except Fault (State × Response) := do
  let needed ← reservationNeeded c w.dirtiedBytes
  if needed = 0 then return ({ s with write := some w },.waits)
  else if granted then do
    let amount ← roundUp needed c.blockSize
    return ({ s with
      reserved := s.reserved+amount
      write := some { w with reservation := amount } },.waits)
  else return (s,.failed)

/-- `write_or_append` up to the write of the data buffer. -/
def writeBegin (c : Config) (s : State) (offset : Option ℕ) (length : ℕ)
    (currentTime : Option ℕ) (granted : Bool) : Except Fault (State × Response) := do
  require .blocked (s.write.isNone)
  let offset := offset.getD s.size
  if ¬offset < maxSize then return (s,.failed)
  let stop := offset+min length (maxSize-offset)
  let alignedStop ← roundUp stop c.blockSize
  let intervals ← unwrap (getIntervals s.inner.intervals ⟨roundDown offset c.blockSize,alignedStop⟩)
  let (dirtied,bytes) ← writeLoop c alignedStop stop intervals (roundDown offset c.blockSize)
  reserveWrite c s ⟨dirtied,bytes,0,offset,stop,currentTime⟩ granted

/-- The rest of `write_or_append`, after the data buffer was written or the write of it
failed. What is left of the reservation is given back when it is dropped. -/
def writeEnd (c : Config) (s : State) (written : Bool) : Except Fault (State × Response) :=
  match s.write with
  | none => .error .blocked
  | some w =>
    if written then do
      require .panic (∀ i ∈ w.dirtiedIntervals,
        i.range.start%c.blockSize = 0 ∧ i.range.stop%c.blockSize = 0)
      let intervals ← unwrap (addIntervals overrides s.inner.intervals w.dirtiedIntervals)
      let taken ← reservationDelta c s.inner.dirtyBytes w.dirtiedBytes
      let left ← sub w.reservation taken
      let reserved ← sub s.reserved left
      return ({ s with
        inner := { s.inner with
          intervals := intervals
          dirtyBytes := s.inner.dirtyBytes+w.dirtiedBytes
          modificationTime := w.currentTime }
        size := max s.size w.stop
        reserved := reserved
        write := none },.done)
    else do
      let reserved ← sub s.reserved w.reservation
      return ({ s with reserved := reserved,write := none },.failed)

def resize (c : Config) (s : State) (size : ℕ) : Except Fault (State × Response) := do
  require .blocked (s.write.isNone)
  if ¬size ≤ maxSize then return (s,.failed)
  let alignedSize ← roundUp size c.blockSize
  if size < s.size then
    let (intervals,removed) ← unwrap
      (removeInterval overrides s.inner.intervals ⟨alignedSize,2^64-1⟩)
    let bytes := (removed.map fun i => if i.properties = .dirty then i.range.length else 0).sum
    let before ← reservationNeeded c s.inner.dirtyBytes
    let dirtyBytes ← sub s.inner.dirtyBytes bytes
    let needed ← reservationNeeded c dirtyBytes
    let reserved ← giveBack s.reserved before needed
    return ({ s with
      inner := { s.inner with intervals := intervals,dirtyBytes := dirtyBytes }
      size := size
      reserved := reserved },.done)
  else return ({ s with size := size },.done)

def takeMetadata (inner : Inner) (contentSize : Option ℕ) : Inner × Option FlushableMetadata :=
  if contentSize.isSome ∨ inner.creationTime.isSome ∨ inner.modificationTime.isSome then
    ({ inner with creationTime := none,modificationTime := none },
      some ⟨contentSize,inner.creationTime,inner.modificationTime⟩)
  else (inner,none)

/-- The loop of `take_flushable` over the intervals that it has taken out of the tree. -/
def takeLoop (c : Config) : List (Interval CacheState) → List (Interval CacheState) →
    Except Fault (List (Interval CacheState))
  | tree,[] => .ok tree
  | tree,i::rest => do
    require .panic (i.range.start%c.blockSize = 0)
    require .panic (i.range.stop%c.blockSize = 0)
    require .panic (i.properties ≠ .flushing)
    let tree ← unwrap (addInterval overrides tree ⟨i.range,.flushing⟩)
    takeLoop c tree rest

/-- `take_flushable`, with a reservation that is empty before. -/
def takeFlushable (c : Config) (s : State) (lastKnownSize : ℕ) :
    Except Fault (State × Response) := do
  require .blocked (s.write.isNone ∧ s.flush.isNone)
  let (emptied,intervals) ← unwrap (removeInterval overrides s.inner.intervals ⟨0,2^64-1⟩)
  let tree ← takeLoop c emptied intervals
  let bytesToFlush := (intervals.map fun i => i.range.length).sum
  let contentSize := if lastKnownSize < s.size then some s.size else none
  let (inner,metadata) := takeMetadata { s.inner with intervals := tree } contentSize
  if bytesToFlush = 0 then
    return ({ s with inner := inner,flush := some ⟨metadata,none,0,0,le_rfl⟩ },.done)
  else do
    let amount ← reservationNeeded c inner.dirtyBytes
    return ({ s with
      inner := { inner with dirtyBytes := 0 }
      flush := some ⟨metadata,some (intervals.map fun i => i.range),amount,0,Nat.zero_le amount⟩ },.done)

def hold (s : State) (amount : ℕ) : Except Fault (State × Response) :=
  match s.flush with
  | none => .error .blocked
  | some f =>
    if h : f.held+amount ≤ f.amount then
      .ok ({ s with flush := some { f with held := f.held+amount,held_le := h } },.done)
    else .error .blocked

def release (s : State) : Except Fault (State × Response) :=
  match s.flush with
  | none => .error .blocked
  | some f => .ok ({ s with flush := some { f with held := 0,held_le := Nat.zero_le f.amount } },.done)

def dirtied (i : Interval CacheState) : Interval CacheState := ⟨i.range,.dirty⟩

/-- The loop of `Inner::complete_flush` over the ranges: the tree and the bytes that
are dirty again. -/
def completeLoop (completed : Bool) : List (Interval CacheState) → List Range →
    Except Fault (List (Interval CacheState) × ℕ)
  | tree,[] => .ok (tree,0)
  | tree,range::rest => do
    let (tree,removed) ← unwrap (removeMatchingInterval overrides tree range
      fun i => i.properties = .flushing)
    if completed then completeLoop completed tree rest
    else do
      let tree ← unwrap (addIntervals overrides tree (removed.map dirtied))
      let (tree,bytes) ← completeLoop completed tree rest
      return (tree,(removed.map fun i => i.range.length).sum+bytes)

/-- `Inner::complete_flush`: the state of the cache and what is taken back from the
reservation of the flush. -/
def completeInner (c : Config) (inner : Inner) (ranges : List Range) (completed : Bool) :
    Except Fault (Inner × ℕ) := do
  let (intervals,bytes) ← completeLoop completed inner.intervals ranges
  let delta ← reservationDelta c inner.dirtyBytes bytes
  return ({ inner with intervals := intervals,dirtyBytes := inner.dirtyBytes+bytes },delta)

/-- What `Flushable::drop` does with the metadata. -/
def restoreMetadata (inner : Inner) : Option FlushableMetadata → Inner
  | none => inner
  | some m => { inner with
      creationTime := if m.creationTime.isSome ∧ inner.creationTime.isNone then m.creationTime
        else inner.creationTime
      modificationTime := if m.modificationTime.isSome ∧ inner.modificationTime.isNone then
        m.modificationTime else inner.modificationTime }

def completeRanges (c : Config) (inner : Inner) (completed : Bool) :
    Option (List Range) → Except Fault (Inner × ℕ)
  | none => .ok (inner,0)
  | some ranges => completeInner c inner ranges completed

/-- `forget_some` of the reservation of the flush: what is left of its amount. Where no byte is dirty again it
is not called, and would not fail. -/
def forgetSome (f : Flushable) (amount : ℕ) : Except Fault ℕ := do
  let left ← sub f.amount amount
  require .panic (f.held ≤ left)
  return left

/-- The flush ends: `complete_flush` when it is completed, else the drop of the
`Flushable`. The caller then drops its reservation. -/
def endFlush (c : Config) (s : State) (completed : Bool) : Except Fault (State × Response) :=
  match s.flush with
  | none => .error .blocked
  | some f => do
    let inner := if completed then s.inner else restoreMetadata s.inner f.metadata
    let (inner,delta) ← completeRanges c inner completed f.ranges
    let left ← forgetSome f delta
    let reserved ← sub s.reserved left
    return ({ s with inner := inner,reserved := reserved,flush := none },.done)

def cleanupReserved (c : Config) (s : State) : Except Fault ℕ :=
  if s.inner.dirtyBytes > 0 then do
    let needed ← reservationNeeded c s.inner.dirtyBytes
    sub s.reserved needed
  else .ok s.reserved

def cleanup (c : Config) (s : State) : Except Fault (State × Response) := do
  require .blocked (s.write.isNone)
  let reserved ← cleanupReserved c s
  let (intervals,_) ← unwrap (removeInterval overrides s.inner.intervals ⟨0,2^64-1⟩)
  return ({ s with
    inner := { s.inner with intervals := intervals,dirtyBytes := 0 }
    reserved := reserved },.done)

inductive Action
  | writeBegin (offset : Option ℕ) (length : ℕ) (currentTime : Option ℕ) (granted : Bool)
  | writeEnd (written : Bool)
  | resize (size : ℕ)
  | takeFlushable (lastKnownSize : ℕ)
  | hold (amount : ℕ)
  | release
  | endFlush (completed : Bool)
  | cleanup

def step (c : Config) (s : State) : Action → Except Fault (State × Response)
  | .writeBegin offset length currentTime granted =>
    writeBegin c s offset length currentTime granted
  | .writeEnd written => writeEnd c s written
  | .resize size => resize c s size
  | .takeFlushable lastKnownSize => takeFlushable c s lastKnownSize
  | .hold amount => hold s amount
  | .release => release s
  | .endFlush completed => endFlush c s completed
  | .cleanup => cleanup c s

end Fuchsia.Fxfs.WritebackCache
