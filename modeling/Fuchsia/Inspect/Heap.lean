import Fuchsia.Inspect.Format
import Fuchsia.Lib.Fallible
import Fuchsia.Lib.Effect
import Fuchsia.Lib.Buddies

/-! `Block` (`format/rust/src/block.rs`): what the heap reads and writes of a block. The type
checks are made in debug mode only. -/
namespace Fuchsia.Inspect

section

open Fallible BlockHeader BlockType

inductive FormatError
  | invalidBlockOrder (order : ℕ)
  | invalidBlockSwap
  | invalidBlockTypeNumber (index number : ℕ)
  | unexpectedBlockType (expected actual : BlockType)
  deriving DecidableEq,Repr

namespace Block

variable (debug : Bool) (m : ByteMemory) (index : ℕ)

def order : ℕ := (readHeader m index).order

/-- The type; `none` is the panic on an invalid value. -/
def blockType : Option BlockType := fromU8 (readHeader m index).blockType

def checkTypeEq (actual : ℕ) (expected : BlockType) : Except FormatError Unit :=
  if debug then
    match fromU8 actual with
    | none => .error (.invalidBlockTypeNumber index actual)
    | some t => require (.unexpectedBlockType expected t) (t = expected)
  else .ok ()

def checkType (expected : BlockType) : Except FormatError Unit :=
  if debug then checkTypeEq debug index (readHeader m index).blockType expected else .ok ()

def freeNextIndex : Except FormatError ℕ := do
  checkType debug m index .free
  return (readHeader m index).low

def setFreeNextIndex (next : ℕ) : Except FormatError ByteMemory := do
  checkType debug m index .free
  return writeHeader m index ((readHeader m index).setLow next)

def newFree (order next : ℕ) : Except FormatError ByteMemory := do
  require (.invalidBlockOrder order) (order < numOrders)
  return writeHeader m index (((zero.setOrder order).setBlockType .free).setLow next)

def setOrder (order : ℕ) : Except FormatError ByteMemory := do
  require (.invalidBlockOrder order) (order < numOrders)
  return writeHeader m index ((readHeader m index).setOrder order)

def becomeReserved : Except FormatError ByteMemory := do
  let header := readHeader m index
  checkTypeEq debug index header.blockType .free
  return writeHeader m index ((zero.setOrder header.order).setBlockType .reserved)

def becomeFree (next : ℕ) : ByteMemory := let header := readHeader m index
  writeHeader m index (((zero.setOrder header.order).setBlockType .free).setLow next)

variable {debug m index}

lemma checkTypeEq_toU8 (t : BlockType) : checkTypeEq debug index t.toU8 t = .ok () := by
  cases debug with
  | false => rfl
  | true => simp [checkTypeEq,fromU8_toU8,require]

lemma checkType_of_eq {t : BlockType} (h : (readHeader m index).blockType = t.toU8) :
    checkType debug m index t = .ok () := by rw [checkType,h,checkTypeEq_toU8,ite_self]

section

variable (h : (readHeader m index).blockType = free.toU8)
include h

lemma freeNextIndex_of_free : freeNextIndex debug m index = .ok (readHeader m index).low := by
  rw [freeNextIndex,checkType_of_eq h]
  rfl

lemma setFreeNextIndex_of_free (next : ℕ) : setFreeNextIndex debug m index next =
      .ok (writeHeader m index ((readHeader m index).setLow next)) := by
  rw [setFreeNextIndex,checkType_of_eq h]
  rfl

lemma becomeReserved_of_free : becomeReserved debug m index = .ok (writeHeader m index
      ((zero.setOrder (readHeader m index).order).setBlockType .reserved)) := by
  rw [becomeReserved]
  simp only [h,checkTypeEq_toU8]
  rfl

end

lemma setOrder_of_lt {order : ℕ} (h : order < numOrders) :
    setOrder m index order = .ok (writeHeader m index ((readHeader m index).setOrder order)) := by
  rw [setOrder,require_of h]
  rfl

end Block

end

/-! `Heap` (`writer/heap.rs`): the buddy allocator of the Inspect VMO. A block is the index
at which it starts. -/

open Effect Block

inductive WriterError
  | blockAlreadyFree (index : ℕ)
  | invalidIndex (index : ℕ) (reason : String)
  | heapMaxSizeReached
  | invalidBlockOrder (order : ℕ)
  | invalidBlockOrderAtIndex (order index : ℕ)
  | vmoFormat (error : FormatError)
  deriving DecidableEq,Repr

structure Heap where
  memory : ByteMemory
  mappingLen : ℕ
  currentSize : ℕ
  freeHead : ℕ → ℕ
  allocatedBlocks : ℕ
  deallocatedBlocks : ℕ
  failedAllocations : ℕ

namespace Heap

abbrev Call (A : Type) : Type := Effect Heap WriterError A

def lift {A : Type} : Except FormatError A → Call A
  | .ok a => pure a
  | .error e => throw (.vmoFormat e)

def read {A : Type} (f : ByteMemory → Except FormatError A) : Call A := do
  let h ← get
  lift (f h.memory)

def write (f : ByteMemory → Except FormatError ByteMemory) : Call Unit := do
  let m ← read f
  modify fun h => { h with memory := m }

/-- The entry of `free_head_per_order`, which has one for each order. -/
def headAt (order : ℕ) : Call ℕ := do
  let h ← get
  if order < numOrders then pure (h.freeHead order) else panicked

def setHead (order index : ℕ) : Call Unit :=
  if order < numOrders then
    modify fun h => { h with freeHead := Function.update h.freeHead order index }
  else panicked

def blockOrder (index : ℕ) : Call ℕ := do
  let h ← get
  return order h.memory index

def blockType (index : ℕ) : Call BlockType := do
  let h ← get
  match Block.blockType h.memory index with
  | some t => pure t
  | none => panicked

def buddy (index order : ℕ) : ℕ := index^^^(orderToSize order/minOrderSize)

def getBlock (index : ℕ) : Call ℕ := do
  let h ← get
  let offset := offsetForIndex index
  if offset ≥ h.currentSize then throw (.invalidIndex index "offset exceeds current size")
  else if h.currentSize-offset < orderToSize (order h.memory index) then
    throw (.invalidIndex index "order exceeds current size")
  else pure index

def maxOrderUnits : ℕ := maxOrderSize/minOrderSize

/-- The loop of `grow_heap`. The index from which it subtracts is a multiple of the units of
the largest block; at zero the subtraction overflows. -/
def growLoop (minIndex : ℕ) : ℕ → ℕ → Call ℕ
  | 0,_ => panicked
  | n+1,lastIndex => do
    let currIndex := n*maxOrderUnits
    unwrap (write fun m => newFree m currIndex (numOrders-1) lastIndex)
    if currIndex ≤ minIndex then pure currIndex else growLoop minIndex n currIndex

def growHeap (requestedSize : ℕ) : Call Unit := do
  let h ← get
  if requestedSize > h.mappingLen then do
    modify fun h => { h with failedAllocations := h.failedAllocations+1 }
    throw .heapMaxSizeReached
  else
    let newSize := min h.mappingLen requestedSize
    match indexForOffset h.currentSize,indexForOffset (newSize-newSize%pageSizeBytes) with
    | some minIndex,some currIndex => do
      let lastIndex ← headAt (numOrders-1)
      let lastIndex ← growLoop minIndex (currIndex/maxOrderUnits) lastIndex
      setHead (numOrders-1) lastIndex
      modify fun h => { h with currentSize := newSize }
    | _,_ => panicked

def isFreeBlock (index expectedOrder : ℕ) : Call Bool := do
  let h ← get
  if index ≥ h.currentSize/minOrderSize then pure false
  else
    match ← attempt (getBlock index) with
    | .error _ => pure false
    | .ok block => do
      let t ← blockType block
      if t = .free then do
        let order ← blockOrder block
        pure (order = expectedOrder)
      else pure false

variable (debug : Bool)

/-- The loop of `remove_free`; a list has no more items than the heap has indices. -/
def removeLoop (order index : ℕ) : ℕ → ℕ → Call Bool
  | 0,_ => panicked
  | fuel+1,nextIndex => do
    if ← isFreeBlock nextIndex order then
      let currBlock ← unwrap (getBlock nextIndex)
      let nextIndex ← read fun m => freeNextIndex debug m currBlock
      if nextIndex = index then
        let rest ← read fun m => freeNextIndex debug m index
        write fun m => setFreeNextIndex debug m currBlock rest
        pure true
      else removeLoop order index fuel nextIndex
    else pure false

def removeFree (index : ℕ) : Call Bool := do
  let order ← blockOrder index
  if order ≥ numOrders then pure false
  else
    let nextIndex ← headAt order
    if nextIndex = index then
      let rest ← read fun m => freeNextIndex debug m index
      setHead order rest
      pure true
    else
      let h ← get
      removeLoop debug order index (h.currentSize/minOrderSize+1) nextIndex

def splitBlock (block : ℕ) : Call Unit := do
  let order ← blockOrder block
  if order ≥ numOrders then throw (.invalidBlockOrderAtIndex order block)
  else
    let _ ← removeFree debug block
    let order ← blockOrder block
    let buddyIndex := buddy block (order-1)
    write fun m => setOrder m block (order-1)
    write fun m => .ok (becomeFree m block buddyIndex)
    write fun m => setOrder m buddyIndex (order-1)
    let head ← headAt (order-1)
    write fun m => .ok (becomeFree m buddyIndex head)
    setHead (order-1) block

def findOrder : List ℕ → Call (Option ℕ)
  | [] => pure none
  | order::rest => do
    let head ← headAt order
    if ← isFreeBlock head order then pure (some order) else findOrder rest

/-- The loop of `allocate_block`; an order has four bits. -/
def splitLoop (block minFitOrder : ℕ) : ℕ → Call Unit
  | 0 => panicked
  | fuel+1 => do
    let order ← blockOrder block
    if order > minFitOrder then
      splitBlock debug block
      splitLoop block minFitOrder fuel
    else pure ()

/-- The end of `allocate_block`, once the order has been found. -/
def takeBlock (minFitOrder nextOrder : ℕ) : Call ℕ := do
  let nextBlockIndex ← headAt nextOrder
  let block ← unwrap (getBlock nextBlockIndex)
  splitLoop debug block minFitOrder 16
  let _ ← removeFree debug block
  unwrap (write fun m => becomeReserved debug m block)
  modify fun h => { h with allocatedBlocks := h.allocatedBlocks+1 }
  pure block

def allocateBlock (minSize : ℕ) : Call ℕ :=
  match fitOrder debug minSize with
  | none => panicked
  | some minFitOrder =>
    if minFitOrder ≥ numOrders then throw (.invalidBlockOrder minFitOrder)
    else do
      match ← findOrder (List.range' minFitOrder (numOrders-minFitOrder)) with
      | some order => takeBlock debug minFitOrder order
      | none => do
        let h ← get
        growHeap (h.currentSize+pageSizeBytes)
        takeBlock debug minFitOrder (numOrders-1)

/-- The two blocks in the order of their indices, if they may be swapped. -/
def swapIfBelow (blockToFree buddyBlock : ℕ) : Call (ℕ × ℕ) :=
  if buddyBlock < blockToFree then do
    let order ← blockOrder blockToFree
    let buddyOrder ← blockOrder buddyBlock
    if order = buddyOrder then pure (buddyBlock,blockToFree)
    else throw (.vmoFormat .invalidBlockSwap)
  else pure (blockToFree,buddyBlock)

/-- The loop of `free_block`; each round raises the order, which stays below the number of
orders. -/
def freeLoop : ℕ → ℕ → ℕ → Call ℕ
  | 0,_,_ => panicked
  | fuel+1,blockToFree,buddyBlock => do
    let t ← blockType buddyBlock
    let order ← blockOrder blockToFree
    let buddyOrder ← blockOrder buddyBlock
    if t = .free ∧ order < numOrders-1 ∧ order = buddyOrder then
      let _ ← removeFree debug buddyBlock
      let (blockToFree,_) ← swapIfBelow blockToFree buddyBlock
      let order ← blockOrder blockToFree
      write fun m => setOrder m blockToFree (order+1)
      let order ← blockOrder blockToFree
      let buddyBlock ← unwrap (getBlock (buddy blockToFree order))
      freeLoop fuel blockToFree buddyBlock
    else pure blockToFree

def freeBlock (block : ℕ) : Call Unit := do
  let t ← blockType block
  if t = .free then throw (.blockAlreadyFree block)
  else
    let order ← blockOrder block
    let buddyBlock ← unwrap (getBlock (buddy block order))
    let blockToFree ← freeLoop debug numOrders block buddyBlock
    let order ← blockOrder blockToFree
    let head ← headAt order
    write fun m => .ok (becomeFree m blockToFree head)
    setHead order blockToFree
    modify fun h => { h with deallocatedBlocks := h.deallocatedBlocks+1 }

/-- `Heap::new` on a mapping with the contents. -/
def new (memory : ByteMemory) (mappingLen : ℕ) : Result Heap WriterError Unit :=
  growHeap pageSizeBytes ⟨memory,mappingLen,0,fun _ => 0,0,0,0⟩

end Heap

end Fuchsia.Inspect
