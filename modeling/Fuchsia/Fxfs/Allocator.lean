import Fuchsia.Fxfs.AllocatorTree
import Fuchsia.Fxfs.SkipListLayer
import Fuchsia.Lib.Fallible
import Fuchsia.Lib.Transition

/-! `SimpleAllocator` (`object_store/allocator.rs`) as a machine whose actions are
what its operations do between two acquisitions of a lock. The tree is its mutable
layer; layers are published at once. Commits run one at a time, under the
journal's writer lock, and so do device flushes. -/
namespace Fuchsia.Fxfs.SimpleAllocator

open Fallible

structure Config where
  blockSize : ℕ
  deviceSize : ℕ

/-- Why an action has no result: it has to wait, a subtraction underflows, or an
assertion or `unwrap` fails. -/
inductive Fault
  | blocked
  | underflow
  | assertion
  deriving DecidableEq,Repr

def sub (a b : ℕ) : Except Fault ℕ := if b ≤ a then .ok (a-b) else .error .underflow

def lookup {A : Type} (xs : List A) (i : ℕ) : Except Fault A := (xs[i]?).elim (.error .blocked) .ok

lemma sub_eq_ok {a b n : ℕ} : sub a b = .ok n ↔ a = n+b := by
  simp only [sub]
  split_ifs with h
  · simp only [Except.ok.injEq]
    omega
  · simp only [false_iff]
    omega

variable {fault : Fault} {A : Type}

lemma lookup_eq_ok {xs : List A} {i : ℕ} {x : A} : lookup xs i = .ok x ↔ xs[i]? = some x := by
  cases h : xs[i]? <;> simp [lookup,h]

lemma elim_eq_ok {o : Option A} {x : A} : (o.elim (.error fault) .ok : Except Fault A) = .ok x ↔ o = some x := by
  cases o <;> simp

variable {x : Except Fault A}

lemma map_eq_ok {B : Type} {f : A → B} {b : B} : (f <$> x) = .ok b ↔ ∃ a,x = .ok a ∧ f a = b := by
  cases x <;> simp [Functor.map,Except.map]

structure ReservationInner where
  amount : ℕ
  reserved : ℕ
  deriving DecidableEq,Repr

namespace ReservationInner

def add (r : ReservationInner) (amount : ℕ) : ReservationInner := { r with amount := r.amount+amount }

def reserveAtMost (r : ReservationInner) (amount : ℕ) : Except Fault (ReservationInner × ℕ) := do
  let avail ← sub r.amount r.reserved
  let taken := min amount avail
  return (⟨r.amount,r.reserved+taken⟩,taken)

def reserve (r : ReservationInner) (amount : ℕ) : Except Fault (Option ReservationInner) := do
  let avail ← sub r.amount r.reserved
  return if avail < amount then none else some ⟨r.amount,r.reserved+amount⟩

def commit (r : ReservationInner) (amount : ℕ) : Except Fault ReservationInner := do
  let reserved ← sub r.reserved amount
  let amount ← sub r.amount amount
  return ⟨amount,reserved⟩

def releaseReservation (r : ReservationInner) (amount : ℕ) : Except Fault ReservationInner := do
  let reserved ← sub r.reserved amount
  return ⟨r.amount,reserved⟩

end ReservationInner

structure Inner where
  droppedAllocations : List AllocatorItem
  allocatedBytes : ℤ
  uncommittedAllocatedBytes : ℕ
  reservedBytes : ℕ
  committedDeallocated : List (ℕ × Range)
  committedDeallocatedBytes : ℕ
  deriving DecidableEq,Repr

/-- An `i64` read `as u64`. -/
def asU64 (x : ℤ) : ℕ := (x % 2^64).toNat

namespace Inner

def unavailableBytes (inner : Inner) : ℕ :=
  asU64 inner.allocatedBytes+inner.uncommittedAllocatedBytes+inner.committedDeallocatedBytes

def takenBytes (inner : Inner) : ℕ :=
  asU64 inner.allocatedBytes+inner.uncommittedAllocatedBytes+inner.reservedBytes

end Inner

inductive MutationKind
  | allocator
  | allocatorRef
  deriving DecidableEq,Repr

/-- `Mutation::Allocator` and `Mutation::AllocatorRef`. -/
structure Mutation where
  kind : MutationKind
  item : AllocatorItem
  deriving DecidableEq,Repr

namespace Mutation

def range (m : Mutation) : Range := m.item.key.deviceRange

def rank (m : Mutation) : ℕ :=
  match m.kind with
  | .allocator => 0
  | .allocatorRef => 1

/-- Mutations are ordered by kind and key; the value does not count. -/
def cmp (a b : Mutation) : Ordering :=
  (compare a.rank b.rank).then
    ((compare a.range.start b.range.start).then (compare a.range.stop b.range.stop))

end Mutation

/-- `Transaction::add`: the set of mutations is kept in order, and an equal one is
replaced. -/
def addMutation (m : Mutation) : List Mutation → List Mutation
  | [] => [m]
  | x::xs =>
    match m.cmp x with
    | .lt => m::x::xs
    | .eq => m::xs
    | .gt => x::addMutation m xs

/-- What a transaction is doing. A call of `allocate` waits with the bytes it was
granted until it has the allocation mutex; one that has failed still has them. -/
inductive Phase
  | active
  | waiting (requested granted : ℕ)
  | allocating
  | failed (granted : ℕ)
  | committing
  | dropping
  | closed
  deriving DecidableEq,Repr

/-- The bytes of a call of `allocate` that does not have the mutex. -/
def Phase.grant : Phase → Option ℕ
  | .waiting _ granted => some granted
  | .failed granted => some granted
  | _ => none

structure Transaction where
  allocatorReservation : Option ℕ
  mutations : List Mutation
  phase : Phase
  deriving DecidableEq,Repr

/-- How far the call of `allocate` has come that holds the allocation mutex. -/
inductive AllocateStage
  | locked (granted : ℕ)
  | erasing (granted : ℕ) (dropped : List AllocatorItem)
  | found (granted : ℕ) (range : Range)
  | forgotten (range : Range)
  | counted (range : Range)
  deriving DecidableEq,Repr

structure Allocation where
  transaction : ℕ
  allocatorReservation : Option ℕ
  requested : ℕ
  stage : AllocateStage
  deriving DecidableEq,Repr

/-- How many of its three steps `apply_mutation` has done for the first of the
mutations. -/
inductive CommitStage
  | start
  | first
  | second
  deriving DecidableEq,Repr

structure Commit where
  transaction : ℕ
  allocatorReservation : Option ℕ
  logOffset : ℕ
  mutations : List Mutation
  stage : CommitStage
  deriving DecidableEq,Repr

/-- A call of `did_flush_device`: what it still has to erase, and the bytes it has
erased. -/
structure DeviceFlush where
  deallocs : List Range
  total : ℕ
  deriving DecidableEq,Repr

/-- `holds` are sub-reservations that callers made, with their reservation. The last
three fields record the past: the offset last passed to `did_flush_device`, the
ranges that `allocate` returned, with their transactions, and the deallocations
that were committed, with their offsets. -/
structure State where
  tree : List AllocatorItem
  reservedAllocations : List AllocatorItem
  inner : Inner
  reservations : List (Option ReservationInner)
  holds : List (ℕ × ℕ)
  transactions : List Transaction
  allocation : Option Allocation
  commit : Option Commit
  flush : Option DeviceFlush
  flushedOffset : ℕ
  issued : List (ℕ × Range)
  freed : List (ℕ × Range)
  deriving DecidableEq,Repr

def created : State := ⟨[],[],⟨[],0,0,0,[],0⟩,[],[],[],none,none,none,0,[],[]⟩

namespace State

def activeTransaction (s : State) (t : ℕ) : Except Fault Transaction := do
  let tx ← lookup s.transactions t
  require .blocked (tx.phase = .active)
  return tx

def setTransaction (s : State) (t : ℕ) (tx : Transaction) : State :=
  { s with transactions := s.transactions.set t tx }

def updateReservation (s : State) (i : ℕ) (f : ReservationInner → Except Fault ReservationInner) :
    Except Fault State := do
  match ← lookup s.reservations i with
  | none => .error .blocked
  | some r =>
    let r ← f r
    return { s with reservations := s.reservations.set i (some r) }

/-- `SimpleAllocator::release_reservation`. -/
def releaseReservation (s : State) (amount : ℕ) : Except Fault State := do
  let reserved ← sub s.inner.reservedBytes amount
  return { s with inner := { s.inner with reservedBytes := reserved } }

/-- Drop what is left of the bytes that `allocate` was granted: they go back to the
transaction's reservation, or to the allocator if it has none. -/
def dropGrant (s : State) (reservation : Option ℕ) (amount : ℕ) : Except Fault State :=
  if amount = 0 then .ok s
  else match reservation with
    | some i => s.updateReservation i fun r => r.releaseReservation amount
    | none => s.releaseReservation amount

end State

open State

section Reservations

variable (c : Config) (s : State)

def reserve (amount : ℕ) : Except Fault State := do
  let free ← sub c.deviceSize s.inner.takenBytes
  if free < amount then return s
  return { s with
    inner := { s.inner with reservedBytes := s.inner.reservedBytes+amount }
    reservations := s.reservations++[some ⟨amount,0⟩] }

def reserveAtMost (amount : ℕ) : Except Fault State := do
  let free ← sub c.deviceSize s.inner.takenBytes
  let amount := min free amount
  return { s with
    inner := { s.inner with reservedBytes := s.inner.reservedBytes+amount }
    reservations := s.reservations++[some ⟨amount,0⟩] }

def borrowed (i : ℕ) : Prop :=
  (∃ tx ∈ s.transactions,tx.allocatorReservation = some i ∧ tx.phase ≠ .closed) ∨ ∃ h ∈ s.holds,h.1 = i

instance (i : ℕ) : Decidable (borrowed s i) := inferInstanceAs (Decidable (_ ∨ _))

def dropReservation (i : ℕ) : Except Fault State := do
  require .blocked (¬borrowed s i)
  match ← lookup s.reservations i with
  | none => .error .blocked
  | some r =>
    require .assertion (r.reserved = 0)
    let s ← s.releaseReservation r.amount
    return { s with reservations := s.reservations.set i none }

/-- `Reservation::reserve`. -/
def hold (i amount : ℕ) : Except Fault State := do
  match ← lookup s.reservations i with
  | none => .error .blocked
  | some r =>
    match ← r.reserve amount with
    | none => return s
    | some r => return { s with
        reservations := s.reservations.set i (some r)
        holds := s.holds++[(i,amount)] }

/-- `Reservation::reserve_at_most`. -/
def holdAtMost (i amount : ℕ) : Except Fault State := do
  match ← lookup s.reservations i with
  | none => .error .blocked
  | some r =>
    let (r,taken) ← r.reserveAtMost amount
    return { s with
      reservations := s.reservations.set i (some r)
      holds := s.holds++[(i,taken)] }

def dropHold (h : ℕ) : Except Fault State := do
  let (i,amount) ← lookup s.holds h
  let s ← s.updateReservation i fun r => r.releaseReservation amount
  return { s with holds := s.holds.eraseIdx h }

/-- A new transaction, which may borrow a live reservation. -/
def newTransaction (reservation : Option ℕ) : Except Fault State := do
  require .blocked (∀ i ∈ reservation,(s.reservations[i]?).join.isSome)
  return { s with transactions := s.transactions++[⟨reservation,[],.active⟩] }

end Reservations

section Allocate

variable (c : Config) (s : State)

def allocateReserve (t len : ℕ) : Except Fault State := do
  require .assertion (len % c.blockSize = 0)
  let tx ← s.activeTransaction t
  match tx.allocatorReservation with
  | some i =>
    match ← lookup s.reservations i with
    | none => .error .blocked
    | some r =>
      let (r,granted) ← r.reserveAtMost len
      if granted = 0 then return s
      return { s with
        reservations := s.reservations.set i (some r)
        transactions := s.transactions.set t { tx with phase := .waiting len granted } }
  | none =>
    let free ← sub c.deviceSize s.inner.takenBytes
    let granted := roundDown (min len free) c.blockSize
    if granted = 0 then return s
    return { s with
      inner := { s.inner with reservedBytes := s.inner.reservedBytes+granted }
      transactions := s.transactions.set t { tx with phase := .waiting len granted } }

/-- Take the allocation mutex. While all free space is tied up with deallocations the
mutex is given up again to wait for a flush of the device. -/
def allocateLock (t : ℕ) : Except Fault State := do
  let tx ← lookup s.transactions t
  match tx.phase with
  | .waiting requested granted =>
    require .blocked (s.allocation = none)
    require .blocked (s.inner.unavailableBytes < c.deviceSize)
    return { s with
      transactions := s.transactions.set t { tx with phase := .allocating }
      allocation := some ⟨t,tx.allocatorReservation,requested,.locked granted⟩ }
  | _ => .error .blocked

def mergeFuel (layers : List (List AllocatorItem)) : ℕ :=
  (layers.map fun layer => (layer.map fun i => i.key.deviceRange.length+1).sum).sum+2

/-- The search loop, from `lastOffset` on. -/
def firstGap (deviceSize len : ℕ) : ℕ → List AllocatorItem → Option Range
  | lastOffset,[] =>
    let stop := min (lastOffset+len) deviceSize
    if stop ≤ lastOffset then none else some ⟨lastOffset,stop⟩
  | lastOffset,i::items =>
    if lastOffset < i.key.deviceRange.start then
      some ⟨lastOffset,min (lastOffset+len) i.key.deviceRange.start⟩
    else firstGap deviceSize len i.key.deviceRange.stop items

def merged (layers : List (List AllocatorItem)) : Except Fault (List AllocatorItem) :=
  (mergeFrom Allocator.merge (mergeFuel layers) layers .unbounded).elim (.error .blocked) .ok

/-- The rest of `allocate`, step by step. -/
def allocateStep : Except Fault State :=
  match s.allocation with
  | none => .error .blocked
  | some a =>
    match a.stage with
    | .locked granted => return { s with
        inner := { s.inner with droppedAllocations := [] }
        allocation := some { a with stage := .erasing granted s.inner.droppedAllocations } }
    | .erasing granted (i::dropped) => return { s with
        reservedAllocations := SkipListLayer.erase s.reservedAllocations i.key
        allocation := some { a with stage := .erasing granted dropped } }
    | .erasing granted [] => do
      let items ← merged [s.reservedAllocations,s.tree]
      match firstGap c.deviceSize granted 0 items with
      | some range => return { s with allocation := some { a with stage := .found granted range } }
      | none => do
        let tx ← lookup s.transactions a.transaction
        require .blocked (tx.phase = .allocating)
        return { s.setTransaction a.transaction { tx with phase := .failed granted } with
          allocation := none }
    | .found granted range => do
      let rest ← sub granted range.length
      let s ← s.dropGrant a.allocatorReservation rest
      return { s with allocation := some { a with stage := .forgotten range } }
    | .forgotten range => do
      let reserved ← sub s.inner.reservedBytes range.length
      return { s with
        inner := { s.inner with
          reservedBytes := reserved
          uncommittedAllocatedBytes := s.inner.uncommittedAllocatedBytes+range.length }
        allocation := some { a with stage := .counted range } }
    | .counted range => do
      let tx ← lookup s.transactions a.transaction
      require .blocked (tx.phase = .allocating)
      let item : AllocatorItem := ⟨⟨range⟩,⟨1⟩,0⟩
      let m : Mutation := ⟨.allocator,item⟩
      let reserved ← (SkipListLayer.insert s.reservedAllocations item).elim (.error .assertion) .ok
      require .assertion (∀ x ∈ tx.mutations,m.cmp x ≠ .eq)
      return { s with
        reservedAllocations := reserved
        transactions := s.transactions.set a.transaction
          { tx with mutations := addMutation m tx.mutations,phase := .active }
        allocation := none
        issued := s.issued++[(a.transaction,range)] }

/-- A call of `allocate` that found no space, or whose wait for a flush failed, returns
its error and drops what it was granted. -/
def allocateFail (t : ℕ) : Except Fault State := do
  let tx ← lookup s.transactions t
  match tx.phase.grant with
  | none => .error .blocked
  | some granted =>
    let s ← s.dropGrant tx.allocatorReservation granted
    return s.setTransaction t { tx with phase := .active }

/-- The reservations after a hold is taken from the transaction's, if it has one, and
forgotten; `none` if there is not enough left in it. -/
def takeHold (reservation : Option ℕ) (amount : ℕ) :
    Except Fault (Option (List (Option ReservationInner))) :=
  match reservation with
  | none => return some s.reservations
  | some i => do
    match ← lookup s.reservations i with
    | none => .error .blocked
    | some r =>
      let r ← r.reserve amount
      return r.map fun r => s.reservations.set i (some r)

def markAllocated (t : ℕ) (range : Range) : Except Fault State := do
  let tx ← s.activeTransaction t
  if ¬range.valid ∨ c.deviceSize < range.stop then return s
  let free ← sub c.deviceSize s.inner.takenBytes
  if free < range.length then return s
  match ← takeHold s tx.allocatorReservation range.length with
  | none => return s
  | some reservations =>
    let item : AllocatorItem := ⟨⟨range⟩,⟨1⟩,0⟩
    let reserved ← (SkipListLayer.insert s.reservedAllocations item).elim (.error .assertion) .ok
    return { s with
      reservations := reservations
      inner := { s.inner with
        uncommittedAllocatedBytes := s.inner.uncommittedAllocatedBytes+range.length }
      reservedAllocations := reserved
      transactions := s.transactions.set t
        { tx with mutations := addMutation ⟨.allocator,item⟩ tx.mutations } }

end Allocate

section Deallocate

/-- Carry the pending mutation on to `stop` if it is of this kind, and else begin a new
one at `start`; the mutation that this completes comes first. -/
def extendMutation (kind : MutationKind) (start stop : ℕ) (pending : Option Mutation) :
    List Mutation × Mutation :=
  let fresh : Mutation := ⟨kind,⟨⟨⟨start,stop⟩⟩,⟨-1⟩,0⟩⟩
  match pending with
  | none => ([],fresh)
  | some m =>
    if m.kind = kind then
      ([],{ m with item := { m.item with key := ⟨⟨m.range.start,stop⟩⟩ } })
    else ([m],fresh)

/-- The loop of `deallocate` over the items from the one that ends after the start of
the range: the mutations it adds, in turn, and the bytes freed, or `none` for its error. -/
def deallocateLoop : Range → Option Mutation → ℕ → List AllocatorItem → List Mutation × Option ℕ
  | _,pending,deallocated,[] => (pending.toList,some deallocated)
  | range,pending,deallocated,i::items =>
    if range.start < i.key.deviceRange.start then ([],none)
    else
      let stop := min i.key.deviceRange.stop range.stop
      let kind := if i.value.delta = 1 then MutationKind.allocator else .allocatorRef
      let deallocated := if i.value.delta = 1 then deallocated+(stop-range.start) else deallocated
      let (added,m) := extendMutation kind range.start stop pending
      if stop = range.stop then (added++[m],some deallocated)
      else
        let (rest,result) := deallocateLoop ⟨stop,range.stop⟩ (some m) deallocated items
        (added++rest,result)

def deallocate (s : State) (t : ℕ) (range : Range) : Except Fault State := do
  let tx ← s.activeTransaction t
  if ¬range.valid then return s
  let items ← (mergeFrom Allocator.merge (mergeFuel [s.tree]) [s.tree]
    (.included ⟨⟨0,range.start+1⟩⟩)).elim (.error .blocked) .ok
  let mutations := (deallocateLoop range none 0 items).1
  return s.setTransaction t
    { tx with mutations := mutations.foldl (fun ms m => addMutation m ms) tx.mutations }

end Deallocate

section Commit

variable (s : State)

def commitBegin (t logOffset : ℕ) : Except Fault State := do
  let tx ← s.activeTransaction t
  require .blocked (s.commit = none)
  return { s with
    transactions := s.transactions.set t { tx with mutations := [],phase := .committing }
    commit := some ⟨t,tx.allocatorReservation,logOffset,tx.mutations,.start⟩ }

/-- `LSMTree::merge_into` with `lower_bound_for_merge_into`. -/
def mergeIntoTree (item : AllocatorItem) : Except Fault State :=
  (SkipListLayer.mergeInto Allocator.merge (mergeFuel [[item],s.tree]) s.tree item
    ⟨⟨0,item.key.deviceRange.start⟩⟩).elim (.error .blocked) fun tree => .ok { s with tree := tree }

/-- The steps of `apply_mutation` in live mode. A deallocation is reserved, counted
and merged into the tree; an allocation is merged, unreserved and counted. -/
def applyMutation (k : Commit) (m : Mutation) (rest : List Mutation) : Except Fault State :=
  let item : AllocatorItem := { m.item with sequence := k.logOffset }
  let len := m.range.length
  let next (s : State) : State :=
    { s with commit := some { k with mutations := rest,stage := .start } }
  let goTo (stage : CommitStage) (s : State) : State :=
    { s with commit := some { k with stage := stage } }
  if m.kind = .allocatorRef then next <$> mergeIntoTree s item
  else do
    require .assertion m.range.valid
    if item.value.delta < 0 then
      match k.stage with
      | .start =>
        let reserved ← (SkipListLayer.insert s.reservedAllocations
          { item with value := ⟨1⟩ }).elim (.error .assertion) .ok
        return goTo .first { s with reservedAllocations := reserved }
      | .first =>
        let inner := { s.inner with
          allocatedBytes := s.inner.allocatedBytes-len
          committedDeallocated := s.inner.committedDeallocated++[(k.logOffset,m.range)]
          committedDeallocatedBytes := s.inner.committedDeallocatedBytes+len }
        let s := { s with freed := s.freed++[(k.logOffset,m.range)] }
        match k.allocatorReservation with
        | none => return goTo .second { s with inner := inner }
        | some i =>
          let s ← s.updateReservation i fun r => .ok (r.add len)
          return goTo .second
            { s with inner := { inner with reservedBytes := inner.reservedBytes+len } }
      | .second => next <$> mergeIntoTree s item
    else
      match k.stage with
      | .start =>
        (if 0 < item.value.delta then goTo .first else next) <$> mergeIntoTree s item
      | .first => return goTo .second { s with
          reservedAllocations := SkipListLayer.erase s.reservedAllocations item.key }
      | .second =>
        let uncommitted ← sub s.inner.uncommittedAllocatedBytes len
        let s := { s with inner := { s.inner with
          allocatedBytes := s.inner.allocatedBytes+len
          uncommittedAllocatedBytes := uncommitted } }
        match k.allocatorReservation with
        | none => return next s
        | some i => next <$> s.updateReservation i fun r => r.commit len

def commitStep : Except Fault State :=
  match s.commit with
  | none => .error .blocked
  | some k =>
    match k.mutations with
    | [] => .error .blocked
    | m::rest => applyMutation s k m rest

def commitEnd : Except Fault State := do
  match s.commit with
  | none => .error .blocked
  | some k =>
    require .blocked (k.mutations = [])
    let tx ← lookup s.transactions k.transaction
    require .blocked (tx.phase = .committing)
    return { s.setTransaction k.transaction { tx with phase := .closed } with commit := none }

end Commit

section Drop

variable (s : State)

def dropBegin (t : ℕ) : Except Fault State := do
  let tx ← s.activeTransaction t
  return s.setTransaction t { tx with phase := .dropping }

def dropMutation (reservation : Option ℕ) (m : Mutation) : Except Fault State := do
  if m.kind = .allocator ∧ 0 < m.item.value.delta then
    require .assertion m.range.valid
    let uncommitted ← sub s.inner.uncommittedAllocatedBytes m.range.length
    let inner := { s.inner with
      uncommittedAllocatedBytes := uncommitted
      droppedAllocations := s.inner.droppedAllocations++[m.item] }
    match reservation with
    | none => return { s with inner := inner }
    | some i =>
      let s ← s.updateReservation i fun r => r.releaseReservation m.range.length
      return { s with
        inner := { inner with reservedBytes := inner.reservedBytes+m.range.length } }
  else return s

def dropStep (t : ℕ) : Except Fault State := do
  let tx ← lookup s.transactions t
  require .blocked (tx.phase = .dropping)
  match tx.mutations with
  | [] => return s.setTransaction t { tx with phase := .closed }
  | m::rest =>
    dropMutation (s.setTransaction t { tx with mutations := rest }) tx.allocatorReservation m

end Drop

section Flush

variable (s : State)

def flushBegin (flushLogOffset : ℕ) : Except Fault State := do
  require .blocked (s.flush = none)
  let flushed := fun d : ℕ × Range => decide (d.1 < flushLogOffset)
  return { s with
    inner := { s.inner with
      committedDeallocated := s.inner.committedDeallocated.dropWhile flushed }
    flush := some ⟨(s.inner.committedDeallocated.takeWhile flushed).map Prod.snd,0⟩
    flushedOffset := flushLogOffset }

def flushStep : Except Fault State := do
  match s.flush with
  | none => .error .blocked
  | some f =>
    match f.deallocs with
    | range::deallocs => return { s with
        reservedAllocations := SkipListLayer.erase s.reservedAllocations ⟨range⟩
        flush := some ⟨deallocs,f.total+range.length⟩ }
    | [] =>
      let bytes ← sub s.inner.committedDeallocatedBytes f.total
      return { s with
        inner := { s.inner with committedDeallocatedBytes := bytes }
        flush := none }

end Flush

inductive Action
  | reserve (amount : ℕ)
  | reserveAtMost (amount : ℕ)
  | dropReservation (i : ℕ)
  | hold (i amount : ℕ)
  | holdAtMost (i amount : ℕ)
  | dropHold (h : ℕ)
  | newTransaction (reservation : Option ℕ)
  | allocateReserve (t len : ℕ)
  | allocateLock (t : ℕ)
  | allocateStep
  | allocateFail (t : ℕ)
  | markAllocated (t : ℕ) (range : Range)
  | deallocate (t : ℕ) (range : Range)
  | commitBegin (t logOffset : ℕ)
  | commitStep
  | commitEnd
  | dropBegin (t : ℕ)
  | dropStep (t : ℕ)
  | flushBegin (flushLogOffset : ℕ)
  | flushStep
  deriving DecidableEq,Repr

def step (c : Config) (s : State) : Action → Except Fault State
  | .reserve amount => reserve c s amount
  | .reserveAtMost amount => reserveAtMost c s amount
  | .dropReservation i => dropReservation s i
  | .hold i amount => hold s i amount
  | .holdAtMost i amount => holdAtMost s i amount
  | .dropHold h => dropHold s h
  | .newTransaction reservation => newTransaction s reservation
  | .allocateReserve t len => allocateReserve c s t len
  | .allocateLock t => allocateLock c s t
  | .allocateStep => allocateStep c s
  | .allocateFail t => allocateFail s t
  | .markAllocated t range => markAllocated c s t range
  | .deallocate t range => deallocate s t range
  | .commitBegin t logOffset => commitBegin s t logOffset
  | .commitStep => commitStep s
  | .commitEnd => commitEnd s
  | .dropBegin t => dropBegin s t
  | .dropStep t => dropStep s t
  | .flushBegin flushLogOffset => flushBegin s flushLogOffset
  | .flushStep => flushStep s

end Fuchsia.Fxfs.SimpleAllocator
