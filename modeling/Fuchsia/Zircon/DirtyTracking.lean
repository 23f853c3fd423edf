import Fuchsia.Zircon.PageList
import Fuchsia.Lib.Transition

/-! The dirty states of the pages of a root VMO with a page source
(`zircon/kernel/vm/vm_cow_pages.cc`), with the accesses to the pages and the writebacks of
the pager around it. Ranges are given in bytes, the slots of the page list by page
number. -/
namespace Fuchsia.Zircon.DirtyTracking

open PageList

inductive DirtyState
  | untracked
  | clean
  | dirty
  | awaitingClean
  deriving DecidableEq,Repr

structure Page (α : Type) where
  content : α
  dirtyState : DirtyState
  deriving DecidableEq,Repr

/-- What the VMO asks of its `PageSource`. -/
structure Source where
  shouldTrapDirtyTransitions : Bool
  isPreservingPageContent : Bool
  detached : Bool

/-- A root `VmCowPages`, and the pages that some mapping lets be written. -/
structure Vmo (α : Type) where
  size : ℕ
  pages : PageList (Page α)
  source : Source
  writable : ℕ → Bool

inductive DirtyTrackingAction
  | none
  | dirtyAllPagesOnWrite
  deriving DecidableEq,Repr

inductive Frame
  | zero
  | page (n : ℕ)
  deriving DecidableEq,Repr

structure LookupInfo where
  frames : List Frame
  writable : Bool
  deriving DecidableEq,Repr

variable {α : Type}

namespace Page

def isDirtyTracked (p : Page α) : Bool := p.dirtyState ≠ .untracked
def isDirty (p : Page α) : Bool := p.dirtyState = .dirty
def isClean (p : Page α) : Bool := p.dirtyState = .clean

end Page

def inRange (offset len max : ℕ) : Prop := ¬max < offset ∧ ¬max < offset+len

instance (offset len max : ℕ) : Decidable (inRange offset len max) := inferInstanceAs (Decidable (_ ∧ _))

def PageAligned (offset : ℕ) : Prop := offset%pageSize = 0

instance (offset : ℕ) : Decidable (PageAligned offset) := inferInstanceAs (Decidable (_ = _))

/-- The page `n` lies in a range. -/
def Covers (offset len n : ℕ) : Prop := offset/pageSize ≤ n ∧ n < (offset+len)/pageSize

instance (offset len n : ℕ) : Decidable (Covers offset len n) := inferInstanceAs (Decidable (_ ∧ _))

/-- `RangeChangeUpdateLocked`: no mapping can write in the range, be it unmapped or made
read-only. -/
def rangeChangeUpdate (v : Vmo α) (offset len : ℕ) : Vmo α :=
  { v with writable := fun n => v.writable n && !decide (Covers offset len n) }

def isDirtyTracked (v : Vmo α) : Bool := v.source.isPreservingPageContent

def requestPage (source : Source) : Status := if source.detached then .badState else .shouldWait

/-- The callback of `PrepareForWriteLocked`: the start and the length of the run of pages
to be dirtied. -/
def prepareVisit (s : ℕ × ℕ) (slot : Slot (Page α)) (off : ℕ) : Status × (ℕ × ℕ) :=
  match slot with
  | .page p =>
    if p.isDirty then if s.2 > 0 then (.stop,s) else (.next,(off+1,s.2))
    else (.next,(s.1,s.2+1))
  | _ => (.badState,s)

/-- `PrepareForWriteLocked` on pages by number; `none` when its `ASSERT` fails. -/
def prepareForWrite (v : Vmo α) (first count : ℕ) : Option Status :=
  if !v.source.shouldTrapDirtyTransitions then some .ok
  else
    match forEveryPageAndGapInRange prepareVisit (fun s _ _ => (.badState,s)) v.pages first
        (first+count) (first,0) with
    | (.ok,(_,len)) => if len = 0 then some .ok else some (requestPage v.source)
    | _ => none

def collectVisit (out : List ℕ) (slot : Slot (Page α)) (off : ℕ) : Status × List ℕ :=
  match slot with
  | .page _ => (.next,out++[off])
  | _ => (.stop,out)

def collectPages (pages : PageList (Page α)) (first count : ℕ) : List ℕ :=
  (forEveryPageAndGapInRange collectVisit (fun out _ _ => (.stop,out)) pages first (first+count)
    []).2

def morePages (pages : PageList (Page α)) (n maxOutPages : ℕ) : List ℕ :=
  if maxOutPages > 1 then collectPages pages (n+1) (maxOutPages-1) else []

def addPage (v : Vmo α) (n : ℕ) (p : Page α) : Vmo α :=
  rangeChangeUpdate { v with pages := v.pages.set n (.page p) } (n*pageSize) pageSize

/-- `LookupPagesLocked` where the slot has no page. -/
def lookupAbsent [Zero α] (v : Vmo α) (n : ℕ) (marker write fault : Bool) (maxOutPages : ℕ)
    (memory : Bool) : Status × LookupInfo × Vmo α :=
  if !fault then (.notFound,⟨[],write⟩,v)
  else if marker || (!write && !v.source.isPreservingPageContent) then
    if !write then
      (.ok,⟨.zero::(morePages v.pages n maxOutPages).map Frame.page,write⟩,v)
    else if !memory then (.noMemory,⟨[],write⟩,v)
    else
      (.ok,⟨[.page n],write⟩,
        addPage v n ⟨0,if v.source.isPreservingPageContent then .dirty else .untracked⟩)
  else (requestPage v.source,⟨[],write⟩,v)

/-- `LookupPagesLocked` where the slot has a page. -/
def lookupPresent (v : Vmo α) (n : ℕ) (write : Bool) (markDirty : DirtyTrackingAction)
    (maxOutPages : ℕ) : Option (Status × LookupInfo × Vmo α) :=
  let writable := write || !isDirtyTracked v
  let out := n::morePages v.pages n maxOutPages
  if write && isDirtyTracked v && markDirty = .dirtyAllPagesOnWrite then
    match prepareForWrite v n out.length with
    | none => none
    | some .ok => some (.ok,⟨out.map Frame.page,writable⟩,v)
    | some status => some (status,⟨[],writable⟩,v)
  else some (.ok,⟨out.map Frame.page,writable⟩,v)

/-- `LookupPagesLocked` with the write and fault flags; `memory` tells whether a page can
be allocated. -/
def lookupPages [Zero α] (v : Vmo α) (offset : ℕ) (write fault : Bool) (markDirty : DirtyTrackingAction)
    (maxOutPages : ℕ) (memory : Bool) : Option (Status × LookupInfo × Vmo α) :=
  if offset ≥ v.size then some (.outOfRange,⟨[],false⟩,v)
  else
    let n := offset/pageSize
    let maxOutPages := min maxOutPages ((v.size-n*pageSize)/pageSize)
    match v.pages n with
    | .page _ => lookupPresent v n write markDirty maxOutPages
    | .marker => some (lookupAbsent v n true write fault maxOutPages memory)
    | .empty => some (lookupAbsent v n false write fault maxOutPages memory)

def supplied : Option α → Slot (Page α)
  | some content => .page ⟨content,.clean⟩
  | none => .marker

/-- One page of `SupplyPagesLocked`: a page that is there already stays. -/
def supplyPage (v : Vmo α) (n : ℕ) (content : Option α) : Vmo α :=
  match v.pages n with
  | .page _ => v
  | _ => rangeChangeUpdate { v with pages := v.pages.set n (supplied content) } (n*pageSize) pageSize

def supplyLoop (v : Vmo α) (n : ℕ) : List (Option α) → Vmo α
  | [] => v
  | content::rest => supplyLoop (supplyPage v n content) (n+1) rest

def supplyPages (v : Vmo α) (offset : ℕ) (contents : List (Option α)) : Status × Vmo α :=
  if ¬inRange offset (contents.length*pageSize) v.size then (.outOfRange,v)
  else (.ok,supplyLoop v (offset/pageSize) contents)

def notDirty : Slot (Page α) → Bool
  | .page p => p.isDirtyTracked && !p.isDirty
  | _ => false

def dirtyVisit (pages : PageList (Page α)) (slot : Slot (Page α)) (off : ℕ) :
    Status × PageList (Page α) :=
  match slot with
  | .page p => (.next,pages.set off (.page { p with dirtyState := .dirty }))
  | _ => (.next,pages)

def dirtyPages (v : Vmo α) (offset len : ℕ) : Status × Vmo α :=
  if ¬inRange offset len v.size then (.outOfRange,v)
  else if !v.source.shouldTrapDirtyTransitions then (.notSupported,v)
  else
    let r := forEveryPageAndContiguousRunInRange notDirty dirtyVisit (fun pages _ _ => (.next,pages))
      v.pages (offset/pageSize) ((offset+len)/pageSize) v.pages
    (r.1,{ v with pages := r.2 })

def notClean : Slot (Page α) → Bool
  | .page p => p.isDirtyTracked && !p.isClean
  | _ => false

/-- `EnumerateDirtyRangesLocked` with a callback that collects the ranges as offsets and
lengths. -/
def enumerateDirtyRanges (v : Vmo α) (offset len : ℕ) : Status × List (ℕ × ℕ) :=
  if !v.source.isPreservingPageContent then (.notSupported,[])
  else if ¬inRange offset len v.size then (.outOfRange,[])
  else
    forEveryPageAndContiguousRunInRange notClean (fun out _ _ => (.next,out))
      (fun out start stop => (.next,out++[(start*pageSize,(stop-start)*pageSize)]))
      v.pages (offset/pageSize) ((offset+len+(pageSize-1))/pageSize) []

def moveVisit (before after : DirtyState) (pages : PageList (Page α)) (slot : Slot (Page α))
    (off : ℕ) : Status × PageList (Page α) :=
  match slot with
  | .page p =>
    if p.dirtyState = before then (.next,pages.set off (.page { p with dirtyState := after }))
    else (.next,pages)
  | _ => (.next,pages)

def moveState (before after : DirtyState) (v : Vmo α) (offset len : ℕ) :
    Status × PageList (Page α) :=
  forEveryPageInRange (moveVisit before after) v.pages (offset/pageSize) ((offset+len)/pageSize)
    v.pages

def writebackBegin (v : Vmo α) (offset len : ℕ) : Status × Vmo α :=
  if ¬inRange offset len v.size then (.outOfRange,v)
  else if !v.source.isPreservingPageContent then (.notSupported,v)
  else
    match moveState .dirty .awaitingClean v offset len with
    | (.ok,pages) => (.ok,rangeChangeUpdate { v with pages := pages } offset len)
    | (status,pages) => (status,{ v with pages := pages })

def writebackEnd (v : Vmo α) (offset len : ℕ) : Status × Vmo α :=
  if ¬inRange offset len v.size then (.outOfRange,v)
  else if !v.source.isPreservingPageContent then (.notSupported,v)
  else
    let r := moveState .awaitingClean .clean v offset len
    (r.1,{ v with pages := r.2 })

/-- `RemovePageForEviction` of a page that is not pinned. -/
def removePageForEviction (v : Vmo α) (n : ℕ) : Vmo α :=
  match v.pages n with
  | .page p =>
    if p.isClean then
      let v := rangeChangeUpdate v (n*pageSize) pageSize
      { v with pages := v.pages.set n .empty }
    else v
  | _ => v

structure Writeback (α : Type) where
  offset : ℕ
  len : ℕ
  pages : PageList (Page α)

/-- A VMO with its past: the pages written since the last writeback over them began, and
the writebacks that have not ended. -/
structure System (α : Type) where
  vmo : Vmo α
  written : ℕ → Bool
  begun : List (Writeback α)

inductive Action (α : Type)
  | supply (offset : ℕ) (contents : List (Option α))
  | lookup (offset : ℕ) (write fault : Bool) (markDirty : DirtyTrackingAction) (maxOutPages : ℕ)
      (memory : Bool)
  | store (n : ℕ) (content : α)
  | dirty (offset len : ℕ)
  | writebackBegin (offset len : ℕ)
  | writebackEnd (offset len : ℕ)
  | evict (n : ℕ)

def grant (v : Vmo α) (write : Bool) (markDirty : DirtyTrackingAction) (frames : List Frame) :
    Vmo α :=
  if write && markDirty = .dirtyAllPagesOnWrite then
    { v with writable := fun n => v.writable n || decide (.page n ∈ frames) }
  else v

def store (s : System α) (n : ℕ) (content : α) : Option (System α) :=
  match s.vmo.pages n with
  | .page p =>
    if s.vmo.writable n then
      some { s with
        vmo := { s.vmo with pages := s.vmo.pages.set n (.page { p with content := content }) }
        written := fun x => s.written x || decide (x = n) }
    else none
  | _ => none

def begin (s : System α) (offset len : ℕ) : System α :=
  match writebackBegin s.vmo offset len with
  | (.ok,v) =>
    { vmo := v
      written := fun n => s.written n && !decide (Covers offset len n)
      begun := ⟨offset,len,s.vmo.pages⟩::s.begun }
  | (_,v) => { s with vmo := v }

def step [Zero α] (s : System α) : Action α → Option (System α)
  | .supply offset contents => some { s with vmo := (supplyPages s.vmo offset contents).2 }
  | .lookup offset write fault markDirty maxOutPages memory =>
    (lookupPages s.vmo offset write fault markDirty maxOutPages memory).map
      fun r => { s with vmo := grant r.2.2 write markDirty r.2.1.frames }
  | .store n content => store s n content
  | .dirty offset len => some { s with vmo := (dirtyPages s.vmo offset len).2 }
  | .writebackBegin offset len => some (begin s offset len)
  | .writebackEnd offset len => some {
      s with
      vmo := (writebackEnd s.vmo offset len).2
      begun := s.begun.eraseP fun w => w.offset = offset ∧ w.len = len }
  | .evict n => some { s with vmo := removePageForEviction s.vmo n }

/-- Ranges are page aligned, a writeback begins where no other one has begun, and ends as
it began. -/
def Allowed (s : System α) : Action α → Prop
  | .supply offset _ => PageAligned offset
  | .dirty offset len => PageAligned offset ∧ PageAligned len
  | .writebackBegin offset len => PageAligned offset ∧ PageAligned len ∧
      ∀ w ∈ s.begun,w.offset+w.len ≤ offset ∨ offset+len ≤ w.offset
  | .writebackEnd offset len => ∃ w ∈ s.begun,w.offset = offset ∧ w.len = len
  | _ => True

def initial (size : ℕ) (source : Source) : System α :=
  ⟨⟨size,fun _ => .empty,source,fun _ => false⟩,fun _ => false,[]⟩

end Fuchsia.Zircon.DirtyTracking
