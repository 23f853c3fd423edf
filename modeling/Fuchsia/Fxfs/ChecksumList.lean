import Fuchsia.Fxfs.Fletcher
import Fuchsia.Fxfs.Range

/-! Checksums that a replay has to verify (`object_store/journal/checksum_list.rs`).
An entry's range is valid and has at least one checksum; a result `none` of an
operation stands for a panic. -/
namespace Fuchsia.Fxfs

structure ChecksumEntry where
  journalOffset : ℕ
  deviceRange : Range
  /-- Each checksum with the journal offset of the deallocation it depends on. -/
  checksums : List (UInt64 × ℕ)
  valid : deviceRange.valid
  nonempty : checksums ≠ []

namespace ChecksumEntry

def chunkSize (e : ChecksumEntry) : ℕ := e.deviceRange.length/e.checksums.length

end ChecksumEntry

structure ChecksumList where
  flushedOffset : ℕ
  checksumEntries : List ChecksumEntry
  /-- From the end of a device range to the index of its entry, ascending. -/
  deviceOffsetToChecksumEntry : List (ℕ × ℕ)
  maxChunkSize : ℕ

namespace ChecksumList

def new (flushedOffset : ℕ) : ChecksumList := ⟨flushedOffset,[],[],0⟩

variable {ε : Type} (device : ℕ → ℕ → Except ε (List UInt8))

def verifyChunks (chunkSize journalOffset lastJournalOffset : ℕ) :
    ℕ → List (UInt64 × ℕ) → Except ε Bool
  | _,[] => .ok true
  | offset,(checksum,dependency)::rest =>
    if journalOffset ≤ dependency ∧ dependency < lastJournalOffset then do
      let buf ← device offset chunkSize
      if fletcher64 buf 0 ≠ checksum then return false
      verifyChunks chunkSize journalOffset lastJournalOffset (offset+chunkSize) rest
    else verifyChunks chunkSize journalOffset lastJournalOffset (offset+chunkSize) rest

def verifyEntries (journalOffset lastJournalOffset : ℕ) :
    List ChecksumEntry → Except ε (Option ℕ)
  | [] => .ok none
  | e::rest =>
    if journalOffset ≤ e.journalOffset then .ok none
    else do
      let ok ← verifyChunks device e.chunkSize journalOffset lastJournalOffset
        e.deviceRange.start e.checksums
      if ok then verifyEntries journalOffset lastJournalOffset rest
      else return some e.journalOffset

def verifyLoop (entries : List ChecksumEntry) : ℕ → ℕ → ℕ → Except ε ℕ
  | 0,journalOffset,_ => .ok journalOffset
  | fuel+1,journalOffset,lastJournalOffset => do
    match ← verifyEntries device journalOffset lastJournalOffset entries with
    | none => return journalOffset
    | some offset => verifyLoop entries fuel offset journalOffset

/-- The offset that it is safe to replay up to. Each pass that fails lowers it. -/
def verify (l : ChecksumList) (journalOffset : ℕ) : Except ε ℕ :=
  verifyLoop device l.checksumEntries (journalOffset+1) journalOffset (2^64-1)

variable {device}

variable {entries : List ChecksumEntry} {journalOffset : ℕ}

lemma verifyEntries_lt {last offset : ℕ} (h : verifyEntries device journalOffset last entries = .ok (some offset)) :
    offset < journalOffset := by
  induction entries with
  | nil => simp [verifyEntries] at h
  | cons e rest ih =>
    simp only [verifyEntries] at h
    split_ifs at h with hle
    · simp at h
    · cases hok : verifyChunks device e.chunkSize journalOffset last e.deviceRange.start e.checksums with
      | error x => simp [hok,bind,Except.bind] at h
      | ok ok =>
        cases ok with
        | false =>
          obtain rfl : e.journalOffset = offset := by simpa [hok,bind,Except.bind,pure,Except.pure] using h
          omega
        | true => exact ih (by simpa [hok,bind,Except.bind] using h)

lemma verifyLoop_le {fuel last v : ℕ}
    (h : verifyLoop device entries fuel journalOffset last = .ok v) : v ≤ journalOffset := by
  induction fuel generalizing journalOffset last with
  | zero => exact (Except.ok.inj h).ge
  | succ fuel ih =>
    cases hpass : verifyEntries device journalOffset last entries with
    | error x => simp [verifyLoop,hpass,bind,Except.bind] at h
    | ok o =>
      cases o with
      | none =>
        obtain rfl : journalOffset = v := by simpa [verifyLoop,hpass,bind,Except.bind,pure,Except.pure] using h
        exact le_rfl
      | some offset =>
        have hnext : v ≤ offset := ih (by simpa [verifyLoop,hpass,bind,Except.bind] using h)
        exact hnext.trans (verifyEntries_lt hpass).le

end ChecksumList
end Fuchsia.Fxfs
