import Fuchsia.Fxfs.Fletcher
import Fuchsia.Lib.ByteFile
import Fuchsia.Lib.Fallible
import Fuchsia.Lib.Framing

/-! `JournalWriter` (`object_store/journal/writer.rs`): records are serialized into blocks
that end in a checksum, and whole blocks are taken from its buffer to the journal file. -/
namespace Fuchsia.Fxfs

open Bytes Fallible List Nat Framing

/-- The size of a block of the journal file. -/
structure BlockSize where
  bytes : ℕ
  large : 16 < bytes
  words : 4 ∣ bytes

inductive JournalFault
  | panic
  | stuck
  | endOfFile
  | invalidRecord
  deriving DecidableEq,Repr

def checksumSize : ℕ := 8

/-- `fletcher64` with its assertion. -/
def checksumOf (buf : List UInt8) (previous : UInt64) : Except JournalFault UInt64 := do
  require .panic (4 ∣ buf.length)
  return fletcher64 buf previous

/-- What `read_u64` and `write_u64` make of a checksum. -/
def readChecksum (bs : List UInt8) : UInt64 := UInt64.ofNat (leNat bs)

def writeChecksum (checksum : UInt64) : List UInt8 := leBytes checksumSize checksum.toNat

inductive DeserializeError
  | unexpectedEof
  | other
  deriving DecidableEq,Repr

/-- The serialization of records, which is self-delimiting. -/
structure Codec (R : Type) where
  endBlock : R
  serialize : R → List UInt8
  deserialize : List UInt8 → Except DeserializeError (R × ℕ)
  deserialize_append : ∀ record rest,
    deserialize (serialize record++rest) = .ok (record,(serialize record).length)
  deserialize_truncated : ∀ record bs rest,serialize record = bs++rest → rest ≠ [] →
    deserialize bs = .error .unexpectedEof
  serialize_ne_nil : ∀ record,serialize record ≠ []

structure JournalWriter where
  checkpoint : JournalCheckpoint
  lastChecksum : UInt64
  buf : List UInt8
  deriving DecidableEq,Repr

namespace JournalWriter

def new (lastChecksum : UInt64) : JournalWriter := ⟨⟨0,0⟩,lastChecksum,[]⟩

def journalFileCheckpoint (w : JournalWriter) : JournalCheckpoint :=
  ⟨w.checkpoint.fileOffset+w.buf.length,w.lastChecksum⟩

variable (b : BlockSize)

def endBlock (w : JournalWriter) : Except JournalFault JournalWriter := do
  require .panic (b.bytes ≤ w.buf.length+checksumSize)
  let sum ← checksumOf (w.buf.drop (w.buf.length+checksumSize-b.bytes)) w.lastChecksum
  return { w with lastChecksum := sum,buf := w.buf++writeChecksum sum }

/-- The loop of `write`, with the bytes that are left to write. -/
def writeLoop : ℕ → JournalWriter → List UInt8 → Except JournalFault JournalWriter
  | _,w,[] => .ok w
  | 0,_,_::_ => .error .stuck
  | fuel+1,w,x::rest => do
    let data := x::rest
    require .panic (w.buf.length%b.bytes+checksumSize ≤ b.bytes)
    let space := b.bytes-checksumSize-w.buf.length%b.bytes
    let toCopy := min space data.length
    let w := { w with buf := w.buf++data.take toCopy }
    let w ← if toCopy = space then w.endBlock b else .ok w
    writeLoop fuel w (data.drop toCopy)

def write (w : JournalWriter) (data : List UInt8) : Except JournalFault JournalWriter :=
  w.writeLoop b data.length data

def padToBlock (w : JournalWriter) : Except JournalFault JournalWriter :=
  if 0 < w.buf.length%b.bytes then do
    require .panic (w.buf.length%b.bytes+checksumSize ≤ b.bytes)
    w.write b (replicate (b.bytes-checksumSize-w.buf.length%b.bytes) 0)
  else .ok w

/-- The whole blocks of the buffer, with the offset to write them at. -/
def takeBuffer (w : JournalWriter) : Option (ℕ × List UInt8) × JournalWriter :=
  let toDo := w.buf.length-w.buf.length%b.bytes
  if toDo = 0 then (none,w)
  else (some (w.checkpoint.fileOffset,w.buf.take toDo),
    ⟨⟨w.checkpoint.fileOffset+toDo,w.lastChecksum⟩,w.lastChecksum,w.buf.drop toDo⟩)

variable {R : Type} (c : Codec R)

def writeRecord (w : JournalWriter) (record : R) : Except JournalFault JournalWriter := do
  let w' ← w.write b (c.serialize record)
  require .panic (w'.buf.length-w.buf.length ≤ b.bytes)
  return w'

end JournalWriter

lemma readChecksum_writeChecksum (checksum : UInt64) : readChecksum (writeChecksum checksum) = checksum := by
  have hlt : checksum.toNat < 256^checksumSize := checksum.toNat_lt
  rw [readChecksum,writeChecksum,leNat_leBytes,mod_eq_of_lt hlt]
  exact UInt64.ofNat_toNat

def BlockSize.framing (b : BlockSize) : Framing UInt8 UInt64 where
  payload := b.bytes-checksumSize
  trailer := checksumSize
  next := fletcher64
  encode := writeChecksum
  payload_pos := by
    have hlarge := b.large
    simp only [checksumSize]
    omega
  length_encode _ := length_leBytes _ _

variable {b : BlockSize}

lemma framing_size (b : BlockSize) : b.framing.size = b.bytes := by
  have hlarge := b.large
  simp only [Framing.size,BlockSize.framing,checksumSize]
  omega

lemma framing_payload (b : BlockSize) : b.framing.payload+checksumSize = b.bytes := framing_size b

lemma payload_eq (b : BlockSize) : b.bytes-checksumSize = b.framing.payload := rfl

lemma words_payload (b : BlockSize) : 4 ∣ b.framing.payload := by
  refine (Nat.dvd_add_left (show 4 ∣ checksumSize by decide)).mp ?_
  rw [framing_payload]
  exact b.words

lemma checksumOf_eq {buf : List UInt8} (h : buf.length = b.framing.payload)
    (previous : UInt64) : checksumOf buf previous = .ok (fletcher64 buf previous) := by
  rw [checksumOf,require_of (h ▸ words_payload b),ok_bind,pure_eq]

namespace JournalWriter

structure Wrote (b : BlockSize) (base : ℕ) (seed : UInt64) (data flushed : List UInt8)
    (w : JournalWriter) : Prop where
  output : flushed++w.buf = b.framing.output seed data
  whole : b.bytes ∣ flushed.length
  offset : w.checkpoint.fileOffset = base+flushed.length
  checksum : w.lastChecksum = b.framing.chain seed data (data.length/b.framing.payload)

variable {base : ℕ} {seed : UInt64} {data flushed more : List UInt8} {w : JournalWriter}

def padding (b : BlockSize) (n : ℕ) : ℕ :=
  if 0 < n%b.framing.payload then b.framing.payload-n%b.framing.payload else 0

lemma new_wrote (b : BlockSize) (seed : UInt64) : Wrote b 0 seed [] [] (new seed) where
  output := by simp [new,Framing.output,blocks]
  whole := dvd_zero _
  offset := rfl
  checksum := by simp [new,chain]

section

variable (h : Wrote b base seed data flushed w)
include h

lemma Wrote.length : flushed.length+w.buf.length = b.framing.position data.length := by
  have hlen : (b.framing.output seed data).length = b.framing.position data.length :=
    b.framing.length_output
  rw [← hlen,← h.output,length_append]

lemma Wrote.buf_mod : w.buf.length%b.bytes = data.length%b.framing.payload := by
  have hmod := congrArg (·%b.bytes) h.length
  obtain ⟨n,hn⟩ := h.whole
  simp only [hn,mul_add_mod] at hmod
  rw [hmod,← framing_size,b.framing.position_mod]

lemma Wrote.checkpoint_eq : w.journalFileCheckpoint = ⟨base+b.framing.position data.length,
      b.framing.chain seed data (data.length/b.framing.payload)⟩ := by
  rw [journalFileCheckpoint,h.offset,h.checksum,add_assoc,h.length]

lemma Wrote.extend (hlt : data.length%b.framing.payload+more.length < b.framing.payload) :
    Wrote b base seed (data++more) flushed { w with buf := w.buf++more } where
  output := by
    have hle := b.framing.payload_mul_le data.length
    rw [Framing.output,length_append,(b.framing.div_add_of_lt hlt).1,b.framing.blocks_append hle,
      drop_append_of_le_length hle,← append_assoc,← append_assoc,h.output,Framing.output]
  whole := h.whole
  offset := h.offset
  checksum := by
    rw [length_append,(b.framing.div_add_of_lt hlt).1,b.framing.chain_append (b.framing.payload_mul_le _)]
    exact h.checksum

lemma Wrote.buf_drop : data.length%b.framing.payload ≤ w.buf.length ∧
      w.buf.drop (w.buf.length-data.length%b.framing.payload) =
        data.drop (b.framing.payload*(data.length/b.framing.payload)) := by
  have hle : data.length%b.framing.payload ≤ w.buf.length := by
    rw [← h.buf_mod]
    exact mod_le _ _
  have hlen := h.length
  have hblocks : (b.framing.blocks seed data (data.length/b.framing.payload)).length =
      b.framing.size*(data.length/b.framing.payload) :=
    b.framing.length_blocks (b.framing.payload_mul_le data.length)
  refine ⟨hle,?_⟩
  rw [position] at hlen
  have hdrop := congrArg (drop (flushed.length+ (w.buf.length-data.length%b.framing.payload))) h.output
  rw [drop_append,drop_of_length_le (le_add_right _ _),nil_append, Nat.add_sub_cancel_left] at hdrop
  rw [hdrop,Framing.output]
  exact drop_left' (by omega)

lemma Wrote.endBlock (heq : data.length%b.framing.payload+more.length = b.framing.payload) :
    ∃ w',{ w with buf := w.buf++more }.endBlock b = .ok w' ∧
      Wrote b base seed (data++more) flushed w' ∧ w'.checkpoint = w.checkpoint := by
  obtain ⟨hle,hdrop⟩ := h.buf_drop
  have hsize := framing_payload b
  have hmod := div_add_mod data.length b.framing.payload
  have hcontents : (w.buf++more).drop ((w.buf++more).length+checksumSize-b.bytes) =
      data.drop (b.framing.payload*(data.length/b.framing.payload))++more := by
    have hindex : (w.buf++more).length+checksumSize-b.bytes = w.buf.length-data.length%b.framing.payload := by
      rw [length_append]
      omega
    rw [hindex,drop_append_of_le_length (sub_le _ _),hdrop]
  have hlen : (data.drop (b.framing.payload*(data.length/b.framing.payload))++more).length =
      b.framing.payload := by
    rw [length_append,length_drop]
    omega
  set sum := fletcher64 (data.drop (b.framing.payload*(data.length/b.framing.payload))++more)
    (b.framing.chain seed data (data.length/b.framing.payload)) with hsum
  refine ⟨{ w with lastChecksum := sum,buf := w.buf++more++writeChecksum sum },?_,⟨?_,h.whole,h.offset,?_⟩,rfl⟩
  · have hfits : b.bytes ≤ (w.buf++more).length+checksumSize := by
      rw [length_append]
      omega
    simp only [JournalWriter.endBlock,require_of hfits,ok_bind,hcontents,checksumOf_eq hlen,pure_eq,h.checksum,← hsum]
  · rw [b.framing.output_append_of_eq heq,← h.output]
    simp only [append_assoc]
    rfl
  · rw [b.framing.div_of_append_eq heq,Framing.chain,b.framing.piece_of_append_eq heq,
      b.framing.chain_append (b.framing.payload_mul_le _)]
    rfl

lemma writeLoop_wrote (fuel : ℕ) (hfuel : more.length ≤ fuel) :
    ∃ w',w.writeLoop b fuel more = .ok w' ∧ Wrote b base seed (data++more) flushed w' ∧
      w'.checkpoint = w.checkpoint := by
  induction fuel generalizing w data more with
  | zero =>
    obtain rfl := length_eq_zero_iff.mp (le_zero.mp hfuel)
    exact ⟨w,by rw [writeLoop],by rwa [append_nil],rfl⟩
  | succ fuel ih =>
    cases more with
    | nil => exact ⟨w,by rw [writeLoop],by rwa [append_nil],rfl⟩
    | cons x rest =>
      have hmod := h.buf_mod
      have hlt := mod_lt data.length b.framing.payload_pos
      have hsize := framing_payload b
      have hroom : w.buf.length%b.bytes+checksumSize ≤ b.bytes := by omega
      have hspace : b.bytes-checksumSize-w.buf.length%b.bytes =
          b.framing.payload-data.length%b.framing.payload := by omega
      have hlen : (x::rest).length = rest.length+1 := rfl
      rw [writeLoop,require_of hroom,ok_bind]
      simp only [hspace]
      set space := b.framing.payload-data.length%b.framing.payload
      set toCopy := min space (x::rest).length with htoCopy
      have hcopy : ((x::rest).take toCopy).length = toCopy := by
        rw [length_take]
        exact min_eq_left (min_le_right _ _)
      have hleft : ((x::rest).drop toCopy).length ≤ fuel := by
        rw [length_drop]
        omega
      by_cases hfull : toCopy = space
      · have heq : data.length%b.framing.payload+((x::rest).take toCopy).length =
            b.framing.payload := by omega
        obtain ⟨w1,hend,hw1,hcheck⟩ := h.endBlock heq
        obtain ⟨w',hloop,hw',hcheck'⟩ := ih hw1 hleft
        refine ⟨w',?_,by rwa [append_assoc,take_append_drop] at hw',hcheck'.trans hcheck⟩
        rw [if_pos hfull,hend,ok_bind,hloop]
      · have hless : data.length%b.framing.payload+((x::rest).take toCopy).length <
            b.framing.payload := by omega
        obtain ⟨w',hloop,hw',hcheck'⟩ := ih (h.extend hless) hleft
        refine ⟨w',?_,by rwa [append_assoc,take_append_drop] at hw',hcheck'⟩
        rw [if_neg hfull,ok_bind,hloop]

lemma write_wrote (more : List UInt8) : ∃ w',w.write b more = .ok w' ∧ Wrote b base seed (data++more) flushed w' ∧
      w'.checkpoint = w.checkpoint :=
  writeLoop_wrote h more.length le_rfl

lemma padToBlock_wrote : ∃ w',w.padToBlock b = .ok w' ∧
      Wrote b base seed (data++replicate (padding b data.length) 0) flushed w' ∧ w'.checkpoint = w.checkpoint := by
  have hmod := h.buf_mod
  have hlt := mod_lt data.length b.framing.payload_pos
  have hsize := framing_payload b
  rw [padToBlock,padding,hmod]
  split_ifs with hpos
  · have hspace : b.bytes-checksumSize-data.length%b.framing.payload =
        b.framing.payload-data.length%b.framing.payload := by omega
    rw [require_of (by omega),ok_bind,hspace]
    exact write_wrote h _
  · exact ⟨w,rfl,by simpa using h,rfl⟩

variable {R : Type} {c : Codec R}

lemma writeRecord_wrote {record : R} (hfit : (c.serialize record).length ≤ b.framing.payload) :
    ∃ w',w.writeRecord b c record = .ok w' ∧
      Wrote b base seed (data++c.serialize record) flushed w' ∧ w'.checkpoint = w.checkpoint := by
  obtain ⟨w',hwrite,hw',hcheck⟩ := write_wrote h (c.serialize record)
  refine ⟨w',?_,hw',hcheck⟩
  have hlen := h.length
  have hlen' := hw'.length
  have hlt := mod_lt data.length b.framing.payload_pos
  have hsize := framing_payload b
  have hgrow : b.framing.position (data++c.serialize record).length ≤ b.framing.position data.length+b.bytes := by
    rw [length_append]
    by_cases hcross : data.length%b.framing.payload+(c.serialize record).length < b.framing.payload
    · rw [b.framing.position_add_of_lt hcross]
      omega
    · rw [b.framing.position_add_of_le (not_lt.mp hcross) (by omega)]
      have htrailer : b.framing.trailer = checksumSize := rfl
      omega
  rw [writeRecord,hwrite,ok_bind,require_of (by omega),ok_bind,pure_eq]

lemma takeBuffer_wrote : (w.takeBuffer b = (none,w) ∧ w.buf.length < b.bytes) ∨
      ∃ w',∃ taken ≠ [],w.takeBuffer b = (some (base+flushed.length,taken),w') ∧
        Wrote b base seed data (flushed++taken) w' ∧ w'.buf.length < b.bytes := by
  have hdiv := div_add_mod w.buf.length b.bytes
  have hpos : 0 < b.bytes := zero_lt_of_lt b.large
  have hmod := mod_lt w.buf.length hpos
  simp only [takeBuffer]
  by_cases hzero : w.buf.length-w.buf.length%b.bytes = 0
  · rw [if_pos hzero]
    exact .inl ⟨rfl,by omega⟩
  · rw [if_neg hzero,h.offset]
    refine .inr ⟨_,w.buf.take (w.buf.length-w.buf.length%b.bytes),?_,rfl,⟨?_,?_,?_,h.checksum⟩,?_⟩
    · rw [← length_pos_iff,length_take]
      omega
    · rw [append_assoc,take_append_drop]
      exact h.output
    · rw [length_append,length_take_of_le (sub_le _ _)]
      refine dvd_add h.whole ⟨w.buf.length/b.bytes,?_⟩
      omega
    · rw [length_append,length_take_of_le (sub_le _ _),add_assoc]
    · rw [length_drop]
      omega

end

end JournalWriter

/-! `JournalReader` (`object_store/journal/reader.rs`): blocks are read and verified as they
are needed, and records are deserialized across the ends of blocks. -/

structure JournalReader where
  buf : List UInt8
  start : ℕ
  stop : ℕ
  readOffset : ℕ
  bufFileOffset : ℕ
  checksums : List UInt64
  badChecksum : Bool
  foundReset : Bool
  firstRead : Bool
  deriving DecidableEq,Repr

inductive ReadResult (R : Type)
  | reset
  | some (record : R)
  | checksumMismatch
  deriving DecidableEq,Repr

namespace JournalReader

def buffer (r : JournalReader) : List UInt8 := (r.buf.take r.stop).drop r.start

def journalFileCheckpoint (r : JournalReader) : Except JournalFault JournalCheckpoint :=
  match r.checksums with
  | [] => .error .panic
  | checksum::_ => .ok ⟨r.bufFileOffset,checksum⟩

def lastReadChecksum (r : JournalReader) : Except JournalFault UInt64 :=
  match r.checksums.getLast? with
  | none => .error .panic
  | some checksum => .ok checksum

variable (b : BlockSize)

def new (checkpoint : JournalCheckpoint) : JournalReader where
  buf := []
  start := 0
  stop := 0
  readOffset := checkpoint.fileOffset-checkpoint.fileOffset%b.bytes
  bufFileOffset := checkpoint.fileOffset
  checksums := [checkpoint.checksum]
  badChecksum := false
  foundReset := false
  firstRead := true

def consume (r : JournalReader) (amount : ℕ) : Except JournalFault JournalReader := do
  require .panic (amount < b.bytes)
  if b.bytes-checksumSize ≤ r.bufFileOffset%b.bytes+amount then
    match r.checksums with
    | [] => .error .panic
    | _::rest =>
      .ok { r with
        bufFileOffset := r.bufFileOffset+amount+checksumSize
        checksums := rest
        start := r.start+amount }
  else .ok { r with bufFileOffset := r.bufFileOffset+amount,start := r.start+amount }

def skipToEndOfBlock (r : JournalReader) : Except JournalFault JournalReader :=
  if 0 < r.bufFileOffset%b.bytes then do
    require .panic (checksumSize ≤ b.bytes-r.bufFileOffset%b.bytes)
    r.consume b (b.bytes-r.bufFileOffset%b.bytes-checksumSize)
  else .ok r

/-- The checksum of the block is the next of the chain: its contents follow what is
buffered. -/
def accept (r : JournalReader) (buf : List UInt8) (stored : UInt64) :
    Except JournalFault JournalReader := do
  require .panic (r.bufFileOffset ≤ r.readOffset ∨ r.start = 0)
  return { r with
    buf := buf
    start := if r.readOffset < r.bufFileOffset then r.bufFileOffset-r.readOffset else r.start
    stop := buf.length-checksumSize
    readOffset := r.readOffset+b.bytes
    checksums := r.checksums++[stored]
    firstRead := false }

/-- The checksum of the block does not go on with the chain: the stream has been reset here,
or it ends. -/
def refuse (r : JournalReader) (buf contents : List UInt8) (stored last : UInt64) :
    Except JournalFault JournalReader :=
  if r.firstRead then .ok { r with buf := buf,badChecksum := true }
  else do
    let computed ← checksumOf contents (last^^^resetXor)
    if stored = computed then
      return { r with
        buf := buf
        foundReset := true
        checksums := r.checksums++[stored]
        readOffset := r.readOffset+b.bytes }
    else return { r with buf := buf,badChecksum := true }

/-- One turn of the loop of `fill_buf`, and whether the loop goes on. -/
def readBlock (file : ByteFile) (r : JournalReader) :
    Except JournalFault (JournalReader × Bool) := do
  let resized := r.buf.take (r.stop+b.bytes)++List.replicate (r.stop+b.bytes-r.buf.length) 0
  let last ← r.lastReadChecksum
  require .panic (r.readOffset%b.bytes = 0)
  match file.read r.readOffset b.bytes with
  | none => .error .endOfFile
  | some block =>
    let buf := resized.take r.stop++block
    let contents := block.take (b.bytes-checksumSize)
    let stored := readChecksum (block.drop (b.bytes-checksumSize))
    let computed ← checksumOf contents last
    if stored ≠ computed then return (← r.refuse b buf contents stored last,false)
    else return (← r.accept b buf stored,true)

def fillLoop (file : ByteFile) : ℕ → JournalReader → Except JournalFault JournalReader
  | fuel,r =>
    if b.bytes-checksumSize ≤ r.stop-r.start then .ok r
    else
      match fuel with
      | 0 => .error .stuck
      | fuel+1 => do
        let (r,more) ← r.readBlock b file
        if more then fillLoop file fuel r else return r

def fillBuf (file : ByteFile) (r : JournalReader) : Except JournalFault JournalReader := do
  require .panic (r.start ≤ r.stop ∧ r.stop ≤ r.buf.length)
  if r.foundReset ∨ r.badChecksum ∨ b.bytes-checksumSize ≤ r.stop-r.start then .ok r
  else fillLoop b file b.bytes { r with
    buf := r.buffer++r.buf.drop r.buffer.length
    start := 0
    stop := r.stop-r.start }

variable {R : Type} (c : Codec R)

def deserialize (file : ByteFile) (r : JournalReader) :
    Except JournalFault (ReadResult R × JournalReader) := do
  let r ← r.fillBuf b file
  match c.deserialize r.buffer with
  | .ok (record,consumed) => return (.some record,← r.consume b consumed)
  | .error e =>
    if r.foundReset then do
      let r ← { r with foundReset := false }.consume b (r.stop-r.start)
      require .panic (b.bytes ≤ r.buf.length)
      return (.reset,{ r with start := r.buf.length-b.bytes,stop := r.buf.length-checksumSize })
    else if e = .unexpectedEof ∧ r.badChecksum then return (.checksumMismatch,r)
    else .error .invalidRecord

end JournalReader

end Fuchsia.Fxfs
