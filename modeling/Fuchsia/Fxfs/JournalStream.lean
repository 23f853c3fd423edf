import Fuchsia.Fxfs.JournalReading
import Mathlib.Data.List.TakeWhile

/-! What `JournalWriter` writes, `JournalReader` reads: record after record, with the same
checkpoints, up to the end of the blocks that have reached the journal file. -/
namespace Fuchsia.Fxfs.JournalStream

open Fallible JournalWriter JournalReader ByteFile List Nat Framing

variable {R : Type} [DecidableEq R] (b : BlockSize) (c : Codec R)

/-- A record with the checkpoint right after it, and the one after the padding that an
end-of-block record brings. -/
structure Entry (R : Type) where
  record : R
  checkpoint : JournalCheckpoint
  padded : JournalCheckpoint
  deriving DecidableEq,Repr

/-- The record, with its padding, ends before an offset of the file. -/
def Entry.endsBy (offset : ℕ) (entry : Entry R) : Bool := entry.padded.fileOffset ≤ offset

structure State where
  writer : JournalWriter
  file : ByteFile

inductive Op (R : Type)
  | record (record : R)
  | flush
  deriving DecidableEq,Repr

def writeEntry (w : JournalWriter) (record : R) :
    Except JournalFault (Entry R × JournalWriter) := do
  let w ← w.writeRecord b c record
  let checkpoint := w.journalFileCheckpoint
  let w ← if record = c.endBlock then w.padToBlock b else .ok w
  return (⟨record,checkpoint,w.journalFileCheckpoint⟩,w)

/-- The blocks that `take_buffer` gives are written to the file. -/
def flush (s : State) : State :=
  match s.writer.takeBuffer b with
  | (none,w) => ⟨w,s.file⟩
  | (some (offset,data),w) => ⟨w,s.file.write offset data⟩

def run : State → List (Op R) → Except JournalFault (List (Entry R) × State)
  | s,[] => .ok ([],s)
  | s,.record record::ops => do
    let (entry,w) ← writeEntry b c s.writer record
    let (entries,s) ← run { s with writer := w } ops
    return (entry::entries,s)
  | s,.flush::ops => run (flush b s) ops

inductive Item (R : Type)
  | reset
  | entry (entry : Entry R)
  deriving DecidableEq,Repr

def afterRecord (record : R) (r : JournalReader) : Except JournalFault JournalReader :=
  if record = c.endBlock then r.skipToEndOfBlock b else .ok r

/-- The reading loop of `Journal::replay`. -/
def readAll (file : ByteFile) :
    ℕ → JournalReader → Except JournalFault (List (Item R) × JournalReader)
  | 0,_ => .error .stuck
  | fuel+1,r => do
    match ← r.deserialize b c file with
    | (.checksumMismatch,r) => return ([],r)
    | (.reset,r) => do
      let (items,r) ← readAll file fuel r
      return (.reset::items,r)
    | (.some record,r) => do
      let checkpoint ← r.journalFileCheckpoint
      let r ← afterRecord b c record r
      let padded ← r.journalFileCheckpoint
      let (items,r) ← readAll file fuel r
      return (.entry ⟨record,checkpoint,padded⟩::items,r)

section Data

def extend (data : List UInt8) (record : R) : List UInt8 :=
  if record = c.endBlock then data++c.serialize record++
    replicate (padding b (data++c.serialize record).length) 0
  else data++c.serialize record

def dataOf (data : List UInt8) (records : List R) : List UInt8 := records.foldl (extend b c) data

def checkpointOf (base : ℕ) (seed : UInt64) (data : List UInt8) : JournalCheckpoint :=
  ⟨base+b.framing.position data.length,b.framing.chain seed data (data.length/b.framing.payload)⟩

def entriesOf (base : ℕ) (seed : UInt64) : List UInt8 → List R → List (Entry R)
  | _,[] => []
  | data,record::records =>
    ⟨record,checkpointOf b base seed (data++c.serialize record),
      checkpointOf b base seed (extend b c data record)⟩::
    entriesOf base seed (extend b c data record) records

def recordsOf : List (Op R) → List R
  | [] => []
  | .record record::ops => record::recordsOf ops
  | .flush::ops => recordsOf ops

variable {b c} {base : ℕ} {seed : UInt64} {data flushed : List UInt8} {record : R}

lemma extend_eq (data : List UInt8) (record : R) :
    ∃ n,extend b c data record = data++(c.serialize record++replicate n 0) := by
  rw [extend]
  split_ifs
  · exact ⟨_,append_assoc _ _ _⟩
  · exact ⟨0,by rw [replicate_zero,append_nil]⟩

lemma dataOf_eq (data : List UInt8) (records : List R) : ∃ more,dataOf b c data records = data++more := by
  induction records generalizing data with
  | nil => exact ⟨[],(append_nil _).symm⟩
  | cons record records ih =>
    obtain ⟨more,hmore⟩ := ih (extend b c data record)
    obtain ⟨n,hn⟩ := extend_eq (b := b) (c := c) data record
    exact ⟨_,hmore.trans (by rw [hn,append_assoc])⟩

end Data

section Write

variable {b c} {base : ℕ} {seed : UInt64} {data flushed : List UInt8} {s : State}

structure Written (b : BlockSize) (base : ℕ) (seed : UInt64) (data flushed : List UInt8)
    (s : State) : Prop where
  wrote : s.writer.Wrote b base seed data flushed
  holds : s.file.Holds base flushed

lemma writeEntry_wrote {w : JournalWriter} (h : w.Wrote b base seed data flushed) {record : R}
    (hfit : (c.serialize record).length ≤ b.framing.payload) :
    ∃ w',writeEntry b c w record = .ok (⟨record,checkpointOf b base seed (data++c.serialize record),
          checkpointOf b base seed (extend b c data record)⟩,w') ∧
      w'.Wrote b base seed (extend b c data record) flushed := by
  obtain ⟨w1,hwrite,hw1,-⟩ := writeRecord_wrote h hfit
  rw [writeEntry,hwrite,ok_bind,extend]
  split_ifs
  · obtain ⟨w2,hpad,hw2,-⟩ := padToBlock_wrote hw1
    refine ⟨w2,?_,hw2⟩
    simp only [hpad,ok_bind,pure_eq,hw1.checkpoint_eq,hw2.checkpoint_eq,checkpointOf]
  · refine ⟨w1,?_,hw1⟩
    simp only [ok_bind,pure_eq,hw1.checkpoint_eq,checkpointOf]

lemma flush_written (h : Written b base seed data flushed s) : ∃ flushed',Written b base seed data flushed' (flush b s) ∧
      (flush b s).writer.buf.length < b.bytes := by
  rcases takeBuffer_wrote h.wrote with ⟨htake,hlt⟩ | ⟨w',taken,-,htake,hw',hlt⟩
  · rw [flush,htake]
    exact ⟨flushed,h,hlt⟩
  · rw [flush,htake]
    refine ⟨flushed++taken,⟨hw',?_⟩,hlt⟩
    refine holds_append.mpr ⟨⟨h.holds.size.trans (le_max_left _ _),fun x hx => ?_⟩,le_max_right _ _,fun x hx => ?_⟩
    · simp only [ByteFile.write,if_neg (show ¬base+flushed.length ≤ base+x by omega)]
      exact h.holds.bytes x hx
    · simp only [ByteFile.write,if_pos (Nat.le_add_right _ x),Nat.add_sub_cancel_left,
        getD_eq_getElem?_getD,getElem?_eq_getElem hx,Option.getD_some]

lemma run_written (ops : List (Op R)) (h : Written b base seed data flushed s)
    (hfit : ∀ record ∈ recordsOf ops,(c.serialize record).length ≤ b.framing.payload) :
    ∃ s' flushed',run b c s ops = .ok (entriesOf b c base seed data (recordsOf ops),s') ∧
      Written b base seed (dataOf b c data (recordsOf ops)) flushed' s' := by
  induction ops generalizing s data flushed with
  | nil => exact ⟨s,flushed,rfl,h⟩
  | cons op ops ih =>
    cases op with
    | record record =>
      obtain ⟨w',hwrite,hw'⟩ := writeEntry_wrote h.wrote (hfit record (by simp [recordsOf]))
      obtain ⟨s',flushed',hrun,hs'⟩ := @ih _ _ { s with writer := w' } ⟨hw',h.holds⟩
        fun record hmem => hfit record (by simp [recordsOf,hmem])
      refine ⟨s',flushed',?_,hs'⟩
      rw [run,hwrite,ok_bind]
      simp only [hrun,ok_bind,pure_eq]
      rfl
    | flush =>
      obtain ⟨flushed1,hflush,-⟩ := flush_written h
      exact ih hflush hfit

end Write

section Read

variable {b c} {base p m i : ℕ} {seed head : UInt64} {data : List UInt8} {file : ByteFile}
  {r : JournalReader} {phase tail : JournalReader.Phase}

open JournalReader (OnFile Follows Within)

lemma length_extend (data : List UInt8) (record : R) :
    (extend b c data record).length = if record = c.endBlock then (data++c.serialize record).length+
        padding b (data++c.serialize record).length else (data++c.serialize record).length := by
  rw [extend]
  split_ifs
  · rw [length_append,length_replicate]
  · rfl

lemma add_padding_le {n : ℕ} : n+padding b n ≤ b.framing.payload*m ↔ n ≤ b.framing.payload*m := by
  constructor
  · exact (le_add_right _ _).trans
  · intro hle
    have hdiv := div_add_mod n b.framing.payload
    have hmod := mod_lt n b.framing.payload_pos
    rw [padding]
    split_ifs with hpos
    · have hlt : n/b.framing.payload < m := by
        by_contra hge
        have hmul := mul_le_mul_left b.framing.payload (not_lt.mp hge)
        omega
      have hmul := mul_le_mul_left b.framing.payload hlt
      rw [mul_succ] at hmul
      omega
    · exact hle

variable {record : R}

lemma length_extend_le : (extend b c data record).length ≤ b.framing.payload*m ↔
      (data++c.serialize record).length ≤ b.framing.payload*m := by
  rw [length_extend]
  split_ifs
  · exact add_padding_le
  · rfl

variable {total : List UInt8}

lemma head_eq {head head' : UInt64} {p q : ℕ} (hhead : head = b.framing.chain seed total (p/b.framing.payload))
    (hnext : head' = b.framing.chain seed total (q/b.framing.payload) ∨ q/b.framing.payload = p/b.framing.payload ∧ head' = head) :
    head' = b.framing.chain seed total (q/b.framing.payload) := by
  rcases hnext with hnext | ⟨hdiv,hsame⟩
  · exact hnext
  · rw [hsame,hdiv,hhead]

variable {rest : List UInt8}

lemma readAll_record (fuel : ℕ) (h : Within b file base seed total m tail phase i data.length head r)
    (htotal : total = extend b c data record++rest) (hfit : (c.serialize record).length ≤ b.framing.payload)
    (hend : (extend b c data record).length ≤ b.framing.payload*m) :
    ∃ r' phase' i' head' entry,readAll b c file (fuel+1) r =
        (readAll b c file fuel r').map (fun q => (.entry entry::q.1,q.2)) ∧
      Within b file base seed total m tail phase' i' (extend b c data record).length head' r' ∧
      entry.record = record ∧ (head = b.framing.chain seed total (data.length/b.framing.payload) →
        head' = b.framing.chain seed total ((extend b c data record).length/b.framing.payload) ∧
        entry = ⟨record,checkpointOf b base seed (data++c.serialize record),
          checkpointOf b base seed (extend b c data record)⟩) := by
  obtain ⟨n,hn⟩ := extend_eq (b := b) (c := c) data record
  have hdata : total.drop data.length = c.serialize record++(replicate n 0++rest) := by
    rw [htotal,hn,append_assoc,drop_left,append_assoc]
  have hlen : data.length+(c.serialize record).length = (data++c.serialize record).length :=
    (length_append).symm
  have hpre : ∃ more,total = data++c.serialize record++more :=
    ⟨replicate n 0++rest,by rw [htotal,hn]; simp only [append_assoc]⟩
  have hrecord := length_extend_le.mp hend
  obtain ⟨r1,phase',i',head1,hdes,hwithin,hin,hnext⟩ :=
    deserialize_record h hdata hfit (by rw [hlen]; exact hrecord)
  rw [hlen] at hwithin hin hnext
  have hchain : ∀ {d : List UInt8},(∃ more,total = d++more) → b.framing.chain seed total (d.length/b.framing.payload) =
        b.framing.chain seed d (d.length/b.framing.payload) := by
    rintro d ⟨more,rfl⟩
    exact b.framing.chain_append (b.framing.payload_mul_le _)
  obtain ⟨r2,head2,hskip,hwithin2,hnext2⟩ : ∃ r2 head2,afterRecord b c record r1 = .ok r2 ∧
      Within b file base seed total m tail phase' i' (extend b c data record).length head2 r2 ∧
      (head2 = b.framing.chain seed total ((extend b c data record).length/b.framing.payload) ∨
        (extend b c data record).length/b.framing.payload =
          (data++c.serialize record).length/b.framing.payload ∧ head2 = head1) := by
    rw [length_extend,afterRecord]
    split_ifs
    · exact skipToEndOfBlock_within hwithin hin
    · exact ⟨r1,head1,rfl,hwithin,.inr ⟨rfl,rfl⟩⟩
  refine ⟨r2,phase',i',head2,⟨record,⟨base+b.framing.position (data++c.serialize record).length,
    head1⟩,⟨base+b.framing.position (extend b c data record).length,head2⟩⟩,?_,hwithin2,rfl,fun hhead => ?_⟩
  · simp only [readAll,hdes,ok_bind,hwithin.reading.checkpoint_eq,hskip,hwithin2.reading.checkpoint_eq]
    cases readAll b c file fuel r2 <;> rfl
  · have hhead1 := head_eq hhead hnext
    have hhead2 := head_eq hhead1 hnext2
    refine ⟨hhead2,?_⟩
    rw [hhead1,hhead2,hchain hpre,hchain ⟨rest,htotal⟩]
    rfl

omit [DecidableEq R] in
lemma endsBy_iff {checkpoint : JournalCheckpoint} :
    Entry.endsBy (base+b.bytes*m) ⟨record,checkpoint,checkpointOf b base seed data⟩ = true ↔
      data.length ≤ b.framing.payload*m := by
  simp only [Entry.endsBy,decide_eq_true_eq,checkpointOf,add_le_add_iff_left]
  rw [← framing_size,← b.framing.position_mul,b.framing.position_strictMono.le_iff_le]

omit [DecidableEq R] in
lemma truncated {record : R} {n : ℕ} (htotal : total = data++(c.serialize record++rest))
    (hlt : n < data.length+(c.serialize record).length) :
    ∃ left,c.serialize record = (total.take n).drop data.length++left ∧ left ≠ [] := by
  refine ⟨(c.serialize record).drop (n-data.length),?_,?_⟩
  · rw [htotal,drop_take,drop_left,take_append_of_le_length (by omega), take_append_drop]
  · rw [← length_pos_iff,length_drop]
    have hpos := length_pos_iff.mpr (c.serialize_ne_nil record)
    omega

lemma readAll_entries (records : List R) (fuel : ℕ)
    (h : Within b file base seed total m .ended phase i data.length head r) (htotal : total = dataOf b c data records)
    (hhead : head = b.framing.chain seed total (data.length/b.framing.payload))
    (hfit : ∀ record ∈ records,(c.serialize record).length ≤ b.framing.payload) (hfuel : records.length < fuel) :
    ∃ r',readAll b c file fuel r = .ok
      (((entriesOf b c base seed data records).takeWhile (Entry.endsBy (base+b.bytes*m))).map .entry,r') := by
  obtain ⟨fuel,rfl⟩ : ∃ n,fuel = n+1 := ⟨fuel-1,by omega⟩
  induction records generalizing data head r phase i fuel with
  | nil =>
    have hlen : b.framing.payload*m ≤ data.length := by
      have hlength := h.stream.length
      rwa [htotal] at hlength
    have hpos := b.framing.payload_pos
    have hnil : c.serialize c.endBlock =
        (total.take (b.framing.payload*m)).drop data.length++c.serialize c.endBlock := by
      rw [drop_of_length_le (by rw [length_take]; omega),nil_append]
    obtain ⟨r',hdes,-⟩ := deserialize_end h (by omega) hnil (c.serialize_ne_nil _)
    exact ⟨r',by simp only [readAll,hdes,ok_bind]; rfl⟩
  | cons record records ih =>
    obtain ⟨rest,hrest⟩ := dataOf_eq (b := b) (c := c) (extend b c data record) records
    have hextend : total = extend b c data record++rest := htotal.trans hrest
    have hrecord := hfit record (by simp)
    by_cases hin : (extend b c data record).length ≤ b.framing.payload*m
    · obtain ⟨r1,phase',i',head',entry,hread,hwithin,-,hentry⟩ :=
        readAll_record fuel h hextend hrecord hin
      obtain ⟨hhead',rfl⟩ := hentry hhead
      obtain ⟨n,rfl⟩ : ∃ n,fuel = n+1 := ⟨fuel-1,by simp only [length_cons] at hfuel; omega⟩
      obtain ⟨r',hall⟩ := ih hwithin htotal hhead' (fun x hx => hfit x (by simp [hx])) n
        (by simp only [length_cons] at hfuel; omega)
      refine ⟨r',?_⟩
      rw [hread,hall,entriesOf,takeWhile_cons_of_pos (endsBy_iff.mpr hin)]
      rfl
    · obtain ⟨n,hn⟩ := extend_eq (b := b) (c := c) data record
      have hlt : b.framing.payload*m < data.length+(c.serialize record).length := by
        rw [length_extend_le,length_append] at hin
        exact not_le.mp hin
      obtain ⟨left,hleft,hne⟩ := @truncated R c data total (replicate n 0++rest) record
        (b.framing.payload*m) (by rw [hextend,hn]; simp only [append_assoc]) hlt
      obtain ⟨r',hdes,-⟩ := deserialize_end h (by omega) hleft hne
      refine ⟨r',?_⟩
      rw [entriesOf,takeWhile_cons_of_neg fun hle => hin (endsBy_iff.mp hle)]
      simp only [readAll,hdes,ok_bind]
      rfl

end Read

section RoundTrip

variable {b c} {base m : ℕ} {seed : UInt64} {data flushed : List UInt8} {file : ByteFile}
  {s : State}

open JournalReader (OnFile Follows Within Ends Reading)

lemma onFile_of_holds (hbase : b.bytes ∣ base) (hlen : b.framing.payload*m ≤ data.length)
    (h : file.Holds base (b.framing.blocks seed data m)) : OnFile b file base seed data m := by
  refine ⟨hbase,hlen,fun i hi => ?_⟩
  obtain ⟨rest,hrest⟩ := b.framing.blocks_le seed data (succ_le_of_lt hi)
  have hi' : b.framing.payload*(i+1) ≤ data.length := (mul_le_mul_left _ hi).trans hlen
  have hle : b.framing.payload*i ≤ data.length := (mul_le_mul_left _ hi.le).trans hlen
  rw [hrest,holds_append,blocks,holds_append, b.framing.length_blocks hle,framing_size] at h
  have hread := h.1.2.read
  rwa [b.framing.length_block hi',framing_size] at hread

variable {w : JournalWriter}

lemma flushed_eq (h : w.Wrote b base seed data flushed) :
    ∃ m,flushed = b.framing.blocks seed data m ∧ b.framing.payload*m ≤ data.length ∧ flushed.length = b.bytes*m := by
  obtain ⟨m,hm⟩ := h.whole
  have hlen := h.length
  rw [position,framing_size,hm] at hlen
  have hmod := mod_lt data.length b.framing.payload_pos
  have hsize := framing_payload b
  have hle : m ≤ data.length/b.framing.payload := by
    by_contra hlt
    have hmul := mul_le_mul_left b.bytes (succ_le_of_lt (not_le.mp hlt))
    rw [mul_succ] at hmul
    omega
  have hdata : b.framing.payload*m ≤ data.length :=
    (mul_le_mul_left _ hle).trans (b.framing.payload_mul_le _)
  refine ⟨m,?_,hdata,hm⟩
  obtain ⟨rest,hrest⟩ := b.framing.blocks_le seed data hle
  have houtput := h.output
  rw [output,hrest,append_assoc] at houtput
  exact (append_inj houtput (by rw [hm,b.framing.length_blocks hdata,framing_size])).1

/-- The checksum of the block before an offset; at the start of the file, the seed. -/
def checksumBefore (file : ByteFile) (seed : UInt64) (offset : ℕ) : UInt64 := if offset = 0 then seed
  else readChecksum ((file.read (offset-checksumSize) checksumSize).getD [])

lemma checksumBefore_eq (hlen : b.framing.payload*m ≤ data.length) (h : file.Holds 0 (b.framing.blocks seed data m)) :
    checksumBefore file seed (b.bytes*m) = b.framing.chain seed data m := by
  have hlarge := b.large
  cases m with
  | zero => rw [checksumBefore,mul_zero,if_pos rfl]; rfl
  | succ m =>
    have hle : b.framing.payload*m ≤ data.length := (mul_le_mul_left _ (le_succ m)).trans hlen
    have hsize := framing_payload b
    rw [blocks,holds_append,block,holds_append,
      b.framing.length_blocks hle,b.framing.length_piece hlen,framing_size] at h
    have hread := h.2.2.read
    have hoffset : b.bytes*(m+1)-checksumSize = 0+b.bytes*m+b.framing.payload := by
      rw [mul_succ]
      omega
    have hne : b.bytes*(m+1) ≠ 0 := mul_ne_zero (by omega) (succ_ne_zero m)
    rw [b.framing.length_encode] at hread
    rw [checksumBefore,if_neg hne,hoffset,show checksumSize = b.framing.trailer from rfl,hread]
    exact readChecksum_writeChecksum _

omit [DecidableEq R] in
lemma mem_recordsOf {ops : List (Op R)} {record : R} :
    record ∈ recordsOf ops ↔ .record record ∈ ops := by
  induction ops with
  | nil => simp [recordsOf]
  | cons op ops ih => cases op <;> simp [recordsOf,ih]

lemma map_record_entriesOf (data : List UInt8) (records : List R) :
    (entriesOf b c base seed data records).map Entry.record = records := by
  induction records generalizing data with
  | nil => rfl
  | cons record records ih => rw [entriesOf,map_cons,ih]

lemma endsBy_of_mem {records : List R} (hle : (dataOf b c data records).length ≤ b.framing.payload*m) :
    ∀ entry ∈ entriesOf b c base seed data records,Entry.endsBy (base+b.bytes*m) entry = true := by
  induction records generalizing data with
  | nil => simp [entriesOf]
  | cons record records ih =>
    obtain ⟨rest,hrest⟩ := dataOf_eq (b := b) (c := c) (extend b c data record) records
    have hlen := congrArg length hrest
    rw [length_append] at hlen
    have hdata : (dataOf b c (extend b c data record) records).length ≤ b.framing.payload*m := hle
    rw [entriesOf,forall_mem_cons]
    exact ⟨endsBy_iff.mpr (by omega),ih hdata⟩

lemma div_eq_of_lt (h : w.Wrote b base seed data flushed)
    (hm : flushed.length = b.bytes*m) (hlt : w.buf.length < b.bytes) :
    data.length/b.framing.payload = m ∧ w.buf.length = data.length%b.framing.payload := by
  have hmod := h.buf_mod
  rw [mod_eq_of_lt hlt] at hmod
  have hlen := h.length
  rw [position,framing_size,hm,hmod,add_right_cancel_iff] at hlen
  have hlarge := b.large
  exact ⟨(Nat.eq_of_mul_eq_mul_left (by omega) hlen).symm,hmod⟩

/-- A reader that starts at a checkpoint of the writer reads the records that were written
after it and whose blocks have been flushed, each with the checkpoints that the writer had,
and then the end of the stream. -/
theorem read_written (b : BlockSize) (c : Codec R) (seed : UInt64) (file : ByteFile)
    (before after : List (Op R)) (hfit : ∀ record,.record record ∈ before++after →
      (c.serialize record).length ≤ b.bytes-checksumSize) :
    ∃ earlier s entries t,run b c ⟨.new seed,file⟩ before = .ok (earlier,s) ∧
      run b c s after = .ok (entries,t) ∧ entries.map Entry.record = recordsOf after ∧
      (Ends b (flush b t).file (flush b t).writer.checkpoint.fileOffset
        (checksumBefore (flush b t).file seed (flush b t).writer.checkpoint.fileOffset) →
        (∀ fuel > (recordsOf after).length,∃ r,
          readAll b c (flush b t).file fuel (.new b s.writer.journalFileCheckpoint) =
            .ok ((entries.takeWhile
              (Entry.endsBy (flush b t).writer.checkpoint.fileOffset)).map .entry,r)) ∧
        ((flush b t).writer.buf = [] → entries.takeWhile
          (Entry.endsBy (flush b t).writer.checkpoint.fileOffset) = entries)) := by
  have hfits : ∀ ops : List (Op R),(∀ op ∈ ops,op ∈ before++after) →
      ∀ record ∈ recordsOf ops,(c.serialize record).length ≤ b.framing.payload :=
    fun ops hops record hmem => hfit record (hops _ (mem_recordsOf.mp hmem))
  have hstart : Written b 0 seed [] [] ⟨.new seed,file⟩ := ⟨new_wrote b seed,holds_nil (zero_le _)⟩
  obtain ⟨s,flushed0,hbefore,hs⟩ := run_written (c := c) before hstart
    (hfits before fun op hop => mem_append_left _ hop)
  obtain ⟨t,flushed1,hafter,ht⟩ := run_written (c := c) after hs
    (hfits after fun op hop => mem_append_right _ hop)
  refine ⟨_,s,_,t,hbefore,hafter,map_record_entriesOf _ _,?_⟩
  set data := dataOf b c [] (recordsOf before)
  set total := dataOf b c data (recordsOf after)
  obtain ⟨flushed,hflush,hlt⟩ := flush_written ht
  obtain ⟨m,hflushed,hlen,hm⟩ := flushed_eq hflush.wrote
  obtain ⟨hdiv,hbuf⟩ := div_eq_of_lt hflush.wrote hm hlt
  have hoffset : (flush b t).writer.checkpoint.fileOffset = 0+b.bytes*m := by
    rw [hflush.wrote.offset,hm]
  have hholds := hflush.holds
  rw [hflushed] at hholds
  rw [hoffset]
  intro hends
  rw [zero_add,checksumBefore_eq hlen hholds] at hends
  obtain ⟨more,hmore⟩ : ∃ more,total = data++more := dataOf_eq data _
  have hchain : b.framing.chain seed data (data.length/b.framing.payload) =
      b.framing.chain seed total (data.length/b.framing.payload) := by
    rw [hmore,b.framing.chain_append (b.framing.payload_mul_le _)]
  have hle : data.length ≤ total.length := by
    rw [hmore,length_append]
    exact le_add_right _ _
  refine ⟨fun fuel hfuel => ?_,fun hnil => ?_⟩
  · have hreading : Reading b 0 seed total .running (data.length/b.framing.payload) data.length
        (b.framing.chain seed total (data.length/b.framing.payload)) _ :=
      new_reading (dvd_zero b.bytes) hle
    rw [hs.wrote.checkpoint_eq,hchain]
    exact readAll_entries (recordsOf after) fuel
      ⟨onFile_of_holds (dvd_zero _) hlen hholds,.ends (by rwa [zero_add]),hreading,
        .inl ⟨rfl,hdiv ▸ Nat.div_le_div_right hle⟩,fun hreset => (by cases hreset)⟩ rfl rfl
      (hfits after fun op hop => mem_append_right _ hop) hfuel
  · rw [takeWhile_eq_self_iff]
    refine endsBy_of_mem (le_of_eq ?_)
    have hmod := div_add_mod total.length b.framing.payload
    rw [hnil,length_nil] at hbuf
    rw [hdiv,← hbuf] at hmod
    exact hmod.symm

end RoundTrip

section Sample

abbrev ShortString := { bs : List UInt8 // bs.length < 256 }

def ShortString.serialize (x : ShortString) : List UInt8 := UInt8.ofNat x.1.length::x.1

def ShortString.deserialize : List UInt8 → Except DeserializeError (ShortString × ℕ)
  | [] => .error .unexpectedEof
  | n::bs =>
    if n.toNat ≤ bs.length then
      .ok (⟨bs.take n.toNat,(length_take_le _ _).trans_lt n.toNat_lt⟩,n.toNat+1)
    else .error .unexpectedEof

lemma ShortString.toNat_length (x : ShortString) : (UInt8.ofNat x.1.length).toNat = x.1.length :=
  UInt8.toNat_ofNat_of_lt' x.2

def shortStrings : Codec ShortString where
  endBlock := ⟨[],by decide⟩
  serialize := ShortString.serialize
  deserialize := ShortString.deserialize
  deserialize_append x rest := by
    have hlen := x.toNat_length
    have hle : x.1.length ≤ (x.1++rest).length := by
      rw [length_append]
      exact le_add_right _ _
    simp only [ShortString.serialize,cons_append,ShortString.deserialize,hlen,if_pos hle,
      take_left,length_cons]
  deserialize_truncated x bs rest h hne := by
    cases bs with
    | nil => rfl
    | cons n bs =>
      have hpos := length_pos_iff.mpr hne
      rw [ShortString.serialize,cons_append,cons.injEq] at h
      have hlen := congrArg length h.2
      rw [length_append] at hlen
      rw [ShortString.deserialize,← h.1,if_neg (by rw [x.toNat_length]; omega)]
  serialize_ne_nil x := cons_ne_nil _ _

def tiny : BlockSize := ⟨20,by decide,by decide⟩

def blank : ByteFile := ⟨fun _ => 0,100⟩

def sampleBefore : List (Op ShortString) := [.record ⟨[1,2,3],by decide⟩]

def sampleAfter : List (Op ShortString) :=
  [.record ⟨[4,5,6,7,8,9,10],by decide⟩,.flush,.record ⟨[11,12,13,14,15],by decide⟩,
    .record ⟨[16,17,18,19,20,21,22,23],by decide⟩,.record shortStrings.endBlock]

def endsAt (b : BlockSize) (file : ByteFile) (offset : ℕ) (last : UInt64) : Bool :=
  (file.read offset b.bytes).any fun block =>
    readChecksum (block.drop b.framing.payload) ≠ fletcher64 (block.take b.framing.payload) last ∧
    readChecksum (block.drop b.framing.payload) ≠
      fletcher64 (block.take b.framing.payload) (last^^^resetXor)

def sampleEnds : Bool :=
  match run tiny shortStrings ⟨.new 7,blank⟩ sampleBefore with
  | .error _ => false
  | .ok (_,s) =>
    match run tiny shortStrings s sampleAfter with
    | .error _ => false
    | .ok (_,t) => endsAt tiny (flush tiny t).file (flush tiny t).writer.checkpoint.fileOffset
        (checksumBefore (flush tiny t).file 7 (flush tiny t).writer.checkpoint.fileOffset) &&
        (flush tiny t).writer.buf.isEmpty

theorem read_written_sample :
    ∃ earlier s entries t,run tiny shortStrings ⟨.new 7,blank⟩ sampleBefore = .ok (earlier,s) ∧
      run tiny shortStrings s sampleAfter = .ok (entries,t) ∧
      entries.map Entry.record = recordsOf sampleAfter ∧
      ∃ r,readAll tiny shortStrings (flush tiny t).file 5
        (.new tiny s.writer.journalFileCheckpoint) = .ok (entries.map .entry,r) := by
  obtain ⟨earlier,s,entries,t,hbefore,hafter,hrecords,hread⟩ :=
    read_written tiny shortStrings 7 blank sampleBefore sampleAfter fun record hmem =>
      (show ∀ record ∈ recordsOf (sampleBefore++sampleAfter),
        (shortStrings.serialize record).length ≤ tiny.bytes-checksumSize by decide) record
          (mem_recordsOf.mpr hmem)
  have hends : sampleEnds = true := by decide +kernel
  simp only [sampleEnds,hbefore,hafter,Bool.and_eq_true,List.isEmpty_iff] at hends
  obtain ⟨block,hblock,hne⟩ := (Option.any_eq_true _ _).mp hends.1
  obtain ⟨hall,hentries⟩ := hread ⟨block,hblock,of_decide_eq_true hne⟩
  obtain ⟨r,hr⟩ := hall 5 (by decide)
  rw [hentries hends.2] at hr
  exact ⟨earlier,s,entries,t,hbefore,hafter,hrecords,r,hr⟩

end Sample

end Fuchsia.Fxfs.JournalStream
