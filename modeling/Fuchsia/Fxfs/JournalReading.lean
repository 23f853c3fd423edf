import Fuchsia.Fxfs.JournalWriter

/-! A `JournalReader` on a stream of blocks: what it has buffered, its offsets and its
checksums follow the data of the stream, block after block and record after record. -/
namespace Fuchsia.Fxfs.JournalReader

open Bytes Fallible List Nat JournalWriter Framing

variable {b : BlockSize}

/-- How far the reader has come: it may go on, it has met the end of the stream, or it has
met a block that starts the stream anew. -/
inductive Phase
  | running
  | ended
  | reset (block : List UInt8)

namespace Phase

def blocks : Phase → ℕ
  | .reset _ => 1
  | _ => 0

def sums (b : BlockSize) : Phase → List UInt64
  | .reset block => [readChecksum (block.drop b.framing.payload)]
  | _ => []

def isEnded : Phase → Bool
  | .ended => true
  | _ => false

def isReset : Phase → Bool
  | .reset _ => true
  | _ => false

end Phase

/-- The reader has read `i` blocks of the stream and consumed the first `p` bytes of its
data. -/
structure Reading (b : BlockSize) (base : ℕ) (seed : UInt64) (data : List UInt8) (phase : Phase)
    (i p : ℕ) (head : UInt64) (r : JournalReader) : Prop where
  range : r.start ≤ r.stop ∧ r.stop ≤ r.buf.length
  blocks : b.framing.payload*i ≤ data.length
  buffer : r.buffer = (data.take (b.framing.payload*i)).drop p
  reached : p/b.framing.payload ≤ i
  fresh : b.framing.payload*i < p → r.start = 0 ∧ r.stop = 0
  offset : r.bufFileOffset = base+b.framing.position p
  ended : r.badChecksum = phase.isEnded
  found : r.foundReset = phase.isReset
  readOffset : r.readOffset = base+b.bytes*(i+phase.blocks)
  checksums : r.checksums = head::(range' (p/b.framing.payload+1)
    (i-p/b.framing.payload)).map (b.framing.chain seed data)++phase.sums b
  head : head = b.framing.chain seed data (p/b.framing.payload) ∨ p/b.framing.payload = 0 ∧ 0 < i
  block : ∀ block,phase = .reset block → r.buf = r.buf.take r.stop++block ∧ block.length = b.bytes

variable {base i p : ℕ} {seed head : UInt64} {data : List UInt8} {phase : Phase}
  {r r' : JournalReader} {file : ByteFile}

lemma new_reading (hbase : b.bytes ∣ base) (hp : p ≤ data.length) :
    Reading b base seed data .running (p/b.framing.payload) p
      (b.framing.chain seed data (p/b.framing.payload)) (new b ⟨base+b.framing.position p,
        b.framing.chain seed data (p/b.framing.payload)⟩) where
  range := ⟨le_rfl,zero_le _⟩
  blocks := (b.framing.payload_mul_le p).trans hp
  buffer := by
    refine (drop_of_length_le ?_).symm
    exact (length_take_le _ _).trans (b.framing.payload_mul_le p)
  reached := le_rfl
  fresh _ := ⟨rfl,rfl⟩
  offset := rfl
  ended := rfl
  found := rfl
  readOffset := by
    obtain ⟨n,rfl⟩ := hbase
    have hmod := b.framing.position_mod p
    rw [framing_size] at hmod
    simp only [new,mul_add_mod,hmod,Phase.blocks,add_zero]
    rw [position,framing_size]
    omega
  checksums := by simp [new,Phase.sums]
  head := .inl rfl
  block _ h := by cases h

lemma Reading.length_buffer (h : Reading b base seed data phase i p head r) :
    r.stop-r.start = b.framing.payload*i-p := by
  have hlen := congrArg length h.buffer
  rw [JournalReader.buffer,length_drop,length_take,length_drop,length_take,
    min_eq_left h.range.2,min_eq_left h.blocks] at hlen
  exact hlen

lemma Reading.lastReadChecksum (h : Reading b base seed data .running i p head r) :
    r.lastReadChecksum = .ok (b.framing.chain seed data i) := by
  have hlast : r.checksums.getLast? = some (b.framing.chain seed data i) := by
    rw [h.checksums]
    simp only [Phase.sums,append_nil]
    obtain hlt | heq := h.reached.lt_or_eq
    · obtain ⟨n,hn⟩ : ∃ n,i-p/b.framing.payload = n+1 := ⟨i-p/b.framing.payload-1,by omega⟩
      have hi : p/b.framing.payload+1+n = i := by omega
      rw [hn,range'_1_concat,map_append,map_singleton,hi,← cons_append, getLast?_concat]
    · have hhead : head = b.framing.chain seed data i := by
        rcases h.head with hhead | ⟨hzero,hpos⟩
        · rwa [heq] at hhead
        · omega
      simp [heq,hhead]
  rw [JournalReader.lastReadChecksum,hlast]

lemma Reading.div_eq (h : Reading b base seed data phase i p head r)
    (hlt : b.framing.payload*i < p) : p/b.framing.payload = i :=
  le_antisymm h.reached ((le_div_iff_mul_le b.framing.payload_pos).mpr (by rw [mul_comm]; exact hlt.le))

variable {block : List UInt8}

lemma Reading.buffer_accept (h : Reading b base seed data .running i p head r)
    (hblock : block.take b.framing.payload = b.framing.piece data i) :
    (((r.buf.take r.stop++block).take (r.stop+b.framing.payload)).drop
      (if b.framing.payload*i < p then p%b.framing.payload else r.start)) =
        (data.take (b.framing.payload*(i+1))).drop p := by
  have hstop : (r.buf.take r.stop).length = r.stop := length_take_of_le h.range.2
  have htake : data.take (b.framing.payload*(i+1)) = data.take (b.framing.payload*i)++b.framing.piece data i := by
    rw [mul_succ,take_add,piece]
  have hblocks := h.blocks
  rw [take_append,hstop,Nat.add_sub_cancel_left,hblock,take_of_length_le (by rw [hstop]; omega),htake]
  split_ifs with hlt
  · have hdiv := div_add_mod p b.framing.payload
    rw [h.div_eq hlt] at hdiv
    have hpast : (data.take (b.framing.payload*i)).drop p = [] :=
      drop_of_length_le (by rw [length_take_of_le hblocks]; exact hlt.le)
    have hrest : p-b.framing.payload*i = p%b.framing.payload := by omega
    rw [(h.fresh hlt).2,take_zero,nil_append,drop_append,hpast,nil_append,length_take_of_le hblocks,hrest]
  · have hbuffer := h.buffer
    rw [JournalReader.buffer] at hbuffer
    have hle : p ≤ b.framing.payload*i := not_lt.mp hlt
    rw [drop_append_of_le_length (by rw [hstop]; exact h.range.1),hbuffer,
      drop_append_of_le_length (by rw [length_take_of_le hblocks]; exact hle)]

lemma length_read {offset n : ℕ} (h : file.read offset n = some block) : block.length = n := by
  rw [ByteFile.read] at h
  split_ifs at h
  cases h
  simp

lemma checksumOf_read {offset : ℕ} (h : file.read offset b.bytes = some block) (previous : UInt64) :
    checksumOf (block.take b.framing.payload) previous = .ok (fletcher64 (block.take b.framing.payload) previous) := by
  have hsize := framing_payload b
  exact checksumOf_eq (length_take_of_le (by rw [length_read h]; omega)) previous

lemma Reading.readOffset_mod (h : Reading b base seed data phase i p head r)
    (hbase : b.bytes ∣ base) : r.readOffset%b.bytes = 0 := by
  obtain ⟨n,rfl⟩ := hbase
  rw [h.readOffset,← mul_add,mul_mod_right]

section

variable (h : Reading b base seed data .running i p head r)
include h

lemma Reading.position_lt_iff : r.readOffset < r.bufFileOffset ↔ b.framing.payload*i < p := by
  rw [h.readOffset,h.offset,show i+Phase.running.blocks = i from rfl,← framing_size,← b.framing.position_mul]
  constructor
  · intro hlt
    by_contra hle
    have hmono := b.framing.position_strictMono.monotone (not_lt.mp hle)
    omega
  · intro hlt
    have hdiv := div_add_mod p b.framing.payload
    rw [b.framing.position_mul,position]
    rw [h.div_eq hlt] at hdiv ⊢
    omega

lemma readBlock_eq (hbase : b.bytes ∣ base) (hread : file.read (base+b.bytes*i) b.bytes = some block) :
    r.readBlock b file = if readChecksum (block.drop b.framing.payload) ≠
          fletcher64 (block.take b.framing.payload) (b.framing.chain seed data i) then
        (r.refuse b (r.buf.take r.stop++block) (block.take b.framing.payload)
          (readChecksum (block.drop b.framing.payload)) (b.framing.chain seed data i)).map fun r => (r,false) else
        (r.accept b (r.buf.take r.stop++block) (readChecksum (block.drop b.framing.payload))).map fun r => (r,true) := by
  have hresized : (r.buf.take (r.stop+b.bytes)++replicate (r.stop+b.bytes-r.buf.length) 0).take
      r.stop = r.buf.take r.stop := by
    have hle : r.stop ≤ (r.buf.take (r.stop+b.bytes)).length := by
      rw [length_take]
      exact le_min (le_add_right _ _) h.range.2
    rw [take_append_of_le_length hle,take_take,min_eq_left (le_add_right _ _)]
  have hread' : file.read r.readOffset b.bytes = some block := by
    rw [h.readOffset]
    exact hread
  simp only [readBlock,h.lastReadChecksum,ok_bind,require_of (h.readOffset_mod hbase),hread',payload_eq,
    hresized,checksumOf_read hread]
  split_ifs
  · cases r.refuse b (r.buf.take r.stop++block) (block.take b.framing.payload)
      (readChecksum (block.drop b.framing.payload)) (b.framing.chain seed data i) <;> rfl
  · cases r.accept b (r.buf.take r.stop++block) (readChecksum (block.drop b.framing.payload)) <;> rfl

lemma readBlock_accept (hbase : b.bytes ∣ base) (hmore : b.framing.payload*(i+1) ≤ data.length)
    (hread : file.read (base+b.bytes*i) b.bytes = some (b.framing.block seed data i)) :
    ∃ r',r.readBlock b file = .ok (r',true) ∧
      Reading b base seed data .running (i+1) p head r' ∧ r'.firstRead = false := by
  have hsize := framing_payload b
  have hpiece := b.framing.length_piece hmore
  have hlen : (b.framing.block seed data i).length = b.bytes := by
    rw [b.framing.length_block hmore,framing_size]
  have hcontents : (b.framing.block seed data i).take b.framing.payload = b.framing.piece data i := by
    rw [block]
    exact take_left' hpiece
  have hstored : readChecksum ((b.framing.block seed data i).drop b.framing.payload) =
      b.framing.chain seed data (i+1) := by
    rw [block,drop_left' hpiece]
    exact readChecksum_writeChecksum _
  have hrequire : r.bufFileOffset ≤ r.readOffset ∨ r.start = 0 := by
    by_cases hlt : b.framing.payload*i < p
    · exact .inr (h.fresh hlt).1
    · exact .inl (not_lt.mp fun hlt' => hlt (h.position_lt_iff.mp hlt'))
  have hbuf : (r.buf.take r.stop++b.framing.block seed data i).length = r.stop+b.bytes := by
    rw [length_append,length_take_of_le h.range.2,hlen]
  have hstop : r.stop+b.bytes-checksumSize = r.stop+b.framing.payload := by omega
  have hstart : (if r.readOffset < r.bufFileOffset then r.bufFileOffset-r.readOffset else r.start) =
      if b.framing.payload*i < p then p%b.framing.payload else r.start := by
    simp only [h.position_lt_iff]
    split_ifs with hlt
    · rw [h.offset,h.readOffset,show i+Phase.running.blocks = i from rfl,position,framing_size,h.div_eq hlt]
      omega
    · rfl
  have hchain : b.framing.chain seed data (i+1) =
      fletcher64 (b.framing.piece data i) (b.framing.chain seed data i) := rfl
  refine ⟨{ r with
    buf := r.buf.take r.stop++b.framing.block seed data i
    start := if b.framing.payload*i < p then p%b.framing.payload else r.start
    stop := r.stop+b.framing.payload
    readOffset := r.readOffset+b.bytes
    checksums := r.checksums++[b.framing.chain seed data (i+1)]
    firstRead := false },?_,?_,rfl⟩
  · rw [readBlock_eq h hbase hread,hcontents,hstored,if_neg (not_not.mpr hchain),accept,require_of hrequire,ok_bind,pure_eq]
    simp only [hbuf,hstop,hstart]
    rfl
  · refine ⟨⟨?_,?_⟩,hmore,h.buffer_accept hcontents,h.reached.trans (le_succ i),
      fun hlt => ?_,h.offset,h.ended,h.found,?_,?_,?_,fun _ hphase => (by cases hphase)⟩
    · split_ifs
      · exact (mod_lt p b.framing.payload_pos).le.trans (le_add_left _ _)
      · exact h.range.1.trans (le_add_right _ _)
    · simp only [hbuf]
      omega
    · have hdiv := div_add_mod p b.framing.payload
      have hmod := mod_lt p b.framing.payload_pos
      have hmul := mul_le_mul_left b.framing.payload h.reached
      rw [mul_succ] at hlt
      omega
    · simp only [h.readOffset,Phase.blocks,mul_add]
      omega
    · simp only [h.checksums,Phase.sums,append_nil,cons_append]
      have hreached := h.reached
      have hcount : i+1-p/b.framing.payload = i-p/b.framing.payload+1 := by omega
      have hlast : p/b.framing.payload+1+(i-p/b.framing.payload) = i+1 := by omega
      rw [hcount,range'_1_concat,map_append,map_singleton,hlast]
    · rcases h.head with hhead | ⟨hzero,-⟩
      · exact .inl hhead
      · exact .inr ⟨hzero,succ_pos i⟩

/-- The stream ends before a block that belongs neither to it nor to one that resumes it. -/
def Ends (b : BlockSize) (file : ByteFile) (offset : ℕ) (last : UInt64) : Prop :=
  ∃ block,file.read offset b.bytes = some block ∧
    readChecksum (block.drop b.framing.payload) ≠ fletcher64 (block.take b.framing.payload) last ∧
    readChecksum (block.drop b.framing.payload) ≠
      fletcher64 (block.take b.framing.payload) (last^^^resetXor)

def Resumes (b : BlockSize) (file : ByteFile) (offset : ℕ) (last : UInt64) (block : List UInt8) :
    Prop :=
  file.read offset b.bytes = some block ∧ readChecksum (block.drop b.framing.payload) =
      fletcher64 (block.take b.framing.payload) (last^^^resetXor)

lemma Reading.refused (hlen : block.length = b.bytes) (hphase : ∀ block',phase = .reset block' → block' = block)
    (hbuf : r'.buf = r.buf.take r.stop++block) (hrange : r'.start = r.start ∧ r'.stop = r.stop)
    (hoffset : r'.bufFileOffset = r.bufFileOffset) (hended : r'.badChecksum = phase.isEnded)
    (hfound : r'.foundReset = phase.isReset) (hread : r'.readOffset = r.readOffset+b.bytes*phase.blocks)
    (hsums : r'.checksums = r.checksums++phase.sums b) : Reading b base seed data phase i p head r' := by
  have hstop : (r.buf.take r.stop).length = r.stop := length_take_of_le h.range.2
  have htake : r'.buf.take r'.stop = r.buf.take r.stop := by rw [hbuf,hrange.2,take_left' hstop]
  refine ⟨⟨?_,?_⟩,h.blocks,?_,h.reached,fun hlt => ?_,?_,hended,hfound,?_,?_,h.head,fun block' hblock' => ⟨?_,?_⟩⟩
  · rw [hrange.1,hrange.2]
    exact h.range.1
  · rw [hrange.2,hbuf,length_append,hstop]
    exact le_add_right _ _
  · rw [← h.buffer,JournalReader.buffer,htake,hrange.1,JournalReader.buffer]
  · rw [hrange.1,hrange.2]
    exact h.fresh hlt
  · rw [hoffset,h.offset]
  · rw [hread,h.readOffset,show i+Phase.running.blocks = i from rfl,mul_add,add_assoc]
  · rw [hsums,h.checksums,show Phase.sums b .running = [] from rfl,append_nil]
  · rw [htake,hphase block' hblock',hbuf]
  · rw [hphase block' hblock',hlen]

lemma readBlock_end (hbase : b.bytes ∣ base) (hend : Ends b file (base+b.bytes*i) (b.framing.chain seed data i)) :
    ∃ r',r.readBlock b file = .ok (r',false) ∧ Reading b base seed data .ended i p head r' ∧
      r'.firstRead = r.firstRead := by
  obtain ⟨block,hread,hne,hne'⟩ := hend
  refine ⟨{ r with buf := r.buf.take r.stop++block,badChecksum := true },?_,
    h.refused (length_read hread) (fun _ hphase => (by cases hphase)) rfl ⟨rfl,rfl⟩ rfl rfl h.found
      (add_zero _).symm (append_nil _).symm,rfl⟩
  rw [readBlock_eq h hbase hread,if_pos hne,refuse]
  split_ifs
  · rfl
  · rw [checksumOf_read hread,ok_bind,if_neg hne']
    rfl

lemma readBlock_reset (hbase : b.bytes ∣ base) (hfirst : r.firstRead = false)
    (hresume : Resumes b file (base+b.bytes*i) (b.framing.chain seed data i) block) :
    ∃ r',r.readBlock b file = .ok (r',false) ∧
      Reading b base seed data (.reset block) i p head r' ∧ r'.firstRead = r.firstRead := by
  obtain ⟨hread,heq⟩ := hresume
  have hne : readChecksum (block.drop b.framing.payload) ≠
      fletcher64 (block.take b.framing.payload) (b.framing.chain seed data i) := by
    rw [heq]
    exact fletcher64_reset_ne _ _
  refine ⟨{ r with
      buf := r.buf.take r.stop++block
      foundReset := true
      checksums := r.checksums++[readChecksum (block.drop b.framing.payload)]
      readOffset := r.readOffset+b.bytes },?_,
    h.refused (length_read hread) (fun block' hphase => (by cases hphase; rfl)) rfl ⟨rfl,rfl⟩ rfl h.ended rfl
      (by simp only [Phase.blocks,mul_one]) rfl,rfl⟩
  rw [readBlock_eq h hbase hread,if_pos hne,refuse,hfirst,if_neg Bool.false_ne_true,checksumOf_read hread,
    ok_bind,if_pos heq]
  rfl

end

structure OnFile (b : BlockSize) (file : ByteFile) (base : ℕ) (seed : UInt64) (data : List UInt8)
    (m : ℕ) : Prop where
  aligned : b.bytes ∣ base
  length : b.framing.payload*m ≤ data.length
  read : ∀ i < m,file.read (base+b.bytes*i) b.bytes = some (b.framing.block seed data i)

inductive Follows (b : BlockSize) (file : ByteFile) (offset : ℕ) (last : UInt64) : Phase → Prop
  | ends (h : Ends b file offset last) : Follows b file offset last .ended
  | resumes {block : List UInt8} (h : Resumes b file offset last block) :
      Follows b file offset last (.reset block)

/-- A reader within a stream of `m` blocks. A reset is only seen by a reader that has read
a block before. -/
structure Within (b : BlockSize) (file : ByteFile) (base : ℕ) (seed : UInt64) (data : List UInt8)
    (m : ℕ) (tail phase : Phase) (i p : ℕ) (head : UInt64) (r : JournalReader) : Prop where
  stream : OnFile b file base seed data m
  follows : Follows b file (base+b.bytes*m) (b.framing.chain seed data m) tail
  reading : Reading b base seed data phase i p head r
  met : phase = .running ∧ i ≤ m ∨ phase = tail ∧ i = m
  first : tail.isReset = true → r.firstRead = true → i < m

variable {m : ℕ} {tail : Phase}

lemma fillLoop_within (fuel : ℕ) (h : Within b file base seed data m tail .running i p head r)
    (hfuel : b.framing.payload ≤ b.framing.payload*i-p+fuel) : ∃ r' phase i',fillLoop b file fuel r = .ok r' ∧
      Within b file base seed data m tail phase i' p head r' ∧
      (p+b.framing.payload ≤ b.framing.payload*i' ∨ phase = tail ∧ i' = m) := by
  have hsize := framing_payload b
  induction fuel generalizing r i with
  | zero =>
    have hpos := b.framing.payload_pos
    refine ⟨r,.running,i,?_,h,.inl (by omega)⟩
    rw [fillLoop,if_pos]
    rw [payload_eq,h.reading.length_buffer]
    exact hfuel
  | succ fuel ih =>
    by_cases henough : b.framing.payload ≤ b.framing.payload*i-p
    · have hpos := b.framing.payload_pos
      refine ⟨r,.running,i,?_,h,.inl (by omega)⟩
      rw [fillLoop,if_pos]
      rw [payload_eq,h.reading.length_buffer]
      exact henough
    · have hloop : ∀ {r' more},r.readBlock b file = .ok (r',more) →
          fillLoop b file (fuel+1) r = if more then fillLoop b file fuel r' else .ok r' := by
        intro r' more hread
        rw [fillLoop,if_neg (by rwa [payload_eq,h.reading.length_buffer])]
        simp only [hread,ok_bind]
        cases more <;> rfl
      have hle : i ≤ m := by
        rcases h.met with ⟨-,hle⟩ | ⟨-,heq⟩
        · exact hle
        · exact heq.le
      obtain hlt | heq := hle.lt_or_eq
      · have hmore : b.framing.payload*(i+1) ≤ data.length :=
          (mul_le_mul_left _ hlt).trans h.stream.length
        obtain ⟨r1,hread,hreading,hfirst⟩ :=
          readBlock_accept h.reading h.stream.aligned hmore (h.stream.read i hlt)
        obtain ⟨r',phase,i',hfill,hwithin,hstop⟩ := @ih (i+1) r1
          ⟨h.stream,h.follows,hreading,.inl ⟨rfl,hlt⟩,fun _ ht => by rw [hfirst] at ht; cases ht⟩ (by
            have hdiv := div_add_mod p b.framing.payload
            have hmod := mod_lt p b.framing.payload_pos
            have hmul := mul_le_mul_left b.framing.payload h.reading.reached
            rw [mul_succ]
            omega)
        exact ⟨r',phase,i',by rw [hloop hread,if_pos rfl,hfill],hwithin,hstop⟩
      · subst heq
        cases hfollows : h.follows with
        | ends hends =>
          obtain ⟨r',hread,hreading,hfirst⟩ := readBlock_end h.reading h.stream.aligned hends
          refine ⟨r',.ended,i,by rw [hloop hread]; rfl,⟨h.stream,h.follows,hreading,.inr ⟨rfl,rfl⟩,?_⟩,.inr ⟨rfl,rfl⟩⟩
          rw [hfirst]
          exact h.first
        | resumes hresumes =>
          have hold : r.firstRead = false := by
            by_contra htrue
            exact lt_irrefl i (h.first rfl (Bool.eq_true_of_not_eq_false htrue))
          obtain ⟨r',hread,hreading,hfirst⟩ := readBlock_reset h.reading h.stream.aligned hold hresumes
          refine ⟨r',_,i,by rw [hloop hread]; rfl,⟨h.stream,h.follows,hreading,.inr ⟨rfl,rfl⟩,?_⟩,.inr ⟨rfl,rfl⟩⟩
          rw [hfirst]
          exact h.first

lemma Reading.shuffle (h : Reading b base seed data .running i p head r) :
    Reading b base seed data .running i p head { r with
      buf := r.buffer++r.buf.drop r.buffer.length
      start := 0
      stop := r.stop-r.start } := by
  have hlen : r.buffer.length = r.stop-r.start := by
    rw [JournalReader.buffer,length_drop,length_take_of_le h.range.2]
  have hbuffer : ((r.buffer++r.buf.drop r.buffer.length).take (r.stop-r.start)).drop 0 =
      (data.take (b.framing.payload*i)).drop p := by rw [drop_zero,take_left' hlen,h.buffer]
  refine ⟨⟨zero_le _,?_⟩,h.blocks,hbuffer,h.reached,fun hlt => ⟨rfl,?_⟩,h.offset,h.ended,
    h.found,h.readOffset,h.checksums,h.head,fun _ hphase => (by cases hphase)⟩
  · simp only [length_append,hlen]
    exact le_add_right _ _
  · simp only [(h.fresh hlt).1,(h.fresh hlt).2]

lemma fillBuf_within (h : Within b file base seed data m tail phase i p head r) :
    ∃ r' phase' i',r.fillBuf b file = .ok r' ∧ Within b file base seed data m tail phase' i' p head r' ∧
      (p+b.framing.payload ≤ b.framing.payload*i' ∨ phase' = tail ∧ i' = m) := by
  have hsize := framing_payload b
  have hpos := b.framing.payload_pos
  have hmet : phase ≠ .running → phase = tail ∧ i = m := fun hne =>
    h.met.resolve_left fun hrunning => hne hrunning.1
  rw [fillBuf,require_of h.reading.range,ok_bind,payload_eq,h.reading.length_buffer]
  cases phase with
  | ended =>
    exact ⟨r,.ended,i,if_pos (.inr (.inl h.reading.ended)),h,.inr (hmet (by simp))⟩
  | reset block =>
    exact ⟨r,.reset block,i,if_pos (.inl h.reading.found),h,.inr (hmet (by simp))⟩
  | running =>
    by_cases henough : b.framing.payload ≤ b.framing.payload*i-p
    · exact ⟨r,.running,i,if_pos (.inr (.inr henough)),h,.inl (by omega)⟩
    · have hnot : ¬(r.foundReset = true ∨ r.badChecksum = true ∨ b.framing.payload ≤ b.framing.payload*i-p) := by
        rw [h.reading.found,h.reading.ended]
        simpa [Phase.isReset,Phase.isEnded] using henough
      rw [if_neg hnot,← h.reading.length_buffer]
      exact fillLoop_within b.bytes ⟨h.stream,h.follows,h.reading.shuffle,h.met,h.first⟩ (by omega)

section

variable (h : Reading b base seed data phase i p head r)
include h

lemma Reading.checkpoint_eq : r.journalFileCheckpoint = .ok ⟨base+b.framing.position p,head⟩ := by
  rw [journalFileCheckpoint,h.checksums,← h.offset]
  rfl

lemma Reading.offset_mod (hbase : b.bytes ∣ base) : r.bufFileOffset%b.bytes = p%b.framing.payload := by
  obtain ⟨n,rfl⟩ := hbase
  rw [h.offset,mul_add_mod,← framing_size,b.framing.position_mod]

lemma consume_reading (hbase : b.bytes ∣ base) {a : ℕ} (ha : a ≤ b.framing.payload) (hle : p+a ≤ b.framing.payload*i) :
    ∃ r' head',r.consume b a = .ok r' ∧ Reading b base seed data phase i (p+a) head' r' ∧ r'.firstRead = r.firstRead ∧
      (head' = b.framing.chain seed data ((p+a)/b.framing.payload) ∨
        (p+a)/b.framing.payload = p/b.framing.payload ∧ head' = head) := by
  have hsize := framing_payload b
  have hcheck : checksumSize = 8 := rfl
  have hmod := mod_lt p b.framing.payload_pos
  have hlen := h.length_buffer
  have hbuffer : (r.buf.take r.stop).drop (r.start+a) = (data.take (b.framing.payload*i)).drop (p+a) := by
    have heq := h.buffer
    rw [JournalReader.buffer] at heq
    rw [← drop_drop,heq,drop_drop]
  have hreached : (p+a)/b.framing.payload ≤ i := Nat.div_le_of_le_mul hle
  rw [consume,require_of (by omega),ok_bind,payload_eq,h.offset_mod hbase]
  by_cases hcross : b.framing.payload ≤ p%b.framing.payload+a
  · have hdiv := (b.framing.div_add_of_le hcross (by omega)).1
    obtain ⟨n,hn⟩ : ∃ n,i-p/b.framing.payload = n+1 := ⟨i-p/b.framing.payload-1,by omega⟩
    rw [if_pos hcross,h.checksums,hn,range'_succ,map_cons,cons_append]
    refine ⟨_,b.framing.chain seed data ((p+a)/b.framing.payload),rfl,⟨⟨?_,h.range.2⟩,h.blocks,
      hbuffer,hreached,fun hlt => absurd hle (by omega),?_,h.ended,h.found,h.readOffset,?_,.inl rfl,
      h.block⟩,rfl,.inl rfl⟩
    · simp only
      have hstart := h.range.1
      omega
    · simp only [h.offset]
      rw [b.framing.position_add_of_le hcross (by omega)]
      have htrailer : b.framing.trailer = checksumSize := rfl
      omega
    · have hcount : i-(p/b.framing.payload+1) = n := by omega
      rw [hdiv,hcount]
  · have hdiv := (b.framing.div_add_of_lt (not_le.mp hcross)).1
    rw [if_neg hcross]
    refine ⟨_,head,rfl,⟨⟨?_,h.range.2⟩,h.blocks,hbuffer,hreached,fun hlt => absurd hle (by omega),?_,
      h.ended,h.found,h.readOffset,?_,?_,h.block⟩,rfl,.inr ⟨hdiv,rfl⟩⟩
    · simp only
      have hstart := h.range.1
      omega
    · simp only [h.offset]
      rw [b.framing.position_add_of_lt (not_le.mp hcross),add_assoc]
    · rw [hdiv]
      exact h.checksums
    · rw [hdiv]
      exact h.head

end

variable {R : Type} {c : Codec R} {rest : List UInt8}

lemma deserialize_record (h : Within b file base seed data m tail phase i p head r) {record : R}
    (hdata : data.drop p = c.serialize record++rest) (hfit : (c.serialize record).length ≤ b.framing.payload)
    (hend : p+(c.serialize record).length ≤ b.framing.payload*m) :
    ∃ r' phase' i' head',r.deserialize b c file = .ok (.some record,r') ∧
      Within b file base seed data m tail phase' i' (p+(c.serialize record).length) head' r' ∧
      p+(c.serialize record).length ≤ b.framing.payload*i' ∧
      (head' = b.framing.chain seed data ((p+(c.serialize record).length)/b.framing.payload) ∨
        (p+(c.serialize record).length)/b.framing.payload = p/b.framing.payload ∧ head' = head) := by
  obtain ⟨r1,phase',i',hfill,hwithin,hstop⟩ := fillBuf_within h
  have hle : p+(c.serialize record).length ≤ b.framing.payload*i' := by
    rcases hstop with hroom | ⟨-,rfl⟩
    · omega
    · exact hend
  have hbuffer : ∃ more,r1.buffer = c.serialize record++more := by
    refine ⟨rest.take (b.framing.payload*i'-p-(c.serialize record).length),?_⟩
    rw [hwithin.reading.buffer,drop_take,hdata,take_append, take_of_length_le (by omega)]
  obtain ⟨more,hbuffer⟩ := hbuffer
  obtain ⟨r',head',hconsume,hreading,hfirst,hhead⟩ :=
    consume_reading hwithin.reading h.stream.aligned hfit hle
  refine ⟨r',phase',i',head',?_,⟨h.stream,h.follows,hreading,hwithin.met,?_⟩,hle,hhead⟩
  · simp only [deserialize,hfill,ok_bind,hbuffer,c.deserialize_append,hconsume]
    rfl
  · rw [hfirst]
    exact hwithin.first

lemma deserialize_end (h : Within b file base seed data m .ended phase i p head r) {record : R}
    (hshort : b.framing.payload*m < p+b.framing.payload)
    (hdata : c.serialize record = (data.take (b.framing.payload*m)).drop p++rest) (hrest : rest ≠ []) :
    ∃ r',r.deserialize b c file = .ok (.checksumMismatch,r') ∧
      Within b file base seed data m .ended .ended m p head r' := by
  obtain ⟨r',phase',i',hfill,hwithin,hstop⟩ := fillBuf_within h
  have hmet : phase' = .ended ∧ i' = m := by
    rcases hstop with hroom | hmet
    · rcases hwithin.met with ⟨-,hle⟩ | hmet
      · have hmul := mul_le_mul_left b.framing.payload hle
        omega
      · exact hmet
    · exact hmet
  obtain ⟨rfl,rfl⟩ := hmet
  refine ⟨r',?_,hwithin⟩
  have hbuffer := c.deserialize_truncated record r'.buffer rest (by rw [hwithin.reading.buffer,hdata]) hrest
  have hfound : r'.foundReset = false := hwithin.reading.found
  have hbad : r'.badChecksum = true := hwithin.reading.ended
  simp only [deserialize,hfill,ok_bind,hbuffer,hfound,hbad]
  rfl

lemma skipToEndOfBlock_within (h : Within b file base seed data m tail phase i p head r)
    (hle : p ≤ b.framing.payload*i) : ∃ r' head',r.skipToEndOfBlock b = .ok r' ∧
      Within b file base seed data m tail phase i (p+padding b p) head' r' ∧
      (head' = b.framing.chain seed data ((p+padding b p)/b.framing.payload) ∨
        (p+padding b p)/b.framing.payload = p/b.framing.payload ∧ head' = head) := by
  have hsize := framing_payload b
  have hmod := mod_lt p b.framing.payload_pos
  rw [skipToEndOfBlock,h.reading.offset_mod h.stream.aligned,padding]
  split_ifs with hpos
  · have hamount : b.bytes-p%b.framing.payload-checksumSize = b.framing.payload-p%b.framing.payload := by omega
    have hin : p+(b.framing.payload-p%b.framing.payload) ≤ b.framing.payload*i := by
      have hdiv := div_add_mod p b.framing.payload
      have hlt : p/b.framing.payload < i := by
        refine lt_of_le_of_ne h.reading.reached fun heq => ?_
        rw [heq] at hdiv
        omega
      have hmul := mul_le_mul_left b.framing.payload hlt
      rw [mul_succ] at hmul
      omega
    obtain ⟨r',head',hconsume,hreading,hfirst,hhead⟩ :=
      consume_reading h.reading h.stream.aligned (sub_le _ _) hin
    refine ⟨r',head',?_,⟨h.stream,h.follows,hreading,h.met,?_⟩,hhead⟩
    · rw [require_of (by omega),ok_bind,hamount,hconsume]
    · rw [hfirst]
      exact h.first
  · exact ⟨r,head,rfl,h,.inr ⟨rfl,rfl⟩⟩

end Fuchsia.Fxfs.JournalReader
