import Fuchsia.Lib.Bytes
import Mathlib.Data.Nat.Size

/-! The format of the blocks of an Inspect VMO (`format/rust/src`): constants, sizes and the
header word. -/
namespace Fuchsia.Inspect

open Bytes Nat ByteMemory

def pageSizeBytes : ℕ := 4096

def numOrders : ℕ := 8

def minOrderShift : ℕ := 4

def minOrderSize : ℕ := 16

def maxOrderSize : ℕ := 2048

/-- The smallest order whose blocks have the size. For a size of zero the subtraction
overflows: it panics in debug mode, and wraps to 64 ones otherwise. -/
def fitOrder (debug : Bool) (size : ℕ) : Option ℕ :=
  if size = 0 then if debug then none else some (64-minOrderShift)
  else some (Nat.size (size-1)-minOrderShift)

/-- The index of an offset; `none` is the panic when it is not a `u32`. -/
def indexForOffset (offset : ℕ) : Option ℕ :=
  if offset/minOrderSize < 2^32 then some (offset/minOrderSize) else none

def offsetForIndex (index : ℕ) : ℕ := index*minOrderSize

def orderToSize (order : ℕ) : ℕ := minOrderSize*2^order

inductive BlockType
  | free
  | reserved
  | header
  | nodeValue
  | intValue
  | uintValue
  | doubleValue
  | bufferValue
  | extent
  | name
  | tombstone
  | arrayValue
  | linkValue
  | boolValue
  | stringReference
  deriving DecidableEq,Repr

namespace BlockType

def toU8 : BlockType → ℕ
  | free => 0
  | reserved => 1
  | header => 2
  | nodeValue => 3
  | intValue => 4
  | uintValue => 5
  | doubleValue => 6
  | bufferValue => 7
  | extent => 8
  | name => 9
  | tombstone => 10
  | arrayValue => 11
  | linkValue => 12
  | boolValue => 13
  | stringReference => 14

def fromU8 : ℕ → Option BlockType
  | 0 => some free
  | 1 => some reserved
  | 2 => some header
  | 3 => some nodeValue
  | 4 => some intValue
  | 5 => some uintValue
  | 6 => some doubleValue
  | 7 => some bufferValue
  | 8 => some extent
  | 9 => some name
  | 10 => some tombstone
  | 11 => some arrayValue
  | 12 => some linkValue
  | 13 => some boolValue
  | 14 => some stringReference
  | _ => none

lemma fromU8_toU8 (t : BlockType) : fromU8 t.toU8 = some t := by cases t <;> rfl

lemma toU8_injective : Function.Injective toU8 := by
  intro t t' h
  have := congrArg fromU8 h
  simpa [fromU8_toU8] using this

lemma eq_toU8_of_fromU8 {n : ℕ} {t : BlockType} (h : fromU8 n = some t) : n = t.toU8 := by
  unfold fromU8 at h
  split at h <;> first | (cases h; rfl) | cases h

end BlockType

/-- The fields of a header word: the order, four unused bits, the type, and two fields of 24
bits whose meaning depends on the type. -/
structure BlockHeader where
  order : ℕ
  unused : ℕ
  blockType : ℕ
  low : ℕ
  high : ℕ
  deriving DecidableEq,Repr

namespace BlockHeader

/-- `BlockHeader(0)` -/
def zero : BlockHeader := ⟨0,0,0,0,0⟩

def setOrder (h : BlockHeader) (order : ℕ) : BlockHeader := { h with order := order%16 }

def setBlockType (h : BlockHeader) (t : BlockType) : BlockHeader := { h with blockType := t.toU8 }

def setLow (h : BlockHeader) (value : ℕ) : BlockHeader := { h with low := value%2^24 }

structure Fits (h : BlockHeader) : Prop where
  order : h.order < 16
  unused : h.unused < 16
  blockType : h.blockType < 256
  low : h.low < 2^24
  high : h.high < 2^24

def bytes (h : BlockHeader) : List UInt8 :=
  leBytes 1 (h.order+16*h.unused)++leBytes 1 h.blockType++leBytes 3 h.low++leBytes 3 h.high

@[simp] lemma length_bytes (h : BlockHeader) : h.bytes.length = 8 := by simp [bytes]

lemma fits_zero : zero.Fits := ⟨by decide,by decide,by decide,by decide,by decide⟩

lemma Fits.setOrder {h : BlockHeader} (hfits : h.Fits) (order : ℕ) : (h.setOrder order).Fits :=
  { hfits with order := mod_lt _ (by decide) }

lemma Fits.setBlockType {h : BlockHeader} (hfits : h.Fits) (t : BlockType) : (h.setBlockType t).Fits :=
  { hfits with blockType := show t.toU8 < 256 by cases t <;> decide }

lemma Fits.setLow {h : BlockHeader} (hfits : h.Fits) (value : ℕ) : (h.setLow value).Fits :=
  { hfits with low := mod_lt _ (by decide) }

end BlockHeader

/-- The header at an index. -/
def readHeader (m : ByteMemory) (index : ℕ) : BlockHeader := let offset := offsetForIndex index
  let first := leNat (m.read offset 1)
  ⟨first%16,first/16,leNat (m.read (offset+1) 1),leNat (m.read (offset+2) 3),leNat (m.read (offset+5) 3)⟩

def writeHeader (m : ByteMemory) (index : ℕ) (h : BlockHeader) : ByteMemory :=
  m.write (offsetForIndex index) h.bytes

variable {m m' : ByteMemory} {index index' : ℕ} {h : BlockHeader}

lemma readHeader_fits (m : ByteMemory) (index : ℕ) : (readHeader m index).Fits := by
  have hfirst := leNat_lt (m.read (offsetForIndex index) 1)
  have htype := leNat_lt (m.read (offsetForIndex index+1) 1)
  have hlow := leNat_lt (m.read (offsetForIndex index+2) 3)
  have hhigh := leNat_lt (m.read (offsetForIndex index+5) 3)
  simp only [length_read] at hfirst htype hlow hhigh
  exact ⟨mod_lt _ (by decide),by simp only [readHeader]; omega,htype,hlow,hhigh⟩

lemma readHeader_congr (heq : ∀ j < 8,m (offsetForIndex index+j) = m' (offsetForIndex index+j)) :
    readHeader m index = readHeader m' index := by
  have hread : ∀ start n,start+n ≤ 8 → m.read (offsetForIndex index+start) n =
      m'.read (offsetForIndex index+start) n := by
    intro start n hle
    refine List.map_congr_left fun j hj => ?_
    have hj := List.mem_range.mp hj
    rw [add_assoc]
    exact heq _ (by omega)
  have h0 : m.read (offsetForIndex index) 1 = m'.read (offsetForIndex index) 1 := hread 0 1 (by decide)
  simp only [readHeader,h0,hread 1 1 (by decide),hread 2 3 (by decide),hread 5 3 (by decide)]

variable {debug : Bool} {size : ℕ}

lemma fitOrder_of_pos (hpos : 0 < size) : fitOrder debug size = some (Nat.size (size-1)-minOrderShift) := by
  rw [fitOrder,if_neg hpos.ne']

lemma le_orderToSize {order : ℕ} (hpos : 0 < size) (hfit : fitOrder debug size = some order) :
    size ≤ orderToSize order := by
  rw [fitOrder_of_pos hpos] at hfit
  cases hfit
  have hlt : size-1 < 2^(Nat.size (size-1)) := Nat.lt_size_self _
  have hpow : 2^(Nat.size (size-1)) ≤ 2^(minOrderShift+(Nat.size (size-1)-minOrderShift)) :=
    Nat.pow_le_pow_right (by decide) (by omega)
  rw [pow_add] at hpow
  have hbase : 2^minOrderShift = minOrderSize := rfl
  rw [hbase] at hpow
  rw [orderToSize]
  omega

lemma fitOrder_le {order k : ℕ} (hpos : 0 < size) (hfit : fitOrder debug size = some order)
    (hle : size ≤ orderToSize k) : order ≤ k := by
  rw [fitOrder_of_pos hpos] at hfit
  cases hfit
  have hlt : size-1 < 2^(minOrderShift+k) := by
    have hpow : 2^(minOrderShift+k) = orderToSize k := pow_add 2 minOrderShift k
    omega
  have := Nat.size_le.mpr hlt
  omega

lemma fitOrder_lt {order : ℕ} (hpos : 0 < size) (hfit : fitOrder debug size = some order) :
    order < numOrders ↔ size ≤ maxOrderSize := by
  rw [fitOrder_of_pos hpos] at hfit
  cases hfit
  have hsize : Nat.size (size-1) ≤ 11 ↔ size-1 < 2^11 := Nat.size_le
  simp only [minOrderShift,numOrders,maxOrderSize]
  omega

lemma readHeader_writeHeader (hfits : h.Fits) : readHeader (writeHeader m index h) index = h := by
  have hread : ∀ start n,start+n ≤ 8 →
      (writeHeader m index h).read (offsetForIndex index+start) n = (h.bytes.drop start).take n := by
    intro start n hle
    exact read_write_part (by rw [BlockHeader.length_bytes]; exact hle)
  have h0 : (writeHeader m index h).read (offsetForIndex index) 1 = (h.bytes.drop 0).take 1 :=
    hread 0 1 (by decide)
  have htake0 : (h.bytes.drop 0).take 1 = leBytes 1 (h.order+16*h.unused) := rfl
  have htake1 : (h.bytes.drop 1).take 1 = leBytes 1 h.blockType := rfl
  have htake2 : (h.bytes.drop 2).take 3 = leBytes 3 h.low := rfl
  have htake5 : (h.bytes.drop 5).take 3 = leBytes 3 h.high := rfl
  simp only [readHeader,h0,hread 1 1 (by decide),hread 2 3 (by decide),hread 5 3 (by decide),htake0,
    htake1,htake2,htake5,leNat_leBytes]
  have ho := hfits.order
  have hu := hfits.unused
  have hfirst : (h.order+16*h.unused)%256^1 = h.order+16*h.unused := mod_eq_of_lt (by omega)
  have htype : h.blockType%256^1 = h.blockType := mod_eq_of_lt hfits.blockType
  have hlow : h.low%256^3 = h.low := mod_eq_of_lt hfits.low
  have hhigh : h.high%256^3 = h.high := mod_eq_of_lt hfits.high
  rw [hfirst,htype,hlow,hhigh]
  congr 1 <;> omega

lemma readHeader_writeHeader_eq (hfits : h.Fits) :
    readHeader (writeHeader m index h) = Function.update (readHeader m) index h := by
  funext i
  by_cases hi : i = index
  · rw [hi,Function.update_self]
    exact readHeader_writeHeader hfits
  · rw [Function.update_of_ne hi]
    refine readHeader_congr fun j hj => ?_
    obtain hlt | hlt := lt_or_gt_of_ne hi
    · apply write_of_lt
      simp only [offsetForIndex,minOrderSize]
      omega
    · apply write_of_ge
      simp only [offsetForIndex,minOrderSize,BlockHeader.length_bytes]
      omega

end Fuchsia.Inspect
