import Mathlib.Tactic

/-! Numbers as sequences of bytes, least significant byte first. -/
namespace Fuchsia.Bytes

def leBytes : ℕ → ℕ → List UInt8
  | 0,_ => []
  | n+1,x => UInt8.ofNat x::leBytes n (x/256)

def beBytes (n x : ℕ) : List UInt8 := (leBytes n x).reverse

def leNat : List UInt8 → ℕ
  | [] => 0
  | b::bs => b.toNat+256*leNat bs

def beNat (bs : List UInt8) : ℕ := leNat bs.reverse

@[simp] lemma length_leBytes (n x : ℕ) : (leBytes n x).length = n := by
  induction n generalizing x with
  | zero => rfl
  | succ n ih => simp [leBytes,ih]

lemma leNat_leBytes (n x : ℕ) : leNat (leBytes n x) = x%256^n := by
  induction n generalizing x with
  | zero => simp [leBytes,leNat,Nat.mod_one]
  | succ n ih =>
    have hb : (UInt8.ofNat x).toNat = x%256 := UInt8.toNat_ofNat'
    rw [leBytes,leNat,hb,ih,pow_succ',Nat.mod_mul]

lemma leNat_lt (bs : List UInt8) : leNat bs < 256^bs.length := by
  induction bs with
  | nil => simp [leNat]
  | cons b bs ih =>
    have hb : b.toNat < 256 := b.toNat_lt
    rw [leNat,List.length_cons,pow_succ']
    omega

end Fuchsia.Bytes

/-! A memory of bytes: reading and writing of sequences at an offset. -/

namespace Fuchsia

open List

abbrev ByteMemory := ℕ → UInt8

namespace ByteMemory

def write (m : ByteMemory) (offset : ℕ) (data : List UInt8) : ByteMemory := fun i =>
  if offset ≤ i then (data[i-offset]?).getD (m i) else m i

def read (m : ByteMemory) (offset n : ℕ) : List UInt8 := (range n).map fun j => m (offset+j)

variable {m m' : ByteMemory} {offset n i : ℕ} {data : List UInt8}

@[simp] lemma length_read : (m.read offset n).length = n := by simp [read]

lemma write_of_lt (h : i < offset) : m.write offset data i = m i := by rw [write,if_neg (not_le.mpr h)]

lemma write_of_ge (h : offset+data.length ≤ i) : m.write offset data i = m i := by
  rw [write,if_pos (by omega),getElem?_eq_none (by omega)]
  rfl

lemma read_write_part {start : ℕ} (h : start+n ≤ data.length) :
    (m.write offset data).read (offset+start) n = (data.drop start).take n := by
  apply ext_getElem
  · simp only [length_read,length_take,length_drop]
    omega
  · intro j hj _
    rw [length_read] at hj
    have hlt : start+j < data.length := by omega
    simp [read,Nat.add_assoc,write,getElem?_eq_getElem hlt]

end ByteMemory

end Fuchsia
