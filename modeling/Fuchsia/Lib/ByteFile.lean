import Mathlib.Tactic

/-! A file of bytes that is read and overwritten at offsets. -/
namespace Fuchsia

open List

structure ByteFile where
  bytes : ℕ → UInt8
  size : ℕ

namespace ByteFile

def read (file : ByteFile) (offset n : ℕ) : Option (List UInt8) :=
  if offset+n ≤ file.size then some ((range n).map fun x => file.bytes (offset+x)) else none

def write (file : ByteFile) (offset : ℕ) (data : List UInt8) : ByteFile where
  bytes x := if offset ≤ x then data.getD (x-offset) (file.bytes x) else file.bytes x
  size := max file.size (offset+data.length)

structure Holds (file : ByteFile) (offset : ℕ) (data : List UInt8) : Prop where
  size : offset+data.length ≤ file.size
  bytes : ∀ x < data.length,data[x]? = some (file.bytes (offset+x))

variable {file : ByteFile} {offset : ℕ} {data more : List UInt8}

lemma Holds.read (h : file.Holds offset data) : file.read offset data.length = some data := by
  rw [ByteFile.read,if_pos h.size]
  congr 1
  refine ext_getElem? fun x => ?_
  by_cases hx : x < data.length
  · rw [h.bytes x hx,getElem?_map,getElem?_range hx]
    rfl
  · rw [getElem?_eq_none (not_lt.mp hx),getElem?_eq_none (by simpa using hx)]

lemma holds_append : file.Holds offset (data++more) ↔ file.Holds offset data ∧ file.Holds (offset+data.length) more := by
  constructor
  · intro h
    have hsize := h.size
    rw [length_append] at hsize
    refine ⟨⟨by omega,fun x hx => ?_⟩,⟨by omega,fun x hx => ?_⟩⟩
    · rw [← h.bytes x (by rw [length_append]; omega),getElem?_append_left hx]
    · have hbytes := h.bytes (data.length+x) (by rw [length_append]; omega)
      rw [getElem?_append_right (Nat.le_add_right _ _),Nat.add_sub_cancel_left] at hbytes
      rw [hbytes,Nat.add_assoc]
  · rintro ⟨hdata,hmore⟩
    have hsize := hmore.size
    refine ⟨by rw [length_append]; omega,fun x hx => ?_⟩
    by_cases hlt : x < data.length
    · rw [getElem?_append_left hlt,hdata.bytes x hlt]
    · rw [length_append] at hx
      rw [getElem?_append_right (not_lt.mp hlt),hmore.bytes (x-data.length) (by omega)]
      congr 2
      omega

lemma holds_nil (h : offset ≤ file.size) : file.Holds offset [] :=
  ⟨h,fun _ hx => absurd hx (Nat.not_lt_zero _)⟩

end ByteFile
end Fuchsia
