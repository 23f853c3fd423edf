import Mathlib.Tactic

/-! Byte ranges and rounding (`range.rs`, `round.rs`). -/
namespace Fuchsia.Fxfs

/-- A half-open range of bytes; `stop` is the source's `end`. -/
structure Range where
  start : ℕ
  stop : ℕ
  deriving DecidableEq,Repr

namespace Range

def valid (r : Range) : Prop := r.start ≤ r.stop

instance (r : Range) : Decidable r.valid := inferInstanceAs (Decidable (_ ≤ _))

/-- The length of a valid range. -/
def length (r : Range) : ℕ := r.stop-r.start

end Range

def roundDown (offset blockSize : ℕ) : ℕ := offset-offset % blockSize

variable (offset blockSize : ℕ)

lemma dvd_roundDown : blockSize ∣ roundDown offset blockSize :=
  Nat.dvd_sub_mod offset

lemma roundDown_le : roundDown offset blockSize ≤ offset := Nat.sub_le _ _

end Fuchsia.Fxfs
