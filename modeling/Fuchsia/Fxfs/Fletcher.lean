import Fuchsia.Lib.Bytes

/-! The checksum of journal blocks, `fletcher64` of `object_store/journal.rs`, and
the positions in the journal that carry one. -/
namespace Fuchsia.Fxfs

open Bytes UInt32

structure JournalCheckpoint where
  fileOffset : ℕ
  checksum : UInt64
  deriving DecidableEq,Repr,Inhabited

/-- `RESET_XOR`, which separates the blocks of two mounts. -/
def resetXor : UInt64 := 0xffffffffffffffff

def fletcherStep (lo hi : UInt32) (chunk : List UInt8) : UInt32 × UInt32 :=
  (lo+ofNat (leNat chunk),hi+(lo+ofNat (leNat chunk)))

def fletcherLoop : UInt32 → UInt32 → List UInt8 → UInt32 × UInt32
  | lo,hi,a::b::c::d::buf =>
    fletcherLoop (fletcherStep lo hi [a,b,c,d]).1 (fletcherStep lo hi [a,b,c,d]).2 buf
  | lo,hi,_ => (lo,hi)

/-- `fletcher64`, where the buffer's length is a multiple of four as the source asserts. -/
def fletcher64 (buf : List UInt8) (previous : UInt64) : UInt64 :=
  let (lo,hi) := fletcherLoop previous.toUInt32 (previous>>>32).toUInt32 buf
  hi.toUInt64<<<32 ||| lo.toUInt64

lemma fletcherLoop_fst (lo lo' hi hi' : UInt32) (buf : List UInt8) :
    (fletcherLoop lo hi buf).1-lo = (fletcherLoop lo' hi' buf).1-lo' := by
  fun_induction fletcherLoop lo hi buf generalizing lo' hi' with
  | case1 lo hi a b c d buf ih =>
    have hnext := ih (fletcherStep lo' hi' [a,b,c,d]).1 (fletcherStep lo' hi' [a,b,c,d]).2
    have hcancel : ∀ r x w : UInt32,r-x = r-(x+w)+w := by intro r x w; grind
    rw [hcancel _ lo (ofNat (leNat [a,b,c,d]))]
    rw [fletcherLoop,hcancel _ lo' (ofNat (leNat [a,b,c,d]))]
    rw [fletcherStep] at hnext
    exact congrArg (·+_) hnext
  | case2 lo hi buf hbuf =>
    rw [fletcherLoop]
    · simp
    · exact hbuf

lemma toUInt32_join (hi lo : UInt32) : (hi.toUInt64<<<32 ||| lo.toUInt64).toUInt32 = lo := by
  apply UInt32.toBitVec_inj.mp
  ext i
  simp

lemma toUInt32_xor_resetXor_ne (x : UInt64) : (x^^^resetXor).toUInt32 ≠ x.toUInt32 := by
  intro h
  have hbit := congrArg (fun y : UInt32 => y.toBitVec.getLsbD 0) h
  simp [resetXor] at hbit

lemma fletcher64_reset_ne (buf : List UInt8) (previous : UInt64) :
    fletcher64 buf (previous^^^resetXor) ≠ fletcher64 buf previous := by
  intro h
  have hlo := congrArg UInt64.toUInt32 h
  simp only [fletcher64,toUInt32_join] at hlo
  have hfst := fletcherLoop_fst (previous^^^resetXor).toUInt32 previous.toUInt32
    ((previous^^^resetXor)>>>32).toUInt32 (previous>>>32).toUInt32 buf
  rw [hlo] at hfst
  exact toUInt32_xor_resetXor_ne previous (by grind)

end Fuchsia.Fxfs
