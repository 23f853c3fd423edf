import Mathlib.Data.List.DropRight
import Mathlib.Tactic

/-! The implementations of `BufferView` (`packet/src/lib.rs`, `serialize.rs` and `records.rs`): bytes are
taken at both ends of a string. -/
namespace Fuchsia.Packet

open List

/-- `BufferView`, with `as_ref`: a call returns the bytes taken and the view that it leaves. -/
structure BufferView (S : Type) where
  asRef : S → List UInt8
  takeFront : S → ℕ → Option (List UInt8 × S)
  takeBack : S → ℕ → Option (List UInt8 × S)
  intoRest : S → List UInt8

def takeFront (bytes : List UInt8) (n : ℕ) : List UInt8 × List UInt8 := bytes.splitAt n

def takeBack (bytes : List UInt8) (n : ℕ) : List UInt8 × List UInt8 :=
  (bytes.splitAt (bytes.length-n)).swap

namespace BufferView

/-- The views `&mut &[u8]` and, of both kinds, `&mut &mut [u8]`. -/
def slice : BufferView (List UInt8) where
  asRef bytes := bytes
  takeFront bytes n := if bytes.length < n then none else some (Packet.takeFront bytes n)
  takeBack bytes n := if bytes.length < n then none else some (Packet.takeBack bytes n)
  intoRest bytes := bytes

/-- The `ByteSlice` of `parse_with`. -/
def byteSlice : BufferView (List UInt8) := slice

/-- A `BufView` or `BufViewMut`: a slice of a `Buf`, and the range of the `Buf` that it is. -/
structure BufState where
  buf : List UInt8
  start : ℕ
  stop : ℕ
  fits : start+buf.length = stop

def bufView : BufferView BufState where
  asRef s := s.buf
  takeFront s n :=
    if h : s.buf.length < n then none
    else
      let r := Packet.takeFront s.buf n
      some (r.1,⟨r.2,s.start+n,s.stop,by simp [r,Packet.takeFront,← s.fits]; omega⟩)
  takeBack s n :=
    if h : s.buf.length < n then none
    else
      let r := Packet.takeBack s.buf n
      some (r.1,⟨r.2,s.start,s.stop-n,by simp [r,Packet.takeBack,← s.fits]; omega⟩)
  intoRest s := s.buf

def longLivedBuff : BufferView (List UInt8) where
  asRef bytes := bytes
  takeFront bytes n := if bytes.length ≥ n then some (bytes.splitAt n) else none
  -- the split is at `n` here too
  takeBack bytes n := if bytes.length ≥ n then some (bytes.splitAt n).swap else none
  intoRest bytes := bytes

def deque : BufferView (List UInt8) where
  asRef bytes := bytes
  takeFront bytes n := if n ≤ bytes.length then some (bytes.take n,bytes.drop n) else none
  takeBack bytes n := if n ≤ bytes.length then some (bytes.rtake n,bytes.rdrop n) else none
  intoRest bytes := bytes

inductive Call
  | front (n : ℕ)
  | back (n : ℕ)

variable {S : Type} (v : BufferView S)

/-- The bytes that calls take at the front, those that they take at the back, both in the order of the
string, and the view that is left. -/
def run : S → List Call → List UInt8 × List UInt8 × S
  | s,[] => ([],[],s)
  | s,.front n::calls =>
    match v.takeFront s n with
    | none => run s calls
    | some (taken,s) =>
      let (fronts,backs,s) := run s calls
      (taken++fronts,backs,s)
  | s,.back n::calls =>
    match v.takeBack s n with
    | none => run s calls
    | some (taken,s) =>
      let (fronts,backs,s) := run s calls
      (fronts,backs++taken,s)

def Front (s : S) (n : ℕ) : Prop :=
  (v.takeFront s n).map (Prod.map id v.asRef) = deque.takeFront (v.asRef s) n

def Back (s : S) (n : ℕ) : Prop :=
  (v.takeBack s n).map (Prod.map id v.asRef) = deque.takeBack (v.asRef s) n

/-- All calls of a sequence are right, each on the view that those before it leave. -/
def Exact : S → List Call → Prop
  | _,[] => True
  | s,.front n::calls => v.Front s n ∧ Exact ((v.takeFront s n).elim s Prod.snd) calls
  | s,.back n::calls => v.Back s n ∧ Exact ((v.takeBack s n).elim s Prod.snd) calls

/-- What calls take and what they leave is the string. -/
def Whole : Prop := ∀ s calls,
  (v.run s calls).1++v.intoRest (v.run s calls).2.2++(v.run s calls).2.1 = v.asRef s

/-- Each call at the back asks for more bytes than are left, or for half of them. -/
def Halved : ℕ → List Call → Prop
  | _,[] => True
  | len,.front n::calls => Halved (if n ≤ len then len-n else len) calls
  | len,.back n::calls => (len < n ∨ len = 2*n) ∧ Halved (if n ≤ len then len-n else len) calls

variable {v}

lemma Front.append {s s' : S} {n : ℕ} {taken : List UInt8} (h : v.Front s n)
    (hs : v.takeFront s n = some (taken,s')) : taken++v.asRef s' = v.asRef s := by
  simp only [Front,deque,hs,Option.map_some] at h
  split_ifs at h
  obtain ⟨rfl,hleft⟩ : taken = _ ∧ _ = _ := by simpa using h
  rw [hleft,take_append_drop]

lemma Back.append {s s' : S} {n : ℕ} {taken : List UInt8} (h : v.Back s n)
    (hs : v.takeBack s n = some (taken,s')) : v.asRef s'++taken = v.asRef s := by
  simp only [Back,deque,hs,Option.map_some] at h
  split_ifs at h
  obtain ⟨rfl,hleft⟩ : taken = _ ∧ _ = _ := by simpa using h
  rw [hleft,rdrop,rtake,take_append_drop]

lemma whole_of_append (hrest : v.intoRest = v.asRef)
    (hfront : ∀ s n taken s',v.takeFront s n = some (taken,s') → taken++v.asRef s' = v.asRef s)
    (hback : ∀ s n taken s',v.takeBack s n = some (taken,s') → v.asRef s'++taken = v.asRef s) : v.Whole := by
  intro s calls
  induction calls generalizing s with
  | nil => simp [run,hrest]
  | cons call calls ih =>
    cases call with
    | front n =>
      rw [run]
      cases hs : v.takeFront s n with
      | none => exact ih s
      | some r => simp [← hfront s n r.1 r.2 hs,← ih r.2]
    | back n =>
      rw [run]
      cases hs : v.takeBack s n with
      | none => exact ih s
      | some r => simp [← hback s n r.1 r.2 hs,← ih r.2]

lemma exact_of_calls (h : ∀ s n,v.Front s n ∧ v.Back s n) (s : S) (calls : List Call) : v.Exact s calls := by
  induction calls generalizing s with
  | nil => trivial
  | cons call calls ih =>
    cases call with
    | front n => exact ⟨(h s n).1,ih _⟩
    | back n => exact ⟨(h s n).2,ih _⟩

lemma whole_of_calls (hrest : v.intoRest = v.asRef) (h : ∀ s n,v.Front s n ∧ v.Back s n) : v.Whole :=
  whole_of_append hrest (fun s n _ _ hs => (h s n).1.append hs) fun s n _ _ hs => (h s n).2.append hs

lemma slice_exact (bytes : List UInt8) (n : ℕ) : slice.Front bytes n ∧ slice.Back bytes n := by
  by_cases h : n ≤ bytes.length
  · simp [Front,Back,slice,deque,h,Packet.takeFront,Packet.takeBack,rtake,rdrop]
  · simp [Front,Back,slice,deque,h,not_le.mp h]

lemma bufView_exact (s : BufState) (n : ℕ) : bufView.Front s n ∧ bufView.Back s n := by
  by_cases h : n ≤ s.buf.length
  · simp [Front,Back,bufView,deque,h,Packet.takeFront,Packet.takeBack,rtake,rdrop]
  · simp [Front,Back,bufView,deque,h,not_le.mp h]

lemma bufView_start (s : BufState) (calls : List Call) :
    (bufView.run s calls).2.2.start = s.start+(bufView.run s calls).1.length := by
  induction calls generalizing s with
  | nil => rfl
  | cons call calls ih =>
    cases call with
    | front n =>
      by_cases h : s.buf.length < n
      · rw [run,show bufView.takeFront s n = none from dif_pos h]
        exact ih s
      · rw [run,show bufView.takeFront s n = some _ from dif_neg h]
        simp only [ih,Packet.takeFront,length_append,splitAt_eq,length_take]
        omega
    | back n =>
      by_cases h : s.buf.length < n
      · rw [run,show bufView.takeBack s n = none from dif_pos h]
        exact ih s
      · rw [run,show bufView.takeBack s n = some _ from dif_neg h]
        exact ih _

lemma longLivedBuff_front (bytes : List UInt8) (n : ℕ) : longLivedBuff.Front bytes n := by
  by_cases h : n ≤ bytes.length <;> simp [Front,longLivedBuff,deque,h]

lemma longLivedBuff_back (bytes : List UInt8) (n : ℕ) :
    longLivedBuff.Back bytes n ↔ bytes.length < n ∨ bytes.length = 2*n := by
  by_cases h : n ≤ bytes.length
  · simp only [Back,longLivedBuff,deque,h,ge_iff_le,if_true,splitAt_eq,Option.map_some,Option.some.injEq]
    constructor
    · intro heq
      have hlen := congrArg length (Prod.mk.inj heq).1
      simp [rtake] at hlen
      omega
    · intro hhalf
      have hn : bytes.length-n = n := by omega
      simp [rtake,rdrop,hn]
  · simp [Back,longLivedBuff,deque,h,not_le.mp h]

lemma longLivedBuff_whole : longLivedBuff.Whole := by
  refine whole_of_append rfl (fun s n _ _ hs => (longLivedBuff_front s n).append hs) fun s n taken s' hs => ?_
  simp only [longLivedBuff,splitAt_eq] at hs
  split_ifs at hs
  obtain ⟨rfl,rfl⟩ : s.drop n = taken ∧ s.take n = s' := by simpa using hs
  exact take_append_drop n s

lemma longLivedBuff_exact_iff (bytes : List UInt8) (calls : List Call) :
    longLivedBuff.Exact bytes calls ↔ Halved bytes.length calls := by
  induction calls generalizing bytes with
  | nil => exact Iff.rfl
  | cons call calls ih =>
    cases call with
    | front n =>
      rw [Exact,Halved,ih,and_iff_right (longLivedBuff_front bytes n)]
      by_cases h : n ≤ bytes.length <;> simp [longLivedBuff,h]
    | back n =>
      rw [Exact,Halved,ih,longLivedBuff_back]
      refine and_congr_right fun hback => ?_
      by_cases h : n ≤ bytes.length
      · have hn : bytes.length-n = n := by omega
        simp [longLivedBuff,h,hn]
      · simp [longLivedBuff,h]

/-- On every view but `LongLivedBuff` all sequences of calls take the bytes that they would take at the two
ends of the string, and the range of a `Buf` loses these bytes at the end where they are taken. On a
`LongLivedBuff` they do just if the calls at its back are for half of the bytes, or for too many. What is
taken of any view and what is left make up the string. -/
theorem views_exact (bytes : List UInt8) (s : BufState) (calls : List Call) :
    (slice.Exact bytes calls ∧ slice.Whole) ∧ (byteSlice.Exact bytes calls ∧ byteSlice.Whole) ∧
    (bufView.Exact s calls ∧ bufView.Whole) ∧
    (bufView.run s calls).2.2.start = s.start+(bufView.run s calls).1.length ∧
    (bufView.run s calls).2.2.stop+(bufView.run s calls).2.1.length = s.stop ∧
    longLivedBuff.Whole ∧ (longLivedBuff.Exact bytes calls ↔ Halved bytes.length calls) := by
  have hslice := whole_of_calls rfl slice_exact
  have hbuf := whole_of_calls rfl bufView_exact
  have hstart := bufView_start s calls
  refine ⟨⟨exact_of_calls slice_exact _ _,hslice⟩,⟨exact_of_calls slice_exact _ _,hslice⟩,
    ⟨exact_of_calls bufView_exact _ _,hbuf⟩,hstart,?_,longLivedBuff_whole,longLivedBuff_exact_iff _ _⟩
  have hlen := congrArg length (hbuf s calls)
  have hfits := (bufView.run s calls).2.2.fits
  have hs := s.fits
  simp only [bufView,length_append] at hlen hstart hfits ⊢
  omega

/-- `take_back(1)` of three bytes returns the last two. -/
theorem longLivedBuff_back_short : longLivedBuff.takeBack [1,2,3] 1 = some ([2,3],[1]) ∧
    ¬longLivedBuff.Exact [1,2,3] [.back 1] :=
  ⟨rfl,fun h => by simp [longLivedBuff_exact_iff,Halved] at h⟩

end BufferView
end Fuchsia.Packet
