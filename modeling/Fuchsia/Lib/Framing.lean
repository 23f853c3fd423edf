import Mathlib.Tactic

/-! A stream of data that is cut into payloads of one length, each with a trailer that
depends on the payload and on the trailer before it. -/
namespace Fuchsia

open List Nat

structure Framing (A S : Type*) where
  payload : ℕ
  trailer : ℕ
  next : List A → S → S
  encode : S → List A
  payload_pos : 0 < payload
  length_encode : ∀ s,(encode s).length = trailer

namespace Framing

variable {A S : Type*} (f : Framing A S)

def size : ℕ := f.payload+f.trailer

def piece (data : List A) (i : ℕ) : List A := (data.drop (f.payload*i)).take f.payload

def chain (seed : S) (data : List A) : ℕ → S
  | 0 => seed
  | i+1 => f.next (f.piece data i) (chain seed data i)

def block (seed : S) (data : List A) (i : ℕ) : List A :=
  f.piece data i++f.encode (f.chain seed data (i+1))

def blocks (seed : S) (data : List A) : ℕ → List A
  | 0 => []
  | n+1 => blocks seed data n++f.block seed data n

def output (seed : S) (data : List A) : List A :=
  f.blocks seed data (data.length/f.payload)++data.drop (f.payload*(data.length/f.payload))

def position (p : ℕ) : ℕ := f.size*(p/f.payload)+p%f.payload

variable {seed : S} {data more : List A} {i n p : ℕ}

lemma length_piece (h : f.payload*(i+1) ≤ data.length) : (f.piece data i).length = f.payload := by
  rw [mul_succ] at h
  rw [piece,length_take,length_drop]
  omega

lemma piece_append (h : f.payload*(i+1) ≤ data.length) : f.piece (data++more) i = f.piece data i := by
  rw [mul_succ] at h
  have hdrop : f.payload*i-data.length = 0 := by omega
  have htake : f.payload-(data.drop (f.payload*i)).length = 0 := by
    rw [length_drop]
    omega
  simp only [piece,drop_append,take_append,hdrop,htake,drop_zero,take_zero, append_nil]

lemma payload_mul_succ (h : f.payload*(n+1) ≤ data.length) : f.payload*n ≤ data.length :=
  (mul_le_mul_left _ (le_succ n)).trans h

lemma chain_append (h : f.payload*i ≤ data.length) : f.chain seed (data++more) i = f.chain seed data i := by
  induction i with
  | zero => rfl
  | succ i ih =>
    rw [chain,chain,ih (f.payload_mul_succ h),f.piece_append h]

lemma blocks_append (h : f.payload*n ≤ data.length) : f.blocks seed (data++more) n = f.blocks seed data n := by
  induction n with
  | zero => rfl
  | succ n ih =>
    rw [blocks,blocks,ih (f.payload_mul_succ h),block,block,f.piece_append h,f.chain_append h]

lemma length_block (h : f.payload*(i+1) ≤ data.length) : (f.block seed data i).length = f.size := by
  rw [block,length_append,f.length_piece h,f.length_encode,size]

lemma length_blocks (h : f.payload*n ≤ data.length) : (f.blocks seed data n).length = f.size*n := by
  induction n with
  | zero => rfl
  | succ n ih =>
    rw [blocks,length_append,ih (f.payload_mul_succ h),f.length_block h,mul_succ]

lemma payload_mul_le (m : ℕ) : f.payload*(m/f.payload) ≤ m := mul_div_le m f.payload

lemma length_output : (f.output seed data).length = f.position data.length := by
  have hmod := div_add_mod data.length f.payload
  rw [output,length_append,f.length_blocks (f.payload_mul_le _),length_drop,position]
  omega

lemma blocks_le (seed : S) (data : List A) {m : ℕ} (hmn : m ≤ n) :
    ∃ rest,f.blocks seed data n = f.blocks seed data m++rest := by
  induction n,hmn using le_induction with
  | base => exact ⟨[],by rw [append_nil]⟩
  | succ n _ ih =>
    obtain ⟨rest,hrest⟩ := ih
    exact ⟨rest++f.block seed data n,by rw [blocks,hrest,append_assoc]⟩

variable {a : ℕ}

lemma div_add_of_lt (h : p%f.payload+a < f.payload) :
    (p+a)/f.payload = p/f.payload ∧ (p+a)%f.payload = p%f.payload+a := by
  have hp := div_add_mod p f.payload
  have heq : p+a = p%f.payload+a+f.payload*(p/f.payload) := by omega
  constructor
  · rw [heq,add_mul_div_left _ _ f.payload_pos,div_eq_of_lt h,zero_add]
  · rw [heq,add_mul_mod_self_left,mod_eq_of_lt h]

lemma div_add_of_le (h : f.payload ≤ p%f.payload+a) (h' : p%f.payload+a < 2*f.payload) :
    (p+a)/f.payload = p/f.payload+1 ∧ (p+a)%f.payload = p%f.payload+a-f.payload := by
  have hp := div_add_mod p f.payload
  have heq : p+a = p%f.payload+a-f.payload+f.payload*(p/f.payload+1) := by
    rw [mul_succ]
    omega
  have hlt : p%f.payload+a-f.payload < f.payload := by omega
  constructor
  · rw [heq,add_mul_div_left _ _ f.payload_pos,div_eq_of_lt hlt,zero_add]
  · rw [heq,add_mul_mod_self_left,mod_eq_of_lt hlt]

lemma position_add_of_lt (h : p%f.payload+a < f.payload) : f.position (p+a) = f.position p+a := by
  obtain ⟨hdiv,hmod⟩ := f.div_add_of_lt h
  rw [position,position,hdiv,hmod]
  omega

lemma position_add_of_le (h : f.payload ≤ p%f.payload+a) (h' : p%f.payload+a < 2*f.payload) :
    f.position (p+a) = f.position p+a+f.trailer := by
  obtain ⟨hdiv,hmod⟩ := f.div_add_of_le h h'
  rw [position,position,hdiv,hmod,mul_succ]
  simp only [size]
  omega

lemma position_mul (n : ℕ) : f.position (f.payload*n) = f.size*n := by
  rw [position,Nat.mul_mod_right,Nat.mul_div_cancel_left _ f.payload_pos,Nat.add_zero]

lemma position_mod (p : ℕ) : f.position p%f.size = p%f.payload := by
  have hlt : p%f.payload < f.size := (mod_lt p f.payload_pos).trans_le (le_add_right _ _)
  rw [position,mul_add_mod,mod_eq_of_lt hlt]

lemma position_strictMono : StrictMono f.position := by
  refine strictMono_nat_of_lt_succ fun p => ?_
  have hpos := f.payload_pos
  have hmod := mod_lt p hpos
  obtain hlt | hle := lt_or_ge (p%f.payload+1) f.payload
  · rw [f.position_add_of_lt hlt]
    omega
  · rw [f.position_add_of_le hle (by omega)]
    omega

section

variable (h : data.length%f.payload+more.length = f.payload)
include h

lemma piece_of_append_eq : f.piece (data++more) (data.length/f.payload) =
      data.drop (f.payload*(data.length/f.payload))++more := by
  have hmod := div_add_mod data.length f.payload
  rw [piece,drop_append_of_le_length (f.payload_mul_le _)]
  refine take_of_length_le ?_
  rw [length_append,length_drop]
  omega

lemma div_of_append_eq : (data++more).length/f.payload = data.length/f.payload+1 := by
  have hpos := f.payload_pos
  rw [length_append,(f.div_add_of_le h.ge (by omega)).1]

lemma output_append_of_eq : f.output seed (data++more) = f.output seed data++more++
      f.encode (f.next (data.drop (f.payload*(data.length/f.payload))++more)
        (f.chain seed data (data.length/f.payload))) := by
  have hle := f.payload_mul_le data.length
  have hmod := div_add_mod data.length f.payload
  have hlen : (data++more).length = f.payload*(data.length/f.payload+1) := by
    rw [length_append,mul_succ]
    omega
  rw [output,f.div_of_append_eq h,← hlen,drop_length,append_nil,blocks,
    f.blocks_append hle,block,chain,f.piece_of_append_eq h,f.chain_append hle,output]
  simp

end

end Framing
end Fuchsia
