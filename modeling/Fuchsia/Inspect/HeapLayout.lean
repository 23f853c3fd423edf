import Fuchsia.Inspect.Heap
import Fuchsia.Lib.Linked

/-! The layout of a heap: the blocks that the headers describe, and the lists of free blocks
that run through the headers. -/
namespace Fuchsia.Inspect

section

open Buddies Linked Function List Set Nat Option

abbrev Headers := ℕ → BlockHeader

def IsFree (hdr : Headers) (i : ℕ) : Prop := (hdr i).blockType = BlockType.free.toU8

def freeHeader (order next : ℕ) : BlockHeader :=
  ((BlockHeader.zero.setOrder order).setBlockType .free).setLow next

lemma freeHeader_fits (order next : ℕ) : (freeHeader order next).Fits :=
  ((BlockHeader.fits_zero.setOrder _).setBlockType _).setLow _

lemma freeHeader_order {order next : ℕ} (h : order < numOrders) : (freeHeader order next).order = order :=
  mod_eq_of_lt (h.trans (by decide))

/-- The blocks partition the heap, and the list of each order has the free blocks of the
order that are not taken out. -/
structure Layout (n : ℕ) (hdr : Headers) (head : ℕ → ℕ) (blk : ℕ → Option ℕ)
    (lists : ℕ → List ℕ) (out : Set ℕ) : Prop where
  bound : n ≤ 2^24
  low : ∀ i,(hdr i).low < 2^24
  partition : Partition n blk
  order : ∀ {i k},blk i = some k → (hdr i).order = k
  small : ∀ {i k},blk i = some k → k < numOrders
  typed : ∀ {i k},blk i = some k → ∃ t : BlockType,(hdr i).blockType = t.toU8
  links : ∀ k,Links (fun i => (hdr i).low) (head k) (lists k)
  nodup : ∀ k,(lists k).Nodup
  mem : ∀ {i k},i ∈ lists k ↔ blk i = some k ∧ IsFree hdr i ∧ i ∉ out

def NoBuddies (hdr : Headers) (blk : ℕ → Option ℕ) (exempt : Set ℕ) : Prop :=
  ∀ i k,k+1 < numOrders → blk i = some k → blk (buddy i k) = some k → IsFree hdr i →
    IsFree hdr (buddy i k) → i ∈ exempt ∨ buddy i k ∈ exempt

variable {n i j k p : ℕ} {hdr hdr' : Headers} {head : ℕ → ℕ} {blk : ℕ → Option ℕ}
  {lists : ℕ → List ℕ} {out : Set ℕ}

namespace Layout

section

variable (h : Layout n hdr head blk lists out)
include h

lemma lt (hi : blk i = some k) : i < n := by
  have := h.partition.within hi
  have := Nat.two_pow_pos k
  omega

lemma eq_of_mem {k' : ℕ} (hi : i ∈ lists k) (hi' : i ∈ lists k') : k = k' := by
  have hk := (h.mem.mp hi).1
  rw [(h.mem.mp hi').1] at hk
  exact (some.inj hk).symm

lemma head_eq {rest : List ℕ} (hlist : lists k = i::rest) : head k = i := by
  have := h.links k
  rw [hlist] at this
  exact this.1

lemma head_lt (hn : 0 < n) : head k < n := by
  have hlinks := h.links k
  cases hlist : lists k with
  | nil =>
    rw [hlist] at hlinks
    rw [show head k = 0 from hlinks]
    exact hn
  | cons i rest =>
    rw [h.head_eq hlist]
    exact h.lt (h.mem.mp (hlist ▸ mem_cons_self)).1

lemma remove {head' : ℕ → ℕ} {ys : List ℕ} (hi : i ∈ lists k) (hlow : ∀ j,(hdr' j).low < 2^24)
    (hsame : ∀ j,(hdr' j).order = (hdr j).order ∧ (hdr' j).blockType = (hdr j).blockType)
    (hlinks : ∀ l,Links (fun j => (hdr' j).low) (head' l) (update lists k ys l)) (hys : ∀ j,j ∈ ys ↔ j ∈ lists k ∧ j ≠ i)
    (hnodup : ys.Nodup) : Layout n hdr' head' blk (update lists k ys) (insert i out) := by
  have hfree : ∀ j,IsFree hdr' j ↔ IsFree hdr j := fun j => by rw [IsFree,IsFree,(hsame j).2]
  refine ⟨h.bound,hlow,h.partition,fun hj => ?_,h.small,fun hj => ?_,hlinks,
    (forall_update_iff lists fun _ l => l.Nodup).mpr ⟨hnodup,fun l _ => h.nodup l⟩,fun {j l} => ?_⟩
  · rw [(hsame _).1]
    exact h.order hj
  · rw [(hsame _).2]
    exact h.typed hj
  · have hmem : j ∈ update lists k ys l ↔ j ∈ lists l ∧ j ≠ i := by
      by_cases hl : l = k
      · rw [hl,update_self]
        exact hys j
      · rw [update_of_ne hl]
        exact ⟨fun hj => ⟨hj,fun heq => hl (h.eq_of_mem hj (heq ▸ hi))⟩,And.left⟩
    rw [hmem,h.mem,hfree,mem_insert_iff]
    tauto

lemma pop {rest : List ℕ} (hlist : lists k = i::rest) :
    Layout n hdr (update head k (hdr i).low) blk (update lists k rest) (insert i out) := by
  have hnodup := h.nodup k
  rw [hlist,nodup_cons] at hnodup
  refine h.remove (hlist ▸ mem_cons_self) h.low (fun _ => ⟨rfl,rfl⟩) (fun l => ?_) (fun j => ?_) hnodup.2
  · by_cases hl : l = k
    · subst hl
      have := h.links l
      rw [hlist] at this
      rw [update_self,update_self]
      exact this.2
    · rw [update_of_ne hl,update_of_ne hl]
      exact h.links l
  · rw [hlist,mem_cons]
    constructor
    · intro hj
      exact ⟨.inr hj,fun heq => hnodup.1 (heq ▸ hj)⟩
    · rintro ⟨hj | hj,hne⟩
      · exact absurd hj hne
      · exact hj

end

lemma low_update {x : BlockHeader} : (fun j => (update hdr p x j).low) = update (fun j => (hdr j).low) p x.low := by
  funext j
  by_cases hj : j = p
  · rw [hj,update_self,update_self]
  · rw [update_of_ne hj,update_of_ne hj]

section

variable (h : Layout n hdr head blk lists out)
include h

lemma bypass {xs ys : List ℕ} (hlist : lists k = xs++p::i::ys) :
    Layout n (update hdr p ((hdr p).setLow (hdr i).low)) head blk (update lists k (xs++p::ys)) (insert i out) := by
  have hp : p ∈ lists k := by simp [hlist]
  have hnodup := h.nodup k
  rw [hlist] at hnodup
  have hsub : (xs++p::ys).Sublist (xs++p::i::ys) :=
    (((sublist_cons_self i ys).cons_cons p).append_left xs)
  refine h.remove (k := k) (by simp [hlist]) ((forall_update_iff hdr fun _ x => x.low < 2^24).mpr
      ⟨mod_lt _ (by decide),fun j _ => h.low j⟩) ((forall_update_iff hdr fun j x =>
      x.order = (hdr j).order ∧ x.blockType = (hdr j).blockType).mpr ⟨⟨rfl,rfl⟩,fun _ _ => ⟨rfl,rfl⟩⟩)
    (fun l => ?_) (fun j => ?_) (hnodup.sublist hsub)
  · have hset : ((hdr p).setLow (hdr i).low).low = (hdr i).low := mod_eq_of_lt (h.low i)
    rw [low_update,hset]
    by_cases hl : l = k
    · subst hl
      have := h.links l
      rw [hlist] at this
      rw [update_self]
      exact this.bypass hnodup
    · rw [update_of_ne hl]
      exact (h.links l).update fun hmem => hl (h.eq_of_mem hmem hp)
  · rw [hlist]
    have hni := hnodup
    simp only [nodup_append,nodup_cons,mem_cons,not_or] at hni
    simp only [mem_append,mem_cons]
    grind

lemma not_mem_of_out (hi : i ∈ out) : i ∉ lists k :=
  fun hmem => (h.mem.mp hmem).2.2 hi

lemma rewrite (hi : blk i = some k) (hnot : ∀ l,i ∉ lists l) (hlow : ∀ j,(hdr' j).low < 2^24)
    (hsame : ∀ {j l},blk j = some l → j ≠ i → hdr' j = hdr j) (horder : (hdr' i).order = k)
    {t : BlockType} (htype : (hdr' i).blockType = t.toU8) (ht : t ≠ .free) {out' : Set ℕ}
    (hout : ∀ {j},j ≠ i → (j ∈ out' ↔ j ∈ out)) : Layout n hdr' head blk lists out' := by
  have hnotfree : ¬ IsFree hdr' i := by
    intro hfree
    rw [IsFree,htype] at hfree
    exact ht (BlockType.toU8_injective hfree)
  have hne : ∀ {j l},j ∈ lists l → j ≠ i := fun hj heq => hnot _ (heq ▸ hj)
  refine ⟨h.bound,hlow,h.partition,fun {j l} hj => ?_,h.small,fun {j l} hj => ?_,fun l => ?_,h.nodup,fun {j l} => ?_⟩
  · by_cases hji : j = i
    · subst hji
      rw [horder]
      exact some.inj (hi.symm.trans hj)
    · rw [hsame hj hji]
      exact h.order hj
  · by_cases hji : j = i
    · exact ⟨t,hji ▸ htype⟩
    · rw [hsame hj hji]
      exact h.typed hj
  · exact (h.links l).congr fun j hj => by rw [hsame (h.mem.mp hj).1 (hne hj)]
  · by_cases hji : j = i
    · subst hji
      exact ⟨fun hj => absurd hj (hnot l),fun hj => absurd hj.2.1 hnotfree⟩
    · rw [h.mem]
      have hfree : blk j = some l → (IsFree hdr' j ↔ IsFree hdr j) := fun hj => by
        rw [IsFree,IsFree,hsame hj hji]
      rw [hout hji]
      constructor
      · rintro ⟨hj,hf,ho⟩
        exact ⟨hj,(hfree hj).mpr hf,ho⟩
      · rintro ⟨hj,hf,ho⟩
        exact ⟨hj,(hfree hj).mp hf,ho⟩

lemma push (hn : 0 < n) (hi : blk i = some k) (hout : i ∈ out) :
    Layout n (update hdr i (freeHeader k (head k))) (update head k i) blk (update lists k (i::lists k)) (out \ {i}) := by
  have hhead : head k < 2^24 := (h.head_lt hn).trans_le h.bound
  have hnot : ∀ l,i ∉ lists l := fun l => h.not_mem_of_out hout
  refine ⟨h.bound,(forall_update_iff hdr fun _ x => x.low < 2^24).mpr
      ⟨mod_lt _ (by decide),fun j _ => h.low j⟩,h.partition,fun {j l} hj => ?_,h.small,
    fun {j l} hj => ?_,fun l => ?_,(forall_update_iff lists fun _ l => l.Nodup).mpr
      ⟨nodup_cons.mpr ⟨hnot k,h.nodup k⟩,fun l _ => h.nodup l⟩,fun {j l} => ?_⟩
  · by_cases hji : j = i
    · subst hji
      rw [update_self,freeHeader_order (h.small hi)]
      exact some.inj (hi.symm.trans hj)
    · rw [update_of_ne hji]
      exact h.order hj
  · by_cases hji : j = i
    · rw [hji,update_self]
      exact ⟨.free,rfl⟩
    · rw [update_of_ne hji]
      exact h.typed hj
  · rw [low_update,show (freeHeader k _).low = _ from mod_eq_of_lt hhead]
    by_cases hl : l = k
    · rw [hl,update_self,update_self]
      exact (h.links k).push (hnot k)
    · rw [update_of_ne hl,update_of_ne hl]
      exact (h.links l).update (hnot l)
  · have hmem : j ∈ update lists k (i::lists k) l ↔ j = i ∧ l = k ∨ j ∈ lists l := by
      by_cases hl : l = k
      · simp [hl]
      · simp [hl]
    rw [hmem,h.mem]
    by_cases hji : j = i
    · subst hji
      simp only [hi,IsFree,update_self,freeHeader,BlockHeader.setLow,BlockHeader.setBlockType,mem_sdiff,
        mem_singleton_iff,some.injEq]
      tauto
    · simp only [IsFree,update_of_ne hji,mem_sdiff,mem_singleton_iff,hji,false_and,false_or,not_false_eq_true,and_true]

lemma cut (hi : blk i = some (k+1)) (hout : i ∈ out) (next next' : ℕ) :
    Layout n (update (update hdr i (freeHeader k next)) (i+2^k) (freeHeader k next')) head
      (split blk i k) lists (insert (i+2^k) out) := by
  have hk : k < numOrders := (lt_succ_self k).trans (h.small hi)
  have hpos : 0 < 2^k := Nat.two_pow_pos _
  have hpow : 2^(k+1) = 2^k+2^k := by ring
  have hnone : blk (i+2^k) = none := h.partition.inside hi (by omega) (by omega)
  have hat : ∀ {j},j = i ∨ j = i+2^k → ∃ x,
      update (update hdr i (freeHeader k next)) (i+2^k) (freeHeader k next') j = freeHeader k x := by
    rintro j (rfl | rfl)
    · exact ⟨next,by rw [update_of_ne (by omega),update_self]⟩
    · exact ⟨next',update_self _ _ _⟩
  have hoff : ∀ {j},j ≠ i → j ≠ i+2^k →
      update (update hdr i (freeHeader k next)) (i+2^k) (freeHeader k next') j = hdr j := by
    intro j hj hj'
    rw [update_of_ne hj',update_of_ne hj]
  have hne : ∀ {j l},j ∈ lists l → j ≠ i ∧ j ≠ i+2^k := by
    intro j l hj
    constructor
    · rintro rfl
      exact h.not_mem_of_out hout hj
    · rintro rfl
      rw [(h.mem.mp hj).1] at hnone
      cases hnone
  refine ⟨h.bound,fun j => ?_,h.partition.split hi,fun {j l} hj => ?_,fun {j l} hj => ?_,
    fun {j l} hj => ?_,fun l => ?_,h.nodup,fun {j l} => ?_⟩
  · by_cases hj : j = i ∨ j = i+2^k
    · obtain ⟨x,hx⟩ := hat hj
      rw [hx]
      exact mod_lt _ (by decide)
    · rw [not_or] at hj
      rw [hoff hj.1 hj.2]
      exact h.low j
  · obtain ⟨hj,rfl⟩ | ⟨hj,hj',hjl⟩ := split_eq_some.mp hj
    · obtain ⟨x,hx⟩ := hat hj
      rw [hx,freeHeader_order hk]
    · rw [hoff hj hj']
      exact h.order hjl
  · obtain ⟨-,rfl⟩ | ⟨-,-,hjl⟩ := split_eq_some.mp hj
    · exact hk
    · exact h.small hjl
  · obtain ⟨hj,rfl⟩ | ⟨hj,hj',hjl⟩ := split_eq_some.mp hj
    · obtain ⟨x,hx⟩ := hat hj
      exact ⟨.free,by rw [hx]; rfl⟩
    · rw [hoff hj hj']
      exact h.typed hjl
  · exact (h.links l).congr fun j hj => by rw [hoff (hne hj).1 (hne hj).2]
  · rw [h.mem,split_eq_some,mem_insert_iff]
    by_cases hji : j = i
    · subst hji
      simp [hout]
    · by_cases hjb : j = i+2^k
      · subst hjb
        simp [hnone]
      · simp only [IsFree,hoff hji hjb,hji,hjb,false_or,false_and,ne_eq,not_false_eq_true,true_and]

lemma join (hk : k+1 < numOrders) (hi : blk i = some k) (hright : blk (i+2^k) = some k) (haligned : 2^(k+1) ∣ i)
    (hiout : i ∈ out) (hrout : i+2^k ∈ out) : Layout n (update hdr i ((hdr i).setOrder (k+1))) head (merge blk i k) lists
      (out \ {i+2^k}) := by
  have hpos : 0 < 2^k := Nat.two_pow_pos _
  have hnot : ∀ l,i ∉ lists l := fun l => h.not_mem_of_out hiout
  have hnot' : ∀ l,i+2^k ∉ lists l := fun l => h.not_mem_of_out hrout
  refine ⟨h.bound,fun j => ?_,h.partition.merge hi hright haligned,fun {j l} hj => ?_,
    fun {j l} hj => ?_,fun {j l} hj => ?_,fun l => ?_,h.nodup,fun {j l} => ?_⟩
  · by_cases hj : j = i
    · rw [hj,update_self]
      exact h.low i
    · rw [update_of_ne hj]
      exact h.low j
  · obtain ⟨rfl,rfl⟩ | ⟨hj,-,hjl⟩ := merge_eq_some.mp hj
    · rw [update_self]
      exact mod_eq_of_lt (hk.trans (by decide))
    · rw [update_of_ne hj]
      exact h.order hjl
  · obtain ⟨rfl,rfl⟩ | ⟨-,-,hjl⟩ := merge_eq_some.mp hj
    · exact hk
    · exact h.small hjl
  · obtain ⟨rfl,rfl⟩ | ⟨hj,-,hjl⟩ := merge_eq_some.mp hj
    · rw [update_self]
      exact h.typed hi
    · rw [update_of_ne hj]
      exact h.typed hjl
  · rw [low_update]
    exact (h.links l).update (hnot l)
  · by_cases hji : j = i
    · subst hji
      have hin : j ∈ out \ {j+2^k} := ⟨hiout,by simp⟩
      exact ⟨fun hj => absurd hj (hnot l),fun hj => absurd hin hj.2.2⟩
    · by_cases hjb : j = i+2^k
      · subst hjb
        refine ⟨fun hj => absurd hj (hnot' l),fun hj => ?_⟩
        obtain ⟨heq,-⟩ | ⟨-,hne,-⟩ := merge_eq_some.mp hj.1
        · exact absurd heq hji
        · exact absurd rfl hne
      · rw [h.mem,merge_eq_some]
        simp [IsFree,hji,hjb]

lemma extend (hk : k < numOrders) (haligned : 2^k ∣ n) (hbound : n+2^k ≤ 2^24) (next : ℕ) :
    Layout (n+2^k) (update hdr n (freeHeader k next)) head (update blk n (some k)) lists (insert n out) := by
  have hnew : ∀ {j l},update blk n (some k) j = some l → j = n ∧ l = k ∨ j ≠ n ∧ blk j = some l := by
    intro j l hj
    by_cases hjn : j = n
    · rw [hjn,update_self] at hj
      exact .inl ⟨hjn,(some.inj hj).symm⟩
    · rw [update_of_ne hjn] at hj
      exact .inr ⟨hjn,hj⟩
  have hne : ∀ {j l},blk j = some l → j ≠ n := fun hj => (h.lt hj).ne
  refine ⟨hbound,fun j => ?_,h.partition.extend haligned,fun {j l} hj => ?_,fun {j l} hj => ?_,
    fun {j l} hj => ?_,fun l => ?_,h.nodup,fun {j l} => ?_⟩
  · by_cases hj : j = n
    · rw [hj,update_self]
      exact mod_lt _ (by decide)
    · rw [update_of_ne hj]
      exact h.low j
  · obtain ⟨rfl,rfl⟩ | ⟨hj,hjl⟩ := hnew hj
    · rw [update_self,freeHeader_order hk]
    · rw [update_of_ne hj]
      exact h.order hjl
  · obtain ⟨-,rfl⟩ | ⟨-,hjl⟩ := hnew hj
    · exact hk
    · exact h.small hjl
  · obtain ⟨rfl,rfl⟩ | ⟨hj,hjl⟩ := hnew hj
    · rw [update_self]
      exact ⟨.free,rfl⟩
    · rw [update_of_ne hj]
      exact h.typed hjl
  · rw [low_update]
    exact (h.links l).update fun hmem => hne (h.mem.mp hmem).1 rfl
  · by_cases hj : j = n
    · subst hj
      refine ⟨fun hmem => absurd rfl (hne (h.mem.mp hmem).1),fun hmem => ?_⟩
      exact absurd (mem_insert j out) hmem.2.2
    · rw [h.mem]
      simp [IsFree,hj]

end

lemma push_two (h : Layout n hdr head blk lists {i,j}) (hn : 0 < n) (hne : i ≠ j)
    (hi : blk i = some k) (hj : blk j = some k) :
    Layout n (update (update hdr j (freeHeader k (head k))) i (freeHeader k j)) (update head k i) blk
      (update lists k (i::j::lists k)) ∅ := by
  have hpush := (h.push hn hj (.inr rfl)).push hn hi ⟨.inl rfl,hne⟩
  have hout : (({i,j} : Set ℕ) \ {j}) \ {i} = ∅ := by
    ext x
    simp only [mem_sdiff,mem_insert_iff,mem_singleton_iff,mem_empty_iff_false]
    tauto
  rw [hout,update_self,update_self,update_idem,update_idem] at hpush
  exact hpush

lemma halve (h : Layout n hdr head blk lists {i}) (hi : blk i = some (k+1)) :
    Layout n (update (update hdr i (freeHeader k (i+2^k))) (i+2^k) (freeHeader k (head k)))
      (update head k i) (split blk i k) (update lists k (i::(i+2^k)::lists k)) ∅ := by
  have hpos : 0 < 2^k := Nat.two_pow_pos _
  have hne : i+2^k ≠ i := by omega
  have hcut := h.cut hi rfl (i+2^k) (head k)
  have hpair : (insert (i+2^k) {i} : Set ℕ) = {i,i+2^k} := pair_comm _ _
  rw [hpair] at hcut
  have hpush := hcut.push_two ((zero_le i).trans_lt (h.lt hi)) hne.symm
    (split_eq_some.mpr (.inl ⟨.inl rfl,rfl⟩)) (split_eq_some.mpr (.inl ⟨.inr rfl,rfl⟩))
  rw [update_idem,update_comm hne.symm,update_idem,update_comm hne] at hpush
  exact hpush

lemma grow (h : Layout n hdr head blk lists ∅) (hk : k < numOrders) (haligned : 2^k ∣ n) (hbound : n+2^k+2^k ≤ 2^24) :
    Layout (n+2^k+2^k) (update (update hdr (n+2^k) (freeHeader k (head k))) n (freeHeader k (n+2^k)))
      (update head k n) (update (update blk n (some k)) (n+2^k) (some k)) (update lists k (n::(n+2^k)::lists k)) ∅ := by
  have hpos : 0 < 2^k := Nat.two_pow_pos _
  have hne : n ≠ n+2^k := by omega
  have hfirst := h.extend hk haligned (by omega) 0
  have hsecond := hfirst.extend hk (dvd_add haligned dvd_rfl) hbound 0
  have hpair : (insert (n+2^k) (insert n ∅) : Set ℕ) = {n,n+2^k} := by
    rw [insert_empty_eq]
    exact pair_comm _ _
  rw [hpair] at hsecond
  have hpush := hsecond.push_two (by omega) hne (by rw [update_of_ne hne,update_self]) (update_self _ _ _)
  rw [update_idem,update_comm hne,update_idem] at hpush
  exact hpush

end Layout

namespace NoBuddies

lemma mono {exempt exempt' : Set ℕ} (h : NoBuddies hdr blk exempt) (hsub : exempt ⊆ exempt') :
    NoBuddies hdr blk exempt' :=
  fun _ _ hk hi hb hfi hfb => (h _ _ hk hi hb hfi hfb).imp (@hsub _) (@hsub _)

lemma congr {exempt : Set ℕ} (h : NoBuddies hdr blk exempt)
    (hsame : ∀ {j l},blk j = some l → IsFree hdr' j → IsFree hdr j) : NoBuddies hdr' blk exempt :=
  fun _ _ hk hi hb hfi hfb => h _ _ hk hi hb (hsame hi hfi) (hsame hb hfb)

lemma rewrite (h : NoBuddies hdr blk {i}) (hfree : ¬ IsFree hdr' i)
    (hsame : ∀ {j l},blk j = some l → j ≠ i → IsFree hdr' j → IsFree hdr j) : NoBuddies hdr' blk ∅ := by
  intro j l hl hj hb hfj hfb
  have hne : j ≠ i := fun heq => hfree (heq ▸ hfj)
  have hbne : buddy j l ≠ i := fun heq => hfree (heq ▸ hfb)
  obtain hj | hj := h _ _ hl hj hb (hsame hj hne hfj) (hsame hb hbne hfb)
  · exact absurd hj hne
  · exact absurd hj hbne

lemma cut (h : NoBuddies hdr blk {i}) (haligned : 2^(k+1) ∣ i)
    (hsame : ∀ {j},j ≠ i → j ≠ i+2^k → hdr' j = hdr j) : NoBuddies hdr' (split blk i k) {i} := by
  have hbuddy := buddy_of_dvd haligned
  intro j l hl hj hb hfj hfb
  obtain ⟨rfl | rfl,rfl⟩ | ⟨hji,hjb,hjl⟩ := split_eq_some.mp hj
  · exact .inl rfl
  · right
    rw [← hbuddy,buddy_buddy]
    rfl
  · obtain ⟨hbi | hbb,rfl⟩ | ⟨hbi,hbb,hbl⟩ := split_eq_some.mp hb
    · exact .inr hbi
    · rw [← hbuddy] at hbb
      have := congrArg (fun x => buddy x l) hbb
      simp only [buddy_buddy] at this
      exact absurd this hji
    · rw [IsFree,hsame hji hjb] at hfj
      rw [IsFree,hsame hbi hbb] at hfb
      exact h _ _ hl hjl hbl hfj hfb

lemma join {b : ℕ} (h : NoBuddies hdr blk {b}) (hb : b = i ∨ b = i+2^k)
    (hsame : ∀ {j},j ≠ i → hdr' j = hdr j) : NoBuddies hdr' (merge blk i k) {i} := by
  intro j l hl hj hbj hfj hfb
  obtain ⟨rfl,rfl⟩ | ⟨hji,hjb,hjl⟩ := merge_eq_some.mp hj
  · exact .inl rfl
  · obtain ⟨hbi,rfl⟩ | ⟨hbi,hbb,hbl⟩ := merge_eq_some.mp hbj
    · exact .inr hbi
    · rw [IsFree,hsame hji] at hfj
      rw [IsFree,hsame hbi] at hfb
      obtain rfl | hmem := h _ _ hl hjl hbl hfj hfb
      · exact absurd (hb.resolve_left hji) hjb
      · have heq : buddy j l = b := hmem
        obtain rfl | rfl := hb
        · exact absurd heq hbi
        · exact absurd heq hbb

lemma push (h : NoBuddies hdr blk {i}) (hi : blk i = some k)
    (hbuddy : k+1 < numOrders → blk (buddy i k) = some k → ¬ IsFree hdr (buddy i k))
    (hsame : ∀ {j},j ≠ i → hdr' j = hdr j) : NoBuddies hdr' blk ∅ := by
  intro j l hl hj hb hfj hfb
  exfalso
  by_cases hji : j = i
  · subst hji
    cases hi.symm.trans hj
    rw [IsFree,hsame (buddy_ne _ _)] at hfb
    exact hbuddy hl hb hfb
  · rw [IsFree,hsame hji] at hfj
    by_cases hbi : buddy j l = i
    · subst hbi
      cases hi.symm.trans hb
      rw [buddy_buddy] at hbuddy
      exact hbuddy hl hj hfj
    · rw [IsFree,hsame hbi] at hfb
      exact (h _ _ hl hj hb hfj hfb).elim hji hbi

lemma extend {n : ℕ} (h : NoBuddies hdr blk ∅) (hlt : ∀ {j l},blk j = some l → j < n)
    (hsame : ∀ {j},j < n → hdr' j = hdr j) {blk' : ℕ → Option ℕ}
    (hblk : ∀ {j l},l+1 < numOrders → blk' j = some l → blk j = some l) : NoBuddies hdr' blk' ∅ := by
  intro j l hl hj hb hfj hfb
  have hj := hblk hl hj
  have hb := hblk hl hb
  rw [IsFree,hsame (hlt hj)] at hfj
  rw [IsFree,hsame (hlt hb)] at hfb
  exact h _ _ hl hj hb hfj hfb

end NoBuddies

end

/-! The calls of the heap that look at a block or take one out of its list. -/

open Buddies Linked Function Effect List Heap Nat Block

/-- The layout of a heap, which has whole pages. -/
structure Shape (h : Heap) (blk : ℕ → Option ℕ) (lists : ℕ → List ℕ) (out : Set ℕ) : Prop where
  pages : pageSizeBytes ∣ h.currentSize
  size : h.currentSize ≤ h.mappingLen
  mapping : h.mappingLen ≤ 2^28
  layout : Layout (h.currentSize/minOrderSize) (readHeader h.memory) h.freeHead blk lists out

/-- The heaps differ in the links of the free lists only. -/
structure Relinked (h h' : Heap) : Prop where
  order : ∀ j,(readHeader h'.memory j).order = (readHeader h.memory j).order
  blockType : ∀ j,(readHeader h'.memory j).blockType = (readHeader h.memory j).blockType
  currentSize : h'.currentSize = h.currentSize
  mappingLen : h'.mappingLen = h.mappingLen

/-- The bytes of a block are the same. -/
def Kept (m m' : ByteMemory) (i k : ℕ) : Prop :=
  ∀ x,offsetForIndex i ≤ x → x < offsetForIndex (i+2^k) → m' x = m x

def Keeps (skip : Set ℕ) (h : Heap) (blk : ℕ → Option ℕ) (h' : Heap) (blk' : ℕ → Option ℕ) : Prop :=
  ∀ j l,blk j = some l → ¬ IsFree (readHeader h.memory) j → j ∉ skip →
    blk' j = some l ∧ Kept h.memory h'.memory j l

lemma Kept.header {m m' : ByteMemory} {i k : ℕ} (h : Kept m m' i k) : readHeader m' i = readHeader m i := by
  have hpos : 0 < 2^k := Nat.two_pow_pos _
  apply readHeader_congr
  intro j hj
  apply h
  · exact le_add_right _ _
  · simp only [offsetForIndex,minOrderSize]
    omega

lemma Kept.refl (m : ByteMemory) (i k : ℕ) : Kept m m i k := fun _ _ _ => rfl

lemma Kept.trans {m m' m'' : ByteMemory} {i k : ℕ} (h : Kept m m' i k) (h' : Kept m' m'' i k) :
    Kept m m'' i k := fun x hle hlt => (h' x hle hlt).trans (h x hle hlt)

lemma kept_writeHeader {m : ByteMemory} {i j k : ℕ} {x : BlockHeader}
    (hapart : i < j ∨ j+2^k ≤ i) : Kept m (writeHeader m i x) j k := by
  intro y hle hlt
  simp only [offsetForIndex,minOrderSize] at hle hlt
  obtain hlt' | hge := hapart
  · apply ByteMemory.write_of_ge
    simp only [offsetForIndex,minOrderSize,BlockHeader.length_bytes]
    omega
  · apply ByteMemory.write_of_lt
    simp only [offsetForIndex,minOrderSize]
    omega

lemma Keeps.refl (skip : Set ℕ) (h : Heap) (blk : ℕ → Option ℕ) : Keeps skip h blk h blk :=
  fun _ _ hj _ _ => ⟨hj,.refl _ _ _⟩

lemma Keeps.trans {skip skip' : Set ℕ} {h h' h'' : Heap} {blk blk' blk'' : ℕ → Option ℕ} (hk : Keeps skip h blk h' blk')
    (hk' : Keeps skip' h' blk' h'' blk'') (hskip : ∀ {j},j ∈ skip' → j ∈ skip ∨ IsFree (readHeader h.memory) j) :
    Keeps skip h blk h'' blk'' := by
  intro j l hj hfree hout
  obtain ⟨hj',hkept⟩ := hk _ _ hj hfree hout
  have hfree' : ¬ IsFree (readHeader h'.memory) j := by
    rw [IsFree,hkept.header]
    exact hfree
  obtain ⟨hj'',hkept'⟩ := hk' _ _ hj' hfree' fun hmem => (hskip hmem).elim hout hfree
  exact ⟨hj'',hkept.trans hkept'⟩

namespace Heap

variable {A : Type} {debug : Bool} {h : Heap} {i k : ℕ}

lemma buddy_eq (i k : ℕ) : buddy i k = Buddies.buddy i k := by
  have : orderToSize k/minOrderSize = 2^k := by
    rw [orderToSize]
    exact Nat.mul_div_cancel_left _ (by decide)
  rw [buddy,this,Buddies.buddy]

lemma read_of_ok {f : ByteMemory → Except FormatError A} {a : A} (hf : f h.memory = .ok a) : read f h = .ok a h := by
  simp only [read,get_bind,hf]
  rfl

lemma write_of_ok {f : ByteMemory → Except FormatError ByteMemory} {m : ByteMemory}
    (hf : f h.memory = .ok m) : write f h = .ok () { h with memory := m } := by
  rw [write,bind_of_ok (read_of_ok hf)]
  rfl

lemma write_ok (f : ByteMemory → ByteMemory) :
    write (fun m => .ok (f m)) h = .ok () { h with memory := f h.memory } := rfl

lemma headAt_of_lt (hk : k < numOrders) : headAt k h = .ok (h.freeHead k) h := by
  simp only [headAt,get_bind,if_pos hk]
  rfl

lemma setHead_of_lt (hk : k < numOrders) : setHead k i h = .ok () { h with freeHead := update h.freeHead k i } := by
  rw [setHead,if_pos hk]
  rfl

lemma blockOrder_apply : blockOrder i h = .ok (readHeader h.memory i).order h := rfl

lemma blockType_of_eq {t : BlockType} (ht : (readHeader h.memory i).blockType = t.toU8) : blockType i h = .ok t h := by
  simp only [blockType,get_bind,Block.blockType,ht,BlockType.fromU8_toU8]
  rfl

end Heap

namespace Shape

variable {debug : Bool} {h : Heap} {blk : ℕ → Option ℕ} {lists : ℕ → List ℕ} {out : Set ℕ}
  {i k l : ℕ}

section

variable (hs : Shape h blk lists out)
include hs

lemma units : minOrderSize*(h.currentSize/minOrderSize) = h.currentSize := by
  have hpages : 4096 ∣ h.currentSize := hs.pages
  simp only [minOrderSize]
  omega

lemma within (hi : blk i = some k) : offsetForIndex i+orderToSize k ≤ h.currentSize := by
  have hwithin := hs.layout.partition.within hi
  calc offsetForIndex i+orderToSize k = minOrderSize*(i+2^k) := by
        simp only [offsetForIndex,orderToSize]
        ring
    _ ≤ minOrderSize*(h.currentSize/minOrderSize) := mul_le_mul_left _ hwithin
    _ = h.currentSize := hs.units

lemma getBlock (hi : blk i = some k) : Heap.getBlock i h = .ok i h := by
  have hwithin := hs.within hi
  have horder : order h.memory i = k := hs.layout.order hi
  have hpos : 0 < orderToSize k := Nat.mul_pos (by decide) (Nat.two_pow_pos k)
  simp only [Heap.getBlock,get_bind,horder]
  rw [if_neg (by omega),if_neg (by omega)]
  rfl

lemma isFreeBlock (hi : blk i = some l) : Heap.isFreeBlock i k h =
      .ok (decide ((readHeader h.memory i).blockType = BlockType.free.toU8 ∧ l = k)) h := by
  obtain ⟨t,ht⟩ := hs.layout.typed hi
  have hget : attempt (Heap.getBlock i) h = .ok (.ok i) h := by rw [attempt,hs.getBlock hi]
  simp only [Heap.isFreeBlock,get_bind]
  rw [if_neg (not_le.mpr (hs.layout.lt hi)),bind_of_ok hget]
  simp only
  rw [bind_of_ok (blockType_of_eq ht),ht]
  by_cases hfree : t = .free
  · rw [if_pos hfree,bind_of_ok Heap.blockOrder_apply,hs.layout.order hi,hfree]
    simp
  · have hne : t.toU8 ≠ BlockType.free.toU8 := fun heq => hfree (BlockType.toU8_injective heq)
    rw [if_neg hfree]
    simp [hne]

lemma isFreeBlock_of_mem (hi : i ∈ lists k) : Heap.isFreeBlock i k h = .ok true h := by
  obtain ⟨hblk,hfree,-⟩ := hs.layout.mem.mp hi
  rw [hs.isFreeBlock hblk,decide_eq_true ⟨hfree,rfl⟩]

lemma length_lt : (lists k).length < h.currentSize/minOrderSize+1 := by
  have hsub : (lists k).toFinset ⊆ Finset.range (h.currentSize/minOrderSize) := by
    intro i hi
    rw [mem_toFinset] at hi
    exact Finset.mem_range.mpr (hs.layout.lt (hs.layout.mem.mp hi).1)
  have hcard := Finset.card_le_card hsub
  rw [toFinset_card_of_nodup (hs.layout.nodup k),Finset.card_range] at hcard
  exact lt_succ_of_le hcard

lemma apart {j : ℕ} (hi : blk i = some k) (hj : blk j = some l) (hne : j ≠ i) : i < j ∨ j+2^l ≤ i := by
  obtain hlt | hlt := lt_or_gt_of_ne hne
  · exact .inr (hs.layout.partition.apart hj hi hlt)
  · exact .inl hlt

lemma keeps_write (hi : blk i = some k) (x : BlockHeader) :
    Keeps {i} h blk { h with memory := writeHeader h.memory i x } blk :=
  fun _ _ hj _ hout => ⟨hj,kept_writeHeader (hs.apart hi hj hout)⟩

end

lemma erase_middle {xs ys : List ℕ} {p : ℕ} (hnodup : (xs++p::i::ys).Nodup) : (xs++p::i::ys).erase i = xs++p::ys := by
  have hassoc : xs++p::i::ys = (xs++[p])++i::ys := by simp
  have hnot : i ∉ xs++[p] := by
    rw [hassoc,nodup_append] at hnodup
    exact fun hmem => hnodup.2.2 i hmem i mem_cons_self rfl
  rw [hassoc,erase_append_right _ hnot,erase_cons_head]
  simp

lemma removeLoop (hs : Shape h blk lists out) {rest xs : List ℕ} {p fuel : ℕ} (hlist : lists k = xs++p::rest)
    (hi : i ∈ rest) (hfuel : rest.length < fuel) : ∃ h',Heap.removeLoop debug k i fuel p h = .ok true h' ∧
      Shape h' blk (update lists k ((lists k).erase i)) (insert i out) ∧ Relinked h h' ∧ Keeps ∅ h blk h' blk := by
  induction rest generalizing xs p fuel with
  | nil => cases hi
  | cons q rest ih =>
    cases fuel with
    | zero => exact absurd hfuel (not_lt_zero _)
    | succ fuel =>
      have hp : p ∈ lists k := by simp [hlist]
      obtain ⟨hblk,hpfree,-⟩ := hs.layout.mem.mp hp
      have hlinks := hs.layout.links k
      rw [hlist] at hlinks
      have hnext : (readHeader h.memory p).low = q := hlinks.next_eq
      rw [Heap.removeLoop,bind_of_ok (hs.isFreeBlock_of_mem hp),if_pos rfl,bind_of_ok (unwrap_of_ok (hs.getBlock hblk)),
        bind_of_ok (read_of_ok (freeNextIndex_of_free hpfree)),hnext]
      by_cases hq : q = i
      · subst hq
        have hq : q ∈ lists k := by simp [hlist]
        have hqfree := (hs.layout.mem.mp hq).2.1
        rw [if_pos rfl,bind_of_ok (read_of_ok (freeNextIndex_of_free hqfree)),
          bind_of_ok (write_of_ok (setFreeNextIndex_of_free hpfree _))]
        have hread : readHeader (writeHeader h.memory p _) = _ :=
          readHeader_writeHeader_eq ((readHeader_fits h.memory p).setLow (readHeader h.memory q).low)
        have hnodup := hs.layout.nodup k
        rw [hlist] at hnodup
        refine ⟨_,rfl,⟨hs.pages,hs.size,hs.mapping,?_⟩,⟨?_,?_,rfl,rfl⟩,
          fun _ _ hj hfree _ => hs.keeps_write hblk _ _ _ hj hfree fun hmem => hfree (hmem ▸ hpfree)⟩
        · have hlayout := hs.layout.bypass hlist
          rw [hlist,erase_middle hnodup]
          simp only [hread]
          exact hlayout
        all_goals
          intro j
          simp only [hread]
          by_cases hj : j = p
          · rw [hj,update_self]
            rfl
          · rw [update_of_ne hj]
      · rw [if_neg hq]
        have hirest : i ∈ rest := (mem_cons.mp hi).resolve_left (Ne.symm hq)
        refine @ih (xs++[p]) q fuel ?_ hirest ?_
        · simp [hlist]
        · simp only [length_cons] at hfuel
          omega

lemma removeFree (hs : Shape h blk lists out) (debug : Bool) (hi : i ∈ lists k) :
    ∃ h',Heap.removeFree debug i h = .ok true h' ∧
      Shape h' blk (update lists k ((lists k).erase i)) (insert i out) ∧ Relinked h h' ∧ Keeps ∅ h blk h' blk := by
  obtain ⟨hblk,hfree,-⟩ := hs.layout.mem.mp hi
  have hsmall := hs.layout.small hblk
  rw [Heap.removeFree,bind_of_ok Heap.blockOrder_apply,hs.layout.order hblk,if_neg (not_le.mpr hsmall),
    bind_of_ok (headAt_of_lt hsmall)]
  cases hlist : lists k with
  | nil =>
    rw [hlist] at hi
    cases hi
  | cons p rest =>
    rw [hs.layout.head_eq hlist]
    by_cases hp : p = i
    · subst hp
      rw [if_pos rfl,bind_of_ok (read_of_ok (freeNextIndex_of_free hfree)),
        bind_of_ok (setHead_of_lt hsmall),erase_cons_head]
      exact ⟨_,rfl,⟨hs.pages,hs.size,hs.mapping,hs.layout.pop hlist⟩,
        ⟨fun _ => rfl,fun _ => rfl,rfl,rfl⟩,fun _ _ hj _ _ => ⟨hj,.refl _ _ _⟩⟩
    · rw [if_neg hp,get_bind]
      have hirest : i ∈ rest := by
        rw [hlist] at hi
        exact (mem_cons.mp hi).resolve_left (Ne.symm hp)
      have hlen := hs.length_lt (k := k)
      rw [hlist,length_cons] at hlen
      rw [← hlist]
      exact hs.removeLoop (show lists k = []++_::rest by simp [hlist]) hirest (by omega)

end Shape

end Fuchsia.Inspect
