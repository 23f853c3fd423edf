import Fuchsia.Inspect.HeapLayout

/-! What `allocate_block` does to the layout of the heap. -/
namespace Fuchsia.Inspect

section

open Buddies Function Effect Block Heap Nat BlockType List

lemma readHeader_setOrder (m : ByteMemory) (i k : ℕ) : readHeader (writeHeader m i ((readHeader m i).setOrder k)) =
      update (readHeader m) i ((readHeader m i).setOrder k) :=
  readHeader_writeHeader_eq ((readHeader_fits m i).setOrder k)

lemma readHeader_becomeFree (m : ByteMemory) (i next : ℕ) : readHeader (becomeFree m i next) =
      update (readHeader m) i (freeHeader (readHeader m i).order next) :=
  readHeader_writeHeader_eq (freeHeader_fits _ _)

lemma readHeader_refree {m : ByteMemory} {i k next : ℕ} (hk : k < numOrders) :
    readHeader (becomeFree (writeHeader m i ((readHeader m i).setOrder k)) i next) =
      update (readHeader m) i (freeHeader k next) := by
  have horder : ((readHeader m i).setOrder k).order = k := mod_eq_of_lt (hk.trans (by decide))
  rw [readHeader_becomeFree,readHeader_setOrder,update_self,horder,update_idem]

lemma kept_refree {m : ByteMemory} {i j k l next : ℕ} (hapart : i < j ∨ j+2^l ≤ i) :
    Kept m (becomeFree (writeHeader m i ((readHeader m i).setOrder k)) i next) j l :=
  (kept_writeHeader hapart).trans (kept_writeHeader hapart)

namespace Shape

variable {debug : Bool} {h : Heap} {blk : ℕ → Option ℕ} {lists : ℕ → List ℕ} {out : Set ℕ}
  {i k l : ℕ} {rest : List ℕ}

section

variable (hs : Shape h blk lists ∅)
include hs

lemma splitBlock (debug : Bool) (hlist : lists (k+1) = i::rest) (hnb : NoBuddies (readHeader h.memory) blk {i}) :
    ∃ h',Heap.splitBlock debug i h = .ok () h' ∧
      Shape h' (split blk i k) (update (update lists (k+1) rest) k (i::(i+2^k)::lists k)) ∅ ∧
      NoBuddies (readHeader h'.memory) (split blk i k) {i} ∧
      Keeps ∅ h blk h' (split blk i k) ∧ h'.currentSize = h.currentSize ∧ h'.mappingLen = h.mappingLen := by
  have hi : i ∈ lists (k+1) := by simp [hlist]
  obtain ⟨hblk,hfree,-⟩ := hs.layout.mem.mp hi
  have hsmall := hs.layout.small hblk
  have hk : k < numOrders := (lt_succ_self k).trans hsmall
  have hpow : 2^(k+1) = 2^k+2^k := by ring
  have hpos : 0 < 2^k := Nat.two_pow_pos _
  have haligned := hs.layout.partition.aligned hblk
  have hwithin := hs.layout.partition.within hblk
  obtain ⟨h1,hremove,hs1,hsame,hkeeps⟩ := hs.removeFree debug hi
  rw [hlist,erase_cons_head] at hs1
  have hbuddy : Heap.buddy i k = i+2^k := by rw [buddy_eq,buddy_of_dvd haligned]
  rw [Heap.splitBlock,bind_of_ok Heap.blockOrder_apply,hs.layout.order hblk,if_neg (not_le.mpr hsmall),
    bind_of_ok hremove,bind_of_ok Heap.blockOrder_apply,hs1.layout.order hblk]
  simp only [hbuddy,Nat.add_sub_cancel]
  rw [bind_of_ok (write_of_ok (setOrder_of_lt hk)),bind_of_ok (write_ok _),
    bind_of_ok (write_of_ok (setOrder_of_lt hk)),bind_of_ok (Heap.headAt_of_lt hk),
    bind_of_ok (write_ok _),setHead_of_lt hk]
  refine ⟨_,rfl,⟨?_,?_,?_,?_⟩,?_,?_,hsame.currentSize,hsame.mappingLen⟩
  · exact hs1.pages
  · exact hs1.size
  · exact hs1.mapping
  · have hhalve := Layout.halve (insert_empty_eq (β := Set ℕ) i ▸ hs1.layout) hblk
    rw [update_of_ne (lt_succ_self k).ne] at hhalve
    dsimp only
    rw [readHeader_refree hk,readHeader_refree hk]
    exact hhalve
  · dsimp only
    rw [readHeader_refree hk,readHeader_refree hk]
    refine NoBuddies.cut (@NoBuddies.congr _ (readHeader h1.memory) _ _ hnb fun _ hfree => ?_) haligned ?_
    · rw [IsFree,← hsame.blockType]
      exact hfree
    · intro j hji hjb
      rw [update_of_ne hjb,update_of_ne hji]
  · intro j l hj hjfree _
    have hne : j ≠ i := by
      rintro rfl
      exact hjfree hfree
    obtain ⟨-,hkept⟩ := hkeeps j l hj hjfree (Set.notMem_empty j)
    have hapart : i < j ∨ j+2^l ≤ i := hs.apart hblk hj hne
    have hge : i < j → i+2^(k+1) ≤ j := hs.layout.partition.apart hblk hj
    have hposl : 0 < 2^l := Nat.two_pow_pos _
    refine ⟨split_eq_some.mpr (.inr ⟨hne,by omega,hj⟩),hkept.trans ?_⟩
    exact (kept_refree hapart).trans (kept_refree (by omega))

lemma splitLoop (debug : Bool) (hlist : lists k = i::rest) (hnb : NoBuddies (readHeader h.memory) blk {i})
    {minFitOrder fuel : ℕ} (hle : minFitOrder ≤ k) (hfuel : k < minFitOrder+fuel) :
    ∃ h' blk' lists' rest',splitLoop debug i minFitOrder fuel h = .ok () h' ∧
      Shape h' blk' lists' ∅ ∧ lists' minFitOrder = i::rest' ∧
      NoBuddies (readHeader h'.memory) blk' {i} ∧ Keeps ∅ h blk h' blk' ∧ h'.mappingLen = h.mappingLen := by
  induction fuel generalizing h blk lists k rest with
  | zero => omega
  | succ fuel ih =>
    have hi : i ∈ lists k := by simp [hlist]
    obtain ⟨hblk,-,-⟩ := hs.layout.mem.mp hi
    rw [splitLoop,bind_of_ok Heap.blockOrder_apply,hs.layout.order hblk]
    by_cases hlt : minFitOrder < k
    · obtain ⟨l,rfl⟩ : ∃ l,k = l+1 := ⟨k-1,by omega⟩
      obtain ⟨h1,hsplit,hs1,hnb1,hkeeps,-,hlen⟩ := hs.splitBlock debug hlist hnb
      obtain ⟨h2,blk2,lists2,rest2,hloop,hs2,hlist2,hnb2,hkeeps2,hlen2⟩ :=
        ih hs1 (update_self _ _ _) hnb1 (by omega) (by omega)
      rw [if_pos hlt,bind_of_ok hsplit]
      exact ⟨h2,blk2,lists2,rest2,hloop,hs2,hlist2,hnb2,hkeeps.trans hkeeps2 fun hj => .inl hj,hlen2.trans hlen⟩
    · obtain rfl : k = minFitOrder := by omega
      rw [if_neg hlt]
      exact ⟨h,blk,lists,rest,rfl,hs,hlist,hnb,.refl _ _ _,rfl⟩

lemma reserve (debug : Bool) (hlist : lists k = i::rest) (hnb : NoBuddies (readHeader h.memory) blk {i}) :
    ∃ h1 m lists',Heap.removeFree debug i h = .ok true h1 ∧ becomeReserved debug h1.memory i = .ok m ∧
      Shape { h1 with memory := m } blk lists' ∅ ∧ NoBuddies (readHeader m) blk ∅ ∧
      Keeps ∅ h blk { h1 with memory := m } blk ∧ blk i = some k ∧
      (readHeader m i).blockType = BlockType.reserved.toU8 ∧ h1.mappingLen = h.mappingLen := by
  have hi : i ∈ lists k := by simp [hlist]
  obtain ⟨hblk,hfree,-⟩ := hs.layout.mem.mp hi
  have hsmall := hs.layout.small hblk
  obtain ⟨h1,hremove,hs1,hsame,hkeeps⟩ := hs.removeFree debug hi
  have hfree1 : (readHeader h1.memory i).blockType = free.toU8 := by
    rw [hsame.blockType]
    exact hfree
  have horder1 : (readHeader h1.memory i).order = k := hs1.layout.order hblk
  have hread : readHeader (writeHeader h1.memory i _) = _ := readHeader_writeHeader_eq
    ((BlockHeader.fits_zero.setOrder (readHeader h1.memory i).order).setBlockType .reserved)
  refine ⟨h1,_,update lists k ((lists k).erase i),hremove,becomeReserved_of_free hfree1,
    ⟨hs1.pages,hs1.size,hs1.mapping,?_⟩,?_,?_,hblk,?_,hsame.mappingLen⟩
  · refine hs1.layout.rewrite (t := .reserved) hblk (fun l => hs1.layout.not_mem_of_out (Set.mem_insert _ _))
      (fun j => (readHeader_fits _ j).low) (fun _ hne => ?_) ?_ ?_ (by decide) (fun hne => ?_)
    · rw [hread,update_of_ne hne]
    · rw [hread,update_self,horder1]
      exact mod_eq_of_lt (hsmall.trans (by decide))
    · rw [hread,update_self]
      rfl
    · simp [hne]
  · refine hnb.rewrite ?_ fun _ hne hfree => ?_
    · rw [IsFree,hread,update_self]
      exact one_ne_zero
    · rw [IsFree,hread,update_of_ne hne,hsame.blockType] at hfree
      exact hfree
  · refine hkeeps.trans (hs1.keeps_write hblk _) fun hj => .inr ?_
    rw [Set.mem_singleton_iff.mp hj]
    exact hfree
  · rw [hread,update_self]
    rfl

end

lemma first_block (hs : Shape h blk lists out) (hn : 0 < h.currentSize) : ∃ k,blk 0 = some k := by
  have hunits := hs.units
  have hpos : 0 < h.currentSize/minOrderSize := by
    by_contra hzero
    rw [Nat.eq_zero_of_not_pos hzero] at hunits
    omega
  obtain ⟨i,k,hi,hle,-⟩ := hs.layout.partition.cover hpos
  rw [le_zero.mp hle] at hi
  exact ⟨k,hi⟩

lemma findOrder (hs : Shape h blk lists ∅) (hn : 0 < h.currentSize) {orders : List ℕ}
    (hsmall : ∀ k ∈ orders,k < numOrders) :
    (∃ k i rest,k ∈ orders ∧ lists k = i::rest ∧ Heap.findOrder orders h = .ok (some k) h) ∨
      (∀ k ∈ orders,lists k = []) ∧ Heap.findOrder orders h = .ok none h := by
  induction orders with
  | nil => exact .inr ⟨nofun,rfl⟩
  | cons k orders ih =>
    have hk := hsmall k mem_cons_self
    rw [Heap.findOrder,bind_of_ok (Heap.headAt_of_lt hk)]
    cases hlist : lists k with
    | nil =>
      obtain ⟨l,hl⟩ := hs.first_block hn
      have hhead : h.freeHead k = 0 := by
        have hlinks := hs.layout.links k
        rw [hlist] at hlinks
        exact hlinks
      have hnot : ¬ ((readHeader h.memory 0).blockType = free.toU8 ∧ l = k) := by
        rintro ⟨hfree,rfl⟩
        have hmem : 0 ∈ lists l := hs.layout.mem.mpr ⟨hl,hfree,Set.notMem_empty 0⟩
        rw [hlist] at hmem
        cases hmem
      rw [hhead,bind_of_ok (hs.isFreeBlock hl),decide_eq_false hnot,if_neg Bool.false_ne_true]
      obtain ⟨k',i,rest,hk',hlist',hfind⟩ | ⟨hnil,hfind⟩ := ih (forall_mem_cons.mp hsmall).2
      · exact .inl ⟨k',i,rest,mem_cons_of_mem _ hk',hlist',hfind⟩
      · exact .inr ⟨forall_mem_cons.mpr ⟨hlist,hnil⟩,hfind⟩
    | cons i rest =>
      left
      have hi : i ∈ lists k := by simp [hlist]
      rw [hs.layout.head_eq hlist,bind_of_ok (hs.isFreeBlock_of_mem hi),if_pos rfl]
      exact ⟨k,i,rest,mem_cons_self,hlist,rfl⟩

end Shape

namespace Heap

variable {h : Heap} {blk : ℕ → Option ℕ} {lists : ℕ → List ℕ}

def grown (h : Heap) : Heap := let index := h.currentSize/minOrderSize
  { h with
    memory := writeHeader (writeHeader h.memory (index+maxOrderUnits)
      (freeHeader (numOrders-1) (h.freeHead (numOrders-1)))) index
        (freeHeader (numOrders-1) (index+maxOrderUnits))
    freeHead := update h.freeHead (numOrders-1) index
    currentSize := h.currentSize+pageSizeBytes }

lemma growLoop_two {q last : ℕ} (h : Heap) : growLoop (q*maxOrderUnits) (q+2) last h = .ok (q*maxOrderUnits) { h with
      memory := writeHeader (writeHeader h.memory (q*maxOrderUnits+maxOrderUnits)
        (freeHeader (numOrders-1) last)) (q*maxOrderUnits)
          (freeHeader (numOrders-1) (q*maxOrderUnits+maxOrderUnits)) } := by
  have hlt : ¬ (q+1)*maxOrderUnits ≤ q*maxOrderUnits := by
    rw [not_le]
    exact mul_lt_mul_of_pos_right (lt_succ_self q) (by decide)
  have hnew : ∀ (m : ByteMemory) (index last : ℕ),newFree m index (numOrders-1) last =
        .ok (writeHeader m index (freeHeader (numOrders-1) last)) := fun _ _ _ => rfl
  simp only [growLoop]
  rw [bind_of_ok (unwrap_of_ok (write_of_ok (hnew _ _ _))),if_neg hlt,
    bind_of_ok (unwrap_of_ok (write_of_ok (hnew _ _ _))),if_pos le_rfl,succ_mul]
  rfl

lemma growHeap_page (hpages : pageSizeBytes ∣ h.currentSize) (hmapping : h.mappingLen ≤ 2^28)
    (hfit : h.currentSize+pageSizeBytes ≤ h.mappingLen) : growHeap (h.currentSize+pageSizeBytes) h = .ok () h.grown := by
  obtain ⟨p,hp⟩ : ∃ p,h.currentSize = 4096*p := hpages
  have hlen : 4096*p+4096 ≤ h.mappingLen := hp ▸ hfit
  have hunits : h.currentSize/minOrderSize = 2*p*maxOrderUnits := by
    rw [hp]
    simp only [minOrderSize,maxOrderUnits,maxOrderSize]
    omega
  have hmin : indexForOffset h.currentSize = some (2*p*maxOrderUnits) := by
    rw [indexForOffset,hunits,if_pos]
    simp only [maxOrderUnits,maxOrderSize,minOrderSize]
    omega
  have hcurr : indexForOffset (h.currentSize+pageSizeBytes-(h.currentSize+pageSizeBytes)%pageSizeBytes) =
      some ((2*p+2)*maxOrderUnits) := by
    have hdiv : (h.currentSize+pageSizeBytes-(h.currentSize+pageSizeBytes)%pageSizeBytes)/minOrderSize =
        (2*p+2)*maxOrderUnits := by
      rw [hp]
      simp only [pageSizeBytes,minOrderSize,maxOrderUnits,maxOrderSize]
      omega
    rw [indexForOffset,hdiv,if_pos]
    simp only [maxOrderUnits,maxOrderSize,minOrderSize]
    omega
  have hdiv : (2*p+2)*maxOrderUnits/maxOrderUnits = 2*p+2 := Nat.mul_div_cancel _ (by decide)
  simp only [growHeap,get_bind,if_neg (not_lt.mpr hfit),min_eq_right hfit,hmin,hcurr,hdiv]
  rw [bind_of_ok (headAt_of_lt (by decide)),bind_of_ok (growLoop_two h),
    bind_of_ok (setHead_of_lt (by decide)),grown,hunits]
  rfl

lemma readHeader_grown (h : Heap) : readHeader h.grown.memory = update (update (readHeader h.memory)
      (h.currentSize/minOrderSize+maxOrderUnits) (freeHeader (numOrders-1) (h.freeHead (numOrders-1))))
        (h.currentSize/minOrderSize) (freeHeader (numOrders-1) (h.currentSize/minOrderSize+maxOrderUnits)) := by
  rw [grown,readHeader_writeHeader_eq (freeHeader_fits _ _),readHeader_writeHeader_eq (freeHeader_fits _ _)]

def grownBlocks (h : Heap) (blk : ℕ → Option ℕ) : ℕ → Option ℕ :=
  update (update blk (h.currentSize/minOrderSize) (some (numOrders-1)))
    (h.currentSize/minOrderSize+maxOrderUnits) (some (numOrders-1))

section

variable (hs : Shape h blk lists ∅)
include hs

lemma shape_grown (hfit : h.currentSize+pageSizeBytes ≤ h.mappingLen) :
    Shape h.grown (h.grownBlocks blk) (update lists (numOrders-1)
      (h.currentSize/minOrderSize::(h.currentSize/minOrderSize+maxOrderUnits):: lists (numOrders-1))) ∅ := by
  have hmapping := hs.mapping
  have hpages : 4096 ∣ h.currentSize := hs.pages
  refine ⟨dvd_add hs.pages dvd_rfl,hfit,hs.mapping,?_⟩
  have hunits : h.grown.currentSize/minOrderSize = h.currentSize/minOrderSize+maxOrderUnits+maxOrderUnits := by
    simp only [grown,pageSizeBytes,minOrderSize,maxOrderUnits,maxOrderSize]
    omega
  rw [hunits,readHeader_grown]
  refine hs.layout.grow (k := numOrders-1) (by decide) ?_ ?_
  · change 128 ∣ h.currentSize/16
    omega
  · simp only [pageSizeBytes] at hfit
    simp only [minOrderSize,numOrders]
    omega

lemma noBuddies_grown (hnb : NoBuddies (readHeader h.memory) blk ∅) :
    NoBuddies (readHeader h.grown.memory) (h.grownBlocks blk) ∅ := by
  rw [readHeader_grown]
  refine hnb.extend (fun hj => hs.layout.lt hj) (fun hj => ?_) (fun {j l} hl hj => ?_)
  · rw [update_of_ne hj.ne,update_of_ne (by omega)]
  · have htop : some (numOrders-1) ≠ some l := by
      intro heq
      cases heq
      exact absurd hl (by decide)
    rw [grownBlocks] at hj
    by_cases hright : j = h.currentSize/minOrderSize+maxOrderUnits
    · rw [hright,update_self] at hj
      exact absurd hj htop
    · rw [update_of_ne hright] at hj
      by_cases hleft : j = h.currentSize/minOrderSize
      · rw [hleft,update_self] at hj
        exact absurd hj htop
      · rw [update_of_ne hleft] at hj
        exact hj

lemma keeps_grown : Keeps ∅ h blk h.grown (h.grownBlocks blk) := by
  intro j l hj _ _
  have hle := hs.layout.partition.within hj
  have hpos : 0 < 2^l := Nat.two_pow_pos _
  refine ⟨?_,(kept_writeHeader (.inr (by omega))).trans (kept_writeHeader (.inr hle))⟩
  rw [grownBlocks,update_of_ne (by omega),update_of_ne (by omega)]
  exact hj

end

end Heap

namespace Shape

variable {debug : Bool} {h : Heap} {blk : ℕ → Option ℕ} {lists : ℕ → List ℕ} {i k : ℕ}

lemma growHeap_full (hfull : h.mappingLen < h.currentSize+pageSizeBytes) : growHeap (h.currentSize+pageSizeBytes) h =
      .fail .heapMaxSizeReached { h with failedAllocations := h.failedAllocations+1 } := by
  simp only [growHeap,get_bind,if_pos hfull]
  rfl

lemma takeBlock (hs : Shape h blk lists ∅) (debug : Bool) (hnb : NoBuddies (readHeader h.memory) blk ∅)
    {rest : List ℕ} (hlist : lists k = i::rest) {minFitOrder : ℕ} (hle : minFitOrder ≤ k) :
    ∃ h' blk' lists',Heap.takeBlock debug minFitOrder k h = .ok i h' ∧
      Shape h' blk' lists' ∅ ∧ NoBuddies (readHeader h'.memory) blk' ∅ ∧ Keeps ∅ h blk h' blk' ∧
      blk' i = some minFitOrder ∧ (readHeader h'.memory i).blockType = BlockType.reserved.toU8 ∧
      h'.mappingLen = h.mappingLen := by
  have hi : i ∈ lists k := by simp [hlist]
  obtain ⟨hblk,-,-⟩ := hs.layout.mem.mp hi
  have hsmall := hs.layout.small hblk
  have hfuel : k < minFitOrder+16 := by
    simp only [numOrders] at hsmall
    omega
  obtain ⟨h1,blk1,lists1,rest1,hloop,hs1,hlist1,hnb1,hkeeps1,hlen1⟩ :=
    hs.splitLoop debug hlist (hnb.mono (Set.empty_subset _)) hle hfuel
  obtain ⟨h2,m,lists2,hremove,hreserve,hs2,hnb2,hkeeps2,hblk2,htype,hlen2⟩ :=
    hs1.reserve debug hlist1 hnb1
  rw [Heap.takeBlock,bind_of_ok (Heap.headAt_of_lt hsmall),hs.layout.head_eq hlist,
    bind_of_ok (unwrap_of_ok (hs.getBlock hblk)),bind_of_ok hloop,bind_of_ok hremove,
    bind_of_ok (unwrap_of_ok (write_of_ok hreserve))]
  refine ⟨_,blk1,lists2,rfl,⟨hs2.pages,hs2.size,hs2.mapping,hs2.layout⟩,hnb2,?_,hblk2,htype,hlen2.trans hlen1⟩
  exact hkeeps1.trans hkeeps2 fun hj => .inl hj

structure Allocated (minSize : ℕ) (h : Heap) (blk : ℕ → Option ℕ) (lists : ℕ → List ℕ)
    (i : ℕ) (h' : Heap) (blk' : ℕ → Option ℕ) (lists' : ℕ → List ℕ) : Prop where
  shape : Shape h' blk' lists' ∅
  noBuddies : NoBuddies (readHeader h'.memory) blk' ∅
  keeps : Keeps ∅ h blk h' blk'
  block : ∃ k,blk' i = some k ∧ minSize ≤ orderToSize k
  reserved : (readHeader h'.memory i).blockType = BlockType.reserved.toU8
  fresh : (∃ k rest,lists k = i::rest) ∨ lists (numOrders-1) = [] ∧ h.currentSize/minOrderSize ≤ i
  mappingLen : h'.mappingLen = h.mappingLen

/-- There is no free block of the size. -/
def NoneFree (minSize : ℕ) (h : Heap) (blk : ℕ → Option ℕ) : Prop :=
  ∀ i k,blk i = some k → IsFree (readHeader h.memory) i → orderToSize k < minSize

lemma allocateBlock (hs : Shape h blk lists ∅) (debug : Bool) (hnb : NoBuddies (readHeader h.memory) blk ∅)
    (hn : 0 < h.currentSize) {minSize : ℕ} (hpos : 0 < minSize) :
    (∃ i h' blk' lists',Heap.allocateBlock debug minSize h = .ok i h' ∧ Allocated minSize h blk lists i h' blk' lists') ∨
    (∃ e h',Heap.allocateBlock debug minSize h = .fail e h' ∧ (h' = h ∧ maxOrderSize < minSize ∨
        h' = { h with failedAllocations := h.failedAllocations+1 } ∧ NoneFree minSize h blk ∧
          h.mappingLen < h.currentSize+pageSizeBytes)) := by
  obtain ⟨order,hfit⟩ : ∃ order,fitOrder debug minSize = some order := ⟨_,fitOrder_of_pos hpos⟩
  have hsize := le_orderToSize hpos hfit
  rw [Heap.allocateBlock,hfit]
  simp only
  by_cases hlt : order < numOrders
  · rw [if_neg (not_le.mpr hlt)]
    have horders : ∀ k,k ∈ range' order (numOrders-order) ↔ order ≤ k ∧ k < numOrders := by
      intro k
      rw [mem_range'_1]
      omega
    obtain ⟨k,i,rest,hk,hlist,hfind⟩ | ⟨hnil,hfind⟩ := hs.findOrder hn fun k hk => ((horders k).mp hk).2
    · left
      rw [bind_of_ok hfind]
      obtain ⟨h',blk',lists',hrun,hs',hnb',hkeeps,hblk,htype,hlen⟩ :=
        hs.takeBlock debug hnb hlist ((horders k).mp hk).1
      exact ⟨i,h',blk',lists',hrun,⟨hs',hnb',hkeeps,⟨order,hblk,hsize⟩,htype,.inl ⟨k,rest,hlist⟩,hlen⟩⟩
    · rw [bind_of_ok hfind]
      simp only [get_bind]
      by_cases hgrow : h.currentSize+pageSizeBytes ≤ h.mappingLen
      · left
        rw [bind_of_ok (growHeap_page hs.pages hs.mapping hgrow)]
        have hs1 := shape_grown hs hgrow
        obtain ⟨h',blk',lists',hrun,hs',hnb',hkeeps,hblk,htype,hlen⟩ :=
          hs1.takeBlock debug (noBuddies_grown hs hnb) (update_self _ _ _) (show order ≤ _ from le_sub_one_of_lt hlt)
        refine ⟨_,h',blk',lists',hrun,⟨hs',hnb',?_,⟨order,hblk,hsize⟩,htype,.inr ⟨?_,le_rfl⟩,hlen⟩⟩
        · exact (keeps_grown hs).trans hkeeps fun hj => .inl hj
        · exact hnil _ ((horders _).mpr ⟨le_sub_one_of_lt hlt,by decide⟩)
      · right
        rw [bind_of_fail (growHeap_full (not_le.mp hgrow))]
        refine ⟨_,_,rfl,.inr ⟨rfl,fun i k hi hfree => ?_,not_le.mp hgrow⟩⟩
        by_contra hge
        have hle := fitOrder_le hpos hfit (not_lt.mp hge)
        have hmem := hs.layout.mem.mpr ⟨hi,hfree,Set.notMem_empty i⟩
        rw [hnil k ((horders k).mpr ⟨hle,hs.layout.small hi⟩)] at hmem
        cases hmem
  · right
    rw [if_pos (not_lt.mp hlt)]
    refine ⟨_,h,rfl,.inl ⟨rfl,?_⟩⟩
    by_contra hle
    exact hlt ((fitOrder_lt hpos hfit).mpr (not_lt.mp hle))

end Shape

end

/-! What `free_block` does to the layout of the heap. -/

open Buddies Function Effect Set

namespace Shape

variable {debug : Bool} {h : Heap} {blk : ℕ → Option ℕ} {lists : ℕ → List ℕ} {out : Set ℕ}
  {b k : ℕ}

lemma buddy_block (hs : Shape h blk lists out) (hb : blk b = some k) : ∃ l,blk (buddy b k) = some l := by
  have hpages : 4096 ∣ h.currentSize := hs.pages
  have hsmall : k+1 ≤ 8 := hs.layout.small hb
  have hunits : 2^8 ∣ h.currentSize/minOrderSize := by
    change 256 ∣ h.currentSize/16
    omega
  have hlt := buddy_lt (hs.layout.partition.aligned hb) (hs.layout.lt hb) ((pow_dvd_pow 2 hsmall).trans hunits)
  obtain ⟨l,-,hl⟩ := hs.layout.partition.buddy_block hb hlt
  exact ⟨l,hl⟩

lemma swapIfBelow (hs : Shape h blk lists out) (hb : blk b = some k) (hbuddy : blk (buddy b k) = some k) :
    ∃ low high,Heap.swapIfBelow b (buddy b k) h = .ok (low,high) h ∧ 2^(k+1) ∣ low ∧
      high = low+2^k ∧ (low = b ∧ high = buddy b k ∨ low = buddy b k ∧ high = b) := by
  have hpos : 0 < 2^k := Nat.two_pow_pos _
  obtain ⟨hdvd,heq⟩ | ⟨hdvd,heq⟩ := buddy_cases (hs.layout.partition.aligned hb)
  · refine ⟨b,buddy b k,?_,hdvd,heq,.inl ⟨rfl,rfl⟩⟩
    rw [Heap.swapIfBelow,if_neg (by omega)]
    rfl
  · refine ⟨buddy b k,b,?_,hdvd,heq,.inr ⟨rfl,rfl⟩⟩
    rw [Heap.swapIfBelow,if_pos (by omega),bind_of_ok Heap.blockOrder_apply,
      bind_of_ok Heap.blockOrder_apply,hs.layout.order hb,hs.layout.order hbuddy,if_pos rfl]
    rfl

lemma joinBuddies (hs : Shape h blk lists {b}) (debug : Bool) (hnb : NoBuddies (readHeader h.memory) blk {b})
    (hb : blk b = some k) (hk : k+1 < numOrders) (hbuddy : blk (buddy b k) = some k)
    (hfree : IsFree (readHeader h.memory) (buddy b k)) :
    ∃ h1 low high m lists',Heap.removeFree debug (buddy b k) h = .ok true h1 ∧
      Heap.swapIfBelow b (buddy b k) h1 = .ok (low,high) h1 ∧
      (readHeader h1.memory low).order = k ∧ Block.setOrder h1.memory low (k+1) = .ok m ∧
      Shape { h1 with memory := m } (merge blk low k) lists' {low} ∧ NoBuddies (readHeader m) (merge blk low k) {low} ∧
      Keeps {b} h blk { h1 with memory := m } (merge blk low k) ∧ (low = b ∨ low = buddy b k) ∧
      (∀ j,(readHeader m j).blockType = (readHeader h.memory j).blockType) ∧ h1.mappingLen = h.mappingLen := by
  have hne : buddy b k ≠ b := buddy_ne b k
  have hmem : buddy b k ∈ lists k := hs.layout.mem.mpr ⟨hbuddy,hfree,hne⟩
  obtain ⟨h1,hremove,hs1,hsame,hkeeps⟩ := hs.removeFree debug hmem
  obtain ⟨low,high,hswap,hdvd,rfl,hcases⟩ := hs1.swapIfBelow hb hbuddy
  have hpos : 0 < 2^k := Nat.two_pow_pos _
  have hlow : blk low = some k := by
    obtain ⟨rfl,-⟩ | ⟨rfl,-⟩ := hcases
    · exact hb
    · exact hbuddy
  have hhigh : blk (low+2^k) = some k := by
    obtain ⟨-,heq⟩ | ⟨-,heq⟩ := hcases
    · exact heq ▸ hbuddy
    · exact heq ▸ hb
  have hout : insert (buddy b k) {b} = ({low,low+2^k} : Set ℕ) := by
    obtain ⟨rfl,heq⟩ | ⟨heq,rfl⟩ := hcases
    · rw [← heq]
      exact pair_comm _ _
    · rw [← heq]
  have hread := readHeader_setOrder h1.memory low (k+1)
  refine ⟨h1,low,low+2^k,_,update lists k ((lists k).erase (buddy b k)),hremove,hswap,
    hs1.layout.order hlow,Block.setOrder_of_lt hk,⟨hs1.pages,hs1.size,hs1.mapping,?_⟩,?_,?_,
    hcases.imp And.left And.left,fun j => ?_,hsame.mappingLen⟩
  · have hlayout := hs1.layout
    rw [hout] at hlayout
    have hjoin := hlayout.join hk hlow hhigh hdvd (.inl rfl) (.inr rfl)
    have hdiff : ({low,low+2^k} : Set ℕ) \ {low+2^k} = {low} := by
      ext x
      simp only [mem_sdiff,mem_insert_iff,mem_singleton_iff]
      omega
    rw [hdiff] at hjoin
    simp only [hread]
    exact hjoin
  · rw [hread]
    refine NoBuddies.join (b := b) (@NoBuddies.congr _ (readHeader h1.memory) _ _ hnb fun _ hfree => ?_) ?_
      (fun hj => update_of_ne hj _ _)
    · rw [IsFree,← hsame.blockType]
      exact hfree
    · exact hcases.imp (fun hc => hc.1.symm) (fun hc => hc.2.symm)
  · intro j l hj hjfree hjb
    obtain ⟨-,hkept⟩ := hkeeps j l hj hjfree (notMem_empty j)
    have hjbuddy : j ≠ buddy b k := by
      rintro rfl
      exact hjfree hfree
    have hjne : j ≠ low ∧ j ≠ low+2^k := by
      obtain ⟨hl,hh⟩ | ⟨hl,hh⟩ := hcases
      · exact ⟨by rw [hl]; exact hjb,by rw [hh]; exact hjbuddy⟩
      · exact ⟨by rw [hl]; exact hjbuddy,by rw [hh]; exact hjb⟩
    exact ⟨merge_eq_some.mpr (.inr ⟨hjne.1,hjne.2,hj⟩),hkept.trans (kept_writeHeader (hs1.apart hlow hj hjne.1))⟩
  · rw [hread,← hsame.blockType j]
    by_cases hj : j = low
    · rw [hj,update_self]
      rfl
    · rw [update_of_ne hj]

lemma freeLoop (hs : Shape h blk lists {b}) (debug : Bool) (hnb : NoBuddies (readHeader h.memory) blk {b})
    (hb : blk b = some k) {fuel : ℕ} (hfuel : numOrders ≤ k+fuel) :
    ∃ h' blk' lists' b' k',Heap.freeLoop debug fuel b (buddy b k) h = .ok b' h' ∧
      Shape h' blk' lists' {b'} ∧ NoBuddies (readHeader h'.memory) blk' {b'} ∧ blk' b' = some k' ∧
      (k'+1 < numOrders → blk' (buddy b' k') = some k' → ¬ IsFree (readHeader h'.memory) (buddy b' k')) ∧
      Keeps {b} h blk h' blk' ∧ (b' = b ∨ IsFree (readHeader h.memory) b') ∧ h'.mappingLen = h.mappingLen := by
  induction fuel generalizing h blk lists b k with
  | zero =>
    have := hs.layout.small hb
    omega
  | succ fuel ih =>
    obtain ⟨l,hl⟩ := hs.buddy_block hb
    obtain ⟨t,ht⟩ := hs.layout.typed hl
    rw [Heap.freeLoop,bind_of_ok (Heap.blockType_of_eq ht),bind_of_ok Heap.blockOrder_apply,
      bind_of_ok Heap.blockOrder_apply,hs.layout.order hb,hs.layout.order hl]
    by_cases hcond : t = .free ∧ k < numOrders-1 ∧ k = l
    · obtain ⟨rfl,hk,rfl⟩ := hcond
      have hk : k+1 < numOrders := Nat.add_lt_of_lt_sub hk
      obtain ⟨h1,low,high,m,lists1,hremove,hswap,horder,hset,hs1,hnb1,hkeeps1,hlow,htypes,hlen1⟩ :=
        hs.joinBuddies debug hnb hb hk hl ht
      have hmerged : merge blk low k low = some (k+1) := merge_eq_some.mpr (.inl ⟨rfl,rfl⟩)
      have horder1 : (readHeader m low).order = k+1 := hs1.layout.order hmerged
      obtain ⟨l1,hl1⟩ := hs1.buddy_block hmerged
      obtain ⟨h2,blk2,lists2,b2,k2,hloop,hs2,hnb2,hb2,hstop,hkeeps2,hend,hlen2⟩ :=
        ih hs1 hnb1 hmerged (by omega)
      rw [if_pos ⟨rfl,by omega,rfl⟩,bind_of_ok hremove,bind_of_ok hswap]
      simp only
      rw [bind_of_ok Heap.blockOrder_apply,horder,bind_of_ok (Heap.write_of_ok hset),
        bind_of_ok Heap.blockOrder_apply,horder1,Heap.buddy_eq,bind_of_ok (unwrap_of_ok (hs1.getBlock hl1))]
      refine ⟨h2,blk2,lists2,b2,k2,hloop,hs2,hnb2,hb2,hstop,hkeeps1.trans hkeeps2 ?_,?_,hlen2.trans hlen1⟩
      · rintro j rfl
        obtain rfl | rfl := hlow
        · exact .inl rfl
        · exact .inr ht
      · obtain heq | hend := hend
        · rw [heq]
          obtain hlow | hlow := hlow
          · exact .inl hlow
          · rw [hlow]
            exact .inr ht
        · right
          rw [IsFree,← htypes]
          exact hend
    · rw [if_neg hcond]
      refine ⟨h,blk,lists,b,k,rfl,hs,hnb,hb,fun hk hbuddy hfree => hcond ?_,.refl _ _ _,.inl rfl,rfl⟩
      rw [IsFree,ht] at hfree
      rw [hl] at hbuddy
      exact ⟨BlockType.toU8_injective hfree,Nat.lt_sub_of_add_lt hk,(Option.some.inj hbuddy).symm⟩

lemma freeBlock (hs : Shape h blk lists ∅) (debug : Bool) (hnb : NoBuddies (readHeader h.memory) blk ∅)
    (hb : blk b = some k) (huse : ¬ IsFree (readHeader h.memory) b) :
    ∃ h' blk' lists',Heap.freeBlock debug b h = .ok () h' ∧ Shape h' blk' lists' ∅ ∧
      NoBuddies (readHeader h'.memory) blk' ∅ ∧ Keeps {b} h blk h' blk' ∧ h'.mappingLen = h.mappingLen := by
  obtain ⟨t,ht⟩ := hs.layout.typed hb
  have hfree : t ≠ .free := by
    rintro rfl
    exact huse ht
  obtain ⟨l,hl⟩ := hs.buddy_block hb
  have hlayout : Layout (h.currentSize/minOrderSize) (readHeader h.memory) h.freeHead blk lists {b} :=
    hs.layout.rewrite hb (fun l hmem => huse (hs.layout.mem.mp hmem).2.1) hs.layout.low
      (fun _ _ => rfl) (hs.layout.order hb) ht hfree (fun hne => by simp [hne])
  obtain ⟨h1,blk1,lists1,b1,k1,hloop,hs1,hnb1,hb1,hstop,hkeeps,hend,hlen⟩ :=
    freeLoop ⟨hs.pages,hs.size,hs.mapping,hlayout⟩ debug (hnb.mono (empty_subset _)) hb (Nat.le_add_left numOrders _)
  have hsmall := hs1.layout.small hb1
  rw [Heap.freeBlock,bind_of_ok (Heap.blockType_of_eq ht),if_neg hfree,bind_of_ok Heap.blockOrder_apply,
    hs.layout.order hb,Heap.buddy_eq,bind_of_ok (unwrap_of_ok (hs.getBlock hl)),bind_of_ok hloop,
    bind_of_ok Heap.blockOrder_apply,hs1.layout.order hb1,bind_of_ok (Heap.headAt_of_lt hsmall),
    bind_of_ok (Heap.write_ok _),bind_of_ok (Heap.setHead_of_lt hsmall)]
  have hread := readHeader_becomeFree h1.memory b1 (h1.freeHead k1)
  rw [hs1.layout.order hb1] at hread
  refine ⟨_,blk1,update lists1 k1 (b1::lists1 k1),rfl,⟨hs1.pages,hs1.size,hs1.mapping,?_⟩,?_,?_,hlen⟩
  · have hpush := hs1.layout.push ((Nat.zero_le b1).trans_lt (hs1.layout.lt hb1)) hb1 rfl
    rw [sdiff_self] at hpush
    simp only [hread]
    exact hpush
  · simp only [hread]
    exact hnb1.push hb1 hstop fun hj => update_of_ne hj _ _
  · intro j l hj hjuse hjb
    obtain ⟨hj1,hkept⟩ := hkeeps j l hj hjuse hjb
    have hne : j ≠ b1 := by
      rintro rfl
      exact hend.elim hjb hjuse
    exact ⟨hj1,hkept.trans (kept_writeHeader (hs1.apart hb1 hj1 hne))⟩

end Shape

end Fuchsia.Inspect
