import Fuchsia.Inspect.HeapAllocate
import Fuchsia.Lib.Transition

/-! Runs of the heap: allocations, frees of what was allocated, and writes of the owners of
the blocks in between. -/
namespace Fuchsia.Inspect.HeapRun

open Buddies Function Transition Heap Option Block Nat

/-- The heap, and the order and requested size of each block that is handed out. -/
structure State where
  heap : Heap
  owned : ℕ → Option (ℕ × ℕ)

inductive Action
  | allocate (minSize : ℕ)
  | free (block : ℕ)
  | write (block offset : ℕ) (data : List UInt8)

def written (h : Heap) (block offset : ℕ) (data : List UInt8) : Heap :=
  { h with memory := h.memory.write (offsetForIndex block+offset) data }

/-- The calls; `none` is a panic. -/
def step (debug : Bool) (s : State) : Action → Option State
  | .allocate minSize =>
    match allocateBlock debug minSize s.heap with
    | .ok i h => some ⟨h,update s.owned i (some (order h.memory i,minSize))⟩
    | .fail _ h => some { s with heap := h }
    | .panic => none
  | .free block =>
    match freeBlock debug block s.heap with
    | .ok _ h => some ⟨h,update s.owned block none⟩
    | .fail _ h => some { s with heap := h }
    | .panic => none
  | .write block offset data => some { s with heap := written s.heap block offset data }

def KeepsHeader (h h' : Heap) (block : ℕ) : Prop := order h'.memory block = order h.memory block ∧
    blockType h'.memory block ≠ none ∧ blockType h'.memory block ≠ some .free

/-- A size is not zero, what is freed is owned and is not block 0, and an owner writes inside
its block. -/
def Allowed (s : State) : Action → Prop
  | .allocate minSize => 0 < minSize
  | .free block => block ≠ 0 ∧ s.owned block ≠ none
  | .write block offset data =>
    match s.owned block with
    | none => False
    | some (order,_) => offset+data.length ≤ orderToSize order ∧
        KeepsHeader s.heap (written s.heap block offset data) block

instance (h h' : Heap) (block : ℕ) : Decidable (KeepsHeader h h' block) :=
  inferInstanceAs (Decidable (_ ∧ _ ∧ _))

instance (s : State) (a : Action) : Decidable (Allowed s a) :=
  match a with
  | .allocate minSize => inferInstanceAs (Decidable (0 < minSize))
  | .free block => inferInstanceAs (Decidable (block ≠ 0 ∧ s.owned block ≠ none))
  | .write block offset data =>
    match hblock : s.owned block with
    | none => .isFalse fun h => by simp [Allowed,hblock] at h
    | some (order,_) =>
      decidable_of_iff (offset+data.length ≤ orderToSize order ∧
        KeepsHeader s.heap (written s.heap block offset data) block) (by simp [Allowed,hblock])

/-- A heap on a mapping, of which one block has been allocated. -/
def Start (debug : Bool) (mappingLen : ℕ) (s : State) : Prop :=
  ∃ memory h minSize block h',new memory mappingLen = .ok () h ∧ 0 < minSize ∧
    allocateBlock debug minSize h = .ok block h' ∧
    s = ⟨h',update (fun _ => none) block (some (order h'.memory block,minSize))⟩

/-- The headers partition the heap into aligned blocks, the free lists have the free blocks
and end at 0, no buddies are free, and the blocks handed out have their order and size. -/
structure Sound (s : State) (blk : ℕ → Option ℕ) (lists : ℕ → List ℕ) : Prop where
  shape : Shape s.heap blk lists ∅
  ends : ∀ k,0 ∉ lists k
  noBuddies : NoBuddies (readHeader s.heap.memory) blk ∅
  owned : ∀ {i k size},s.owned i = some (k,size) →
    blk i = some k ∧ ¬ IsFree (readHeader s.heap.memory) i ∧ size ≤ orderToSize k

structure Good (s : State) (blk : ℕ → Option ℕ) (lists : ℕ → List ℕ) : Prop where
  shape : Shape s.heap blk lists ∅
  noBuddies : NoBuddies (readHeader s.heap.memory) blk ∅
  owned : ∀ {i k size},s.owned i = some (k,size) →
    blk i = some k ∧ ¬ IsFree (readHeader s.heap.memory) i ∧ size ≤ orderToSize k
  first : s.owned 0 ≠ none

variable {debug : Bool} {mappingLen : ℕ} {s s' : State} {blk : ℕ → Option ℕ}
  {lists : ℕ → List ℕ} {a : Action}

namespace Good

variable (hg : Good s blk lists)
include hg

lemma sound : Sound s blk lists := by
  refine ⟨hg.shape,fun k hmem => ?_,hg.noBuddies,hg.owned⟩
  cases hfirst : s.owned 0 with
  | none => exact hg.first hfirst
  | some entry => exact (hg.owned hfirst).2.1 (hg.shape.layout.mem.mp hmem).2.1

lemma positive : 0 < s.heap.currentSize := by
  cases hfirst : s.owned 0 with
  | none => exact absurd hfirst hg.first
  | some entry =>
    have hlt := hg.shape.layout.lt (hg.owned hfirst).1
    by_contra hzero
    rw [Nat.eq_zero_of_not_pos hzero] at hlt
    exact absurd hlt (by decide)

variable {blk' : ℕ → Option ℕ} {h' : Heap}

lemma fresh {minSize i : ℕ} {lists' : ℕ → List ℕ}
    (ha : Shape.Allocated minSize s.heap blk lists i h' blk' lists') : s.owned i = none := by
  cases howned : s.owned i with
  | none => rfl
  | some entry =>
    obtain ⟨hblk,huse,-⟩ := hg.owned howned
    obtain ⟨k,rest,hlist⟩ | ⟨-,hge⟩ := ha.fresh
    · have hmem : i ∈ lists k := by simp [hlist]
      exact absurd (hg.shape.layout.mem.mp hmem).2.1 huse
    · exact absurd (hg.shape.layout.lt hblk) (not_lt.mpr hge)

lemma kept {skip : Set ℕ} (hkeeps : Keeps skip s.heap blk h' blk') {i k size : ℕ} (hi : s.owned i = some (k,size))
    (hskip : i ∉ skip) : blk' i = some k ∧ ¬ IsFree (readHeader h'.memory) i ∧ size ≤ orderToSize k := by
  obtain ⟨hblk,huse,hsize⟩ := hg.owned hi
  obtain ⟨hblk',hkept⟩ := hkeeps i k hblk huse hskip
  rw [IsFree,hkept.header]
  exact ⟨hblk',huse,hsize⟩

end Good

lemma good_allocated {owned : ℕ → Option (ℕ × ℕ)} {minSize i : ℕ} {h h' : Heap} {blk' : ℕ → Option ℕ}
    {lists' : ℕ → List ℕ} (ha : Shape.Allocated minSize h blk lists i h' blk' lists')
    (hold : ∀ {j k size},owned j = some (k,size) → j ≠ i → blk' j = some k ∧ ¬ IsFree (readHeader h'.memory) j ∧ size ≤ orderToSize k)
    (hfirst : i = 0 ∨ owned 0 ≠ none) : Good ⟨h',update owned i (some (order h'.memory i,minSize))⟩ blk' lists' := by
  obtain ⟨k,hblk,hsize⟩ := ha.block
  refine ⟨ha.shape,ha.noBuddies,fun {j l size} hj => ?_,?_⟩
  · by_cases hji : j = i
    · subst hji
      simp only [update_self,some.injEq,Prod.mk.injEq] at hj
      obtain ⟨horder,rfl⟩ := hj
      have hk : l = k := horder.symm.trans (ha.shape.layout.order hblk)
      subst hk
      refine ⟨hblk,?_,hsize⟩
      rw [IsFree,ha.reserved]
      exact one_ne_zero
    · simp only [update_of_ne hji] at hj
      exact hold hj hji
  · simp only
    by_cases hi : 0 = i
    · rw [← hi,update_self]
      exact some_ne_none _
    · rw [update_of_ne hi]
      exact hfirst.resolve_left (Ne.symm hi)

section

variable (hg : Good s blk lists) {block order size offset : ℕ} {data : List UInt8}
  (hblock : s.owned block = some (order,size)) (hinside : offset+data.length ≤ orderToSize order)
include hg hblock hinside

lemma readHeader_written {j l : ℕ} (hj : blk j = some l) (hne : j ≠ block) :
    readHeader (written s.heap block offset data).memory j = readHeader s.heap.memory j := by
  have hpos : 0 < 2^l := Nat.two_pow_pos _
  have hblk := (hg.owned hblock).1
  apply readHeader_congr
  intro x hx
  rw [orderToSize] at hinside
  obtain hlt | hlt := lt_or_gt_of_ne hne
  · have hle := hg.shape.layout.partition.apart hj hblk hlt
    apply ByteMemory.write_of_lt
    simp only [offsetForIndex,minOrderSize]
    omega
  · have hle := hg.shape.layout.partition.apart hblk hj hlt
    apply ByteMemory.write_of_ge
    simp only [offsetForIndex,minOrderSize] at hinside ⊢
    omega

lemma good_written (hheader : KeepsHeader s.heap (written s.heap block offset data) block) :
    Good { s with heap := written s.heap block offset data } blk lists := by
  obtain ⟨hblk,huse,-⟩ := hg.owned hblock
  obtain ⟨horder,hnone,hnotfree⟩ := hheader
  have hsame := @readHeader_written _ _ _ hg _ _ _ _ _ hblock hinside
  cases htype : blockType (written s.heap block offset data).memory block with
  | none => exact absurd htype hnone
  | some t =>
    have hnumber := BlockType.eq_toU8_of_fromU8 htype
    have ht : t ≠ .free := by
      rintro rfl
      exact hnotfree htype
    have hfree : ¬ IsFree (readHeader (written s.heap block offset data).memory) block := by
      intro hfree
      rw [IsFree,hnumber] at hfree
      exact ht (BlockType.toU8_injective hfree)
    refine ⟨⟨hg.shape.pages,hg.shape.size,hg.shape.mapping,?_⟩,?_,fun {i k size} hi => ?_,hg.first⟩
    · exact hg.shape.layout.rewrite hblk (fun l hmem => huse (hg.shape.layout.mem.mp hmem).2.1)
        (fun j => (readHeader_fits _ j).low) hsame (horder.trans (hg.shape.layout.order hblk)) hnumber
        ht (fun _ => Iff.rfl)
    · refine hg.noBuddies.congr fun {j l} hj hjfree => ?_
      by_cases hne : j = block
      · exact absurd (hne ▸ hjfree) hfree
      · rw [IsFree,hsame hj hne] at hjfree
        exact hjfree
    · obtain ⟨hi',huse',hsize⟩ := hg.owned hi
      refine ⟨hi',?_,hsize⟩
      by_cases hne : i = block
      · rw [hne]
        exact hfree
      · rw [IsFree]
        simp only [hsame hi' hne]
        exact huse'

end

lemma good_step (hg : Good s blk lists) (ha : Allowed s a) (hstep : step debug s a = some s') :
    ∃ blk' lists',Good s' blk' lists' := by
  cases a with
  | allocate minSize =>
    obtain ⟨i,h',blk',lists',hrun,halloc⟩ | ⟨e,h',hrun,hfail⟩ :=
      hg.shape.allocateBlock debug hg.noBuddies hg.positive ha
    · simp only [step,hrun] at hstep
      cases hstep
      exact ⟨blk',lists',good_allocated halloc
        (fun hj _ => hg.kept halloc.keeps hj (Set.notMem_empty _)) (.inr hg.first)⟩
    · simp only [step,hrun] at hstep
      cases hstep
      refine ⟨blk,lists,?_⟩
      obtain ⟨rfl,-⟩ | ⟨rfl,-,-⟩ := hfail
      · exact hg
      · exact ⟨⟨hg.shape.pages,hg.shape.size,hg.shape.mapping,hg.shape.layout⟩,hg.noBuddies,hg.owned,hg.first⟩
  | free block =>
    obtain ⟨hzero,howned⟩ := ha
    cases hblock : s.owned block with
    | none => exact absurd hblock howned
    | some entry =>
      obtain ⟨k,size⟩ := entry
      obtain ⟨hblk,huse,-⟩ := hg.owned hblock
      obtain ⟨h',blk',lists',hrun,hs',hnb',hkeeps,-⟩ := hg.shape.freeBlock debug hg.noBuddies hblk huse
      simp only [step,hrun] at hstep
      cases hstep
      refine ⟨blk',lists',hs',hnb',fun {i k size} hi => ?_,?_⟩
      · by_cases hib : i = block
        · simp [hib] at hi
        · simp only [update_of_ne hib] at hi
          exact hg.kept hkeeps hi hib
      · simp only [update_of_ne (Ne.symm hzero)]
        exact hg.first
  | write block offset data =>
    cases hblock : s.owned block with
    | none => simp [Allowed,hblock] at ha
    | some entry =>
      obtain ⟨k,size⟩ := entry
      simp only [Allowed,hblock] at ha
      simp only [step] at hstep
      cases hstep
      exact ⟨blk,lists,good_written hg hblock ha.1 ha.2⟩

lemma shape_empty (memory : ByteMemory) (hmapping : mappingLen ≤ 2^28) :
    Shape ⟨memory,mappingLen,0,fun _ => 0,0,0,0⟩ (fun _ => none) (fun _ => []) ∅ := by
  refine ⟨dvd_zero _,zero_le _,hmapping,?_⟩
  simp only [Nat.zero_div]
  refine ⟨zero_le _,fun j => (readHeader_fits _ j).low,⟨nofun,nofun,fun h => absurd h (not_lt_zero _),nofun⟩,
    nofun,nofun,nofun,fun _ => rfl,fun _ => List.nodup_nil,fun {i k} => ?_⟩
  exact ⟨nofun,fun h => nomatch h.1⟩

lemma good_start (hmapping : mappingLen ≤ 2^28) (hstart : Start debug mappingLen s) : ∃ blk lists,Good s blk lists := by
  obtain ⟨memory,h,minSize,block,h',hnew,hpos,halloc,rfl⟩ := hstart
  have hempty := shape_empty memory hmapping
  have hnb : NoBuddies (readHeader memory) (fun _ => none) ∅ := nofun
  by_cases hfit : pageSizeBytes ≤ mappingLen
  · have hfit' : 0+pageSizeBytes ≤ mappingLen := by rwa [zero_add]
    have hgrown := growHeap_page hempty.pages hempty.mapping hfit'
    simp only [zero_add] at hgrown
    rw [new,hgrown] at hnew
    cases hnew
    obtain ⟨i,h1,blk1,lists1,hrun,ha⟩ | ⟨e,h1,hrun,-⟩ := (shape_grown hempty hfit').allocateBlock debug
        (noBuddies_grown hempty hnb) (Nat.add_pos_right 0 (by decide)) hpos
    · rw [hrun] at halloc
      cases halloc
      refine ⟨blk1,lists1,good_allocated ha nofun (.inl ?_)⟩
      obtain ⟨k,rest,hlist⟩ | ⟨hnil,-⟩ := ha.fresh
      · by_cases hk : k = numOrders-1
        · rw [hk,update_self] at hlist
          exact (List.cons.inj hlist).1.symm.trans (Nat.zero_div _)
        · rw [update_of_ne hk] at hlist
          cases hlist
      · rw [update_self] at hnil
        cases hnil
    · rw [hrun] at halloc
      cases halloc
  · have hfull := Shape.growHeap_full (h := ⟨memory,mappingLen,0,fun _ => 0,0,0,0⟩)
      (by rw [zero_add]; exact not_le.mp hfit)
    simp only [zero_add] at hfull
    rw [new,hfull] at hnew
    cases hnew

/-- In every state that is reached the heap is sound, an allocation gives a block that was
not handed out or fails for want of space, and a block that was handed out can be freed. -/
theorem reached_sound_heap (hmapping : mappingLen ≤ 2^28)
    (h : Reachable (Start debug mappingLen) Allowed (step debug) s) :
    ∃ blk lists,Sound s blk lists ∧ (∀ minSize,0 < minSize →
        (∃ i h',allocateBlock debug minSize s.heap = .ok i h' ∧ s.owned i = none) ∨
        (∃ e h',allocateBlock debug minSize s.heap = .fail e h' ∧
          (maxOrderSize < minSize ∨ Shape.NoneFree minSize s.heap blk ∧
            s.heap.mappingLen < s.heap.currentSize+pageSizeBytes))) ∧
      (∀ block,block ≠ 0 → s.owned block ≠ none →
        ∃ h',freeBlock debug block s.heap = .ok () h') := by
  obtain ⟨blk,lists,hg⟩ : ∃ blk lists,Good s blk lists := by
    refine h.invariant (fun _ hs => good_start hmapping hs) ?_
    rintro s a s' ⟨blk,lists,hg⟩ ha hstep
    exact good_step hg ha hstep
  refine ⟨blk,lists,hg.sound,fun minSize hpos => ?_,fun block _ howned => ?_⟩
  · obtain ⟨i,h',blk',lists',hrun,ha⟩ | ⟨e,h',hrun,hfail⟩ :=
      hg.shape.allocateBlock debug hg.noBuddies hg.positive hpos
    · exact .inl ⟨i,h',hrun,hg.fresh ha⟩
    · exact .inr ⟨e,h',hrun,hfail.imp And.right And.right⟩
  · cases hblock : s.owned block with
    | none => exact absurd hblock howned
    | some entry =>
      obtain ⟨hblk,huse,-⟩ := hg.owned hblock
      obtain ⟨h',-,-,hrun,-⟩ := hg.shape.freeBlock debug hg.noBuddies hblk huse
      exact ⟨h',hrun⟩

def sampleStart (debug : Bool) : Option State :=
  match new (fun _ => 0) pageSizeBytes with
  | .ok _ h =>
    match allocateBlock debug minOrderSize h with
    | .ok block h' =>
      some ⟨h',update (fun _ => none) block (some (order h'.memory block,minOrderSize))⟩
    | _ => none
  | _ => none

def sampleRun (debug : Bool) : Option State :=
  (sampleStart debug).bind fun s => run Allowed (step debug) s
    [.allocate 16,.allocate 100,.write 1 8 [1,2,3],.free 1,.allocate 40]

lemma sampleRun_reached (hs : sampleRun debug = some s) :
    Reachable (Start debug pageSizeBytes) Allowed (step debug) s := by
  obtain ⟨s0,hstart,hrun⟩ := bind_eq_some_iff.mp hs
  refine Reachable.run (.start ?_) hrun
  unfold sampleStart at hstart
  split at hstart
  next h hnew =>
    split at hstart
    next block h' halloc =>
      cases hstart
      exact ⟨_,h,minOrderSize,block,h',hnew,by decide,halloc,rfl⟩
    next => cases hstart
  next => cases hstart

theorem reached_sound_heap_sample : ∃ s blk lists,sampleRun true = some s ∧ Sound s blk lists := by
  have hsome : (sampleRun true).isSome := by decide +kernel
  obtain ⟨s,hs⟩ := isSome_iff_exists.mp hsome
  obtain ⟨blk,lists,hsound,-⟩ := reached_sound_heap (by decide) (sampleRun_reached hs)
  exact ⟨s,blk,lists,hs,hsound⟩

/-- A size of zero: the overflow panics in debug mode, and otherwise gives an order that does
not exist, with a free block of the maximum order at hand. -/
theorem allocateBlock_zero : ∃ s : State,
    Reachable (Start false pageSizeBytes) Allowed (step false) s ∧
      allocateBlock false 0 s.heap = .fail (.invalidBlockOrder 60) s.heap ∧
      allocateBlock true 0 s.heap = .panic ∧
      (readHeader s.heap.memory 128).order = numOrders-1 ∧ IsFree (readHeader s.heap.memory) 128 := by
  have hsome : (sampleRun false).isSome := by decide +kernel
  obtain ⟨s,hs⟩ := isSome_iff_exists.mp hsome
  have hheader : ((sampleRun false).map fun s => readHeader s.heap.memory 128) =
      some ⟨7,0,0,0,0⟩ := by decide +kernel
  rw [hs,map_some] at hheader
  refine ⟨s,sampleRun_reached hs,rfl,rfl,?_,?_⟩
  · rw [some.inj hheader]
    rfl
  · rw [IsFree,some.inj hheader]
    rfl

end Fuchsia.Inspect.HeapRun
