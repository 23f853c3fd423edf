import Fuchsia.Lib.Fallible
import Fuchsia.Lib.Gaps
import Fuchsia.Lib.Tables
import Fuchsia.Lib.Tiling

/-! Reassembly of fragmented packets (`ip/reassembly.rs`), with the timers of the context. -/
namespace Fuchsia.Netstack.Reassembly

section

open Fallible Gaps

inductive Fault
  | panic
  deriving DecidableEq,Repr

structure FragmentCacheKey (A : Type) where
  srcIp : A
  dstIp : A
  fragmentId : UInt32
  deriving DecidableEq

/-- A received packet: its fragment data, what `get_header` copies of it, and its body. -/
structure Packet (A : Type) where
  srcIp : A
  dstIp : A
  id : UInt32
  offset : UInt16
  more : Bool
  header : List UInt8
  body : List UInt8
  deriving DecidableEq

def fragmentBlockSize : ℕ := 8

def maxFragmentBlocks : ℕ := 8191

def maxFragmentCacheSize : ℕ := 4*1024*1024

/-- `u16::MAX` -/
def maxBlock : ℕ := 65535

structure FragmentCacheData where
  missingBlocks : List Gap
  bodyFragments : List (ℕ × List UInt8)
  header : Option (List UInt8)
  totalSize : ℕ
  deriving DecidableEq

def FragmentCacheData.new : FragmentCacheData := ⟨[(0,maxBlock)],[],none,0⟩

variable {A : Type}

structure IpLayerFragmentCache (A : Type) where
  cache : AList fun _ : FragmentCacheKey A => FragmentCacheData
  cacheSize : ℕ
  threshold : ℕ

/-- The cache, and the keys that have a timer. -/
structure Context (A : Type) where
  state : IpLayerFragmentCache A
  timers : List (FragmentCacheKey A)

def Context.new : Context A := ⟨⟨∅,0,maxFragmentCacheSize⟩,[]⟩

inductive FragmentProcessingState (A : Type)
  | notNeeded
  | invalidFragment
  | needMoreFragments
  | outOfMemory
  | ready (key : FragmentCacheKey A) (packetLen : ℕ)
  deriving DecidableEq

def Packet.key (packet : Packet A) : FragmentCacheKey A := ⟨packet.srcIp,packet.dstIp,packet.id⟩

/-- `1 + (body.len() - 1) / FRAGMENT_BLOCK_SIZE`, which is asserted to be positive. -/
def numFragmentBlocks (body : List UInt8) : ℕ := 1+(body.length-1)/fragmentBlockSize

def findGap : List Gap → Gap → Option Gap
  | [],_ => none
  | gap::rest,range =>
    if range.2 < gap.1 ∨ range.1 > gap.2 then findGap rest range
    else if range.1 < gap.1 ∨ range.2 > gap.2 then none
    else some gap

/-- `assert!(missing_blocks.insert(gap))` -/
def insertGap (gaps : List Gap) (gap : Gap) : Except Fault (List Gap) := do
  require .panic (gap ∉ gaps)
  return gaps.orderedInsert Before gap

/-- `assert!(missing_blocks.remove(&gap))` -/
def removeGap (gaps : List Gap) (gap : Gap) : Except Fault (List Gap) := do
  require .panic (gap ∈ gaps)
  return gaps.erase gap

def gapBefore (gaps : List Gap) (gap range : Gap) : Except Fault (List Gap) :=
  if gap.1 < range.1 then insertGap gaps (gap.1,range.1-1) else .ok gaps

def gapAfter (gaps : List Gap) (gap range : Gap) (more : Bool) : Except Fault (List Gap) :=
  if gap.2 > range.2 ∧ more then insertGap gaps (range.2+1,gap.2)
  else do
    require .panic (gap.2 = range.2 ∨ ¬more ∧ gap.2 = maxBlock)
    return gaps

def fillGap (gaps : List Gap) (gap range : Gap) (more : Bool) : Except Fault (List Gap) := do
  let gaps ← removeGap gaps gap
  let gaps ← gapBefore gaps gap range
  gapAfter gaps gap range more

def storeFragment (data : FragmentCacheData) (packet : Packet A) (missingBlocks : List Gap) :
    Except Fault (FragmentCacheData × ℕ) :=
  let bodyFragments := data.bodyFragments++[(packet.offset.toNat,packet.body)]
  if packet.offset = 0 then do
    require .panic (data.header = none)
    let addedBytes := packet.header.length+packet.body.length
    return (⟨missingBlocks,bodyFragments,some packet.header,data.totalSize+addedBytes⟩,addedBytes)
  else
    .ok (⟨missingBlocks,bodyFragments,data.header,data.totalSize+packet.body.length⟩,packet.body.length)

namespace IpLayerFragmentCache

def aboveCacheSizeThreshold (s : IpLayerFragmentCache A) : Prop := s.cacheSize ≥ s.threshold

instance (s : IpLayerFragmentCache A) : Decidable s.aboveCacheSizeThreshold :=
  inferInstanceAs (Decidable (_ ≥ _))

def incrementCacheSize (s : IpLayerFragmentCache A) (sz : ℕ) :
    Except Fault (IpLayerFragmentCache A) := do
  require .panic (¬s.aboveCacheSizeThreshold)
  return { s with cacheSize := s.cacheSize+sz }

variable [DecidableEq A]

def removeData (s : IpLayerFragmentCache A) (key : FragmentCacheKey A) :
    Except Fault (IpLayerFragmentCache A × FragmentCacheData) :=
  match s.cache.lookup key with
  | none => .error .panic
  | some data => do
    require .panic (data.totalSize ≤ s.cacheSize)
    return ({ s with cache := s.cache.erase key,cacheSize := s.cacheSize-data.totalSize },data)

end IpLayerFragmentCache

variable [DecidableEq A]

/-- `assert_ne!(ctx.cancel_timer(key), None)` -/
def cancelTimer (ctx : Context A) (key : FragmentCacheKey A) : Except Fault (Context A) := do
  require .panic (key ∈ ctx.timers)
  return { ctx with timers := ctx.timers.erase key }

/-- The cache data for the key, with a timer if it is new. -/
def getOrCreate (ctx : Context A) (key : FragmentCacheKey A) : Context A × FragmentCacheData :=
  match ctx.state.cache.lookup key with
  | some data => (ctx,data)
  | none =>
    (⟨{ ctx.state with cache := ctx.state.cache.insert key .new },key::ctx.timers.erase key⟩,.new)

def dropData (ctx : Context A) (key : FragmentCacheKey A) : Except Fault (Context A) := do
  let (state,_) ← ctx.state.removeData key
  cancelTimer { ctx with state := state } key

def addFragment (ctx : Context A) (data : FragmentCacheData) (packet : Packet A) (gap range : Gap) :
    Except Fault (Context A × FragmentProcessingState A) := do
  let missingBlocks ← fillGap data.missingBlocks gap range packet.more
  let (data,addedBytes) ← storeFragment data packet missingBlocks
  let state := { ctx.state with cache := ctx.state.cache.insert packet.key data }
  let result := if data.missingBlocks = [] then
    FragmentProcessingState.ready packet.key data.totalSize else .needMoreFragments
  let state ← state.incrementCacheSize addedBytes
  return ({ ctx with state := state },result)

/-- `process_fragment` from the point where the cache data is there. -/
def processData (ctx : Context A) (data : FragmentCacheData) (packet : Packet A) :
    Except Fault (Context A × FragmentProcessingState A) :=
  let last := packet.offset.toNat+numFragmentBlocks packet.body-1
  if last ≤ maxBlock ∧ last ≤ maxFragmentBlocks then
    match findGap data.missingBlocks (packet.offset.toNat,last) with
    | none => do
      let ctx ← dropData ctx packet.key
      return (ctx,.invalidFragment)
    | some gap => addFragment ctx data packet gap (packet.offset.toNat,last)
  else .ok (ctx,.invalidFragment)

def processFragment (ctx : Context A) (packet : Packet A) :
    Except Fault (Context A × FragmentProcessingState A) :=
  if ctx.state.aboveCacheSizeThreshold then .ok (ctx,.outOfMemory)
  else if packet.offset = 0 ∧ packet.more = false then .ok (ctx,.notNeeded)
  else if packet.body = [] then .ok (ctx,.needMoreFragments)
  else if packet.more ∧ packet.body.length%fragmentBlockSize ≠ 0 then .ok (ctx,.invalidFragment)
  else
    let (ctx,data) := getOrCreate ctx packet.key
    processData ctx data packet

inductive FragmentReassemblyError
  | missingFragments
  | invalidKey
  deriving DecidableEq,Repr

/-- What `reassemble_packet` hands to `reassemble_fragmented_packet`. -/
structure Reassembled where
  header : List UInt8
  body : List (List UInt8)
  deriving DecidableEq

/-- The fragments in the order of their offsets: `into_sorted_vec`. -/
def intoSortedVec (fragments : List (ℕ × List UInt8)) : List (ℕ × List UInt8) :=
  fragments.insertionSort fun a b => a.1 ≤ b.1

def reassemblePacket (ctx : Context A) (key : FragmentCacheKey A) :
    Except Fault (Context A × Except FragmentReassemblyError Reassembled) :=
  match ctx.state.cache.lookup key with
  | none => .ok (ctx,.error .invalidKey)
  | some data =>
    if data.missingBlocks ≠ [] then .ok (ctx,.error .missingFragments)
    else do
      require .panic (data.header.isSome)
      let ctx ← cancelTimer ctx key
      let (state,data) ← ctx.state.removeData key
      match data.header with
      | none => .error .panic
      | some header =>
        return ({ ctx with state := state },.ok ⟨header,(intoSortedVec data.bodyFragments).map Prod.snd⟩)

/-- `handle_timer`; the timer that fires is no longer scheduled. -/
def handleTimer (ctx : Context A) (key : FragmentCacheKey A) : Except Fault (Context A) := do
  let (state,_) ← ctx.state.removeData key
  return ⟨state,ctx.timers.erase key⟩

end

/-! How a fragment changes the missing blocks and the data of its key. -/

open Fallible Gaps Ranges Ranged

variable {A : Type} {gaps : List Gap} {gap range : Gap} {n : ℕ}

instance : Ranged (Packet A) ℕ where
  lo p := p.offset.toNat
  hi p := p.offset.toNat+numFragmentBlocks p.body

lemma lo_lt_hi (p : Packet A) : lo p < hi p := by
  change p.offset.toNat < p.offset.toNat+numFragmentBlocks p.body
  simp only [numFragmentBlocks,fragmentBlockSize]
  omega

lemma findGap_some (h : findGap gaps range = some gap) : gap ∈ gaps ∧ gap.1 ≤ range.1 ∧ range.2 ≤ gap.2 := by
  induction gaps with
  | nil => cases h
  | cons g rest ih =>
    rw [findGap] at h
    split_ifs at h with hout hcross
    · obtain ⟨hmem,hle⟩ := ih h
      exact ⟨List.mem_cons_of_mem _ hmem,hle⟩
    · cases h
      rw [not_or,not_lt,not_lt] at hcross
      exact ⟨List.mem_cons_self,hcross⟩

lemma insertGap_of (hgap : gap.1 ≤ gap.2) (hfar : ∀ h ∈ gaps,gap.2+1 < h.1 ∨ h.2+1 < gap.1) :
    insertGap gaps gap = .ok (gaps.orderedInsert Before gap) := by
  have hnot : gap ∉ gaps := by
    intro hmem
    have := hfar gap hmem
    omega
  rw [insertGap,require_of hnot,ok_bind,pure_eq]

def Closes (gap range : Gap) (more : Bool) : Prop :=
  gap.2 > range.2 ∧ more = true ∨ gap.2 = range.2 ∨ more = false ∧ gap.2 = maxBlock

section

variable (hs : Separated gaps)
include hs

lemma gapBefore_of (hgap : gap.1 ≤ range.1) (hend : range.1 ≤ gap.2) (hfar : ∀ h ∈ gaps,gap.2+1 < h.1 ∨ h.2+1 < gap.1) :
    ∃ gaps',gapBefore gaps gap range = .ok gaps' ∧ Separated gaps' ∧ (∀ h ∈ gaps',h ∈ gaps ∨ h.2+1 = range.1) ∧
      ∀ n,Missing gaps' n ↔ Missing gaps n ∨ gap.1 ≤ n ∧ n < range.1 := by
  rw [gapBefore]
  split_ifs with hlt
  · have hle : gap.1 ≤ range.1-1 := by omega
    have hfar' : ∀ h ∈ gaps,range.1-1+1 < h.1 ∨ h.2+1 < gap.1 := by
      intro h hh
      have := hfar h hh
      omega
    refine ⟨_,@insertGap_of gaps (gap.1,range.1-1) hle hfar',
      @Separated.insert gaps (gap.1,range.1-1) hs hle hfar',?_,fun n => ?_⟩
    · intro h hh
      obtain rfl | hh := (List.mem_orderedInsert _).mp hh
      · exact .inr (by simp only; omega)
      · exact .inl hh
    · rw [missing_insert,Has]
      constructor
      · rintro (h | h)
        · exact .inr ⟨h.1,by have := h.2; simp only at this; omega⟩
        · exact .inl h
      · rintro (h | h)
        · exact .inr h
        · exact .inl ⟨h.1,by simp only; omega⟩
  · refine ⟨gaps,rfl,hs,fun h hh => .inl hh,fun n => ?_⟩
    constructor
    · exact .inl
    · rintro (h | h)
      · exact h
      · omega

lemma removeGap_of (hmem : gap ∈ gaps) : removeGap gaps gap = .ok (gaps.erase gap) ∧
      ∀ h ∈ gaps.erase gap,gap.2+1 < h.1 ∨ h.2+1 < gap.1 := by
  refine ⟨by rw [removeGap,require_of hmem,ok_bind,pure_eq],fun h hh => ?_⟩
  rw [hs.nodup.mem_erase_iff] at hh
  exact hs.apart_of_ne hmem hh.2 (Ne.symm hh.1)

lemma fillGap_of {more : Bool} (hfind : findGap gaps range = some gap) (hrange : range.1 ≤ range.2)
    (hcloses : Closes gap range more) : ∃ gaps',fillGap gaps gap range more = .ok gaps' ∧ Separated gaps' ∧
      ∀ n,Missing gaps' n ↔ Missing gaps n ∧ ¬Has range n ∧ (more = true ∨ ¬(Has gap n ∧ range.2 < n)) := by
  obtain ⟨hmem,hlo,hhi⟩ := findGap_some hfind
  obtain ⟨hremove,hfar⟩ := removeGap_of hs hmem
  obtain ⟨gaps1,hbefore,hs1,hold,hmissing1⟩ := gapBefore_of (hs.erase gap) hlo (hrange.trans hhi) hfar
  have hinside : ∀ n,Has gap n → Missing gaps n := fun n hn => ⟨gap,hmem,hn⟩
  rw [fillGap,hremove,ok_bind,hbefore,ok_bind,gapAfter]
  by_cases hmore : gap.2 > range.2 ∧ more = true
  · have hfar1 : ∀ h ∈ gaps1,gap.2+1 < h.1 ∨ h.2+1 < range.2+1 := by
      intro h hh
      obtain hh | hh := hold h hh
      · have := hfar h hh
        omega
      · omega
    rw [if_pos hmore]
    refine ⟨_,@insertGap_of gaps1 (range.2+1,gap.2) hmore.1 hfar1,
      @Separated.insert gaps1 (range.2+1,gap.2) hs1 hmore.1 hfar1,fun n => ?_⟩
    rw [missing_insert,hmissing1,missing_erase hs hmem]
    have hn := hinside n
    simp only [Has] at hn ⊢
    constructor
    · rintro (h | ⟨h,hnot⟩ | h)
      · exact ⟨hn ⟨by omega,h.2⟩,by omega,.inl hmore.2⟩
      · exact ⟨h,by omega,.inl hmore.2⟩
      · exact ⟨hn ⟨h.1,by omega⟩,by omega,.inl hmore.2⟩
    · rintro ⟨h,hnot,-⟩
      by_cases hin : gap.1 ≤ n ∧ n ≤ gap.2
      · omega
      · exact .inr (.inl ⟨h,hin⟩)
  · have hrequire : gap.2 = range.2 ∨ ¬more = true ∧ gap.2 = maxBlock := by
      obtain hc | hc | hc := hcloses
      · exact absurd hc hmore
      · exact .inl hc
      · exact .inr ⟨by simp [hc.1],hc.2⟩
    rw [if_neg hmore,require_of hrequire,ok_bind,pure_eq]
    refine ⟨gaps1,rfl,hs1,fun n => ?_⟩
    rw [hmissing1,missing_erase hs hmem]
    have hn := hinside n
    have hafter : range.2 < n → n ≤ gap.2 → more = false := by
      intro hlt hle
      obtain heq | ⟨hnot,-⟩ := hrequire
      · omega
      · simpa using hnot
    simp only [Has] at hn ⊢
    constructor
    · rintro (⟨h,hnot⟩ | h)
      · exact ⟨h,by omega,.inr (by omega)⟩
      · exact ⟨hn ⟨h.1,by omega⟩,by omega,.inr (by omega)⟩
    · rintro ⟨h,hnot,hor⟩
      by_cases hin : gap.1 ≤ n ∧ n ≤ gap.2
      · refine .inr ⟨hin.1,?_⟩
        by_contra hge
        have hlt : range.2 < n := by omega
        obtain hmore | hnot := hor
        · rw [hafter hlt hin.2] at hmore
          cases hmore
        · exact hnot ⟨hin,hlt⟩
      · exact .inl ⟨h,hin⟩

lemma fillGap_panics {more : Bool} (hfind : findGap gaps range = some gap) (hrange : range.1 ≤ range.2)
    (hcloses : ¬Closes gap range more) : fillGap gaps gap range more = .error .panic := by
  obtain ⟨hmem,hlo,hhi⟩ := findGap_some hfind
  obtain ⟨hremove,hfar⟩ := removeGap_of hs hmem
  obtain ⟨gaps1,hbefore,-⟩ := gapBefore_of (hs.erase gap) hlo (hrange.trans hhi) hfar
  simp only [Closes,not_or,not_and] at hcloses
  have hmore : ¬(gap.2 > range.2 ∧ more = true) := fun h => hcloses.1 h.1 h.2
  have hrequire : ¬(gap.2 = range.2 ∨ ¬more = true ∧ gap.2 = maxBlock) := by
    rintro (h | h)
    · exact hcloses.2.1 h
    · exact hcloses.2.2 (by simpa using h.1) h.2
  rw [fillGap,hremove,ok_bind,hbefore,ok_bind,gapAfter,if_neg hmore,require,if_neg hrequire]
  rfl

end

end Fuchsia.Netstack.Reassembly
