import Fuchsia.Netstack.Reassembly

/-! What the cache holds for a key, in terms of the fragments that were put there. -/
namespace Fuchsia.Netstack.Reassembly

section

open Fallible Gaps Ranges Ranged List

variable {A : Type} {key : FragmentCacheKey A} {fragments : List (Packet A)} {packet : Packet A}
  {data : FragmentCacheData}

structure Storable (p : Packet A) : Prop where
  body : p.body ≠ []
  bound : hi p ≤ maxFragmentBlocks+1
  part : p.offset = 0 → p.more = true
  full : p.more = true → p.body.length%fragmentBlockSize = 0

lemma Storable.offset_ne {p : Packet A} (h : Storable p) (hmore : p.more = false) : p.offset ≠ 0 := by
  intro hzero
  rw [h.part hzero] at hmore
  cases hmore

/-- The blocks that are missing up to the end: the end is open as long as every fragment
without more to come has another one behind it. -/
structure Ends (fragments : List (Packet A)) (missingBlocks : List Gap) (last : ℕ) : Prop where
  within : ∀ p ∈ fragments,hi p ≤ last+1
  missing : ∀ n,Missing missingBlocks n ↔ n ≤ last ∧ ¬∃ p ∈ fragments,Covers p n
  last : last = maxBlock ∧ (∀ p ∈ fragments,p.more = false → ∃ q ∈ fragments,hi p < hi q) ∨
    ∃ p ∈ fragments,p.more = false ∧ hi p = last+1

structure Stored (key : FragmentCacheKey A) (fragments : List (Packet A))
    (data : FragmentCacheData) : Prop where
  bodies : data.bodyFragments = fragments.map fun p => (p.offset.toNat,p.body)
  header : data.header = (fragments.find? fun p => p.offset = 0).map Packet.header
  size : data.totalSize = (fragments.map fun p => p.body.length).sum+data.header.elim 0 length
  keys : ∀ p ∈ fragments,p.key = key
  storable : ∀ p ∈ fragments,Storable p
  apart : fragments.Pairwise fun p q => hi p ≤ lo q ∨ hi q ≤ lo p
  gaps : Separated data.missingBlocks
  ends : ∃ last,Ends fragments data.missingBlocks last

lemma stored_new (key : FragmentCacheKey A) : Stored key [] .new := by
  refine ⟨rfl,rfl,rfl,by simp,by simp,List.Pairwise.nil,?_,maxBlock,by simp,fun n => ?_,.inl ⟨rfl,by simp⟩⟩
  · exact ⟨by simp [FragmentCacheData.new],List.pairwise_singleton _ _⟩
  · simp [FragmentCacheData.new,Missing,Has]

variable {missingBlocks : List Gap} {last n : ℕ}

lemma Ends.covers_iff (h : Ends fragments missingBlocks last) (hn : n ≤ last) :
    (∃ p ∈ fragments,Covers p n) ↔ ¬Missing missingBlocks n := by
  rw [h.missing,not_and,not_not]
  exact ⟨fun hc _ => hc,fun hc => hc hn⟩

variable {gap : Gap}

lemma Ends.covers_after (h : Ends fragments missingBlocks last) (hs : Separated missingBlocks)
    (hgap : gap ∈ missingBlocks) (hlt : gap.2 < last) : ∃ p ∈ fragments,Covers p (gap.2+1) := by
  refine (h.covers_iff hlt).mpr ?_
  rintro ⟨g,hg,hlo,hhi⟩
  by_cases hne : gap = g
  · subst hne
    omega
  · have hg1 := hs.nonempty gap hgap
    obtain hap | hap := hs.apart_of_ne hgap hg hne <;> omega

/-- The blocks of a fragment, as the range that is looked for. -/
def Packet.blocks (p : Packet A) : Gap := (lo p,p.offset.toNat+numFragmentBlocks p.body-1)

lemma has_blocks {p : Packet A} : Has p.blocks n ↔ Covers p n := by
  have := lo_lt_hi p
  simp only [Has,Packet.blocks,Covers] at this ⊢
  have hhi : hi p = p.offset.toNat+numFragmentBlocks p.body := rfl
  omega

lemma blocks_le (p : Packet A) : p.blocks.1 ≤ p.blocks.2 := by
  have := lo_lt_hi p
  have hhi : hi p = p.offset.toNat+numFragmentBlocks p.body := rfl
  simp only [Packet.blocks]
  omega

lemma blocks_snd (p : Packet A) : p.blocks.2+1 = hi p := by
  have := lo_lt_hi p
  have hhi : hi p = p.offset.toNat+numFragmentBlocks p.body := rfl
  simp only [Packet.blocks]
  omega

lemma exists_covers_append :
    (∃ p ∈ fragments++[packet],Covers p n) ↔ (∃ p ∈ fragments,Covers p n) ∨ Covers packet n := by
  simp only [mem_append,mem_singleton]
  constructor
  · rintro ⟨p,hp | rfl,hn⟩
    · exact .inl ⟨p,hp,hn⟩
    · exact .inr hn
  · rintro (⟨p,hp,hn⟩ | hn)
    · exact ⟨p,.inl hp,hn⟩
    · exact ⟨packet,.inr rfl,hn⟩

variable {gaps' : List Gap}

section

variable (h : Ends fragments missingBlocks last)
  (hfind : findGap missingBlocks packet.blocks = some gap)
include h hfind

lemma Ends.disjoint : ∀ n,Covers packet n → n ≤ last ∧ ¬∃ p ∈ fragments,Covers p n := by
  intro n hn
  obtain ⟨hmem,hlo,hhi⟩ := findGap_some hfind
  rw [← has_blocks] at hn
  exact (h.missing n).mp ⟨gap,hmem,hlo.trans hn.1,hn.2.trans hhi⟩

lemma Ends.add_inside (hs : Separated missingBlocks) (hbound : hi packet ≤ maxFragmentBlocks+1)
    (hinside : packet.more = true ∨ gap.2 = packet.blocks.2)
    (hmissing : ∀ n,Missing gaps' n ↔ Missing missingBlocks n ∧ ¬Covers packet n) :
    Ends (fragments++[packet]) gaps' last := by
  have hlast := blocks_snd packet
  have hcovers : ∀ n,Covers packet n → n ≤ last ∧ _ := h.disjoint hfind
  refine ⟨fun p hp => ?_,fun n => ?_,?_⟩
  · obtain hp | hp := mem_append.mp hp
    · exact h.within p hp
    · rw [mem_singleton.mp hp]
      have := (hcovers packet.blocks.2 (has_blocks.mp ⟨blocks_le packet,le_rfl⟩)).1
      omega
  · rw [hmissing,h.missing,exists_covers_append,not_or,and_assoc]
  · obtain ⟨heq,hopen⟩ | ⟨p,hp,hmore,hend⟩ := h.last
    · refine .inl ⟨heq,fun p hp hmore => ?_⟩
      obtain hp | hp := mem_append.mp hp
      · obtain ⟨q,hq,hlt⟩ := hopen p hp hmore
        exact ⟨q,mem_append_left _ hq,hlt⟩
      · obtain rfl := mem_singleton.mp hp
        obtain hmore' | hgap := hinside
        · rw [hmore] at hmore'
          cases hmore'
        · have hlt : gap.2 < last := by
            rw [heq,maxBlock]
            rw [maxFragmentBlocks] at hbound
            omega
          obtain ⟨q,hq,hlo,hhi⟩ := h.covers_after hs (findGap_some hfind).1 hlt
          exact ⟨q,mem_append_left _ hq,by omega⟩
    · exact .inr ⟨p,mem_append_left _ hp,hmore,hend⟩

lemma Ends.add_last (hbounds : ∀ p ∈ fragments,hi p ≤ maxFragmentBlocks+1)
    (hmore : packet.more = false) (hgap : gap.2 = maxBlock)
    (hmissing : ∀ n,Missing gaps' n ↔ Missing missingBlocks n ∧ ¬Covers packet n ∧
      ¬(Has gap n ∧ packet.blocks.2 < n)) : Ends (fragments++[packet]) gaps' packet.blocks.2 := by
  obtain ⟨hmem,hlo,hhi⟩ := findGap_some hfind
  have hblocks := blocks_le packet
  have hopen : last = maxBlock := by
    obtain ⟨heq,-⟩ | ⟨p,hp,-,hend⟩ := h.last
    · exact heq
    · have hle := ((h.missing gap.2).mp ⟨gap,hmem,hlo.trans (hblocks.trans hhi),le_rfl⟩).1
      have hb := hbounds p hp
      rw [hgap,maxBlock] at hle
      rw [maxFragmentBlocks] at hb
      omega
  have hgapMissing : ∀ n,gap.1 ≤ n → n ≤ maxBlock → Missing missingBlocks n := fun n h1 h2 =>
    ⟨gap,hmem,h1,hgap ▸ h2⟩
  refine ⟨fun p hp => ?_,fun n => ?_,.inr ⟨packet,by simp,hmore,(blocks_snd packet).symm⟩⟩
  · obtain hp | hp := mem_append.mp hp
    · have hw := h.within p hp
      have hne := lo_lt_hi p
      by_contra hlt
      have hm := (h.missing (hi p-1)).mp (hgapMissing _ (by omega) (by omega))
      exact hm.2 ⟨p,hp,by simp only [Covers]; omega⟩
    · rw [mem_singleton.mp hp,blocks_snd]
  · rw [hmissing,exists_covers_append,not_or]
    constructor
    · rintro ⟨hm,hnot,hout⟩
      obtain ⟨hle,hold⟩ := (h.missing n).mp hm
      refine ⟨?_,hold,hnot⟩
      by_contra hlt
      exact hout ⟨⟨by omega,by omega⟩,by omega⟩
    · rintro ⟨hle,hold,hnot⟩
      refine ⟨(h.missing n).mpr ⟨?_,hold⟩,hnot,by omega⟩
      omega

lemma Ends.add (hs : Separated missingBlocks) (hbounds : ∀ p ∈ fragments,hi p ≤ maxFragmentBlocks+1)
    (hbound : hi packet ≤ maxFragmentBlocks+1) (hcloses : Closes gap packet.blocks packet.more)
    (hmissing : ∀ n,Missing gaps' n ↔ Missing missingBlocks n ∧ ¬Has packet.blocks n ∧ (packet.more = true ∨ ¬(Has gap n ∧ packet.blocks.2 < n))) :
    ∃ last',Ends (fragments++[packet]) gaps' last' := by
  simp only [has_blocks] at hmissing
  obtain ⟨-,hmore⟩ | hgap | ⟨hmore,hgap⟩ := hcloses
  · refine ⟨last,h.add_inside hfind hs hbound (.inl hmore) fun n => ?_⟩
    rw [hmissing]
    simp [hmore]
  · refine ⟨last,h.add_inside hfind hs hbound (.inr hgap) fun n => ?_⟩
    have hout : ¬(Has gap n ∧ packet.blocks.2 < n) := by
      simp only [Has]
      omega
    rw [hmissing]
    simp [hout]
  · refine ⟨packet.blocks.2,h.add_last hfind hbounds hmore hgap fun n => ?_⟩
    rw [hmissing]
    simp [hmore]

end

lemma apart_of_disjoint {p q : Packet A} (h : ∀ n,Covers q n → ¬Covers p n) : hi p ≤ lo q ∨ hi q ≤ lo p := by
  by_contra hmeet
  rw [not_or,not_le,not_le] at hmeet
  have hp := lo_lt_hi p
  have hq := lo_lt_hi q
  refine h (max (lo p) (lo q)) ?_ ?_ <;> simp only [Covers] <;> omega

section

variable (h : Stored key fragments data)
  (hfind : findGap data.missingBlocks packet.blocks = some gap)
include h hfind

lemma Stored.disjoint {p : Packet A} (hp : p ∈ fragments) (hn : Covers packet n) : ¬Covers p n := by
  obtain ⟨last,hends⟩ := h.ends
  exact fun hpn => (hends.disjoint hfind n hn).2 ⟨p,hp,hpn⟩

lemma Stored.header_none (hzero : packet.offset = 0) : (fragments.find? fun p => p.offset = 0) = none := by
  rw [find?_eq_none]
  intro p hp hpzero
  have hpzero : p.offset = 0 := of_decide_eq_true hpzero
  have hlo : lo p = 0 := by
    change p.offset.toNat = 0
    rw [hpzero]
    rfl
  have hlo' : lo packet = 0 := by
    change packet.offset.toNat = 0
    rw [hzero]
    rfl
  have hhi := lo_lt_hi p
  have hhi' := lo_lt_hi packet
  refine h.disjoint hfind hp (show Covers packet 0 from ?_) ?_ <;> simp only [Covers] <;> omega

lemma Stored.add (hkey : packet.key = key) (hstorable : Storable packet)
    (hcloses : Closes gap packet.blocks packet.more) :
    ∃ gaps' data' added,fillGap data.missingBlocks gap packet.blocks packet.more = .ok gaps' ∧
      storeFragment data packet gaps' = .ok (data',added) ∧
      data'.totalSize = data.totalSize+added ∧ Stored key (fragments++[packet]) data' := by
  obtain ⟨gaps',hfill,hs',hmissing⟩ := fillGap_of h.gaps hfind (blocks_le packet) hcloses
  obtain ⟨last,hends⟩ := h.ends
  have hends' := hends.add hfind h.gaps (fun p hp => (h.storable p hp).bound) hstorable.bound hcloses hmissing
  have hbodies : data.bodyFragments++[(packet.offset.toNat,packet.body)] =
      (fragments++[packet]).map fun p => (p.offset.toNat,p.body) := by
    rw [h.bodies,map_append]
    rfl
  have hkeys : ∀ p ∈ fragments++[packet],p.key = key := by simpa [or_imp,forall_and] using ⟨h.keys,hkey⟩
  have hstorables : ∀ p ∈ fragments++[packet],Storable p := by
    simpa [or_imp,forall_and] using ⟨h.storable,hstorable⟩
  have hapart : (fragments++[packet]).Pairwise fun p q => hi p ≤ lo q ∨ hi q ≤ lo p := by
    refine pairwise_append.mpr ⟨h.apart,pairwise_singleton _ _,fun p hp q hq => ?_⟩
    rw [mem_singleton.mp hq]
    exact apart_of_disjoint fun n hn => h.disjoint hfind hp hn
  have hsum : ((fragments++[packet]).map fun p => p.body.length).sum =
      (fragments.map fun p => p.body.length).sum+packet.body.length := by simp
  by_cases hzero : packet.offset = 0
  · have hnone := h.header_none hfind hzero
    have hheader : data.header = none := by rw [h.header,hnone]; rfl
    simp only [storeFragment,if_pos hzero,require_of hheader,ok_bind,pure_eq]
    refine ⟨gaps',_,_,hfill,rfl,rfl,hbodies,?_,?_,hkeys,hstorables,hapart,hs',hends'⟩
    · simp [find?_append,hnone,hzero]
    · have hsize := h.size
      rw [hheader] at hsize
      simp only [Option.elim_none,Option.elim_some,hsum] at hsize ⊢
      omega
  · simp only [storeFragment,if_neg hzero]
    refine ⟨gaps',_,_,hfill,rfl,rfl,hbodies,?_,?_,hkeys,hstorables,hapart,hs',hends'⟩
    · simp [find?_append,hzero,h.header]
    · have hsize := h.size
      simp only [hsum]
      omega

end

/-! What each call does to the cache and to the timers. -/

open Tables Function AList IpLayerFragmentCache FragmentCacheData

variable [DecidableEq A]

structure Good (ctx : Context A) (stored : FragmentCacheKey A → List (Packet A)) : Prop where
  entries : ∀ key data,ctx.state.cache.lookup key = some data → Stored key (stored key) data
  absent : ∀ key,ctx.state.cache.lookup key = none → stored key = []
  size : ctx.state.cacheSize = total totalSize ctx.state.cache
  timers : ∀ key,key ∈ ctx.timers ↔ ctx.state.cache.lookup key ≠ none
  nodup : ctx.timers.Nodup

variable {ctx ctx' : Context A} {stored stored' : FragmentCacheKey A → List (Packet A)}
  {key : FragmentCacheKey A} {packet : Packet A} {data : FragmentCacheData}

lemma good_new : Good (Context.new : Context A) fun _ => [] := by
  refine ⟨fun key data h => ?_,fun _ _ => rfl,rfl,fun key => ?_,List.nodup_nil⟩
  · simp [Context.new] at h
  · simp [Context.new]

section

variable (h : Good ctx stored)
include h

section

variable (hdata : ctx.state.cache.lookup key = some data)
include hdata

lemma Good.removeData : ctx.state.removeData key = .ok ({ ctx.state with
      cache := ctx.state.cache.erase key
      cacheSize := ctx.state.cacheSize-data.totalSize },data) := by
  have hle : data.totalSize ≤ ctx.state.cacheSize := by
    rw [h.size,total_erase _ hdata]
    exact Nat.le_add_right _ _
  rw [IpLayerFragmentCache.removeData,hdata]
  simp only [require_of hle,ok_bind,pure_eq]

lemma Good.erase : Good ⟨{ ctx.state with
      cache := ctx.state.cache.erase key
      cacheSize := ctx.state.cacheSize-data.totalSize },ctx.timers.erase key⟩
      (update stored key []) := by
  refine ⟨fun k d hd => ?_,fun k hk => ?_,?_,fun k => ?_,h.nodup.erase key⟩
  · by_cases hkey : k = key
    · subst hkey
      simp at hd
    · rw [update_of_ne hkey]
      rw [lookup_erase_ne hkey] at hd
      exact h.entries k d hd
  · by_cases hkey : k = key
    · rw [hkey,update_self]
    · rw [update_of_ne hkey]
      rw [lookup_erase_ne hkey] at hk
      exact h.absent k hk
  · simp [h.size,total_erase totalSize hdata]
  · rw [h.nodup.mem_erase_iff,h.timers]
    by_cases hkey : k = key
    · subst hkey
      simp
    · simp [hkey]

lemma Good.insert {data' : FragmentCacheData} {fragments : List (Packet A)} {added : ℕ}
    (hstored : Stored key fragments data') (hsize : data'.totalSize = data.totalSize+added) :
    Good { ctx with state := { ctx.state with
      cache := ctx.state.cache.insert key data'
      cacheSize := ctx.state.cacheSize+added } } (update stored key fragments) := by
  refine ⟨fun k d hd => ?_,fun k hk => ?_,?_,fun k => ?_,h.nodup⟩
  · by_cases hkey : k = key
    · subst hkey
      rw [update_self]
      rw [lookup_insert] at hd
      cases hd
      exact hstored
    · rw [update_of_ne hkey]
      rw [lookup_insert_ne hkey] at hd
      exact h.entries k d hd
  · by_cases hkey : k = key
    · subst hkey
      simp at hk
    · rw [update_of_ne hkey]
      rw [lookup_insert_ne hkey] at hk
      exact h.absent k hk
  · have hsum := total_erase totalSize hdata
    simp only [total_insert,h.size,hsum,hsize]
    omega
  · rw [h.timers]
    by_cases hkey : k = key
    · subst hkey
      simp [hdata]
    · rw [lookup_insert_ne hkey]

end

lemma Good.getOrCreate (key : FragmentCacheKey A) : ∃ ctx' data,getOrCreate ctx key = (ctx',data) ∧ Good ctx' stored ∧
      ctx'.state.cache.lookup key = some data ∧ data = (ctx.state.cache.lookup key).getD .new ∧
      ctx'.state.cacheSize = ctx.state.cacheSize ∧ ctx'.state.threshold = ctx.state.threshold := by
  rw [Reassembly.getOrCreate]
  cases hdata : ctx.state.cache.lookup key with
  | some data => exact ⟨ctx,data,rfl,h,hdata,rfl,rfl,rfl⟩
  | none =>
    have hnot : key ∉ ctx.timers := by rw [h.timers,not_not,hdata]
    refine ⟨_,_,rfl,⟨fun k d hd => ?_,fun k hk => ?_,?_,fun k => ?_,?_⟩,lookup_insert _,rfl,rfl,rfl⟩
    · by_cases hkey : k = key
      · subst hkey
        rw [lookup_insert] at hd
        cases hd
        rw [h.absent k hdata]
        exact stored_new k
      · rw [lookup_insert_ne hkey] at hd
        exact h.entries k d hd
    · by_cases hkey : k = key
      · subst hkey
        simp at hk
      · rw [lookup_insert_ne hkey] at hk
        exact h.absent k hk
    · simp only [total_insert,h.size,erase_of_lookup_none hdata]
      exact (Nat.zero_add _).symm
    · rw [List.mem_cons,h.nodup.mem_erase_iff,h.timers]
      by_cases hkey : k = key
      · subst hkey
        simp
      · simp [hkey]
    · rw [List.erase_of_not_mem hnot]
      exact List.nodup_cons.mpr ⟨hnot,h.nodup⟩

lemma Good.cancelTimer (hdata : ctx.state.cache.lookup key = some data) (state : IpLayerFragmentCache A) :
    cancelTimer ⟨state,ctx.timers⟩ key = .ok ⟨state,ctx.timers.erase key⟩ := by
  have hmem : key ∈ ctx.timers := (h.timers key).mpr (by simp [hdata])
  rw [Reassembly.cancelTimer,require_of hmem,ok_bind,pure_eq]

lemma Good.dropData (hdata : ctx.state.cache.lookup key = some data) :
    ∃ ctx',dropData ctx key = .ok ctx' ∧ Good ctx' (update stored key []) := by
  refine ⟨_,?_,h.erase hdata⟩
  rw [Reassembly.dropData,h.removeData hdata]
  simp only [ok_bind]
  exact h.cancelTimer hdata _

lemma Good.handleTimer (hkey : key ∈ ctx.timers) :
    ∃ ctx',handleTimer ctx key = .ok ctx' ∧ Good ctx' (update stored key []) := by
  obtain ⟨data,hdata⟩ := Option.ne_none_iff_exists'.mp ((h.timers key).mp hkey)
  refine ⟨_,?_,h.erase hdata⟩
  rw [Reassembly.handleTimer,h.removeData hdata]
  simp only [ok_bind,pure_eq]

lemma Good.addFragment {gap : Gap} (hdata : ctx.state.cache.lookup packet.key = some data) (hstorable : Storable packet)
    (hroom : ¬ctx.state.aboveCacheSizeThreshold) (hfind : findGap data.missingBlocks packet.blocks = some gap)
    (hcloses : Closes gap packet.blocks packet.more) :
    ∃ ctx' data',addFragment ctx data packet gap packet.blocks = .ok (ctx',
        if data'.missingBlocks = [] then .ready packet.key data'.totalSize
        else .needMoreFragments) ∧ ctx'.state.cache.lookup packet.key = some data' ∧
      Good ctx' (update stored packet.key (stored packet.key++[packet])) := by
  obtain ⟨gaps',data',added,hfill,hstore,hsize,hstored⟩ :=
    (h.entries _ _ hdata).add hfind rfl hstorable hcloses
  refine ⟨_,data',?_,?_,h.insert hdata hstored hsize⟩
  · have hroom' : ¬({ ctx.state with cache := ctx.state.cache.insert packet.key data' } :
        IpLayerFragmentCache A).aboveCacheSizeThreshold := hroom
    rw [Reassembly.addFragment,hfill]
    simp only [ok_bind,hstore,incrementCacheSize,require_of hroom',pure_eq]
  · exact lookup_insert _

end

/-- What a fragment that is not refused outright does: it is out of range, or meets blocks
that were received, or is put into a gap. -/
inductive Processed (stored : FragmentCacheKey A → List (Packet A)) (packet : Packet A) :
    Except Fault (Context A × FragmentProcessingState A) → Prop
  | rejected {ctx' : Context A} {result : FragmentProcessingState A} (good : Good ctx' stored)
      (idle : ∀ key len,result ≠ .ready key len) : Processed stored packet (.ok (ctx',result))
  | dropped {ctx' : Context A} (good : Good ctx' (update stored packet.key [])) :
      Processed stored packet (.ok (ctx',.invalidFragment))
  | added {ctx' : Context A} {data data' : FragmentCacheData} {gap : Gap}
      (before : Stored packet.key (stored packet.key) data)
      (find : findGap data.missingBlocks packet.blocks = some gap)
      (closes : Closes gap packet.blocks packet.more) (storable : Storable packet)
      (good : Good ctx' (update stored packet.key (stored packet.key++[packet])))
      (lookup : ctx'.state.cache.lookup packet.key = some data') :
      Processed stored packet (.ok (ctx',if data'.missingBlocks = [] then
        .ready packet.key data'.totalSize else .needMoreFragments))
  | panicked {data : FragmentCacheData} {gap : Gap}
      (before : Stored packet.key (stored packet.key) data)
      (find : findGap data.missingBlocks packet.blocks = some gap)
      (closes : ¬Closes gap packet.blocks packet.more) (storable : Storable packet) :
      Processed stored packet (.error .panic)

lemma Good.processData (h : Good ctx stored) (hdata : ctx.state.cache.lookup packet.key = some data)
    (hbody : packet.body ≠ []) (hpart : packet.offset = 0 → packet.more = true) (hfull : packet.more = true → packet.body.length%fragmentBlockSize = 0)
    (hroom : ¬ctx.state.aboveCacheSizeThreshold) : Processed stored packet (processData ctx data packet) := by
  have hstored := h.entries _ _ hdata
  simp only [Reassembly.processData,
    show packet.offset.toNat+numFragmentBlocks packet.body-1 = packet.blocks.2 from rfl,
    show (packet.offset.toNat,packet.blocks.2) = packet.blocks from rfl]
  by_cases hlast : packet.blocks.2 ≤ maxBlock ∧ packet.blocks.2 ≤ maxFragmentBlocks
  · have hstorable : Storable packet := by
      refine ⟨hbody,?_,hpart,hfull⟩
      rw [← blocks_snd]
      omega
    rw [if_pos hlast]
    cases hfind : findGap data.missingBlocks packet.blocks with
    | none =>
      obtain ⟨ctx',hdrop,hgood⟩ := h.dropData hdata
      simp only [hdrop,ok_bind,pure_eq]
      exact .dropped hgood
    | some gap =>
      by_cases hcloses : Closes gap packet.blocks packet.more
      · obtain ⟨ctx',data',hadd,hlookup,hgood⟩ := h.addFragment hdata hstorable hroom hfind hcloses
        simp only [hadd]
        exact .added hstored hfind hcloses hstorable hgood hlookup
      · simp only [Reassembly.addFragment,fillGap_panics hstored.gaps hfind (blocks_le packet) hcloses]
        exact .panicked hstored hfind hcloses hstorable
  · rw [if_neg hlast]
    exact .rejected h (by simp)

lemma Good.processFragment (h : Good ctx stored) (packet : Packet A) :
    Processed stored packet (processFragment ctx packet) := by
  rw [Reassembly.processFragment]
  split_ifs with habove hwhole hbody hfull
  · exact .rejected h (by simp)
  · exact .rejected h (by simp)
  · exact .rejected h (by simp)
  · exact .rejected h (by simp)
  · obtain ⟨ctx',data,hget,hgood,hlookup,-,hsize,hthreshold⟩ := h.getOrCreate packet.key
    have hroom : ¬ctx'.state.aboveCacheSizeThreshold := by rwa [aboveCacheSizeThreshold,hsize,hthreshold]
    have hmore : packet.more = true → packet.body.length%fragmentBlockSize = 0 := by
      intro hmore
      by_contra hne
      exact hfull ⟨hmore,hne⟩
    have hpart : packet.offset = 0 → packet.more = true := by
      intro hzero
      by_contra hlast
      exact hwhole ⟨hzero,Bool.eq_false_iff.mpr hlast⟩
    simp only [hget]
    exact hgood.processData hlookup hbody hpart hmore hroom

end

/-! An entry without missing blocks, and the packet that is put together from it. -/

open Fallible Gaps Ranges Ranged Tables Tiling List

variable {A : Type} {key : FragmentCacheKey A} {fragments : List (Packet A)} {packet : Packet A}
  {data : FragmentCacheData}

def inOrder (fragments : List (Packet A)) : List (Packet A) :=
  fragments.insertionSort fun p q => lo p ≤ lo q

lemma inOrder_perm (fragments : List (Packet A)) : (inOrder fragments).Perm fragments :=
  perm_insertionSort _ fragments

variable {p : Packet A}

lemma mem_inOrder : p ∈ inOrder fragments ↔ p ∈ fragments := (inOrder_perm fragments).mem_iff

lemma inOrder_ascending (h : fragments.Pairwise fun p q => hi p ≤ lo q ∨ hi q ≤ lo p) :
    Ascending (inOrder fragments) := by
  have hapart : (inOrder fragments).Pairwise fun p q => hi p ≤ lo q ∨ hi q ≤ lo p :=
    ((inOrder_perm fragments).pairwise_iff fun h => h.symm).mpr h
  have : Std.Total fun p q : Packet A => lo p ≤ lo q := ⟨fun p q => le_total (lo p) (lo q)⟩
  have : IsTrans (Packet A) fun p q => lo p ≤ lo q := ⟨fun _ _ _ => le_trans⟩
  have hsorted : (inOrder fragments).Pairwise fun p q => lo p ≤ lo q := pairwise_insertionSort _ fragments
  refine ⟨fun p _ => lo_lt_hi p,(hapart.and hsorted).imp ?_⟩
  rintro p q ⟨hle | hle,hlo⟩
  · exact hle
  · have := lo_lt_hi q
    omega

section

variable (h : Stored key fragments data)
include h

lemma Stored.sorted : (intoSortedVec data.bodyFragments).map Prod.snd = (inOrder fragments).map Packet.body := by
  have hmap : intoSortedVec data.bodyFragments = (inOrder fragments).map fun p => (p.offset.toNat,p.body) := by
    rw [intoSortedVec,h.bodies]
    symm
    apply map_insertionSort
    intro p _ q _
    rfl
  rw [hmap,map_map]
  rfl

section

variable (hmissing : data.missingBlocks = [])
include hmissing

lemma Stored.complete : ∃ final ∈ fragments,final.more = false ∧ ∀ n,(∃ p ∈ fragments,Covers p n) ↔ n < hi final := by
  obtain ⟨last,hends⟩ := h.ends
  have hcovers : ∀ n ≤ last,∃ p ∈ fragments,Covers p n := by
    intro n hn
    rw [hends.covers_iff hn,hmissing]
    simp [Missing]
  obtain ⟨heq,-⟩ | ⟨final,hfinal,hmore,hend⟩ := hends.last
  · obtain ⟨p,hp,-,hhi⟩ := hcovers last le_rfl
    have hbound := (h.storable p hp).bound
    rw [heq,maxBlock] at hhi
    rw [maxFragmentBlocks] at hbound
    omega
  · refine ⟨final,hfinal,hmore,fun n => ⟨?_,fun hn => hcovers n (by omega)⟩⟩
    rintro ⟨p,hp,-,hhi⟩
    have := hends.within p hp
    omega

lemma Stored.tiles : ∃ final ∈ fragments,final.more = false ∧ Tiles 0 (hi final) (inOrder fragments) := by
  obtain ⟨final,hfinal,hmore,hcovers⟩ := h.complete hmissing
  refine ⟨final,hfinal,hmore,tiles_of_covers (inOrder_ascending h.apart) (Nat.zero_le _) ?_⟩
  intro n
  simp [mem_inOrder,hcovers]

lemma Stored.first : ∃ first ∈ fragments,first.offset = 0 ∧ data.header = some first.header := by
  obtain ⟨final,hfinal,-,hcovers⟩ := h.complete hmissing
  obtain ⟨p,hp,hlo,-⟩ := (hcovers 0).mpr ((Nat.zero_le _).trans_lt (lo_lt_hi final))
  have hzero : p.offset = 0 := UInt16.toNat_inj.mp (Nat.le_zero.mp hlo)
  cases hfind : fragments.find? fun p => p.offset = 0 with
  | none => exact absurd (find?_eq_none.mp hfind p hp) (by simp [hzero])
  | some first =>
    refine ⟨first,mem_of_find?_eq_some hfind,?_,?_⟩
    · simpa using find?_some hfind
    · rw [h.header,hfind]
      rfl

end

end

def Full (fragments : List (Packet A)) : Prop :=
  ∀ p ∈ fragments,(∀ q ∈ fragments,hi q ≤ hi p) ∨ p.body.length%fragmentBlockSize = 0

lemma Full.add (hfull : Full fragments) (h : Stored key fragments data) {gap : Gap}
    (hfind : findGap data.missingBlocks packet.blocks = some gap) (hstorable : Storable packet)
    (hshort : packet.more = false → packet.body.length%fragmentBlockSize ≠ 0 →
      ∀ p ∈ fragments,hi p ≤ hi packet) : Full (fragments++[packet]) := by
  intro p hp
  by_cases hmod : p.body.length%fragmentBlockSize = 0
  · exact .inr hmod
  refine .inl fun q hq => ?_
  have hcleared : ∀ p : Packet A,Storable p → p.body.length%fragmentBlockSize ≠ 0 → p.more = false := by
    intro p hs hne
    cases hmore : p.more with
    | false => rfl
    | true => exact absurd (hs.full hmore) hne
  obtain hp | hp := mem_append.mp hp
  · have hmax := (hfull p hp).resolve_right hmod
    obtain hq | hq := mem_append.mp hq
    · exact hmax q hq
    · rw [mem_singleton.mp hq]
      obtain ⟨last,hends⟩ := h.ends
      have hle := (hends.disjoint hfind packet.blocks.2 (has_blocks.mp ⟨blocks_le packet,le_rfl⟩)).1
      have hsnd := blocks_snd packet
      obtain ⟨-,hopen⟩ | ⟨q,hq,-,hend⟩ := hends.last
      · obtain ⟨q,hq,hlt⟩ := hopen p hp (hcleared p (h.storable p hp) hmod)
        exact absurd (hmax q hq) (not_le.mpr hlt)
      · have := hmax q hq
        omega
  · obtain rfl := mem_singleton.mp hp
    obtain hq | hq := mem_append.mp hq
    · exact hshort (hcleared p hstorable hmod) hmod q hq
    · rw [mem_singleton.mp hq]

variable {header : List UInt8}

variable [DecidableEq A] {ctx : Context A} {stored : FragmentCacheKey A → List (Packet A)}

lemma Good.reassemblePacket_ready (h : Good ctx stored) (hdata : ctx.state.cache.lookup key = some data)
    (hmissing : data.missingBlocks = []) (hheader : data.header = some header) :
    ∃ ctx',reassemblePacket ctx key = .ok (ctx',.ok ⟨header,(inOrder (stored key)).map Packet.body⟩) ∧
      Good ctx' (Function.update stored key []) := by
  refine ⟨_,?_,h.erase hdata⟩
  have hsome : (some header).isSome = true := rfl
  have hcancel : Reassembly.cancelTimer ctx key = .ok ⟨ctx.state,ctx.timers.erase key⟩ :=
    h.cancelTimer hdata ctx.state
  rw [reassemblePacket,hdata]
  simp only [hmissing,ne_eq,not_true_eq_false,if_false,require_of hsome,ok_bind,hcancel,
    h.removeData hdata,hheader,(h.entries _ _ hdata).sorted,pure_eq]

lemma Good.reassemblePacket (h : Good ctx stored) (key : FragmentCacheKey A) :
    (∃ e,reassemblePacket ctx key = .ok (ctx,.error e)) ∨ ∃ ctx' r,reassemblePacket ctx key = .ok (ctx',.ok r) ∧
        Good ctx' (Function.update stored key []) := by
  cases hdata : ctx.state.cache.lookup key with
  | none =>
    left
    rw [Reassembly.reassemblePacket,hdata]
    exact ⟨_,rfl⟩
  | some data =>
    by_cases hmissing : data.missingBlocks = []
    · obtain ⟨first,-,-,hheader⟩ := (h.entries _ _ hdata).first hmissing
      obtain ⟨ctx',hreassemble,hgood⟩ := h.reassemblePacket_ready hdata hmissing hheader
      exact .inr ⟨ctx',_,hreassemble,hgood⟩
    · left
      rw [Reassembly.reassemblePacket,hdata]
      simp only [ne_eq,hmissing,not_false_eq_true,if_true]
      exact ⟨_,rfl⟩

end Fuchsia.Netstack.Reassembly
