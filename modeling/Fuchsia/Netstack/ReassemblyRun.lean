import Fuchsia.Lib.Transition
import Fuchsia.Netstack.ReassemblyInvariant

/-! Runs of the reassembly on fragments that a sender chooses, with timers that fire. -/
namespace Fuchsia.Netstack.Reassembly

open Fallible Gaps Ranges Ranged Tables Tiling Function List Transition.Reachable

variable {A : Type}

/-- The context, and the received fragments that are in the cache for each key, in the order
in which they came. -/
structure Tracked (A : Type) where
  ctx : Context A
  stored : FragmentCacheKey A → List (Packet A)

inductive Action (A : Type)
  | process (packet : Packet A)
  | reassemble (key : FragmentCacheKey A)
  | fire (key : FragmentCacheKey A)

variable {t t' : Tracked A} {packet : Packet A}

/-- A fragment without more to come has nothing received after it, unless it meets received
blocks or the next block is the first of a fragment. -/
def EndFits (t : Tracked A) : Action A → Prop
  | .process packet => packet.more = false → packet.offset ≠ 0 → packet.body ≠ [] →
      (∀ p ∈ t.stored packet.key,hi p ≤ hi packet) ∨
      (∃ p ∈ t.stored packet.key,lo p < hi packet ∧ lo packet < hi p) ∨
      ∃ p ∈ t.stored packet.key,lo p = hi packet
  | _ => True

variable {data : FragmentCacheData}

lemma closes_of_endFits {gap : Gap} (h : Stored packet.key (t.stored packet.key) data)
    (hfind : findGap data.missingBlocks packet.blocks = some gap)
    (hstorable : Storable packet) (hfits : EndFits t (.process packet)) : Closes gap packet.blocks packet.more := by
  obtain ⟨last,hends⟩ := h.ends
  obtain ⟨hmem,hlo,hhi⟩ := findGap_some hfind
  have hsnd := blocks_snd packet
  have hgap : Missing data.missingBlocks gap.2 :=
    ⟨gap,hmem,hlo.trans ((blocks_le packet).trans hhi),le_rfl⟩
  cases hmore : packet.more with
  | true =>
    obtain heq | hlt := hhi.eq_or_lt
    · exact .inr (.inl heq.symm)
    · exact .inl ⟨hlt,rfl⟩
  | false =>
    obtain hlast | ⟨p,hp,hmeet⟩ | ⟨p,hp,hnext⟩ := hfits hmore (hstorable.offset_ne hmore) hstorable.body
    · have hend : gap.2 = last := by
        by_contra hne
        have hlt : gap.2 < last := lt_of_le_of_ne ((hends.missing _).mp hgap).1 hne
        obtain ⟨q,hq,-,hq'⟩ := hends.covers_after h.gaps hmem hlt
        have := hlast q hq
        omega
      obtain ⟨heq,-⟩ | ⟨q,hq,-,hqend⟩ := hends.last
      · exact .inr (.inr ⟨rfl,hend.trans heq⟩)
      · have hne := lo_lt_hi q
        exact absurd ⟨q,hq,by simp only [Covers]; omega⟩ ((hends.missing _).mp hgap).2
    · obtain hle | hle := apart_of_disjoint fun n hn => h.disjoint hfind hp hn <;> omega
    · right
      left
      by_contra hne
      have hcovers : Covers p (packet.blocks.2+1) := by
        have := lo_lt_hi p
        simp only [Covers]
        omega
      have hmissing : Missing data.missingBlocks (packet.blocks.2+1) :=
        ⟨gap,hmem,by have := blocks_le packet; omega,by omega⟩
      exact ((hends.missing _).mp hmissing).2 ⟨p,hp,hcovers⟩

/-- A fragment without more to come whose body does not fill its blocks has nothing received
after it. -/
def ShortAtEnd (t : Tracked A) : Action A → Prop
  | .process packet => packet.more = false → packet.offset ≠ 0 → packet.body.length%fragmentBlockSize ≠ 0 →
      ∀ p ∈ t.stored packet.key,hi p ≤ hi packet
  | _ => True

variable [DecidableEq A]

def Tracked.new : Tracked A := ⟨.new,fun _ => []⟩

/-- Of the fragments before and the new ones, those that the cache has bodies of. -/
def Tracked.follow (t : Tracked A) (ctx : Context A) (received : List (Packet A)) : Tracked A :=
  ⟨ctx,fun key =>
    match ctx.state.cache.lookup key with
    | none => []
    | some data => (t.stored key++received).take data.bodyFragments.length⟩

instance : LawfulBEq (FragmentCacheKey A) := inferInstance

def step (t : Tracked A) : Action A → Option (Tracked A)
  | .process packet =>
    match processFragment t.ctx packet with
    | .ok (ctx,_) => some (t.follow ctx [packet])
    | .error _ => none
  | .reassemble key =>
    match reassemblePacket t.ctx key with
    | .ok (ctx,_) => some (t.follow ctx [])
    | .error _ => none
  | .fire key =>
    if key ∈ t.ctx.timers then
      match handleTimer t.ctx key with
      | .ok ctx => some (t.follow ctx [])
      | .error _ => none
    else none

variable {ctx : Context A} {key : FragmentCacheKey A}
  {received : List (Packet A)} {stored : FragmentCacheKey A → List (Packet A)}

lemma follow_eq (h : Good ctx stored) (hof : ∀ key,stored key <+: t.stored key++received) :
    t.follow ctx received = ⟨ctx,stored⟩ := by
  rw [Tracked.follow]
  congr 1
  funext key
  cases hdata : ctx.state.cache.lookup key with
  | none => exact (h.absent key hdata).symm
  | some data =>
    have hlen : data.bodyFragments.length = (stored key).length := by
      rw [(h.entries key data hdata).bodies,length_map]
    simp only [hlen]
    exact (prefix_iff_eq_take.mp (hof key)).symm

lemma prefix_update_nil (key' : FragmentCacheKey A) : update t.stored key [] key' <+: t.stored key'++received := by
  by_cases hkey : key' = key
  · rw [hkey,update_self]
    exact ⟨_,nil_append _⟩
  · rw [update_of_ne hkey]
    exact prefix_append _ _

inductive Taken (t : Tracked A) (packet : Packet A) (t' : Tracked A) :
    FragmentProcessingState A → Prop
  | kept {result : FragmentProcessingState A} (stored : t'.stored = t.stored)
      (idle : ∀ key len,result ≠ .ready key len) : Taken t packet t' result
  | dropped (stored : t'.stored = update t.stored packet.key []) :
      Taken t packet t' .invalidFragment
  | added {data data' : FragmentCacheData} {gap : Gap}
      (stored : t'.stored = update t.stored packet.key (t.stored packet.key++[packet]))
      (before : Stored packet.key (t.stored packet.key) data)
      (find : findGap data.missingBlocks packet.blocks = some gap) (storable : Storable packet)
      (lookup : t'.ctx.state.cache.lookup packet.key = some data') :
      Taken t packet t' (if data'.missingBlocks = [] then .ready packet.key data'.totalSize
        else .needMoreFragments)

variable {result : FragmentProcessingState A}

lemma taken_of_ok (h : Good t.ctx t.stored) (hstep : processFragment t.ctx packet = .ok (ctx,result)) :
    Good ctx (t.follow ctx [packet]).stored ∧ Taken t packet (t.follow ctx [packet]) result := by
  have hcases := h.processFragment packet
  rw [hstep] at hcases
  cases hcases with
  | rejected hgood hidle =>
    rw [follow_eq hgood fun key => prefix_append _ _]
    exact ⟨hgood,.kept rfl hidle⟩
  | dropped hgood =>
    rw [follow_eq hgood fun key => prefix_update_nil key]
    exact ⟨hgood,.dropped rfl⟩
  | added hbefore hfind _ hstorable hgood hlookup =>
    rw [follow_eq hgood fun key => by
      by_cases hkey : key = packet.key
      · rw [hkey,update_self]
      · rw [update_of_ne hkey]
        exact prefix_append _ _]
    exact ⟨hgood,.added rfl hbefore hfind hstorable hlookup⟩

lemma update_nil_cases (t : Tracked A) (key key' : FragmentCacheKey A) :
    update t.stored key [] key' = t.stored key' ∨ update t.stored key [] key' = [] := by
  by_cases hkey : key' = key
  · right
    rw [hkey,update_self]
  · exact .inl (update_of_ne hkey _ _)

lemma step_good {a : Action A} (h : Good t.ctx t.stored) (hstep : step t a = some t') :
    Good t'.ctx t'.stored ∧ ((∀ key,t'.stored key = t.stored key ∨ t'.stored key = []) ∨
      ∃ packet result,a = .process packet ∧ Taken t packet t' result) := by
  cases a with
  | process packet =>
    rw [step] at hstep
    cases hprocess : processFragment t.ctx packet with
    | error e => simp [hprocess] at hstep
    | ok r =>
      simp only [hprocess,Option.some.injEq] at hstep
      subst hstep
      obtain ⟨hgood,htaken⟩ := taken_of_ok h hprocess
      exact ⟨hgood,.inr ⟨packet,r.2,rfl,htaken⟩⟩
  | reassemble key =>
    obtain ⟨e,hreassemble⟩ | ⟨ctx,r,hreassemble,hgood⟩ := h.reassemblePacket key
    · rw [step,hreassemble] at hstep
      cases hstep
      rw [follow_eq h fun key => prefix_append _ _]
      exact ⟨h,.inl fun _ => .inl rfl⟩
    · rw [step,hreassemble] at hstep
      cases hstep
      rw [follow_eq hgood fun key => prefix_update_nil key]
      exact ⟨hgood,.inl (update_nil_cases t key)⟩
  | fire key =>
    rw [step] at hstep
    split_ifs at hstep with hmem
    obtain ⟨ctx,hfire,hgood⟩ := h.handleTimer hmem
    rw [hfire] at hstep
    cases hstep
    rw [follow_eq hgood fun key => prefix_update_nil key]
    exact ⟨hgood,.inl (update_nil_cases t key)⟩

def Reached (allowed : Tracked A → Action A → Prop) (t : Tracked A) : Prop :=
  Transition.Reachable (fun t => t = Tracked.new) allowed step t

lemma Reached.good {allowed : Tracked A → Action A → Prop} (h : Reached allowed t) : Good t.ctx t.stored := by
  refine invariant (I := fun t => Good t.ctx t.stored) h ?_ ?_
  · rintro t rfl
    exact good_new
  · intro t a t' hgood _ hstep
    exact (step_good hgood hstep).1

/-- Where a fragment without more to come is never put before received blocks with a gap
between them, nothing fails, and the cache is what the received fragments make it. -/
theorem reached_bookkeeping (h : Reached EndFits t) :
    (∀ packet,EndFits t (.process packet) → ∃ r,processFragment t.ctx packet = .ok r) ∧
    (∀ key,∃ r,reassemblePacket t.ctx key = .ok r) ∧
    (∀ key ∈ t.ctx.timers,∃ ctx,handleTimer t.ctx key = .ok ctx) ∧
    t.ctx.state.cacheSize = total FragmentCacheData.totalSize t.ctx.state.cache ∧
    (t.ctx.timers.Nodup ∧ ∀ key,key ∈ t.ctx.timers ↔ key ∈ t.ctx.state.cache) ∧
    ∀ key data,t.ctx.state.cache.lookup key = some data →
      data.bodyFragments = (t.stored key).map (fun p => (p.offset.toNat,p.body)) ∧
      Separated data.missingBlocks ∧ ∃ last,Ends (t.stored key) data.missingBlocks last := by
  have hgood := h.good
  refine ⟨fun packet hfits => ?_,fun key => ?_,fun key hkey => ?_,hgood.size,
    ⟨hgood.nodup,fun key => ?_⟩,fun key data hdata => ?_⟩
  · have hcases := hgood.processFragment packet
    cases hr : processFragment t.ctx packet with
    | ok r => exact ⟨r,rfl⟩
    | error e =>
      rw [hr] at hcases
      cases hcases with
      | panicked hbefore hfind hcloses hstorable =>
        exact absurd (closes_of_endFits hbefore hfind hstorable hfits) hcloses
  · obtain ⟨e,hr⟩ | ⟨ctx,r,hr,-⟩ := hgood.reassemblePacket key
    · exact ⟨_,hr⟩
    · exact ⟨_,hr⟩
  · obtain ⟨ctx,hr,-⟩ := hgood.handleTimer hkey
    exact ⟨ctx,hr⟩
  · rw [hgood.timers,← AList.lookup_isSome,Option.isSome_iff_ne_none]
  · have hstored := hgood.entries key data hdata
    exact ⟨hstored.bodies,hstored.gaps,hstored.ends⟩

lemma Taken.full (h : Taken t packet t' result) (hfull : ∀ key,Full (t.stored key))
    (hshort : ShortAtEnd t (.process packet)) : ∀ key,Full (t'.stored key) := by
  intro key
  cases h with
  | kept hstored _ =>
    rw [hstored]
    exact hfull key
  | dropped hstored =>
    rw [hstored]
    obtain heq | heq := update_nil_cases t packet.key key
    · rw [heq]
      exact hfull key
    · rw [heq]
      simp [Full]
  | added hstored hbefore hfind hstorable _ =>
    rw [hstored]
    by_cases hkey : key = packet.key
    · rw [hkey,update_self]
      exact (hfull packet.key).add hbefore hfind hstorable fun hmore => hshort hmore (hstorable.offset_ne hmore)
    · rw [update_of_ne hkey]
      exact hfull key

lemma Reached.full (h : Reached ShortAtEnd t) : ∀ key,Full (t.stored key) := by
  refine (invariant (I := fun t => Good t.ctx t.stored ∧ ∀ key,Full (t.stored key)) h ?_ ?_).2
  · rintro t rfl
    exact ⟨good_new,fun key => by simp [Tracked.new,Full]⟩
  · rintro t a t' ⟨hgood,hfull⟩ hshort hstep
    obtain ⟨hgood',hcases⟩ := step_good hgood hstep
    refine ⟨hgood',?_⟩
    obtain hdropped | ⟨packet,result,rfl,htaken⟩ := hcases
    · intro key
      obtain heq | heq := hdropped key
      · rw [heq]
        exact hfull key
      · rw [heq]
        simp [Full]
    · exact htaken.full hfull hshort

/-- What is stored for a key is a whole packet, which is what reassembling returns. -/
structure Whole (ctx : Context A) (key : FragmentCacheKey A) (fragments : List (Packet A))
    (packetLen : ℕ) (r : Reassembled) : Prop where
  bodies : ∃ data,ctx.state.cache.lookup key = some data ∧
    data.bodyFragments = fragments.map fun p => (p.offset.toNat,p.body)
  tiles : ∃ order final,order.Perm fragments ∧ final ∈ fragments ∧ final.more = false ∧
    Tiles 0 (hi final) order ∧
    r.body.flatten.length = fragmentBlockSize*final.offset.toNat+final.body.length
  returns : ∃ ctx',reassemblePacket ctx key = .ok (ctx',.ok r)
  body : ∀ p ∈ fragments,∀ j < p.body.length,
    r.body.flatten[fragmentBlockSize*p.offset.toNat+j]? = p.body[j]?
  header : ∃ first ∈ fragments,first.offset = 0 ∧ r.header = first.header
  length : packetLen = r.header.length+r.body.flatten.length

lemma whole_of_complete (h : Good ctx stored) (hfull : Full (stored key))
    (hdata : ctx.state.cache.lookup key = some data) (hmissing : data.missingBlocks = []) :
    ∃ r,Whole ctx key (stored key) data.totalSize r := by
  have hstored := h.entries key data hdata
  obtain ⟨final,hfinal,hmore,htiles⟩ := hstored.tiles hmissing
  obtain ⟨first,hfirst,hzero,hheader⟩ := hstored.first hmissing
  obtain ⟨ctx',hreassemble,-⟩ := h.reassemblePacket_ready hdata hmissing hheader
  -- every fragment but that at the end fills its blocks
  have hlen : ∀ p ∈ inOrder (stored key),hi p ≠ hi final → p.body.length = fragmentBlockSize*(hi p-lo p) := by
    intro p hp hne
    have hmem := mem_inOrder.mp hp
    have hle := (htiles.within hp).2.2
    have hlen : 0 < p.body.length := length_pos_of_ne_nil (hstored.storable p hmem).body
    have hhi : hi p = lo p+numFragmentBlocks p.body := rfl
    obtain hmax | hmod := hfull p hmem
    · exact absurd (le_antisymm hle (hmax final hfinal)) hne
    · simp only [hhi,numFragmentBlocks,fragmentBlockSize] at hmod ⊢
      omega
  refine ⟨_,⟨data,hdata,hstored.bodies⟩,⟨_,final,inOrder_perm _,hfinal,hmore,htiles,?_⟩,
    ⟨ctx',hreassemble⟩,fun p hp j hj => ?_,⟨first,hfirst,hzero,rfl⟩,?_⟩
  · rw [← flatMap_def]
    exact htiles.length_flatMap hlen (mem_inOrder.mpr hfinal) rfl
  · rw [← flatMap_def]
    exact htiles.getElem_flatMap hlen (mem_inOrder.mpr hp) hj
  · have hsum := ((inOrder_perm (stored key)).map fun p => p.body.length).sum_eq
    rw [hstored.size,hheader,length_flatten,map_map]
    simp only [Option.elim_some,Function.comp_def,hsum]
    omega

/-- Where short bodies only come at the end, a packet that is ready is whole. -/
theorem ready_whole {packetLen : ℕ} (h : Reached ShortAtEnd t) (hshort : ShortAtEnd t (.process packet))
    (hready : processFragment t.ctx packet = .ok (ctx,.ready key packetLen)) :
    ∃ r,Whole ctx key ((t.follow ctx [packet]).stored key) packetLen r := by
  obtain ⟨hgood,htaken⟩ := taken_of_ok h.good hready
  have hfull := htaken.full h.full hshort
  generalize hresult : FragmentProcessingState.ready key packetLen = result at htaken
  cases htaken with
  | kept _ hidle => exact absurd hresult.symm (hidle _ _)
  | dropped _ => cases hresult
  | @added data data' gap _ _ _ _ hlookup =>
    split_ifs at hresult with hmissing
    cases hresult
    exact whole_of_complete hgood (hfull _) hlookup hmissing

section Sample

instance (t : Tracked A) : (a : Action A) → Decidable (EndFits t a)
  | .process _ => inferInstanceAs (Decidable (_ → _ → _ → _ ∨ _ ∨ _))
  | .reassemble _ => inferInstanceAs (Decidable True)
  | .fire _ => inferInstanceAs (Decidable True)

instance (t : Tracked A) : (a : Action A) → Decidable (ShortAtEnd t a)
  | .process _ => inferInstanceAs (Decidable (_ → _ → _ → _))
  | .reassemble _ => inferInstanceAs (Decidable True)
  | .fire _ => inferInstanceAs (Decidable True)

def sampleFragment (offset : UInt16) (more : Bool) (body : List UInt8) : Packet UInt32 :=
  ⟨0x0a000001,0x0a000002,7,offset,more,[0x45,0],body⟩

def sampleBlock (byte : UInt8) : List UInt8 := (range 8).map fun j => byte+j.toUInt8

def sampleState (allowed : Tracked UInt32 → Action UInt32 → Prop)
    [∀ t a,Decidable (allowed t a)] (actions : List (Action UInt32)) : Tracked UInt32 :=
  (Transition.run allowed step .new actions).getD .new

lemma sampleState_reached {allowed : Tracked UInt32 → Action UInt32 → Prop} [∀ t a,Decidable (allowed t a)]
    {actions : List (Action UInt32)} (h : (Transition.run allowed step .new actions).isSome) :
    Reached allowed (sampleState allowed actions) := by
  obtain ⟨t,ht⟩ := Option.isSome_iff_exists.mp h
  rw [sampleState,ht]
  exact run (.start rfl) ht

def sampleOuter : List (Action UInt32) :=
  [.process (sampleFragment 0 true (sampleBlock 0x10)),.process (sampleFragment 2 false [2,2,2])]

theorem reached_bookkeeping_sample :
    Reached EndFits (sampleState EndFits sampleOuter) ∧
      (sampleState EndFits sampleOuter).ctx.state.cacheSize = 13 ∧
      total FragmentCacheData.totalSize (sampleState EndFits sampleOuter).ctx.state.cache = 13 := by
  have hreached : Reached EndFits (sampleState EndFits sampleOuter) :=
    sampleState_reached (by decide +kernel)
  have hsize := (reached_bookkeeping hreached).2.2.2.1
  have hvalue : (sampleState EndFits sampleOuter).ctx.state.cacheSize = 13 := by decide +kernel
  exact ⟨hreached,hvalue,hsize.symm.trans hvalue⟩

/-- The last fragment has a received block after it, but not right after it. -/
theorem processFragment_panics :
    ∃ t packet,Reached (fun _ _ => True) t ∧
      processFragment (A := UInt32) t.ctx packet = .error .panic :=
  ⟨sampleState (fun _ _ => True) [.process (sampleFragment 0 true (sampleBlock 0x10)),
      .process (sampleFragment 3 true (sampleBlock 0x20))],sampleFragment 1 false (sampleBlock 0x30),
    sampleState_reached (by decide +kernel),rfl⟩

theorem ready_whole_sample :
    ∃ ctx key packetLen,processFragment (sampleState ShortAtEnd sampleOuter).ctx
        (sampleFragment 1 true (sampleBlock 0x30)) = .ok (ctx,.ready key packetLen) ∧
      ∃ r,Whole ctx key (((sampleState ShortAtEnd sampleOuter).follow ctx
        [sampleFragment 1 true (sampleBlock 0x30)]).stored key) packetLen r :=
  ⟨_,_,_,rfl,ready_whole (sampleState_reached (by decide +kernel)) (by decide +kernel) rfl⟩

/-- A short body before the end: what comes after it is shifted. -/
theorem ready_shifted :
    ∃ t packet ctx key packetLen ctx' r,Reached (fun _ _ => True) t ∧
      processFragment (A := UInt32) t.ctx packet = .ok (ctx,.ready key packetLen) ∧
      reassemblePacket ctx key = .ok (ctx',.ok r) ∧
      ∃ p ∈ (t.follow ctx [packet]).stored key,0 < p.body.length ∧
        r.body.flatten[fragmentBlockSize*p.offset.toNat]? ≠ p.body[0]? :=
  ⟨sampleState (fun _ _ => True) [.process (sampleFragment 0 true (sampleBlock 0x10)),
      .process (sampleFragment 2 true (sampleBlock 0x20)),.process (sampleFragment 1 false [3,3,3])],
    sampleFragment 3 false (sampleBlock 0x40),_,_,_,_,_,sampleState_reached (by decide +kernel),rfl,
    rfl,sampleFragment 2 true (sampleBlock 0x20),by decide +kernel,by decide,by decide +kernel⟩

end Sample

end Fuchsia.Netstack.Reassembly
