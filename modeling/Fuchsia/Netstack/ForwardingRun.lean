import Fuchsia.Lib.Transition
import Fuchsia.Netstack.Forwarding

/-! The active routes after any changes of a forwarding table, and what a lookup in them
gives. -/
namespace Fuchsia.Netstack.Forwarding

open Fallible Entry List Option Transition.Reachable Transition

variable {w : ℕ} {D : Type} {installed : List (Entry w D)} {address : SpecifiedAddr w}
  {spec : SpecifiedAddr w → Option (Destination w D)}

lemma Subnet.eq_of_contains {s t : Subnet w} (hs : s.contains address = true)
    (ht : t.contains address = true) (h : s.prefixLen = t.prefixLen) : s = t := by
  obtain ⟨n,p,_,_⟩ := s
  obtain ⟨n',p',_,_⟩ := t
  simp only [Subnet.contains,decide_eq_true_eq] at hs ht h
  subst h
  simp [hs,ht]

/-- What `regen_active_helper` finds among the entries of a subnet. -/
def activeDest (spec : SpecifiedAddr w → Option (Destination w D)) (entries : List (Entry w D)) :
    Option (ActiveEntryDest w D) :=
  match entries.findSome? device? with
  | some device => some (.locally device)
  | none => (entries.findSome? fun e => e.nextHop?.bind spec).map .remotely

variable {entries : List (Entry w D)}

lemma regenHelperLoop_eq (h : ∀ e ∈ entries,∀ nextHop,e.dest = .remotely nextHop →
      installedLookup installed nextHop = .ok (spec nextHop)) (bestRemote : Option (ActiveEntryDest w D)) :
    regenHelperLoop installed entries bestRemote = .ok (match entries.findSome? device? with
        | some device => some (.locally device)
        | none => bestRemote.or ((entries.findSome? fun e => e.nextHop?.bind spec).map .remotely)) := by
  induction entries generalizing bestRemote with
  | nil => simp [regenHelperLoop]
  | cons e rest ih =>
    have ih := ih (forall_mem_cons.mp h).2
    rw [regenHelperLoop]
    cases hdest : e.dest with
    | locally device => simp [device?,hdest]
    | remotely nextHop =>
      have hdevice : e.device? = none := by simp [device?,hdest]
      have hnextHop : e.nextHop? = some nextHop := by simp [nextHop?,hdest]
      dsimp only
      cases bestRemote with
      | some best =>
        rw [if_pos (by simp),ih]
        simp [hdevice]
      | none =>
        rw [if_neg (by simp),h e mem_cons_self nextHop hdest,ok_bind,ih]
        simp only [findSome?_cons,hdevice,hnextHop,bind_some,none_or]
        cases spec nextHop <;> simp

lemma regenLoop_eq (h : ∀ e ∈ installed,∀ nextHop,e.dest = .remotely nextHop →
      installedLookup installed nextHop = .ok (spec nextHop)) (todo : List (Entry w D)) (subnets : List (Subnet w)) :
    ∃ active,regenLoop installed todo subnets = .ok active ∧ ∀ subnet dest,⟨subnet,dest⟩ ∈ active ↔
        subnet ∉ subnets ∧ (∃ e ∈ todo,e.subnet = subnet) ∧
          activeDest spec (installed.filter fun e => e.subnet = subnet) = some dest := by
  induction todo generalizing subnets with
  | nil => exact ⟨[],rfl,by simp⟩
  | cons e rest ih =>
    rw [regenLoop]
    by_cases hin : e.subnet ∈ subnets
    · obtain ⟨active,hloop,hactive⟩ := ih subnets
      refine ⟨active,by rw [if_pos hin,hloop],fun subnet dest => ?_⟩
      rw [hactive]
      refine and_congr_right fun hnot => and_congr_left fun _ => ?_
      constructor
      · rintro ⟨f,hf,hsubnet⟩
        exact ⟨f,mem_cons_of_mem _ hf,hsubnet⟩
      · rintro ⟨f,hf,hsubnet⟩
        obtain rfl | hf := mem_cons.mp hf
        · exact absurd (hsubnet ▸ hin) hnot
        · exact ⟨f,hf,hsubnet⟩
    · obtain ⟨active,hloop,hactive⟩ := ih (e.subnet::subnets)
      have hregen : regenActiveHelper installed e.subnet =
          .ok (activeDest spec (installed.filter fun f => f.subnet = e.subnet)) := by
        rw [regenActiveHelper,regenHelperLoop_eq fun e he => h e (mem_filter.mp he).1]
        simp only [activeDest,none_or]
      simp only [if_neg hin,hregen,hloop,ok_bind,pure_eq]
      refine ⟨_,rfl,fun subnet dest => ?_⟩
      rw [mem_append,hactive,mem_toList,map_eq_some_iff]
      by_cases hsubnet : subnet = e.subnet
      · subst hsubnet
        simp [hin]
      · have hne : e.subnet ≠ subnet := Ne.symm hsubnet
        simp [hsubnet,hne]

variable (active : List (ActiveEntry w D))

lemma foldl_longerOrLater (best : ActiveEntry w D) : ∃ x ∈ best::active,active.foldl longerOrLater (some best) = some x ∧
      ∀ e ∈ best::active,e.subnet.prefixLen ≤ x.subnet.prefixLen := by
  induction active generalizing best with
  | nil => exact ⟨best,mem_cons_self,rfl,by simp⟩
  | cons e rest ih =>
    rw [foldl_cons,longerOrLater]
    split_ifs with hle
    · obtain ⟨x,hmem,hx,hall⟩ := ih e
      exact ⟨x,mem_cons_of_mem _ hmem,hx,forall_mem_cons.mpr ⟨hle.trans (hall e mem_cons_self),hall⟩⟩
    · obtain ⟨x,hmem,hx,hall⟩ := ih best
      refine ⟨x,((sublist_cons_self e rest).cons_cons best).subset hmem,hx,?_⟩
      simp only [forall_mem_cons] at hall ⊢
      exact ⟨hall.1,(not_le.mp hle).le.trans hall.1,hall.2⟩

lemma maxByPrefix_cases : active = [] ∧ maxByPrefix active = none ∨ ∃ x ∈ active,maxByPrefix active = some x ∧
        ∀ e ∈ active,e.subnet.prefixLen ≤ x.subnet.prefixLen := by
  cases active with
  | nil => exact .inl ⟨rfl,rfl⟩
  | cons e rest =>
    exact .inr (foldl_longerOrLater rest e)

lemma activeDest_ne_none {e : Entry w D} (he : e ∈ entries) (hr : e.resolvable spec = true) :
    activeDest spec entries ≠ none := by
  intro hnone
  rw [activeDest] at hnone
  split at hnone
  · cases hnone
  · rename_i hdevice
    rw [map_eq_none_iff,findSome?_eq_none_iff] at hnone
    have hnextHop := hnone e he
    have hdevice := findSome?_eq_none_iff.mp hdevice e he
    cases hdest : e.dest with
    | locally device => simp [device?,hdest] at hdevice
    | remotely nextHop =>
      simp only [resolvable,hdest,nextHop?,bind_some] at hr hnextHop
      simp [hnextHop] at hr

lemma split_of_findSome {A B : Type} {p : A → Bool} {f : A → Option B} {b : B} {l : List A}
    (h : (l.filter p).findSome? f = some b) : ∃ before a after,l = before++a::after ∧ p a = true ∧ f a = some b ∧
      ∀ x ∈ before,p x = true → f x = none := by
  obtain ⟨l1,a,l2,hl,ha,hnone⟩ := findSome?_eq_some_iff.mp h
  obtain ⟨before,rest,rfl,hbefore,hrest⟩ := filter_eq_append_iff.mp hl
  obtain ⟨skipped,after,rfl,hskipped,hpa,-⟩ := filter_eq_cons_iff.mp hrest
  refine ⟨before++skipped,a,after,by simp,hpa,ha,fun x hx hpx => ?_⟩
  obtain hx | hx := mem_append.mp hx
  · exact hnone x (hbefore ▸ mem_filter.mpr ⟨hx,hpx⟩)
  · exact absurd hpx (hskipped x hx)

lemma filter_of_split {before after : List (Entry w D)} {e : Entry w D} (h : installed = before++e::after)
    (he : e.subnet.contains address = true) : (installed.filter fun e => e.subnet.contains address) =
      (before.filter fun e => e.subnet.contains address)++ e::after.filter fun e => e.subnet.contains address := by
  rw [h,filter_append,filter_cons,if_pos he]

variable {subnet : Subnet w}

lemma specify_of_active {dest : ActiveEntryDest w D} (hcontains : subnet.contains address = true)
    (hdest : activeDest spec (installed.filter fun e => e.subnet = subnet) = some dest)
    (hmax : ∀ e ∈ installed,e.subnet.contains address = true → e.resolvable spec = true →
      e.prefixLen ≤ subnet.prefixLen) : specify installed spec address =
      match dest with
      | .locally device => some ⟨address,device⟩
      | .remotely dest => some dest := by
  have hcases : ∀ f ∈ installed,f.subnet.contains address = true → f.resolvable spec = true →
      f.prefixLen < subnet.prefixLen ∨ f.prefixLen = subnet.prefixLen ∧ f.subnet = subnet := by
    intro f hf hfc hfr
    obtain hlt | heq := (hmax f hf hfc hfr).lt_or_eq
    · exact .inl hlt
    · exact .inr ⟨heq,Subnet.eq_of_contains hfc hcontains heq⟩
  rw [activeDest] at hdest
  split at hdest
  · rename_i device hdevice
    cases hdest
    obtain ⟨before,e,after,hsplit,hsubnet,he,hbefore⟩ := split_of_findSome hdevice
    have hsubnet : e.subnet = subnet := of_decide_eq_true hsubnet
    have hlocal : e.dest = .locally device := by cases h : e.dest <;> simp_all [device?]
    have hlen : e.prefixLen = subnet.prefixLen := by rw [prefixLen,hsubnet]
    rw [specify_of_split (filter_of_split hsplit (hsubnet ▸ hcontains)) (by simp [resolvable,hlocal]) ?_ ?_,hlocal]
    · intro f hf hfr
      obtain ⟨hf,hfc⟩ := mem_filter.mp hf
      obtain hlt | ⟨heq,hfs⟩ := hcases f (hsplit ▸ mem_append_left _ hf) hfc hfr
      · exact .inl (hlen ▸ hlt)
      · exact .inr ⟨heq.trans hlen.symm,by simp [he],hbefore f hf (decide_eq_true hfs)⟩
    · intro f hf hfr
      obtain ⟨hf,hfc⟩ := mem_filter.mp hf
      have hle := hmax f (hsplit ▸ mem_append_right _ (mem_cons_of_mem _ hf)) hfc hfr
      rintro (hlt | ⟨-,-,hnone⟩)
      · omega
      · rw [he] at hnone
        cases hnone
  · rename_i hnodevice
    obtain ⟨d,hd,rfl⟩ := map_eq_some_iff.mp hdest
    obtain ⟨before,e,after,hsplit,hsubnet,he,hbefore⟩ := split_of_findSome hd
    have hsubnet : e.subnet = subnet := of_decide_eq_true hsubnet
    have hlen : e.prefixLen = subnet.prefixLen := by rw [prefixLen,hsubnet]
    obtain ⟨nextHop,hnextHop,hspec⟩ := bind_eq_some_iff.mp he
    have hremote : e.dest = .remotely nextHop := by cases h : e.dest <;> simp_all [nextHop?]
    have hnone : ∀ f ∈ installed,f.subnet = subnet → f.device? = none := fun f hf hfs =>
      findSome?_eq_none_iff.mp hnodevice f (by simp [hf,hfs])
    rw [specify_of_split (filter_of_split hsplit (hsubnet ▸ hcontains))
      (by simp [resolvable,hremote,hspec]) ?_ ?_,hremote]
    · exact hspec
    · intro f hf hfr
      obtain ⟨hf,hfc⟩ := mem_filter.mp hf
      have hfin : f ∈ installed := hsplit ▸ mem_append_left _ hf
      obtain hlt | ⟨heq,hfs⟩ := hcases f hfin hfc hfr
      · exact .inl (hlen ▸ hlt)
      · have hunresolved := hbefore f hf (decide_eq_true hfs)
        have hfnone := hnone f hfin hfs
        cases h : f.dest <;> simp_all [device?,nextHop?,resolvable]
    · intro f hf hfr
      obtain ⟨hf,hfc⟩ := mem_filter.mp hf
      have hfin : f ∈ installed := hsplit ▸ mem_append_right _ (mem_cons_of_mem _ hf)
      rintro (hlt | ⟨heq,hsome,-⟩)
      · have hle := hmax f hfin hfc hfr
        omega
      · have hfs := Subnet.eq_of_contains hfc hcontains (heq.symm.trans hlen)
        rw [hnone f hfin hfs] at hsome
        cases hsome

/-- The destination that a search of the installed entries gives. -/
def found (installed : List (Entry w D)) (address : SpecifiedAddr w) : Option (Destination w D) :=
  match installedLookup installed address with
  | .ok dest => dest
  | .error _ => none

lemma installedLookup_found (address : SpecifiedAddr w) :
    installedLookup installed address = .ok (found installed address) := by
  have hfuel : unobserved installed ∅ < installed.length+1 := by simp [unobserved]
  obtain ⟨dest,observed',hhelper,-⟩ := installedLookupHelper_returns _ address hfuel
  have hdest : installedLookup installed address = .ok dest := by
    simp only [installedLookup,hhelper,ok_bind,pure_eq]
  rw [found,hdest]

lemma lookup_of_regenActive {table : ForwardingTable w D} {loopback : Subnet w}
    (hregen : regenActive table.installed = .ok table) (hordered : Ordered table.installed)
    (hspec : IsResolution table.installed spec) (hcycle : NoCycle table.installed spec)
    (hloopback : loopback.contains address = false) : table.lookup loopback address = .ok (spec address) := by
  obtain ⟨active,hloop,hactive⟩ := @regenLoop_eq _ _ table.installed spec (fun e he nextHop hdest => by
      have hfuel : unobserved table.installed ∅ < table.installed.length+1 := by simp [unobserved]
      obtain ⟨observed',hhelper,-⟩ := finds_of_nextHop hspec hcycle hordered he hdest _ ∅ hfuel (by simp [Marked])
      simp only [installedLookup,hhelper,ok_bind,pure_eq]) table.installed []
  have hactive : ∀ subnet dest,⟨subnet,dest⟩ ∈ table.active ↔ (∃ e ∈ table.installed,e.subnet = subnet) ∧
        activeDest spec (table.installed.filter fun e => e.subnet = subnet) = some dest := by
    rw [regenActive,hloop,ok_bind,pure_eq] at hregen
    have htable := Except.ok.inj hregen
    intro subnet dest
    rw [← htable]
    simpa using hactive subnet dest
  have hhas : ∀ e ∈ table.installed,e.resolvable spec = true → ∃ d,⟨e.subnet,d⟩ ∈ table.active := by
    intro e he hr
    obtain ⟨d,hd⟩ := ne_none_iff_exists'.mp (activeDest_ne_none
      (show e ∈ table.installed.filter fun f => f.subnet = e.subnet by simp [he]) hr)
    exact ⟨d,(hactive e.subnet d).mpr ⟨⟨e,he,rfl⟩,hd⟩⟩
  rw [ForwardingTable.lookup,require_of (by simp [hloopback]),ok_bind,hspec address]
  obtain ⟨hnil,hmax⟩ | ⟨⟨subnet,dest⟩,hmem,hmax,hall⟩ := maxByPrefix_cases
    (table.active.filter fun e => e.subnet.contains address)
  · rw [hmax,specify_of_nil]
    · rfl
    · rw [matching,filter_eq_nil_iff]
      intro e he hr
      obtain ⟨he,hcontains⟩ := mem_filter.mp he
      obtain ⟨d,hd⟩ := hhas e he hr
      exact filter_eq_nil_iff.mp hnil _ hd hcontains
  · obtain ⟨hmem,hcontains⟩ := mem_filter.mp hmem
    have hdest := ((hactive subnet dest).mp hmem).2
    rw [hmax,specify_of_active hcontains hdest]
    · cases dest <;> rfl
    · intro e he hec hr
      obtain ⟨d,hd⟩ := hhas e he hr
      exact hall _ (mem_filter.mpr ⟨hd,hec⟩)

inductive Change (w : ℕ) (D : Type)
  | addRoute (subnet : Subnet w) (nextHop : SpecifiedAddr w)
  | addDeviceRoute (subnet : Subnet w) (device : D)
  | delRoute (subnet : Subnet w)
  | delNextHopRoute (subnet : Subnet w) (nextHop : SpecifiedAddr w)

namespace ForwardingTable

structure Good (table : ForwardingTable w D) : Prop where
  nodup : table.installed.Nodup
  regen : regenActive table.installed = .ok table

lemma regenActive_good (h : installed.Nodup) : ∃ table,regenActive installed = .ok table ∧ table.Good := by
  obtain ⟨active,hloop,-⟩ := @regenLoop_eq _ _ installed (found installed)
    (fun _ _ nextHop _ => installedLookup_found nextHop) installed []
  have hregen : regenActive installed = .ok ⟨active,installed⟩ := by rw [regenActive,hloop,ok_bind,pure_eq]
  exact ⟨_,hregen,h,hregen⟩

variable {table : ForwardingTable w D}

lemma Good.delRoute (h : table.Good) (subnet : Subnet w) : ∃ r,table.delRoute subnet = .ok r ∧ r.1.Good := by
  rw [ForwardingTable.delRoute]
  split_ifs
  · exact ⟨_,rfl,h⟩
  · obtain ⟨table',hregen,hgood⟩ := regenActive_good (h.nodup.filter fun e => decide (e.subnet ≠ subnet))
    rw [hregen,ok_bind,pure_eq]
    exact ⟨_,rfl,hgood⟩

variable [DecidableEq D]

def change (table : ForwardingTable w D) : Change w D → Except Fault (Changed w D)
  | .addRoute subnet nextHop => table.addRoute subnet nextHop
  | .addDeviceRoute subnet device => table.addDeviceRoute subnet device
  | .delRoute subnet => table.delRoute subnet
  | .delNextHopRoute subnet nextHop => table.delNextHopRoute subnet nextHop

def step (table : ForwardingTable w D) (c : Change w D) : Option (ForwardingTable w D) :=
  match table.change c with
  | .ok (table',_) => some table'
  | .error _ => none

def Reached (w : ℕ) (D : Type) [DecidableEq D] : ForwardingTable w D → Prop :=
  Transition.Reachable (· = new) (fun _ (_ : Change w D) => True) step

lemma Good.addEntry (h : table.Good) (entry : Entry w D) : ∃ r,table.addEntry entry = .ok r ∧ r.1.Good := by
  rw [ForwardingTable.addEntry]
  by_cases hin : entry ∈ table.installed
  · rw [if_pos hin]
    exact ⟨_,rfl,h⟩
  · obtain ⟨table',hregen,hgood⟩ := @regenActive_good _ _ (table.installed++[entry])
      (nodup_append.mpr ⟨h.nodup,nodup_singleton entry,by
        rintro a ha b hb rfl
        exact hin (mem_singleton.mp hb ▸ ha)⟩)
    rw [if_neg hin,hregen,ok_bind,pure_eq]
    exact ⟨_,rfl,hgood⟩

lemma Good.delEntry (h : table.Good) (entry : Entry w D) : ∃ r,table.delEntry entry = .ok r ∧ r.1.Good := by
  rw [ForwardingTable.delEntry]
  split_ifs with hlen
  · exact ⟨_,rfl,h⟩
  · have hone : table.installed.length- (table.installed.filter fun e => decide (e ≠ entry)).length = 1 := by
      have herase : (table.installed.filter fun e => decide (e ≠ entry)) = table.installed.erase entry := by
        rw [h.nodup.erase_eq_filter]
        refine filter_congr fun e _ => ?_
        rw [bne,decide_not]
        rfl
      have hin : entry ∈ table.installed := by
        by_contra hnot
        rw [herase,erase_of_not_mem hnot] at hlen
        exact hlen rfl
      have hpos := length_pos_of_mem hin
      rw [herase,length_erase_of_mem hin]
      omega
    obtain ⟨table',hregen,hgood⟩ := regenActive_good (h.nodup.filter fun e => decide (e ≠ entry))
    rw [require_of hone,ok_bind,hregen,ok_bind,pure_eq]
    exact ⟨_,rfl,hgood⟩

lemma Good.change (h : table.Good) (c : Change w D) : ∃ r,table.change c = .ok r ∧ r.1.Good := by
  cases c with
  | addRoute subnet nextHop | addDeviceRoute subnet device => exact h.addEntry _
  | delRoute subnet => exact h.delRoute subnet
  | delNextHopRoute subnet nextHop => exact h.delEntry _

lemma Reached.good (h : Reached w D table) : table.Good := by
  refine invariant h ?_ ?_
  · rintro table rfl
    exact ⟨nodup_nil,rfl⟩
  · intro table c table' hgood _ hstep
    obtain ⟨r,hchange,hgood'⟩ := hgood.change c
    rw [step,hchange] at hstep
    cases hstep
    exact hgood'

/-- After any changes, which all return, a lookup is the recursive longest-prefix match if
better entries come first for the next hops. -/
theorem lookup_longest_match (h : Reached w D table) (hordered : Ordered table.installed)
    (hspec : IsResolution table.installed spec) (hcycle : NoCycle table.installed spec)
    {loopback : Subnet w} (hloopback : loopback.contains address = false) :
    (∀ c,∃ r,table.change c = .ok r) ∧ table.lookup loopback address = .ok (spec address) := by
  refine ⟨fun c => ?_,lookup_of_regenActive h.good.regen hordered hspec hcycle hloopback⟩
  obtain ⟨r,hchange,-⟩ := h.good.change c
  exact ⟨r,hchange⟩

section Sample

lemma sampleLink_le : 24 ≤ 32 := by decide

def sampleLink : Change 32 Unit :=
  .addDeviceRoute ⟨0xc0a80100,24,sampleLink_le,by decide⟩ ()

def sampleWide : Change 32 Unit :=
  .addRoute ⟨0x0a000000,8,by decide,by decide⟩ ⟨0xc0a80101,by decide⟩

def sampleNarrow : Change 32 Unit :=
  .addRoute ⟨0x0a010000,16,by decide,by decide⟩ ⟨0xc0a80102,by decide⟩

def sampleFar : Change 32 Unit :=
  .addRoute ⟨0x14000000,8,by decide,by decide⟩ ⟨0x0a010001,by decide⟩

def sampleLoopback : Subnet 32 := ⟨0x7f000000,8,by decide,by decide⟩

def sampleAddress : SpecifiedAddr 32 := ⟨0x14000005,by decide⟩

def sampleRank (e : Entry 32 Unit) : ℕ :=
  if e.subnet.prefixLen = 24 then 0 else if e.subnet.network = 0x14000000 then 2 else 1

instance (installed : List (Entry w D)) : Decidable (Ordered installed) :=
  inferInstanceAs (Decidable (List.Pairwise _ _))

instance (installed : List (Entry w D)) (rank : Entry w D → ℕ) :
    Decidable (Ranked installed rank) :=
  inferInstanceAs (Decidable (∀ e ∈ installed,∀ _,_ → _))

def sampleTable (changes : List (Change 32 Unit)) : ForwardingTable 32 Unit :=
  (run (fun _ _ => True) step new changes).getD new

def sampleOrdered : ForwardingTable 32 Unit := sampleTable [sampleLink,sampleNarrow,sampleWide,sampleFar]

def sampleReversed : ForwardingTable 32 Unit := sampleTable [sampleLink,sampleWide,sampleNarrow,sampleFar]

theorem lookup_longest_match_sample :
    Reached 32 Unit sampleOrdered ∧ sampleOrdered.lookup sampleLoopback sampleAddress =
      .ok (some ⟨⟨0xc0a80102,by decide⟩,()⟩) := by
  obtain ⟨hranked,hbound⟩ : Ranked sampleOrdered.installed sampleRank ∧
      ∀ e ∈ sampleOrdered.installed,sampleRank e < 3 := by decide +kernel
  have hrun : run (fun _ _ => True) step new
      [sampleLink,sampleNarrow,sampleWide,sampleFar] = some sampleOrdered := by decide +kernel
  have hreached : Reached 32 Unit sampleOrdered := run (.start rfl) hrun
  have hlookup := lookup_longest_match hreached (by decide +kernel)
    (isResolution_of_ranked hranked hbound) (noCycle_of_ranked hranked hbound)
    (show sampleLoopback.contains sampleAddress = false by decide +kernel)
  refine ⟨hreached,hlookup.2.trans (congrArg Except.ok ?_)⟩
  decide +kernel

/-- The route over the narrow subnet is lost: its next hop is on the device that the wide
one has already been looked up on. -/
theorem lookup_sibling_lost :
    ∃ spec,Reached 32 Unit sampleReversed ∧ IsResolution sampleReversed.installed spec ∧
      NoCycle sampleReversed.installed spec ∧ sampleLoopback.contains sampleAddress = false ∧
      spec sampleAddress = some ⟨⟨0xc0a80102,by decide⟩,()⟩ ∧ ∃ lost,lost ≠ spec sampleAddress ∧
        sampleReversed.lookup sampleLoopback sampleAddress = .ok lost := by
  obtain ⟨hranked,hbound⟩ : Ranked sampleReversed.installed sampleRank ∧
      ∀ e ∈ sampleReversed.installed,sampleRank e < 3 := by decide +kernel
  have hrun : run (fun _ _ => True) step new
      [sampleLink,sampleWide,sampleNarrow,sampleFar] = some sampleReversed := by decide +kernel
  have hspec : resolution sampleReversed.installed 3 sampleAddress =
      some ⟨⟨0xc0a80102,by decide⟩,()⟩ := by decide +kernel
  refine ⟨_,run (.start rfl) hrun,isResolution_of_ranked hranked hbound,
    noCycle_of_ranked hranked hbound,by decide +kernel,hspec,
    some ⟨⟨0xc0a80101,by decide⟩,()⟩,?_,?_⟩
  · rw [hspec]
    decide
  · rfl

end Sample

end ForwardingTable

/-! Whatever loops the next hops make, a destination that is found for an address is on a link
of its device, and next hops of installed routes lead to it. -/

open Relation

def Forwards (installed : List (Entry w D)) (address nextHop : SpecifiedAddr w) : Prop :=
  ∃ e ∈ installed,e.subnet.contains address = true ∧ e.dest = .remotely nextHop

structure OnLink (installed : List (Entry w D)) (address : SpecifiedAddr w)
    (dest : Destination w D) : Prop where
  reached : ReflTransGen (Forwards installed) address dest.nextHop
  link : ∃ e ∈ installed,e.subnet.contains dest.nextHop = true ∧ e.dest = .locally dest.device

variable {e : Entry w D} {dest : Destination w D}

lemma bestLocal_cases (address : SpecifiedAddr w) (prefixLen : ℕ) (device : D) (best : Option (ℕ × Destination w D)) :
    bestLocal address prefixLen device best = some (prefixLen,⟨address,device⟩) ∨
      bestLocal address prefixLen device best = best := by
  cases best with
  | none => exact .inl rfl
  | some best =>
    rw [bestLocal]
    split_ifs
    · exact .inr rfl
    · exact .inl rfl
    · exact .inr rfl

variable {observed observed' : Finset ℕ}

lemma searchLoop_onLink {resolve : SpecifiedAddr w → Finset ℕ → Except Fault (Option (Destination w D) × Finset ℕ)}
    (hresolve : ∀ nextHop observed observed' dest, resolve nextHop observed = .ok (some dest,observed') → OnLink installed nextHop dest)
    {todo : List (Entry w D × ℕ)} (htodo : ∀ p ∈ todo,p.1 ∈ installed ∧ p.1.subnet.contains address = true)
    {best best' : Option (ℕ × Destination w D)} (hbest : ∀ b,best = some b → OnLink installed address b.2)
    (h : searchLoop resolve address todo observed best = .ok (best',observed')) :
    ∀ b,best' = some b → OnLink installed address b.2 := by
  induction todo generalizing observed best with
  | nil =>
    cases h
    exact hbest
  | cons p rest ih =>
    obtain ⟨e,i⟩ := p
    obtain ⟨he,hcontains⟩ := htodo (e,i) mem_cons_self
    have hrest : ∀ p ∈ rest,p.1 ∈ installed ∧ p.1.subnet.contains address = true := fun p hp =>
      htodo p (mem_cons_of_mem _ hp)
    rw [searchLoop] at h
    by_cases hobserved : i ∈ observed
    · rw [if_pos hobserved] at h
      exact ih hrest hbest h
    · rw [if_neg hobserved] at h
      cases hdest : e.dest with
      | locally device =>
        simp only [hdest] at h
        refine ih hrest ?_ h
        obtain heq | heq := bestLocal_cases address e.subnet.prefixLen device best
        · rw [heq]
          rintro b ⟨⟩
          exact ⟨.refl,e,he,hcontains,hdest⟩
        · rwa [heq]
      | remotely nextHop =>
        simp only [hdest] at h
        split_ifs at h
        · exact ih hrest hbest h
        · obtain ⟨⟨found,observed1⟩,hfound,h⟩ := bind_eq_ok.mp h
          refine ih hrest ?_ h
          cases found with
          | none => exact hbest
          | some dest =>
            rintro b ⟨⟩
            have hlink := hresolve _ _ _ _ hfound
            exact ⟨hlink.reached.head ⟨e,he,hcontains,hdest⟩,hlink.link⟩

lemma installedLookupHelper_onLink (fuel : ℕ)
    (h : installedLookupHelper installed fuel address observed = .ok (some dest,observed')) :
    OnLink installed address dest := by
  induction fuel generalizing address observed observed' dest with
  | zero => cases h
  | succ fuel ih =>
    obtain ⟨⟨best,observed1⟩,hloop,h⟩ := bind_eq_ok.mp h
    obtain ⟨hbest,-⟩ := Prod.mk.inj (pure_eq_ok.mp h)
    obtain ⟨b,rfl,rfl⟩ := map_eq_some_iff.mp hbest
    refine searchLoop_onLink (fun _ _ _ _ => ih) (fun p hp => ?_) (fun _ hb => by cases hb) hloop b rfl
    obtain ⟨hget,hcontains⟩ := candidates_getElem hp
    exact ⟨mem_of_getElem? hget,hcontains⟩

/-- An active route comes from an installed one of its subnet: one for its device, or one whose
next hop leads to its destination. -/
def ActiveEntry.Sound (installed : List (Entry w D)) (a : ActiveEntry w D) : Prop :=
  ∃ e ∈ installed,e.subnet = a.subnet ∧
    match a.dest with
    | .locally device => e.dest = .locally device
    | .remotely dest => ∃ nextHop,e.dest = .remotely nextHop ∧ OnLink installed nextHop dest

lemma activeDest_sound {dest : ActiveEntryDest w D}
    (h : activeDest (found installed) (installed.filter fun e => e.subnet = subnet) = some dest) :
    ActiveEntry.Sound installed ⟨subnet,dest⟩ := by
  rw [activeDest] at h
  cases hdevice : (installed.filter fun e => e.subnet = subnet).findSome? device? with
  | some device =>
    rw [hdevice] at h
    cases h
    obtain ⟨e,he,hsome⟩ := exists_of_findSome?_eq_some hdevice
    obtain ⟨he,hsubnet⟩ := mem_filter.mp he
    refine ⟨e,he,of_decide_eq_true hsubnet,?_⟩
    cases hdest : e.dest with
    | locally device' =>
      simp only [device?,hdest,some.injEq] at hsome
      rw [hsome]
    | remotely nextHop => simp [device?,hdest] at hsome
  | none =>
    rw [hdevice] at h
    obtain ⟨d,hd,rfl⟩ := map_eq_some_iff.mp h
    obtain ⟨e,he,hsome⟩ := exists_of_findSome?_eq_some hd
    obtain ⟨he,hsubnet⟩ := mem_filter.mp he
    refine ⟨e,he,of_decide_eq_true hsubnet,?_⟩
    cases hdest : e.dest with
    | locally device => simp [nextHop?,hdest] at hsome
    | remotely nextHop =>
      simp only [nextHop?,hdest,bind_some] at hsome
      have hlookup := @installedLookup_found _ _ installed nextHop
      rw [hsome] at hlookup
      obtain ⟨⟨dest',observed⟩,hhelper,heq⟩ := bind_eq_ok.mp hlookup
      obtain rfl := pure_eq_ok.mp heq
      exact ⟨nextHop,rfl,installedLookupHelper_onLink _ hhelper⟩

lemma regenLoop_nodup {todo : List (Entry w D)} {subnets : List (Subnet w)}
    {active : List (ActiveEntry w D)} (h : regenLoop installed todo subnets = .ok active) :
    (active.map ActiveEntry.subnet).Nodup ∧ ∀ a ∈ active,a.subnet ∉ subnets := by
  induction todo generalizing subnets active with
  | nil =>
    cases h
    exact ⟨nodup_nil,by simp⟩
  | cons e rest ih =>
    rw [regenLoop] at h
    split_ifs at h with hin
    · exact ih h
    · obtain ⟨dest,-,h⟩ := bind_eq_ok.mp h
      obtain ⟨active',hrest,h⟩ := bind_eq_ok.mp h
      obtain rfl := pure_eq_ok.mp h
      obtain ⟨hnodup,hnot⟩ := ih hrest
      have hnot' : ∀ a ∈ active',a.subnet ∉ subnets := fun a ha hmem =>
        hnot a ha (mem_cons_of_mem _ hmem)
      cases dest with
      | none => exact ⟨hnodup,hnot'⟩
      | some dest =>
        refine ⟨nodup_cons.mpr ⟨fun hmem => ?_,hnodup⟩,forall_mem_cons.mpr ⟨hin,hnot'⟩⟩
        obtain ⟨a,ha,heq⟩ := mem_map.mp hmem
        exact hnot a ha (heq ▸ mem_cons_self)

namespace ForwardingTable

variable {table : ForwardingTable w D}

lemma lookup_onLink (h : ∀ a ∈ table.active,a.Sound installed) {loopback : Subnet w}
    (hlookup : table.lookup loopback address = .ok (some dest)) : OnLink installed address dest := by
  obtain ⟨-,-,hlookup⟩ := bind_eq_ok.mp hlookup
  obtain ⟨-,hmax⟩ | ⟨⟨subnet,active⟩,hmem,hmax,-⟩ := maxByPrefix_cases
    (table.active.filter fun e => e.subnet.contains address)
  · rw [hmax] at hlookup
    cases hlookup
  · rw [hmax] at hlookup
    obtain ⟨hmem,hcontains⟩ := mem_filter.mp hmem
    obtain ⟨e,he,rfl,hdest⟩ := h _ hmem
    cases active with
    | locally device =>
      cases hlookup
      exact ⟨.refl,e,he,hcontains,hdest⟩
    | remotely dest' =>
      cases hlookup
      obtain ⟨nextHop,hdest,hlink⟩ := hdest
      exact ⟨hlink.reached.head ⟨e,he,hcontains,hdest⟩,hlink.link⟩

/-- The active routes of any installed ones, also of those with loops. -/
theorem regenActive_sound (installed : List (Entry w D)) :
    ∃ table,regenActive installed = .ok table ∧ table.installed = installed ∧
      (table.active.map ActiveEntry.subnet).Nodup ∧ (∀ a ∈ table.active,a.Sound installed) ∧
      ∀ loopback address dest,table.lookup loopback address = .ok (some dest) →
        OnLink installed address dest := by
  obtain ⟨active,hloop,hactive⟩ := @regenLoop_eq _ _ installed (found installed)
    (fun _ _ nextHop _ => installedLookup_found nextHop) installed []
  have hsound : ∀ a ∈ active,a.Sound installed := fun a ha =>
    activeDest_sound ((hactive a.subnet a.dest).mp ha).2.2
  refine ⟨⟨active,installed⟩,?_,rfl,(regenLoop_nodup hloop).1,hsound,
    fun loopback address dest hlookup => lookup_onLink hsound hlookup⟩
  rw [regenActive,hloop,ok_bind,pure_eq]

end ForwardingTable

end Fuchsia.Netstack.Forwarding
