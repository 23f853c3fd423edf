import Fuchsia.Lib.Fallible

/-! The forwarding table of an IP version with addresses of `w` bits (`ip/forwarding.rs`). -/
namespace Fuchsia.Netstack.Forwarding

section

open Fallible

variable {w : ℕ} {D : Type}

def mask (addr : BitVec w) (bits : ℕ) : BitVec w :=
  if bits = 0 then 0 else addr &&& BitVec.allOnes w <<< (w-bits)

structure Subnet (w : ℕ) where
  network : BitVec w
  prefixLen : ℕ
  bounded : prefixLen ≤ w
  masked : network = mask network prefixLen
  deriving DecidableEq

structure SpecifiedAddr (w : ℕ) where
  get : BitVec w
  specified : get ≠ 0
  deriving DecidableEq

def Subnet.contains (subnet : Subnet w) (addr : SpecifiedAddr w) : Bool :=
  subnet.network = mask addr.get subnet.prefixLen

inductive EntryDest (w : ℕ) (D : Type)
  | locally (device : D)
  | remotely (nextHop : SpecifiedAddr w)
  deriving DecidableEq

structure Entry (w : ℕ) (D : Type) where
  subnet : Subnet w
  dest : EntryDest w D
  deriving DecidableEq

structure Destination (w : ℕ) (D : Type) where
  nextHop : SpecifiedAddr w
  device : D
  deriving DecidableEq

inductive ActiveEntryDest (w : ℕ) (D : Type)
  | locally (device : D)
  | remotely (dest : Destination w D)
  deriving DecidableEq

structure ActiveEntry (w : ℕ) (D : Type) where
  subnet : Subnet w
  dest : ActiveEntryDest w D
  deriving DecidableEq

structure ForwardingTable (w : ℕ) (D : Type) where
  active : List (ActiveEntry w D)
  installed : List (Entry w D)
  deriving DecidableEq

inductive Fault
  | fuel
  | panic
  deriving DecidableEq,Repr

def bestLocal (address : SpecifiedAddr w) (prefixLen : ℕ) (device : D) :
    Option (ℕ × Destination w D) → Option (ℕ × Destination w D)
  | none => some (prefixLen,⟨address,device⟩)
  | some best =>
    if best.1 > prefixLen then some best
    else if best.1 < prefixLen ∨ best.2.nextHop ≠ address then some (prefixLen,⟨address,device⟩)
    else some best

/-- The loop of `installed_lookup_helper` over the entries that contain the address, with
their indices. The vector `observed` is the set of the indices that are marked in it. -/
def searchLoop (resolve : SpecifiedAddr w → Finset ℕ →
      Except Fault (Option (Destination w D) × Finset ℕ)) (address : SpecifiedAddr w) :
    List (Entry w D × ℕ) → Finset ℕ → Option (ℕ × Destination w D) →
      Except Fault (Option (ℕ × Destination w D) × Finset ℕ)
  | [],observed,best => .ok (best,observed)
  | (e,i)::rest,observed,best =>
    if i ∈ observed then searchLoop resolve address rest observed best
    else
      match e.dest with
      | .locally device =>
        searchLoop resolve address rest (insert i observed)
          (bestLocal address e.subnet.prefixLen device best)
      | .remotely nextHop =>
        if best.any fun best => best.1 ≥ e.subnet.prefixLen then
          searchLoop resolve address rest (insert i observed) best
        else do
          let (dest,observed) ← resolve nextHop (insert i observed)
          searchLoop resolve address rest observed
            ((dest.map fun dest => (e.subnet.prefixLen,dest)).or best)

def candidates (installed : List (Entry w D)) (address : SpecifiedAddr w) :
    List (Entry w D × ℕ) :=
  installed.zipIdx.filter fun (e,_) => e.subnet.contains address

def installedLookupHelper (installed : List (Entry w D)) : ℕ → SpecifiedAddr w → Finset ℕ →
    Except Fault (Option (Destination w D) × Finset ℕ)
  | 0,_,_ => .error .fuel
  | fuel+1,address,observed => do
    let (best,observed) ← searchLoop (installedLookupHelper installed fuel) address
      (candidates installed address) observed none
    return (best.map Prod.snd,observed)

/-- Each level of the search marks another entry. -/
def installedLookup (installed : List (Entry w D)) (address : SpecifiedAddr w) :
    Except Fault (Option (Destination w D)) := do
  let (dest,_) ← installedLookupHelper installed (installed.length+1) address ∅
  return dest

/-- The loop of `regen_active_helper` over the entries of the subnet. -/
def regenHelperLoop (installed : List (Entry w D)) : List (Entry w D) →
    Option (ActiveEntryDest w D) → Except Fault (Option (ActiveEntryDest w D))
  | [],bestRemote => .ok bestRemote
  | e::rest,bestRemote =>
    match e.dest with
    | .locally device => .ok (some (.locally device))
    | .remotely nextHop =>
      if bestRemote.isSome then regenHelperLoop installed rest bestRemote
      else do
        let dest ← installedLookup installed nextHop
        regenHelperLoop installed rest (dest.map .remotely)

def regenActiveHelper (installed : List (Entry w D)) (subnet : Subnet w) :
    Except Fault (Option (ActiveEntryDest w D)) :=
  regenHelperLoop installed (installed.filter fun e => e.subnet = subnet) none

/-- The entries that are left once the subnets in `subnets` are skipped. -/
def regenLoop (installed : List (Entry w D)) : List (Entry w D) → List (Subnet w) →
    Except Fault (List (ActiveEntry w D))
  | [],_ => .ok []
  | e::rest,subnets =>
    if e.subnet ∈ subnets then regenLoop installed rest subnets
    else do
      let dest ← regenActiveHelper installed e.subnet
      let active ← regenLoop installed rest (e.subnet::subnets)
      return (dest.map fun dest => ⟨e.subnet,dest⟩).toList++active

def regenActive (installed : List (Entry w D)) : Except Fault (ForwardingTable w D) := do
  let active ← regenLoop installed installed []
  return ⟨active,installed⟩

def longerOrLater (best : Option (ActiveEntry w D)) (e : ActiveEntry w D) : Option (ActiveEntry w D) :=
  match best with
  | none => some e
  | some best => if best.subnet.prefixLen ≤ e.subnet.prefixLen then some e else some best

/-- `max_by_key`: the last of the active entries with the longest prefix. -/
def maxByPrefix (active : List (ActiveEntry w D)) : Option (ActiveEntry w D) :=
  active.foldl longerOrLater none

namespace ForwardingTable

def new : ForwardingTable w D := ⟨[],[]⟩

/-- The destination; the assertion about the loopback subnet comes first. -/
def lookup (table : ForwardingTable w D) (loopback : Subnet w) (address : SpecifiedAddr w) :
    Except Fault (Option (Destination w D)) := do
  require .panic (¬loopback.contains address)
  match maxByPrefix (table.active.filter fun e => e.subnet.contains address) with
  | some ⟨_,.locally device⟩ => return some ⟨address,device⟩
  | some ⟨_,.remotely dest⟩ => return some dest
  | none => return none

inductive RouteError
  | exists
  | notFound
  deriving DecidableEq,Repr

variable [DecidableEq D]

abbrev Changed (w : ℕ) (D : Type) := ForwardingTable w D × Except RouteError Unit

def addEntry (table : ForwardingTable w D) (entry : Entry w D) : Except Fault (Changed w D) :=
  if entry ∈ table.installed then .ok (table,.error .exists)
  else do
    let table ← regenActive (table.installed++[entry])
    return (table,.ok ())

def addRoute (table : ForwardingTable w D) (subnet : Subnet w) (nextHop : SpecifiedAddr w) :
    Except Fault (Changed w D) :=
  table.addEntry ⟨subnet,.remotely nextHop⟩

def addDeviceRoute (table : ForwardingTable w D) (subnet : Subnet w) (device : D) :
    Except Fault (Changed w D) :=
  table.addEntry ⟨subnet,.locally device⟩

def delRoute (table : ForwardingTable w D) (subnet : Subnet w) : Except Fault (Changed w D) :=
  let installed := table.installed.filter fun e => e.subnet ≠ subnet
  if table.installed.length = installed.length then .ok (table,.error .notFound)
  else do
    let table ← regenActive installed
    return (table,.ok ())

def delEntry (table : ForwardingTable w D) (entry : Entry w D) : Except Fault (Changed w D) :=
  let installed := table.installed.filter fun e => e ≠ entry
  if table.installed.length = installed.length then .ok (table,.error .notFound)
  else do
    require .panic (table.installed.length-installed.length = 1)
    let table ← regenActive installed
    return (table,.ok ())

def delNextHopRoute (table : ForwardingTable w D) (subnet : Subnet w) (nextHop : SpecifiedAddr w) :
    Except Fault (Changed w D) :=
  table.delEntry ⟨subnet,.remotely nextHop⟩

end ForwardingTable

/-! Recursive longest-prefix match: what the table is for. -/

open Entry List

namespace Entry

def prefixLen (e : Entry w D) : ℕ := e.subnet.prefixLen

def device? (e : Entry w D) : Option D :=
  match e.dest with
  | .locally device => some device
  | .remotely _ => none

def nextHop? (e : Entry w D) : Option (SpecifiedAddr w) :=
  match e.dest with
  | .locally _ => none
  | .remotely nextHop => some nextHop

def resolvable (spec : SpecifiedAddr w → Option (Destination w D)) (e : Entry w D) : Bool :=
  match e.dest with
  | .locally _ => true
  | .remotely nextHop => (spec nextHop).isSome

def Better (f e : Entry w D) : Prop := e.prefixLen < f.prefixLen ∨
    e.prefixLen = f.prefixLen ∧ f.device?.isSome = true ∧ e.device? = none

instance (f e : Entry w D) : Decidable (Better f e) := inferInstanceAs (Decidable (_ ∨ _))

def Precedes (e f : Entry w D) : Prop := f.Better e → e.device?.isSome = true ∧ f.device?.isSome = true

instance (e f : Entry w D) : Decidable (Precedes e f) := inferInstanceAs (Decidable (_ → _))

end Entry

def matching (installed : List (Entry w D)) (spec : SpecifiedAddr w → Option (Destination w D))
    (address : SpecifiedAddr w) : List (Entry w D) :=
  (installed.filter fun e => e.subnet.contains address).filter fun e => e.resolvable spec

def longest (installed : List (Entry w D)) (spec : SpecifiedAddr w → Option (Destination w D))
    (address : SpecifiedAddr w) : List (Entry w D) :=
  (matching installed spec address).filter fun e =>
    ∀ f ∈ matching installed spec address,f.prefixLen ≤ e.prefixLen

/-- The destination of an address, given those of the next hops: the first device route of
the greatest prefix, or else what the first next hop of that prefix resolves to. -/
def specify (installed : List (Entry w D)) (spec : SpecifiedAddr w → Option (Destination w D))
    (address : SpecifiedAddr w) : Option (Destination w D) :=
  match (longest installed spec address).findSome? device? with
  | some device => some ⟨address,device⟩
  | none => ((longest installed spec address).head?.bind nextHop?).bind spec

/-- The recursive specification. -/
def IsResolution (installed : List (Entry w D))
    (spec : SpecifiedAddr w → Option (Destination w D)) : Prop :=
  ∀ address,spec address = specify installed spec address

def Consulted (installed : List (Entry w D)) (spec : SpecifiedAddr w → Option (Destination w D))
    (nextHop address : SpecifiedAddr w) : Prop :=
  ∃ e ∈ installed,e.dest = .remotely nextHop ∧ e.subnet.contains address = true ∧
    ∀ f ∈ installed,f.subnet.contains address = true → f.resolvable spec = true → ¬f.Better e

/-- Going from next hop to next hop comes to an end. -/
def NoCycle (installed : List (Entry w D)) (spec : SpecifiedAddr w → Option (Destination w D)) :
    Prop :=
  WellFounded (Consulted installed spec)

/-- Among the entries for the next hop of a route, those that are better come first; device routes may
stand in any order among themselves. -/
def Ordered (installed : List (Entry w D)) : Prop :=
  installed.Pairwise fun e f => ∀ g ∈ installed,∀ nextHop,g.nextHop? = some nextHop →
    e.subnet.contains nextHop = true → f.subnet.contains nextHop = true → e.Precedes f

variable {installed : List (Entry w D)} {spec : SpecifiedAddr w → Option (Destination w D)}
  {address : SpecifiedAddr w}

lemma specify_of_nil (h : matching installed spec address = []) : specify installed spec address = none := by
  simp [specify,longest,h]

variable {e : Entry w D} {before after : List (Entry w D)}

lemma longest_of_split (h : (installed.filter fun e => e.subnet.contains address) = before++e::after)
    (he : e.resolvable spec = true) (hmax : ∀ f ∈ before++after,f.resolvable spec = true → f.prefixLen ≤ e.prefixLen) :
    ∃ before' after',longest installed spec address = before'++e::after' ∧
      (∀ f ∈ before',f ∈ before ∧ f.resolvable spec = true ∧ f.prefixLen = e.prefixLen) ∧
      ∀ f ∈ after',f ∈ after ∧ f.resolvable spec = true ∧ f.prefixLen = e.prefixLen := by
  have hmatching : matching installed spec address =
      before.filter (fun e => e.resolvable spec)++e::after.filter fun e => e.resolvable spec := by
    rw [matching,h,filter_append,filter_cons_of_pos he]
  have hle : ∀ f ∈ matching installed spec address,f.prefixLen ≤ e.prefixLen := by
    intro f hf
    simp only [hmatching,mem_append,mem_cons,mem_filter] at hf
    obtain ⟨hf,hr⟩ | rfl | ⟨hf,hr⟩ := hf
    · exact hmax f (mem_append_left _ hf) hr
    · exact le_rfl
    · exact hmax f (mem_append_right _ hf) hr
  have heq : ∀ f ∈ matching installed spec address,(∀ g ∈ matching installed spec address,g.prefixLen ≤ f.prefixLen) →
        f.prefixLen = e.prefixLen := fun f hf hall =>
    le_antisymm (hle f hf) (hall e (by simp [hmatching]))
  refine ⟨(before.filter fun e => e.resolvable spec).filter fun f =>
      ∀ g ∈ matching installed spec address,g.prefixLen ≤ f.prefixLen,
    (after.filter fun e => e.resolvable spec).filter fun f =>
      ∀ g ∈ matching installed spec address,g.prefixLen ≤ f.prefixLen,?_,?_,?_⟩
  · rw [longest]
    conv_lhs => rw [hmatching]
    rw [filter_append,filter_cons_of_pos (by simpa [← hmatching] using hle)]
    simp only [hmatching]
  all_goals
    intro f hf
    simp only [mem_filter,decide_eq_true_eq] at hf
    exact ⟨hf.1.1,hf.1.2,heq f (by simp [hmatching,hf.1]) hf.2⟩

lemma specify_of_split (h : (installed.filter fun e => e.subnet.contains address) = before++e::after)
    (he : e.resolvable spec = true) (hbefore : ∀ f ∈ before,f.resolvable spec = true → e.Better f)
    (hafter : ∀ f ∈ after,f.resolvable spec = true → ¬f.Better e) : specify installed spec address =
      match e.dest with
      | .locally device => some ⟨address,device⟩
      | .remotely nextHop => spec nextHop := by
  have hmax : ∀ f ∈ before++after,f.resolvable spec = true → f.prefixLen ≤ e.prefixLen := by
    intro f hf hr
    obtain hf | hf := mem_append.mp hf
    · obtain hlt | ⟨heq,-⟩ := hbefore f hf hr
      · exact hlt.le
      · exact heq.le
    · exact not_lt.mp fun hlt => hafter f hf hr (.inl hlt)
  obtain ⟨before',after',hlongest,hbefore',hafter'⟩ := longest_of_split h he hmax
  have hworse : ∀ f ∈ before',e.device?.isSome = true ∧ f.device? = none := by
    intro f hf
    obtain ⟨hf,hr,heq⟩ := hbefore' f hf
    obtain hlt | ⟨-,hworse⟩ := hbefore f hf hr
    · exact absurd heq hlt.ne
    · exact hworse
  have hnone : before'.findSome? device? = none := findSome?_eq_none_iff.mpr fun f hf => (hworse f hf).2
  rw [specify,hlongest,findSome?_append,hnone,Option.none_or,findSome?_cons]
  cases hdest : e.dest with
  | locally device => simp [device?,hdest]
  | remotely nextHop =>
    have hdevice : e.device? = none := by simp [device?,hdest]
    have hnil : before' = [] := by
      refine eq_nil_iff_forall_not_mem.mpr fun f hf => ?_
      simpa [hdevice] using (hworse f hf).1
    have hafterNone : after'.findSome? device? = none := by
      refine findSome?_eq_none_iff.mpr fun f hf => ?_
      obtain ⟨hf,hr,heq⟩ := hafter' f hf
      cases hf' : f.device? with
      | none => rfl
      | some device => exact absurd (.inr ⟨heq.symm,by simp [hf'],hdevice⟩) (hafter f hf hr)
    rw [hdevice,hafterNone,hnil]
    simp [nextHop?,hdest]

variable {spec' : SpecifiedAddr w → Option (Destination w D)}

lemma specify_congr (h : ∀ e ∈ installed,e.subnet.contains address = true → ∀ nextHop,
      e.nextHop? = some nextHop → spec nextHop = spec' nextHop) :
    specify installed spec address = specify installed spec' address := by
  have hmatching : matching installed spec address = matching installed spec' address := by
    refine filter_congr fun e he => ?_
    cases hdest : e.dest with
    | locally device => simp [Entry.resolvable,hdest]
    | remotely nextHop =>
      have := h e (mem_filter.mp he).1 (mem_filter.mp he).2 nextHop (by simp [Entry.nextHop?,hdest])
      simp [Entry.resolvable,hdest,this]
  have hlongest : longest installed spec address = longest installed spec' address := by
    rw [longest,longest,hmatching]
  rw [specify,specify,hlongest]
  cases hhead : (longest installed spec' address).head? with
  | none => rfl
  | some e =>
    have he := mem_of_mem_head? hhead
    rw [longest,matching,mem_filter,mem_filter,mem_filter] at he
    cases hnextHop : e.nextHop? with
    | none => simp [hnextHop]
    | some nextHop =>
      simp [hnextHop,h e he.1.1.1 he.1.1.2 nextHop hnextHop]

def resolution (installed : List (Entry w D)) : ℕ → SpecifiedAddr w → Option (Destination w D)
  | 0 => fun _ => none
  | k+1 => specify installed (resolution installed k)

section Ranked

variable {rank : Entry w D → ℕ}

def Ranked (installed : List (Entry w D)) (rank : Entry w D → ℕ) : Prop :=
  ∀ e ∈ installed,∀ nextHop,e.nextHop? = some nextHop → ∀ f ∈ installed,
    f.subnet.contains nextHop = true → rank f < rank e

section

variable (h : Ranked installed rank)
include h

variable {k : ℕ}

lemma resolution_succ (hk : ∀ e ∈ installed,e.subnet.contains address = true → rank e < k) :
    resolution installed k address = resolution installed (k+1) address := by
  induction k generalizing address with
  | zero =>
    refine (specify_of_nil ?_).symm
    rw [matching,filter_eq_nil_iff]
    intro e he
    rw [mem_filter] at he
    exact absurd (hk e he.1 he.2) (Nat.not_lt_zero _)
  | succ k ih =>
    refine specify_congr fun e he hcontains nextHop hnextHop => ih fun f hf hfc => ?_
    have hrank := h e he nextHop hnextHop f hf hfc
    have he := hk e he hcontains
    omega

lemma isResolution_of_ranked (hk : ∀ e ∈ installed,rank e < k) : IsResolution installed (resolution installed k) :=
  fun _ => resolution_succ h fun e he _ => hk e he

lemma noCycle_of_ranked (hk : ∀ e ∈ installed,rank e < k) : NoCycle installed spec := by
  have hacc : ∀ k address,(∀ e ∈ installed,e.subnet.contains address = true → rank e < k) →
      Acc (Consulted installed spec) address := by
    intro k
    induction k using Nat.strong_induction_on with
    | _ k ih =>
      intro address hk
      refine Acc.intro address ?_
      rintro nextHop ⟨e,he,hdest,hcontains,-⟩
      exact ih (rank e) (hk e he hcontains) nextHop (h e he nextHop (by simp [nextHop?,hdest]))
  exact ⟨fun address => hacc k address fun e he _ => hk e he⟩

end

end Ranked

end

/-! The search of the installed entries: it ends, and where better entries come first it
finds what the specification says. -/

open Fallible Relation Finset Entry Prod

variable {w : ℕ} {D : Type} {installed : List (Entry w D)} {address : SpecifiedAddr w}
  {observed observed' : Finset ℕ}

def unobserved (installed : List (Entry w D)) (observed : Finset ℕ) : ℕ :=
  (range installed.length \ observed).card

lemma unobserved_mono (h : observed ⊆ observed') : unobserved installed observed' ≤ unobserved installed observed :=
  card_le_card (sdiff_subset_sdiff le_rfl h)

variable {i : ℕ}

lemma unobserved_insert (hi : i < installed.length) (hnew : i ∉ observed) :
    unobserved installed (insert i observed) < unobserved installed observed := by
  refine card_lt_card (ssubset_iff_of_subset (sdiff_subset_sdiff le_rfl (subset_insert i observed)) |>.mpr ⟨i,?_,?_⟩)
  · simp [hi,hnew]
  · simp

lemma candidates_getElem {p : Entry w D × ℕ} (h : p ∈ candidates installed address) :
    installed[p.2]? = some p.1 ∧ p.1.subnet.contains address = true := by
  obtain ⟨e,i⟩ := p
  rw [candidates,List.mem_filter] at h
  exact ⟨List.mk_mem_zipIdx_iff_getElem?.mp h.1,h.2⟩

lemma candidates_fst : (candidates installed address).map fst = installed.filter fun e => e.subnet.contains address := by
  rw [candidates]
  conv_rhs => rw [← List.zipIdx_map_fst 0 installed,List.filter_map]
  rfl

variable
  {resolve : SpecifiedAddr w → Finset ℕ → Except Fault (Option (Destination w D) × Finset ℕ)}
  {fuel : ℕ}

lemma searchLoop_returns
    (hresolve : ∀ nextHop observed,unobserved installed observed < fuel →
      ∃ dest observed',resolve nextHop observed = .ok (dest,observed') ∧ observed ⊆ observed')
    (todo : List (Entry w D × ℕ)) (htodo : ∀ p ∈ todo,p.2 < installed.length)
    (hfuel : unobserved installed observed < fuel+1) (best : Option (ℕ × Destination w D)) :
    ∃ best' observed',searchLoop resolve address todo observed best = .ok (best',observed') ∧ observed ⊆ observed' := by
  induction todo generalizing observed best with
  | nil => exact ⟨best,observed,rfl,le_rfl⟩
  | cons p rest ih =>
    obtain ⟨e,i⟩ := p
    have hi : i < installed.length := htodo (e,i) List.mem_cons_self
    have hrest : ∀ p ∈ rest,p.2 < installed.length := fun p hp =>
      htodo p (List.mem_cons_of_mem _ hp)
    rw [searchLoop]
    by_cases hobserved : i ∈ observed
    · rw [if_pos hobserved]
      exact ih hrest hfuel best
    · rw [if_neg hobserved]
      have hsub := subset_insert i observed
      have hless := unobserved_insert hi hobserved
      cases e.dest with
      | locally device =>
        obtain ⟨best',observed',hloop,hsub'⟩ := ih hrest (hless.trans hfuel) _
        exact ⟨best',observed',hloop,hsub.trans hsub'⟩
      | remotely nextHop =>
        dsimp only
        split_ifs
        · obtain ⟨best',observed',hloop,hsub'⟩ := ih hrest (hless.trans hfuel) best
          exact ⟨best',observed',hloop,hsub.trans hsub'⟩
        · obtain ⟨dest,observed1,hdest,hsub1⟩ := hresolve nextHop (insert i observed) (by omega)
          have hfuel1 := (unobserved_mono hsub1).trans_lt (hless.trans hfuel)
          obtain ⟨best',observed',hloop,hsub'⟩ := ih hrest hfuel1 _
          rw [hdest,ok_bind]
          exact ⟨best',observed',hloop,hsub.trans (hsub1.trans hsub')⟩

lemma installedLookupHelper_returns (fuel : ℕ) (address : SpecifiedAddr w)
    (hfuel : unobserved installed observed < fuel) :
    ∃ dest observed',installedLookupHelper installed fuel address observed = .ok (dest,observed') ∧
      observed ⊆ observed' := by
  induction fuel generalizing observed address with
  | zero => omega
  | succ fuel ih =>
    have htodo : ∀ p ∈ candidates installed address,p.2 < installed.length := fun p hp =>
      (List.getElem?_eq_some_iff.mp (candidates_getElem hp).1).1
    obtain ⟨best,observed',hloop,hsub⟩ := @searchLoop_returns _ _ _ address _ _ _
      (fun nextHop _ => ih nextHop) (candidates installed address) htodo hfuel none
    refine ⟨best.map snd,observed',?_,hsub⟩
    simp only [installedLookupHelper,hloop,ok_bind,pure_eq]

lemma bestLocal_of_le {best : ℕ × Destination w D} {device : D} {prefixLen : ℕ} (hle : prefixLen ≤ best.1)
    (hlocal : prefixLen = best.1 → best.2.nextHop = address) : bestLocal address prefixLen device (some best) = some best := by
  rw [bestLocal]
  split_ifs with hgt hnew
  · rfl
  · obtain hlt | hne := hnew
    · exact absurd hle (not_le.mpr hlt)
    · exact absurd (hlocal (le_antisymm hle (not_lt.mp hgt))) hne
  · rfl

lemma searchLoop_settled {best : ℕ × Destination w D} (todo : List (Entry w D × ℕ))
    (h : ∀ p ∈ todo,p.1.prefixLen ≤ best.1 ∧ (p.1.device?.isSome = true → p.1.prefixLen = best.1 → best.2.nextHop = address)) :
    ∃ observed',searchLoop resolve address todo observed (some best) = .ok (some best,observed') := by
  induction todo generalizing observed with
  | nil => exact ⟨observed,rfl⟩
  | cons p rest ih =>
    obtain ⟨e,i⟩ := p
    obtain ⟨hle,hlocal⟩ := h (e,i) List.mem_cons_self
    have ih := fun observed => @ih observed (List.forall_mem_cons.mp h).2
    rw [searchLoop]
    by_cases hobserved : i ∈ observed
    · rw [if_pos hobserved]
      exact ih observed
    · rw [if_neg hobserved]
      cases hdest : e.dest with
      | locally device =>
        have hbest : bestLocal address e.subnet.prefixLen device (some best) = some best :=
          bestLocal_of_le hle (hlocal (by simp [device?,hdest]))
        simp only [hbest]
        exact ih _
      | remotely nextHop =>
        simp only
        rw [if_pos (by simpa using show e.subnet.prefixLen ≤ best.1 from hle)]
        exact ih _

variable {spec : SpecifiedAddr w → Option (Destination w D)}

def Failed (installed : List (Entry w D)) (spec : SpecifiedAddr w → Option (Destination w D))
    (i : ℕ) : Prop :=
  ∃ e nextHop,installed[i]? = some e ∧ e.dest = .remotely nextHop ∧ spec nextHop = none

def Marked (installed : List (Entry w D)) (spec : SpecifiedAddr w → Option (Destination w D))
    (address : SpecifiedAddr w) (observed : Finset ℕ) : Prop :=
  ∀ i ∈ observed,∃ e nextHop,installed[i]? = some e ∧ e.dest = .remotely nextHop ∧
    (spec nextHop = none ∨ ReflTransGen (Consulted installed spec) address nextHop)

variable {nextHop : SpecifiedAddr w} {e : Entry w D}

lemma Marked.failed (hcycle : NoCycle installed spec) (h : Marked installed spec address observed) (hi : i ∈ observed)
    (he : installed[i]? = some e) (hdest : e.dest = .remotely nextHop)
    (hconsulted : Consulted installed spec nextHop address) : spec nextHop = none := by
  obtain ⟨e',nextHop',he',hdest',hend⟩ := h i hi
  rw [he] at he'
  cases he'
  rw [hdest] at hdest'
  cases hdest'
  obtain hnone | hpath := hend
  · exact hnone
  · have hloop : TransGen (Consulted installed spec) nextHop nextHop := TransGen.head' hconsulted hpath
    exact absurd hloop (hcycle.transGen.irrefl.irrefl nextHop)

lemma Marked.enter (h : Marked installed spec address observed) (he : installed[i]? = some e)
    (hdest : e.dest = .remotely nextHop) (hconsulted : Consulted installed spec nextHop address) :
    Marked installed spec nextHop (insert i observed) := by
  intro j hj
  obtain rfl | hj := mem_insert.mp hj
  · exact ⟨e,nextHop,he,hdest,.inr .refl⟩
  · obtain ⟨e',nextHop',he',hdest',hnone | hpath⟩ := h j hj
    · exact ⟨e',nextHop',he',hdest',.inl hnone⟩
    · exact ⟨e',nextHop',he',hdest',.inr (.head hconsulted hpath)⟩

/-- The search for an address that is the next hop of a route finds its destination; if
there is none, it has marked nothing but entries that fail. -/
def Finds (installed : List (Entry w D)) (spec : SpecifiedAddr w → Option (Destination w D))
    (address : SpecifiedAddr w) : Prop :=
  ∀ fuel observed,unobserved installed observed < fuel → Marked installed spec address observed →
    ∃ observed',installedLookupHelper installed fuel address observed = .ok (spec address,observed') ∧
      (spec address = none → ∀ i ∈ observed',i ∈ observed ∨ Failed installed spec i)

lemma candidates_nodup (installed : List (Entry w D)) (address : SpecifiedAddr w) :
    ((candidates installed address).map snd).Nodup := by
  refine (List.filter_sublist.map snd).nodup ?_
  rw [List.zipIdx_map_snd]
  exact List.nodup_range'

def Fresh (observed : Finset ℕ) (todo : List (Entry w D × ℕ)) : Prop :=
  ∀ p ∈ todo,p.1.device?.isSome = true → p.2 ∉ observed

lemma Fresh.insert {todo : List (Entry w D × ℕ)} (h : Fresh observed todo) (hnodup : (((e,i)::todo).map snd).Nodup) :
    Fresh (insert i observed) todo := by
  intro p hp hdevice hin
  obtain heq | hin := mem_insert.mp hin
  · exact (List.nodup_cons.mp hnodup).1 (List.mem_map.mpr ⟨p,hp,heq⟩)
  · exact h p hp hdevice hin

lemma Marked.fresh (h : Marked installed spec address observed) : Fresh observed (candidates installed address) := by
  intro p hp hdevice hin
  obtain ⟨e,nextHop,he,hdest,-⟩ := h p.2 hin
  rw [(candidates_getElem hp).1] at he
  cases he
  simp [device?,hdest] at hdevice

variable {before after : List (Entry w D)} {g : Entry w D} {device : D}

/-- After a device route, where no later next hop has a longer prefix, the loop ends with the first device
route of the greatest prefix. -/
lemma searchLoop_devices (todo : List (Entry w D × ℕ))
    (hlist : (installed.filter fun e => e.subnet.contains address) = before++g::(after++todo.map fst))
    (hdest : g.dest = .locally device) (hbefore : ∀ f ∈ before,f.resolvable spec = true → g.Better f)
    (hafter : ∀ f ∈ after,¬f.Better g) (hremote : ∀ p ∈ todo,p.1.device? = none → p.1.prefixLen ≤ g.prefixLen)
    (hnodup : (todo.map snd).Nodup) (hfresh : Fresh observed todo) :
    ∃ best observed',searchLoop resolve address todo observed (some (g.prefixLen,⟨address,device⟩)) =
      .ok (some best,observed') ∧ specify installed spec address = some best.2 := by
  induction todo generalizing before g device after observed with
  | nil =>
    refine ⟨_,observed,rfl,?_⟩
    rw [List.map_nil,List.append_nil] at hlist
    rw [specify_of_split hlist (by simp [resolvable,hdest]) hbefore fun f hf _ => hafter f hf,hdest]
  | cons p rest ih =>
    obtain ⟨e,i⟩ := p
    obtain ⟨hfirst,hremote⟩ := List.forall_mem_cons.mp hremote
    have hrest : Fresh observed rest := (List.forall_mem_cons.mp hfresh).2
    have hinsert := hrest.insert hnodup
    -- An entry with no longer prefix joins those after the best one.
    have hkeep : e.prefixLen ≤ g.prefixLen → ∀ {observed},Fresh observed rest →
        ∃ best observed',searchLoop resolve address rest observed (some (g.prefixLen,⟨address,device⟩)) =
          .ok (some best,observed') ∧ specify installed spec address = some best.2 := by
      intro hle observed hfresh
      have hworse : ¬e.Better g := by simp [Entry.Better,device?,hdest,not_lt.mpr hle]
      exact ih (by simpa using hlist : _ = before++g::((after++[e])++rest.map fst)) hdest hbefore
        (List.forall_mem_append.mpr ⟨hafter,List.forall_mem_singleton.mpr hworse⟩) hremote hnodup.of_cons hfresh
    rw [searchLoop]
    cases he : e.dest with
    | remotely nextHop =>
      have hle : e.prefixLen ≤ g.prefixLen := hfirst (by simp [device?,he])
      by_cases hin : i ∈ observed
      · rw [if_pos hin]
        exact hkeep hle hrest
      · rw [if_neg hin]
        simp only
        rw [if_pos (by simpa using show e.subnet.prefixLen ≤ g.prefixLen from hle)]
        exact hkeep hle hinsert
    | locally device' =>
      rw [if_neg (hfresh (e,i) List.mem_cons_self (by simp [device?,he]))]
      obtain hlt | hle := lt_or_ge g.prefixLen e.prefixLen
      · have hbest : bestLocal address e.subnet.prefixLen device' (some (g.prefixLen,⟨address,device⟩)) =
            some (e.prefixLen,⟨address,device'⟩) := by
          rw [bestLocal]
          split_ifs with hgt hnew
          · exact absurd hgt (not_lt.mpr hlt.le)
          · rfl
          · exact absurd (.inl hlt) hnew
        simp only [hbest]
        refine ih (by simpa using hlist : _ = (before++g::after)++e::([]++rest.map fst)) he ?_ (by simp)
          (fun p hp hp' => (hremote p hp hp').trans hlt.le) hnodup.of_cons hinsert
        intro f hf hr
        obtain hf | rfl | hf : f ∈ before ∨ f = g ∨ f ∈ after := by simpa using hf
        · obtain hf | ⟨hf,-⟩ := hbefore f hf hr
          · exact .inl (hf.trans hlt)
          · exact .inl (hf.trans_lt hlt)
        · exact .inl hlt
        · exact .inl ((not_lt.mp fun hf' => hafter f hf (.inl hf')).trans_lt hlt)
      · have hbest : bestLocal address e.subnet.prefixLen device' (some (g.prefixLen,⟨address,device⟩)) =
            some (g.prefixLen,⟨address,device⟩) := bestLocal_of_le hle fun _ => rfl
        simp only [hbest]
        exact hkeep hle hinsert

section

variable (hspec : IsResolution installed spec)
include hspec

lemma searchLoop_finds (hcycle : NoCycle installed spec)
    (hordered : (installed.filter fun e => e.subnet.contains address).Pairwise Precedes)
    (hfinds : ∀ nextHop,Consulted installed spec nextHop address → Finds installed spec nextHop)
    (todo done : List (Entry w D × ℕ)) (hsplit : candidates installed address = done++todo)
    (hdone : ∀ p ∈ done,p.1.resolvable spec = false) (hmarked : Marked installed spec address observed)
    (hfuel : unobserved installed observed < fuel+1) :
    ∃ best observed',searchLoop (installedLookupHelper installed fuel) address todo observed none =
        .ok (best,observed') ∧ best.map snd = spec address ∧
      (spec address = none → ∀ i ∈ observed',i ∈ observed ∨ Failed installed spec i) := by
  have hfilter := @candidates_fst _ _ installed address
  induction todo generalizing done observed with
  | nil =>
    refine ⟨none,observed,rfl,?_,fun _ i hi => .inl hi⟩
    rw [hspec address,specify_of_nil]
    · rfl
    · rw [matching,← hfilter,hsplit,List.filter_eq_nil_iff]
      simp only [List.append_nil,List.mem_map]
      rintro e ⟨p,hp,rfl⟩
      simp [hdone p hp]
  | cons p rest ih =>
    obtain ⟨e,i⟩ := p
    have hmem : (e,i) ∈ candidates installed address := by simp [hsplit]
    obtain ⟨hget,hcontains⟩ := candidates_getElem hmem
    have hi : i < installed.length := (List.getElem?_eq_some_iff.mp hget).1
    have hlist : (installed.filter fun e => e.subnet.contains address) = done.map fst++e::rest.map fst := by
      rw [← hfilter,hsplit,List.map_append,List.map_cons]
    have hafter : ∀ f ∈ rest.map fst,e.Precedes f := by
      rw [hlist,List.pairwise_append,List.pairwise_cons] at hordered
      exact hordered.2.1.1
    have hbefore : ∀ f ∈ done.map fst,f.resolvable spec = true → e.Better f :=
      List.forall_mem_map.mpr fun p hp hr => absurd hr (by simp [hdone p hp])
    have hnext : e.resolvable spec = false → ∀ p ∈ done++[(e,i)],p.1.resolvable spec = false := fun hr =>
      List.forall_mem_append.mpr ⟨hdone,List.forall_mem_singleton.mpr hr⟩
    have hsplit' : candidates installed address = (done++[(e,i)])++rest := by
      rw [hsplit,List.append_assoc,List.singleton_append]
    rw [searchLoop]
    cases hdest : e.dest with
    | locally device =>
      have hfresh : Fresh observed ((e,i)::rest) := fun p hp =>
        hmarked.fresh p (hsplit ▸ List.mem_append_right done hp)
      have hnodup : (((e,i)::rest).map snd).Nodup := by
        refine (candidates_nodup installed address).sublist ?_
        rw [hsplit]
        exact (List.sublist_append_right done _).map snd
      have hremote : ∀ p ∈ rest,p.1.device? = none → p.1.prefixLen ≤ e.prefixLen := by
        intro p hp hremote
        by_contra hlt
        have hboth := hafter p.1 (List.mem_map_of_mem hp) (.inl (not_le.mp hlt))
        simp [hremote] at hboth
      obtain ⟨best,observed',hloop,hspecified⟩ := @searchLoop_devices _ _ installed address (insert i observed)
        (installedLookupHelper installed fuel) spec _ [] e device rest hlist hdest hbefore (by simp) hremote
        hnodup.of_cons (Fresh.insert (List.forall_mem_cons.mp hfresh).2 hnodup)
      rw [← hspec address] at hspecified
      rw [if_neg (hfresh (e,i) List.mem_cons_self (by simp [device?,hdest]))]
      exact ⟨_,observed',hloop,hspecified.symm,fun hnone => by simp [hspecified] at hnone⟩
    | remotely nextHop =>
      have hdevice : e.device? = none := by simp [device?,hdest]
      have hworse : ∀ f ∈ rest.map fst,¬f.Better e := fun f hf hbetter => by
        simpa [hdevice] using (hafter f hf hbetter).1
      have hconsulted : Consulted installed spec nextHop address := by
        refine ⟨e,List.mem_of_getElem? hget,hdest,hcontains,fun f hf hfc hfr => ?_⟩
        have hf : f ∈ installed.filter fun e => e.subnet.contains address := by simp [hf,hfc]
        rw [hlist,List.mem_append,List.mem_cons] at hf
        obtain hf | rfl | hf := hf
        · obtain ⟨p,hp,rfl⟩ := List.mem_map.mp hf
          rw [hdone p hp] at hfr
          cases hfr
        · simp [Entry.Better,device?,hdest]
        · exact hworse f hf
      by_cases hin : i ∈ observed
      · rw [if_pos hin]
        have hnone := hmarked.failed hcycle hin hget hdest hconsulted
        exact ih _ hsplit' (hnext (by simp [resolvable,hdest,hnone])) hmarked hfuel
      · have hless := unobserved_insert hi hin
        obtain ⟨observed1,hfound,hfailed⟩ := hfinds nextHop hconsulted fuel (insert i observed)
          (by omega) (hmarked.enter hget hdest hconsulted)
        simp only [if_neg hin,Option.any_none,Bool.false_eq_true,if_false,hfound,ok_bind]
        cases hnextHop : spec nextHop with
        | none =>
          have hold : ∀ j ∈ observed1,j ∈ observed ∨ Failed installed spec j := by
            intro j hj
            obtain hj | hj := hfailed hnextHop j hj
            · obtain rfl | hj := mem_insert.mp hj
              · exact .inr ⟨e,nextHop,hget,hdest,hnextHop⟩
              · exact .inl hj
            · exact .inr hj
          have hmarked1 : Marked installed spec address observed1 := by
            intro j hj
            obtain hj | ⟨e',n',he',hdest',hnone⟩ := hold j hj
            · exact hmarked j hj
            · exact ⟨e',n',he',hdest',.inl hnone⟩
          obtain ⟨_,_,hreturns,hsub⟩ := installedLookupHelper_returns fuel nextHop
            (show unobserved installed (insert i observed) < fuel by omega)
          rw [hfound] at hreturns
          cases hreturns
          obtain ⟨best,observed',hloop,hbest,hfailed'⟩ := ih _ hsplit'
            (hnext (by simp [resolvable,hdest,hnextHop])) hmarked1 ((unobserved_mono hsub).trans_lt (hless.trans hfuel))
          refine ⟨best,observed',hloop,hbest,fun hnone j hj => ?_⟩
          obtain hj | hj := hfailed' hnone j hj
          · exact hold j hj
          · exact .inr hj
        | some dest =>
          have hr : e.resolvable spec = true := by simp [resolvable,hdest,hnextHop]
          have hspecified : spec address = some dest := by
            rw [hspec address,specify_of_split hlist hr hbefore fun f hf _ => hworse f hf,hdest]
            exact hnextHop
          obtain ⟨observed',hloop⟩ := @searchLoop_settled _ _ address observed1
            (installedLookupHelper installed fuel) (e.subnet.prefixLen,dest) rest
            fun p hp => ⟨not_lt.mp fun hlt => hworse p.1 (List.mem_map_of_mem hp) (.inl hlt),
              fun hlocal heq => absurd (.inr ⟨heq.symm,hlocal,hdevice⟩) (hworse p.1 (List.mem_map_of_mem hp))⟩
          exact ⟨_,observed',hloop,hspecified.symm,fun hnone => by simp [hspecified] at hnone⟩

lemma finds_of_nextHop (hcycle : NoCycle installed spec) (hordered : Ordered installed) {g : Entry w D}
    (hg : g ∈ installed) (hdest : g.dest = .remotely address) : Finds installed spec address := by
  induction address using hcycle.induction generalizing g with
  | _ address ih =>
    intro fuel observed hfuel hmarked
    cases fuel with
    | zero => omega
    | succ fuel =>
      have hpairwise : (installed.filter fun e => e.subnet.contains address).Pairwise Precedes := by
        refine List.Pairwise.imp_of_mem ?_ (hordered.filter _)
        intro e f he hf hbetter
        exact hbetter g hg address (by simp [nextHop?,hdest]) (List.mem_filter.mp he).2 (List.mem_filter.mp hf).2
      have hfinds : ∀ nextHop,Consulted installed spec nextHop address → Finds installed spec nextHop := by
        rintro nextHop hconsulted
        obtain ⟨e,he,hdest,-⟩ := id hconsulted
        exact ih nextHop hconsulted he hdest
      obtain ⟨best,observed',hloop,hbest,hfailed⟩ := searchLoop_finds hspec hcycle hpairwise hfinds
        (candidates installed address) [] rfl (by simp) hmarked hfuel
      refine ⟨observed',?_,hfailed⟩
      simp only [installedLookupHelper,hloop,ok_bind,pure_eq,hbest]

end

end Fuchsia.Netstack.Forwarding
