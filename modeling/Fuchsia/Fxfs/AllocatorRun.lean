import Fuchsia.Fxfs.AllocatorRefines

/-! The steps of `apply_mutation` in live mode: what each may do to the state, and that
it moves the space as the abstract model allows. -/
namespace Fuchsia.Fxfs.SimpleAllocator

open Slots Fallible Commit State Mutation Option Multiset

variable {s s' : State} {b n : ℕ}

lemma Commit.allocs_start {k : Commit} (h : k.stage = .start) : k.allocs = allocRanges k.mutations := by
  cases hm : k.mutations <;> simp [allocs,hm,h]

lemma Commit.arriving_start {k : Commit} (h : k.stage = .start) : k.arriving = 0 := by
  cases hm : k.mutations <;> simp [arriving,hm,h]

lemma Commit.stale_start {k : Commit} (h : k.stage = .start) : k.stale = 0 := by
  cases hm : k.mutations <;> simp [stale,hm,h]

lemma Commit.leaving_start {k : Commit} (h : k.stage = .start) : k.leaving = 0 := by
  cases hm : k.mutations <;> simp [leaving,hm,h]

lemma commitBegin_refines {t logOffset : ℕ} (hs : s.Shape b)
    (h : commitBegin s t logOffset = .ok s') : Refines b n s s' := by
  simp only [commitBegin,bind_eq_ok,activeTransaction_eq_ok,require_eq_ok,pure_eq_ok] at h
  obtain ⟨tx,⟨htx,hph⟩,-,hnone,rfl⟩ := h
  have hok := hs.ok_of_getElem? htx
  refine .of_space_eq { hs with
    transactions := ok_of_mem_set hs ⟨by simp,by simp⟩
    commit := of_some_eq hok.simple } ?_
  obtain ⟨as,has,hset,-⟩ := sum_set htx Transaction.allocs
  obtain ⟨fs,hfs,hset',-⟩ := sum_set htx Transaction.freeing
  have hz : Transaction.freeing { tx with mutations := [],phase := .committing } = 0 := rfl
  have hz' : Transaction.allocs { tx with mutations := [],phase := .committing } = 0 := rfl
  have ha : tx.allocs = allocRanges tx.mutations := rfl
  simp only [space,hset,hset',hz,hz',has,hfs,hnone,elim_some,elim_none,
    allocs_start,arriving_start,stale_start,leaving_start,freeing,freeing_of_active hph,ha,zero_add,add_zero,add_comm]

lemma commitEnd_refines (hs : s.Shape b) (h : commitEnd s = .ok s') : Refines b n s s' := by
  simp only [commitEnd] at h
  cases hk : s.commit with
  | none => simp [hk] at h
  | some k =>
    simp only [hk,bind_eq_ok,require_eq_ok,lookup_eq_ok,pure_eq_ok] at h
    obtain ⟨-,hnil,tx,htx,-,-,rfl⟩ := h
    have hok := hs.ok_of_getElem? htx
    refine ⟨{ hs with
      transactions := ok_of_mem_set hs ⟨hok.simple,by simp⟩
      commit := by simp },?_⟩
    obtain ⟨as,has,hset,-⟩ := sum_set htx Transaction.allocs
    obtain ⟨fs,hfs,hset',-⟩ := sum_set htx Transaction.freeing
    have hspace : space { s.setTransaction k.transaction { tx with phase := .closed } with
        commit := none } = { s.space with freeing := fs } := by
      have hz : Transaction.freeing { tx with phase := .closed } = 0 := rfl
      have ha : Transaction.allocs { tx with phase := .closed } = tx.allocs := rfl
      simp only [space,setTransaction,hset,hset',hz,ha,has,hk,elim_some,
        elim_none,allocs,stale,arriving,leaving,hnil,zero_add,add_zero]
    rw [hspace]
    refine .giveUp ?_
    simp only [space,hfs]
    exact (le_add_left _ _).trans (le_add_right _ _)

lemma Mutation.Simple.alloc_cases {m : Mutation} (h : m.Simple) :
    m.item.value.delta = -1 ∧ m.alloc = 0 ∧ m.free = {m.range} ∨
      m.item.value.delta = 1 ∧ m.alloc = {m.range} ∧ m.free = 0 := by
  obtain ⟨hk,hd | hd⟩ := h
  · exact .inl ⟨hd,by simp [alloc,hd],by simp [free,hd]⟩
  · exact .inr ⟨hd,by simp [alloc,hk,hd],by simp [free,hd]⟩

lemma merge_spec (hs : s.Shape b) {m : Mutation} {sequence : ℕ} {s1 : State}
    (hne : m.range.start < m.range.stop) (hd : m.item.value.delta ≠ 0)
    (h : mergeIntoTree s { m.item with sequence := sequence } = .ok s1) :
    ∃ tree,s1 = { s with tree := tree } ∧ IsAllocatorLayer tree ∧
      ∀ p,deltaAt tree p = deltaAt s.tree p+m.item.value.delta*coverage {m.range} p := by
  obtain ⟨item,hitem⟩ : ∃ item : AllocatorItem,item = { m.item with sequence := sequence } := ⟨_,rfl⟩
  have hcov : ∀ p,Ranges.Covers item p ↔ m.range.Has p := by
    intro p
    rw [hitem]
    exact Iff.rfl
  obtain ⟨tree,htree,hlayer,hcount⟩ := @mergeIntoTree_spec item s hs.tree (by rw [hitem]; exact hne)
    (by rw [hitem]; exact hd)
  rw [← hitem,htree] at h
  obtain rfl := Except.ok.inj h
  refine ⟨tree,rfl,hlayer,fun p => ?_⟩
  have hval : item.value = m.item.value := by rw [hitem]
  rw [hcount p,coverage_singleton,own,hval]
  simp only [hcov]
  split_ifs <;> simp

variable {k : Commit} {m : Mutation} {rest : List Mutation}

lemma Commit.parts (hm : k.mutations = m::rest) :
    k.allocs = (if k.stage = .second then 0 else m.alloc)+allocRanges rest ∧
      k.stale = (if k.stage = .first then m.free else 0) ∧ k.freeing = m.free+freeRanges rest ∧
      k.arriving = (if k.stage = .first then m.alloc else 0) ∧ k.leaving = (if k.stage = .start then 0 else m.free) := by
  simp [allocs,stale,freeing,arriving,leaving,hm]

lemma Commit.Ok.next (h : k.Ok) (hm : k.mutations = m::rest) : Commit.Ok { k with mutations := rest,stage := .start } :=
  fun x hx => h x (by simp [hm,hx])

lemma Mutation.parts_free (hd : m.item.value.delta = -1) : m.alloc = 0 ∧ m.free = {m.range} :=
  ⟨by simp [alloc,hd],by simp [free,hd]⟩

lemma Mutation.parts_alloc (hkind : m.kind = .allocator) (hd : m.item.value.delta = 1) :
    m.alloc = {m.range} ∧ m.free = 0 :=
  ⟨by simp [alloc,hkind,hd],by simp [free,hd]⟩

section Steps

variable {tree reserved : List AllocatorItem} {s1 : State} (hs : s.Shape b) (hk : s.commit = some k)
  (hm : k.mutations = m::rest)
include hs hk hm

section Free

variable (hparts : m.alloc = 0 ∧ m.free = {m.range})
include hparts

lemma free_merged_refines (hstage : k.stage = .second) (hlayer : IsAllocatorLayer tree)
    (hcount : ∀ p,deltaAt tree p = deltaAt s.tree p-coverage {m.range} p) : Refines b n s { s with
      tree := tree,commit := some { k with mutations := rest,stage := .start } } := by
  refine ⟨{ hs with tree := hlayer,commit := of_some_eq ((hs.commit k hk).next hm) },?_⟩
  obtain ⟨ha,hst,hf,har,hl⟩ := parts hm
  simp only [hstage,if_false,reduceCtorEq,hparts,ite_self,zero_add] at ha hst har hf hl
  have hspace : space { s with
      tree := tree,commit := some { k with mutations := rest,stage := .start } } =
      { s.space with
        count := fun p => s.space.count p-coverage {m.range} p
        freeing := (s.transactions.map Transaction.freeing).sum+freeRanges rest
        leaving := 0 } := by
    rw [Space.ext_iff]
    refine ⟨funext hcount,rfl,?_,?_,?_,?_,?_,rfl⟩
    · simp [space,hk,ha,allocs_start]
    · simp [space,hk,hst,stale_start]
    · simp [space,freeing]
    · simp [space,hk,har,arriving_start]
    · simp [space,leaving_start]
  rw [hspace]
  refine .gone ?_ ?_
  · simp only [space,hk,elim_some,hf]
    abel
  · simp [space,hk,hl]

lemma free_reserved_refines (hstage : k.stage = .start) (hlayer : IsReservedLayer reserved)
    (hranges : ranges reserved = {m.range}+ranges s.reservedAllocations) : Refines b n s { s with
      reservedAllocations := reserved,commit := some { k with stage := .first } } := by
  refine ⟨{ hs with reserved := hlayer,commit := of_some_eq (hs.commit k hk) },?_⟩
  obtain ⟨ha,hst,hf,har,hl⟩ := parts hm
  obtain ⟨ha',hst',hf',har',hl'⟩ := @parts { k with stage := .first } m rest hm
  simp only [hstage,hparts,if_true,if_false,reduceCtorEq] at ha hst hf har hl ha' hst' hf' har' hl'
  have hspace : space { s with
      reservedAllocations := reserved,commit := some { k with stage := .first } } =
      { s.space with
        reserved := {m.range}+s.space.reserved
        stale := {m.range}+s.space.stale
        leaving := {m.range} } := by
    simp only [space,hk,elim_some,ha,hst,hf,har,ha',hst',hf',har',hl',hranges,add_zero]
    rw [add_comm {m.range} (ranges s.inner.droppedAllocations+_+_+_)]
  rw [hspace]
  refine .leave ?_ ?_ ?_
  · simp [space,hk,hf]
  · simp [space,hk,har]
  · simp [space,hk,hl]

lemma free_counted_refines (hstage : k.stage = .first) {freed : List (ℕ × Range)}
    {inner : Inner} {logOffset : ℕ} (hsame : State.Same { s with freed := freed } s1)
    (hdropped : inner.droppedAllocations = s.inner.droppedAllocations)
    (hqueue : inner.committedDeallocated = s.inner.committedDeallocated++[(logOffset,m.range)]) :
    Refines b n s { s1 with inner := inner,commit := some { k with stage := .second } } := by
  have hs1 : s1.Shape b := hsame.shape { hs with }
  refine .of_space_eq { hs1 with commit := of_some_eq (hs.commit k hk) } ?_
  obtain ⟨ha,hst,hf,har,hl⟩ := parts hm
  obtain ⟨ha',hst',hf',har',hl'⟩ := @parts { k with stage := .second } m rest hm
  simp only [hstage,hparts,if_true,if_false,reduceCtorEq] at ha hst hf har hl ha' hst' hf' har' hl'
  have hmap : ((s.inner.committedDeallocated++[(logOffset,m.range)]).map Prod.snd :
      Multiset Range) = (s.inner.committedDeallocated.map Prod.snd : List Range)+{m.range} := by
    rw [List.map_append,← coe_add]
    rfl
  simp only [space,hsame.tree,hsame.reservedAllocations,hsame.transactions,
    hsame.allocation,hsame.flush,hk,elim_some,hdropped,hqueue,hmap,ha,hst,hf,har,hl,ha',hst',hf',har',hl',add_zero]
  congr 1
  abel

end Free

variable (hparts : m.alloc = {m.range} ∧ m.free = 0)
include hparts

lemma alloc_merged_refines (hstage : k.stage = .start) (hlayer : IsAllocatorLayer tree)
    (hcount : ∀ p,deltaAt tree p = deltaAt s.tree p+coverage {m.range} p) :
    Refines b n s { s with tree := tree,commit := some { k with stage := .first } } := by
  refine ⟨{ hs with tree := hlayer,commit := of_some_eq (hs.commit k hk) },?_⟩
  obtain ⟨ha,hst,hf,har,hl⟩ := parts hm
  obtain ⟨ha',hst',hf',har',hl'⟩ := @parts { k with stage := .first } m rest hm
  simp only [hstage,hparts,if_true,if_false,reduceCtorEq] at ha hst hf har hl ha' hst' hf' har' hl'
  have hcount' : deltaAt tree = fun p => deltaAt s.tree p+coverage {m.range} p := funext hcount
  have hspace : space { s with
      tree := tree,commit := some { k with stage := .first } } =
      { s.space with
        count := fun p => s.space.count p+coverage {m.range} p
        arriving := {m.range} } := by simp [space,hk,ha,hst,hf,hl,ha',hst',hf',har',hl',hcount']
  rw [hspace]
  refine .arrive ?_ ?_
  · simp [space,hk,ha]
  · simp [space,hk,har]

lemma alloc_erased_refines (hstage : k.stage = .first) (hlayer : IsReservedLayer reserved)
    (hranges : ranges s.reservedAllocations = {m.range}+ranges reserved) : Refines b n s { s with
      reservedAllocations := reserved,commit := some { k with stage := .second } } := by
  obtain ⟨ha,hst,hf,har,hl⟩ := parts hm
  obtain ⟨ha',hst',hf',har',hl'⟩ := @parts { k with stage := .second } m rest hm
  simp only [hstage,hparts,if_true,if_false,reduceCtorEq] at ha hst hf har hl ha' hst' hf' har' hl'
  obtain ⟨as,has⟩ : ∃ as,as = (s.transactions.map Transaction.allocs).sum+allocRanges rest := ⟨_,rfl⟩
  have hallocs : s.space.allocs = {m.range}+as := by
    simp only [space,hk,elim_some,ha,has]
    abel
  refine ⟨{ hs with reserved := hlayer,commit := of_some_eq (hs.commit k hk) },?_⟩
  have hspace : space { s with
      reservedAllocations := reserved,commit := some { k with stage := .second } } =
      { s.space with reserved := ranges reserved,allocs := as,arriving := 0 } := by
    simp [space,hk,hst,hf,hl,ha',hst',hf',har',hl',has]
  rw [hspace]
  refine .settle ?_ hranges hallocs
  simp [space,hk,har]

lemma alloc_counted_refines (hstage : k.stage = .second) (hsame : s.Same s1) :
    Refines b n s { s1 with commit := some { k with mutations := rest,stage := .start } } := by
  refine .of_space_eq { hsame.shape hs with commit := of_some_eq ((hs.commit k hk).next hm) } ?_
  obtain ⟨ha,hst,hf,har,hl⟩ := parts hm
  simp only [hstage,hparts,if_true,if_false,reduceCtorEq,zero_add] at ha hst hf har hl
  have hnext : freeing { k with mutations := rest,stage := .start } = k.freeing := hf.symm
  rw [← hsame.space]
  simp [space,hsame.commit,hk,ha,hst,har,hl,hnext,allocs_start,stale_start,arriving_start,leaving_start]

end Steps

/-- Everything that a step of `apply_mutation` may do. -/
inductive Applied (s : State) (k : Commit) (m : Mutation) (rest : List Mutation) : State → Prop
  | freeMerged {tree : List AllocatorItem} : m.item.value.delta = -1 →
      m.kind = .allocator → k.stage = .second →
      IsAllocatorLayer tree → (∀ p,deltaAt tree p = deltaAt s.tree p-coverage {m.range} p) →
      Applied s k m rest { s with
        tree := tree,commit := some { k with mutations := rest,stage := .start } }
  | freeReserved {reserved : List AllocatorItem} : m.kind = .allocator →
      m.item.value.delta = -1 → k.stage = .start → IsReservedLayer reserved →
      ranges reserved = {m.range}+ranges s.reservedAllocations →
      Applied s k m rest { s with
        reservedAllocations := reserved,commit := some { k with stage := .first } }
  | freeCounted : m.kind = .allocator → m.item.value.delta = -1 → k.stage = .first →
      k.allocatorReservation = none →
      Applied s k m rest { s with
        inner := { s.inner with
          allocatedBytes := s.inner.allocatedBytes-m.range.length
          committedDeallocated := s.inner.committedDeallocated++[(k.logOffset,m.range)]
          committedDeallocatedBytes := s.inner.committedDeallocatedBytes+m.range.length }
        freed := s.freed++[(k.logOffset,m.range)]
        commit := some { k with stage := .second } }
  | freeCountedIn {i : ℕ} {r : ReservationInner} : m.kind = .allocator →
      m.item.value.delta = -1 → k.stage = .first → k.allocatorReservation = some i →
      s.reservations[i]? = some (some r) →
      Applied s k m rest { s with
        inner := { s.inner with
          allocatedBytes := s.inner.allocatedBytes-m.range.length
          reservedBytes := s.inner.reservedBytes+m.range.length
          committedDeallocated := s.inner.committedDeallocated++[(k.logOffset,m.range)]
          committedDeallocatedBytes := s.inner.committedDeallocatedBytes+m.range.length }
        reservations := s.reservations.set i (some ⟨r.amount+m.range.length,r.reserved⟩)
        freed := s.freed++[(k.logOffset,m.range)]
        commit := some { k with stage := .second } }
  | allocMerged {tree : List AllocatorItem} : m.kind = .allocator → m.item.value.delta = 1 →
      k.stage = .start → IsAllocatorLayer tree →
      (∀ p,deltaAt tree p = deltaAt s.tree p+coverage {m.range} p) →
      Applied s k m rest { s with tree := tree,commit := some { k with stage := .first } }
  | allocErased {reserved : List AllocatorItem} : m.kind = .allocator →
      m.item.value.delta = 1 → k.stage = .first → IsReservedLayer reserved →
      ranges s.reservedAllocations = {m.range}+ranges reserved →
      Applied s k m rest { s with
        reservedAllocations := reserved,commit := some { k with stage := .second } }
  | allocCounted {uncommitted : ℕ} : m.kind = .allocator → m.item.value.delta = 1 →
      k.stage = .second → k.allocatorReservation = none →
      s.inner.uncommittedAllocatedBytes = uncommitted+m.range.length →
      Applied s k m rest { s with
        inner := { s.inner with
          allocatedBytes := s.inner.allocatedBytes+m.range.length
          uncommittedAllocatedBytes := uncommitted }
        commit := some { k with mutations := rest,stage := .start } }
  | allocCountedIn {uncommitted i : ℕ} {r : ReservationInner} : m.kind = .allocator →
      m.item.value.delta = 1 → k.stage = .second → k.allocatorReservation = some i →
      s.inner.uncommittedAllocatedBytes = uncommitted+m.range.length →
      s.reservations[i]? = some (some ⟨r.amount+m.range.length,r.reserved+m.range.length⟩) →
      Applied s k m rest { s with
        inner := { s.inner with
          allocatedBytes := s.inner.allocatedBytes+m.range.length
          uncommittedAllocatedBytes := uncommitted }
        reservations := s.reservations.set i (some r)
        commit := some { k with mutations := rest,stage := .start } }

lemma Applied.refines (hs : s.Shape b) (hk : s.commit = some k) (hm : k.mutations = m::rest)
    (h : Applied s k m rest s') : Refines b n s s' := by
  cases h with
  | freeMerged hd _ hstage hlayer hcount =>
    exact free_merged_refines hs hk hm (parts_free hd) hstage hlayer hcount
  | freeReserved hkind hd hstage hlayer hranges =>
    exact free_reserved_refines hs hk hm (parts_free hd) hstage hlayer hranges
  | freeCounted hkind hd hstage _ =>
    exact @free_counted_refines s b n k m rest { s with freed := s.freed++[(k.logOffset,m.range)] }
      hs hk hm (parts_free hd) hstage _ _ k.logOffset (State.Same.refl _) rfl rfl
  | @freeCountedIn i r hkind hd hstage _ _ =>
    have hsame : State.Same { s with freed := s.freed++[(k.logOffset,m.range)] } { s with
        freed := s.freed++[(k.logOffset,m.range)]
        reservations := s.reservations.set i (some ⟨r.amount+m.range.length,r.reserved⟩) } := by
      constructor <;> rfl
    exact free_counted_refines hs hk hm (parts_free hd) hstage hsame rfl rfl
  | allocMerged hkind hd hstage hlayer hcount =>
    exact alloc_merged_refines hs hk hm (parts_alloc hkind hd) hstage hlayer hcount
  | allocErased hkind hd hstage hlayer hranges =>
    exact alloc_erased_refines hs hk hm (parts_alloc hkind hd) hstage hlayer hranges
  | @allocCounted uncommitted hkind hd hstage _ _ =>
    have hsame : s.Same { s with inner := { s.inner with
        allocatedBytes := s.inner.allocatedBytes+m.range.length
        uncommittedAllocatedBytes := uncommitted } } := by constructor <;> rfl
    exact alloc_counted_refines hs hk hm (parts_alloc hkind hd) hstage hsame
  | @allocCountedIn uncommitted i r hkind hd hstage _ _ _ =>
    have hsame : s.Same { s with
        inner := { s.inner with
          allocatedBytes := s.inner.allocatedBytes+m.range.length
          uncommittedAllocatedBytes := uncommitted }
        reservations := s.reservations.set i (some r) } := by constructor <;> rfl
    exact alloc_counted_refines hs hk hm (parts_alloc hkind hd) hstage hsame

lemma applyMutation_free (hs : s.Shape b) (hsafe : s.space.Safe b n) (hk : s.commit = some k)
    (hm : k.mutations = m::rest) (hkind : m.kind = .allocator) (hd : m.item.value.delta = -1)
    (hfree : m.free = {m.range}) (h : applyMutation s k m rest = .ok s') : Applied s k m rest s' := by
  obtain ⟨-,-,hpf,-,-⟩ := parts hm
  have hmem : m.range ∈ s.space.freeing := by simp [space,hk,hpf,hfree]
  have hne := hsafe.nonempty _ hmem
  simp only [applyMutation,hkind,reduceCtorEq,if_false,bind_eq_ok,require_eq_ok] at h
  obtain ⟨-,-,h⟩ := h
  rw [if_pos (by simp [hd])] at h
  obtain ⟨t,reservation,logOffset,ms,stage⟩ := k
  cases stage with
  | start =>
    simp only [bind_eq_ok,elim_eq_ok,pure_eq_ok] at h
    obtain ⟨reserved,hins,rfl⟩ := h
    have hzero : ∀ p,m.range.Has p → coverage (ranges s.reservedAllocations) p = 0 := by
      intro p hp
      have hex := hsafe.exclusive p
      have hf := hsafe.freeing_le p
      have hpos := coverage_pos hmem hp
      have har : s.space.arriving = 0 := by simp [space,hk,arriving_start]
      have hlv : s.space.leaving = 0 := by simp [space,hk,leaving_start]
      have hres : s.space.reserved = ranges s.reservedAllocations := rfl
      rw [har,hlv,hres] at hex
      simp only [coverage_zero] at hex
      omega
    obtain ⟨reserved',hins',hlayer,hranges⟩ := insert_spec hs.reserved hne hzero logOffset
    obtain rfl : reserved' = reserved := some.inj (hins'.symm.trans hins)
    exact .freeReserved hkind hd rfl hlayer hranges
  | first =>
    cases reservation with
    | none =>
      obtain rfl := pure_eq_ok.mp h
      exact .freeCounted hkind hd rfl rfl
    | some i =>
      simp only [bind_eq_ok,updateReservation,lookup_eq_ok,pure_eq_ok] at h
      obtain ⟨s1,⟨o,ho,h1⟩,rfl⟩ := h
      cases o with
      | none => simp at h1
      | some r =>
        simp only [bind_eq_ok,Except.ok.injEq,exists_eq_left',pure_eq_ok] at h1
        subst h1
        exact .freeCountedIn hkind hd rfl rfl ho
  | second =>
    simp only [map_eq_ok] at h
    obtain ⟨s1,h1,rfl⟩ := h
    obtain ⟨tree,rfl,hlayer,hcount⟩ := merge_spec hs hne (by simp [hd]) h1
    refine .freeMerged hd hkind rfl hlayer fun p => ?_
    rw [hcount p,hd]
    ring

lemma applyMutation_alloc (hs : s.Shape b) (hsafe : s.space.Safe b n) (hk : s.commit = some k)
    (hm : k.mutations = m::rest) (hkind : m.kind = .allocator) (hd : m.item.value.delta = 1)
    (halloc : m.alloc = {m.range}) (h : applyMutation s k m rest = .ok s') : Applied s k m rest s' := by
  obtain ⟨hpa,-,-,-,-⟩ := parts hm
  have hmem : k.stage ≠ .second → m.range ∈ ranges s.reservedAllocations := by
    intro hstage
    refine mem_of_le hsafe.held_le ?_
    simp [space,hk,hpa,halloc,hstage]
  simp only [applyMutation,hkind,reduceCtorEq,if_false,bind_eq_ok,require_eq_ok] at h
  obtain ⟨-,-,h⟩ := h
  rw [if_neg (by simp [hd])] at h
  obtain ⟨t,reservation,logOffset,ms,stage⟩ := k
  cases stage with
  | start =>
    simp only [hd,zero_lt_one,if_true,map_eq_ok] at h
    obtain ⟨s1,h1,rfl⟩ := h
    obtain ⟨i,hi,hir⟩ := mem_ranges.mp (hmem (by simp))
    have hne : m.range.start < m.range.stop := by
      rw [← hir]
      exact hs.reserved.1.1 i hi
    obtain ⟨tree,rfl,hlayer,hcount⟩ := merge_spec hs hne (by simp [hd]) h1
    exact .allocMerged hkind hd rfl hlayer fun p => by rw [hcount p,hd,one_mul]
  | first =>
    obtain rfl := pure_eq_ok.mp h
    obtain ⟨hlayer,hranges⟩ := erase_spec hs.reserved (hmem (by simp))
    exact .allocErased hkind hd rfl hlayer hranges
  | second =>
    simp only [bind_eq_ok,sub_eq_ok] at h
    obtain ⟨uncommitted,hsub,h⟩ := h
    cases reservation with
    | none =>
      obtain rfl := pure_eq_ok.mp h
      exact .allocCounted hkind hd rfl rfl hsub
    | some i =>
      simp only [map_eq_ok,updateReservation,bind_eq_ok,lookup_eq_ok] at h
      obtain ⟨s1,⟨o,ho,h1⟩,rfl⟩ := h
      cases o with
      | none => simp at h1
      | some r =>
        simp only [bind_eq_ok,ReservationInner.commit,sub_eq_ok,pure_eq_ok] at h1
        obtain ⟨r',⟨reserved,hres,amount,hamount,rfl⟩,rfl⟩ := h1
        obtain ⟨amount',reserved'⟩ := r
        obtain rfl : amount' = amount+m.range.length := hamount
        obtain rfl : reserved' = reserved+m.range.length := hres
        exact .allocCountedIn hkind hd rfl rfl hsub ho

lemma commitStep_applied (hs : s.Shape b) (hsafe : s.space.Safe b n) (h : commitStep s = .ok s') :
    ∃ k m rest,s.commit = some k ∧ k.mutations = m::rest ∧ Applied s k m rest s' := by
  cases hk : s.commit with
  | none => simp [commitStep,hk] at h
  | some k =>
    cases hm : k.mutations with
    | nil => simp [commitStep,hk,hm] at h
    | cons m rest =>
      simp only [commitStep,hk,hm] at h
      refine ⟨k,m,rest,rfl,hm,?_⟩
      have hsimple := hs.commit k hk m (by simp [hm])
      rcases hsimple.alloc_cases with ⟨hd,-,hfree⟩ | ⟨hd,halloc,-⟩
      · exact applyMutation_free hs hsafe hk hm hsimple.1 hd hfree h
      · exact applyMutation_alloc hs hsafe hk hm hsimple.1 hd halloc h

/-! Dropping transactions and flushing the device; and then every run whose callers
are careful keeps the space of the device safe. -/

open Transaction

variable {c : Config}

section DropAndFlush

section

variable (hs : s.Shape b)
include hs

lemma dropBegin_refines {t : ℕ} (h : dropBegin s t = .ok s') : Refines b n s s' := by
  simp only [dropBegin,bind_eq_ok,activeTransaction_eq_ok,pure_eq_ok] at h
  obtain ⟨tx,⟨htx,-⟩,rfl⟩ := h
  have hok := hs.ok_of_getElem? htx
  refine ⟨{ hs with transactions := ok_of_mem_set hs ⟨hok.simple,by simp⟩ },?_⟩
  obtain ⟨fs,hfs,hset,-⟩ := sum_set htx freeing
  have hz : freeing { tx with phase := .dropping } = 0 := rfl
  have ha : allocs { tx with phase := .dropping } = tx.allocs := rfl
  have hspace : (s.setTransaction t { tx with phase := .dropping }).space =
      { s.space with freeing := fs+s.commit.elim 0 Commit.freeing } := by
    simp only [space,setTransaction,sum_set_eq htx ha,hset,hz,zero_add]
  rw [hspace]
  refine .giveUp ?_
  simp only [space,hfs,add_assoc]
  exact le_add_left _ _

lemma dropMutation_spec {reservation : Option ℕ} {m : Mutation} (h : dropMutation s reservation m = .ok s') :
    s'.Shape b ∧ s'.space = { s.space with stale := m.alloc+s.space.stale } := by
  simp only [dropMutation] at h
  split_ifs at h with hm
  · simp only [bind_eq_ok,require_eq_ok] at h
    obtain ⟨-,-,uncommitted,-,h⟩ := h
    have halloc : m.alloc = {m.range} := by simp [Mutation.alloc,hm]
    have hrange : ranges (s.inner.droppedAllocations++[m.item]) = {m.range}+ranges s.inner.droppedAllocations := by
      have hmid := ranges_middle s.inner.droppedAllocations [] m.item
      rw [List.append_nil] at hmid
      exact hmid
    have hfinish : ∀ s1,s.Same s1 → ∀ inner : Inner,inner.droppedAllocations = s.inner.droppedAllocations++[m.item] →
        inner.committedDeallocated = s.inner.committedDeallocated →
        State.Shape b { s1 with inner := inner } ∧ space { s1 with inner := inner } =
          { s.space with stale := m.alloc+s.space.stale } := by
      intro s1 hsame inner hdrop hqueue
      refine ⟨{ hsame.shape hs with },?_⟩
      simp only [space,hsame.tree,hsame.reservedAllocations,hsame.transactions,
        hsame.allocation,hsame.commit,hsame.flush,hdrop,hqueue,hrange,halloc,add_assoc]
    cases reservation with
    | none =>
      obtain rfl := pure_eq_ok.mp h
      exact hfinish s (State.Same.refl s) _ rfl rfl
    | some i =>
      simp only [bind_eq_ok,pure_eq_ok] at h
      obtain ⟨s1,h1,rfl⟩ := h
      exact hfinish s1 (updateReservation_same h1) _ rfl rfl
  · obtain rfl := pure_eq_ok.mp h
    have halloc : m.alloc = 0 := by simp [Mutation.alloc,hm]
    exact ⟨hs,by rw [halloc,zero_add]⟩

lemma dropStep_refines {t : ℕ} (h : dropStep s t = .ok s') : Refines b n s s' := by
  simp only [dropStep,bind_eq_ok,lookup_eq_ok,require_eq_ok] at h
  obtain ⟨⟨reservation,ms,phase⟩,htx,-,hph,h⟩ := h
  obtain rfl : phase = .dropping := hph
  have hok := hs.ok_of_getElem? htx
  cases ms with
  | nil =>
    obtain rfl := pure_eq_ok.mp h
    exact .of_space_eq { hs with transactions := ok_of_mem_set hs ⟨by simp,by simp⟩ } (space_set_eq htx rfl rfl)
  | cons m rest =>
    have hshape : (s.setTransaction t ⟨reservation,rest,.dropping⟩).Shape b := by
      have hok' : Transaction.Ok b ⟨reservation,rest,.dropping⟩ :=
        ⟨fun x hx => hok.simple x (by simp [hx]),by simp⟩
      exact { hs with transactions := ok_of_mem_set hs hok' }
    obtain ⟨hshape',hspace'⟩ := dropMutation_spec hshape h
    obtain ⟨as,has,hset,-⟩ := sum_set htx allocs
    have hf : freeing ⟨reservation,rest,.dropping⟩ = freeing ⟨reservation,m::rest,.dropping⟩ := rfl
    have hcons : s.space.allocs = m.alloc+(allocRanges rest+as+s.commit.elim 0 Commit.allocs) := by
      simp [space,has,Transaction.allocs,add_assoc]
    have heq : s'.space = { s.space with
        allocs := allocRanges rest+as+s.commit.elim 0 Commit.allocs
        stale := m.alloc+s.space.stale } := by
      rw [hspace']
      simp only [space,setTransaction,hset,sum_set_eq htx hf,Transaction.allocs]
    refine ⟨hshape',?_⟩
    rw [heq]
    rcases (hok.simple m (by simp)).alloc_cases with ⟨-,halloc,-⟩ | ⟨-,halloc,-⟩
    · rw [halloc,zero_add] at hcons ⊢
      rw [← hcons]
      exact .refl
    · rw [halloc] at hcons ⊢
      exact .discard hcons

lemma flushBegin_refines {flushLogOffset : ℕ} (h : flushBegin s flushLogOffset = .ok s') : Refines b n s s' := by
  simp only [flushBegin,bind_eq_ok,require_eq_ok,pure_eq_ok] at h
  obtain ⟨-,hnone,rfl⟩ := h
  refine .of_space_eq { hs with } ?_
  obtain ⟨p,hp⟩ : ∃ p : ℕ × Range → Bool,p = fun d => decide (d.1 < flushLogOffset) := ⟨_,rfl⟩
  have hsplit : (s.inner.committedDeallocated.map Prod.snd : Multiset Range) =
      ((s.inner.committedDeallocated.dropWhile p).map Prod.snd : List Range)+
        ((s.inner.committedDeallocated.takeWhile p).map Prod.snd : List Range) := by
    rw [add_comm,coe_add,← List.map_append,List.takeWhile_append_dropWhile]
  simp [space,hnone,hsplit,← hp,add_assoc]

lemma flushStep_refines (hsafe : s.space.Safe b n) (h : flushStep s = .ok s') : Refines b n s s' := by
  simp only [flushStep] at h
  cases hf : s.flush with
  | none => simp [hf] at h
  | some f =>
    obtain ⟨deallocs,total⟩ := f
    rw [hf] at h
    cases deallocs with
    | nil =>
      simp only [bind_eq_ok,pure_eq_ok] at h
      obtain ⟨bytes,-,rfl⟩ := h
      exact .of_space_eq { hs with } (by simp [space,hf])
    | cons range deallocs =>
      obtain rfl := pure_eq_ok.mp h
      obtain ⟨ss,hss⟩ : ∃ ss,ss = ranges s.inner.droppedAllocations+ s.allocation.elim 0 Allocation.erasing+
        (s.inner.committedDeallocated.map Prod.snd : List Range)+(deallocs : Multiset Range)+
        s.commit.elim 0 Commit.stale := ⟨_,rfl⟩
      have hstale : s.space.stale = {range}+ss := by
        simp only [space,hf,Option.elim_some,hss,← cons_coe,← singleton_add]
        abel
      have hmem : range ∈ ranges s.reservedAllocations :=
        mem_of_le hsafe.held_le (by rw [hstale]; simp)
      obtain ⟨hlayer,hranges⟩ := erase_spec hs.reserved hmem
      refine ⟨{ hs with reserved := hlayer },?_⟩
      have hspace : space { s with
          reservedAllocations := SkipListLayer.erase s.reservedAllocations ⟨range⟩
          flush := some ⟨deallocs,total+range.length⟩ } =
          { s.space with
            reserved := ranges (SkipListLayer.erase s.reservedAllocations ⟨range⟩)
            stale := ss } := by simp [space,hss]
      exact hspace.symm ▸ .erase hranges hstale

end

end DropAndFlush

section Run

lemma step_refines (hb : b ∣ c.blockSize) (hn : b ∣ c.deviceSize) (hs : s.Shape b) (hsafe : s.space.Safe b c.deviceSize)
    {a : Action} (hcare : Careful b s a) (h : step c s a = .ok s') : Refines b c.deviceSize s s' := by
  cases a with
  | reserve amount => exact (reserve_same h).refines hs
  | reserveAtMost amount => exact (reserveAtMost_same h).refines hs
  | dropReservation i => exact (dropReservation_same h).refines hs
  | hold i amount => exact (hold_same h).refines hs
  | holdAtMost i amount => exact (holdAtMost_same h).refines hs
  | dropHold i => exact (dropHold_same h).refines hs
  | newTransaction reservation => exact newTransaction_refines hs h
  | allocateReserve t len => exact allocateReserve_refines hb hs hcare h
  | allocateLock t => exact allocateLock_refines hs h
  | allocateStep =>
    cases ha : s.allocation with
    | none => simp [step,allocateStep,ha] at h
    | some a =>
      cases hstage : a.stage with
      | locked granted => exact allocateStep_locked hs ha h hstage
      | erasing granted dropped =>
        cases dropped with
        | nil => exact allocateStep_search hs ha h hn hsafe hstage
        | cons i dropped => exact allocateStep_erasing hs ha h hsafe hstage
      | found granted range => exact allocateStep_found hs ha h hstage
      | forgotten range => exact allocateStep_forgotten hs ha h hstage
      | counted range => exact allocateStep_counted hs ha h hsafe hstage
  | allocateFail t => exact allocateFail_refines hs h
  | markAllocated t range => exact markAllocated_refines hs hsafe hcare h
  | deallocate t range => exact deallocate_refines hs hsafe hcare h
  | commitBegin t logOffset => exact commitBegin_refines hs h
  | commitStep =>
    obtain ⟨k,m,rest,hk,hm,happ⟩ := commitStep_applied hs hsafe h
    exact happ.refines hs hk hm
  | commitEnd => exact commitEnd_refines hs h
  | dropBegin t => exact dropBegin_refines hs h
  | dropStep t => exact dropStep_refines hs h
  | flushBegin flushLogOffset => exact flushBegin_refines hs h
  | flushStep => exact flushStep_refines hs hsafe h

/-- The states of runs from a created allocator whose actions are all allowed. -/
abbrev Run (c : Config) (allowed : State → Action → Prop) : State → Prop :=
  Transition.Reachable (fun s => s = created) allowed fun s a => (step c s a).toOption

lemma toOption_eq_some {A : Type} {x : Except Fault A} {a : A} : x.toOption = some a ↔ x = .ok a := by
  cases x <;> simp [Except.toOption]

lemma run_safe {allowed : State → Action → Prop} (hb : b ∣ c.blockSize) (hn : b ∣ c.deviceSize)
    (hallowed : ∀ s a,allowed s a → Careful b s a) (h : Run c allowed s) : s.Shape b ∧ s.space.Safe b c.deviceSize := by
  refine Transition.Reachable.invariant (I := fun s => s.Shape b ∧ s.space.Safe b c.deviceSize) h ?_ ?_
  · rintro s rfl
    constructor <;> constructor <;> simp [created,IsAllocatorLayer,IsReservedLayer,space]
  · intro s a s' hinv ha hstep
    have href := step_refines hb hn hinv.1 hinv.2 (hallowed s a ha) (toOption_eq_some.mp hstep)
    exact ⟨href.shape,href.move.safe hinv.2⟩

end Run

end Fuchsia.Fxfs.SimpleAllocator
