import Fuchsia.Fxfs.AllocatorLayers
import Fuchsia.Lib.Slots

/-! The allocator's state, seen as the space of the device. Every action that its
callers may take moves the space as the abstract model allows. -/
namespace Fuchsia.Fxfs.SimpleAllocator

open Slots Fallible Allocation Transaction

def Mutation.alloc (m : Mutation) : Multiset Range :=
  if m.kind = .allocator ∧ 0 < m.item.value.delta then {m.range} else 0

def Mutation.free (m : Mutation) : Multiset Range := if m.item.value.delta < 0 then {m.range} else 0

def allocRanges (ms : List Mutation) : Multiset Range := (ms.map Mutation.alloc).sum

def freeRanges (ms : List Mutation) : Multiset Range := (ms.map Mutation.free).sum

@[simp] lemma allocRanges_nil : allocRanges [] = 0 := rfl
@[simp] lemma allocRanges_cons (m : Mutation) (ms : List Mutation) : allocRanges (m::ms) = m.alloc+allocRanges ms := by
  simp [allocRanges]
@[simp] lemma freeRanges_nil : freeRanges [] = 0 := rfl
@[simp] lemma freeRanges_cons (m : Mutation) (ms : List Mutation) : freeRanges (m::ms) = m.free+freeRanges ms := by
  simp [freeRanges]

def Transaction.allocs (tx : Transaction) : Multiset Range := allocRanges tx.mutations

def Transaction.freeing (tx : Transaction) : Multiset Range :=
  match tx.phase with
  | .dropping => 0
  | .closed => 0
  | _ => freeRanges tx.mutations

def Allocation.erasing (a : Allocation) : Multiset Range :=
  match a.stage with
  | .erasing _ dropped => ranges dropped
  | _ => 0

def Allocation.found (a : Allocation) : Multiset Range :=
  match a.stage with
  | .found _ range => {range}
  | .forgotten range => {range}
  | .counted range => {range}
  | _ => 0

namespace Commit

def allocs (k : Commit) : Multiset Range :=
  match k.mutations with
  | [] => 0
  | m::rest => (if k.stage = .second then 0 else m.alloc)+allocRanges rest

def stale (k : Commit) : Multiset Range :=
  match k.mutations with
  | [] => 0
  | m::_ => if k.stage = .first then m.free else 0

def freeing (k : Commit) : Multiset Range := freeRanges k.mutations

def arriving (k : Commit) : Multiset Range :=
  match k.mutations with
  | [] => 0
  | m::_ => if k.stage = .first then m.alloc else 0

def leaving (k : Commit) : Multiset Range :=
  match k.mutations with
  | [] => 0
  | m::_ => if k.stage = .start then 0 else m.free

end Commit

def State.space (s : State) : Space where
  count := deltaAt s.tree
  reserved := ranges s.reservedAllocations
  allocs := (s.transactions.map allocs).sum+s.commit.elim 0 Commit.allocs
  stale := ranges s.inner.droppedAllocations+s.allocation.elim 0 erasing+
    (s.inner.committedDeallocated.map Prod.snd : List Range)+
    s.flush.elim 0 (fun f => (f.deallocs : Multiset Range))+s.commit.elim 0 Commit.stale
  freeing := (s.transactions.map freeing).sum+s.commit.elim 0 Commit.freeing
  arriving := s.commit.elim 0 Commit.arriving
  leaving := s.commit.elim 0 Commit.leaving
  found := s.allocation.elim 0 found

structure State.Same (s s' : State) : Prop where
  tree : s'.tree = s.tree
  reservedAllocations : s'.reservedAllocations = s.reservedAllocations
  droppedAllocations : s'.inner.droppedAllocations = s.inner.droppedAllocations
  committedDeallocated : s'.inner.committedDeallocated = s.inner.committedDeallocated
  transactions : s'.transactions = s.transactions
  allocation : s'.allocation = s.allocation
  commit : s'.commit = s.commit
  flush : s'.flush = s.flush
  flushedOffset : s'.flushedOffset = s.flushedOffset
  issued : s'.issued = s.issued
  freed : s'.freed = s.freed

lemma State.Same.refl (s : State) : s.Same s := by constructor <;> rfl

lemma of_some_eq {α : Type*} {P : α → Prop} {a : α} (h : P a) (a' : α) (ha : some a = some a') : P a' := by
  cases ha
  exact h

variable {s s' : State} {b n : ℕ}

lemma State.Same.space (h : s.Same s') : s'.space = s.space := by
  simp only [State.space,h.tree,h.reservedAllocations,h.droppedAllocations,
    h.committedDeallocated,h.transactions,h.allocation,h.commit,h.flush]

variable {i : ℕ}

lemma updateReservation_same {f : ReservationInner → Except Fault ReservationInner}
    (h : s.updateReservation i f = .ok s') : s.Same s' := by
  simp only [State.updateReservation,bind_eq_ok] at h
  obtain ⟨r,-,h⟩ := h
  cases r with
  | none => simp at h
  | some r =>
    simp only [bind_eq_ok,pure_eq_ok] at h
    obtain ⟨-,-,rfl⟩ := h
    constructor <;> rfl

variable {amount : ℕ}

lemma releaseReservation_same (h : s.releaseReservation amount = .ok s') : s.Same s' := by
  simp only [State.releaseReservation,bind_eq_ok,pure_eq_ok] at h
  obtain ⟨-,-,rfl⟩ := h
  constructor <;> rfl

variable {reservation : Option ℕ}

lemma dropGrant_same (h : s.dropGrant reservation amount = .ok s') : s.Same s' := by
  simp only [State.dropGrant] at h
  split_ifs at h with hz
  · obtain rfl := Except.ok.inj h
    exact State.Same.refl s
  · cases reservation with
    | none => exact releaseReservation_same h
    | some i => exact updateReservation_same h

lemma reserve_same {c : Config} (h : reserve c s amount = .ok s') : s.Same s' := by
  simp only [reserve,bind_eq_ok] at h
  obtain ⟨free,-,h⟩ := h
  split_ifs at h <;> obtain rfl := pure_eq_ok.mp h <;> constructor <;> rfl

lemma reserveAtMost_same {c : Config} (h : reserveAtMost c s amount = .ok s') : s.Same s' := by
  simp only [reserveAtMost,bind_eq_ok,pure_eq_ok] at h
  obtain ⟨-,-,rfl⟩ := h
  constructor <;> rfl

lemma dropReservation_same (h : dropReservation s i = .ok s') : s.Same s' := by
  simp only [dropReservation,bind_eq_ok] at h
  obtain ⟨-,-,r,-,h⟩ := h
  cases r with
  | none => simp at h
  | some r =>
    simp only [bind_eq_ok,pure_eq_ok] at h
    obtain ⟨-,-,s1,h1,rfl⟩ := h
    have hs := releaseReservation_same h1
    exact { hs with }

lemma hold_same (h : hold s i amount = .ok s') : s.Same s' := by
  simp only [hold,bind_eq_ok] at h
  obtain ⟨r,-,h⟩ := h
  cases r with
  | none => simp at h
  | some r =>
    simp only [bind_eq_ok] at h
    obtain ⟨o,-,h⟩ := h
    cases o <;> obtain rfl := pure_eq_ok.mp h <;> constructor <;> rfl

lemma holdAtMost_same (h : holdAtMost s i amount = .ok s') : s.Same s' := by
  simp only [holdAtMost,bind_eq_ok] at h
  obtain ⟨r,-,h⟩ := h
  cases r with
  | none => simp at h
  | some r =>
    simp only [bind_eq_ok,pure_eq_ok] at h
    obtain ⟨-,-,rfl⟩ := h
    constructor <;> rfl

lemma dropHold_same (h : dropHold s i = .ok s') : s.Same s' := by
  simp only [dropHold,bind_eq_ok,pure_eq_ok] at h
  obtain ⟨x,-,s1,h1,rfl⟩ := h
  exact { updateReservation_same h1 with }

variable {t : ℕ} {tx : Transaction}

section Shape

def Mutation.Simple (m : Mutation) : Prop :=
  m.kind = .allocator ∧ (m.item.value.delta = -1 ∨ m.item.value.delta = 1)

structure Granted (b requested granted : ℕ) : Prop where
  dvd : b ∣ granted
  pos : 0 < granted
  le : granted ≤ requested

structure Transaction.Ok (b : ℕ) (tx : Transaction) : Prop where
  simple : ∀ m ∈ tx.mutations,m.Simple
  granted : ∀ requested granted,tx.phase = .waiting requested granted → Granted b requested granted

def Allocation.Ok (b : ℕ) (a : Allocation) : Prop :=
  match a.stage with
  | .locked granted => Granted b a.requested granted
  | .erasing granted _ => Granted b a.requested granted
  | .found granted range => range.length ≤ granted ∧ granted ≤ a.requested
  | .forgotten range => range.length ≤ a.requested
  | .counted range => range.length ≤ a.requested

def Commit.Ok (k : Commit) : Prop := ∀ m ∈ k.mutations,m.Simple

/-- Layers in order, and nothing in flight but what the operations put there. -/
structure State.Shape (b : ℕ) (s : State) : Prop where
  tree : IsAllocatorLayer s.tree
  reserved : IsReservedLayer s.reservedAllocations
  transactions : ∀ tx ∈ s.transactions,tx.Ok b
  allocation : ∀ a ∈ s.allocation,a.Ok b
  commit : ∀ k ∈ s.commit,k.Ok

structure Refines (b n : ℕ) (s s' : State) : Prop where
  shape : s'.Shape b
  move : Space.Move b n s.space s'.space

lemma Refines.of_space_eq (hs : s'.Shape b) (h : s'.space = s.space) : Refines b n s s' := ⟨hs,h ▸ .refl⟩

lemma State.Same.shape (h : s.Same s') (hs : s.Shape b) : s'.Shape b where
  tree := h.tree ▸ hs.tree
  reserved := h.reservedAllocations ▸ hs.reserved
  transactions := h.transactions ▸ hs.transactions
  allocation := h.allocation ▸ hs.allocation
  commit := h.commit ▸ hs.commit

lemma State.Same.refines (h : s.Same s') (hs : s.Shape b) : Refines b n s s' :=
  .of_space_eq (h.shape hs) h.space

lemma ok_of_mem_set {tx' : Transaction} (hs : s.Shape b) (htx : tx'.Ok b) : ∀ tx ∈ s.transactions.set t tx',tx.Ok b := by
  intro tx htx'
  rcases List.mem_or_eq_of_mem_set htx' with h | rfl
  · exact hs.transactions tx h
  · exact htx

lemma State.Shape.ok_of_getElem? (hs : s.Shape b) (h : s.transactions[t]? = some tx) : tx.Ok b :=
  hs.transactions tx (List.mem_of_getElem? h)

lemma activeTransaction_eq_ok : s.activeTransaction t = .ok tx ↔ s.transactions[t]? = some tx ∧ tx.phase = .active := by
  simp only [State.activeTransaction,bind_eq_ok,lookup_eq_ok,require_eq_ok,pure_eq_ok,exists_const]
  constructor
  · rintro ⟨tx',h,hp,rfl⟩
    exact ⟨h,hp⟩
  · rintro ⟨h,hp⟩
    exact ⟨tx,h,hp,rfl⟩

@[simp] lemma freeing_active (r : Option ℕ) (ms : List Mutation) : freeing ⟨r,ms,.active⟩ = freeRanges ms := rfl

lemma freeing_of_active (h : tx.phase = .active) : tx.freeing = freeRanges tx.mutations := by simp [freeing,h]

lemma space_set_eq {t : ℕ} {tx tx' : Transaction} (h : s.transactions[t]? = some tx) (ha : tx'.allocs = tx.allocs)
    (hf : tx'.freeing = tx.freeing) : (s.setTransaction t tx').space = s.space := by
  simp only [State.space,State.setTransaction,sum_set_eq h ha,sum_set_eq h hf]

end Shape

section Reservations

variable {c : Config}

lemma newTransaction_refines (hs : s.Shape b) (h : newTransaction s reservation = .ok s') : Refines b n s s' := by
  simp only [newTransaction,bind_eq_ok,require_eq_ok,pure_eq_ok] at h
  obtain ⟨-,-,rfl⟩ := h
  refine .of_space_eq { hs with transactions := fun tx htx => ?_ } ?_
  · rcases List.mem_append.mp htx with htx | htx
    · exact hs.transactions tx htx
    · obtain rfl : tx = ⟨reservation,[],.active⟩ := by simpa using htx
      exact ⟨by simp,by simp⟩
  · simp [State.space,allocs]

/-- What callers have to see to: block aligned reservations, no deallocation of nothing
or of what an open transaction deallocates already, and no marking of a range that is
in use. -/
def Careful (b : ℕ) (s : State) : Action → Prop
  | .allocateReserve t len =>
    ∀ tx ∈ s.transactions[t]?,∀ i ∈ tx.allocatorReservation,
      ∀ r ∈ (s.reservations[i]?).join,b ∣ min len (r.amount-r.reserved)
  | .deallocate _ range =>
    range.start < range.stop ∧ range.Aligned b ∧ ∀ r ∈ s.space.freeing,r.Apart range
  | .markAllocated _ range =>
    range.start < range.stop ∧ range.Aligned b ∧
      (∀ i ∈ s.tree++s.reservedAllocations,i.key.deviceRange.Apart range) ∧
      ∀ r ∈ s.space.found,r.Apart range
  | _ => True

instance (b : ℕ) (s : State) (a : Action) : Decidable (Careful b s a) := by
  cases a <;> unfold Careful <;> infer_instance

inductive AllocateReserved (c : Config) (s : State) (t len : ℕ) : State → Prop
  | refused : AllocateReserved c s t len s
  | fromDevice {tx : Transaction} {free granted : ℕ} : s.transactions[t]? = some tx →
      tx.phase = .active → tx.allocatorReservation = none →
      c.deviceSize = free+s.inner.takenBytes →
      granted = roundDown (min len free) c.blockSize → granted ≠ 0 →
      AllocateReserved c s t len { s with
        inner := { s.inner with reservedBytes := s.inner.reservedBytes+granted }
        transactions := s.transactions.set t { tx with phase := .waiting len granted } }
  | fromReservation {tx : Transaction} {i avail granted : ℕ} {r : ReservationInner} :
      s.transactions[t]? = some tx → tx.phase = .active → tx.allocatorReservation = some i →
      s.reservations[i]? = some (some r) → r.amount = avail+r.reserved →
      granted = min len avail → granted ≠ 0 →
      AllocateReserved c s t len { s with
        reservations := s.reservations.set i (some ⟨r.amount,r.reserved+granted⟩)
        transactions := s.transactions.set t { tx with phase := .waiting len granted } }

lemma allocateReserve_spec {len : ℕ} (h : allocateReserve c s t len = .ok s') : AllocateReserved c s t len s' := by
  simp only [allocateReserve,bind_eq_ok,require_eq_ok,activeTransaction_eq_ok] at h
  obtain ⟨-,-,⟨reservation,ms,phase⟩,⟨htx,hph⟩,h⟩ := h
  cases reservation with
  | none =>
    simp only [bind_eq_ok,sub_eq_ok] at h
    obtain ⟨free,hfree,h⟩ := h
    split_ifs at h with hz <;> obtain rfl := pure_eq_ok.mp h
    · exact .refused
    · exact .fromDevice htx hph rfl hfree rfl hz
  | some i =>
    simp only [bind_eq_ok,lookup_eq_ok] at h
    obtain ⟨o,ho,h⟩ := h
    cases o with
    | none => simp at h
    | some r =>
      simp only [bind_eq_ok,ReservationInner.reserveAtMost,sub_eq_ok,pure_eq_ok] at h
      obtain ⟨-,⟨avail,havail,rfl⟩,h⟩ := h
      simp only at h
      split_ifs at h with hz <;> obtain rfl := pure_eq_ok.mp h
      · exact .refused
      · exact .fromReservation htx hph rfl ho havail rfl hz

lemma allocateReserve_refines {len : ℕ} (hb : b ∣ c.blockSize) (hs : s.Shape b)
    (hcare : Careful b s (.allocateReserve t len)) (h : allocateReserve c s t len = .ok s') : Refines b n s s' := by
  have hwait : ∀ {tx granted},s.transactions[t]? = some tx → Granted b len granted →
      Transaction.Ok b { tx with phase := .waiting len granted } := by
    intro tx granted htx hg
    refine ⟨(hs.ok_of_getElem? htx).simple,fun requested granted' hp => ?_⟩
    cases hp
    exact hg
  have hspace : ∀ {tx granted},s.transactions[t]? = some tx → tx.phase = .active →
      (s.setTransaction t { tx with phase := .waiting len granted }).space = s.space := by
    intro tx granted htx hph
    exact space_set_eq htx rfl (by simp [freeing,hph])
  cases allocateReserve_spec h with
  | refused => exact (State.Same.refl s).refines hs
  | fromDevice htx hph _ _ hgranted hz =>
    have hg : Granted b len _ := ⟨hgranted ▸ hb.trans (dvd_roundDown _ _),Nat.pos_of_ne_zero hz,
      hgranted ▸ (roundDown_le _ _).trans (min_le_left _ _)⟩
    exact .of_space_eq { hs with transactions := ok_of_mem_set hs (hwait htx hg) } (hspace htx hph)
  | @fromReservation tx i avail granted r htx hph hres hr havail hgranted hz =>
    have hdvd := hcare tx htx i hres r (by simp [hr])
    rw [havail,Nat.add_sub_cancel] at hdvd
    have hg : Granted b len _ := ⟨hgranted ▸ hdvd,Nat.pos_of_ne_zero hz,hgranted ▸ min_le_left _ _⟩
    exact .of_space_eq { hs with transactions := ok_of_mem_set hs (hwait htx hg) } (hspace htx hph)

end Reservations

section Allocate

variable {c : Config}

lemma allocateLock_refines (hs : s.Shape b) (h : allocateLock c s t = .ok s') : Refines b n s s' := by
  simp only [allocateLock,bind_eq_ok,lookup_eq_ok] at h
  obtain ⟨⟨reservation,ms,phase⟩,htx,h⟩ := h
  have hok := hs.ok_of_getElem? htx
  cases phase with
  | waiting requested granted =>
    simp only [bind_eq_ok,require_eq_ok,pure_eq_ok] at h
    obtain ⟨-,hnone,-,-,rfl⟩ := h
    refine .of_space_eq { hs with
      transactions := ok_of_mem_set hs ⟨hok.simple,by simp⟩
      allocation := of_some_eq (hok.granted requested granted rfl) } ?_
    have hset := @space_set_eq s t _ ⟨reservation,ms,.allocating⟩ htx rfl rfl
    rw [← hset]
    simp [State.space,State.setTransaction,hnone,erasing,found]
  | _ => simp at h

variable {ms : List Mutation}

variable {m : Mutation}

lemma addMutation_perm (h : ∀ x ∈ ms,m.cmp x ≠ .eq) : (addMutation m ms).Perm (m::ms) := by
  induction ms with
  | nil => exact List.Perm.refl _
  | cons x xs ih =>
    have hx := h x (by simp)
    have hrest := ih fun y hy => h y (by simp [hy])
    cases hc : m.cmp x with
    | lt => simp [addMutation,hc]
    | eq => exact absurd hc hx
    | gt =>
      simp only [addMutation,hc]
      exact (hrest.cons x).trans (List.Perm.swap _ _ _)

variable {ms' : List Mutation}

lemma allocRanges_perm (h : ms.Perm ms') : allocRanges ms = allocRanges ms' := (h.map _).sum_eq

lemma freeRanges_perm (h : ms.Perm ms') : freeRanges ms = freeRanges ms' := (h.map _).sum_eq

/-- An allocation of `range`, as `allocate` and `mark_allocated` make it. -/
def allocationOf (range : Range) : Mutation := ⟨.allocator,⟨⟨range⟩,⟨1⟩,0⟩⟩

@[simp] lemma alloc_allocationOf (range : Range) : (allocationOf range).alloc = {range} := by
  simp [Mutation.alloc,allocationOf,Mutation.range]

@[simp] lemma free_allocationOf (range : Range) : (allocationOf range).free = 0 := by
  simp [Mutation.free,allocationOf]

lemma ok_addMutation {r : Option ℕ} (hm : m.Simple) (hms : ∀ x ∈ ms,x.Simple)
    (hne : ∀ x ∈ ms,m.cmp x ≠ .eq) : Transaction.Ok b ⟨r,addMutation m ms,.active⟩ := by
  refine ⟨fun x hx => ?_,by simp⟩
  rcases List.mem_cons.mp ((addMutation_perm hne).subset hx) with rfl | hx
  · exact hm
  · exact hms x hx

variable {range : Range}

lemma space_addAllocation {reserved : List AllocatorItem} (htx : s.transactions[t]? = some tx)
    (hph : tx.freeing = freeRanges tx.mutations) (hne : ∀ x ∈ tx.mutations,(allocationOf range).cmp x ≠ .eq)
    (hr : ranges reserved = {range}+ranges s.reservedAllocations) (r : Option ℕ) : State.space { s with
      reservedAllocations := reserved
      transactions := s.transactions.set t ⟨r,addMutation (allocationOf range) tx.mutations,.active⟩ } =
      { s.space with
        reserved := {range}+s.space.reserved,allocs := {range}+s.space.allocs } := by
  have hperm := addMutation_perm hne
  obtain ⟨as,has,hset,-⟩ := sum_set htx allocs
  obtain ⟨fs,hfs,hset',-⟩ := sum_set htx freeing
  have ha : allocs ⟨r,addMutation (allocationOf range) tx.mutations,.active⟩ = {range}+tx.allocs := by
    rw [allocs,allocRanges_perm hperm,allocRanges_cons,alloc_allocationOf]
    rfl
  have hf : freeing ⟨r,addMutation (allocationOf range) tx.mutations,.active⟩ =
      tx.freeing := by rw [freeing_active,freeRanges_perm hperm,freeRanges_cons,free_allocationOf,zero_add,hph]
  simp only [State.space,hset,hset',ha,hf,has,hfs,hr,add_assoc]

lemma allocateFail_refines (hs : s.Shape b) (h : allocateFail s t = .ok s') : Refines b n s s' := by
  simp only [allocateFail,bind_eq_ok,lookup_eq_ok] at h
  obtain ⟨tx,htx,h⟩ := h
  have hfreeing : tx.phase.grant ≠ none → tx.freeing = freeRanges tx.mutations := by
    cases hph : tx.phase <;> simp [Phase.grant,freeing,hph]
  cases hg : tx.phase.grant with
  | none => simp [hg] at h
  | some granted =>
    simp only [hg,bind_eq_ok,pure_eq_ok] at h
    obtain ⟨s1,h1,rfl⟩ := h
    have hsame := dropGrant_same h1
    have hshape := hsame.shape hs
    have hok := hs.ok_of_getElem? htx
    rw [← hsame.transactions] at htx
    refine .of_space_eq { hshape with
      transactions := ok_of_mem_set hshape ⟨hok.simple,by simp⟩ } ?_
    have hset := @space_set_eq s1 t tx { tx with phase := .active } htx rfl (hfreeing (by simp [hg])).symm
    exact hset.trans hsame.space

variable {a : Allocation} {granted : ℕ} (hs : s.Shape b) (ha : s.allocation = some a)
  (h : allocateStep c s = .ok s')
include hs ha h

lemma allocateStep_locked (hstage : a.stage = .locked granted) : Refines b n s s' := by
  simp only [allocateStep,ha,hstage,pure_eq_ok] at h
  subst h
  have hok := hs.allocation a ha
  simp only [Allocation.Ok,hstage] at hok
  refine .of_space_eq { hs with allocation := of_some_eq hok } ?_
  simp [State.space,ha,erasing,found,hstage]

lemma allocateStep_erasing {i : AllocatorItem} {dropped : List AllocatorItem} (hsafe : s.space.Safe b n)
    (hstage : a.stage = .erasing granted (i::dropped)) : Refines b n s s' := by
  simp only [allocateStep,ha,hstage,pure_eq_ok] at h
  subst h
  have hok := hs.allocation a ha
  simp only [Allocation.Ok,hstage] at hok
  have hcons : ranges (i::dropped) = {i.key.deviceRange}+ranges dropped := ranges_middle [] dropped i
  obtain ⟨ss,hss⟩ : ∃ ss,ss = ranges s.inner.droppedAllocations+ranges dropped+
    (s.inner.committedDeallocated.map Prod.snd : List Range)+
    s.flush.elim 0 (fun f => (f.deallocs : Multiset Range))+s.commit.elim 0 Commit.stale := ⟨_,rfl⟩
  have hstale : s.space.stale = {i.key.deviceRange}+ss := by
    simp only [State.space,ha,Option.elim_some,erasing,hstage,hcons,hss]
    abel
  have hmem : i.key.deviceRange ∈ ranges s.reservedAllocations :=
    Multiset.mem_of_le hsafe.held_le (by rw [hstale]; simp)
  obtain ⟨hlayer,hranges⟩ := erase_spec hs.reserved hmem
  refine ⟨{ hs with reserved := hlayer,allocation := of_some_eq hok },?_⟩
  have hspace : State.space { s with
      reservedAllocations := SkipListLayer.erase s.reservedAllocations i.key
      allocation := some { a with stage := .erasing granted dropped } } =
      { s.space with
        reserved := ranges (SkipListLayer.erase s.reservedAllocations i.key),stale := ss } := by
    simp [State.space,ha,erasing,found,hstage,hss]
  rw [hspace]
  exact .erase hranges hstale

lemma allocateStep_search (hn : b ∣ c.deviceSize) (hsafe : s.space.Safe b c.deviceSize)
    (hstage : a.stage = .erasing granted []) : Refines b c.deviceSize s s' := by
  simp only [allocateStep,ha,hstage,bind_eq_ok] at h
  obtain ⟨out,hout,h⟩ := h
  obtain ⟨out',hout',hlayer,hsum⟩ := @merged_spec [s.reservedAllocations,s.tree]
    (by simpa using ⟨⟨hs.reserved.1,fun i hi => by simp [hs.reserved.2 i hi]⟩,hs.tree⟩)
  obtain rfl : out' = out := by simpa [hout] using hout'.symm
  have hok := hs.allocation a ha
  simp only [Allocation.Ok,hstage] at hok
  have hsum' : ∀ p,deltaAt out' p = coverage s.space.reserved p+s.space.count p := by
    intro p
    rw [hsum p]
    simp [referenceCount,State.space,deltaAt_eq_coverage hs.reserved]
  cases hg : firstGap c.deviceSize granted 0 out' with
  | some range =>
    simp only [hg,pure_eq_ok] at h
    subst h
    obtain ⟨hfree,hlen⟩ := firstGap_free hsafe hn hok.dvd hok.pos hlayer hsum' hg
    refine ⟨{ hs with allocation := of_some_eq ⟨hlen,hok.le⟩ },?_⟩
    have hspace : State.space { s with
        allocation := some { a with stage := .found granted range } } =
        { s.space with found := {range} } := by simp [State.space,ha,erasing,found,hstage]
    rw [hspace]
    exact .find hfree
  | none =>
    simp only [hg,bind_eq_ok,lookup_eq_ok,require_eq_ok,pure_eq_ok] at h
    obtain ⟨tx,htx,-,hph,rfl⟩ := h
    have hok' := hs.ok_of_getElem? htx
    refine .of_space_eq { hs with
      transactions := ok_of_mem_set hs ⟨hok'.simple,by simp⟩
      allocation := by simp } ?_
    have hset := @space_set_eq s a.transaction tx { tx with phase := .failed granted } htx rfl (by simp [freeing,hph])
    rw [← hset]
    simp [State.space,State.setTransaction,ha,erasing,found,hstage]

lemma allocateStep_found (hstage : a.stage = .found granted range) : Refines b n s s' := by
  simp only [allocateStep,ha,hstage,bind_eq_ok,pure_eq_ok] at h
  obtain ⟨rest,-,s1,h1,rfl⟩ := h
  have hsame := dropGrant_same h1
  have hok := hs.allocation a ha
  simp only [Allocation.Ok,hstage] at hok
  refine .of_space_eq { hsame.shape hs with allocation := of_some_eq (hok.1.trans hok.2) } ?_
  rw [← hsame.space]
  simp [State.space,hsame.allocation,ha,erasing,found,hstage]

lemma allocateStep_forgotten (hstage : a.stage = .forgotten range) : Refines b n s s' := by
  simp only [allocateStep,ha,hstage,bind_eq_ok,pure_eq_ok] at h
  obtain ⟨reserved,-,rfl⟩ := h
  have hok := hs.allocation a ha
  simp only [Allocation.Ok,hstage] at hok
  refine .of_space_eq { hs with allocation := of_some_eq hok } ?_
  simp [State.space,ha,erasing,found,hstage]

lemma allocateStep_counted (hsafe : s.space.Safe b n) (hstage : a.stage = .counted range) : Refines b n s s' := by
  simp only [allocateStep,ha,hstage,bind_eq_ok,lookup_eq_ok,require_eq_ok,elim_eq_ok,pure_eq_ok] at h
  obtain ⟨tx,htx,-,hph,reserved,hins,-,hne,rfl⟩ := h
  have hfound : s.space.found = {range} := by simp [State.space,ha,found,hstage]
  have hfree := hsafe.found range (by simp [hfound])
  obtain ⟨reserved',hins',hlayer,hranges⟩ := insert_spec hs.reserved hfree.nonempty
    (fun p hp => (hsafe.free_eq hfree hp).1) 0
  obtain rfl : reserved' = reserved := by simpa [hins] using hins'.symm
  have hok := hs.ok_of_getElem? htx
  refine ⟨{ hs with
    reserved := hlayer
    transactions := ok_of_mem_set hs (ok_addMutation ⟨rfl,Or.inr rfl⟩ hok.simple hne)
    allocation := by simp },?_⟩
  have hspace := space_addAllocation htx (by simp [freeing,hph]) hne hranges tx.allocatorReservation
  have heq : State.space { s with
      reservedAllocations := reserved'
      transactions := s.transactions.set a.transaction
        { tx with mutations := addMutation (allocationOf range) tx.mutations,phase := .active }
      allocation := none
      issued := s.issued++[(a.transaction,range)] } =
      { s.space with
        reserved := {range}+s.space.reserved,allocs := {range}+s.space.allocs,found := 0 } := by
    rw [Space.ext_iff] at hspace ⊢
    refine ⟨hspace.1,hspace.2.1,hspace.2.2.1,?_,hspace.2.2.2.2.1,hspace.2.2.2.2.2.1,hspace.2.2.2.2.2.2.1,rfl⟩
    simp [State.space,ha,erasing,hstage]
  exact heq ▸ .keep hfound

end Allocate

/-! Marking a range as allocated and deallocating one: what a transaction names is
neither free nor counted twice, so that the mutations they add replace none. -/

open Mutation Multiset State

variable {c : Config} {m : Mutation}

lemma Mutation.cmp_eq_iff {x : Mutation} : m.cmp x = .eq ↔ m.kind = x.kind ∧ m.range = x.range := by
  obtain ⟨k,i⟩ := m
  obtain ⟨k',i'⟩ := x
  have hrange : ∀ a a' : Range,a = a' ↔ a.start = a'.start ∧ a.stop = a'.stop := by
    intro a a'
    cases a
    cases a'
    simp
  cases k <;> cases k' <;>
    simp [cmp,rank,range,Ordering.then_eq_eq,hrange]

variable {range : Range}

variable {p : ℕ}

lemma coverage_eq_zero {m : Multiset Range} (h : ∀ r ∈ m,r.Apart range) (hp : range.Has p) : coverage m p = 0 := by
  rw [coverage,countP_eq_zero]
  exact fun r hr => (h r hr).not_has hp

lemma deltaAt_eq_zero {layer : List AllocatorItem}
    (h : ∀ i ∈ layer,i.key.deviceRange.Apart range) (hp : range.Has p) : deltaAt layer p = 0 := by
  by_contra hne
  obtain ⟨i,hi,hip⟩ := exists_mem_of_deltaAt_ne_zero hne
  exact (h i hi).not_has hp hip

lemma alloc_le_allocRanges {ms : List Mutation} (h : m ∈ ms) : m.alloc ≤ allocRanges ms :=
  List.single_le_sum (by simp) _ (List.mem_map_of_mem h)

variable {t : ℕ}

variable {tx : Transaction}

lemma allocs_le_space (h : s.transactions[t]? = some tx) : tx.allocs+s.commit.elim 0 Commit.allocs ≤ s.space.allocs := by
  obtain ⟨rest,hsum,-⟩ := sum_set h allocs
  simp only [space,hsum]
  exact add_le_add_left (le_add_right _ _) _

lemma freeing_le_space (h : s.transactions[t]? = some tx) : tx.freeing ≤ s.space.freeing := by
  obtain ⟨rest,hsum,-⟩ := sum_set h freeing
  simp only [space,hsum]
  exact (le_add_right _ _).trans (le_add_right _ _)

lemma arriving_le_allocs (k : Commit) : k.arriving ≤ k.allocs := by
  simp only [Commit.arriving,Commit.allocs]
  cases k.mutations with
  | nil => simp
  | cons m rest => cases k.stage <;> simp

lemma arriving_le_space : s.space.arriving ≤ s.commit.elim 0 Commit.allocs := by
  cases hk : s.commit with
  | none => simp [space,hk]
  | some k => simpa [space,hk] using arriving_le_allocs k

lemma count_le_one (hsafe : s.space.Safe b n) (p : ℕ) : deltaAt s.tree p ≤ 1 := by
  have hle : s.space.arriving ≤ s.space.allocs := arriving_le_space.trans (le_add_left _ _)
  have hcov := coverage_le hle p
  have howned := hsafe.owned p
  have hcount : s.space.count p = deltaAt s.tree p := rfl
  omega

lemma coverage_of_mutation (hsafe : s.space.Safe b n) (htx : s.transactions[t]? = some tx)
    (hph : tx.phase = .active) (hm : m ∈ tx.mutations) (hsimple : m.Simple) (hp : m.range.Has p) :
    (m.alloc = {m.range} ∧ s.space.count p ≤ 0 ∧ 0 < coverage s.space.reserved p) ∨
      m.free = {m.range} ∧ 0 < coverage s.space.freeing p := by
  obtain ⟨hk,hd | hd⟩ := hsimple
  · have hfree : m.free = {m.range} := by simp [free,hd]
    refine .inr ⟨hfree,?_⟩
    have hle : m.free ≤ freeRanges tx.mutations :=
      List.single_le_sum (by simp) _ (List.mem_map_of_mem hm)
    replace hle := hle.trans (freeing_of_active hph ▸ freeing_le_space htx)
    exact coverage_pos (mem_of_le hle (by simp [hfree])) hp
  · have halloc : m.alloc = {m.range} := by simp [alloc,hk,hd]
    refine .inl ⟨halloc,?_,?_⟩
    · have hle : m.alloc+s.space.arriving ≤ s.space.allocs := by
        exact (add_le_add (alloc_le_allocRanges hm) arriving_le_space).trans (allocs_le_space htx)
      have hcov := coverage_le hle p
      have howned := hsafe.owned p
      rw [halloc,coverage_add,coverage_singleton,if_pos hp] at hcov
      omega
    · have hle : m.alloc ≤ s.space.reserved := (alloc_le_allocRanges hm).trans ((le_add_right _ _).trans
          ((allocs_le_space htx).trans ((le_add_right _ _).trans hsafe.held_le)))
      exact coverage_pos (mem_of_le hle (by simp [halloc])) hp

lemma markAllocated_spec (hs : s.Shape b)
    (hsafe : s.space.Safe b c.deviceSize) (hcare : Careful b s (.markAllocated t range))
    (h : markAllocated c s t range = .ok s') : s' = s ∨ ∃ tx free reserved reservations,
      s.transactions[t]? = some tx ∧ tx.phase = .active ∧ c.deviceSize = free+s.inner.takenBytes ∧ range.length ≤ free ∧
      takeHold s tx.allocatorReservation range.length = .ok (some reservations) ∧ s.space.Free b c.deviceSize range ∧
      (∀ x ∈ tx.mutations,(allocationOf range).cmp x ≠ .eq) ∧ IsReservedLayer reserved ∧
      ranges reserved = {range}+ranges s.reservedAllocations ∧ s' = { s with
        reservations := reservations
        inner := { s.inner with
          uncommittedAllocatedBytes := s.inner.uncommittedAllocatedBytes+range.length }
        reservedAllocations := reserved
        transactions := s.transactions.set t
          { tx with mutations := addMutation (allocationOf range) tx.mutations } } := by
  obtain ⟨hlt,haligned,happart,-⟩ := hcare
  simp only [markAllocated,bind_eq_ok,activeTransaction_eq_ok] at h
  obtain ⟨tx,⟨htx,hph⟩,h⟩ := h
  split_ifs at h with hvalid
  · exact .inl (pure_eq_ok.mp h).symm
  · simp only [bind_eq_ok,sub_eq_ok] at h
    obtain ⟨free,hfree',h⟩ := h
    split_ifs at h with hspace
    · exact .inl (pure_eq_ok.mp h).symm
    · simp only [bind_eq_ok] at h
      obtain ⟨o,ho,h⟩ := h
      cases o with
      | none => exact .inl (pure_eq_ok.mp h).symm
      | some reservations =>
        simp only [bind_eq_ok,elim_eq_ok,pure_eq_ok] at h
        obtain ⟨reserved,hins,rfl⟩ := h
        have hcov : ∀ p,range.Has p → coverage (ranges s.reservedAllocations) p = 0 ∧ deltaAt s.tree p = 0 := by
          intro p hp
          rw [← Int.natCast_eq_zero,← deltaAt_eq_coverage hs.reserved]
          exact ⟨deltaAt_eq_zero (fun i hi => happart i (by simp [hi])) hp,
            deltaAt_eq_zero (fun i hi => happart i (by simp [hi])) hp⟩
        have hfree : s.space.Free b c.deviceSize range := by
          refine ⟨hlt,haligned,by omega,fun p hp => ?_⟩
          obtain ⟨h1,h2⟩ := hcov p hp
          simp [space,h1,h2]
        obtain ⟨reserved',hins',hlayer,hranges⟩ := insert_spec hs.reserved hlt (fun p hp => (hcov p hp).1) 0
        obtain rfl : reserved' = reserved := by simpa [hins] using hins'.symm
        have hok := hs.ok_of_getElem? htx
        have hne : ∀ x ∈ tx.mutations,(allocationOf range).cmp x ≠ .eq := by
          intro x hx heq
          have hr : range = x.range := (cmp_eq_iff.mp heq).2
          have hp : range.Has range.start := ⟨le_rfl,hlt⟩
          have hz := hsafe.free_eq hfree hp
          have hf := hsafe.freeing_le range.start
          have hxp : x.range.Has range.start := by rw [← hr]; exact hp
          rcases coverage_of_mutation hsafe htx hph hx (hok.simple x hx) hxp with
            ⟨-,-,hpos⟩ | ⟨-,hpos⟩ <;> omega
        exact .inr ⟨tx,free,reserved',reservations,htx,hph,hfree',not_lt.mp hspace,ho,hfree,hne,hlayer,hranges,rfl⟩

lemma markAllocated_refines (hs : s.Shape b)
    (hsafe : s.space.Safe b c.deviceSize) (hcare : Careful b s (.markAllocated t range))
    (h : markAllocated c s t range = .ok s') : Refines b c.deviceSize s s' := by
  rcases markAllocated_spec hs hsafe hcare h with
    rfl | ⟨⟨reservation,ms,phase⟩,free,reserved,reservations,htx,hph,-,-,-,hfree,hne,hlayer,hranges,rfl⟩
  · exact (State.Same.refl s').refines hs
  · obtain rfl : phase = .active := hph
    have hok := hs.ok_of_getElem? htx
    refine ⟨{ hs with
      reserved := hlayer
      transactions := ok_of_mem_set hs (ok_addMutation ⟨rfl,.inr rfl⟩ hok.simple hne) },?_⟩
    have heq := space_addAllocation htx rfl hne hranges reservation
    exact heq.symm ▸ .mark hfree fun p hp => coverage_eq_zero hcare.2.2.2 hp

section Deallocate

lemma foldl_addMutation_perm {ms xs : List Mutation} (hms : ms.Pairwise fun x y => y.cmp x ≠ .eq)
    (hxs : ∀ m ∈ ms,∀ x ∈ xs,m.cmp x ≠ .eq) : (ms.foldl (fun xs m => addMutation m xs) xs).Perm (ms++xs) := by
  induction ms generalizing xs with
  | nil => exact List.Perm.refl _
  | cons m ms ih =>
    obtain ⟨hm,hms⟩ := List.pairwise_cons.mp hms
    have hperm := addMutation_perm (hxs m (by simp))
    have hrest := @ih (addMutation m xs) hms (by
      intro y hy x hx
      rcases List.mem_cons.mp (hperm.subset hx) with rfl | hx
      · exact hm y hy
      · exact hxs y (by simp [hy]) x hx)
    refine hrest.trans ((hperm.append_left ms).trans ?_)
    exact List.perm_middle

variable {low high : ℕ} {count : ℕ → ℤ} {ms : List Mutation}

lemma coverage_freeRanges_le_one (h : Deallocates b count low high ms) (p : ℕ) : coverage (freeRanges ms) p ≤ 1 ∧
      (0 < coverage (freeRanges ms) p → low ≤ p ∧ p < high ∧ 1 ≤ count p) := by
  induction ms generalizing low with
  | nil => simp
  | cons m ms ih =>
    obtain ⟨hle,hord⟩ := List.pairwise_cons.mp h.ordered
    have hfree : m.free = {m.range} := by simp [free,h.delta m (by simp)]
    have hw := h.within m (by simp)
    have hrest : Deallocates b count m.range.stop high ms :=
      ⟨fun x hx => h.delta x (by simp [hx]),fun x hx => h.nonempty x (by simp [hx]),
        fun x hx => h.aligned x (by simp [hx]),fun x hx => ⟨hle x hx,(h.within x (by simp [hx])).2⟩,
        fun x hx => h.counted x (by simp [hx]),fun x hx => h.kind x (by simp [hx]),hord⟩
    obtain ⟨hone,hpos⟩ := ih hrest
    rw [freeRanges_cons,coverage_add,hfree,coverage_singleton]
    by_cases hp : m.range.Has p
    · have hz : coverage (freeRanges ms) p = 0 := by
        by_contra hne
        have hlow := (hpos (Nat.pos_of_ne_zero hne)).1
        exact absurd (hp.2.trans_le hlow) (lt_irrefl p)
      have hc := h.counted m (by simp) p hp
      have h1 := hp.1
      have h2 := hp.2
      rw [if_pos hp,hz]
      exact ⟨le_rfl,fun _ => ⟨by omega,by omega,hc⟩⟩
    · rw [if_neg hp,zero_add]
      have hne := h.nonempty m (by simp)
      exact ⟨hone,fun hc => ⟨by have := (hpos hc).1; omega,(hpos hc).2⟩⟩

lemma mem_freeRanges {r : Range} (h : r ∈ freeRanges ms) : ∃ m ∈ ms,m.range = r := by
  induction ms with
  | nil => simp at h
  | cons m ms ih =>
    rw [freeRanges_cons,mem_add] at h
    rcases h with h | h
    · simp only [free] at h
      split_ifs at h with hd
      · exact ⟨m,by simp,(mem_singleton.mp h).symm⟩
      · simp at h
    · obtain ⟨x,hx,hr⟩ := ih h
      exact ⟨x,by simp [hx],hr⟩

variable (xs ys : List Mutation)

lemma freeRanges_append : freeRanges (xs++ys) = freeRanges xs+freeRanges ys := by simp [freeRanges]

lemma allocRanges_append : allocRanges (xs++ys) = allocRanges xs+allocRanges ys := by simp [allocRanges]

lemma allocRanges_eq_zero (h : ∀ m ∈ ms,m.item.value.delta = -1) : allocRanges ms = 0 := by
  apply List.sum_eq_zero
  exact List.forall_mem_map.mpr fun m hm => by simp [alloc,h m hm]

lemma deallocate_spec (hs : s.Shape b) (hsafe : s.space.Safe b n) (hcare : Careful b s (.deallocate t range))
    (h : deallocate s t range = .ok s') : ∃ tx ms ms',s.transactions[t]? = some tx ∧ tx.phase = .active ∧
      Deallocates b (deltaAt s.tree) range.start range.stop ms ∧ ms'.Perm (ms++tx.mutations) ∧
      s' = s.setTransaction t { tx with mutations := ms' } := by
  obtain ⟨hlt,haligned,happart⟩ := hcare
  simp only [deallocate,bind_eq_ok,activeTransaction_eq_ok] at h
  obtain ⟨tx,⟨htx,hph⟩,h⟩ := h
  have hvalid : range.valid := hlt.le
  rw [if_neg (not_not.mpr hvalid)] at h
  simp only [bind_eq_ok,elim_eq_ok,pure_eq_ok] at h
  obtain ⟨items,hitems,rfl⟩ := h
  obtain ⟨items',hitems',hdealloc⟩ := deallocate_search hs.tree hsafe.count_nonneg hsafe.count_block hlt haligned
  obtain rfl : items' = items := by simpa [hitems] using hitems'.symm
  obtain ⟨ms,hms⟩ : ∃ ms,ms = (deallocateLoop range none 0 items').1 := ⟨_,rfl⟩
  rw [← hms] at hdealloc ⊢
  have hok := hs.ok_of_getElem? htx
  have hpair : ms.Pairwise fun x y => y.cmp x ≠ .eq := by
    refine hdealloc.ordered.imp_of_mem fun {x y} hx hy hle heq => ?_
    have hr := (cmp_eq_iff.mp heq).2
    have hne := hdealloc.nonempty x hx
    rw [hr] at hle
    omega
  have hnew : ∀ m ∈ ms,∀ x ∈ tx.mutations,m.cmp x ≠ .eq := by
    intro m hm x hx heq
    have hr := (cmp_eq_iff.mp heq).2
    have hne := hdealloc.nonempty m hm
    have hw := hdealloc.within m hm
    have hp : m.range.Has m.range.start := ⟨le_rfl,hne⟩
    have hxp : x.range.Has m.range.start := by rw [← hr]; exact hp
    have hc := hdealloc.counted m hm _ hp
    have hz : coverage s.space.freeing m.range.start = 0 :=
      coverage_eq_zero happart ⟨hw.1,by omega⟩
    have hcount : s.space.count m.range.start = deltaAt s.tree m.range.start := rfl
    rcases coverage_of_mutation hsafe htx hph hx (hok.simple x hx) hxp with
      ⟨-,hle,-⟩ | ⟨-,hpos⟩ <;> omega
  exact ⟨tx,ms,_,htx,hph,hdealloc,foldl_addMutation_perm hpair hnew,rfl⟩

lemma deallocate_refines (hs : s.Shape b) (hsafe : s.space.Safe b n) (hcare : Careful b s (.deallocate t range))
    (h : deallocate s t range = .ok s') : Refines b n s s' := by
  obtain ⟨⟨reservation,xs,phase⟩,ms,ms',htx,hph,hdealloc,hperm,rfl⟩ := deallocate_spec hs hsafe hcare h
  obtain rfl : phase = .active := hph
  have hok := hs.ok_of_getElem? htx
  refine ⟨{ hs with transactions := ok_of_mem_set hs ⟨fun x hx => ?_,by simp⟩ },?_⟩
  · rcases List.mem_append.mp (hperm.subset hx) with hx | hx
    · have hne := hdealloc.nonempty x hx
      have hone := count_le_one hsafe (x.range.stop-1)
      have hpos := hdealloc.counted x hx (x.range.stop-1) ⟨by omega,by omega⟩
      exact ⟨(hdealloc.kind x hx).mpr (le_antisymm hone hpos),.inl (hdealloc.delta x hx)⟩
    · exact hok.simple x hx
  · obtain ⟨as,has,hset,-⟩ := sum_set htx allocs
    obtain ⟨fs,hfs,hset',-⟩ := sum_set htx freeing
    have hspace : (s.setTransaction t ⟨reservation,ms',.active⟩).space =
        { s.space with freeing := freeRanges ms+s.space.freeing } := by
      simp only [space,setTransaction,hset,hset',has,hfs,freeing_active,
        allocs,allocRanges_perm hperm,freeRanges_perm hperm,freeRanges_append,
        allocRanges_append,allocRanges_eq_zero hdealloc.delta,zero_add,add_assoc]
    rw [hspace]
    refine .pend (fun r hr => ?_) fun p => ?_
    · obtain ⟨m,hm,rfl⟩ := mem_freeRanges hr
      exact ⟨hdealloc.nonempty m hm,hdealloc.aligned m hm⟩
    · obtain ⟨hone,hpos⟩ := coverage_freeRanges_le_one hdealloc p
      have hf := hsafe.freeing_le p
      have hcount : s.space.count p = deltaAt s.tree p := rfl
      rw [coverage_add]
      rcases Nat.eq_zero_or_pos (coverage (freeRanges ms) p) with hz | hz
      · omega
      · obtain ⟨h1,h2,h3⟩ := hpos hz
        have hz' : coverage s.space.freeing p = 0 := coverage_eq_zero hcare.2.2 ⟨h1,h2⟩
        omega

end Deallocate

end Fuchsia.Fxfs.SimpleAllocator
