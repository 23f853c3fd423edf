import Fuchsia.Fxfs.AllocatorLedger
import Fuchsia.Fxfs.AllocatorHistory

/-! The allocator's counters, seen as books: every action of careful callers makes
entries that the abstract ledger allows. -/
namespace Fuchsia.Fxfs.SimpleAllocator

open Slots Fallible Ledger State AllocateStage Option Finset Commit Nat
open Finsupp (single)

def Mutation.allocBytes (m : Mutation) : ℕ :=
  if m.kind = .allocator ∧ 0 < m.item.value.delta then m.range.length else 0

def allocBytes (ms : List Mutation) : ℕ := (ms.map Mutation.allocBytes).sum

@[simp] lemma allocBytes_nil : allocBytes [] = 0 := rfl
@[simp] lemma allocBytes_cons (m : Mutation) (ms : List Mutation) : allocBytes (m::ms) = m.allocBytes+allocBytes ms := by
  simp [allocBytes]

lemma allocBytes_perm {ms ms' : List Mutation} (h : ms.Perm ms') : allocBytes ms = allocBytes ms' :=
  (h.map _).sum_eq

def AllocateStage.grantedBytes : AllocateStage → ℕ
  | .locked granted => granted
  | .erasing granted _ => granted
  | .found granted _ => granted
  | .forgotten range => range.length
  | .counted _ => 0

def AllocateStage.owedBytes : AllocateStage → ℕ
  | .counted range => range.length
  | _ => 0

def Transaction.grantedBytes (tx : Transaction) : ℕ := tx.phase.grant.getD 0

noncomputable def Transaction.granted (tx : Transaction) : Option ℕ →₀ ℕ :=
  single tx.allocatorReservation tx.grantedBytes

noncomputable def Transaction.owed (tx : Transaction) : Option ℕ →₀ ℕ :=
  single tx.allocatorReservation (allocBytes tx.mutations)

noncomputable def Allocation.granted (a : Allocation) : Option ℕ →₀ ℕ :=
  single a.allocatorReservation a.stage.grantedBytes

noncomputable def Allocation.owed (a : Allocation) : Option ℕ →₀ ℕ :=
  single a.allocatorReservation a.stage.owedBytes

noncomputable def Commit.owed (k : Commit) : Option ℕ →₀ ℕ :=
  single k.allocatorReservation (allocBytes k.mutations)

def treeBytes (tree : List AllocatorItem) : ℤ :=
  (tree.map fun i => i.value.delta*(i.key.deviceRange.length : ℤ)).sum

def Mutation.freedBytes (m : Mutation) : ℕ :=
  if m.kind = .allocator ∧ m.item.value.delta < 0 then m.range.length else 0

/-- By how much the tree is ahead of the counter of allocated bytes. -/
def Commit.inFlight (k : Commit) : ℤ :=
  match k.mutations with
  | [] => 0
  | m::_ =>
    match k.stage with
    | .start => 0
    | .first => m.allocBytes
    | .second => m.allocBytes+m.freedBytes

def queuedBytes (queue : List (ℕ × Range)) (flush : Option DeviceFlush) : ℕ :=
  (queue.map fun d => d.2.length).sum+ flush.elim 0 fun f => (f.deallocs.map Range.length).sum+f.total

noncomputable def State.ledger (s : State) : Ledger where
  allocated := s.inner.allocatedBytes
  uncommitted := s.inner.uncommittedAllocatedBytes
  reserved := s.inner.reservedBytes
  deallocated := s.inner.committedDeallocatedBytes
  counted := treeBytes s.tree-s.commit.elim 0 inFlight
  queued := queuedBytes s.inner.committedDeallocated s.flush
  accounts := s.reservations
  holds := (s.holds.map fun h => single (some h.1) h.2).sum
  granted := (s.transactions.map Transaction.granted).sum+s.allocation.elim 0 Allocation.granted
  owed := (s.transactions.map Transaction.owed).sum+s.commit.elim 0 Commit.owed+
    s.allocation.elim 0 Allocation.owed

/-- The call of `allocate` uses the reservation of its transaction. -/
def State.Linked (s : State) : Prop :=
  ∀ a ∈ s.allocation,(s.transactions.map Transaction.allocatorReservation)[a.transaction]? =
    some a.allocatorReservation

structure Entered (n : ℕ) (s s' : State) : Prop where
  move : Ledger.Move n s.ledger s'.ledger
  linked : s.Linked → s'.Linked

variable {s s' : State} {b n : ℕ} {c : Config}

lemma Entered.refl (s : State) : Entered n s s := ⟨.refl,id⟩

lemma Entered.of_eq (h : s'.ledger = s.ledger) (hlinked : s.Linked → s'.Linked) : Entered n s s' :=
  ⟨h ▸ .refl,hlinked⟩

lemma State.Linked.congr (h : s.Linked) (ha : s'.allocation = s.allocation)
    (ht : s'.transactions = s.transactions) : s'.Linked := by
  unfold State.Linked
  rw [ha,ht]
  exact h

variable {t : ℕ} {tx : Transaction}

variable {tx' : Transaction}

lemma State.Linked.of_set (h : s.Linked) (htx : s.transactions[t]? = some tx)
    (ha : s'.allocation = s.allocation) (ht : s'.transactions = s.transactions.set t tx')
    (hres : tx'.allocatorReservation = tx.allocatorReservation) : s'.Linked := by
  unfold State.Linked
  rw [ha,ht,map_set_eq htx hres]
  exact h

variable {a : Allocation}

lemma State.Linked.reservation (h : s.Linked) (ha : s.allocation = some a)
    (htx : s.transactions[a.transaction]? = some tx) : a.allocatorReservation = tx.allocatorReservation := by
  have hl := h a ha
  rw [List.getElem?_map,htx] at hl
  exact (some.inj hl).symm

lemma ledger_set_eq (h : s.transactions[t]? = some tx) (hg : tx'.granted = tx.granted)
    (ho : tx'.owed = tx.owed) : (s.setTransaction t tx').ledger = s.ledger := by
  simp only [ledger,setTransaction,sum_set_eq h hg,sum_set_eq h ho]

lemma takenBytes_eq (h : s.ledger.Balanced n) (hn : n < 2^63) : (s.inner.takenBytes : ℤ) =
      s.inner.allocatedBytes+s.inner.uncommittedAllocatedBytes+s.inner.reservedBytes := by
  have hnonneg : 0 ≤ s.inner.allocatedBytes := h.nonneg
  have hwithin : s.inner.allocatedBytes+s.inner.uncommittedAllocatedBytes+ s.inner.reservedBytes ≤ n := h.within
  have hcast : (asU64 s.inner.allocatedBytes : ℤ) = s.inner.allocatedBytes := by
    rw [asU64,Int.emod_eq_of_lt hnonneg (by omega)]
    exact Int.toNat_of_nonneg hnonneg
  simp only [Inner.takenBytes,cast_add,hcast]

variable {amount : ℕ}

lemma within_of_free (h : s.ledger.Balanced n) (hn : n < 2^63) {free : ℕ} (hfree : n = free+s.inner.takenBytes)
    (hle : amount ≤ free) : s.ledger.allocated+s.ledger.uncommitted+s.ledger.reserved+amount ≤ n := by
  have htaken := takenBytes_eq h hn
  simp only [ledger]
  omega

section Reservations

lemma reserve_entered (h : s.ledger.Balanced c.deviceSize) (hn : c.deviceSize < 2^63)
    (hstep : reserve c s amount = .ok s') : Entered c.deviceSize s s' := by
  simp only [reserve,bind_eq_ok,sub_eq_ok] at hstep
  obtain ⟨free,hfree,hstep⟩ := hstep
  split_ifs at hstep with hlt <;> obtain rfl := pure_eq_ok.mp hstep
  · exact .refl s
  · exact ⟨.openAccount (within_of_free h hn hfree (not_lt.mp hlt)),fun hl => hl.congr rfl rfl⟩

lemma reserveAtMost_entered (h : s.ledger.Balanced c.deviceSize) (hn : c.deviceSize < 2^63)
    (hstep : reserveAtMost c s amount = .ok s') : Entered c.deviceSize s s' := by
  simp only [reserveAtMost,bind_eq_ok,sub_eq_ok,pure_eq_ok] at hstep
  obtain ⟨free,hfree,rfl⟩ := hstep
  exact ⟨.openAccount (within_of_free h hn hfree (min_le_left _ _)),fun hl => hl.congr rfl rfl⟩

variable {i : ℕ}

lemma dropReservation_entered (hstep : dropReservation s i = .ok s') : Entered n s s' := by
  simp only [dropReservation,bind_eq_ok,lookup_eq_ok] at hstep
  obtain ⟨-,-,o,ho,hstep⟩ := hstep
  cases o with
  | none => simp at hstep
  | some r =>
    simp only [releaseReservation,bind_eq_ok,require_eq_ok,sub_eq_ok,pure_eq_ok] at hstep
    obtain ⟨-,hz,-,⟨reserved,hres,rfl⟩,rfl⟩ := hstep
    exact ⟨.closeAccount ho hz hres,fun hl => hl.congr rfl rfl⟩

lemma holds_append (hs : List (ℕ × ℕ)) (i amount : ℕ) : ((hs++[(i,amount)]).map fun h => single (some h.1) h.2).sum =
      single (some i) amount+(hs.map fun h => single (some h.1) h.2).sum := by simp [add_comm]

lemma hold_entered (hstep : hold s i amount = .ok s') : Entered n s s' := by
  simp only [hold,bind_eq_ok,lookup_eq_ok] at hstep
  obtain ⟨o,ho,hstep⟩ := hstep
  cases o with
  | none => simp at hstep
  | some r =>
    simp only [ReservationInner.reserve,bind_eq_ok,sub_eq_ok,pure_eq_ok] at hstep
    obtain ⟨-,⟨avail,havail,rfl⟩,hstep⟩ := hstep
    by_cases hlt : avail < amount
    · simp only [if_pos hlt] at hstep
      obtain rfl := pure_eq_ok.mp hstep
      exact .refl s
    · simp only [if_neg hlt] at hstep
      obtain rfl := pure_eq_ok.mp hstep
      refine ⟨?_,fun hl => hl.congr rfl rfl⟩
      simp only [ledger,holds_append]
      exact .hold ho (by omega)

lemma holdAtMost_entered (hstep : holdAtMost s i amount = .ok s') : Entered n s s' := by
  simp only [holdAtMost,bind_eq_ok,lookup_eq_ok] at hstep
  obtain ⟨o,ho,hstep⟩ := hstep
  cases o with
  | none => simp at hstep
  | some r =>
    simp only [ReservationInner.reserveAtMost,bind_eq_ok,sub_eq_ok,pure_eq_ok] at hstep
    obtain ⟨-,⟨avail,havail,rfl⟩,rfl⟩ := hstep
    refine ⟨?_,fun hl => hl.congr rfl rfl⟩
    simp only [ledger,holds_append]
    exact .hold ho (by omega)

lemma updateReservation_release (h : s.updateReservation i (fun r => r.releaseReservation amount) = .ok s') :
    ∃ r reserved,s.reservations[i]? = some (some r) ∧ r.reserved = reserved+amount ∧
      s' = { s with reservations := s.reservations.set i (some ⟨r.amount,reserved⟩) } := by
  simp only [updateReservation,bind_eq_ok,lookup_eq_ok] at h
  obtain ⟨o,ho,h⟩ := h
  cases o with
  | none => simp at h
  | some r =>
    simp only [ReservationInner.releaseReservation,bind_eq_ok,sub_eq_ok,pure_eq_ok] at h
    obtain ⟨-,⟨reserved,hres,rfl⟩,rfl⟩ := h
    exact ⟨r,reserved,ho,hres,rfl⟩

lemma dropHold_entered (hstep : dropHold s i = .ok s') : Entered n s s' := by
  simp only [dropHold,bind_eq_ok,lookup_eq_ok,pure_eq_ok] at hstep
  obtain ⟨⟨j,amount⟩,hj,s1,h1,rfl⟩ := hstep
  obtain ⟨r,reserved,hr,hres,rfl⟩ := updateReservation_release h1
  obtain ⟨rest,hsum,-,herase⟩ := sum_set hj fun h => single (some h.1) h.2
  refine ⟨?_,fun hl => hl.congr rfl rfl⟩
  simp only [ledger,herase]
  exact .unhold hr hres hsum

lemma newTransaction_entered {reservation : Option ℕ}
    (hstep : newTransaction s reservation = .ok s') : Entered n s s' := by
  simp only [newTransaction,bind_eq_ok,require_eq_ok,pure_eq_ok] at hstep
  obtain ⟨-,-,rfl⟩ := hstep
  refine .of_eq ?_ fun hl a ha => ?_
  · simp [ledger,Transaction.granted,Transaction.owed,Transaction.grantedBytes,Phase.grant]
  · rw [List.map_append,List.getElem?_append_left]
    · exact hl a ha
    · exact (List.getElem?_eq_some_iff.mp (hl a ha)).1

end Reservations

section Allocate

lemma granted_eq_zero (h : tx.phase.grant = none) : tx.granted = 0 := by
  simp [Transaction.granted,Transaction.grantedBytes,h]

lemma allocateReserve_entered (h : s.ledger.Balanced c.deviceSize) (hn : c.deviceSize < 2^63) {len : ℕ}
    (hstep : allocateReserve c s t len = .ok s') : Entered c.deviceSize s s' := by
  have hgrant : ∀ {tx : Transaction} {granted : ℕ},s.transactions[t]? = some tx →
      tx.phase = .active → ∀ a : Option ℕ →₀ ℕ,((s.transactions.set t { tx with phase := .waiting len granted }).map
        Transaction.granted).sum+a =
        single tx.allocatorReservation granted+((s.transactions.map Transaction.granted).sum+a) := by
    intro tx granted htx hph a
    obtain ⟨gs,hgs,hset,-⟩ := sum_set htx Transaction.granted
    have hz : tx.granted = 0 := granted_eq_zero (by simp [hph,Phase.grant])
    rw [hset,hgs,hz,zero_add,add_assoc]
    rfl
  cases allocateReserve_spec hstep with
  | refused => exact .refl s
  | @fromDevice tx free granted htx hph hres hfree hgranted hz =>
    have hle : granted ≤ free := hgranted ▸ (roundDown_le _ _).trans (min_le_right _ _)
    obtain ⟨reservation,ms,phase⟩ := tx
    obtain rfl : reservation = none := hres
    refine ⟨?_,fun hl => hl.of_set htx rfl rfl rfl⟩
    have howed : Transaction.owed ⟨none,ms,.waiting len granted⟩ = Transaction.owed ⟨none,ms,phase⟩ := rfl
    simp only [ledger,hgrant htx hph,sum_set_eq htx howed]
    exact .grant (within_of_free h hn hfree hle)
  | @fromReservation tx i avail granted r htx hph hres hr havail hgranted hz =>
    obtain ⟨reservation,ms,phase⟩ := tx
    obtain rfl : reservation = some i := hres
    refine ⟨?_,fun hl => hl.of_set htx rfl rfl rfl⟩
    have howed : Transaction.owed ⟨some i,ms,.waiting len granted⟩ = Transaction.owed ⟨some i,ms,phase⟩ := rfl
    simp only [ledger,hgrant htx hph,sum_set_eq htx howed]
    exact .grantIn hr (by omega)

lemma allocateLock_entered (hstep : allocateLock c s t = .ok s') : Entered n s s' := by
  simp only [allocateLock,bind_eq_ok,lookup_eq_ok] at hstep
  obtain ⟨tx,htx,hstep⟩ := hstep
  cases hph : tx.phase with
  | waiting requested granted =>
    simp only [hph,bind_eq_ok,require_eq_ok,pure_eq_ok] at hstep
    obtain ⟨-,hnone,-,-,rfl⟩ := hstep
    refine .of_eq ?_ fun _ a ha => ?_
    · obtain ⟨gs,hgs,hset,-⟩ := sum_set htx Transaction.granted
      have howed : Transaction.owed { tx with phase := .allocating } = tx.owed := rfl
      have hg : tx.granted = single tx.allocatorReservation granted := by
        simp [Transaction.granted,Transaction.grantedBytes,hph,Phase.grant]
      have hz : Transaction.granted { tx with phase := .allocating } = 0 := granted_eq_zero rfl
      simp only [ledger,hset,hgs,sum_set_eq htx howed,hnone,hg,hz,elim_some,
        elim_none,Allocation.granted,Allocation.owed,grantedBytes,
        owedBytes,Finsupp.single_zero,add_zero,zero_add,add_comm]
    · obtain rfl : _ = a := by simpa using ha
      have hres : Transaction.allocatorReservation { tx with phase := .allocating } =
        tx.allocatorReservation := rfl
      rw [map_set_eq htx hres,List.getElem?_map,htx]
      rfl
  | _ => simp [hph] at hstep

lemma dropGrant_move {o : Option ℕ} {amount : ℕ} (hstep : s.dropGrant o amount = .ok s')
    {granted : Option ℕ →₀ ℕ} (hg : s.ledger.granted = single o amount+granted) :
    Ledger.Move n s.ledger { s'.ledger with granted := granted } := by
  simp only [dropGrant] at hstep
  split_ifs at hstep with hz
  · obtain rfl := Except.ok.inj hstep
    rw [hz,Finsupp.single_zero,zero_add] at hg
    rw [← hg]
    exact .refl
  · cases o with
    | none =>
      simp only [releaseReservation,bind_eq_ok,sub_eq_ok,pure_eq_ok] at hstep
      obtain ⟨reserved,hres,rfl⟩ := hstep
      exact .giveBack hres hg
    | some i =>
      obtain ⟨r,reserved,hr,hres,rfl⟩ := updateReservation_release hstep
      exact .giveBackIn hr hres hg

lemma owed_addMutation {reservation : Option ℕ} {ms : List Mutation} {range : Range}
    {phase phase' : Phase} (hne : ∀ x ∈ ms,(allocationOf range).cmp x ≠ .eq) :
    Transaction.owed ⟨reservation,addMutation (allocationOf range) ms,phase'⟩ =
      single reservation range.length+Transaction.owed ⟨reservation,ms,phase⟩ := by
  have hbytes : allocBytes (addMutation (allocationOf range) ms) = range.length+allocBytes ms := by
    rw [allocBytes_perm (addMutation_perm hne),allocBytes_cons]
    rfl
  simp [Transaction.owed,hbytes]

variable {stage : AllocateStage}

lemma ledger_stage_eq (ha : s.allocation = some a)
    (hg : stage.grantedBytes = a.stage.grantedBytes) (ho : stage.owedBytes = a.stage.owedBytes) :
    ledger { s with allocation := some { a with stage := stage } } = s.ledger := by
  simp [ledger,ha,Allocation.granted,Allocation.owed,hg,ho]

lemma State.Linked.of_stage (h : s.Linked) (ha : s.allocation = some a)
    (ha' : s'.allocation = some { a with stage := stage }) (ht : s'.transactions = s.transactions) :
    s'.Linked := by
  intro a' hmem
  obtain rfl : _ = a' := by simpa [ha'] using hmem
  rw [ht]
  exact h a ha

lemma allocateStep_entered (hl : s.Linked) (hstep : allocateStep c s = .ok s') : Entered n s s' := by
  cases ha : s.allocation with
  | none => simp [allocateStep,ha] at hstep
  | some a =>
    obtain ⟨t,reservation,requested,stage⟩ := a
    cases stage with
    | locked granted =>
      simp only [allocateStep,ha,pure_eq_ok] at hstep
      subst hstep
      exact .of_eq (@ledger_stage_eq s _ (.erasing granted _) ha rfl rfl) fun hl => hl.of_stage ha rfl rfl
    | erasing granted dropped =>
      cases dropped with
      | cons i dropped =>
        simp only [allocateStep,ha,pure_eq_ok] at hstep
        subst hstep
        exact .of_eq (@ledger_stage_eq s _ (.erasing granted dropped) ha rfl rfl) fun hl => hl.of_stage ha rfl rfl
      | nil =>
        simp only [allocateStep,ha,bind_eq_ok] at hstep
        obtain ⟨items,-,hstep⟩ := hstep
        cases hg : firstGap c.deviceSize granted 0 items with
        | some range =>
          simp only [hg,pure_eq_ok] at hstep
          subst hstep
          exact .of_eq (@ledger_stage_eq s _ (.found granted range) ha rfl rfl) fun hl => hl.of_stage ha rfl rfl
        | none =>
          simp only [hg,bind_eq_ok,lookup_eq_ok,require_eq_ok,pure_eq_ok] at hstep
          obtain ⟨tx,htx,-,hph,rfl⟩ := hstep
          refine .of_eq ?_ fun _ a ha => by simp at ha
          obtain rfl : reservation = _ := hl.reservation ha htx
          obtain ⟨gs,hgs,hset,-⟩ := sum_set htx Transaction.granted
          have howed : Transaction.owed { tx with phase := .failed granted } = tx.owed := rfl
          have hz : tx.granted = 0 := granted_eq_zero (by simp [hph,Phase.grant])
          have hg' : Transaction.granted { tx with phase := .failed granted } =
            single tx.allocatorReservation granted := rfl
          simp only [ledger,setTransaction,hset,hgs,hz,hg',sum_set_eq htx howed,ha,
            elim_some,elim_none,Allocation.granted,Allocation.owed,grantedBytes,owedBytes,Finsupp.single_zero,add_zero,
            zero_add,add_comm]
    | found granted range =>
      simp only [allocateStep,ha,bind_eq_ok,sub_eq_ok,pure_eq_ok] at hstep
      obtain ⟨rest,hrest,s1,h1,rfl⟩ := hstep
      have hsame := dropGrant_same h1
      refine ⟨?_,fun hl => hl.of_stage ha rfl hsame.transactions⟩
      have hg : s.ledger.granted = single reservation rest+
          ((s.transactions.map Transaction.granted).sum+single reservation range.length) := by
        simp only [ledger,ha,elim_some,Allocation.granted, grantedBytes,hrest,Finsupp.single_add]
        abel
      have hmove := @dropGrant_move _ _ n _ _ h1 _ hg
      simp only [ledger,hsame.allocation,ha,hsame.transactions,hsame.commit,
        elim_some,Allocation.granted,Allocation.owed,grantedBytes,owedBytes] at hmove ⊢
      exact hmove
    | forgotten range =>
      simp only [allocateStep,ha,bind_eq_ok,sub_eq_ok,pure_eq_ok] at hstep
      obtain ⟨reserved,hres,rfl⟩ := hstep
      refine ⟨?_,fun hl => hl.of_stage ha rfl rfl⟩
      have hg : s.ledger.granted = single reservation range.length+ (s.transactions.map Transaction.granted).sum := by
        simp [ledger,ha,Allocation.granted,grantedBytes,add_comm]
      have hmove := @Ledger.Move.use n s.ledger reservation range.length reserved _ hres hg
      simp only [ledger,ha,elim_some,Allocation.granted,Allocation.owed,
        grantedBytes,owedBytes,Finsupp.single_zero,add_zero,zero_add,add_comm] at hmove ⊢
      exact hmove
    | counted range =>
      simp only [allocateStep,ha,bind_eq_ok,lookup_eq_ok,require_eq_ok,elim_eq_ok,pure_eq_ok] at hstep
      obtain ⟨tx,htx,-,hph,reserved,-,-,hne,rfl⟩ := hstep
      refine .of_eq ?_ fun _ a ha => by simp at ha
      obtain rfl : reservation = _ := hl.reservation ha htx
      obtain ⟨tr,ms,phase⟩ := tx
      obtain rfl : phase = .allocating := hph
      obtain ⟨os,hos,hset,-⟩ := sum_set htx Transaction.owed
      have hgranted : Transaction.granted ⟨tr,addMutation (allocationOf range) ms,.active⟩ =
        Transaction.granted ⟨tr,ms,.allocating⟩ := rfl
      have howed := @owed_addMutation tr ms range .allocating .active hne
      rw [allocationOf] at hgranted howed
      simp only [ledger,hset,hos,howed,sum_set_eq htx hgranted,ha,elim_some,
        elim_none,Allocation.granted,Allocation.owed,grantedBytes,owedBytes,Finsupp.single_zero,add_zero]
      congr 1
      abel

lemma allocateFail_entered (hstep : allocateFail s t = .ok s') : Entered n s s' := by
  simp only [allocateFail,bind_eq_ok,lookup_eq_ok] at hstep
  obtain ⟨tx,htx,hstep⟩ := hstep
  cases hg : tx.phase.grant with
  | none => simp [hg] at hstep
  | some granted =>
    simp only [hg,bind_eq_ok,pure_eq_ok] at hstep
    obtain ⟨s1,h1,rfl⟩ := hstep
    have hsame := dropGrant_same h1
    have htx' : (s1.setTransaction t { tx with phase := .active }).transactions =
        s.transactions.set t { tx with phase := .active } := by
      rw [← hsame.transactions]
      rfl
    refine ⟨?_,fun hl => hl.of_set htx hsame.allocation htx' rfl⟩
    obtain ⟨gs,hgs,hset,-⟩ := sum_set htx Transaction.granted
    have hgrant : tx.granted = single tx.allocatorReservation granted := by
      simp [Transaction.granted,Transaction.grantedBytes,hg]
    have howed : Transaction.owed { tx with phase := .active } = tx.owed := rfl
    have hz : Transaction.granted { tx with phase := .active } = 0 := granted_eq_zero rfl
    have hsplit : s.ledger.granted = single tx.allocatorReservation granted+
        (gs+s.allocation.elim 0 Allocation.granted) := by simp only [ledger,hgs,hgrant,add_assoc]
    have hmove := @dropGrant_move _ _ n _ _ h1 _ hsplit
    simp only [ledger,setTransaction,hsame.transactions,hsame.allocation,hsame.commit,
      hset,hz,zero_add,sum_set_eq htx howed] at hmove ⊢
    exact hmove

/-- A marked range is not taken out of a reservation. -/
def Unbacked (s : State) : Action → Prop
  | .markAllocated t _ => ∀ tx ∈ s.transactions[t]?,tx.allocatorReservation = none
  | _ => True

instance (s : State) (a : Action) : Decidable (Unbacked s a) := by
  induction a using Action.casesOn <;> dsimp only [Unbacked] <;> infer_instance

variable {range : Range}

lemma markAllocated_entered (hs : s.Shape b) (hsafe : s.space.Safe b c.deviceSize) (h : s.ledger.Balanced c.deviceSize)
    (hn : c.deviceSize < 2^63) (hcare : Careful b s (.markAllocated t range))
    (hback : Unbacked s (.markAllocated t range)) (hstep : markAllocated c s t range = .ok s') :
    Entered c.deviceSize s s' := by
  rcases markAllocated_spec hs hsafe hcare hstep with
    rfl | ⟨⟨reservation,ms,phase⟩,free,reserved,reservations,htx,hph,hfree,hle,htake,-,hne,-,-,rfl⟩
  · exact .refl s'
  · obtain rfl : reservation = none := hback _ htx
    obtain rfl : phase = .active := hph
    obtain rfl : s.reservations = reservations := by simpa [takeHold,pure,Except.pure] using htake
    refine ⟨?_,fun hl => hl.of_set htx rfl rfl rfl⟩
    obtain ⟨os,hos,hset,-⟩ := sum_set htx Transaction.owed
    have hgranted : Transaction.granted ⟨none,addMutation (allocationOf range) ms,.active⟩ =
      Transaction.granted ⟨none,ms,.active⟩ := rfl
    have howed := @owed_addMutation none ms range .active .active hne
    have hmove := Ledger.Move.mark (within_of_free h hn hfree hle)
    simp only [ledger,hset,hos,howed,sum_set_eq htx hgranted,add_assoc] at hmove ⊢
    exact hmove

lemma allocBytes_eq_zero {ms : List Mutation} (h : ∀ m ∈ ms,m.item.value.delta = -1) : allocBytes ms = 0 := by
  apply List.sum_eq_zero
  simpa [Mutation.allocBytes] using fun m hm => by simp [h m hm]

lemma deallocate_entered (hs : s.Shape b) (hsafe : s.space.Safe b n) (hcare : Careful b s (.deallocate t range))
    (hstep : deallocate s t range = .ok s') : Entered n s s' := by
  obtain ⟨tx,ms,ms',htx,hph,hdealloc,hperm,rfl⟩ := deallocate_spec hs hsafe hcare hstep
  refine .of_eq (ledger_set_eq htx rfl ?_) fun hl => hl.of_set htx rfl rfl rfl
  have hsum : allocBytes (ms++tx.mutations) = allocBytes ms+allocBytes tx.mutations := by simp [allocBytes]
  simp [Transaction.owed,allocBytes_perm hperm,hsum,allocBytes_eq_zero hdealloc.delta]

end Allocate

section TreeBytes

open Ranges Ranged

variable {bound : ℕ}

lemma sum_coverage (r : Range) (h : r.stop ≤ bound) : ∑ p ∈ range bound,(coverage {r} p : ℤ) = r.length := by
  have hfilter : (range bound).filter r.Has = Finset.Ico r.start r.stop := by
    ext p
    simp only [Range.Has,mem_filter,mem_range,mem_Ico]
    omega
  have hsum : ∑ p ∈ range bound,(coverage {r} p : ℤ) = (((range bound).filter r.Has).card : ℤ) := by
    rw [card_filter,cast_sum]
    exact sum_congr rfl fun p _ => by rw [coverage_singleton]
  rw [hsum,hfilter,card_Ico]
  rfl

variable {tree : List AllocatorItem}

lemma treeBytes_eq_sum (h : Ascending tree) (hbound : ∀ i ∈ tree,i.key.deviceRange.stop ≤ bound) :
    treeBytes tree = ∑ p ∈ range bound,deltaAt tree p := by
  induction tree with
  | nil => simp [treeBytes]
  | cons i tree ih =>
    obtain ⟨-,hle,hrest⟩ := ascending_cons.mp h
    have hown : ∀ p,own i p = i.value.delta*coverage {i.key.deviceRange} p := by
      intro p
      have hcov : Covers i p ↔ i.key.deviceRange.Has p := Iff.rfl
      rw [coverage_singleton,own]
      simp only [hcov]
      split_ifs <;> simp
    have hcons : treeBytes (i::tree) = i.value.delta*i.key.deviceRange.length+treeBytes tree := by simp [treeBytes]
    rw [hcons,ih hrest fun j hj => hbound j (by simp [hj]),
      ← sum_coverage _ (hbound i (by simp)),mul_sum,← sum_add_distrib]
    exact sum_congr rfl fun p _ => by rw [deltaAt_cons hle,hown]

lemma exists_bound (tree : List AllocatorItem) : ∃ bound,∀ i ∈ tree,i.key.deviceRange.stop ≤ bound := by
  refine ⟨(tree.map fun i => i.key.deviceRange.stop).sum,fun i hi => ?_⟩
  exact List.le_sum_of_mem (List.mem_map_of_mem hi)

lemma treeBytes_of_count {tree' : List AllocatorItem} (h : Ascending tree) (h' : Ascending tree')
    (r : Range) (delta : ℤ) (hcount : ∀ p,deltaAt tree' p = deltaAt tree p+delta*coverage {r} p) :
    treeBytes tree' = treeBytes tree+delta*r.length := by
  obtain ⟨b1,hb1⟩ := exists_bound tree
  obtain ⟨b2,hb2⟩ := exists_bound tree'
  obtain ⟨bound,h1,h2,h3⟩ : ∃ bound,b1 ≤ bound ∧ b2 ≤ bound ∧ r.stop ≤ bound :=
    ⟨b1+b2+r.stop,by omega,by omega,by omega⟩
  rw [treeBytes_eq_sum h' fun i hi => (hb2 i hi).trans h2,
    treeBytes_eq_sum h fun i hi => (hb1 i hi).trans h1,← sum_coverage r h3,mul_sum,← sum_add_distrib]
  exact sum_congr rfl fun p _ => hcount p

end TreeBytes

section Commit

lemma Commit.inFlight_start {k : Commit} (h : k.stage = .start) : k.inFlight = 0 := by
  cases hm : k.mutations <;> simp [inFlight,hm,h]

lemma commitBegin_entered {logOffset : ℕ} (hstep : commitBegin s t logOffset = .ok s') : Entered n s s' := by
  simp only [commitBegin,bind_eq_ok,activeTransaction_eq_ok,require_eq_ok,pure_eq_ok] at hstep
  obtain ⟨tx,⟨htx,hph⟩,-,hnone,rfl⟩ := hstep
  refine .of_eq ?_ fun hl => hl.of_set htx rfl rfl rfl
  obtain ⟨os,hos,hset,-⟩ := sum_set htx Transaction.owed
  have hgranted : Transaction.granted { tx with mutations := [],phase := .committing } =
      tx.granted := by rw [granted_eq_zero rfl,granted_eq_zero (by simp [hph,Phase.grant])]
  have howed : Transaction.owed { tx with mutations := [],phase := .committing } = 0 := by
    simp [Transaction.owed]
  simp only [ledger,hset,hos,howed,sum_set_eq htx hgranted,hnone,elim_some,
    elim_none,inFlight_start,sub_zero,zero_add,add_zero]
  rw [add_comm os]
  rfl

lemma commitEnd_entered (hstep : commitEnd s = .ok s') : Entered n s s' := by
  simp only [commitEnd] at hstep
  cases hk : s.commit with
  | none => simp [hk] at hstep
  | some k =>
    simp only [hk,bind_eq_ok,require_eq_ok,lookup_eq_ok,pure_eq_ok] at hstep
    obtain ⟨-,hnil,tx,htx,-,hph,rfl⟩ := hstep
    refine .of_eq ?_ fun hl => hl.of_set htx rfl rfl rfl
    have hgranted : Transaction.granted { tx with phase := .closed } = tx.granted := by
      rw [granted_eq_zero rfl,granted_eq_zero (by simp [hph,Phase.grant])]
    have howed : Transaction.owed { tx with phase := .closed } = tx.owed := rfl
    simp only [ledger,setTransaction,sum_set_eq htx hgranted,sum_set_eq htx howed,hk,
      elim_some,elim_none,Commit.owed,inFlight,hnil,allocBytes_nil,Finsupp.single_zero]

variable {k : Commit} {m : Mutation} {rest : List Mutation}

lemma Mutation.bytes_of_free (hkind : m.kind = .allocator) (hd : m.item.value.delta = -1) :
    m.allocBytes = 0 ∧ m.freedBytes = m.range.length := by
  simp [Mutation.allocBytes,Mutation.freedBytes,hkind,hd]

lemma Mutation.bytes_of_alloc (hkind : m.kind = .allocator) (hd : m.item.value.delta = 1) :
    m.allocBytes = m.range.length ∧ m.freedBytes = 0 := by
  simp [Mutation.allocBytes,Mutation.freedBytes,hkind,hd]

lemma Commit.inFlight_first (hm : k.mutations = m::rest) (h : k.stage = .first) : k.inFlight = m.allocBytes := by
  simp [inFlight,hm,h]

lemma Commit.inFlight_second (hm : k.mutations = m::rest) (h : k.stage = .second) :
    k.inFlight = m.allocBytes+m.freedBytes := by simp [inFlight,hm,h]

lemma owed_commit (hk : s.commit = some k) (hm : k.mutations = m::rest) :
    s.ledger.owed = single k.allocatorReservation m.allocBytes+ ((s.transactions.map Transaction.owed).sum+
        single k.allocatorReservation (allocBytes rest)+s.allocation.elim 0 Allocation.owed) := by
  simp only [ledger,hk,elim_some,Commit.owed,hm,allocBytes_cons,Finsupp.single_add]
  abel

lemma queuedBytes_append (queue : List (ℕ × Range)) (flush : Option DeviceFlush) (d : ℕ × Range) :
    queuedBytes (queue++[d]) flush = queuedBytes queue flush+d.2.length := by
  simp only [queuedBytes,List.map_append,List.sum_append,List.map_cons,List.map_nil,List.sum_cons,List.sum_nil]
  omega

lemma Applied.entered (hs : s.Shape b) (hk : s.commit = some k) (hm : k.mutations = m::rest)
    (hlen : m.kind = .allocator → m.item.value.delta = -1 → k.stage = .first → (m.range.length : ℤ) ≤ s.inner.allocatedBytes)
    (happ : Applied s k m rest s') : Entered n s s' := by
  have hgo : ∀ stage,Commit.owed { k with stage := stage } = k.owed := fun _ => rfl
  have hfirst := @Commit.inFlight_first { k with stage := .first } m rest hm rfl
  have hsecond := @Commit.inFlight_second { k with stage := .second } m rest hm rfl
  have howed := owed_commit hk hm
  cases happ with
  | freeMerged hd hkind hstage hlayer hcount =>
    obtain ⟨ha,hf⟩ := Mutation.bytes_of_free hkind hd
    refine .of_eq ?_ fun hl => hl.congr rfl rfl
    have htree := treeBytes_of_count hs.tree.1 hlayer.1 m.range (-1) fun p => by rw [hcount p]; ring
    simp only [ledger,hk,elim_some,Commit.owed,hm,allocBytes_cons,ha,zero_add,htree,
      inFlight_start,inFlight_second hm hstage,hf]
    congr 1
    push_cast
    ring
  | freeReserved hkind hd hstage _ _ =>
    refine .of_eq ?_ fun hl => hl.congr rfl rfl
    simp only [ledger,hk,elim_some,hgo,hfirst,inFlight_start hstage,(Mutation.bytes_of_free hkind hd).1,cast_zero]
  | freeCounted hkind hd hstage _ =>
    obtain ⟨ha,hf⟩ := Mutation.bytes_of_free hkind hd
    refine ⟨?_,fun hl => hl.congr rfl rfl⟩
    have hmove := @Ledger.Move.free n s.ledger _ (hlen hkind hd hstage)
    simp only [ledger,hk,elim_some,hgo,hsecond,inFlight_first hm hstage,ha,hf,
      queuedBytes_append,cast_zero,sub_zero,zero_add] at hmove ⊢
    exact hmove
  | freeCountedIn hkind hd hstage _ hr =>
    obtain ⟨ha,hf⟩ := Mutation.bytes_of_free hkind hd
    refine ⟨?_,fun hl => hl.congr rfl rfl⟩
    have hmove := @Ledger.Move.freeIn n s.ledger _ _ _ hr (hlen hkind hd hstage)
    simp only [ledger,hk,elim_some,hgo,hsecond,inFlight_first hm hstage,ha,hf,
      queuedBytes_append,cast_zero,sub_zero,zero_add] at hmove ⊢
    exact hmove
  | allocMerged hkind hd hstage hlayer hcount =>
    refine .of_eq ?_ fun hl => hl.congr rfl rfl
    have htree := treeBytes_of_count hs.tree.1 hlayer.1 m.range 1 fun p => by rw [hcount p,one_mul]
    simp only [ledger,hk,elim_some,hgo,hfirst,htree,inFlight_start hstage,(Mutation.bytes_of_alloc hkind hd).1]
    congr 1
    ring
  | allocErased hkind hd hstage _ _ =>
    refine .of_eq ?_ fun hl => hl.congr rfl rfl
    simp only [ledger,hk,elim_some,hgo,hsecond,inFlight_first hm hstage,
      (Mutation.bytes_of_alloc hkind hd).2,cast_zero,add_zero]
  | allocCounted hkind hd hstage hres hun =>
    obtain ⟨ha,hf⟩ := Mutation.bytes_of_alloc hkind hd
    refine ⟨?_,fun hl => hl.congr rfl rfl⟩
    rw [hres,ha] at howed
    have hmove := @Ledger.Move.settle n s.ledger _ _ _ hun howed
    simp only [ledger,hk,elim_some,Commit.owed,hres,inFlight_start,
      inFlight_second hm hstage,ha,hf,cast_zero,add_zero,sub_add_cancel,sub_zero] at hmove ⊢
    exact hmove
  | allocCountedIn hkind hd hstage hres hun hr =>
    obtain ⟨ha,hf⟩ := Mutation.bytes_of_alloc hkind hd
    refine ⟨?_,fun hl => hl.congr rfl rfl⟩
    rw [hres,ha] at howed
    have hmove := @Ledger.Move.settleIn n s.ledger _ _ _ _ _ hr hun howed
    simp only [ledger,hk,elim_some,Commit.owed,hres,inFlight_start,
      inFlight_second hm hstage,ha,hf,cast_zero,add_zero,sub_add_cancel,sub_zero] at hmove ⊢
    exact hmove

end Commit

section DropAndFlush

lemma dropBegin_entered (hstep : dropBegin s t = .ok s') : Entered n s s' := by
  simp only [dropBegin,bind_eq_ok,activeTransaction_eq_ok,pure_eq_ok] at hstep
  obtain ⟨tx,⟨htx,hph⟩,rfl⟩ := hstep
  refine .of_eq (ledger_set_eq htx ?_ rfl) fun hl => hl.of_set htx rfl rfl rfl
  rw [granted_eq_zero rfl,granted_eq_zero (by simp [hph,Phase.grant])]

variable {reservation : Option ℕ} {m : Mutation}

lemma dropMutation_move (h : dropMutation s reservation m = .ok s') :
    Ledger.Move n { s.ledger with owed := single reservation m.allocBytes+s.ledger.owed }
      s'.ledger := by
  simp only [dropMutation] at h
  split_ifs at h with hm
  · have hbytes : m.allocBytes = m.range.length := by simp [Mutation.allocBytes,hm]
    rw [hbytes]
    simp only [bind_eq_ok,require_eq_ok,sub_eq_ok] at h
    obtain ⟨-,-,uncommitted,hun,h⟩ := h
    cases reservation with
    | none =>
      obtain rfl := pure_eq_ok.mp h
      exact .discard hun rfl
    | some i =>
      simp only [bind_eq_ok,pure_eq_ok] at h
      obtain ⟨s1,h1,rfl⟩ := h
      obtain ⟨r,reserved,hr,hres,rfl⟩ := updateReservation_release h1
      exact .discardIn hr hres hun rfl
  · obtain rfl := pure_eq_ok.mp h
    have hbytes : m.allocBytes = 0 := by simp [Mutation.allocBytes,hm]
    rw [hbytes,Finsupp.single_zero,zero_add]
    exact .refl

lemma ledger_dropping {rest : List Mutation} (htx : s.transactions[t]? = some ⟨reservation,m::rest,.dropping⟩) :
    s.ledger = { (s.setTransaction t ⟨reservation,rest,.dropping⟩).ledger with
      owed := single reservation m.allocBytes+ (s.setTransaction t ⟨reservation,rest,.dropping⟩).ledger.owed } := by
  obtain ⟨os,hos,hset,-⟩ := sum_set htx Transaction.owed
  have hgranted : Transaction.granted ⟨reservation,rest,.dropping⟩ =
    Transaction.granted ⟨reservation,m::rest,.dropping⟩ := rfl
  simp only [ledger,setTransaction,hset,hos,sum_set_eq htx hgranted,Transaction.owed,
    allocBytes_cons,Finsupp.single_add,add_assoc]

lemma dropStep_entered (hstep : dropStep s t = .ok s') : Entered n s s' := by
  simp only [dropStep,bind_eq_ok,lookup_eq_ok,require_eq_ok] at hstep
  obtain ⟨⟨reservation,ms,phase⟩,htx,-,hph,hstep⟩ := hstep
  obtain rfl : phase = .dropping := hph
  cases ms with
  | nil =>
    obtain rfl := pure_eq_ok.mp hstep
    exact .of_eq (ledger_set_eq htx rfl rfl) fun hl => hl.of_set htx rfl rfl rfl
  | cons m rest =>
    have hledger := ledger_dropping htx
    refine ⟨hledger ▸ dropMutation_move hstep,fun hl => ?_⟩
    obtain ⟨-,htx',hal⟩ := dropMutation_quiet hstep
    exact hl.of_set htx hal htx' rfl

lemma flushBegin_entered {flushLogOffset : ℕ} (hstep : flushBegin s flushLogOffset = .ok s') : Entered n s s' := by
  simp only [flushBegin,bind_eq_ok,require_eq_ok,pure_eq_ok] at hstep
  obtain ⟨-,hnone,rfl⟩ := hstep
  refine .of_eq ?_ fun hl => hl.congr rfl rfl
  obtain ⟨p,hp⟩ : ∃ p : ℕ × Range → Bool,p = fun d => decide (d.1 < flushLogOffset) := ⟨_,rfl⟩
  have hsplit : (s.inner.committedDeallocated.map fun d => d.2.length).sum =
      ((s.inner.committedDeallocated.takeWhile p).map fun d => d.2.length).sum+
        ((s.inner.committedDeallocated.dropWhile p).map fun d => d.2.length).sum := by
    rw [← List.sum_append,← List.map_append,List.takeWhile_append_dropWhile]
  simp only [ledger,queuedBytes,hnone,elim_some,elim_none,List.map_map,hsplit, ← hp,add_zero]
  rw [add_comm]
  rfl

lemma flushStep_entered (hstep : flushStep s = .ok s') : Entered n s s' := by
  simp only [flushStep] at hstep
  cases hf : s.flush with
  | none => simp [hf] at hstep
  | some f =>
    obtain ⟨deallocs,total⟩ := f
    rw [hf] at hstep
    cases deallocs with
    | nil =>
      simp only [bind_eq_ok,sub_eq_ok,pure_eq_ok] at hstep
      obtain ⟨bytes,hbytes,rfl⟩ := hstep
      refine ⟨?_,fun hl => hl.congr rfl rfl⟩
      have hqueued : s.ledger.queued = queuedBytes s.inner.committedDeallocated none+total := by
        simp [ledger,queuedBytes,hf]
      exact .flush hbytes hqueued
    | cons range deallocs =>
      obtain rfl := pure_eq_ok.mp hstep
      refine .of_eq ?_ fun hl => hl.congr rfl rfl
      simp only [ledger,queuedBytes,hf,elim_some,List.map_cons,List.sum_cons]
      congr 1
      omega

end DropAndFlush

end Fuchsia.Fxfs.SimpleAllocator
