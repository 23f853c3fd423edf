import Fuchsia.Fxfs.AllocatorAccounts

/-! Along every run of careful callers the books are balanced, and then no
subtraction from a counter underflows. -/
namespace Fuchsia.Fxfs.SimpleAllocator

open Slots Fallible Ledger State Finsupp Option List Mutation Transition
open Finsupp (single)

variable {s s' : State} {b n : ℕ} {c : Config}

section Run

lemma length_le_allocated {k : Commit} {m : Mutation} {rest : List Mutation} (hs : s.Shape b) (hsafe : s.space.Safe b n)
    (h : s.ledger.Balanced n) (hk : s.commit = some k) (hm : k.mutations = m::rest) (hkind : m.kind = .allocator)
    (hd : m.item.value.delta = -1) (hstage : k.stage = .first) : (m.range.length : ℤ) ≤ s.inner.allocatedBytes := by
  have hle : (m.range.length : ℤ) ≤ treeBytes s.tree := by
    obtain ⟨b1,hb1⟩ := exists_bound s.tree
    obtain ⟨bound,h1,h2⟩ : ∃ bound,b1 ≤ bound ∧ m.range.stop ≤ bound :=
      ⟨b1+m.range.stop,by omega,by omega⟩
    rw [treeBytes_eq_sum hs.tree.1 fun i hi => (hb1 i hi).trans h1,← sum_coverage m.range h2]
    refine Finset.sum_le_sum fun p _ => ?_
    have hfree : {m.range} ≤ freeRanges k.mutations := by
      rw [hm,freeRanges_cons,free,if_pos (by simp [hd])]
      exact Multiset.le_add_right _ _
    have hcov := coverage_le hfree p
    have htree := freeRanges_le_tree hsafe hk p
    omega
  have hcounted : s.inner.allocatedBytes = treeBytes s.tree-s.commit.elim 0 Commit.inFlight := h.counted
  rw [hk,Option.elim_some,Commit.inFlight_first hm hstage, (bytes_of_free hkind hd).1] at hcounted
  rw [hcounted]
  simpa using hle

lemma step_entered (hn : c.deviceSize < 2^63) (hs : s.Shape b) (hsafe : s.space.Safe b c.deviceSize)
    (h : s.ledger.Balanced c.deviceSize) (hl : s.Linked) {a : Action} (hcare : Careful b s a) (hback : Unbacked s a)
    (hstep : step c s a = .ok s') : Entered c.deviceSize s s' := by
  cases a with
  | reserve amount => exact reserve_entered h hn hstep
  | reserveAtMost amount => exact reserveAtMost_entered h hn hstep
  | dropReservation i => exact dropReservation_entered hstep
  | hold i amount => exact hold_entered hstep
  | holdAtMost i amount => exact holdAtMost_entered hstep
  | dropHold i => exact dropHold_entered hstep
  | newTransaction reservation => exact newTransaction_entered hstep
  | allocateReserve t len => exact allocateReserve_entered h hn hstep
  | allocateLock t => exact allocateLock_entered hstep
  | allocateStep => exact allocateStep_entered hl hstep
  | allocateFail t => exact allocateFail_entered hstep
  | markAllocated t range => exact markAllocated_entered hs hsafe h hn hcare hback hstep
  | deallocate t range => exact deallocate_entered hs hsafe hcare hstep
  | commitBegin t logOffset => exact commitBegin_entered hstep
  | commitStep =>
    obtain ⟨k,m,rest,hk,hm,happ⟩ := commitStep_applied hs hsafe hstep
    exact happ.entered hs hk hm fun hkind hd hstage =>
      length_le_allocated hs hsafe h hk hm hkind hd hstage
  | commitEnd => exact commitEnd_entered hstep
  | dropBegin t => exact dropBegin_entered hstep
  | dropStep t => exact dropStep_entered hstep
  | flushBegin flushLogOffset => exact flushBegin_entered hstep
  | flushStep => exact flushStep_entered hstep

lemma run_balanced {allowed : State → Action → Prop} (hn : c.deviceSize < 2^63)
    (hallowed : ∀ s a,allowed s a → Careful 1 s a ∧ Unbacked s a) (h : Run c allowed s) :
    s.ledger.Balanced c.deviceSize ∧ s.Linked := by
  induction h with
  | start h =>
    subst h
    refine ⟨?_,by simp [State.Linked,created]⟩
    constructor <;> simp [created,ledger,treeBytes,queuedBytes,amounts]
  | step hrun ha hstep ih =>
    obtain ⟨hs,hsafe⟩ := run_safe (one_dvd _) (one_dvd _) (fun s a h => (hallowed s a h).1) hrun
    obtain ⟨hcare,hback⟩ := hallowed _ _ ha
    have hentered := step_entered hn hs hsafe ih.1 ih.2 hcare hback (toOption_eq_some.mp hstep)
    exact ⟨hentered.move.balanced ih.1,hentered.linked ih.2⟩

end Run

section Sound

variable {A B : Type}

def Sound (x : Except Fault A) : Prop := x ≠ .error .underflow

@[simp] lemma sound_ok (a : A) : Sound (.ok a : Except Fault A) := by simp [Sound]

@[simp] lemma sound_pure (a : A) : Sound (pure a : Except Fault A) := by simp [Sound,pure,Except.pure]

@[simp] lemma sound_blocked : Sound (.error .blocked : Except Fault A) := by simp [Sound]

@[simp] lemma sound_assertion : Sound (.error .assertion : Except Fault A) := by simp [Sound]

lemma sound_sub {a b : ℕ} : Sound (sub a b) ↔ b ≤ a := by
  simp only [Sound,sub]
  split_ifs with h <;> simp [h]

@[simp] lemma sound_require_blocked (p : Prop) [Decidable p] : Sound (require .blocked p) := by
  simp only [require]
  split_ifs <;> simp

@[simp] lemma sound_require_assertion (p : Prop) [Decidable p] : Sound (require .assertion p) := by
  simp only [require]
  split_ifs <;> simp

@[simp] lemma sound_lookup (xs : List A) (i : ℕ) : Sound (lookup xs i) := by
  cases h : xs[i]? <;> simp [lookup,h]

variable {x : Except Fault A} {f : A → Except Fault B}

lemma sound_bind (hx : Sound x) (hf : ∀ a,x = .ok a → Sound (f a)) : Sound (x >>= f) := by
  cases x with
  | error fault => simpa [Sound,bind,Except.bind] using hx
  | ok a => exact hf a rfl

lemma sound_return {f : A → B} (hx : Sound x) :
    Sound (x >>= fun a => pure (f a)) := sound_bind hx fun _ _ => sound_pure _

lemma sound_map {f : A → B} (hx : Sound x) : Sound (f <$> x) := by
  cases x with
  | error fault => simpa [Sound,Functor.map,Except.map] using hx
  | ok a => simp [Sound,Functor.map,Except.map]

lemma sound_ite {p : Prop} [Decidable p] {y : Except Fault A} (hx : p → Sound x)
    (hy : ¬p → Sound y) : Sound (if p then x else y) := by
  split_ifs with h
  · exact hx h
  · exact hy h

variable {fault : Fault} {o : Option A}

lemma sound_elim (hfault : fault ≠ .underflow)
    (hf : ∀ a,o = some a → Sound (f a)) : Sound (o.elim (.error fault) f) := by
  cases o with
  | none => simpa [Sound] using hfault
  | some a => exact hf a rfl

lemma sound_ofOption (hfault : fault ≠ .underflow) :
    Sound (o.elim (.error fault) .ok) := sound_elim hfault fun _ _ => sound_ok _

lemma sound_free (h : s.ledger.Balanced n) (hn : n < 2^63) : Sound (sub n s.inner.takenBytes) := by
  have htaken := takenBytes_eq h hn
  have hwithin : s.inner.allocatedBytes+s.inner.uncommittedAllocatedBytes+ s.inner.reservedBytes ≤ n := h.within
  exact sound_sub.mpr (by omega)

section

variable (h : s.ledger.Balanced n)
include h

lemma dropReservation_sound (i : ℕ) : Sound (dropReservation s i) := by
  refine sound_bind (by simp) fun _ _ => sound_bind (by simp) fun o ho => ?_
  cases o with
  | none => simp
  | some r =>
    refine sound_bind (by simp) fun _ hz => sound_bind ?_ fun _ _ => sound_pure _
    exact sound_return (sound_sub.mpr (h.amount_le (lookup_eq_ok.mp ho) (require_eq_ok.mp hz)))

lemma sound_avail {i : ℕ} {r : ReservationInner}
    (hi : lookup s.reservations i = .ok (some r)) : Sound (sub r.amount r.reserved) :=
  sound_sub.mpr (h.solvent_of_eq (lookup_eq_ok.mp hi))

lemma hold_sound (i amount : ℕ) : Sound (hold s i amount) := by
  refine sound_bind (by simp) fun o ho => ?_
  cases o with
  | none => simp
  | some r =>
    refine sound_bind (sound_return (sound_avail h ho)) fun o' _ => ?_
    cases o' <;> simp

lemma updateReservation_sound {i amount : ℕ} {promised : Option ℕ →₀ ℕ}
    (hp : s.ledger.holds = single (some i) amount+promised ∨ s.ledger.granted = single (some i) amount+promised ∨
      s.ledger.owed = single (some i) amount+promised) :
    Sound (s.updateReservation i fun r => r.releaseReservation amount) := by
  refine sound_bind (by simp) fun o ho => ?_
  cases o with
  | none => simp
  | some r =>
    refine sound_return (sound_bind ?_ fun _ _ => sound_pure _)
    exact sound_sub.mpr (h.promised_le (lookup_eq_ok.mp ho) hp)

lemma dropHold_sound (i : ℕ) : Sound (dropHold s i) := by
  refine sound_bind (by simp) fun x hx => ?_
  obtain ⟨rest,hsum,-,-⟩ := sum_set (lookup_eq_ok.mp hx) fun h => single (some h.1) h.2
  exact sound_return (updateReservation_sound h (.inl hsum))

lemma dropGrant_sound {o : Option ℕ} {amount : ℕ} {granted : Option ℕ →₀ ℕ}
    (hg : s.ledger.granted = single o amount+granted) : Sound (s.dropGrant o amount) := by
  simp only [dropGrant]
  split_ifs with hz
  · simp
  · cases o with
    | none =>
      exact sound_return (sound_sub.mpr (h.granted_single_le hg))
    | some i => exact updateReservation_sound h (.inr (.inl hg))

lemma allocateFail_sound (t : ℕ) : Sound (allocateFail s t) := by
  refine sound_bind (by simp) fun tx htx => ?_
  cases hg : tx.phase.grant with
  | none => simp
  | some granted =>
    obtain ⟨gs,hgs,-,-⟩ := sum_set (lookup_eq_ok.mp htx) Transaction.granted
    have hsplit : s.ledger.granted = single tx.allocatorReservation granted+
        (gs+s.allocation.elim 0 Allocation.granted) := by
      simp [ledger,hgs,Transaction.granted,Transaction.grantedBytes,hg,add_assoc]
    exact sound_return (dropGrant_sound h hsplit)

lemma takeHold_sound (reservation : Option ℕ) (amount : ℕ) : Sound (takeHold s reservation amount) := by
  cases reservation with
  | none => simp [takeHold]
  | some i =>
    refine sound_bind (by simp) fun o ho => ?_
    cases o with
    | none => simp
    | some r =>
      exact sound_return (sound_return (sound_avail h ho))

end

lemma sound_activeTransaction (t : ℕ) : Sound (s.activeTransaction t) :=
  sound_bind (by simp) fun _ _ => sound_return (by simp)

section

variable (h : s.ledger.Balanced c.deviceSize) (hn : c.deviceSize < 2^63)
include h hn

lemma allocateReserve_sound (t len : ℕ) : Sound (allocateReserve c s t len) := by
  refine sound_bind (by simp) fun _ _ => sound_bind (sound_activeTransaction t) fun tx _ => ?_
  obtain ⟨reservation,ms,phase⟩ := tx
  cases reservation with
  | none =>
    refine sound_bind (sound_free h hn) fun free _ => ?_
    exact sound_ite (fun _ => sound_pure _) fun _ => sound_pure _
  | some i =>
    refine sound_bind (by simp) fun o ho => ?_
    cases o with
    | none => simp
    | some r =>
      refine sound_bind (sound_return (sound_avail h ho)) fun x _ => ?_
      exact sound_ite (fun _ => sound_pure _) fun _ => sound_pure _

lemma markAllocated_sound (t : ℕ) (range : Range) : Sound (markAllocated c s t range) := by
  refine sound_bind (sound_activeTransaction t) fun tx _ => ?_
  refine sound_ite (fun _ => sound_pure _) fun _ => ?_
  refine sound_bind (sound_free h hn) fun free _ => ?_
  refine sound_ite (fun _ => sound_pure _) fun _ => ?_
  refine sound_bind (takeHold_sound h _ _) fun o _ => ?_
  cases o with
  | none => simp
  | some reservations =>
    exact sound_return (sound_ofOption (by simp))

end

lemma allocateLock_sound (t : ℕ) : Sound (allocateLock c s t) := by
  refine sound_bind (by simp) fun tx _ => ?_
  cases tx.phase with
  | waiting requested granted =>
    exact sound_bind (by simp) fun _ _ => sound_return (by simp)
  | _ => simp

lemma allocateStep_sound (hs : s.Shape b) (h : s.ledger.Balanced n) : Sound (allocateStep c s) := by
  cases ha : s.allocation with
  | none => simp [allocateStep,ha]
  | some a =>
    have hok := hs.allocation a ha
    obtain ⟨t,reservation,requested,stage⟩ := a
    cases stage with
    | locked granted => simp [allocateStep,ha]
    | erasing granted dropped =>
      cases dropped with
      | cons i dropped => simp [allocateStep,ha]
      | nil =>
        simp only [allocateStep,ha]
        refine sound_bind (sound_ofOption (by simp)) fun items _ => ?_
        cases firstGap c.deviceSize granted 0 items with
        | some range => simp
        | none =>
          exact sound_bind (by simp) fun _ _ => sound_return (by simp)
    | found granted range =>
      simp only [allocateStep,ha]
      refine sound_bind (sound_sub.mpr hok.1) fun rest hrest => ?_
      have hg : s.ledger.granted = single reservation rest+
          ((s.transactions.map Transaction.granted).sum+single reservation range.length) := by
        simp only [ledger,ha,Option.elim_some,Allocation.granted,
          AllocateStage.grantedBytes,sub_eq_ok.mp hrest,single_add]
        abel
      exact sound_return (dropGrant_sound h hg)
    | forgotten range =>
      simp only [allocateStep,ha]
      have hg : s.ledger.granted = single reservation range.length+ (s.transactions.map Transaction.granted).sum := by
        simp [ledger,ha,Allocation.granted,AllocateStage.grantedBytes,add_comm]
      exact sound_return (sound_sub.mpr (h.granted_single_le hg))
    | counted range =>
      simp only [allocateStep,ha]
      exact sound_bind (by simp) fun _ _ => sound_bind (by simp) fun _ _ =>
        sound_bind (sound_ofOption (by simp)) fun _ _ =>
          sound_return (by simp)

lemma mergeIntoTree_sound (item : AllocatorItem) : Sound (mergeIntoTree s item) :=
  sound_elim (by simp) fun _ _ => sound_ok _

lemma applyMutation_sound (h : s.ledger.Balanced n) {k : Commit} {m : Mutation} {rest : List Mutation}
    (hk : s.commit = some k) (hm : k.mutations = m::rest) (hsimple : m.Simple) : Sound (applyMutation s k m rest) := by
  obtain ⟨hkind,hd | hd⟩ := hsimple
  · refine sound_ite (fun _ => sound_map (mergeIntoTree_sound _)) fun _ => ?_
    refine sound_bind (by simp) fun _ _ => sound_ite (fun _ => ?_) fun hneg => ?_
    · obtain ⟨t,reservation,logOffset,ms,stage⟩ := k
      cases stage with
      | start => exact sound_return (sound_ofOption (by simp))
      | first =>
        cases reservation with
        | none => simp
        | some i =>
          refine sound_return (sound_bind (by simp) fun o _ => ?_)
          cases o with
          | none => simp
          | some r => exact sound_return (sound_ok _)
      | second => exact sound_map (mergeIntoTree_sound _)
    · exact absurd (by simp [hd]) hneg
  · have howed := owed_commit hk hm
    rw [(bytes_of_alloc hkind hd).1] at howed
    refine sound_ite (fun _ => sound_map (mergeIntoTree_sound _)) fun _ => ?_
    refine sound_bind (by simp) fun _ _ => sound_ite (fun hneg => ?_) fun _ => ?_
    · simp [hd] at hneg
    · obtain ⟨t,reservation,logOffset,ms,stage⟩ := k
      cases stage with
      | start => exact sound_map (mergeIntoTree_sound _)
      | first => exact sound_pure _
      | second =>
        refine sound_bind (sound_sub.mpr (h.owed_single_le howed)) fun _ _ => ?_
        cases reservation with
        | none => simp
        | some i =>
          refine sound_map (sound_bind (by simp) fun o ho => ?_)
          cases o with
          | none => simp
          | some r =>
            have hr := lookup_eq_ok.mp ho
            have hle := h.promised_le hr (.inr (.inr howed))
            have hs := h.solvent_of_eq hr
            refine sound_return (sound_bind (sound_sub.mpr hle) fun _ _ => ?_)
            exact sound_return (sound_sub.mpr (hle.trans hs))

lemma commitEnd_sound : Sound (commitEnd s) := by
  simp only [commitEnd]
  cases s.commit with
  | none => simp
  | some k =>
    exact sound_bind (by simp) fun _ _ => sound_bind (by simp) fun _ _ =>
      sound_return (by simp)

lemma dropMutation_sound {l : Ledger} (hl : l.Balanced n) {reservation : Option ℕ} {m : Mutation} (hledger : l =
      { s.ledger with owed := single reservation m.allocBytes+s.ledger.owed }) :
    Sound (dropMutation s reservation m) := by
  refine sound_ite (fun hm => ?_) fun _ => sound_pure _
  have hbytes : m.allocBytes = m.range.length := by simp [Mutation.allocBytes,hm]
  rw [hbytes] at hledger
  have howed : l.owed = single reservation m.range.length+s.ledger.owed := by rw [hledger]
  refine sound_bind (by simp) fun _ _ => sound_bind (sound_sub.mpr ?_) fun _ _ => ?_
  · have hle := hl.owed_single_le howed
    rw [hledger] at hle
    exact hle
  · cases reservation with
    | none => simp
    | some i =>
      refine sound_return (sound_bind (by simp) fun o ho => ?_)
      cases o with
      | none => simp
      | some r =>
        have hr : l.accounts[i]? = some (some r) := by
          rw [hledger]
          exact lookup_eq_ok.mp ho
        refine sound_return (sound_bind ?_ fun _ _ => sound_pure _)
        exact sound_sub.mpr (hl.promised_le hr (.inr (.inr howed)))

lemma dropStep_sound (h : s.ledger.Balanced n) (t : ℕ) : Sound (dropStep s t) := by
  refine sound_bind (by simp) fun tx htx => sound_bind (by simp) fun _ hph => ?_
  obtain ⟨reservation,ms,phase⟩ := tx
  obtain rfl : phase = .dropping := require_eq_ok.mp hph
  cases ms with
  | nil => simp
  | cons m rest => exact dropMutation_sound h (ledger_dropping (lookup_eq_ok.mp htx))

lemma flushStep_sound (h : s.ledger.Balanced n) : Sound (flushStep s) := by
  simp only [flushStep]
  cases hf : s.flush with
  | none => simp
  | some f =>
    obtain ⟨deallocs,total⟩ := f
    cases deallocs with
    | cons range deallocs => simp
    | nil =>
      have hqueued : s.inner.committedDeallocatedBytes = queuedBytes s.inner.committedDeallocated s.flush := h.queued
      rw [hf] at hqueued
      simp only [queuedBytes,Option.elim_some,map_nil,sum_nil] at hqueued
      exact sound_return (sound_sub.mpr (by simp only; omega))

lemma step_sound (hn : c.deviceSize < 2^63) (hs : s.Shape b)
    (h : s.ledger.Balanced c.deviceSize) (a : Action) : Sound (step c s a) := by
  cases a with
  | reserve amount =>
    exact sound_bind (sound_free h hn) fun free _ =>
      sound_ite (fun _ => sound_pure _) fun _ => sound_pure _
  | reserveAtMost amount => exact sound_return (sound_free h hn)
  | dropReservation i => exact dropReservation_sound h i
  | hold i amount => exact hold_sound h i amount
  | holdAtMost i amount =>
    refine sound_bind (by simp) fun o ho => ?_
    cases o with
    | none => simp
    | some r => exact sound_return (sound_return (sound_avail h ho))
  | dropHold i => exact dropHold_sound h i
  | newTransaction reservation | flushBegin flushLogOffset => exact sound_return (by simp)
  | allocateReserve t len => exact allocateReserve_sound h hn t len
  | allocateLock t => exact allocateLock_sound t
  | allocateStep => exact allocateStep_sound hs h
  | allocateFail t => exact allocateFail_sound h t
  | markAllocated t range => exact markAllocated_sound h hn t range
  | deallocate t range =>
    refine sound_bind (sound_activeTransaction t) fun tx _ => ?_
    refine sound_ite (fun _ => sound_pure _) fun _ => ?_
    exact sound_return (sound_ofOption (by simp))
  | commitBegin t logOffset =>
    exact sound_bind (sound_activeTransaction t) fun _ _ => sound_return (by simp)
  | commitStep =>
    simp only [step,commitStep]
    cases hk : s.commit with
    | none => simp
    | some k =>
      cases hm : k.mutations with
      | nil => simp [hm]
      | cons m rest =>
        simp only [hm]
        exact applyMutation_sound h hk hm (hs.commit k hk m (by simp [hm]))
  | commitEnd => exact commitEnd_sound
  | dropBegin t => exact sound_return (sound_activeTransaction t)
  | dropStep t => exact dropStep_sound h t
  | flushStep => exact flushStep_sound h

end Sound

section Accounts

def ownShare (reservation : Option ℕ) (bytes : ℕ) : ℕ := if reservation = none then bytes else 0

def heldShare (reservation : Option ℕ) (bytes : ℕ) : ℕ := if reservation = none then 0 else bytes

/-- The amounts of all live reservations: those that callers have, and the one that a
running `allocate` has made for a transaction without a reservation. -/
def State.reservationBytes (s : State) : ℕ := (s.reservations.map amountOf).sum+
    (s.transactions.map fun tx => ownShare tx.allocatorReservation tx.grantedBytes).sum+
    s.allocation.elim 0 fun a => ownShare a.allocatorReservation a.stage.grantedBytes

/-- The holds on reservations that are owned by allocations not yet committed. -/
def State.heldBytes (s : State) : ℕ :=
  (s.transactions.map fun tx => heldShare tx.allocatorReservation (allocBytes tx.mutations)).sum+
    s.commit.elim 0 (fun k => heldShare k.allocatorReservation (allocBytes k.mutations))+
    s.allocation.elim 0 fun a => heldShare a.allocatorReservation a.stage.owedBytes

variable (o : Option ℕ)

lemma single_none (bytes : ℕ) : (single o bytes : Option ℕ →₀ ℕ) none = ownShare o bytes := by
  rw [single_apply,ownShare]

lemma degree_single_eq (bytes : ℕ) : (single o bytes : Option ℕ →₀ ℕ).degree = (single o bytes : Option ℕ →₀ ℕ) none+
      heldShare o bytes := by
  rw [degree_single,single_none,ownShare,heldShare]
  split_ifs <;> simp

lemma granted_none (s : State) : s.reservationBytes = s.ledger.amounts+s.ledger.granted none := by
  have hsum : ∀ xs : List Transaction,(xs.map Transaction.granted).sum none =
      (xs.map fun tx => ownShare tx.allocatorReservation tx.grantedBytes).sum := by
    intro xs
    induction xs with
    | nil => rfl
    | cons tx xs ih =>
      simp [ih,Transaction.granted,single_none]
  have hcall : (s.allocation.elim 0 Allocation.granted) none =
      s.allocation.elim 0 fun a => ownShare a.allocatorReservation a.stage.grantedBytes := by
    cases s.allocation with
    | none => rfl
    | some a => exact single_none _ _
  simp [reservationBytes,ledger,amounts,hsum,hcall,add_assoc]

lemma degree_owed (s : State) : s.ledger.owed.degree = s.ledger.owed none+s.heldBytes := by
  have hsum : ∀ xs : List Transaction,(xs.map Transaction.owed).sum.degree = (xs.map Transaction.owed).sum none+
        (xs.map fun tx => heldShare tx.allocatorReservation (allocBytes tx.mutations)).sum := by
    intro xs
    induction xs with
    | nil => rfl
    | cons tx xs ih =>
      simp only [List.map_cons,List.sum_cons,map_add,Finsupp.add_apply,ih,Transaction.owed,degree_single_eq]
      omega
  have hcommit : (s.commit.elim 0 Commit.owed).degree = (s.commit.elim 0 Commit.owed) none+
      s.commit.elim 0 fun k => heldShare k.allocatorReservation (allocBytes k.mutations) := by
    cases s.commit with
    | none => rfl
    | some k => exact degree_single_eq _ _
  have hcall : (s.allocation.elim 0 Allocation.owed).degree = (s.allocation.elim 0 Allocation.owed) none+
        s.allocation.elim 0 fun a => heldShare a.allocatorReservation a.stage.owedBytes := by
    cases s.allocation with
    | none => rfl
    | some a => exact degree_single_eq _ _
  simp only [ledger,heldBytes,map_add,Finsupp.add_apply,hsum,hcommit,hcall]
  omega

/-- What the allocator reports as used fits on the device, what is reserved is what the
reservations have less what their transactions took out of it, and no counter
underflows, whatever comes next. -/
theorem accounts_balance (hn : c.deviceSize < 2^63)
    (h : Run c (fun s a => Careful 1 s a ∧ Unbacked s a) s) :
    0 ≤ s.inner.allocatedBytes ∧
      s.inner.allocatedBytes+s.inner.uncommittedAllocatedBytes+s.inner.reservedBytes ≤
        c.deviceSize ∧ s.inner.reservedBytes+s.heldBytes = s.reservationBytes ∧
      (∀ r,some r ∈ s.reservations → r.reserved ≤ r.amount) ∧
      ∀ a,step c s a ≠ .error .underflow := by
  obtain ⟨hbalanced,-⟩ := run_balanced hn (fun _ _ h => h) h
  obtain ⟨hs,-⟩ := run_safe (one_dvd _) (one_dvd _) (fun _ _ h => h.1) h
  refine ⟨hbalanced.nonneg,hbalanced.within,?_,hbalanced.solvent,step_sound hn hs hbalanced⟩
  have hreserved := hbalanced.reserved
  have howed := degree_owed s
  have hgranted := granted_none s
  have huncommitted := hbalanced.uncommitted
  have hr : s.ledger.reserved = s.inner.reservedBytes := rfl
  omega

def reservedRun : List Action :=
  [.reserve 8192,.hold 0 4096,.newTransaction (some 0)]++allocateActions 0 8192

theorem accounts_balance_reservedRun : ∃ s,run (fun s a => Careful 1 s a ∧ Unbacked s a)
      (fun s a => (step ⟨4096,16384⟩ s a).toOption) created reservedRun = some s ∧
    s.reservations = [some ⟨8192,8192⟩] ∧ s.inner.reservedBytes = 4096 ∧
    s.inner.reservedBytes+s.heldBytes = s.reservationBytes ∧
    ∀ a,step ⟨4096,16384⟩ s a ≠ .error .underflow := by
  have hmap : (run (fun s a => Careful 1 s a ∧ Unbacked s a)
      (fun s a => (step ⟨4096,16384⟩ s a).toOption) created reservedRun).map
      (fun s => (s.reservations,s.inner.reservedBytes)) = some ([some ⟨8192,8192⟩],4096) := by
    decide +kernel
  obtain ⟨s,hs,heq⟩ := map_eq_some_iff.mp hmap
  obtain ⟨hres,hbytes⟩ := Prod.mk.inj heq
  have hmain := @accounts_balance s ⟨4096,16384⟩ (by decide)
    (Transition.Reachable.run (.start rfl) hs)
  exact ⟨s,hs,hres,hbytes,hmain.2.2.1,hmain.2.2.2.2⟩

/-- Bytes that `mark_allocated` takes out of a reservation stay reserved, also when the
transaction is committed and its reservation has given them up. -/
theorem markAllocated_leaks : ¬∀ c s,c.deviceSize < 2^63 → Run c (Careful 1) s →
    s.inner.reservedBytes+s.heldBytes = s.reservationBytes := by
  intro h
  have hmap : (run (Careful 1) (fun s a => (step ⟨4096,16384⟩ s a).toOption) created
      ([.reserve 8192,.newTransaction (some 0),.markAllocated 0 ⟨0,4096⟩,.commitBegin 0 1]++
        replicate 3 .commitStep++[.commitEnd])).map
      (fun s => (s.inner.reservedBytes,s.heldBytes,s.reservationBytes)) =
      some (8192,0,4096) := by
    decide +kernel
  obtain ⟨s,hs,heq⟩ := map_eq_some_iff.mp hmap
  obtain ⟨hreserved,hrest⟩ := Prod.mk.inj heq
  obtain ⟨hheld,hamounts⟩ := Prod.mk.inj hrest
  have heq := h ⟨4096,16384⟩ s (by decide) (Transition.Reachable.run (.start rfl) hs)
  omega

end Accounts

end Fuchsia.Fxfs.SimpleAllocator
