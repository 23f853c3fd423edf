import Fuchsia.Fxfs.AllocatorRun

/-! What the past has handed out and taken back, along runs: a range that `allocate`
returned stays withheld while its transaction is open, and a deallocation stays
queued until the device is flushed past it. -/
namespace Fuchsia.Fxfs.SimpleAllocator

open Slots Fallible Phase Multiset Option Mutation Transaction State Transition

/-- The transaction is in the hands of its owner. -/
def Phase.owned : Phase → Prop
  | .active => True
  | .waiting _ _ => True
  | .allocating => True
  | .failed _ => True
  | _ => False

def Transaction.Ended (tx : Transaction) : Prop := tx.phase = .dropping ∨ tx.phase = .closed

instance (tx : Transaction) : Decidable tx.Ended := inferInstanceAs (Decidable (_ ∨ _))

def Commit.Backs (tree : List AllocatorItem) (k : Commit) (r : Range) : Prop :=
  r ∈ allocRanges k.mutations ∨ ∀ p,r.Has p → (1+coverage (freeRanges k.mutations) p : ℤ) ≤ deltaAt tree p

def Commit.Arrived (tree : List AllocatorItem) (k : Commit) : Prop :=
  ∀ m rest,k.mutations = m::rest → k.stage ≠ .start → ∀ p,
    (coverage m.alloc p+coverage (freeRanges k.mutations) p : ℤ) ≤ deltaAt tree p

/-- Why nobody else is given the range that transaction `t` was given. -/
inductive Backed (s : State) (t : ℕ) (r : Range) (tx : Transaction) : Prop
  | ended : tx.Ended → Backed s t r tx
  | held : tx.phase.owned → r ∈ tx.allocs → Backed s t r tx
  | committing {k : Commit} : tx.phase = .committing → s.commit = some k → k.transaction = t →
      k.Backs s.tree r → Backed s t r tx

structure State.History (s : State) : Prop where
  issued : ∀ x ∈ s.issued,∃ tx,s.transactions[x.1]? = some tx ∧ Backed s x.1 x.2 tx
  freed : ∀ d ∈ s.freed,s.flushedOffset ≤ d.1 → d ∈ s.inner.committedDeallocated
  arrived : ∀ k ∈ s.commit,k.Arrived s.tree

def Transaction.Keeps (tx tx' : Transaction) : Prop :=
  tx'.Ended ∨ tx.phase.owned ∧ tx'.phase.owned ∧ tx.allocs ≤ tx'.allocs

variable {s s' : State} {b n t : ℕ} {c : Config} {r range : Range} {tx : Transaction}

lemma Commit.Arrived.of_start {tree : List AllocatorItem} {k : Commit} (h : k.stage = .start) : k.Arrived tree :=
  fun _ _ _ hstage => absurd h hstage

variable {tx' : Transaction}

lemma Transaction.Keeps.backed (h : tx.Keeps tx') (hb : Backed s t r tx) : Backed s' t r tx' := by
  rcases h with h | ⟨hown,hown',hle⟩
  · exact .ended h
  · cases hb with
    | ended he =>
      rcases he with he | he <;> simp [he,owned] at hown
    | held _ hmem => exact .held hown' (mem_of_le hle hmem)
    | committing hph _ _ _ => simp [hph,owned] at hown

/-- The past does not change and nothing happens to commits or to what was queued. -/
structure State.Quiet (s s' : State) : Prop where
  tree : s'.tree = s.tree
  commit : s'.commit = s.commit
  committedDeallocated : s'.inner.committedDeallocated = s.inner.committedDeallocated
  flushedOffset : s'.flushedOffset = s.flushedOffset
  issued : s'.issued = s.issued
  freed : s'.freed = s.freed

lemma State.Same.quiet (h : s.Same s') : s.Quiet s' where
  tree := h.tree
  commit := h.commit
  committedDeallocated := h.committedDeallocated
  flushedOffset := h.flushedOffset
  issued := h.issued
  freed := h.freed

lemma Backed.congr (htree : s'.tree = s.tree) (hcommit : s'.commit = s.commit)
    (h : Backed s t r tx) : Backed s' t r tx := by
  cases h with
  | ended he => exact .ended he
  | held hown hmem => exact .held hown hmem
  | committing hph hk ht hr => exact .committing hph (hcommit.trans hk) ht (htree.symm ▸ hr)

lemma State.History.of_backed (h : s.History) (hq : s.Quiet s')
    (htx : ∀ t tx,s.transactions[t]? = some tx → ∃ tx',s'.transactions[t]? = some tx' ∧
      ∀ r,Backed s t r tx → Backed s' t r tx') : s'.History where
  issued := by
    intro x hx
    rw [hq.issued] at hx
    obtain ⟨tx,ht,hback⟩ := h.issued x hx
    obtain ⟨tx',ht',hto⟩ := htx x.1 tx ht
    exact ⟨tx',ht',hto x.2 hback⟩
  freed := by
    rw [hq.freed,hq.flushedOffset,hq.committedDeallocated]
    exact h.freed
  arrived := by
    rw [hq.tree,hq.commit]
    exact h.arrived

lemma State.History.of_transactions (h : s.History) (hq : s.Quiet s')
    (htx : s'.transactions = s.transactions) : s'.History := by
  refine h.of_backed hq fun t tx ht => ⟨tx,by rw [htx]; exact ht,fun r hb => ?_⟩
  exact hb.congr hq.tree hq.commit

lemma State.History.of_same (h : s.History) (hsame : s.Same s') : s'.History :=
  h.of_transactions hsame.quiet hsame.transactions

lemma State.History.of_set (h : s.History) (hq : s.Quiet s') (ht : s.transactions[t]? = some tx)
    (htx : s'.transactions = s.transactions.set t tx') (hkeep : tx.Keeps tx') : s'.History := by
  refine h.of_backed hq fun u ux hu => ?_
  have hlt : u < s.transactions.length := (List.getElem?_eq_some_iff.mp hu).1
  rw [htx]
  by_cases heq : t = u
  · subst heq
    obtain rfl : tx = ux := by simpa [ht] using hu
    exact ⟨tx',List.getElem?_set_self hlt,fun r hb => hkeep.backed hb⟩
  · rw [List.getElem?_set_ne heq]
    exact ⟨ux,hu,fun r hb => hb.congr hq.tree hq.commit⟩

lemma Transaction.Keeps.phase {phase : Phase} (h : tx.phase.owned) (h' : phase.owned) :
    tx.Keeps { tx with phase := phase } :=
  .inr ⟨h,h',le_rfl⟩

section Actions

lemma allocs_le_addMutation {phase : Phase} (hne : ∀ x ∈ tx.mutations,(allocationOf range).cmp x ≠ .eq) : allocs
      { tx with mutations := addMutation (allocationOf range) tx.mutations,phase := phase } = {range}+tx.allocs := by
  simp [allocs,allocRanges_perm (addMutation_perm hne)]

section

variable (h : s.History)
include h

lemma newTransaction_history {reservation : Option ℕ} (hstep : newTransaction s reservation = .ok s') : s'.History := by
  simp only [newTransaction,bind_eq_ok,require_eq_ok,pure_eq_ok] at hstep
  obtain ⟨-,-,rfl⟩ := hstep
  refine h.of_backed (by constructor <;> rfl) fun t tx ht => ⟨tx,?_,fun r hb => ?_⟩
  · rw [List.getElem?_append_left (List.getElem?_eq_some_iff.mp ht).1]
    exact ht
  · exact @Backed.congr s _ t r tx rfl rfl hb

lemma allocateReserve_history {len : ℕ} (hstep : allocateReserve c s t len = .ok s') : s'.History := by
  cases allocateReserve_spec hstep with
  | refused => exact h
  | fromDevice htx hph _ _ _ _ | fromReservation htx hph _ _ _ _ _ =>
    exact h.of_set (by constructor <;> rfl) htx rfl (.phase (hph ▸ trivial) trivial)

lemma allocateLock_history (hstep : allocateLock c s t = .ok s') : s'.History := by
  simp only [allocateLock,bind_eq_ok,lookup_eq_ok] at hstep
  obtain ⟨tx,htx,hstep⟩ := hstep
  cases hph : tx.phase with
  | waiting requested granted =>
    simp only [hph,bind_eq_ok,require_eq_ok,pure_eq_ok] at hstep
    obtain ⟨-,-,-,-,rfl⟩ := hstep
    exact h.of_set (by constructor <;> rfl) htx rfl (.phase (by simp [hph,owned]) trivial)
  | _ => simp [hph] at hstep

lemma markAllocated_history (hs : s.Shape b) (hsafe : s.space.Safe b c.deviceSize)
    (hcare : Careful b s (.markAllocated t range)) (hstep : markAllocated c s t range = .ok s') : s'.History := by
  rcases markAllocated_spec hs hsafe hcare hstep with
    rfl | ⟨tx,free,reserved,reservations,htx,hph,-,-,-,-,hne,-,-,rfl⟩
  · exact h
  · have hown : tx.phase.owned := hph ▸ trivial
    refine h.of_set (by constructor <;> rfl) htx rfl (.inr ⟨hown,hown,?_⟩)
    rw [allocs_le_addMutation hne]
    exact le_add_left _ _

lemma deallocate_history (hs : s.Shape b) (hsafe : s.space.Safe b n) (hcare : Careful b s (.deallocate t range))
    (hstep : deallocate s t range = .ok s') : s'.History := by
  obtain ⟨tx,ms,ms',htx,hph,-,hperm,rfl⟩ := deallocate_spec hs hsafe hcare hstep
  have hown : tx.phase.owned := hph ▸ trivial
  refine h.of_set (by constructor <;> rfl) htx rfl (.inr ⟨hown,hown,?_⟩)
  simp only [allocs,allocRanges_perm hperm,allocRanges_append]
  exact le_add_left _ _

lemma State.History.issue (ht : s.transactions[t]? = some tx) (hown : tx.phase.owned)
    (hr : r ∈ tx.allocs) : State.History { s with issued := s.issued++[(t,r)] } where
  issued := by
    intro x hx
    rcases List.mem_append.mp hx with hx | hx
    · obtain ⟨ux,hu,hback⟩ := h.issued x hx
      exact ⟨ux,hu,@Backed.congr s _ _ _ _ rfl rfl hback⟩
    · obtain rfl : x = (t,r) := by simpa using hx
      exact ⟨tx,ht,.held hown hr⟩
  freed := h.freed
  arrived := h.arrived

lemma allocateStep_history (hstep : allocateStep c s = .ok s') : s'.History := by
  cases ha : s.allocation with
  | none => simp [allocateStep,ha] at hstep
  | some a =>
    cases hstage : a.stage with
    | locked granted =>
      simp only [allocateStep,ha,hstage,pure_eq_ok] at hstep
      subst hstep
      exact h.of_transactions (by constructor <;> rfl) rfl
    | erasing granted dropped =>
      cases dropped with
      | cons i dropped =>
        simp only [allocateStep,ha,hstage,pure_eq_ok] at hstep
        subst hstep
        exact h.of_transactions (by constructor <;> rfl) rfl
      | nil =>
        simp only [allocateStep,ha,hstage,bind_eq_ok] at hstep
        obtain ⟨items,-,hstep⟩ := hstep
        cases hg : firstGap c.deviceSize granted 0 items with
        | some range =>
          simp only [hg,pure_eq_ok] at hstep
          subst hstep
          exact h.of_transactions (by constructor <;> rfl) rfl
        | none =>
          simp only [hg,bind_eq_ok,lookup_eq_ok,require_eq_ok,pure_eq_ok] at hstep
          obtain ⟨tx,htx,-,hph,rfl⟩ := hstep
          exact h.of_set (by constructor <;> rfl) htx rfl (.phase (hph ▸ trivial) trivial)
    | found granted range =>
      simp only [allocateStep,ha,hstage,bind_eq_ok,pure_eq_ok] at hstep
      obtain ⟨rest,-,s1,h1,rfl⟩ := hstep
      exact (h.of_same (dropGrant_same h1)).of_transactions (by constructor <;> rfl) rfl
    | forgotten range =>
      simp only [allocateStep,ha,hstage,bind_eq_ok,pure_eq_ok] at hstep
      obtain ⟨reserved,-,rfl⟩ := hstep
      exact h.of_transactions (by constructor <;> rfl) rfl
    | counted range =>
      simp only [allocateStep,ha,hstage,bind_eq_ok,lookup_eq_ok,require_eq_ok,elim_eq_ok,pure_eq_ok] at hstep
      obtain ⟨tx,htx,-,hph,reserved,hins,-,hne,rfl⟩ := hstep
      have hlt := (List.getElem?_eq_some_iff.mp htx).1
      have hallocs := @allocs_le_addMutation range tx .active hne
      have hkept : State.History { s with
          reservedAllocations := reserved
          transactions := s.transactions.set a.transaction
            { tx with mutations := addMutation (allocationOf range) tx.mutations,phase := .active }
          allocation := none } := by
        refine h.of_set (by constructor <;> rfl) htx rfl (.inr ⟨hph ▸ trivial,trivial,?_⟩)
        rw [hallocs]
        exact le_add_left _ _
      refine hkept.issue (List.getElem?_set_self hlt) trivial ?_
      rw [hallocs]
      simp

lemma allocateFail_history (hstep : allocateFail s t = .ok s') : s'.History := by
  simp only [allocateFail,bind_eq_ok,lookup_eq_ok] at hstep
  obtain ⟨tx,htx,hstep⟩ := hstep
  have hown : tx.phase.grant ≠ none → tx.phase.owned := by cases hph : tx.phase <;> simp [grant,owned]
  cases hg : tx.phase.grant with
  | none => simp [hg] at hstep
  | some granted =>
    simp only [hg,bind_eq_ok,pure_eq_ok] at hstep
    obtain ⟨s1,h1,rfl⟩ := hstep
    have hsame := dropGrant_same h1
    rw [← hsame.transactions] at htx
    exact (h.of_same hsame).of_set (by constructor <;> rfl) htx rfl (.phase (hown (by simp [hg])) trivial)

lemma commitBegin_history {logOffset : ℕ} (hstep : commitBegin s t logOffset = .ok s') : s'.History := by
  simp only [commitBegin,bind_eq_ok,activeTransaction_eq_ok,require_eq_ok,pure_eq_ok] at hstep
  obtain ⟨tx,⟨htx,hph⟩,-,hnone,rfl⟩ := hstep
  refine ⟨fun x hx => ?_,h.freed,fun k hk => ?_⟩
  · obtain ⟨ux,hu,hback⟩ := h.issued x hx
    have hlt := (List.getElem?_eq_some_iff.mp hu).1
    by_cases heq : t = x.1
    · subst heq
      obtain rfl : tx = ux := by simpa [htx] using hu
      refine ⟨_,List.getElem?_set_self hlt,?_⟩
      cases hback with
      | ended he => rcases he with he | he <;> simp [hph] at he
      | held _ hmem => exact .committing rfl rfl rfl (.inl hmem)
      | committing hc _ _ _ => simp [hph] at hc
    · refine ⟨ux,by rw [List.getElem?_set_ne heq]; exact hu,?_⟩
      cases hback with
      | ended he => exact .ended he
      | held hown hmem => exact .held hown hmem
      | committing _ hk _ _ => simp [hnone] at hk
  · obtain rfl : _ = k := by simpa using hk
    exact Commit.Arrived.of_start rfl

lemma commitEnd_history (hstep : commitEnd s = .ok s') : s'.History := by
  simp only [commitEnd] at hstep
  cases hk : s.commit with
  | none => simp [hk] at hstep
  | some k =>
    simp only [hk,bind_eq_ok,require_eq_ok,lookup_eq_ok,pure_eq_ok] at hstep
    obtain ⟨-,-,tx,htx,-,-,rfl⟩ := hstep
    refine ⟨fun x hx => ?_,h.freed,by simp⟩
    obtain ⟨ux,hu,hback⟩ := h.issued x hx
    have hlt := (List.getElem?_eq_some_iff.mp hu).1
    by_cases heq : k.transaction = x.1
    · rw [← heq] at hlt ⊢
      exact ⟨_,List.getElem?_set_self hlt,.ended (.inr rfl)⟩
    · refine ⟨ux,(List.getElem?_set_ne heq).trans hu,?_⟩
      cases hback with
      | ended he => exact .ended he
      | held hown hmem => exact .held hown hmem
      | committing _ hk' ht _ =>
        rw [hk] at hk'
        obtain rfl := some.inj hk'
        exact absurd ht heq

end

end Actions

section Commit

variable {k k' : Commit} {m : Mutation} {rest : List Mutation}

lemma State.History.of_commit (h : s.History) (hk : s.commit = some k) (htx : s'.transactions = s.transactions)
    (hissued : s'.issued = s.issued) (hfreed : ∀ d ∈ s'.freed,s'.flushedOffset ≤ d.1 → d ∈ s'.inner.committedDeallocated)
    (hk' : s'.commit = some k') (ht : k'.transaction = k.transaction)
    (hbacks : ∀ r,k.Backs s.tree r → k'.Backs s'.tree r) (harrived : k'.Arrived s'.tree) : s'.History where
  issued := by
    intro x hx
    rw [hissued] at hx
    obtain ⟨tx,hx',hback⟩ := h.issued x hx
    refine ⟨tx,by rw [htx]; exact hx',?_⟩
    cases hback with
    | ended he => exact .ended he
    | held hown hmem => exact .held hown hmem
    | committing hph hkx htx hr =>
      obtain rfl := some.inj (hk.symm.trans hkx)
      exact .committing hph hk' (ht.trans htx) (hbacks _ hr)
  freed := hfreed
  arrived := by
    intro k1 hk1
    obtain rfl := some.inj (hk'.symm.trans hk1)
    exact harrived

lemma freeRanges_le_tree (hsafe : s.space.Safe b n) (hk : s.commit = some k) (p : ℕ) :
    (coverage (freeRanges k.mutations) p : ℤ) ≤ deltaAt s.tree p := by
  have hle : freeRanges k.mutations ≤ s.space.freeing := by
    simp only [space,hk,elim_some]
    exact le_add_left _ _
  have hcov := coverage_le hle p
  have hf := hsafe.freeing_le p
  have hcount : s.space.count p = deltaAt s.tree p := rfl
  omega

lemma Commit.Arrived.of_free (hsafe : s.space.Safe b n) (hk : s.commit = some k) (hm : k.mutations = m::rest)
    (halloc : m.alloc = 0) (stage : CommitStage) : Commit.Arrived s.tree { k with stage := stage } := by
  intro m' rest' hm' _ p
  obtain ⟨rfl,-⟩ : m = m' ∧ rest = rest' := by simpa [hm] using hm'
  have hf := freeRanges_le_tree hsafe hk p
  simpa [halloc] using hf

lemma Commit.Backs.next (h : k.Arrived s.tree) (hm : k.mutations = m::rest) (hstage : k.stage ≠ .start)
    (halloc : m.alloc = {m.range}) (hfree : m.free = 0) (hr : k.Backs s.tree r) :
    Commit.Backs s.tree { k with mutations := rest,stage := .start } r := by
  have heq : freeRanges k.mutations = freeRanges rest := by simp [hm,hfree]
  rcases hr with hr | hr
  · simp only [hm,allocRanges_cons,halloc,mem_add,mem_singleton] at hr
    rcases hr with rfl | hr
    · refine .inr fun p hp => ?_
      have ha := h m rest hm hstage p
      rw [halloc,coverage_singleton,if_pos hp,heq] at ha
      exact ha
    · exact .inl hr
  · refine .inr fun p hp => ?_
    have hp' := hr p hp
    rw [heq] at hp'
    exact hp'

lemma Applied.history (h : s.History) (hsafe : s.space.Safe b n) (hk : s.commit = some k)
    (hm : k.mutations = m::rest) (happ : Applied s k m rest s') : s'.History := by
  have hqueue : ∀ d ∈ s.freed++[(k.logOffset,m.range)],s.flushedOffset ≤ d.1 →
      d ∈ s.inner.committedDeallocated++[(k.logOffset,m.range)] := by
    intro d hd hle
    rcases List.mem_append.mp hd with hd | hd
    · exact List.mem_append_left _ (h.freed d hd hle)
    · exact List.mem_append_right _ hd
  cases happ with
  | freeMerged hd _ _ _ hcount =>
    obtain ⟨ha,hf⟩ := parts_free hd
    refine h.of_commit hk rfl rfl h.freed rfl rfl (fun r hr => ?_) (.of_start rfl)
    rcases hr with hr | hr
    · rw [hm,allocRanges_cons,ha,zero_add] at hr
      exact .inl hr
    · refine .inr fun p hp => ?_
      have hp' := hr p hp
      have hcount' := hcount p
      simp only [hm,freeRanges_cons,hf,coverage_add,Nat.cast_add] at hp' ⊢
      omega
  | freeReserved _ hd _ _ _ =>
    exact h.of_commit hk rfl rfl h.freed rfl rfl (fun r hr => hr) (.of_free hsafe hk hm (parts_free hd).1 _)
  | freeCounted _ hd _ _ | freeCountedIn _ hd _ _ _ =>
    exact h.of_commit hk rfl rfl hqueue rfl rfl (fun r hr => hr) (.of_free hsafe hk hm (parts_free hd).1 _)
  | allocMerged hkind hd _ _ hcount =>
    refine h.of_commit hk rfl rfl h.freed rfl rfl (fun r hr => ?_) fun m' rest' hm' _ p => ?_
    · rcases hr with hr | hr
      · exact .inl hr
      · refine .inr fun p hp => ?_
        have hp' := hr p hp
        have hcount' := hcount p
        simp only at hp' ⊢
        omega
    · obtain ⟨rfl,-⟩ : m = m' ∧ rest = rest' := by simpa [hm] using hm'
      have hf := freeRanges_le_tree hsafe hk p
      have hcount' := hcount p
      rw [(parts_alloc hkind hd).1]
      simp only
      omega
  | allocErased _ _ hstage _ _ =>
    refine h.of_commit hk rfl rfl h.freed rfl rfl (fun r hr => hr) fun m' rest' hm' _ => ?_
    exact h.arrived k hk m' rest' hm' (by simp [hstage])
  | allocCounted hkind hd hstage _ _ | allocCountedIn hkind hd hstage _ _ _ =>
    obtain ⟨ha,hf⟩ := parts_alloc hkind hd
    exact h.of_commit hk rfl rfl h.freed rfl rfl
      (fun r hr => .next (h.arrived k hk) hm (by simp [hstage]) ha hf hr) (.of_start rfl)

end Commit

section DropAndFlush

lemma dropMutation_quiet {reservation : Option ℕ} {m : Mutation} (h : dropMutation s reservation m = .ok s') :
    s.Quiet s' ∧ s'.transactions = s.transactions ∧ s'.allocation = s.allocation := by
  simp only [dropMutation] at h
  split_ifs at h with hm
  · simp only [bind_eq_ok,require_eq_ok] at h
    obtain ⟨-,-,uncommitted,-,h⟩ := h
    cases reservation with
    | none =>
      obtain rfl := pure_eq_ok.mp h
      exact ⟨by constructor <;> rfl,rfl,rfl⟩
    | some i =>
      simp only [bind_eq_ok,pure_eq_ok] at h
      obtain ⟨s1,h1,rfl⟩ := h
      have hsame := updateReservation_same h1
      exact ⟨{ hsame.quiet with committedDeallocated := rfl },hsame.transactions,hsame.allocation⟩
  · obtain rfl := pure_eq_ok.mp h
    exact ⟨by constructor <;> rfl,rfl,rfl⟩

variable (h : s.History)
include h

lemma dropBegin_history (hstep : dropBegin s t = .ok s') : s'.History := by
  simp only [dropBegin,bind_eq_ok,activeTransaction_eq_ok,pure_eq_ok] at hstep
  obtain ⟨tx,⟨htx,-⟩,rfl⟩ := hstep
  exact h.of_set (by constructor <;> rfl) htx rfl (.inl (.inl rfl))

lemma dropStep_history (hstep : dropStep s t = .ok s') : s'.History := by
  simp only [dropStep,bind_eq_ok,lookup_eq_ok,require_eq_ok] at hstep
  obtain ⟨⟨reservation,ms,phase⟩,htx,-,hph,hstep⟩ := hstep
  obtain rfl : phase = .dropping := hph
  cases ms with
  | nil =>
    obtain rfl := pure_eq_ok.mp hstep
    exact h.of_set (by constructor <;> rfl) htx rfl (.inl (.inr rfl))
  | cons m rest =>
    obtain ⟨hq,htx',-⟩ := dropMutation_quiet hstep
    have hset : (s.setTransaction t ⟨reservation,rest,.dropping⟩).History :=
      h.of_set (by constructor <;> rfl) htx rfl (.inl (.inl rfl))
    exact hset.of_transactions hq htx'

/-- Devices are flushed to offsets that never fall, as the journal has it. -/
def Rising (s : State) : Action → Prop
  | .flushBegin flushLogOffset => s.flushedOffset ≤ flushLogOffset
  | _ => True

instance (s : State) (a : Action) : Decidable (Rising s a) := by
  induction a using Action.casesOn <;> dsimp only [Rising] <;> infer_instance

lemma flushBegin_history {flushLogOffset : ℕ} (hrise : s.flushedOffset ≤ flushLogOffset)
    (hstep : flushBegin s flushLogOffset = .ok s') : s'.History := by
  simp only [flushBegin,bind_eq_ok,require_eq_ok,pure_eq_ok] at hstep
  obtain ⟨-,-,rfl⟩ := hstep
  refine ⟨fun x hx => ?_,fun d hd hle => ?_,h.arrived⟩
  · obtain ⟨tx,ht,hback⟩ := h.issued x hx
    exact ⟨tx,ht,@Backed.congr s _ _ _ _ rfl rfl hback⟩
  · exact mem_dropWhile_of_mem (h.freed d hd (hrise.trans hle)) (by simpa using hle)

lemma flushStep_history (hstep : flushStep s = .ok s') : s'.History := by
  simp only [flushStep] at hstep
  cases hf : s.flush with
  | none => simp [hf] at hstep
  | some f =>
    obtain ⟨deallocs,total⟩ := f
    rw [hf] at hstep
    cases deallocs with
    | nil =>
      simp only [bind_eq_ok,pure_eq_ok] at hstep
      obtain ⟨bytes,-,rfl⟩ := hstep
      exact h.of_transactions (by constructor <;> rfl) rfl
    | cons range deallocs =>
      obtain rfl := pure_eq_ok.mp hstep
      exact h.of_transactions (by constructor <;> rfl) rfl

end DropAndFlush

section Run

lemma step_history (h : s.History) (hs : s.Shape b) (hsafe : s.space.Safe b c.deviceSize) {a : Action}
    (hcare : Careful b s a) (hrise : Rising s a) (hstep : step c s a = .ok s') : s'.History := by
  cases a with
  | reserve amount => exact h.of_same (reserve_same hstep)
  | reserveAtMost amount => exact h.of_same (reserveAtMost_same hstep)
  | dropReservation i => exact h.of_same (dropReservation_same hstep)
  | hold i amount => exact h.of_same (hold_same hstep)
  | holdAtMost i amount => exact h.of_same (holdAtMost_same hstep)
  | dropHold i => exact h.of_same (dropHold_same hstep)
  | newTransaction reservation => exact newTransaction_history h hstep
  | allocateReserve t len => exact allocateReserve_history h hstep
  | allocateLock t => exact allocateLock_history h hstep
  | allocateStep => exact allocateStep_history h hstep
  | allocateFail t => exact allocateFail_history h hstep
  | markAllocated t range => exact markAllocated_history h hs hsafe hcare hstep
  | deallocate t range => exact deallocate_history h hs hsafe hcare hstep
  | commitBegin t logOffset => exact commitBegin_history h hstep
  | commitStep =>
    obtain ⟨k,m,rest,hk,hm,happ⟩ := commitStep_applied hs hsafe hstep
    exact happ.history h hsafe hk hm
  | commitEnd => exact commitEnd_history h hstep
  | dropBegin t => exact dropBegin_history h hstep
  | dropStep t => exact dropStep_history h hstep
  | flushBegin flushLogOffset => exact flushBegin_history h hrise hstep
  | flushStep => exact flushStep_history h hstep

lemma run_history {allowed : State → Action → Prop} (hb : b ∣ c.blockSize) (hn : b ∣ c.deviceSize)
    (hallowed : ∀ s a,allowed s a → Careful b s a ∧ Rising s a) (h : Run c allowed s) : s.History := by
  induction h with
  | start h =>
    subst h
    constructor <;> simp [created]
  | step hrun ha hstep ih =>
    obtain ⟨hs,hsafe⟩ := run_safe hb hn (fun s a h => (hallowed s a h).1) hrun
    obtain ⟨hcare,hrise⟩ := hallowed _ _ ha
    exact step_history ih hs hsafe hcare hrise (toOption_eq_some.mp hstep)

end Run

section Safety

variable {p : ℕ}

lemma taken_of_mem_reserved (hsafe : s.space.Safe b n) (hr : r ∈ s.space.reserved)
    (hp : r.Has p) : 0 < coverage s.space.reserved p+s.space.count p := by
  have hpos := coverage_pos hr hp
  have hcount := hsafe.count_nonneg p
  omega

lemma taken_of_mem_allocs (hsafe : s.space.Safe b n) (hr : r ∈ s.space.allocs)
    (hp : r.Has p) : 0 < coverage s.space.reserved p+s.space.count p :=
  taken_of_mem_reserved hsafe (mem_of_le ((le_add_right _ _).trans hsafe.held_le) hr) hp

lemma Commit.Backs.taken {k : Commit} (h : s.History) (hsafe : s.space.Safe b n) (hk : s.commit = some k)
    (hr : k.Backs s.tree r) (hp : r.Has p) : 0 < coverage s.space.reserved p+s.space.count p := by
  have hcount : s.space.count p = deltaAt s.tree p := rfl
  have hle : k.allocs ≤ s.space.allocs := by
    simp only [space,hk,elim_some]
    exact le_add_left _ _
  rcases hr with hr | hr
  · cases hm : k.mutations with
    | nil => simp [hm] at hr
    | cons m rest =>
      obtain ⟨hallocs,-⟩ := Commit.parts hm
      rw [hm,allocRanges_cons,mem_add] at hr
      by_cases hstage : k.stage = .second ∧ r ∈ m.alloc
      · have ha := h.arrived k hk m rest hm (by simp [hstage.1]) p
        have hpos := coverage_pos hstage.2 hp
        omega
      · refine taken_of_mem_allocs hsafe (mem_of_le hle ?_) hp
        rw [hallocs]
        by_cases hsecond : k.stage = .second
        · have hr' : r ∈ allocRanges rest := hr.resolve_left fun hmem => hstage ⟨hsecond,hmem⟩
          exact mem_add.mpr (.inr hr')
        · rw [if_neg hsecond]
          exact mem_add.mpr hr
  · have hp' := hr p hp
    omega

lemma Backed.taken (hback : Backed s t r tx) (h : s.History) (hsafe : s.space.Safe b n)
    (ht : s.transactions[t]? = some tx) (hopen : ¬tx.Ended) (hp : r.Has p) :
    0 < coverage s.space.reserved p+s.space.count p := by
  cases hback with
  | ended he => exact absurd he hopen
  | held _ hmem =>
    have hle := (le_add_right _ _).trans (allocs_le_space ht)
    exact taken_of_mem_allocs hsafe (mem_of_le hle hmem) hp
  | committing _ hk _ hr => exact hr.taken h hsafe hk hp

/-- The range that `allocate` returns is a part of the device that nobody else uses:
nothing in the tree refers to it, no open transaction was given any of it, and no
deallocation of any of it waits for a flush. -/
theorem allocate_returns_free {a : Allocation} (hn : c.blockSize ∣ c.deviceSize)
    (h : Run c (fun s a => Careful c.blockSize s a ∧ Rising s a) s) (ha : s.allocation = some a)
    (hstage : a.stage = .counted range) (hstep : step c s .allocateStep = .ok s') :
    s'.issued = s.issued++[(a.transaction,range)] ∧ range.start < range.stop ∧
      range.Aligned c.blockSize ∧ range.stop ≤ c.deviceSize ∧ range.length ≤ a.requested ∧
      ∀ p,range.Has p → deltaAt s.tree p ≤ 0 ∧
        (∀ x ∈ s.issued,∀ tx,s.transactions[x.1]? = some tx → ¬tx.Ended → ¬x.2.Has p) ∧
        ∀ d ∈ s.freed,s.flushedOffset ≤ d.1 → ¬d.2.Has p := by
  obtain ⟨hs,hsafe⟩ := run_safe (dvd_refl _) hn (fun _ _ h => h.1) h
  have hist := run_history (dvd_refl _) hn (fun _ _ h => h) h
  have hfree := hsafe.found range (by simp [space,ha,Allocation.found,hstage])
  have hok := hs.allocation a ha
  simp only [Allocation.Ok,hstage] at hok
  have hissued : s'.issued = s.issued++[(a.transaction,range)] := by
    simp only [step,allocateStep,ha,hstage,bind_eq_ok,pure_eq_ok] at hstep
    obtain ⟨-,-,-,-,-,-,-,-,rfl⟩ := hstep
    rfl
  refine ⟨hissued,hfree.nonempty,hfree.aligned,hfree.inside,hok,fun p hp => ?_⟩
  have hnone := hfree.free p hp
  refine ⟨?_,fun x hx tx ht hopen hxp => ?_,fun d hd hle hdp => ?_⟩
  · have hcount : s.space.count p = deltaAt s.tree p := rfl
    omega
  · obtain ⟨ux,hu,hback⟩ := hist.issued x hx
    obtain rfl : ux = tx := by simpa [ht] using hu.symm
    have htaken := hback.taken hist hsafe ht hopen hxp
    omega
  · have hmem : d.2 ∈ s.space.stale := by
      have hq : d.2 ∈ (s.inner.committedDeallocated.map Prod.snd : Multiset Range) :=
        List.mem_map_of_mem (hist.freed d hd hle)
      simp [space,hq]
    have htaken := taken_of_mem_reserved hsafe
      (mem_of_le ((le_add_left _ _).trans hsafe.held_le) hmem) hdp
    omega

/-- Step after step, the whole of `allocate`. -/
def allocateActions (t len : ℕ) : List Action :=
  [.allocateReserve t len,.allocateLock t]++List.replicate 5 .allocateStep

def fullDevice : List Action := [.newTransaction none]++allocateActions 0 8192++[.commitBegin 0 1]++
    List.replicate 3 .commitStep++[.commitEnd,.newTransaction none,.deallocate 1 ⟨0,4096⟩,
    .commitBegin 1 7]++List.replicate 3 .commitStep++[.commitEnd,.flushBegin 5,.flushStep,
    .newTransaction none]++allocateActions 2 4096++[.newTransaction none]++
    (allocateActions 3 8192).dropLast

def runOf (c : Config) (as : List Action) : Option State :=
  run (fun s a => Careful c.blockSize s a ∧ Rising s a)
    (fun s a => (step c s a).toOption) created as

def fullDeviceState : State := (runOf ⟨4096,16384⟩ fullDevice).getD created

theorem allocate_returns_free_fullDevice : ∃ s',
    step ⟨4096,16384⟩ fullDeviceState .allocateStep = .ok s' ∧
      s'.issued = [(0,⟨0,8192⟩),(2,⟨8192,12288⟩),(3,⟨12288,16384⟩)] ∧
      ∀ p,Range.Has ⟨12288,16384⟩ p → deltaAt fullDeviceState.tree p ≤ 0 := by
  have hstage : fullDeviceState.allocation = some ⟨3,none,8192,.counted ⟨12288,16384⟩⟩ := by
    decide +kernel
  have hissued : fullDeviceState.issued = [(0,⟨0,8192⟩),(2,⟨8192,12288⟩)] := by decide +kernel
  have hsome : ((step ⟨4096,16384⟩ fullDeviceState .allocateStep).toOption).isSome = true := by
    decide +kernel
  obtain ⟨s',hs'⟩ := isSome_iff_exists.mp hsome
  have hstep := toOption_eq_some.mp hs'
  have hrun : runOf ⟨4096,16384⟩ fullDevice = some fullDeviceState := by decide +kernel
  have hmain := allocate_returns_free (by decide) (Transition.Reachable.run (.start rfl) hrun)
    hstage rfl hstep
  exact ⟨s',hstep,by rw [hmain.1,hissued]; rfl,fun p hp => (hmain.2.2.2.2.2 p hp).1⟩

/-- What a transaction's reservation has left is handed out as it is, and it need not be
a number of blocks. -/
theorem allocate_unaligned : ¬∀ c s,c.blockSize ∣ c.deviceSize → Run c (fun _ _ => True) s →
    ∀ x ∈ s.issued,x.2.Aligned c.blockSize := by
  intro h
  have hmap : (run (fun _ _ => True) (fun s a => (step ⟨4096,16384⟩ s a).toOption) created
      ([.reserve 5000,.newTransaction (some 0)]++allocateActions 0 8192)).map issued =
      some [(0,⟨0,5000⟩)] := by
    decide +kernel
  obtain ⟨s,hs,hissued⟩ := map_eq_some_iff.mp hmap
  have haligned := h ⟨4096,16384⟩ s (by decide) (Transition.Reachable.run (.start rfl) hs)
    (0,⟨0,5000⟩) (by simp [hissued])
  exact absurd haligned (by decide)

end Safety

end Fuchsia.Fxfs.SimpleAllocator
