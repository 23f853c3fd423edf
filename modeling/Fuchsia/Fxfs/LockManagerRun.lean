import Fuchsia.Fxfs.LockManagerPoll

/-! The entries of `LockManager` agree with who holds the keys, in every state that polls and
drops of futures, guards and transactions lead to, and no wake-up is lost. -/
namespace Fuchsia.Fxfs.LockManager

open Fallible Agent Finset Function

variable {K W : Type} {owner : K → ℕ → ℕ} {s : State K W} {a : Agent K W} {k : K} {w : W}

/-- The key that a future waits for and the waker of its last poll, until that is woken. -/
def Agent.pending : Agent K W → Option (K × W)
  | .locking _ _ (k::_) _ (some w) => some (k,w)
  | .committing _ (k::_) (some w) => some (k,w)
  | _ => none

lemma pending_cases (h : a.pending = some (k,w)) :
    (∃ attempt,a.queue = some (k,attempt,some w)) ∨ a.want = some (k,some w) := by
  cases a with
  | locking target held todo attempt waiting =>
    cases todo with
    | nil => cases h
    | cons x rest =>
      cases waiting with
      | none => cases h
      | some w' =>
        cases h
        cases hwant : attempt.wantWrite with
        | true => exact .inr (by simp [want,hwant])
        | false => exact .inl ⟨attempt,by simp [queue,hwant]⟩
  | committing t todo waiting =>
    cases todo with
    | nil => cases h
    | cons x rest =>
      cases waiting with
      | none => cases h
      | some w' =>
        cases h
        exact .inr rfl
  | _ => cases h

lemma not_queue_and_want {x : K × Attempt × Option W} {y : K × Option W}
    (hq : a.queue = some x) (hw : a.want = some y) : False := by
  cases a with
  | locking target held todo attempt waiting =>
    cases todo with
    | nil => cases hq
    | cons k' rest =>
      simp only [queue,want] at hq hw
      split_ifs at hq hw
  | _ => cases hq

variable [LinearOrder K]

section Entries

def readGuards (s : State K W) (k : K) : Finset ℕ :=
  (range s.count).filter fun i => k ∈ (s.agents i).readKeys

def writeGuards (s : State K W) (k : K) : Finset ℕ :=
  (range s.count).filter fun i => k ∈ (s.agents i).writeKeys

variable (h : Inv owner s)
include h

lemma Inv.readers_eq (k : K) : readers s k = (readGuards s k).card := by
  rw [readers,readGuards,card_filter]
  exact sum_congr rfl fun i _ => (h.nodup i).2.count

lemma Inv.writers_eq (k : K) : writers s k = (writeGuards s k).card := by
  rw [writers,writeGuards,card_filter]
  exact sum_congr rfl fun i _ => (h.nodup i).1.count

lemma Inv.mem_writeGuards {j : ℕ} : j ∈ writeGuards s k ↔ k ∈ (s.agents j).writeKeys := by
  rw [writeGuards,mem_filter,mem_range]
  exact ⟨And.right,fun hk => ⟨lt_count_of_mem h (.inl hk),hk⟩⟩

lemma Inv.mem_readGuards {j : ℕ} : j ∈ readGuards s k ↔ k ∈ (s.agents j).readKeys := by
  rw [readGuards,mem_filter,mem_range]
  exact ⟨And.right,fun hk => ⟨lt_count_of_mem h (.inr hk),hk⟩⟩

lemma Inv.isSome_iff (k : K) : (s.locks.keys k).isSome ↔ (readGuards s k).Nonempty ∨ (writeGuards s k).Nonempty := by
  rw [← card_pos,← card_pos,← h.readers_eq,← h.writers_eq]
  obtain ⟨he,hread,hwrite⟩ | ⟨e,he,-,hpos,-⟩ := (h.entry k).cases
  · simp [he,hread,hwrite]
  · simp only [he,Option.isSome_some,true_iff]
    omega

lemma Inv.pending_entry {i : ℕ} (hp : (s.agents i).pending = some (k,w)) : ∃ e,s.locks.keys k = some e ∧
      (((∃ attempt,(s.agents i).queue = some (k,attempt,some w)) ∧ w ∈ e.wakers ∧ ∃ j,writeGuards s k = {j}) ∨
        (s.agents i).want = some (k,some w) ∧ e.state = .wantWrite w ∧ (readGuards s k).Nonempty) := by
  rcases pending_cases hp with ⟨attempt,hq⟩ | hq
  · obtain ⟨e,he,hstate,hget,-⟩ := (h.queued i k attempt _ hq).waiting w rfl
    have hentry := h.entry k
    rw [he] at hentry
    refine ⟨e,he,.inl ⟨⟨attempt,hq⟩,List.mem_of_getElem? hget,?_⟩⟩
    have hok := hentry.2.2.2
    rw [← card_eq_one,← h.writers_eq]
    cases hs : e.state with
    | readLock => exact absurd hs hstate
    | locked | wantWrite w =>
      rw [hs] at hok
      exact hok
    | writeLock =>
      rw [hs] at hok
      exact hok.1
  · obtain ⟨e,he,hstate,hread⟩ := h.wanting i k _ hq w rfl
    have hentry := h.entry k
    rw [he] at hentry
    refine ⟨e,he,.inr ⟨hq,hstate,?_⟩⟩
    rw [← card_pos,← h.readers_eq,← hentry.1]
    exact hread

end Entries

lemma Inv.extend (h : Inv owner s) : Inv owner { s with count := s.count+1 } := by
  have hgone := h.fresh s.count le_rfl
  refine ⟨fun i hi => h.fresh i (Nat.le_of_succ_le hi),fun k => ?_,h.shape,h.queued,h.wanting,h.commit,h.single⟩
  have hread : readers { s with count := s.count+1 } k = readers s k := by
    simp [readers,sum_range_succ,hgone,readKeys]
  have hwrite : writers { s with count := s.count+1 } k = writers s k := by
    simp [writers,sum_range_succ,hgone,writeKeys]
  rw [hread,hwrite]
  exact h.entry k

lemma transaction_inv (h : Inv owner s) {reader writer : ℕ} {readLocks txnLocks : List K}
    (hr : s.agents reader = .readGuard readLocks) (hw : s.agents writer = .writeGuard txnLocks) :
    Inv owner ((s.set reader .gone).set writer (.transaction txnLocks readLocks)) := by
  have hne : writer ≠ reader := by
    rintro rfl
    cases hr.symm.trans hw
  have hcount : reader < s.count ∧ writer < s.count :=
    ⟨h.lt_count (by simp [hr]),h.lt_count (by simp [hw])⟩
  set s' := (s.set reader .gone).set writer (.transaction txnLocks readLocks) with hs'
  have hsame : ∀ j,j ≠ reader → j ≠ writer → s'.agents j = s.agents j := fun j hjr hjw => by
    simp only [hs',State.set,update_of_ne hjw,update_of_ne hjr]
  have hgone : s'.agents reader = .gone := by simp only [hs',State.set,update_of_ne hne.symm,update_self]
  have htxn : s'.agents writer = .transaction txnLocks readLocks := update_self _ _ _
  have hcases : ∀ j,s'.agents j = s.agents j ∨ s'.agents j = .gone ∨ s'.agents j = .transaction txnLocks readLocks := by
    intro j
    by_cases hjr : j = reader
    · exact .inr (.inl (hjr ▸ hgone))
    by_cases hjw : j = writer
    · exact .inr (.inr (hjw ▸ htxn))
    exact .inl (hsame j hjr hjw)
  have hkept : ∀ j txnLocks' readLocks',s.agents j = .transaction txnLocks' readLocks' →
      s'.agents j = .transaction txnLocks' readLocks' := by
    intro j _ _ hj
    rw [hsame j (by rintro rfl; cases hr.symm.trans hj) (by rintro rfl; cases hw.symm.trans hj),hj]
  have hcommit : ∀ {j t todo waiting},s'.agents j = .committing t todo waiting →
      s.agents j = .committing t todo waiting := by
    intro j t todo waiting hj
    rcases hcases j with heq | heq | heq
    · exact heq.symm.trans hj
    · cases heq.symm.trans hj
    · cases heq.symm.trans hj
  refine ⟨fun j hj => ?_,fun k => ?_,fun j => ?_,fun j k attempt waiting hq => ?_,
    fun j k waiting hq => ?_,fun j t todo waiting hj => ?_,fun j j' t todo todo' waiting waiting' hj hj' => ?_⟩
  · have hj' : s.count ≤ j := hj
    rw [hsame j (by omega) (by omega)]
    exact h.fresh j hj'
  · have hread : readers s' k = readers s k :=
      Slots.sum_update_pair (fun a : Agent K W => a.readKeys.count k) s.agents hcount.1 hcount.2 hne
        (by simp [hr,hw,readKeys])
    have hwrite : writers s' k = writers s k :=
      Slots.sum_update_pair (fun a : Agent K W => a.writeKeys.count k) s.agents hcount.1 hcount.2 hne
        (by simp [hr,hw,writeKeys])
    rw [hread,hwrite]
    exact h.entry k
  · rcases hcases j with heq | heq | heq
    · rw [heq]
      exact h.shape j
    · rw [heq]
      trivial
    · have hread := h.shape reader
      have hwrite := h.shape writer
      rw [hr] at hread
      rw [hw] at hwrite
      rw [heq]
      exact ⟨hwrite,hread⟩
  · rcases hcases j with heq | heq | heq
    · exact h.queued j k attempt waiting (heq ▸ hq)
    · simp [heq,queue] at hq
    · simp [heq,queue] at hq
  · rcases hcases j with heq | heq | heq
    · exact h.wanting j k waiting (heq ▸ hq)
    · simp [heq,want] at hq
    · simp [heq,want] at hq
  · obtain ⟨txnLocks',readLocks',ht,hsub⟩ := h.commit j t todo waiting (hcommit hj)
    exact ⟨txnLocks',readLocks',hkept t _ _ ht,hsub⟩
  · exact h.single j j' t _ _ _ _ (hcommit hj) (hcommit hj')

lemma start_inv : Inv (fun _ _ => 0) (start : State K W) where
  fresh _ _ := rfl
  entry k := ⟨rfl,rfl⟩
  shape _ := trivial
  queued _ _ _ _ hq := by cases hq
  wanting _ _ _ hq := by cases hq
  commit _ _ _ _ hj := by cases hj
  single _ _ _ _ _ _ _ hj := by cases hj

variable [DecidableEq W]

lemma Inv.add (h : Inv owner s) (hread : a.readKeys = [])
    (hwrite : a.writeKeys = []) (hfits : Fits s owner s.locks s.count a) : Inv owner (s.add a) := by
  have hgone := h.fresh s.count le_rfl
  refine h.extend.replace (Nat.lt_succ_self _) ?_ ?_ ?_ ⟨hfits.1,hfits.2,hfits.3,hfits.4⟩
  · rw [hread,hgone]
    rfl
  · rw [hwrite,hgone]
    rfl
  · exact h.extend.not_txn (by simp [hgone])

/-- A transaction has one future that prepares its commit at a time. -/
def Allowed (s : State K W) : Action K W → Prop
  | .commit t => ∀ j < s.count,(s.agents j).commits t = false
  | _ => True

lemma step_safe (h : Inv owner s) {a : Action K W} (ha : Allowed s a) :
    step s a = .error .blocked ∨ ∃ owner' s',step s a = .ok s' ∧ Inv owner' s' := by
  cases a with
  | lock target keys =>
    refine .inr ⟨owner,_,rfl,h.add ?_ ?_ (fits_locking (fun k e he => h.sequence_pos he) ?_)⟩
    · simp [readKeys]
    · simp [writeKeys]
    · simp
  | poll i w => exact poll_inv h i w
  | drop i =>
    rcases drop_inv h i with hb | ⟨locks,woken,heq,hinv⟩
    · exact .inl hb
    · exact .inr ⟨owner,_,heq,hinv⟩
  | transaction reader writer =>
    rw [step]
    split
    · rename_i readLocks txnLocks hr hw
      exact .inr ⟨owner,_,rfl,transaction_inv h hr hw⟩
    · exact .inl rfl
  | commit t =>
    rw [step]
    split
    · rename_i txnLocks readLocks ht
      refine .inr ⟨owner,_,rfl,h.add rfl rfl (fits_committing ht ?_ (fun _ hx => hx)
        (fun j todo waiting hj => ?_) fun _ hw => (by cases hw))⟩
      · exact (h.lt_count (by simp [ht])).ne
      · exact absurd hj (h.not_borrowed ha j todo waiting)
    · exact .inl rfl

/-- The step of a run: an action that cannot be taken ends it. -/
def next (s : State K W) (a : Action K W) : Option (State K W) := (step s a).toOption

/-- The states in which polls and drops end, in any order. -/
def Reached : State K W → Prop := Transition.Reachable (· = start) Allowed next

lemma Reached.inv (h : Reached s) : ∃ owner,Inv owner s := by
  refine @Transition.Reachable.invariant _ _ _ _ _ (fun s => ∃ owner,Inv owner s) s h
    (fun _ hs => ⟨_,hs ▸ start_inv⟩) fun s a s' hinv ha hnext => ?_
  obtain ⟨owner,hinv⟩ := hinv
  rcases step_safe hinv ha with hb | ⟨owner',t,heq,hinv'⟩
  · simp [next,hb,Except.toOption] at hnext
  · rw [next,heq] at hnext
    cases hnext
    exact ⟨owner',hinv'⟩

omit [LinearOrder K] in
lemma pending_wake {woken : List W}
    (h : (a.wake woken).pending = some (k,w)) : a.pending = some (k,w) := by
  cases a with
  | locking target held todo attempt waiting | committing t todo waiting =>
    cases todo with
    | nil => cases h
    | cons x rest =>
      cases hw : notified woken waiting with
      | none => simp [wake,hw,pending] at h
      | some w' =>
        simp only [wake,hw,pending] at h
        rw [(notified_eq_some.mp hw).1]
        exact h
  | _ => cases h

def Registered (s : State K W) (i : ℕ) (k : K) (w : W) : Prop := ∃ e,s.locks.keys k = some e ∧
    ((w ∈ e.wakers ∧ ∃ j,writeGuards s k = {j} ∧ ∀ s',drop s j = .ok s' → (s'.agents i).pending = none) ∨
      e.state = .wantWrite w ∧ (readGuards s k).Nonempty ∧
        ∀ j s',readGuards s k = {j} → drop s j = .ok s' → (s'.agents i).pending = none)

lemma drop_ok (h : Inv owner s) {j : ℕ} {s' : State K W} (hdrop : drop s j = .ok s') :
    Inv owner s' ∧ s'.agents j = .gone ∧ ∃ woken,∀ i,i ≠ j → s'.agents i = (s.agents i).wake woken := by
  rcases drop_inv h j with hb | ⟨locks,woken,heq,hinv⟩
  · cases hb.symm.trans hdrop
  · cases heq.symm.trans hdrop
    refine ⟨hinv,?_,woken,fun i hij => ?_⟩
    · simp only [update_self]
      rfl
    · simp only [update_of_ne hij]

lemma Inv.registered (h : Inv owner s) {i : ℕ} (hp : (s.agents i).pending = some (k,w)) : Registered s i k w := by
  have hafter : ∀ {j s' k' w'},drop s j = .ok s' → (s'.agents i).pending = some (k',w') →
      k' = k ∧ (∀ x,(s'.agents i).queue = some x → ∃ y,(s.agents i).queue = some y) ∧
        ∀ x,(s'.agents i).want = some x → ∃ y,(s.agents i).want = some y := by
    intro j s' k' w' hdrop hp'
    obtain ⟨-,hgone,woken,hwake⟩ := drop_ok h hdrop
    by_cases hij : i = j
    · rw [hij,hgone] at hp'
      cases hp'
    · rw [hwake i hij] at hp' ⊢
      have heq := (pending_wake hp').symm.trans hp
      simp only [Option.some.injEq,Prod.mk.injEq] at heq
      refine ⟨heq.1,fun x hx => ?_,fun x hx => ?_⟩
      · obtain ⟨before,hq,-⟩ := queue_wake hx
        exact ⟨_,hq⟩
      · obtain ⟨before,hq,-⟩ := want_wake hx
        exact ⟨_,hq⟩
  have hkeys : ∀ {j s' i' x},drop s j = .ok s' → (x ∈ (s'.agents i').writeKeys → x ∈ (s.agents i').writeKeys ∧ i' ≠ j) ∧
      (x ∈ (s'.agents i').readKeys → x ∈ (s.agents i').readKeys ∧ i' ≠ j) := by
    intro j s' i' x hdrop
    obtain ⟨-,hgone,woken,hwake⟩ := drop_ok h hdrop
    by_cases hij : i' = j
    · rw [hij,hgone]
      exact ⟨fun hx => (by cases hx),fun hx => (by cases hx)⟩
    · rw [hwake i' hij,writeKeys_wake,readKeys_wake]
      exact ⟨fun hx => ⟨hx,hij⟩,fun hx => ⟨hx,hij⟩⟩
  obtain ⟨e,he,⟨⟨attempt,hq⟩,hmem,j,hj⟩ | ⟨hq,hstate,hne⟩⟩ := h.pending_entry hp
  · refine ⟨e,he,.inl ⟨hmem,j,hj,fun s' hdrop => ?_⟩⟩
    by_contra hsome
    obtain ⟨⟨k',w'⟩,hp'⟩ := Option.ne_none_iff_exists'.mp hsome
    have hinv := (drop_ok h hdrop).1
    obtain ⟨rfl,-,hwant⟩ := hafter hdrop hp'
    obtain ⟨e',-,⟨-,-,j',hj'⟩ | ⟨hq',-⟩⟩ := hinv.pending_entry hp'
    · obtain ⟨hhold,hne⟩ := (hkeys hdrop).1 (hinv.mem_writeGuards.mp (hj' ▸ mem_singleton_self j'))
      rw [← h.mem_writeGuards,hj] at hhold
      exact hne (mem_singleton.mp hhold)
    · obtain ⟨y,hy⟩ := hwant _ hq'
      exact not_queue_and_want hq hy
  · refine ⟨e,he,.inr ⟨hstate,hne,fun j s' hj hdrop => ?_⟩⟩
    by_contra hsome
    obtain ⟨⟨k',w'⟩,hp'⟩ := Option.ne_none_iff_exists'.mp hsome
    have hinv := (drop_ok h hdrop).1
    obtain ⟨rfl,hqueue,-⟩ := hafter hdrop hp'
    obtain ⟨e',-,⟨⟨attempt,hq'⟩,-⟩ | ⟨-,-,j',hj'⟩⟩ := hinv.pending_entry hp'
    · obtain ⟨y,hy⟩ := hqueue _ hq'
      exact not_queue_and_want hy hq
    · obtain ⟨hhold,hne⟩ := (hkeys hdrop).2 (hinv.mem_readGuards.mp hj')
      rw [← h.mem_readGuards,hj] at hhold
      exact hne (mem_singleton.mp hhold)

/-- What the locks promise in a state: their entries agree with the guards, transactions and
futures that hold the keys, nothing that is allowed panics, and who waits is woken. -/
structure Sound (s : State K W) : Prop where
  readCount : ∀ k e,s.locks.keys k = some e → e.readCount = (readGuards s k).card
  writer : ∀ k,(writeGuards s k).card ≤ 1
  writeLock : ∀ k e,s.locks.keys k = some e → e.state = .writeLock → e.readCount = 0
  readLock : ∀ k e,s.locks.keys k = some e → e.state = .readLock → 0 < e.readCount ∧ writeGuards s k = ∅
  held : ∀ k,(s.locks.keys k).isSome ↔ (readGuards s k).Nonempty ∨ (writeGuards s k).Nonempty
  noPanic : ∀ a,Allowed s a → step s a ≠ .error .panic
  registered : ∀ i k w,(s.agents i).pending = some (k,w) → Registered s i k w

theorem reached_sound (h : Reached s) : Sound s := by
  obtain ⟨owner,hinv⟩ := h.inv
  refine ⟨fun k e he => ?_,fun k => ?_,fun k e he hs => ?_,fun k e he hs => ?_,fun k => ?_,
    fun a ha hpanic => ?_,fun i k w => hinv.registered⟩
  · have hentry := hinv.entry k
    rw [he] at hentry
    rw [← hinv.readers_eq,← hentry.1]
  · rw [card_le_one]
    intro i hi j hj
    exact hinv.writer_unique (hinv.mem_writeGuards.mp hi) (hinv.mem_writeGuards.mp hj)
  · have hentry := hinv.entry k
    rw [he] at hentry
    have hok := hentry.2.2.2
    rw [hs] at hok
    exact hentry.1.trans hok.2
  · have hentry := hinv.entry k
    rw [he] at hentry
    have hok := hentry.2.2.2
    rw [hs] at hok
    rw [← card_eq_zero,← hinv.writers_eq,hentry.1]
    exact ⟨hok.2,hok.1⟩
  · exact hinv.isSome_iff k
  · rcases step_safe hinv ha with hb | ⟨owner',s',heq,-⟩
    · cases hb.symm.trans hpanic
    · cases heq.symm.trans hpanic

instance (s : State K W) : ∀ a,Decidable (Allowed s a)
  | .commit t => inferInstanceAs (Decidable (∀ j < s.count,(s.agents j).commits t = false))
  | .lock _ _ => .isTrue trivial
  | .poll _ _ => .isTrue trivial
  | .drop _ => .isTrue trivial
  | .transaction _ _ => .isTrue trivial

def shared : List (Action ℕ ℕ) :=
  [.lock .readLock [1],.poll 0 7,.poll 0 7,.lock .locked [1],.poll 1 8,.poll 1 8,.lock .readLock [],
    .poll 2 7,.transaction 2 1]

def contended : Option (State ℕ ℕ) :=
  Transition.run Allowed next start (shared++[.commit 1,.poll 3 9,.lock .locked [1],.poll 4 10])

theorem reached_sound_contended :
    ∃ h : contended.isSome,((contended.get h).agents 3).pending = some (1,9) ∧
      ((contended.get h).agents 4).pending = some (1,10) ∧ Sound (contended.get h) :=
  ⟨by decide +kernel,by decide +kernel,by decide +kernel,
    reached_sound (Transition.Reachable.run (.start rfl) (Option.some_get _).symm)⟩

def overwritten : Option (State ℕ ℕ) := Transition.run (fun _ _ => True) next start
    (shared++[.commit 1,.commit 1,.poll 3 9,.poll 4 10])

/-- The waker of the first future is lost: it is in no entry, and the reader that both wait
for does not wake it. -/
theorem commit_overwritten_lost :
    ∃ h : overwritten.isSome,((overwritten.get h).agents 3).pending = some (1,9) ∧
      ((overwritten.get h).locks.keys 1).all (fun e => 9 ∉ e.wakers ∧ e.state ≠ .wantWrite 9) ∧
      (next (overwritten.get h) (.drop 0)).map (fun s => (s.agents 3).pending) =
        some (some (1,9)) :=
  ⟨by decide +kernel,by decide +kernel,by decide +kernel,by decide +kernel⟩

end Fuchsia.Fxfs.LockManager
