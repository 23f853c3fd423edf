import Fuchsia.Fxfs.LockManager

/-! Guards, transactions and futures give back their keys when they are dropped: the entries
go on to agree with the holders, and those who wait are woken. -/
namespace Fuchsia.Fxfs.LockManager

section

open Fallible Agent Function Option List

variable {K W : Type} {owner : K → ℕ → ℕ} {s : State K W} {locks : Locks K W} {i : ℕ} {k : K}
  {txnLocks readLocks : List K}

lemma fits_transaction (h : txnLocks.Nodup ∧ readLocks.Nodup) : Fits s owner locks i (.transaction txnLocks readLocks) :=
  ⟨h,fun _ _ _ hq => (by cases hq),fun _ _ hq => (by cases hq),fun _ _ _ hq => (by cases hq)⟩

lemma fits_gone : Fits s owner locks i .gone :=
  ⟨trivial,fun _ _ _ hq => (by cases hq),fun _ _ hq => (by cases hq),fun _ _ _ hq => (by cases hq)⟩

section Given

variable [DecidableEq W]

def Given (s : State K W) (locks : Locks K W) (i : ℕ) (a : Agent K W) (woken : List W) :
    State K W :=
  ⟨locks,fun j => if j = i then a else (s.agents j).wake woken,s.count⟩

lemma given_of_update (s : State K W) (locks : Locks K W) (i : ℕ) (txnLocks readLocks : List K) (woken : List W) :
    (⟨locks,fun j => (update s.agents i (.transaction txnLocks readLocks) j).wake woken,
      s.count⟩ : State K W) = Given s locks i (.transaction txnLocks readLocks) woken := by
  rw [Given]
  congr 1
  funext j
  by_cases hj : j = i
  · subst hj
    simp [wake]
  · rw [update_of_ne hj,if_neg hj]

lemma wake_wake (woken more : List W) (a : Agent K W) : (a.wake woken).wake more = a.wake (woken++more) := by
  have hnotified : ∀ waiting : Option W,notified more (notified woken waiting) = notified (woken++more) waiting := by
    intro waiting
    ext w
    simp [notified_eq_some,and_assoc]
  cases a <;> simp only [wake,hnotified]

lemma given_given (s : State K W) (locks locks' : Locks K W) (i : ℕ) (a a' : Agent K W) (woken more : List W) :
    Given (Given s locks i a woken) locks' i a' more = Given s locks' i a' (woken++more) := by
  simp only [Given]
  congr 1
  funext j
  by_cases hj : j = i
  · rw [if_pos hj,if_pos hj]
  · rw [if_neg hj,if_neg hj,if_neg hj,wake_wake]

lemma given_nil (s : State K W) {a : Agent K W} (ha : s.agents i = a) : Given s s.locks i a [] = s := by
  have hagents : (fun j => if j = i then a else (s.agents j).wake []) = s.agents := by
    funext j
    by_cases hj : j = i
    · rw [if_pos hj,hj,ha]
    · rw [if_neg hj,wake_nil]
  rw [Given,hagents]

lemma given_borrowed {woken : List W} (htxn : Unborrowed s i) :
    Unborrowed (Given s locks i (.transaction txnLocks readLocks) woken) i := by
  intro j todo waiting hj
  simp only [Given] at hj
  split_ifs at hj with hji
  obtain ⟨before,hj⟩ := wake_eq_committing hj
  exact htxn j todo before hj

lemma given_gone (s : State K W) (locks : Locks K W) (i : ℕ) (a b : Agent K W) (woken : List W) :
    (Given (s.set i a) locks i b woken).set i .gone =
      ⟨locks,fun j => (update s.agents i .gone j).wake woken,s.count⟩ := by
  simp only [Given,State.set]
  congr 1
  funext j
  by_cases hj : j = i
  · subst hj
    simp [wake]
  · simp only [update_of_ne hj,if_neg hj]

end Given

variable [LinearOrder K]

lemma Inv.entry_of_writer (h : Inv owner s) (hk : k ∈ (s.agents i).writeKeys) :
    ∃ e,s.locks.keys k = some e ∧ e.state ≠ .readLock ∧ writers s k = 1 := by
  have hpos : 0 < writers s k := by
    rw [writers]
    refine Finset.sum_pos' (fun _ _ => Nat.zero_le _) ⟨i,?_,count_pos_iff.mpr hk⟩
    exact Finset.mem_range.mpr (lt_count_of_mem h (.inl hk))
  obtain ⟨-,-,hzero⟩ | ⟨e,he,-,-,hle,hread⟩ := (h.entry k).cases
  · omega
  · refine ⟨e,he,fun hs => ?_,by omega⟩
    have hzero := hread hs
    omega

lemma Inv.entry_of_reader (h : Inv owner s) (hk : k ∈ (s.agents i).readKeys) :
    ∃ e,s.locks.keys k = some e ∧ 0 < e.readCount := by
  have hpos : 0 < readers s k := by
    rw [readers]
    refine Finset.sum_pos' (fun _ _ => Nat.zero_le _) ⟨i,?_,count_pos_iff.mpr hk⟩
    exact Finset.mem_range.mpr (lt_count_of_mem h (.inr hk))
  obtain ⟨-,hzero,-⟩ | ⟨e,he,hcount,-⟩ := (h.entry k).cases
  · omega
  · exact ⟨e,he,hcount ▸ hpos⟩

lemma Inv.not_borrowed (h : Inv owner s) (hb : ∀ j < s.count,(s.agents j).commits i = false) : Unborrowed s i := by
  intro j todo waiting hj
  have hlt : j < s.count := h.lt_count (by simp [hj])
  have hf := hb j hlt
  simp [hj,commits] at hf

lemma Inv.nodup (h : Inv owner s) (i : ℕ) : (s.agents i).writeKeys.Nodup ∧ (s.agents i).readKeys.Nodup := by
  have hshape := h.shape i
  cases ha : s.agents i with
  | locking target held todo attempt waiting =>
    rw [ha] at hshape
    have hheld : held.Nodup := by
      cases todo with
      | nil => exact hshape.2.2
      | cons k rest =>
        simp only [Agent.Shape] at hshape
        split_ifs at hshape
        · exact hshape.2.2.of_append_left
        · exact hshape.of_append_left
    simp only [writeKeys,readKeys]
    split_ifs
    · exact ⟨nodup_nil,hheld⟩
    · exact ⟨hheld,nodup_nil⟩
  | readGuard keys =>
    rw [ha] at hshape
    exact ⟨nodup_nil,hshape⟩
  | writeGuard keys =>
    rw [ha] at hshape
    exact ⟨hshape,nodup_nil⟩
  | transaction txnLocks readLocks =>
    rw [ha] at hshape
    exact hshape
  | _ => exact ⟨nodup_nil,nodup_nil⟩

lemma carriesWant_of_ne {e : LockEntry W} {new : Option (LockEntry W)}
    (h : ∀ w,e.state ≠ .wantWrite w) : CarriesWant (some e) new [] := by
  intro e1 w he1 hw
  obtain rfl := some.inj he1
  exact absurd hw (h w)

variable [DecidableEq W]

section

variable (h : Inv owner s)
include h

lemma dropWriteLock_inv (ha : s.agents i = .transaction (k::txnLocks) readLocks) (htxn : Unborrowed s i) :
    ∃ locks woken,dropWriteLock s.locks k = .ok (locks,woken) ∧
      Inv owner (Given s locks i (.transaction txnLocks readLocks) woken) := by
  have hk : k ∈ (s.agents i).writeKeys := by simp [ha,writeKeys]
  have hi : i < s.count := lt_count_of_mem h (.inl hk)
  obtain ⟨e,he,hne,hwriters⟩ := h.entry_of_writer hk
  have hentry := h.entry k
  rw [he] at hentry
  obtain ⟨hcount,hpos,hle,hstate⟩ := hentry
  have hshape : (k::txnLocks).Nodup ∧ readLocks.Nodup := by
    have hs := h.shape i
    rwa [ha] at hs
  have hchange : ∀ {sequence new},s.locks.sequence ≤ sequence → (∀ e',new = some e' → s.locks.sequence < e'.sequence) →
      EntryOk sequence (readers s k) 0 new →
      Inv owner (Given s (s.locks.put sequence k new) i (.transaction txnLocks readLocks) e.wakers) := by
    intro sequence new hseq hnew hok
    rw [← given_of_update]
    refine h.change hi hseq ⟨fun e' he' => .inl (hnew e' he'),fun _ _ _ _ => rfl,?_⟩
      (fun _ _ => rfl) (fun j waiting hj hwant => ?_) htxn (fun x hx => ?_) (fun x hx => ?_)
      (fun r w hr hw => ?_) (fits_transaction ⟨hshape.1.of_cons,hshape.2⟩)
    · intro e1 n w he1 _ hget _
      rw [he] at he1
      obtain rfl := some.inj he1
      exact .inl (mem_of_getElem? hget)
    · rcases h.want_holds hwant with hmem | ⟨t,todo,hj',ht⟩
      · exact absurd (h.writer_unique hmem hk) hj
      · rw [h.writer_unique ht hk] at hj'
        exact absurd hj' (htxn j _ _)
    · simp [ha,readKeys]
    · simp [ha,writeKeys,hx.symm]
    · simp only [ha,readKeys] at hr
      simp only [ha,writeKeys,count_cons_self,hwriters] at hw
      have hr' : r = readers s k := by omega
      have hw' : w = 0 := by omega
      rw [hr',hw']
      exact hok
  have hremove := fun hz => @hchange _ none le_rfl (by simp) ⟨hcount.symm.trans hz,rfl⟩
  cases hs : e.state with
  | readLock => exact absurd hs hne
  | writeLock =>
    rw [hs] at hstate
    exact ⟨_,_,by simp only [dropWriteLock,he,hs]; rfl,hremove (hcount.trans hstate.2)⟩
  | locked | wantWrite w =>
    by_cases hz : e.readCount = 0
    · exact ⟨_,_,by simp only [dropWriteLock,he,hs,if_pos hz]; rfl,hremove hz⟩
    · refine ⟨_,_,by simp only [dropWriteLock,he,hs,if_neg hz]; rfl,hchange (Nat.le_succ _) (fun e' he' => ?_) ?_⟩
      · obtain rfl := some.inj he'
        exact Nat.lt_succ_self _
      · exact ⟨hcount,Nat.succ_pos _,le_rfl,rfl,by omega⟩

lemma dropReadLock_inv (ha : s.agents i = .transaction txnLocks (k::readLocks)) (htxn : Unborrowed s i) :
    ∃ locks woken,dropReadLock s.locks k = .ok (locks,woken) ∧
      Inv owner (Given s locks i (.transaction txnLocks readLocks) woken) := by
  have hk : k ∈ (s.agents i).readKeys := by simp [ha,readKeys]
  have hi : i < s.count := lt_count_of_mem h (.inr hk)
  obtain ⟨e,he,hread⟩ := h.entry_of_reader hk
  have hentry := h.entry k
  rw [he] at hentry
  obtain ⟨hcount,hpos,hle,hstate⟩ := hentry
  have hshape : txnLocks.Nodup ∧ (k::readLocks).Nodup := by
    have hs := h.shape i
    rwa [ha] at hs
  have hchange : ∀ {new woken},(∀ e',new = some e' → e'.sequence = e.sequence ∧
      e'.wakers = e.wakers ∧ e'.state = e.state) → (e.state ≠ .readLock → new.isSome) → CarriesWant (some e) new woken →
      EntryOk s.locks.sequence (readers s k-1) (writers s k) new →
      Inv owner (Given s (s.locks.put s.locks.sequence k new) i (.transaction txnLocks readLocks) woken) := by
    intro new woken hnew hsome hcw hok
    rw [← given_of_update]
    refine h.change hi le_rfl ⟨fun e' he' => .inr ⟨e,he,?_,?_⟩,fun _ _ _ _ => rfl,?_⟩
      (fun _ _ => rfl) (fun j waiting hj hwant => he ▸ hcw) htxn (fun x hx => ?_) (fun x hx => ?_)
      (fun r w hr hw => ?_) (fits_transaction ⟨hshape.1,hshape.2.of_cons⟩)
    · exact (hnew e' he').1.symm
    · rw [(hnew e' he').2.1]
    · intro e1 n w he1 hne hget _
      rw [he] at he1
      obtain rfl := some.inj he1
      obtain ⟨e',he'⟩ := isSome_iff_exists.mp (hsome hne)
      obtain ⟨-,hwakers,hs⟩ := hnew e' he'
      exact .inr ⟨e',he',by rwa [hs],by rwa [hwakers]⟩
    · simp [ha,readKeys,hx.symm]
    · simp [ha,writeKeys]
    · simp only [ha,readKeys,count_cons_self] at hr
      simp only [ha,writeKeys] at hw
      have hr' : r = readers s k-1 := by omega
      have hw' : w = writers s k := by omega
      rw [hr',hw']
      exact hok
  have hkeep : ∀ {woken},CarriesWant (some e) (some { e with readCount := e.readCount-1 }) woken →
      StateOk (readers s k-1) (writers s k) e.state →
      Inv owner (Given s (s.locks.put s.locks.sequence k (some { e with readCount := e.readCount-1 }))
        i (.transaction txnLocks readLocks) woken) := by
    intro woken hcw hs
    refine hchange (fun e' he' => ?_) (fun _ => rfl) hcw ⟨by rw [hcount],hpos,hle,hs⟩
    obtain rfl := some.inj he'
    exact ⟨rfl,rfl,rfl⟩
  have hnz : e.readCount ≠ 0 := by omega
  by_cases hlast : e.readCount-1 = 0
  · cases hs : e.state with
    | readLock =>
      rw [hs] at hstate
      exact ⟨_,_,by simp only [dropReadLock,he,hs,if_neg hnz,if_pos hlast]; rfl,
        @hchange none [] (by simp) (fun hne => absurd hs hne) (carriesWant_of_ne (by simp [hs])) ⟨by omega,hstate.1⟩⟩
    | locked =>
      rw [hs] at hstate
      exact ⟨_,_,by simp only [dropReadLock,he,hs,if_neg hnz,if_pos hlast]; rfl,
        hkeep (carriesWant_of_ne (by simp [hs])) (by rw [hs]; exact hstate)⟩
    | wantWrite w =>
      rw [hs] at hstate
      refine ⟨_,_,by simp only [dropReadLock,he,hs,if_neg hnz,if_pos hlast]; rfl,
        @hkeep [w] ?_ (by rw [hs]; exact hstate)⟩
      intro e1 w1 he1 hw
      obtain rfl := some.inj he1
      rw [hs] at hw
      cases hw
      exact fun _ => .inl (by simp)
    | writeLock =>
      rw [hs] at hstate
      have hz := hstate.2
      omega
  · refine ⟨_,_,by simp only [dropReadLock,he,if_neg hnz,if_neg hlast]; rfl,hkeep ?_ ?_⟩
    · intro e1 w he1 hw _
      obtain rfl := some.inj he1
      exact .inr ⟨_,rfl,hw,by simp only; omega⟩
    · cases hs : e.state <;> rw [hs] at hstate <;> simp only [StateOk] at hstate ⊢ <;> omega

lemma dropWriteLocks_inv (ha : s.agents i = .transaction txnLocks readLocks) (htxn : Unborrowed s i) :
    ∃ locks woken,dropWriteLocks s.locks txnLocks = .ok (locks,woken) ∧
    Inv owner (Given s locks i (.transaction [] readLocks) woken) := by
  induction txnLocks generalizing s with
  | nil => exact ⟨s.locks,[],rfl,by rwa [given_nil s ha]⟩
  | cons k rest ih =>
    obtain ⟨locks,woken,hdrop,hinv⟩ := dropWriteLock_inv h ha htxn
    obtain ⟨locks',more,hrest,hinv'⟩ := ih hinv (if_pos rfl) (given_borrowed htxn)
    rw [given_given] at hinv'
    refine ⟨locks',woken++more,?_,hinv'⟩
    rw [dropWriteLocks,hdrop,ok_bind]
    exact congrArg (· >>= fun r => pure (r.1,woken++r.2)) hrest

lemma dropReadLocks_inv (ha : s.agents i = .transaction txnLocks readLocks) (htxn : Unborrowed s i) :
    ∃ locks woken,dropReadLocks s.locks readLocks = .ok (locks,woken) ∧
    Inv owner (Given s locks i (.transaction txnLocks []) woken) := by
  induction readLocks generalizing s with
  | nil => exact ⟨s.locks,[],rfl,by rwa [given_nil s ha]⟩
  | cons k rest ih =>
    obtain ⟨locks,woken,hdrop,hinv⟩ := dropReadLock_inv h ha htxn
    obtain ⟨locks',more,hrest,hinv'⟩ := ih hinv (if_pos rfl) (given_borrowed htxn)
    rw [given_given] at hinv'
    refine ⟨locks',woken++more,?_,hinv'⟩
    rw [dropReadLocks,hdrop,ok_bind]
    exact congrArg (· >>= fun r => pure (r.1,woken++r.2)) hrest

lemma drop_inv (i : ℕ) : drop s i = .error .blocked ∨ ∃ locks woken,drop s i =
      .ok ⟨locks,fun j => (update s.agents i .gone j).wake woken,s.count⟩ ∧
      Inv owner ⟨locks,fun j => (update s.agents i .gone j).wake woken,s.count⟩ := by
  by_cases hguard : s.agents i ≠ .gone ∧ ∀ j < s.count,(s.agents j).commits i = false
  · refine .inr ?_
    have htxn := h.not_borrowed hguard.2
    have hlt := h.lt_count hguard.1
    set retired := s.set i (.transaction (s.agents i).writeKeys (s.agents i).readKeys)
    have hself : retired.agents i = .transaction (s.agents i).writeKeys (s.agents i).readKeys := update_self _ _ _
    have hborrow : Unborrowed retired i := by
      intro j todo waiting hj
      by_cases hji : j = i
      · rw [hji,hself] at hj
        cases hj
      · exact htxn j todo waiting ((update_of_ne hji _ _).symm.trans hj)
    have hretired : Inv owner retired := h.replace hlt rfl rfl htxn (fits_transaction (h.nodup i))
    obtain ⟨locks,woken,hwrite,hinv⟩ := dropWriteLocks_inv hretired hself hborrow
    obtain ⟨locks',more,hread,hinv'⟩ := dropReadLocks_inv hinv (if_pos rfl) (given_borrowed hborrow)
    rw [given_given] at hinv'
    have hgone := hinv'.replace (a := .gone) hlt
      (by simp [Given,readKeys]) (by simp [Given,writeKeys]) (given_borrowed hborrow) fits_gone
    rw [given_gone] at hgone
    refine ⟨locks',woken++more,?_,hgone⟩
    rw [drop,require_of hguard,ok_bind,show dropWriteLocks s.locks _ = _ from hwrite,ok_bind]
    change (dropReadLocks locks _ >>= fun r => pure _) = _
    rw [show dropReadLocks locks _ = _ from hread,ok_bind,pure_eq]
  · refine .inl ?_
    rw [drop,require,if_neg hguard]
    rfl

end

end

/-! The polls of `lock` and of `commit_prepare`: a key is acquired only as its entry allows,
and a future that has to wait leaves its waker where the holder finds it. -/

open Fallible Function Option Nat Agent List

variable {K W : Type} {owner : K → ℕ → ℕ} {s : State K W} {locks : Locks K W} {e : LockEntry W}
  {sequence i : ℕ} {target : Target} {held rest todo : List K} {k : K} {attempt : Attempt}
  {waiting : Option W}

lemma fits_locking (hpos : ∀ k e,locks.keys k = some e → 0 < e.sequence)
    (hnodup : (held++rest).Nodup) : Fits s owner locks i (.locking target held rest .new none) := by
  refine ⟨?_,fun k attempt waiting hq => ?_,fun k waiting hq => ?_,fun t todo waiting hq => by cases hq⟩
  · cases rest with
    | nil => exact ⟨rfl,rfl,by rwa [append_nil] at hnodup⟩
    | cons k rest => exact hnodup
  · cases rest with
    | nil => cases hq
    | cons x rest =>
      cases hq
      refine ⟨zero_le _,fun e he hs => ?_,fun w hw => by cases hw⟩
      have hp := hpos k e he
      rw [hs] at hp
      exact absurd hp (lt_irrefl 0)
  · cases rest with
    | nil | cons x rest => cases hq

lemma fits_wanting {w : W} (hwant : attempt.wantWrite = true) (htarget : target = .writeLock) (hk : k ∈ held)
    (hnodup : (held++rest).Nodup) (he : locks.keys k = some e) (hstate : e.state = .wantWrite w)
    (hread : 0 < e.readCount) : Fits s owner locks i (.locking target held (k::rest) attempt (some w)) := by
  refine ⟨?_,fun x attempt' waiting' hq => ?_,fun x waiting' hq => ?_,fun _ _ _ hq => by cases hq⟩
  · simp only [Agent.Shape,hwant,if_true]
    exact ⟨htarget,hk,hnodup⟩
  · simp [queue,hwant] at hq
  · simp only [want,hwant,if_true,some.injEq,Prod.mk.injEq] at hq
    obtain ⟨rfl,rfl⟩ := hq
    intro w' hw'
    obtain rfl := some.inj hw'
    exact ⟨e,he,hstate,hread⟩

lemma fits_queued (hwant : attempt.wantWrite = false)
    (hnodup : (held++k::rest).Nodup) (hqueued : Queued locks owner i k attempt waiting) :
    Fits s owner locks i (.locking target held (k::rest) attempt waiting) := by
  refine ⟨?_,fun x attempt' waiting' hq => ?_,fun x waiting' hq => ?_,fun _ _ _ hq => by cases hq⟩
  · simpa only [Agent.Shape,hwant,Bool.false_eq_true,if_false] using hnodup
  · simp only [queue,hwant,Bool.false_eq_true,if_false,some.injEq,Prod.mk.injEq] at hq
    obtain ⟨rfl,rfl,rfl⟩ := hq
    exact hqueued
  · simp [want,hwant] at hq

lemma fits_committing {t : ℕ} {txnLocks readLocks : List K} (ht : s.agents t = .transaction txnLocks readLocks)
    (hti : t ≠ i) (hsub : ∀ x ∈ todo,x ∈ txnLocks)
    (hsingle : ∀ j todo' waiting',s.agents j = .committing t todo' waiting' → j = i)
    (hwaiting : ∀ w,waiting = some w → ∃ x rest e,todo = x::rest ∧ locks.keys x = some e ∧ e.state = .wantWrite w ∧ 0 < e.readCount) :
    Fits s owner locks i (.committing t todo waiting) := by
  refine ⟨?_,fun _ _ _ hq => (by cases hq),fun x waiting' hq => ?_,fun t' todo' waiting' hq => ?_⟩
  · cases todo with
    | nil =>
      cases waiting with
      | none => rfl
      | some w =>
        obtain ⟨x,rest,e,htodo,-⟩ := hwaiting w rfl
        cases htodo
    | cons x rest => trivial
  · cases todo with
    | nil => cases hq
    | cons y rest =>
      cases hq
      intro w hw
      obtain ⟨z,rest',e,htodo,he,hstate,hread⟩ := hwaiting w hw
      cases htodo
      exact ⟨e,he,hstate,hread⟩
  · cases hq
    exact ⟨hti,⟨txnLocks,readLocks,ht,hsub⟩,hsingle⟩

lemma carries_state {owner : ℕ → ℕ} {e' : LockEntry W} (hs : e'.sequence = e.sequence) (hw : e'.wakers = e.wakers)
    (hstate : e.state ≠ .readLock → e'.state ≠ .readLock) : Carries owner owner sequence i (some e) (some e') [] := by
  refine ⟨fun e1 he1 => .inr ⟨e,rfl,?_,?_⟩,fun _ _ _ _ => rfl,fun e1 n w he1 hne hget _ => .inr ?_⟩
  · obtain rfl := some.inj he1
    exact hs.symm
  · obtain rfl := some.inj he1
    rw [hw]
  · obtain rfl := some.inj he1
    exact ⟨e',rfl,hstate hne,by rwa [hw]⟩

variable {new : Option (LockEntry W)}

lemma count_push [DecidableEq K] (held : List K) (k x : K) :
    (held++[k]).count x = held.count x+if x = k then 1 else 0 := by
  rw [count_append]
  by_cases hx : x = k
  · rw [hx,if_pos rfl,count_singleton_self]
  · rw [if_neg hx,count_singleton,if_neg (by simpa using Ne.symm hx)]

variable [LinearOrder K]

variable (h : Inv owner s)
include h

lemma Inv.sequence_pos (he : s.locks.keys k = some e) : 0 < e.sequence := by
  have hentry := h.entry k
  rw [he] at hentry
  exact hentry.2.1

lemma Inv.not_txn (ha : ∀ txnLocks readLocks, s.agents i ≠ .transaction txnLocks readLocks) : Unborrowed s i := by
  intro j todo waiting hj
  obtain ⟨txnLocks,readLocks,ht,-⟩ := h.commit j i todo waiting hj
  exact ha txnLocks readLocks ht

lemma Inv.put_pos (hnew : ∀ e,new = some e → 0 < e.sequence) (x : K)
    (e : LockEntry W) (he : (s.locks.put sequence k new).keys x = some e) : 0 < e.sequence := by
  by_cases hx : x = k
  · rw [hx,put_self] at he
    exact hnew e he
  · rw [put_of_ne _ _ _ hx] at he
    exact h.sequence_pos he

variable {state : LockState W} {readCount : ℕ}

lemma fits_joined (he : s.locks.keys k = some e) (hnodup : (held++[k]++rest).Nodup) :
    Fits s owner (s.locks.put s.locks.sequence k (some { e with readCount := readCount,state := state })) i
      (.locking target (held++[k]) rest .new none) := by
  refine fits_locking (h.put_pos fun e1 he1 => ?_) hnodup
  have hpos := h.sequence_pos he
  obtain rfl := some.inj he1
  exact hpos

variable [DecidableEq W]

variable {owner' : K → ℕ → ℕ} {a : Agent K W}

lemma Inv.poll_wanting (hwant : (s.agents i).want = some (k,waiting)) (he : s.locks.keys k = some e)
    (hwriters : writers s k = 1) (hread : a.readKeys = (s.agents i).readKeys)
    (hwrite : a.writeKeys = (s.agents i).writeKeys) (hne : state ≠ .readLock) (hok : StateOk (readers s k) 1 state)
    (hfits : Fits s owner (s.locks.put s.locks.sequence k (some { e with state := state })) i a) : Inv owner ({ s with
      locks := s.locks.put s.locks.sequence k (some { e with state := state }) }.set i a) := by
  have hentry := h.entry k
  rw [he] at hentry
  rw [set_eq_wake_nil]
  refine h.change (h.lt_count fun hgone => by simp [hgone,want] at hwant) le_rfl
    (by rw [he]; exact carries_state rfl rfl fun _ => hne) (fun _ _ => rfl)
    (fun j waiting' hj hq => absurd (h.wanter_unique hq hwant) hj)
    (h.not_txn fun _ _ ht => by simp [ht,want] at hwant) (fun x _ => by rw [hread])
    (fun x _ => by rw [hwrite]) (fun r w hr hw => ?_) (by rwa [wake_nil])
  rw [hread] at hr
  rw [hwrite] at hw
  rw [add_right_cancel hr,add_right_cancel hw,hwriters]
  exact ⟨hentry.1,hentry.2.1,hentry.2.2.1,hok⟩

/-- What a poll of `lock` for its next key leaves: the future goes on, or it waits. -/
def afterPoll (s : State K W) (i : ℕ) (target : Target) (held rest : List K) (k : K) (w : W)
    (r : Polled K W) : State K W :=
  { s with locks := r.locks }.set i
    (if r.ready then .locking target (if r.pushed then held++[k] else held) rest .new none
      else .locking target (if r.pushed then held++[k] else held) (k::rest) r.attempt (some w))

section

variable (ha : s.agents i = .locking target held (k::rest) attempt waiting)
include ha

variable {waiting' : Option W} {attempt' : Attempt}

lemma acquire_inv (hseq : s.locks.sequence ≤ sequence)
    (hc : Carries (owner k) (owner k) s.locks.sequence i (s.locks.keys k) (some e) [])
    (hcw : CarriesWant (s.locks.keys k) (some e) [])
    (hentry : EntryOk sequence (readers s k+if target = .readLock then 1 else 0) (writers s k+if target = .readLock then 0 else 1) (some e))
    (hfits : Fits s owner (s.locks.put sequence k (some e)) i (.locking target (held++[k]) todo attempt' waiting')) :
    Inv owner ({ s with locks := s.locks.put sequence k (some e) }.set i
      (.locking target (held++[k]) todo attempt' waiting')) := by
  rw [set_eq_wake_nil]
  refine h.change (h.lt_count (by simp [ha])) hseq hc (fun _ _ => rfl) (fun _ _ _ _ => hcw)
    (h.not_txn (by simp [ha])) (fun x hx => ?_) (fun x hx => ?_) (fun r w hr hw => ?_) (by rwa [wake_nil])
  · simp only [ha,Agent.readKeys]
    split_ifs
    · rw [count_push,if_neg hx,add_zero]
    · rfl
  · simp only [ha,Agent.writeKeys]
    split_ifs
    · rfl
    · rw [count_push,if_neg hx,add_zero]
  · simp only [ha,Agent.readKeys] at hr
    simp only [ha,Agent.writeKeys] at hw
    split_ifs at hr hw hentry with ht
    · rw [count_push,if_pos rfl] at hr
      have hr' : r = readers s k+1 := by omega
      have hw' : w = writers s k := by omega
      rwa [hr',hw']
    · rw [count_push,if_pos rfl] at hw
      have hr' : r = readers s k := by omega
      have hw' : w = writers s k+1 := by omega
      rwa [hr',hw']

lemma stay_inv (hc : Carries (owner k) (owner' k) s.locks.sequence i (s.locks.keys k) (some e) [])
    (howner : ∀ y,y ≠ k → owner' y = owner y) (hcw : CarriesWant (s.locks.keys k) (some e) [])
    (hentry : EntryOk s.locks.sequence (readers s k) (writers s k) (some e))
    (hfits : Fits s owner' (s.locks.put s.locks.sequence k (some e)) i (.locking target held todo attempt' waiting')) :
    Inv owner' ({ s with locks := s.locks.put s.locks.sequence k (some e) }.set i
      (.locking target held todo attempt' waiting')) := by
  rw [set_eq_wake_nil]
  refine h.change (h.lt_count (by simp [ha])) le_rfl hc howner (fun _ _ _ _ => hcw) (h.not_txn (by simp [ha]))
    (fun x _ => by rw [ha]; rfl) (fun x _ => by rw [ha]; rfl) (fun r w hr hw => ?_) (by rwa [wake_nil])
  rw [ha] at hr hw
  rw [add_right_cancel hr,add_right_cancel hw]
  exact hentry

lemma enqueue_inv (hwant : attempt.wantWrite = false) (he : s.locks.keys k = some e) (hstate : e.state ≠ .readLock)
    (w : W) : ∃ owner' locks attempt',enqueue s.locks k e attempt w = .ok ⟨locks,attempt',false,false⟩ ∧
      Inv owner' ({ s with locks := locks }.set i (.locking target held (k::rest) attempt' (some w))) := by
  have hshape := h.shape i
  have hqueued := h.queued i k attempt waiting (by simp [ha,queue,hwant])
  have hentry := h.entry k
  rw [he] at hentry
  rw [ha] at hshape
  simp only [Agent.Shape,hwant,Bool.false_eq_true,if_false] at hshape
  have hcw : ∀ wakers,CarriesWant (s.locks.keys k) (some { e with wakers := wakers }) [] := by
    intro wakers e1 w1 he1 hw1 hr
    rw [he] at he1
    obtain rfl := some.inj he1
    exact .inr ⟨_,rfl,hw1,hr⟩
  by_cases hs : e.sequence = attempt.wakerSequence
  · obtain ⟨hindex,hown⟩ := hqueued.index e he hs
    refine ⟨owner,_,attempt,by rw [enqueue,if_pos hs,if_pos hindex],?_⟩
    refine stay_inv h ha (e := { e with wakers := e.wakers.set attempt.wakerIndex w })
      ⟨fun e' he' => .inr ⟨e,he,?_,?_⟩,fun _ _ _ _ => rfl,?_⟩ (fun _ _ => rfl)
      (hcw _) hentry (fits_queued hwant hshape ⟨hqueued.bound,fun e' he' _ => ?_,?_⟩)
    · obtain rfl := some.inj he'
      rfl
    · obtain rfl := some.inj he'
      rw [length_set]
    · intro e1 n w1 he1 _ hget hne
      rw [he] at he1
      obtain rfl := some.inj he1
      refine .inr ⟨_,rfl,hstate,?_⟩
      rw [getElem?_set_ne (by rintro rfl; exact hne hown)]
      exact hget
    · rw [put_self] at he'
      obtain rfl := some.inj he'
      exact ⟨by rwa [length_set],hown⟩
    · intro w' hw'
      obtain rfl := some.inj hw'
      refine ⟨_,put_self _ _ _ _,hstate,?_,hown⟩
      rw [getElem?_set_self hindex]
  · refine ⟨update owner k (update (owner k) e.wakers.length i),_,
      ⟨s.locks.sequence,e.wakers.length,attempt.wantWrite⟩,by rw [enqueue,if_neg hs],?_⟩
    have hself : update owner k (update (owner k) e.wakers.length i) k e.wakers.length = i := by
      rw [update_self,update_self]
    refine stay_inv h ha (e := { e with wakers := e.wakers++[w] })
      ⟨fun e' he' => .inr ⟨e,he,?_,?_⟩,fun e1 n he1 hn => ?_,?_⟩ (fun y hy => update_of_ne hy _ _)
      (hcw _) hentry (fits_queued hwant hshape ⟨le_rfl,fun e' he' _ => ?_,?_⟩)
    · obtain rfl := some.inj he'
      rfl
    · obtain rfl := some.inj he'
      simp
    · rw [he] at he1
      obtain rfl := some.inj he1
      rw [update_self,update_of_ne hn.ne]
    · intro e1 n w1 he1 _ hget _
      rw [he] at he1
      obtain rfl := some.inj he1
      refine .inr ⟨_,rfl,hstate,?_⟩
      rw [List.getElem?_append_left (List.getElem?_eq_some_iff.mp hget).1]
      exact hget
    · rw [put_self] at he'
      obtain rfl := some.inj he'
      exact ⟨by simp,hself⟩
    · intro w' hw'
      obtain rfl := some.inj hw'
      refine ⟨_,put_self _ _ _ _,hstate,?_,hself⟩
      simp

lemma pollKey_wanting (hwant : attempt.wantWrite = true) (w : W) : ∃ r,pollKey s.locks target k attempt w = .ok r ∧
      Inv owner (afterPoll s i target held rest k w r) := by
  have hshape := h.shape i
  rw [ha] at hshape
  simp only [Agent.Shape,hwant,if_true] at hshape
  obtain ⟨htarget,hk,hnodup⟩ := hshape
  have hhold : k ∈ (s.agents i).writeKeys := by
    rw [ha]
    simpa [Agent.writeKeys,htarget] using hk
  obtain ⟨e,he,hne,hwriters⟩ := h.entry_of_writer hhold
  have hentry := h.entry k
  rw [he,hwriters] at hentry
  have hwants : (s.agents i).want = some (k,waiting) := by simp [ha,want,hwant]
  by_cases hz : e.readCount = 0
  · refine ⟨_,by rw [pollKey,he]; simp only [hwant,if_true,if_pos hz]; rfl,?_⟩
    refine h.poll_wanting hwants he hwriters (by rw [ha]; rfl) (by rw [ha]; rfl) (by simp)
      ⟨rfl,by rw [← hentry.1,hz]⟩ (fits_locking (h.put_pos fun e' he' => ?_) hnodup)
    obtain rfl := some.inj he'
    exact hentry.2.1
  · refine ⟨_,by rw [pollKey,he]; simp only [hwant,if_true,if_neg hz]; rfl,?_⟩
    exact h.poll_wanting hwants he hwriters (by rw [ha]; rfl) (by rw [ha]; rfl) (by simp) rfl
      (fits_wanting hwant htarget hk hnodup (put_self _ _ _ _) rfl (pos_of_ne_zero hz))

lemma pollKey_vacant (hnodup : (held++[k]++rest).Nodup) (he : s.locks.keys k = none) (w : W) :
    ∃ r,pollKey s.locks target k attempt w = .ok r ∧ Inv owner (afterPoll s i target held rest k w r) := by
  have hentry := h.entry k
  rw [he] at hentry
  refine ⟨_,by rw [pollKey,he],?_⟩
  refine acquire_inv h ha (le_succ _) ⟨fun e' he' => .inl ?_,fun _ _ hnone => ?_,
    fun _ _ _ hnone => ?_⟩ (fun _ _ hnone => ?_) ⟨?_,succ_pos _,le_rfl,?_⟩
    (fits_locking (h.put_pos fun e' he' => ?_) hnodup)
  · obtain rfl := some.inj he'
    exact lt_succ_self _
  iterate 3
    · rw [he] at hnone
      cases hnone
  · rw [hentry.1,zero_add]
  · rw [hentry.1,hentry.2]
    cases target <;> simp [Target.state,StateOk]
  · obtain rfl := some.inj he'
    exact succ_pos _

lemma join_inv (he : s.locks.keys k = some e) (hnw : ∀ w,e.state ≠ .wantWrite w)
    (hne : e.state ≠ .readLock → state ≠ .readLock) (hread : readCount = readers s k+if target = .readLock then 1 else 0)
    (hstate : StateOk (readers s k+if target = .readLock then 1 else 0)
      (writers s k+if target = .readLock then 0 else 1) state) (hfits : Fits s owner (s.locks.put s.locks.sequence k
        (some { e with readCount := readCount,state := state })) i
      (.locking target (held++[k]) todo attempt' waiting')) : Inv owner ({ s with
      locks := s.locks.put s.locks.sequence k (some { e with readCount := readCount,state := state }) }.set i
      (.locking target (held++[k]) todo attempt' waiting')) := by
  have hentry := h.entry k
  rw [he] at hentry
  exact acquire_inv h ha le_rfl (by rw [he]; exact carries_state rfl rfl hne)
    (by rw [he]; exact carriesWant_of_ne hnw) ⟨hread,hentry.2.1,hentry.2.2.1,hstate⟩ hfits

lemma pollKey_occupied (hwant : attempt.wantWrite = false) (hnodup : (held++[k]++rest).Nodup)
    (he : s.locks.keys k = some e) (w : W) : ∃ owner' r,pollKey s.locks target k attempt w = .ok r ∧
      Inv owner' (afterPoll s i target held rest k w r) := by
  have hentry := h.entry k
  rw [he] at hentry
  obtain ⟨hcount,-,-,hok⟩ := hentry
  cases hstate : e.state with
  | readLock =>
    rw [hstate] at hok
    obtain ⟨hwriters,hreaders⟩ := hok
    have hnw : ∀ w,e.state ≠ .wantWrite w := by simp [hstate]
    cases target with
    | readLock =>
      refine ⟨owner,_,by simp only [pollKey,he,hwant,hstate]; rfl,?_⟩
      exact join_inv h ha he hnw (fun hne => absurd hstate hne) (congrArg (·+1) hcount)
        (by simp only [hwriters,StateOk]; simp) (fits_joined h he hnodup)
    | locked =>
      refine ⟨owner,_,by simp only [pollKey,he,hwant,hstate]; rfl,?_⟩
      exact join_inv h ha he hnw (fun _ => by simp) hcount
        (by simp only [hwriters,StateOk]; simp) (fits_joined h he hnodup)
    | writeLock =>
      refine ⟨owner,_,by simp only [pollKey,he,hwant,hstate]; rfl,?_⟩
      exact join_inv h ha he hnw (fun _ => by simp) hcount (by simp only [hwriters,StateOk]; simp)
        (fits_wanting rfl rfl (by simp) hnodup (put_self _ _ _ _) rfl (by rwa [hcount]))
  | locked =>
    rw [hstate] at hok
    cases target with
    | readLock =>
      refine ⟨owner,_,by simp only [pollKey,he,hwant,hstate]; rfl,?_⟩
      exact join_inv h ha he (by simp [hstate]) (fun _ => by simp) (congrArg (·+1) hcount)
        (by exact hok) (fits_joined h he hnodup)
    | locked | writeLock =>
      obtain ⟨owner',locks,attempt',henq,hinv⟩ := enqueue_inv h ha hwant he (by simp [hstate]) w
      exact ⟨owner',⟨locks,attempt',false,false⟩,by simp only [pollKey,he,hwant,hstate]; exact henq,hinv⟩
  | wantWrite w' | writeLock =>
    obtain ⟨owner',locks,attempt',henq,hinv⟩ := enqueue_inv h ha hwant he (by simp [hstate]) w
    exact ⟨owner',⟨locks,attempt',false,false⟩,by simp only [pollKey,he,hwant,hstate]; exact henq,hinv⟩

lemma pollKey_inv (w : W) : ∃ owner' r,pollKey s.locks target k attempt w = .ok r ∧
      Inv owner' (afterPoll s i target held rest k w r) := by
  cases hwant : attempt.wantWrite with
  | true => exact ⟨owner,pollKey_wanting h ha hwant w⟩
  | false =>
    have hshape := h.shape i
    rw [ha] at hshape
    simp only [Agent.Shape,hwant,Bool.false_eq_true,if_false] at hshape
    have hnodup : (held++[k]++rest).Nodup := by simpa using hshape
    cases he : s.locks.keys k with
    | none => exact ⟨owner,pollKey_vacant h ha hnodup he w⟩
    | some e => exact pollKey_occupied h ha hwant hnodup he w

end

lemma commitKey_inv {t : ℕ} (ha : s.agents i = .committing t (k::rest) waiting) (w : W) :
    ∃ locks ready,commitKey s.locks k w = .ok (locks,ready) ∧ Inv owner ({ s with locks := locks }.set i
        (if ready then .committing t rest none else .committing t (k::rest) (some w))) := by
  obtain ⟨txnLocks,readLocks,ht,hsub⟩ := h.commit i t _ _ ha
  have hhold : k ∈ (s.agents t).writeKeys := by
    rw [ht]
    exact hsub k (by simp)
  have hti : t ≠ i := by
    rintro rfl
    cases ha.symm.trans ht
  obtain ⟨e,he,hne,hwriters⟩ := h.entry_of_writer hhold
  have hentry := h.entry k
  rw [he,hwriters] at hentry
  have hwants : (s.agents i).want = some (k,waiting) := by simp [ha,want]
  have hsingle : ∀ j todo' waiting',s.agents j = .committing t todo' waiting' → j = i :=
    fun j _ _ hj => h.single j i t _ _ _ _ hj ha
  by_cases hz : e.readCount > 0
  · refine ⟨_,_,by rw [commitKey,he]; simp only [if_pos hz]; rfl,?_⟩
    refine h.poll_wanting hwants he hwriters (by rw [ha]; rfl) (by rw [ha]; rfl) (by simp) rfl
      (fits_committing ht hti hsub hsingle fun w' hw' => ?_)
    cases hw'
    exact ⟨k,rest,_,rfl,put_self _ _ _ _,rfl,hz⟩
  · refine ⟨_,_,by rw [commitKey,he]; simp only [if_neg hz]; rfl,?_⟩
    exact h.poll_wanting hwants he hwriters (by rw [ha]; rfl) (by rw [ha]; rfl) (by simp)
      ⟨rfl,hentry.1.symm.trans (by omega)⟩ (fits_committing ht hti (fun x hx => hsub x (by simp [hx])) hsingle
        fun _ hw' => (by cases hw'))

lemma guard_inv (ha : s.agents i = .locking target held [] attempt waiting) :
    Inv owner (s.set i (.guard target held)) := by
  have hshape := h.shape i
  rw [ha] at hshape
  refine h.replace (h.lt_count (by simp [ha])) ?_ ?_ (h.not_txn (by simp [ha])) ?_
  · rw [ha]
    by_cases htarget : target = .readLock <;> simp [Agent.guard,htarget,Agent.readKeys]
  · rw [ha]
    by_cases htarget : target = .readLock <;> simp [Agent.guard,htarget,Agent.writeKeys]
  · rw [Agent.guard]
    split_ifs
    all_goals exact ⟨hshape.2.2,fun _ _ _ hq => (by cases hq),fun _ _ hq => (by cases hq),fun _ _ _ hq => (by cases hq)⟩

lemma poll_inv (i : ℕ) (w : W) : poll s i w = .error .blocked ∨ ∃ owner' s',poll s i w = .ok s' ∧ Inv owner' s' := by
  cases ha : s.agents i with
  | locking target held todo attempt waiting =>
    refine .inr ?_
    cases todo with
    | nil => exact ⟨owner,_,by rw [poll,ha],guard_inv h ha⟩
    | cons k rest =>
      obtain ⟨owner',r,hpoll,hinv⟩ := pollKey_inv h ha w
      refine ⟨owner',afterPoll s i target held rest k w r,?_,hinv⟩
      simp only [poll,ha,hpoll,ok_bind]
      rfl
  | committing t todo waiting =>
    refine .inr ?_
    cases todo with
    | nil =>
      refine ⟨owner,_,by rw [poll,ha],?_⟩
      exact h.replace (h.lt_count (by simp [ha])) (by rw [ha]; rfl) (by rw [ha]; rfl)
        (h.not_txn (by simp [ha])) fits_gone
    | cons k rest =>
      obtain ⟨locks,ready,hcommit,hinv⟩ := commitKey_inv h ha w
      refine ⟨owner,_,?_,hinv⟩
      simp only [poll,ha,hcommit,ok_bind]
      rfl
  | _ => exact .inl (by rw [poll,ha])

end Fuchsia.Fxfs.LockManager
