import Fuchsia.Lib.Fallible
import Fuchsia.Lib.Transition
import Fuchsia.Lib.Slots

/-! `LockManager` (`object_store/transaction.rs`) with the futures and guards around it. A
step of a future is one run of the closure that it polls for its next key: between two
of them the mutex is free. -/
namespace Fuchsia.Fxfs.LockManager

section

open Fallible Function

inductive LockState (W : Type)
  | readLock
  | locked
  | wantWrite (waker : W)
  | writeLock
  deriving DecidableEq,Repr

structure LockEntry (W : Type) where
  sequence : ℕ
  readCount : ℕ
  state : LockState W
  wakers : List W
  deriving DecidableEq,Repr

structure Locks (K W : Type) where
  sequence : ℕ
  keys : K → Option (LockEntry W)

inductive Fault
  | blocked
  | panic
  deriving DecidableEq,Repr

/-- The states that `lock` is called with. -/
inductive Target
  | readLock
  | locked
  | writeLock
  deriving DecidableEq,Repr

def Target.state {W : Type} : Target → LockState W
  | .readLock => .readLock
  | .locked => .locked
  | .writeLock => .writeLock

/-- The variables of `lock` for the key that is being acquired. -/
structure Attempt where
  wakerSequence : ℕ
  wakerIndex : ℕ
  wantWrite : Bool
  deriving DecidableEq,Repr

def Attempt.new : Attempt := ⟨0,0,false⟩

variable {K W : Type} [LinearOrder K]

def Locks.set (locks : Locks K W) (k : K) (e : Option (LockEntry W)) : Locks K W :=
  { locks with keys := update locks.keys k e }

/-- The locks after one key of `drop_read_locks`, and who is woken. -/
def dropReadLock (locks : Locks K W) (k : K) : Except Fault (Locks K W × List W) :=
  match locks.keys k with
  | none => .error .panic
  | some e =>
    if e.readCount = 0 then .error .panic
    else if e.readCount-1 = 0 then
      match e.state with
      | .readLock => .ok (locks.set k none,[])
      | .locked => .ok (locks.set k (some { e with readCount := e.readCount-1 }),[])
      | .wantWrite w => .ok (locks.set k (some { e with readCount := e.readCount-1 }),[w])
      | .writeLock => .error .panic
    else .ok (locks.set k (some { e with readCount := e.readCount-1 }),[])

def dropReadLocks : Locks K W → List K → Except Fault (Locks K W × List W)
  | locks,[] => .ok (locks,[])
  | locks,k::rest => do
    let (locks,woken) ← dropReadLock locks k
    let (locks,more) ← dropReadLocks locks rest
    return (locks,woken++more)

/-- The locks after one key of `drop_write_locks`, and who is woken. -/
def dropWriteLock (locks : Locks K W) (k : K) : Except Fault (Locks K W × List W) :=
  match locks.keys k with
  | none => .error .panic
  | some e =>
    match e.state with
    | .writeLock => .ok (locks.set k none,e.wakers)
    | .readLock => .error .panic
    | _ =>
      if e.readCount = 0 then .ok (locks.set k none,e.wakers)
      else
        .ok ({ locks with sequence := locks.sequence+1 }.set k (some { e with
          sequence := locks.sequence+1
          state := .readLock
          wakers := [] }),e.wakers)

def dropWriteLocks : Locks K W → List K → Except Fault (Locks K W × List W)
  | locks,[] => .ok (locks,[])
  | locks,k::rest => do
    let (locks,woken) ← dropWriteLock locks k
    let (locks,more) ← dropWriteLocks locks rest
    return (locks,woken++more)

/-- The end of the closure in `lock`: whether the key is acquired, and whether it has been
pushed to the keys of the guard. -/
structure Polled (K W : Type) where
  locks : Locks K W
  attempt : Attempt
  ready : Bool
  pushed : Bool

def enqueue (locks : Locks K W) (k : K) (e : LockEntry W) (attempt : Attempt) (w : W) :
    Except Fault (Polled K W) :=
  if e.sequence = attempt.wakerSequence then
    if attempt.wakerIndex < e.wakers.length then
      .ok ⟨locks.set k (some { e with wakers := e.wakers.set attempt.wakerIndex w }),attempt,false,false⟩
    else .error .panic
  else
    .ok ⟨locks.set k (some { e with wakers := e.wakers++[w] }),
      ⟨locks.sequence,e.wakers.length,attempt.wantWrite⟩,false,false⟩

/-- The closure that `lock` polls for a key. -/
def pollKey (locks : Locks K W) (target : Target) (k : K) (attempt : Attempt) (w : W) :
    Except Fault (Polled K W) :=
  match locks.keys k with
  | none =>
    .ok ⟨{ locks with sequence := locks.sequence+1 }.set k (some
      ⟨locks.sequence+1,if target = Target.readLock then 1 else 0,target.state,[]⟩),attempt,true,true⟩
  | some e =>
    if attempt.wantWrite then
      if e.readCount = 0 then
        .ok ⟨locks.set k (some { e with state := .writeLock }),attempt,true,false⟩
      else .ok ⟨locks.set k (some { e with state := .wantWrite w }),attempt,false,false⟩
    else
      match e.state,target with
      | .readLock,.writeLock =>
        .ok ⟨locks.set k (some { e with state := .wantWrite w }),
          { attempt with wantWrite := true },false,true⟩
      | .readLock,.readLock | .locked,.readLock =>
        .ok ⟨locks.set k (some { e with readCount := e.readCount+1 }),attempt,true,true⟩
      | .readLock,.locked =>
        .ok ⟨locks.set k (some { e with state := .locked }),attempt,true,true⟩
      | _,_ => enqueue locks k e attempt w

/-- The closure that `commit_prepare` polls for a key. -/
def commitKey (locks : Locks K W) (k : K) (w : W) : Except Fault (Locks K W × Bool) :=
  match locks.keys k with
  | none => .error .panic
  | some e =>
    if e.readCount > 0 then
      .ok (locks.set k (some { e with state := .wantWrite w }),false)
    else .ok (locks.set k (some { e with state := .writeLock }),true)

/-- The futures, guards and transactions. A future that waits has the waker of its last
poll until that is woken. -/
inductive Agent (K W : Type)
  | gone
  | locking (target : Target) (held todo : List K) (attempt : Attempt) (waiting : Option W)
  | readGuard (keys : List K)
  | writeGuard (keys : List K)
  | transaction (txnLocks readLocks : List K)
  | committing (txn : ℕ) (todo : List K) (waiting : Option W)
  deriving DecidableEq,Repr

namespace Agent

def guard (target : Target) (held : List K) : Agent K W :=
  if target = .readLock then .readGuard held else .writeGuard held

def readKeys : Agent K W → List K
  | .locking target held _ _ _ => if target = .readLock then held else []
  | .readGuard keys => keys
  | .transaction _ keys => keys
  | _ => []

def writeKeys : Agent K W → List K
  | .locking target held _ _ _ => if target = .readLock then [] else held
  | .writeGuard keys => keys
  | .transaction keys _ => keys
  | _ => []

def notified [DecidableEq W] (woken : List W) (waiting : Option W) : Option W :=
  waiting.filter fun w => w ∉ woken

def wake [DecidableEq W] (woken : List W) : Agent K W → Agent K W
  | .locking target held todo attempt waiting =>
    .locking target held todo attempt (notified woken waiting)
  | .committing txn todo waiting => .committing txn todo (notified woken waiting)
  | a => a

def commits (txn : ℕ) : Agent K W → Bool
  | .committing t _ _ => t = txn
  | _ => false

end Agent

/-- The agents by number; those from `count` on are not there yet. -/
structure State (K W : Type) where
  locks : Locks K W
  agents : ℕ → Agent K W
  count : ℕ

def State.set (s : State K W) (i : ℕ) (a : Agent K W) : State K W :=
  { s with agents := update s.agents i a }

def State.add (s : State K W) (a : Agent K W) : State K W :=
  { s with agents := update s.agents s.count a,count := s.count+1 }

def start : State K W := ⟨⟨0,fun _ => none⟩,fun _ => .gone,0⟩

inductive Action (K W : Type)
  | lock (target : Target) (keys : List K)
  | poll (i : ℕ) (waker : W)
  | drop (i : ℕ)
  | transaction (reader writer : ℕ)
  | commit (txn : ℕ)
  deriving DecidableEq,Repr

def poll (s : State K W) (i : ℕ) (w : W) : Except Fault (State K W) :=
  match s.agents i with
  | .locking target held [] _ _ => .ok (s.set i (.guard target held))
  | .locking target held (k::rest) attempt _ => do
    let r ← pollKey s.locks target k attempt w
    let held := if r.pushed then held++[k] else held
    return { s with locks := r.locks }.set i
      (if r.ready then .locking target held rest .new none
        else .locking target held (k::rest) r.attempt (some w))
  | .committing _ [] _ => .ok (s.set i .gone)
  | .committing txn (k::rest) _ => do
    let (locks,ready) ← commitKey s.locks k w
    return { s with locks := locks }.set i
      (if ready then .committing txn rest none else .committing txn (k::rest) (some w))
  | _ => .error .blocked

/-- A guard, a transaction or a future is dropped. A transaction is borrowed by the
futures that prepare its commit. -/
def drop [DecidableEq W] (s : State K W) (i : ℕ) : Except Fault (State K W) := do
  require .blocked (s.agents i ≠ .gone ∧ ∀ j < s.count,(s.agents j).commits i = false)
  let (locks,woken) ← dropWriteLocks s.locks (s.agents i).writeKeys
  let (locks,more) ← dropReadLocks locks (s.agents i).readKeys
  return ⟨locks,fun j => (update s.agents i .gone j).wake (woken++more),s.count⟩

def step [DecidableEq W] (s : State K W) : Action K W → Except Fault (State K W)
  | .lock target keys => .ok (s.add (.locking target [] keys.toFinset.sort .new none))
  | .poll i w => poll s i w
  | .drop i => drop s i
  | .transaction reader writer =>
    match s.agents reader,s.agents writer with
    | .readGuard readLocks,.writeGuard txnLocks =>
      .ok ((s.set reader .gone).set writer (.transaction txnLocks readLocks))
    | _,_ => .error .blocked
  | .commit txn =>
    match s.agents txn with
    | .transaction txnLocks _ => .ok (s.add (.committing txn txnLocks none))
    | _ => .error .blocked

end

/-! What holds of the entries of `LockManager`, of who holds the keys and of the futures that
wait for them, and the changes of one agent that keep it. -/

open Fallible Agent Finset Function

variable {K W : Type}

section Definitions

variable [LinearOrder K]

def readers (s : State K W) (k : K) : ℕ := ∑ i ∈ range s.count,(s.agents i).readKeys.count k

def writers (s : State K W) (k : K) : ℕ := ∑ i ∈ range s.count,(s.agents i).writeKeys.count k

def StateOk (r w : ℕ) : LockState W → Prop
  | .readLock => w = 0 ∧ 0 < r
  | .locked => w = 1
  | .wantWrite _ => w = 1
  | .writeLock => w = 1 ∧ r = 0

/-- An entry is there if and only if the key is held, and tells by whom. -/
def EntryOk (sequence r w : ℕ) : Option (LockEntry W) → Prop
  | none => r = 0 ∧ w = 0
  | some e => e.readCount = r ∧ 0 < e.sequence ∧ e.sequence ≤ sequence ∧ StateOk r w e.state

namespace Agent

/-- The key that a future waits for among the wakers of the entry. -/
def queue : Agent K W → Option (K × Attempt × Option W)
  | .locking _ _ (k::_) attempt waiting =>
    if attempt.wantWrite then none else some (k,attempt,waiting)
  | _ => none

def want : Agent K W → Option (K × Option W)
  | .locking _ _ (k::_) attempt waiting => if attempt.wantWrite then some (k,waiting) else none
  | .committing _ (k::_) waiting => some (k,waiting)
  | _ => none

def Shape : Agent K W → Prop
  | .locking _ held [] attempt waiting =>
    attempt.wantWrite = false ∧ waiting = none ∧ held.Nodup
  | .locking target held (k::rest) attempt _ =>
    if attempt.wantWrite then target = .writeLock ∧ k ∈ held ∧ (held++rest).Nodup
    else (held++k::rest).Nodup
  | .committing _ [] waiting => waiting = none
  | .readGuard keys => keys.Nodup
  | .writeGuard keys => keys.Nodup
  | .transaction txnLocks readLocks => txnLocks.Nodup ∧ readLocks.Nodup
  | _ => True

end Agent

/-- A future in the queue of a key: its place among the wakers is its own as long as the
entry is the one it has seen, and while it waits its waker is there and some writer has
the key. -/
structure Queued (locks : Locks K W) (owner : K → ℕ → ℕ) (i : ℕ) (k : K) (attempt : Attempt)
    (waiting : Option W) : Prop where
  bound : attempt.wakerSequence ≤ locks.sequence
  index : ∀ e,locks.keys k = some e → e.sequence = attempt.wakerSequence →
    attempt.wakerIndex < e.wakers.length ∧ owner k attempt.wakerIndex = i
  waiting : ∀ w,waiting = some w → ∃ e,locks.keys k = some e ∧ e.state ≠ .readLock ∧
    e.wakers[attempt.wakerIndex]? = some w ∧ owner k attempt.wakerIndex = i

def Wanting (locks : Locks K W) (k : K) (waiting : Option W) : Prop :=
  ∀ w,waiting = some w → ∃ e,locks.keys k = some e ∧ e.state = .wantWrite w ∧ 0 < e.readCount

structure Inv (owner : K → ℕ → ℕ) (s : State K W) : Prop where
  fresh : ∀ i,s.count ≤ i → s.agents i = .gone
  entry : ∀ k,EntryOk s.locks.sequence (readers s k) (writers s k) (s.locks.keys k)
  shape : ∀ i,(s.agents i).Shape
  queued : ∀ i k attempt waiting,(s.agents i).queue = some (k,attempt,waiting) →
    Queued s.locks owner i k attempt waiting
  wanting : ∀ i k waiting,(s.agents i).want = some (k,waiting) → Wanting s.locks k waiting
  commit : ∀ i t todo waiting,s.agents i = .committing t todo waiting →
    ∃ txnLocks readLocks,s.agents t = .transaction txnLocks readLocks ∧ ∀ x ∈ todo,x ∈ txnLocks
  single : ∀ i j t todo todo' waiting waiting',s.agents i = .committing t todo waiting →
    s.agents j = .committing t todo' waiting' → i = j

/-- No future prepares the commit of the transaction `i`. -/
def Unborrowed (s : State K W) (i : ℕ) : Prop := ∀ j todo waiting,s.agents j ≠ .committing i todo waiting

end Definitions

variable {waiting : Option W} {k : K}

section Wake

variable [DecidableEq W] {woken : List W} {a : Agent K W}

lemma readKeys_wake (a : Agent K W) : (a.wake woken).readKeys = a.readKeys := by cases a <;> rfl

lemma writeKeys_wake (a : Agent K W) : (a.wake woken).writeKeys = a.writeKeys := by cases a <;> rfl

lemma notified_eq_some {w : W} : notified woken waiting = some w ↔ waiting = some w ∧ w ∉ woken := by
  rw [notified,Option.filter_eq_some_iff,decide_eq_true_eq]

lemma notified_nil (waiting : Option W) : notified [] waiting = waiting := by cases waiting <;> rfl

lemma wake_nil (a : Agent K W) : a.wake [] = a := by cases a <;> simp only [wake,notified_nil]

lemma queue_wake {attempt : Attempt} (h : (a.wake woken).queue = some (k,attempt,waiting)) :
    ∃ before,a.queue = some (k,attempt,before) ∧ waiting = notified woken before := by
  cases a with
  | locking target held todo attempt' waiting' =>
    cases todo with
    | nil => cases h
    | cons x rest =>
      simp only [wake,queue] at h ⊢
      split_ifs at h ⊢
      cases h
      exact ⟨waiting',rfl,rfl⟩
  | _ => cases h

lemma want_wake (h : (a.wake woken).want = some (k,waiting)) :
    ∃ before,a.want = some (k,before) ∧ waiting = notified woken before := by
  cases a with
  | locking target held todo attempt' waiting' =>
    cases todo with
    | nil => cases h
    | cons x rest =>
      simp only [wake,want] at h ⊢
      split_ifs at h ⊢
      cases h
      exact ⟨waiting',rfl,rfl⟩
  | committing t todo waiting' =>
    cases todo with
    | nil => cases h
    | cons x rest =>
      cases h
      exact ⟨waiting',rfl,rfl⟩
  | _ => cases h

lemma shape_wake (h : a.Shape) : (a.wake woken).Shape := by
  cases a with
  | locking target held todo attempt waiting =>
    cases todo with
    | nil =>
      obtain ⟨hwant,rfl,hheld⟩ := h
      exact ⟨hwant,rfl,hheld⟩
    | cons k rest => exact h
  | committing t todo waiting =>
    cases todo with
    | nil =>
      have hnone : waiting = none := h
      rw [hnone]
      rfl
    | cons k rest => exact h
  | _ => exact h

lemma wake_eq_committing {t : ℕ} {todo : List K} (h : a.wake woken = .committing t todo waiting) :
    ∃ before,a = .committing t todo before := by
  cases a with
  | committing t' todo' before =>
    cases h
    exact ⟨before,rfl⟩
  | _ => cases h

end Wake

lemma EntryOk.cases {sequence r w : ℕ} {o : Option (LockEntry W)} (h : EntryOk sequence r w o) :
    o = none ∧ r = 0 ∧ w = 0 ∨ ∃ e,o = some e ∧ e.readCount = r ∧ 0 < r+w ∧ w ≤ 1 ∧ (e.state = .readLock → w = 0) := by
  cases o with
  | none => exact .inl ⟨rfl,h⟩
  | some e =>
    obtain ⟨hr,-,-,hstate⟩ := h
    refine .inr ⟨e,rfl,hr,?_⟩
    cases hs : e.state <;> rw [hs] at hstate <;> simp [StateOk] at hstate ⊢ <;> omega

variable {i : ℕ}

section Holders

variable [LinearOrder K] {owner : K → ℕ → ℕ} {s : State K W}

section

variable (h : Inv owner s)
include h

lemma Inv.lt_count (hi : s.agents i ≠ .gone) : i < s.count := by
  by_contra hle
  exact hi (h.fresh i (not_lt.mp hle))

lemma lt_count_of_mem (hk : k ∈ (s.agents i).writeKeys ∨ k ∈ (s.agents i).readKeys) : i < s.count := by
  refine h.lt_count fun hgone => ?_
  rw [hgone] at hk
  simp [writeKeys,readKeys] at hk

lemma Inv.writer_unique {j : ℕ} (hi : k ∈ (s.agents i).writeKeys) (hj : k ∈ (s.agents j).writeKeys) : i = j := by
  by_contra hne
  have hle : writers s k ≤ 1 := by obtain ⟨-,-,hzero⟩ | ⟨e,-,-,-,hle,-⟩ := (h.entry k).cases <;> omega
  have hsub : ({i,j} : Finset ℕ) ⊆ range s.count := by
    intro x hx
    rcases mem_insert.mp hx with rfl | hx
    · exact mem_range.mpr (lt_count_of_mem h (.inl hi))
    · rw [mem_singleton.mp hx]
      exact mem_range.mpr (lt_count_of_mem h (.inl hj))
  have hsum := sum_le_sum_of_subset (f := fun x => (s.agents x).writeKeys.count k) hsub
  rw [sum_pair hne] at hsum
  have h1 := List.count_pos_iff.mpr hi
  have h2 := List.count_pos_iff.mpr hj
  rw [writers] at hle
  omega

lemma Inv.want_holds (hwant : (s.agents i).want = some (k,waiting)) : k ∈ (s.agents i).writeKeys ∨
      ∃ t todo,s.agents i = .committing t (k::todo) waiting ∧ k ∈ (s.agents t).writeKeys := by
  cases ha : s.agents i with
  | locking target held todo attempt w =>
    cases todo with
    | nil => simp [ha,want] at hwant
    | cons x rest =>
      have hshape := h.shape i
      rw [ha] at hwant hshape
      simp only [want] at hwant
      simp only [Agent.Shape] at hshape
      split_ifs at hwant hshape
      cases hwant
      left
      simp only [writeKeys,hshape.1]
      exact hshape.2.1
  | committing t todo w =>
    cases todo with
    | nil => simp [ha,want] at hwant
    | cons x rest =>
      rw [ha] at hwant
      cases hwant
      obtain ⟨txnLocks,readLocks,ht,hsub⟩ := h.commit i t _ _ ha
      exact .inr ⟨t,rest,rfl,by rw [ht]; exact hsub k (by simp)⟩
  | _ => simp [ha,want] at hwant

lemma Inv.wanter_unique {j : ℕ} {wi wj : Option W}
    (hi : (s.agents i).want = some (k,wi)) (hj : (s.agents j).want = some (k,wj)) : i = j := by
  have hmixed : ∀ {i j t wi todo wt},(s.agents i).want = some (k,wi) →
      k ∈ (s.agents i).writeKeys → s.agents j = .committing t todo wt → k ∉ (s.agents t).writeKeys := by
    intro i j t wi todo wt hwant hk ha ht
    obtain ⟨txnLocks,readLocks,htxn,-⟩ := h.commit j t _ _ ha
    rw [← h.writer_unique hk ht] at htxn
    simp [htxn,want] at hwant
  rcases h.want_holds hi with hi' | ⟨t,todo,hi',ht⟩
  · rcases h.want_holds hj with hj' | ⟨u,todo',hj',hu⟩
    · exact h.writer_unique hi' hj'
    · exact absurd hu (hmixed hi hi' hj')
  · rcases h.want_holds hj with hj' | ⟨u,todo',hj',hu⟩
    · exact absurd ht (hmixed hj hj' hi')
    · have htu := h.writer_unique ht hu
      subst htu
      exact h.single i j t _ _ _ _ hi' hj'

end

end Holders

section Change

variable [LinearOrder K] {owner : K → ℕ → ℕ} {s : State K W}

structure Carries (owner owner' : ℕ → ℕ) (sequence i : ℕ) (old new : Option (LockEntry W))
    (woken : List W) : Prop where
  index : ∀ e',new = some e' → sequence < e'.sequence ∨
    ∃ e,old = some e ∧ e.sequence = e'.sequence ∧ e.wakers.length ≤ e'.wakers.length
  kept : ∀ e n,old = some e → n < e.wakers.length → owner' n = owner n
  queued : ∀ e n w,old = some e → e.state ≠ .readLock → e.wakers[n]? = some w → owner n ≠ i →
    w ∈ woken ∨ ∃ e',new = some e' ∧ e'.state ≠ .readLock ∧ e'.wakers[n]? = some w

def CarriesWant (old new : Option (LockEntry W)) (woken : List W) : Prop :=
  ∀ e w,old = some e → e.state = .wantWrite w → 0 < e.readCount →
    w ∈ woken ∨ ∃ e',new = some e' ∧ e'.state = .wantWrite w ∧ 0 < e'.readCount

def Locks.put (locks : Locks K W) (sequence : ℕ) (k : K) (new : Option (LockEntry W)) :
    Locks K W :=
  ⟨sequence,Function.update locks.keys k new⟩

variable (locks : Locks K W)

lemma put_self (sequence : ℕ) (k : K) (new : Option (LockEntry W)) : (locks.put sequence k new).keys k = new := by
  simp [Locks.put]

variable {x : K}

lemma put_of_ne (sequence : ℕ) (new : Option (LockEntry W))
    (hx : x ≠ k) : (locks.put sequence k new).keys x = locks.keys x := by simp only [Locks.put,update_of_ne hx]

structure Fits (s : State K W) (owner : K → ℕ → ℕ) (locks : Locks K W) (i : ℕ) (a : Agent K W) :
    Prop where
  shape : a.Shape
  queued : ∀ k attempt waiting,a.queue = some (k,attempt,waiting) → Queued locks owner i k attempt waiting
  wanting : ∀ k waiting,a.want = some (k,waiting) → Wanting locks k waiting
  commit : ∀ t todo waiting,a = .committing t todo waiting → t ≠ i ∧
    (∃ txnLocks readLocks,s.agents t = .transaction txnLocks readLocks ∧ ∀ x ∈ todo,x ∈ txnLocks) ∧
    ∀ j todo' waiting',s.agents j = .committing t todo' waiting' → j = i

variable {sequence : ℕ}

lemma EntryOk.mono {sequence' r w : ℕ} {e : Option (LockEntry W)}
    (h : EntryOk sequence r w e) (hle : sequence ≤ sequence') : EntryOk sequence' r w e := by
  cases e with
  | none => exact h
  | some e => exact ⟨h.1,h.2.1,h.2.2.1.trans hle,h.2.2.2⟩

variable [DecidableEq W]

variable {new : Option (LockEntry W)} {woken : List W} {owner' : K → ℕ → ℕ}

lemma Queued.carries {j : ℕ} {attempt : Attempt}
    (h : Queued s.locks owner j x attempt waiting) (hij : j ≠ i) (hseq : s.locks.sequence ≤ sequence)
    (hc : Carries (owner k) (owner' k) s.locks.sequence i (s.locks.keys k) new woken)
    (howner : ∀ y,y ≠ k → owner' y = owner y) :
    Queued (s.locks.put sequence k new) owner' j x attempt (notified woken waiting) := by
  by_cases hx : x = k
  · subst hx
    refine ⟨h.bound.trans hseq,fun e' he' hs => ?_,fun w hw => ?_⟩
    · rw [put_self] at he'
      rcases hc.index e' he' with hlt | ⟨e,he,hes,hlen⟩
      · have hbound := h.bound
        omega
      · obtain ⟨hi,ho⟩ := h.index e he (hes.trans hs)
        exact ⟨hi.trans_le hlen,by rw [hc.kept e _ he hi,ho]⟩
    · obtain ⟨hw,hnot⟩ := notified_eq_some.mp hw
      obtain ⟨e,he,hstate,hget,ho⟩ := h.waiting w hw
      rcases hc.queued e _ w he hstate hget (by rw [ho]; exact hij) with hin | ⟨e',he',hs',hget'⟩
      · exact absurd hin hnot
      · refine ⟨e',by rw [put_self,he'],hs',hget',?_⟩
        rw [hc.kept e _ he (List.getElem?_eq_some_iff.mp hget).1,ho]
  · refine ⟨h.bound.trans hseq,fun e' he' hs => ?_,fun w hw => ?_⟩
    · rw [put_of_ne _ _ _ hx] at he'
      rw [howner x hx]
      exact h.index e' he' hs
    · rw [put_of_ne _ _ _ hx,howner x hx]
      exact h.waiting w (notified_eq_some.mp hw).1

lemma Wanting.carries (h : Wanting s.locks x waiting) (hc : x = k → CarriesWant (s.locks.keys k) new woken) :
    Wanting (s.locks.put sequence k new) x (notified woken waiting) := by
  intro w hw
  obtain ⟨hw,hnot⟩ := notified_eq_some.mp hw
  obtain ⟨e,he,hstate,hread⟩ := h w hw
  by_cases hx : x = k
  · subst hx
    obtain ⟨e',he',hs',hr'⟩ := (hc rfl e w he hstate hread).resolve_left hnot
    exact ⟨e',by rw [put_self,he'],hs',hr'⟩
  · exact ⟨e,by rw [put_of_ne _ _ _ hx,he],hstate,hread⟩

lemma Inv.update (h : Inv owner s) {owner' : K → ℕ → ℕ} {locks : Locks K W} {i : ℕ} {a : Agent K W} {woken : List W}
    (hi : i < s.count)
    (hentry : ∀ x r w,r+(s.agents i).readKeys.count x = readers s x+a.readKeys.count x →
      w+(s.agents i).writeKeys.count x = writers s x+a.writeKeys.count x →
      EntryOk locks.sequence r w (locks.keys x))
    (hqueued : ∀ j x attempt waiting,j ≠ i → (s.agents j).queue = some (x,attempt,waiting) → Queued locks owner' j x attempt (notified woken waiting))
    (hwanting : ∀ j x waiting,j ≠ i → (s.agents j).want = some (x,waiting) → Wanting locks x (notified woken waiting))
    (htxn : Unborrowed s i) (hfits : Fits s owner' locks i (a.wake woken)) :
    Inv owner' ⟨locks,fun j => (Function.update s.agents i a j).wake woken,s.count⟩ := by
  have hagent : ∀ j,j ≠ i → (Function.update s.agents i a j).wake woken = (s.agents j).wake woken := by
    intro j hj
    rw [update_of_ne hj]
  have hself : (Function.update s.agents i a i).wake woken = a.wake woken := by rw [update_self]
  refine ⟨fun j hj => ?_,fun x => ?_,fun j => ?_,fun j x attempt waiting hq => ?_,
    fun j x waiting hq => ?_,fun j t todo waiting hj => ?_,fun j j' t todo todo' waiting waiting' hj hj' => ?_⟩
  · have hlt : i < j := hi.trans_le hj
    simp only [hagent j (by omega),h.fresh j hj]
    rfl
  · refine hentry x _ _ ?_ ?_
    · simp only [readers,readKeys_wake]
      exact Slots.sum_update (fun a => a.readKeys.count x) s.agents hi a
    · simp only [writers,writeKeys_wake]
      exact Slots.sum_update (fun a => a.writeKeys.count x) s.agents hi a
  · by_cases hj : j = i
    · subst hj
      simp only [hself]
      exact hfits.shape
    · simp only [hagent j hj]
      exact shape_wake (h.shape j)
  · by_cases hj : j = i
    · subst hj
      simp only [hself] at hq
      exact hfits.queued x attempt waiting hq
    · simp only [hagent j hj] at hq
      obtain ⟨before,hq',rfl⟩ := queue_wake hq
      exact hqueued j x attempt before hj hq'
  · by_cases hj : j = i
    · subst hj
      simp only [hself] at hq
      exact hfits.wanting x waiting hq
    · simp only [hagent j hj] at hq
      obtain ⟨before,hq',rfl⟩ := want_wake hq
      exact hwanting j x before hj hq'
  · by_cases hji : j = i
    · subst hji
      simp only [hself] at hj
      obtain ⟨hti,⟨txnLocks,readLocks,ht,hsub⟩,-⟩ := hfits.commit t todo waiting hj
      exact ⟨txnLocks,readLocks,(hagent t hti).trans (by rw [ht]; rfl),hsub⟩
    · simp only [hagent j hji] at hj
      obtain ⟨before,hj'⟩ := wake_eq_committing hj
      obtain ⟨txnLocks,readLocks,ht,hsub⟩ := h.commit j t todo before hj'
      have hti : t ≠ i := by
        rintro rfl
        exact htxn j todo before hj'
      exact ⟨txnLocks,readLocks,(hagent t hti).trans (by rw [ht]; rfl),hsub⟩
  · by_cases hji : j = i
    · by_cases hji' : j' = i
      · rw [hji,hji']
      · subst hji
        simp only [hself] at hj
        simp only [hagent j' hji'] at hj'
        obtain ⟨before,hj'⟩ := wake_eq_committing hj'
        exact ((hfits.commit t todo waiting hj).2.2 j' todo' before hj').symm
    · simp only [hagent j hji] at hj
      obtain ⟨before,hj⟩ := wake_eq_committing hj
      by_cases hji' : j' = i
      · subst hji'
        simp only [hself] at hj'
        exact (hfits.commit t todo' waiting' hj').2.2 j todo before hj
      · simp only [hagent j' hji'] at hj'
        obtain ⟨before',hj'⟩ := wake_eq_committing hj'
        exact h.single j j' t _ _ _ _ hj hj'

variable {a : Agent K W}

lemma Inv.change (h : Inv owner s) (hi : i < s.count) (hseq : s.locks.sequence ≤ sequence)
    (hc : Carries (owner k) (owner' k) s.locks.sequence i (s.locks.keys k) new woken)
    (howner : ∀ y,y ≠ k → owner' y = owner y)
    (hwant : ∀ j waiting,j ≠ i → (s.agents j).want = some (k,waiting) → CarriesWant (s.locks.keys k) new woken)
    (htxn : Unborrowed s i) (hread : ∀ x,x ≠ k → a.readKeys.count x = (s.agents i).readKeys.count x)
    (hwrite : ∀ x,x ≠ k → a.writeKeys.count x = (s.agents i).writeKeys.count x)
    (hentry : ∀ r w,r+(s.agents i).readKeys.count k = readers s k+a.readKeys.count k →
      w+(s.agents i).writeKeys.count k = writers s k+a.writeKeys.count k →
      EntryOk sequence r w new)
    (hfits : Fits s owner' (s.locks.put sequence k new) i (a.wake woken)) : Inv owner' ⟨s.locks.put sequence k new,
      fun j => (Function.update s.agents i a j).wake woken,s.count⟩ := by
  refine h.update hi (fun x r w hr hw => ?_)
    (fun j x attempt waiting hj hq => (h.queued j x attempt waiting hq).carries hj hseq hc howner)
    (fun j x waiting hj hq => (h.wanting j x waiting hq).carries ?_) htxn hfits
  · by_cases hx : x = k
    · subst hx
      rw [put_self]
      exact hentry r w hr hw
    · rw [hread x hx] at hr
      rw [hwrite x hx] at hw
      rw [Nat.add_right_cancel hr,Nat.add_right_cancel hw,put_of_ne _ _ _ hx]
      exact (h.entry x).mono hseq
  · rintro rfl
    exact hwant j waiting hj hq

omit [LinearOrder K] in
lemma set_eq_wake_nil (s : State K W) (locks : Locks K W) (i : ℕ) (a : Agent K W) :
    { s with locks := locks }.set i a =
      ⟨locks,fun j => (Function.update s.agents i a j).wake [],s.count⟩ := by
  simp only [State.set,wake_nil]

lemma Inv.replace (h : Inv owner s) (hi : i < s.count)
    (hread : a.readKeys = (s.agents i).readKeys) (hwrite : a.writeKeys = (s.agents i).writeKeys)
    (htxn : Unborrowed s i) (hfits : Fits s owner s.locks i a) : Inv owner (s.set i a) := by
  have hupdate := @Inv.update K W _ owner s _ h owner s.locks i a [] hi (fun x r w hr hw => by
      rw [hread] at hr
      rw [hwrite] at hw
      rw [Nat.add_right_cancel hr,Nat.add_right_cancel hw]
      exact h.entry x)
    (fun j x attempt waiting _ hq => by
      rw [notified_nil]
      exact h.queued j x attempt waiting hq)
    (fun j x waiting _ hq => by
      rw [notified_nil]
      exact h.wanting j x waiting hq) htxn (by rwa [wake_nil])
  rwa [← set_eq_wake_nil] at hupdate

end Change

end Fuchsia.Fxfs.LockManager
