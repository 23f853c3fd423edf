import Fuchsia.Fxfs.ChecksumList

/-! The second half of `Journal::replay` (`object_store/journal.rs`): the transactions
that were read are validated and a first part of them is applied. -/
namespace Fuchsia.Fxfs

open List Prod

structure ReplayTransaction (μ : Type) where
  checkpoint : JournalCheckpoint
  mutations : List (ℕ × μ)
  endOffset : ℕ
  deriving DecidableEq

namespace Journal

variable {ε μ : Type}
  (validateMutation : ℕ → ℕ → μ → ChecksumList → Except ε (Bool × ChecksumList))

def validateMutations (journalOffset : ℕ) :
    List (ℕ × μ) → ChecksumList → Except ε (Bool × ChecksumList)
  | [],checksums => .ok (true,checksums)
  | (objectId,mutation)::rest,checksums => do
    let (valid,checksums) ← validateMutation journalOffset objectId mutation checksums
    if valid then validateMutations journalOffset rest checksums else return (false,checksums)

def validateTransactions :
    List (ReplayTransaction μ) → ℕ → ChecksumList → Except ε (ℕ × ChecksumList)
  | [],validTo,checksums => .ok (validTo,checksums)
  | t::rest,validTo,checksums => do
    let (valid,checksums) ← validateMutations validateMutation t.checkpoint.fileOffset
      t.mutations checksums
    validateTransactions rest (if valid then validTo else t.checkpoint.fileOffset) checksums

/-- The transactions that `replay_mutations` gets, and the checkpoint of the first one
that is not applied. -/
def applyTransactions (validTo : ℕ) :
    List (ReplayTransaction μ) → List (ReplayTransaction μ) × Option JournalCheckpoint
  | [] => ([],none)
  | t::rest =>
    if validTo ≤ t.checkpoint.fileOffset then ([],some t.checkpoint)
    else (t::(applyTransactions validTo rest).1,(applyTransactions validTo rest).2)

/-- Validate, verify the checksums and apply; the transactions applied and
`last_checkpoint`. -/
def replayTransactions (verify : ChecksumList → ℕ → Except ε ℕ) (deviceFlushedOffset : ℕ)
    (readerCheckpoint superBlockCheckpoint : JournalCheckpoint)
    (transactions : List (ReplayTransaction μ)) :
    Except ε (List (ReplayTransaction μ) × JournalCheckpoint) := do
  let (validTo,checksums) ← validateTransactions validateMutation transactions
    readerCheckpoint.fileOffset (.new deviceFlushedOffset)
  let validTo ← verify checksums validTo
  let (applied,stopped) := applyTransactions validTo transactions
  let lastCheckpoint := if transactions.isEmpty then superBlockCheckpoint
    else stopped.getD readerCheckpoint
  return (applied,lastCheckpoint)

/-- For each transaction whether all its mutations were found valid. -/
def verdicts : List (ReplayTransaction μ) → ChecksumList → Except ε (List Bool × ChecksumList)
  | [],checksums => .ok ([],checksums)
  | t::rest,checksums => do
    let (valid,checksums) ← validateMutations validateMutation t.checkpoint.fileOffset
      t.mutations checksums
    let (others,checksums) ← verdicts rest checksums
    return (valid::others,checksums)

/-- The offset the loops arrive at: that of the last transaction that is not valid. -/
def validTo : List (ReplayTransaction μ) → List Bool → ℕ → ℕ
  | t::ts,valid::rest,offset => validTo ts rest (if valid then offset else t.checkpoint.fileOffset)
  | _,_,offset => offset

/-- The transactions before the first one that is not valid. -/
def beforeInvalid (ts : List (ReplayTransaction μ)) (valid : List Bool) :
    List (ReplayTransaction μ) :=
  ((ts.zip valid).takeWhile fun x => x.2).map fst

variable {validateMutation} {ts : List (ReplayTransaction μ)} {valid : List Bool}

variable {checksums checksums' : ChecksumList} {t : ReplayTransaction μ}

lemma verdicts_cons (h : verdicts validateMutation (t::ts) checksums = .ok (valid,checksums')) :
    ∃ r others,validateMutations validateMutation t.checkpoint.fileOffset t.mutations checksums =
        .ok r ∧ verdicts validateMutation ts r.2 = .ok (others,checksums') ∧ valid = r.1::others := by
  cases hm : validateMutations validateMutation t.checkpoint.fileOffset t.mutations checksums with
  | error e => simp [verdicts,hm,bind,Except.bind] at h
  | ok r =>
    cases hr : verdicts validateMutation ts r.2 with
    | error e => simp [verdicts,hm,hr,bind,Except.bind] at h
    | ok r' =>
      simp only [verdicts,hm,hr,bind,Except.bind,pure,Except.pure,Except.ok.injEq, mk.injEq] at h
      obtain ⟨rfl,rfl⟩ := h
      exact ⟨r,r'.1,rfl,hr,rfl⟩

lemma verdicts_length (h : verdicts validateMutation ts checksums = .ok (valid,checksums')) :
    valid.length = ts.length := by
  induction ts generalizing valid checksums checksums' with
  | nil =>
    simp only [verdicts,Except.ok.injEq,mk.injEq] at h
    simp [← h.1]
  | cons t ts ih =>
    obtain ⟨r,others,-,hr,rfl⟩ := verdicts_cons h
    rw [length_cons,length_cons,ih hr]

variable (offset : ℕ)

lemma validateTransactions_eq (h : verdicts validateMutation ts checksums = .ok (valid,checksums')) :
    validateTransactions validateMutation ts offset checksums = .ok (validTo ts valid offset,checksums') := by
  induction ts generalizing valid checksums offset with
  | nil =>
    simp only [verdicts,Except.ok.injEq,mk.injEq] at h
    simp [validateTransactions,validTo,h.2]
  | cons t ts ih =>
    obtain ⟨r,others,hm,hr,rfl⟩ := verdicts_cons h
    simp only [validateTransactions,hm,bind,Except.bind,validTo]
    exact ih _ hr

lemma replayTransactions_eq {verify : ChecksumList → ℕ → Except ε ℕ} {flushed v : ℕ}
    {reader superBlock : JournalCheckpoint} (h : verdicts validateMutation ts (.new flushed) = .ok (valid,checksums))
    (hv : verify checksums (validTo ts valid reader.fileOffset) = .ok v) :
    Except.map fst (replayTransactions validateMutation verify flushed reader superBlock ts) =
      .ok (applyTransactions v ts).1 := by
  simp [replayTransactions,validateTransactions_eq _ h,hv,bind,Except.bind,pure,Except.pure,Except.map]

/-- Positions in the journal rise from one transaction to the next. -/
def Ascending (ts : List (ReplayTransaction μ)) : Prop :=
  (ts.map fun t => t.checkpoint.fileOffset).Pairwise (· < ·)

lemma filter_eq_nil_of_le {v : ℕ} (hts : Ascending (t::ts)) (hv : v ≤ t.checkpoint.fileOffset) :
    (t::ts).filter (fun t => t.checkpoint.fileOffset < v) = [] := by
  rw [Ascending,map_cons,pairwise_cons] at hts
  rw [filter_eq_nil_iff]
  intro x hx
  rcases mem_cons.mp hx with rfl | hx
  · simpa using hv
  · have hlt := hts.1 _ (mem_map_of_mem hx)
    simp only [decide_eq_true_eq,not_lt]
    omega

lemma applyTransactions_eq_filter (v : ℕ) (hts : Ascending ts) :
    (applyTransactions v ts).1 = ts.filter fun t => t.checkpoint.fileOffset < v := by
  induction ts with
  | nil => rfl
  | cons t ts ih =>
    by_cases hv : v ≤ t.checkpoint.fileOffset
    · rw [filter_eq_nil_of_le hts hv,applyTransactions,if_pos hv]
    · rw [applyTransactions,if_neg hv,filter_cons_of_pos (by simpa using hv),ih (pairwise_cons.mp hts).2]

lemma validTo_of_all_valid {offset : ℕ} (h : valid.count false = 0) : validTo ts valid offset = offset := by
  induction valid generalizing ts offset with
  | nil => simp [validTo]
  | cons b valid ih =>
    cases b with
    | false => simp at h
    | true =>
      cases ts with
      | nil => simp [validTo]
      | cons t ts => simpa [validTo] using ih (by simpa using h)

lemma exists_validTo (hlen : valid.length = ts.length) (hcount : valid.count false ≠ 0) :
    ∃ t ∈ ts,validTo ts valid offset = t.checkpoint.fileOffset := by
  induction valid generalizing ts offset with
  | nil => simp at hcount
  | cons b valid ih =>
    cases ts with
    | nil => simp at hlen
    | cons t ts =>
      have hlen : valid.length = ts.length := by simpa using hlen
      by_cases hz : valid.count false = 0
      · cases b with
        | true => simp [hz] at hcount
        | false => exact ⟨t,by simp,by simp [validTo,validTo_of_all_valid hz]⟩
      · obtain ⟨x,hx,heq⟩ := ih _ hlen hz
        exact ⟨x,by simp [hx],heq⟩

lemma filter_eq_beforeInvalid_iff (hts : Ascending ts) (hlen : valid.length = ts.length) (offset : ℕ) :
    (∀ v ≤ validTo ts valid offset,(ts.filter fun t => t.checkpoint.fileOffset < v) =
      (beforeInvalid ts valid).filter fun t => t.checkpoint.fileOffset < v) ↔ valid.count false ≤ 1 := by
  induction valid generalizing ts offset with
  | nil =>
    obtain rfl : ts = [] := by simpa using hlen.symm
    simp [beforeInvalid]
  | cons b valid ih =>
    cases ts with
    | nil => simp at hlen
    | cons t ts =>
      have hrest : valid.length = ts.length := by simpa using hlen
      obtain ⟨hfirst,htail⟩ := pairwise_cons.mp hts
      cases b with
      | true =>
        have hnext := ih htail hrest offset
        have hbefore : beforeInvalid (t::ts) (true::valid) = t::beforeInvalid ts valid := by
          simp [beforeInvalid]
        rw [count_cons_of_ne (by decide),← hnext,hbefore]
        simp only [validTo,if_true,filter_cons]
        refine forall₂_congr fun v _ => ?_
        split_ifs <;> simp
      | false =>
        have hbefore : beforeInvalid (t::ts) (false::valid) = [] := by simp [beforeInvalid]
        have hcount : (false::valid).count false ≤ 1 ↔ valid.count false = 0 := by simp
        rw [hbefore,hcount]
        simp only [validTo,Bool.false_eq_true,if_false,filter_nil]
        constructor
        · intro h
          by_contra hz
          obtain ⟨x,hx,heq⟩ := exists_validTo t.checkpoint.fileOffset hrest hz
          have hlt := hfirst _ (mem_map_of_mem hx)
          have hnil := h _ le_rfl
          rw [heq,filter_cons_of_pos (by simpa using hlt)] at hnil
          simp at hnil
        · intro hz v hv
          rw [validTo_of_all_valid hz] at hv
          exact filter_eq_nil_of_le hts hv

/-- Whatever the checksums turn out to be, `replay` applies exactly the transactions
before both the first invalid one and the verified offset, provided that at most one
transaction is invalid; and with two invalid ones it may apply more. -/
theorem replayTransactions_cut {flushed : ℕ} {reader superBlock : JournalCheckpoint}
    {checksums : ChecksumList} (hts : Ascending ts)
    (hverdicts : verdicts validateMutation ts (.new flushed) = .ok (valid,checksums)) :
    ((∀ verify : ChecksumList → ℕ → Except ε ℕ,(∀ l j v,verify l j = .ok v → v ≤ j) →
      ∀ v,verify checksums (validTo ts valid reader.fileOffset) = .ok v → Except.map fst
          (replayTransactions validateMutation verify flushed reader superBlock ts) =
          .ok ((beforeInvalid ts valid).filter fun t => t.checkpoint.fileOffset < v)) ↔
      valid.count false ≤ 1) ∧
    (valid.count false ≤ 1 → ∀ (device : ℕ → ℕ → Except ε (List UInt8)) v,
      checksums.verify device (validTo ts valid reader.fileOffset) = .ok v →
        Except.map fst (replayTransactions validateMutation (fun l => l.verify device)
          flushed reader superBlock ts) =
          .ok ((beforeInvalid ts valid).filter fun t => t.checkpoint.fileOffset < v)) := by
  have hcut := filter_eq_beforeInvalid_iff hts (verdicts_length hverdicts) reader.fileOffset
  -- the second part is the first at the `verify` of the list
  refine (and_iff_left_of_imp ?_).mpr ?_
  · intro hiff hcount device
    exact hiff.mpr hcount _ fun _ _ _ => ChecksumList.verifyLoop_le
  rw [← hcut]
  constructor
  · intro h v hv
    have hmin : min v (validTo ts valid reader.fileOffset) = v := min_eq_left hv
    have happly := h (fun _ j => .ok (min v j)) (fun _ j w hw => by
      obtain rfl : min v j = w := by simpa using hw
      exact min_le_right v j) v (by rw [hmin])
    rw [replayTransactions_eq hverdicts (by rw [hmin]),applyTransactions_eq_filter v hts] at happly
    exact Except.ok.inj happly
  · intro h verify hle v hv
    rw [replayTransactions_eq hverdicts hv,applyTransactions_eq_filter v hts,h v (hle _ _ _ hv)]

def single (offset : ℕ) (valid : Bool) : ReplayTransaction Bool := ⟨⟨offset,0⟩,[(1,valid)],offset+10⟩

def byValue (_ _ : ℕ) (valid : Bool) (checksums : ChecksumList) :
    Except Unit (Bool × ChecksumList) := .ok (valid,checksums)

theorem replayTransactions_cut_oneInvalid :
    Except.map fst (replayTransactions byValue
      (fun l => l.verify fun _ _ => .error ()) 0 ⟨40,0⟩ ⟨0,0⟩
      [single 10 true,single 20 false,single 30 true]) = .ok [single 10 true] := by
  have hts : Ascending [single 10 true,single 20 false,single 30 true] := by
    rw [Ascending]
    decide
  have hverdicts : verdicts byValue [single 10 true,single 20 false,single 30 true] (.new 0) =
      .ok ([true,false,true],.new 0) := rfl
  have hreplay := @replayTransactions_cut _ _ _ _ _ 0 ⟨40,0⟩ ⟨0,0⟩ _ hts hverdicts
  exact hreplay.2 (by decide) (fun _ _ => .error ()) 20 rfl

/-- The break of the inner loop leaves the outer one running: the offset of the second
invalid transaction replaces that of the first, which is then applied. -/
theorem replayTransactions_twoInvalid :
    Except.map fst (replayTransactions byValue
      (fun l => l.verify fun _ _ => .error ()) 0 ⟨50,0⟩ ⟨0,0⟩
      [single 10 true,single 20 false,single 30 true,single 40 false]) =
      .ok [single 10 true,single 20 false,single 30 true] ∧
    beforeInvalid [single 10 true,single 20 false,single 30 true,single 40 false]
      [true,false,true,false] = [single 10 true] := ⟨rfl,rfl⟩

end Journal
end Fuchsia.Fxfs
