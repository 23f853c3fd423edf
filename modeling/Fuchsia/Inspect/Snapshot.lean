import Fuchsia.Inspect.Format
import Fuchsia.Lib.Transition

/-! `Snapshot::try_once_from_vmo` (`reader/snapshot.rs`) beside a writer (`writer/state.rs`,
`format/rust/src/block.rs`): the VMO is an array of 64-bit words, of which each step reads or
writes one. The first two words are the header block. -/
namespace Fuchsia.Inspect.Snapshot

open Function Transition Option List

abbrev Words := ℕ → UInt64

def headerMagicNumber : ℕ := 0x50534e49

def headerVersionNumber : ℕ := 2

def vmoFrozen : UInt64 := 18446744073709551614

/-- The header word that `become_header` writes. -/
def headerWord : UInt64 := 0x50534e4900020200

/-- The generation count of an unlocked header. -/
def headerGenerationCount (header payload : UInt64) : Option UInt64 :=
  if header.toNat/2^8%2^8 = BlockType.header.toU8 ∧ header.toNat/2^32 = headerMagicNumber ∧
      header.toNat/2^16%2^16 ≤ headerVersionNumber ∧ payload.toNat%2 = 0 then some payload
  else none

def lockHeader (m : Words) : Option Words := if (m 1).toNat%2 = 1 then none else some (update m 1 (m 1+1))

def unlockHeader (m : Words) : Option Words :=
  if (m 1).toNat%2 = 1 then some (update m 1 (m 1+1)) else none

def freezeHeader (m : Words) : UInt64 × Words := (m 1,update m 1 vmoFrozen)

def thawHeader (m : Words) (generation : UInt64) : Words := update m 1 generation

inductive Phase
  | idle
  | operating
  | freezing (old : UInt64)
  deriving DecidableEq,Repr

inductive Outcome
  | inconsistentSnapshot
  | map
  | vector (buffer : List UInt64)
  deriving DecidableEq,Repr

/-- Where the reader is: before it, after the first word of the header, while it copies, after
the first word of the second header. -/
inductive Reader
  | start
  | header (word : UInt64)
  | copying (generation : UInt64) (buffer : List UInt64)
  | again (generation : UInt64) (buffer : List UInt64) (word : UInt64)
  | done (outcome : Outcome)
  deriving DecidableEq,Repr

inductive WriterAction
  | beginTransaction
  | endTransaction
  | tryLock
  | write (index : ℕ) (value : UInt64)
  | freeze
  | thaw
  | drop
  deriving DecidableEq,Repr

/-- A step of the reader is told whether the VMO can be mapped. -/
inductive Action
  | writer (a : WriterAction)
  | reader (mapped : Bool)
  deriving DecidableEq,Repr

def contents (size : ℕ) (m : Words) : List UInt64 := (range size).map m

/-- The system, with the contents at the instants since the start of the reader at which
neither an operation nor a transaction was in progress. -/
structure State where
  memory : Words
  transactionCount : ℕ
  phase : Phase
  reader : Reader
  instants : List (List UInt64)

namespace State

def Quiet (s : State) : Prop := s.phase = .idle ∧ s.transactionCount = 0

instance (s : State) : Decidable s.Quiet := inferInstanceAs (Decidable (_ ∧ _))

def observe (size : ℕ) (s : State) : State :=
  if s.Quiet then { s with instants := contents size s.memory::s.instants } else s

def writerStep (s : State) (a : WriterAction) : Option State :=
  match s.phase,a with
  | .idle,.beginTransaction => some { s with
      memory := if s.transactionCount = 0 then (lockHeader s.memory).getD s.memory else s.memory
      transactionCount := s.transactionCount+1 }
  | .idle,.endTransaction =>
    if s.transactionCount = 0 then none
    else some { s with
      memory := if s.transactionCount-1 = 0 then (unlockHeader s.memory).getD s.memory else s.memory
      transactionCount := s.transactionCount-1 }
  | .idle,.tryLock =>
    if s.transactionCount = 0 then
      (lockHeader s.memory).map fun m => { s with memory := m,phase := .operating }
    else some { s with phase := .operating }
  | .operating,.write index value => some { s with memory := update s.memory index value }
  | .operating,.freeze => some { s with
      memory := (freezeHeader s.memory).2
      phase := .freezing (freezeHeader s.memory).1 }
  | .freezing old,.thaw => some { s with memory := thawHeader s.memory old,phase := .operating }
  | .operating,.drop => some { s with
      memory := if s.transactionCount = 0 then (unlockHeader s.memory).getD s.memory else s.memory
      phase := .idle }
  | _,_ => none

end State

/-- A step of `try_once_with_callback`. -/
def readerStep (size : ℕ) (mapped : Bool) (m : Words) : Reader → Option Reader
  | .start => some (.header (m 0))
  | .header word =>
    match headerGenerationCount word (m 1) with
    | none => some (.done .inconsistentSnapshot)
    | some generation =>
      if generation = vmoFrozen ∧ mapped then some (.done .map)
      else some (.copying generation [])
  | .copying generation buffer =>
    if buffer.length < size then some (.copying generation (buffer++[m buffer.length]))
    else some (.again generation buffer (m 0))
  | .again generation buffer word =>
    match headerGenerationCount word (m 1) with
    | none => some (.done .inconsistentSnapshot)
    | some newGeneration =>
      if newGeneration ≠ generation then some (.done .inconsistentSnapshot)
      else some (.done (.vector buffer))
  | .done _ => none

def step (size : ℕ) (s : State) : Action → Option State
  | .writer a => (s.writerStep a).map (State.observe size)
  | .reader mapped => (readerStep size mapped s.memory s.reader).map fun reader =>
    State.observe size { s with
      reader := reader
      instants := if s.reader = .start then [] else s.instants }

/-- What a finished reader exposes at present: a mapping shows the live VMO. -/
def State.exposed (size : ℕ) (s : State) : Option (List UInt64) :=
  match s.reader with
  | .done .map => some (contents size s.memory)
  | .done (.vector buffer) => some buffer
  | _ => none

def State.generation (s : State) : UInt64 :=
  match s.phase with
  | .freezing old => old
  | _ => s.memory 1

/-- Operations write other words than those of the header, and the generation count does not
come to the frozen marker. -/
def Allowed (size : ℕ) (s : State) : Action → Prop
  | .writer (.write index _) => 2 ≤ index ∧ index < size
  | .writer _ => s.generation.toNat+1 < vmoFrozen.toNat
  | .reader _ => True

instance (size : ℕ) (s : State) (a : Action) : Decidable (Allowed size s a) := by
  unfold Allowed
  split <;> infer_instance

/-- The VMO of a new state. -/
def Start (s : State) : Prop :=
  s.memory 0 = headerWord ∧ s.memory 1 = 0 ∧ s.transactionCount = 0 ∧ s.phase = .idle ∧
    s.reader = .start ∧ s.instants = []

/-- The header is not frozen when the reader first reads the generation count. -/
def Thawed (s : State) : Action → Prop
  | .reader _ => (∃ word,s.reader = .header word) → ∀ old,s.phase ≠ .freezing old
  | .writer _ => True

variable {size : ℕ} {s s' : State} {a : WriterAction} {m : Words}

/-- The generation count is odd exactly while an operation or a transaction is in progress. -/
structure Locked (s : State) : Prop where
  frozen : ∀ old,s.phase = .freezing old → s.memory 1 = vmoFrozen
  odd : s.generation.toNat%2 = 1 ↔ ¬ s.Quiet
  bound : s.generation.toNat < vmoFrozen.toNat

/-- What a step of the writer does: the count grows, and where it does not the words of the
VMO change only while it is odd. -/
structure Wrote (s s' : State) : Prop where
  locked : Locked s'
  le : s.generation.toNat ≤ s'.generation.toNat
  same : s'.generation = s.generation → s'.generation.toNat%2 = 0 → s'.memory = s.memory
  reader : s'.reader = s.reader
  instants : s'.instants = s.instants

lemma lockHeader_of_even (h : (m 1).toNat%2 = 0) : lockHeader m = some (update m 1 (m 1+1)) := by
  rw [lockHeader,if_neg (by omega)]

lemma generation_of_thawed (h : ∀ old,s.phase ≠ .freezing old) : s.generation = s.memory 1 := by
  unfold State.generation
  split
  · next old heq => exact absurd heq (h old)
  · rfl

lemma wrote_succ (hl : Locked s) (hs : ∀ old,s.phase ≠ .freezing old)
    (hs' : ∀ old,s'.phase ≠ .freezing old) (hbound : s.generation.toNat+1 < vmoFrozen.toNat)
    (hmemory : s'.memory = update s.memory 1 (s.memory 1+1)) (hquiet : s'.Quiet ↔ ¬ s.Quiet)
    (hreader : s'.reader = s.reader) (hinstants : s'.instants = s.instants) : Wrote s s' := by
  have hsucc : s'.generation.toNat = s.generation.toNat+1 := by
    rw [generation_of_thawed hs',hmemory,update_self,generation_of_thawed hs]
    rw [generation_of_thawed hs] at hbound
    rw [UInt64.toNat_add]
    have : vmoFrozen.toNat = 18446744073709551614 := rfl
    have hone : (1 : UInt64).toNat = 1 := rfl
    omega
  refine ⟨⟨fun old h => absurd h (hs' old),?_,by omega⟩,by omega,fun heq => ?_,hreader,hinstants⟩
  · have hodd := hl.odd
    rw [hsucc,hquiet,not_not]
    by_cases hq : s.Quiet
    · have heven : ¬ s.generation.toNat%2 = 1 := fun h => hodd.mp h hq
      exact ⟨fun _ => hq,fun _ => by omega⟩
    · have hodd := hodd.mpr hq
      exact ⟨fun h => by omega,fun h => absurd h hq⟩
  · rw [heq] at hsucc
    omega

lemma wrote_inside (hl : Locked s) (hs : ¬ s.Quiet) (hs' : ¬ s'.Quiet) (hgen : s'.generation = s.generation)
    (hfrozen : ∀ old,s'.phase = .freezing old → s'.memory 1 = vmoFrozen) (hreader : s'.reader = s.reader)
    (hinstants : s'.instants = s.instants) : Wrote s s' := by
  have hodd := hl.odd.mpr hs
  refine ⟨⟨hfrozen,?_,?_⟩,?_,fun _ heven => ?_,hreader,hinstants⟩
  · rw [hgen]
    exact ⟨fun _ => hs',fun _ => hodd⟩
  · rw [hgen]
    exact hl.bound
  · rw [hgen]
  · rw [hgen] at heven
    omega

lemma writerStep_wrote (hl : Locked s) (hallowed : Allowed size s (.writer a))
    (hstep : s.writerStep a = some s') : Wrote s s' := by
  obtain ⟨memory,count,phase,reader,instants⟩ := s
  have hodd := hl.odd
  cases phase <;> cases a
  case idle.beginTransaction =>
    cases hstep
    by_cases hcount : count = 0
    · have heven : ¬ (memory 1).toNat%2 = 1 := fun h => hodd.mp h ⟨rfl,hcount⟩
      rw [if_pos hcount,lockHeader_of_even (Nat.mod_two_ne_one.mp heven),getD_some]
      refine wrote_succ hl nofun nofun hallowed rfl ?_ rfl rfl
      simp [State.Quiet,hcount]
    · rw [if_neg hcount]
      refine wrote_inside hl ?_ ?_ rfl nofun rfl rfl
      · simp [State.Quiet,hcount]
      · simp [State.Quiet]
  case idle.endTransaction =>
    change (if count = 0 then none else some _) = some s' at hstep
    by_cases hcount : count = 0
    · simp [hcount] at hstep
    · rw [if_neg hcount] at hstep
      cases hstep
      have hlocked : (memory 1).toNat%2 = 1 := hodd.mpr fun h => hcount h.2
      by_cases hlast : count-1 = 0
      · rw [if_pos hlast,unlockHeader,if_pos hlocked,getD_some]
        refine wrote_succ hl nofun nofun hallowed rfl ?_ rfl rfl
        simp [State.Quiet,hcount,hlast]
      · rw [if_neg hlast]
        refine wrote_inside hl ?_ ?_ rfl nofun rfl rfl
        · simp [State.Quiet,hcount]
        · simp [State.Quiet,hlast]
  case idle.tryLock =>
    change (if count = 0 then (lockHeader memory).map _ else some _) = some s' at hstep
    by_cases hcount : count = 0
    · have heven : ¬ (memory 1).toNat%2 = 1 := fun h => hodd.mp h ⟨rfl,hcount⟩
      rw [if_pos hcount,lockHeader_of_even (by omega),map_some] at hstep
      cases hstep
      refine wrote_succ hl nofun nofun hallowed rfl ?_ rfl rfl
      simp [State.Quiet,hcount]
    · rw [if_neg hcount] at hstep
      cases hstep
      refine wrote_inside hl ?_ ?_ rfl nofun rfl rfl
      · simp [State.Quiet,hcount]
      · simp [State.Quiet]
  case operating.write index value =>
    cases hstep
    refine wrote_inside hl (by simp [State.Quiet]) (by simp [State.Quiet]) ?_ nofun rfl rfl
    exact update_of_ne (by have := hallowed.1; omega) _ _
  case operating.freeze =>
    cases hstep
    exact wrote_inside hl (by simp [State.Quiet]) (by simp [State.Quiet]) rfl (fun _ _ => by simp [freezeHeader]) rfl rfl
  case freezing.thaw =>
    cases hstep
    refine wrote_inside hl (by simp [State.Quiet]) (by simp [State.Quiet]) ?_ nofun rfl rfl
    simp [State.generation,thawHeader]
  case operating.drop =>
    cases hstep
    by_cases hcount : count = 0
    · have hlocked : (memory 1).toNat%2 = 1 := hodd.mpr (by simp [State.Quiet])
      rw [if_pos hcount,unlockHeader,if_pos hlocked,getD_some]
      refine wrote_succ hl nofun nofun hallowed rfl ?_ rfl rfl
      simp [State.Quiet,hcount]
    · rw [if_neg hcount]
      refine wrote_inside hl (by simp [State.Quiet]) ?_ rfl nofun rfl rfl
      simp [State.Quiet,hcount]
  all_goals cases hstep

structure Copied (size : ℕ) (s : State) (generation : UInt64) (buffer : List UInt64) : Prop where
  even : generation.toNat%2 = 0
  le : generation.toNat ≤ s.generation.toNat
  bound : generation.toNat < vmoFrozen.toNat
  length : buffer.length ≤ size
  same : s.generation = generation → buffer = (contents size s.memory).take buffer.length

def Reading (size : ℕ) (s : State) : Prop :=
  match s.reader with
  | .copying generation buffer => Copied size s generation buffer
  | .again generation buffer _ => Copied size s generation buffer ∧ buffer.length = size
  | .done (.vector buffer) => buffer ∈ s.instants
  | .done .map => False
  | _ => True

structure Sound (size : ℕ) (s : State) : Prop where
  locked : Locked s
  logged : s.Quiet → s.reader ≠ .start → contents size s.memory ∈ s.instants
  reading : Reading size s

variable {buffer : List UInt64}

lemma Copied.wrote {generation : UInt64} (h : Copied size s generation buffer) (hw : Wrote s s') :
    Copied size s' generation buffer := by
  refine ⟨h.even,h.le.trans hw.le,h.bound,h.length,fun heq => ?_⟩
  have hle := h.le
  have hle' := hw.le
  rw [heq] at hle'
  have hgen : s.generation = generation := UInt64.toNat_inj.mp (by omega)
  rw [hw.same (heq.trans hgen.symm) (heq ▸ h.even)]
  exact h.same hgen

lemma Reading.wrote (h : Reading size s) (hw : Wrote s s') : Reading size s' := by
  unfold Reading at h ⊢
  rw [hw.reader,hw.instants]
  generalize s.reader = r at h ⊢
  cases r with
  | copying => exact h.wrote hw
  | again => exact ⟨h.1.wrote hw,h.2⟩
  | done outcome => cases outcome <;> exact h
  | _ => trivial

lemma observe_sound (hl : Locked s) (hr : Reading size s) : Sound size (s.observe size) := by
  unfold State.observe
  split_ifs with hq
  · refine ⟨⟨hl.frozen,hl.odd,hl.bound⟩,fun _ _ => mem_cons_self,?_⟩
    unfold Reading at hr ⊢
    cases hreader : s.reader with
    | copying =>
      rw [hreader] at hr
      exact ⟨hr.even,hr.le,hr.bound,hr.length,hr.same⟩
    | again =>
      rw [hreader] at hr
      exact ⟨⟨hr.1.even,hr.1.le,hr.1.bound,hr.1.length,hr.1.same⟩,hr.2⟩
    | done outcome =>
      rw [hreader] at hr
      cases outcome with
      | vector buffer => exact mem_cons_of_mem _ hr
      | _ => exact hr
    | _ => trivial
  · exact ⟨hl,fun h => absurd h hq,hr⟩

lemma headerGenerationCount_eq_some {header payload g : UInt64}
    (h : headerGenerationCount header payload = some g) : g = payload ∧ g.toNat%2 = 0 := by
  unfold headerGenerationCount at h
  split_ifs at h with hvalid
  cases h
  exact ⟨rfl,hvalid.2.2.2⟩

lemma copied_nil {word g : UInt64} (hl : Locked s) (hthawed : ∀ old,s.phase ≠ .freezing old)
    (h : headerGenerationCount word (s.memory 1) = some g) : Copied size s g [] := by
  obtain ⟨rfl,heven⟩ := headerGenerationCount_eq_some h
  have hbound := hl.bound
  rw [generation_of_thawed hthawed] at hbound
  exact ⟨heven,by rw [generation_of_thawed hthawed],hbound,Nat.zero_le _,fun _ => rfl⟩

lemma Copied.snoc {g : UInt64} (h : Copied size s g buffer) (hlt : buffer.length < size) :
    Copied size s g (buffer++[s.memory buffer.length]) := by
  refine ⟨h.even,h.le,h.bound,by simpa using hlt,fun heq => ?_⟩
  rw [length_append,length_singleton,take_add_one,← h.same heq]
  simp [contents,hlt]

lemma Copied.complete {word g : UInt64} (h : Copied size s g buffer) (hl : Locked s) (hlength : buffer.length = size)
    (hcount : headerGenerationCount word (s.memory 1) = some g) : s.Quiet ∧ buffer = contents size s.memory := by
  obtain ⟨hg,heven⟩ := headerGenerationCount_eq_some hcount
  have hthawed : ∀ old,s.phase ≠ .freezing old := by
    intro old hphase
    have hbound := h.bound
    rw [hg,hl.frozen old hphase] at hbound
    exact lt_irrefl _ hbound
  have hgen : s.generation = g := (generation_of_thawed hthawed).trans hg.symm
  constructor
  · by_contra hq
    have hodd := hl.odd.mpr hq
    rw [hgen] at hodd
    omega
  · have hsame := h.same hgen
    rw [hlength,take_of_length_le (by simp [contents])] at hsame
    exact hsame

lemma readerStep_sound {mapped : Bool} {r : Reader} (hs : Sound size s)
    (hthawed : Thawed s (.reader mapped)) (hstep : readerStep size mapped s.memory s.reader = some r) :
    Reading size { s with reader := r,instants := if s.reader = .start then [] else s.instants } := by
  have hreading := hs.reading
  unfold Reading at hreading
  cases hreader : s.reader with
  | start =>
    rw [hreader] at hstep
    cases hstep
    trivial
  | header word =>
    simp only [hreader,readerStep] at hstep
    have hthawed := hthawed ⟨word,hreader⟩
    cases hcount : headerGenerationCount word (s.memory 1) with
    | none =>
      rw [hcount] at hstep
      cases hstep
      trivial
    | some g =>
      have hcopied : Copied size s g [] := copied_nil hs.locked hthawed hcount
      have hne : ¬ (g = vmoFrozen ∧ mapped = true) := by
        rintro ⟨rfl,-⟩
        exact lt_irrefl _ hcopied.bound
      simp only [hcount] at hstep
      rw [if_neg hne] at hstep
      cases hstep
      exact ⟨hcopied.even,hcopied.le,hcopied.bound,hcopied.length,hcopied.same⟩
  | copying g buffer =>
    simp only [hreader,readerStep] at hstep hreading
    by_cases hlt : buffer.length < size
    · rw [if_pos hlt] at hstep
      cases hstep
      have hcopied := hreading.snoc hlt
      exact ⟨hcopied.even,hcopied.le,hcopied.bound,hcopied.length,hcopied.same⟩
    · rw [if_neg hlt] at hstep
      cases hstep
      have hle := hreading.length
      exact ⟨⟨hreading.even,hreading.le,hreading.bound,hreading.length,hreading.same⟩,by omega⟩
  | again g buffer word =>
    simp only [hreader,readerStep] at hstep hreading
    cases hcount : headerGenerationCount word (s.memory 1) with
    | none =>
      rw [hcount] at hstep
      cases hstep
      trivial
    | some g' =>
      simp only [hcount] at hstep
      by_cases heq : g' = g
      · subst heq
        rw [if_neg (by simp)] at hstep
        cases hstep
        obtain ⟨hquiet,hbuffer⟩ := hreading.1.complete hs.locked hreading.2 hcount
        change buffer ∈ s.instants
        rw [hbuffer]
        exact hs.logged hquiet (by rw [hreader]; exact nofun)
      · rw [if_pos heq] at hstep
        cases hstep
        trivial
  | done outcome =>
    rw [hreader] at hstep
    cases hstep

/-- Along every run whose reader does not meet a frozen header, what a finished reader exposes,
from then on, is the contents of the VMO at an instant at which nothing was in progress. -/
theorem reached_exposed
    (h : Reachable Start (fun s a => Allowed size s a ∧ Thawed s a) (step size) s) :
    ∀ c,s.exposed size = some c → c ∈ s.instants := by
  have hs : Sound size s := by
    refine h.invariant (I := Sound size) ?_ ?_
    · rintro s ⟨-,hgen,hcount,hphase,hreader,-⟩
      have hgeneration : s.generation = 0 := by rw [State.generation,hphase]; exact hgen
      have hquiet : s.Quiet := ⟨hphase,hcount⟩
      refine ⟨⟨fun old h => ?_,?_,?_⟩,fun _ hne => absurd hreader hne,?_⟩
      · rw [hphase] at h
        cases h
      · rw [hgeneration]
        simp [hquiet]
      · rw [hgeneration]
        decide
      · rw [Reading,hreader]
        trivial
    · rintro s (a | mapped) s' hs ⟨hallowed,hthawed⟩ hstep
      · obtain ⟨s1,hwriter,rfl⟩ := map_eq_some_iff.mp hstep
        have hw := writerStep_wrote hs.locked hallowed hwriter
        exact observe_sound hw.locked (hs.reading.wrote hw)
      · obtain ⟨r,hreader,rfl⟩ := map_eq_some_iff.mp hstep
        exact observe_sound ⟨hs.locked.frozen,hs.locked.odd,hs.locked.bound⟩
          (readerStep_sound hs hthawed hreader)
  intro c hc
  have hreading := hs.reading
  unfold State.exposed at hc
  unfold Reading at hreading
  split at hc
  · next heq =>
    rw [heq] at hreading
    exact hreading.elim
  · next heq =>
    rw [heq] at hreading
    cases hc
    exact hreading
  · cases hc

instance (s : State) (a : Action) : Decidable (Thawed s a) :=
  match a with
  | .writer _ => isTrue trivial
  | .reader _ =>
    match hreader : s.reader,hphase : s.phase with
    | .header word,.freezing old => isFalse fun h => h ⟨word,hreader⟩ old hphase
    | .header _,.idle => isTrue fun _ old h => by rw [hphase] at h; cases h
    | .header _,.operating => isTrue fun _ old h => by rw [hphase] at h; cases h
    | .start,_ => isTrue fun ⟨_,h⟩ => by rw [hreader] at h; cases h
    | .copying _ _,_ => isTrue fun ⟨_,h⟩ => by rw [hreader] at h; cases h
    | .again _ _ _,_ => isTrue fun ⟨_,h⟩ => by rw [hreader] at h; cases h
    | .done _,_ => isTrue fun ⟨_,h⟩ => by rw [hreader] at h; cases h

def sampleStart : State := ⟨fun i => if i = 0 then headerWord else 0,0,.idle,.start,[]⟩

def sampleActions : List Action :=
  [.reader true,.writer .tryLock,.writer (.write 2 5),.writer .drop,.reader true,.reader true,
    .reader true,.reader true,.reader true,.reader true,.writer .tryLock,.writer (.write 2 7)]

theorem reached_exposed_sample : ∃ s,
    run (fun s a => Allowed 3 s a ∧ Thawed s a) (step 3) sampleStart sampleActions = some s ∧
    s.exposed 3 = some [headerWord,2,5] ∧ ∀ c,s.exposed 3 = some c → c ∈ s.instants := by
  have hsome : (run (fun s a => Allowed 3 s a ∧ Thawed s a) (step 3) sampleStart
      sampleActions).map (State.exposed 3) = some (some [headerWord,2,5]) := by decide +kernel
  obtain ⟨s,hs,hexposed⟩ := map_eq_some_iff.mp hsome
  refine ⟨s,hs,hexposed,reached_exposed ((Reachable.start ?_).run hs)⟩
  exact ⟨rfl,rfl,rfl,rfl,rfl,rfl⟩

def sampleFrozen : List Action :=
  [.reader true,.writer .tryLock,.writer .freeze,.reader true,.writer .thaw,.writer (.write 2 5)]

theorem reached_exposed_live : ∃ s c,Reachable Start (Allowed 3) (step 3) s ∧
    s.exposed 3 = some c ∧ c ∉ s.instants := by
  have hsome : (run (Allowed 3) (step 3) sampleStart sampleFrozen).map (fun s =>
      (s.exposed 3,s.instants)) = some (some [headerWord,1,5],[[headerWord,0,0]]) := by decide +kernel
  obtain ⟨s,hs,heq⟩ := map_eq_some_iff.mp hsome
  obtain ⟨hexposed,hinstants⟩ := Prod.mk.injEq _ _ _ _ ▸ heq
  refine ⟨s,[headerWord,1,5],(Reachable.start ?_).run hs,hexposed,?_⟩
  · exact ⟨rfl,rfl,rfl,rfl,rfl,rfl⟩
  · rw [hinstants]
    decide

end Fuchsia.Inspect.Snapshot
