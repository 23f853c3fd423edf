import Fuchsia.Fxfs.Fletcher
import Mathlib.Data.List.AList

/-! The journal dependencies of `ObjectManager` (`object_store/object_manager.rs`):
which part of the journal each object still needs, and what a mount filters on the
strength of it. -/
namespace Fuchsia.Fxfs

inductive ObjectMutation (α : Type)
  | beginFlush
  | endFlush
  | other (mutation : α)
  deriving DecidableEq

inductive Checkpoints
  | current (checkpoint : JournalCheckpoint)
  | old (checkpoint : JournalCheckpoint)
  | both (old current : JournalCheckpoint)
  deriving DecidableEq

namespace Checkpoints

def earliest : Checkpoints → JournalCheckpoint
  | .old x => x
  | .both x _ => x
  | .current x => x

def beginFlush : Checkpoints → Checkpoints
  | .current x => .old x
  | .both x _ => .old x
  | .old x => .old x

def endFlush : Checkpoints → Option Checkpoints
  | .old _ => none
  | .both _ x => some (.current x)
  | .current x => some (.current x)

def mutate (checkpoint : JournalCheckpoint) : Checkpoints → Checkpoints
  | .old x => .both x checkpoint
  | .both x y => .both x y
  | .current x => .current x

end Checkpoints

/-- The part of `ObjectManager::Inner` that tracks the journal. -/
structure ObjectManager where
  rootParentStoreObjectId : ℕ
  journalCheckpoints : AList fun _ : ℕ => Checkpoints

/-- What a transaction asks of the objects, and where it starts in the journal. -/
structure AppliedTransaction (α : Type) where
  checkpoint : JournalCheckpoint
  mutations : List (ℕ × ObjectMutation α)

structure SuperBlock where
  superBlockJournalFileOffset : ℕ
  journalCheckpoint : JournalCheckpoint
  journalFileOffsets : AList fun _ : ℕ => ℕ

namespace ObjectManager

variable {α : Type}

def new (rootParentStoreObjectId : ℕ) : ObjectManager := ⟨rootParentStoreObjectId,∅⟩

def setCheckpoints (m : ObjectManager) (objectId : ℕ) (entry : Option Checkpoints) :
    ObjectManager :=
  match entry with
  | some entry => { m with journalCheckpoints := m.journalCheckpoints.insert objectId entry }
  | none => { m with journalCheckpoints := m.journalCheckpoints.erase objectId }

def applyMutation (m : ObjectManager) (objectId : ℕ) (mutation : ObjectMutation α)
    (checkpoint : JournalCheckpoint) : ObjectManager :=
  match mutation with
  | .beginFlush =>
    match m.journalCheckpoints.lookup objectId with
    | some entry => m.setCheckpoints objectId (some entry.beginFlush)
    | none => m
  | .endFlush =>
    match m.journalCheckpoints.lookup objectId with
    | some entry => m.setCheckpoints objectId entry.endFlush
    | none => m
  | .other _ =>
    if objectId ≠ m.rootParentStoreObjectId then
      match m.journalCheckpoints.lookup objectId with
      | some entry => m.setCheckpoints objectId (some (entry.mutate checkpoint))
      | none => m.setCheckpoints objectId (some (.current checkpoint))
    else m

def applyTransaction (m : ObjectManager) (t : AppliedTransaction α) : ObjectManager :=
  t.mutations.foldl (fun m x => m.applyMutation x.1 x.2 t.checkpoint) m

def applyTransactions (m : ObjectManager) (ts : List (AppliedTransaction α)) : ObjectManager :=
  ts.foldl applyTransaction m

def minCheckpoint (checkpoint : JournalCheckpoint) : Option JournalCheckpoint → JournalCheckpoint
  | none => checkpoint
  | some m => if checkpoint.fileOffset < m.fileOffset then checkpoint else m

def journalFileOffsetsLoop : List (Σ _ : ℕ,Checkpoints) → AList (fun _ : ℕ => ℕ) →
    Option JournalCheckpoint → AList (fun _ : ℕ => ℕ) × Option JournalCheckpoint
  | [],offsets,minimum => (offsets,minimum)
  | ⟨objectId,checkpoints⟩::rest,offsets,minimum =>
    journalFileOffsetsLoop rest (offsets.insert objectId checkpoints.earliest.fileOffset)
      (some (minCheckpoint checkpoints.earliest minimum))

def journalFileOffsets (m : ObjectManager) :
    AList (fun _ : ℕ => ℕ) × Option JournalCheckpoint :=
  journalFileOffsetsLoop m.journalCheckpoints.entries ∅ none

/-- The fields of the super-block that `Journal::write_super_block` takes from the
dependencies, where `checkpoint` is the writer's position. -/
def writeSuperBlock (m : ObjectManager) (checkpoint : JournalCheckpoint) : SuperBlock where
  superBlockJournalFileOffset := checkpoint.fileOffset
  journalCheckpoint := m.journalFileOffsets.2.getD checkpoint
  journalFileOffsets := m.journalFileOffsets.1

end ObjectManager

def SuperBlock.shouldApply (superBlock : SuperBlock) (objectId : ℕ)
    (journalFileCheckpoint : JournalCheckpoint) : Bool :=
  (superBlock.journalFileOffsets.lookup objectId).getD superBlock.superBlockJournalFileOffset
    ≤ journalFileCheckpoint.fileOffset

/-! The offsets that `ObjectManager` reports never pass a mutation that no completed
flush covers, so a mount does not filter a mutation that only the journal has. -/

/-- A mutation of the journal as `apply_mutation` gets it. -/
structure AppliedMutation (α : Type) where
  objectId : ℕ
  mutation : ObjectMutation α
  checkpoint : JournalCheckpoint

namespace AppliedMutation

variable {α : Type} {h after : List (AppliedMutation α)} {r : AppliedMutation α} {objectId : ℕ}
  {c : JournalCheckpoint}

def Flushed (objectId : ℕ) (after : List (AppliedMutation α)) : Prop :=
  [(objectId,.beginFlush),(objectId,.endFlush)].Sublist (after.map fun r => (r.objectId,r.mutation))

/-- A mutation at the checkpoint is in the history and only followed by parts in which
`covers` does not hold. -/
def Open (covers : List (AppliedMutation α) → Prop) (h : List (AppliedMutation α))
    (objectId : ℕ) (c : JournalCheckpoint) : Prop :=
  ∃ before x after,h = before++⟨objectId,.other x,c⟩::after ∧ ¬covers after

/-- No completed flush covers a mutation of the object that was applied at the checkpoint. -/
def Needed (h : List (AppliedMutation α)) (objectId : ℕ) (c : JournalCheckpoint) : Prop :=
  Open (Flushed objectId) h objectId c

def Unstarted (h : List (AppliedMutation α)) (objectId : ℕ) (c : JournalCheckpoint) : Prop :=
  Open (fun after => (objectId,.beginFlush) ∈ after.map fun r => (r.objectId,r.mutation))
    h objectId c

lemma Open.snoc {covers : List (AppliedMutation α) → Prop} (hopen : Open covers (h++[r]) objectId c) :
    (∃ x,r = ⟨objectId,.other x,c⟩) ∨ Open (fun after => covers (after++[r])) h objectId c := by
  obtain ⟨before,x,after,heq,hc⟩ := hopen
  rcases List.eq_nil_or_concat after with rfl | ⟨after,last,rfl⟩
  · have hlast := List.append_inj_right' heq rfl
    exact .inl ⟨x,by simpa using hlast⟩
  · rw [List.concat_eq_append,← List.cons_append,← List.append_assoc] at heq
    obtain ⟨rfl,hlast⟩ := List.append_inj' heq rfl
    obtain rfl : r = last := by simpa using hlast
    exact .inr ⟨before,x,after,rfl,by simpa using hc⟩

lemma Open.mono {covers covers' : List (AppliedMutation α) → Prop} (hopen : Open covers h objectId c)
    (hmono : ∀ after,covers' after → covers after) : Open covers' h objectId c := by
  obtain ⟨before,x,after,heq,hc⟩ := hopen
  exact ⟨before,x,after,heq,fun hc' => hc (hmono after hc')⟩

lemma Flushed.append (hf : Flushed objectId after) : Flushed objectId (after++[r]) := by
  rw [Flushed,List.map_append]
  exact hf.trans (List.sublist_append_left _ _)

lemma Needed.of_snoc (hn : Needed (h++[r]) objectId c) : (∃ x,r = ⟨objectId,.other x,c⟩) ∨ Needed h objectId c :=
  (Open.snoc hn).imp_right fun ho => ho.mono fun _ => Flushed.append

lemma Unstarted.of_snoc (hu : Unstarted (h++[r]) objectId c) :
    (∃ x,r = ⟨objectId,.other x,c⟩) ∨ Unstarted h objectId c :=
  (Open.snoc hu).imp_right fun ho => ho.mono fun after hb => by
    rw [List.map_append]
    exact List.mem_append_left _ hb

variable {c' : JournalCheckpoint}

lemma Needed.of_snoc_endFlush (hn : Needed (h++[⟨objectId,.endFlush,c'⟩]) objectId c) : Unstarted h objectId c := by
  rcases Open.snoc hn with ⟨x,hx⟩ | ho
  · simp at hx
  · refine ho.mono fun after hb => ?_
    rw [Flushed,List.map_append]
    exact List.Sublist.append (List.singleton_sublist.mpr hb) (List.Sublist.refl _)

end AppliedMutation

namespace Checkpoints

def Below (limit : ℕ) : Checkpoints → Prop
  | .current x => x.fileOffset ≤ limit
  | .old x => x.fileOffset ≤ limit
  | .both x y => x.fileOffset ≤ limit ∧ y.fileOffset ≤ limit

def Tracks (needed unstarted : JournalCheckpoint → Prop) : Option Checkpoints → Prop
  | none => ∀ c,¬needed c
  | some (.current x) => ∀ c,needed c → x.fileOffset ≤ c.fileOffset
  | some (.old x) => (∀ c,needed c → x.fileOffset ≤ c.fileOffset) ∧ ∀ c,¬unstarted c
  | some (.both x y) => (∀ c,needed c → x.fileOffset ≤ c.fileOffset) ∧
      ∀ c,unstarted c → y.fileOffset ≤ c.fileOffset

variable {needed unstarted needed' unstarted' : JournalCheckpoint → Prop}
  {entry : Checkpoints} {limit : ℕ}

lemma Tracks.mono {o : Option Checkpoints} (ht : Tracks needed unstarted o) (hn : ∀ c,needed' c → needed c)
    (hu : ∀ c,unstarted' c → unstarted c) : Tracks needed' unstarted' o := by
  obtain _ | ⟨x | x | ⟨x,y⟩⟩ := o
  any_goals exact fun c hc => ht c (hn c hc)
  all_goals exact ⟨fun c hc => ht.1 c (hn c hc),fun c hc => ht.2 c (hu c hc)⟩

lemma Tracks.earliest_le (ht : Tracks needed unstarted (some entry)) {c : JournalCheckpoint}
    (hc : needed c) : entry.earliest.fileOffset ≤ c.fileOffset := by
  cases entry with
  | current x => exact ht c hc
  | old x | both x y => exact ht.1 c hc

lemma Below.earliest_le (hb : entry.Below limit) : entry.earliest.fileOffset ≤ limit := by
  cases entry with
  | current x | old x => exact hb
  | both x y => exact hb.1

lemma Below.mono (hb : entry.Below limit) {limit' : ℕ} (hl : limit ≤ limit') : entry.Below limit' := by
  cases entry with
  | current x | old x => exact le_trans hb hl
  | both x y => exact ⟨hb.1.trans hl,hb.2.trans hl⟩

lemma Tracks.beginFlush (ht : Tracks needed unstarted (some entry)) (hn : ∀ c,needed' c → needed c)
    (hu : ∀ c,¬unstarted' c) : Tracks needed' unstarted' (some entry.beginFlush) := by
  have hle : ∀ c,needed' c → entry.earliest.fileOffset ≤ c.fileOffset := fun c hc =>
    ht.earliest_le (hn c hc)
  cases entry <;> exact ⟨hle,hu⟩

lemma Tracks.endFlush (ht : Tracks needed unstarted (some entry))
    (hn : ∀ c,needed' c → needed c ∧ unstarted c) : Tracks needed' unstarted' entry.endFlush := by
  cases entry with
  | current x => exact fun c hc => ht c (hn c hc).1
  | old x | both x y => exact fun c hc => ht.2 c (hn c hc).2

variable {checkpoint : JournalCheckpoint}

lemma Tracks.mutate (ht : Tracks needed unstarted (some entry)) (hb : entry.Below limit)
    (hl : limit ≤ checkpoint.fileOffset) (hn : ∀ c,needed' c → c = checkpoint ∨ needed c)
    (hu : ∀ c,unstarted' c → c = checkpoint ∨ unstarted c) :
    Tracks needed' unstarted' (some (entry.mutate checkpoint)) := by
  have hle : ∀ c,needed' c → entry.earliest.fileOffset ≤ c.fileOffset := by
    intro c hc
    rcases hn c hc with rfl | hc
    · exact hb.earliest_le.trans hl
    · exact ht.earliest_le hc
  cases entry with
  | current x => exact hle
  | old x =>
    refine ⟨hle,fun c hc => ?_⟩
    rcases hu c hc with rfl | hc
    · exact le_rfl
    · exact absurd hc (ht.2 c)
  | both x y =>
    refine ⟨hle,fun c hc => ?_⟩
    rcases hu c hc with rfl | hc
    · exact hb.2.trans hl
    · exact ht.2 c hc

lemma Below.beginFlush (hb : entry.Below limit) : entry.beginFlush.Below limit := by
  cases entry <;> simp_all [Below,beginFlush]

lemma Below.endFlush (hb : entry.Below limit) {entry' : Checkpoints}
    (he : entry.endFlush = some entry') : entry'.Below limit := by
  cases entry <;> simp_all [Below,endFlush] <;> simp_all [← he]

lemma Below.mutate (hb : entry.Below checkpoint.fileOffset) : (entry.mutate checkpoint).Below checkpoint.fileOffset := by
  cases entry <;> simp_all [Below,mutate]

end Checkpoints

namespace ObjectManager

open AppliedMutation Checkpoints List AList

variable {α : Type} {m : ObjectManager} {h : List (AppliedMutation α)} {limit objectId id : ℕ}

/-- The mutations of the transactions in the order in which they are applied. -/
def history (ts : List (AppliedTransaction α)) : List (AppliedMutation α) :=
  ts.flatMap fun t => t.mutations.map fun x => ⟨x.1,x.2,t.checkpoint⟩

def applyAll (m : ObjectManager) (h : List (AppliedMutation α)) : ObjectManager :=
  h.foldl (fun m r => m.applyMutation r.objectId r.mutation r.checkpoint) m

lemma applyTransactions_eq_applyAll (m : ObjectManager) (ts : List (AppliedTransaction α)) :
    m.applyTransactions ts = m.applyAll (history ts) := by
  induction ts generalizing m with
  | nil => rfl
  | cons t ts ih =>
    have hhistory : history (t::ts) = (t.mutations.map fun x => ⟨x.1,x.2,t.checkpoint⟩)++history ts := rfl
    rw [applyTransactions,foldl_cons,← applyTransactions,ih,hhistory,applyAll,applyAll,
      foldl_append,foldl_map,applyTransaction]

lemma setCheckpoints_lookup (entry : Option Checkpoints) :
    (m.setCheckpoints objectId entry).journalCheckpoints.lookup id =
      if id = objectId then entry else m.journalCheckpoints.lookup id := by
  by_cases hid : id = objectId
  · subst hid
    cases entry <;> simp [setCheckpoints]
  · cases entry <;> simp [setCheckpoints,lookup_insert_ne,lookup_erase_ne,hid]

def nextCheckpoints (mutation : ObjectMutation α) (checkpoint : JournalCheckpoint)
    (entry : Option Checkpoints) : Option Checkpoints :=
  match mutation with
  | .beginFlush => entry.map beginFlush
  | .endFlush => entry.bind endFlush
  | .other _ => some ((entry.map (mutate checkpoint)).getD (.current checkpoint))

section

variable (r : AppliedMutation α)
include r

lemma applyMutation_root : (m.applyMutation r.objectId r.mutation r.checkpoint).rootParentStoreObjectId =
      m.rootParentStoreObjectId := by
  simp only [applyMutation]
  repeat' split
  all_goals first | rfl | (unfold setCheckpoints; split <;> rfl)

lemma applyMutation_lookup_ne (hid : id ≠ r.objectId) :
    (m.applyMutation r.objectId r.mutation r.checkpoint).journalCheckpoints.lookup id =
      m.journalCheckpoints.lookup id := by
  simp only [applyMutation]
  repeat' split
  all_goals simp [setCheckpoints_lookup,hid]

lemma applyMutation_lookup (hroot : r.objectId ≠ m.rootParentStoreObjectId) :
    (m.applyMutation r.objectId r.mutation r.checkpoint).journalCheckpoints.lookup r.objectId =
      nextCheckpoints r.mutation r.checkpoint (m.journalCheckpoints.lookup r.objectId) := by
  cases hm : r.mutation <;> cases he : m.journalCheckpoints.lookup r.objectId <;>
    simp [applyMutation,nextCheckpoints,he,hroot,setCheckpoints_lookup]

lemma applyMutation_lookup_root (hroot : r.objectId = m.rootParentStoreObjectId)
    (hnone : m.journalCheckpoints.lookup r.objectId = none) :
    (m.applyMutation r.objectId r.mutation r.checkpoint).journalCheckpoints.lookup r.objectId = none := by
  cases hm : r.mutation with
  | beginFlush | endFlush => simp [applyMutation,hnone]
  | other x =>
    rw [hroot] at hnone ⊢
    simp [applyMutation,hnone]

end

/-- Every entry is conservative for the mutations applied so far, none of them past the
limit, and the root parent store has none. -/
structure Tracked (h : List (AppliedMutation α)) (limit : ℕ) (m : ObjectManager) : Prop where
  tracks : ∀ id,id ≠ m.rootParentStoreObjectId →
    Checkpoints.Tracks (Needed h id) (Unstarted h id) (m.journalCheckpoints.lookup id)
  below : ∀ id entry,m.journalCheckpoints.lookup id = some entry → entry.Below limit
  root : m.journalCheckpoints.lookup m.rootParentStoreObjectId = none

lemma new_tracked (root : ℕ) : Tracked ([] : List (AppliedMutation α)) 0 (new root) where
  tracks id _ := by
    rintro c ⟨before,x,after,heq,-⟩
    simp at heq
  below id entry he := by simp [new] at he
  root := by simp [new]

lemma nextCheckpoints_tracks (r : AppliedMutation α) (entry : Option Checkpoints)
    (ht : Checkpoints.Tracks (Needed h r.objectId) (Unstarted h r.objectId) entry)
    (hb : ∀ e,entry = some e → e.Below limit) (hl : limit ≤ r.checkpoint.fileOffset) :
    Checkpoints.Tracks (Needed (h++[r]) r.objectId) (Unstarted (h++[r]) r.objectId)
      (nextCheckpoints r.mutation r.checkpoint entry) := by
  obtain ⟨objectId,mutation,checkpoint⟩ := r
  cases mutation with
  | beginFlush =>
    have hn : ∀ c,Needed (h++[⟨objectId,.beginFlush,checkpoint⟩]) objectId c →
        Needed h objectId c := fun c hc => hc.of_snoc.resolve_left (by simp)
    cases entry with
    | none => exact fun c hc => ht c (hn c hc)
    | some entry =>
      refine ht.beginFlush hn fun c hu => ?_
      rcases Open.snoc hu with ⟨x,hx⟩ | ⟨before,x,after,-,hc⟩
      · simp at hx
      · simp at hc
  | endFlush =>
    have hn : ∀ c,Needed (h++[⟨objectId,.endFlush,checkpoint⟩]) objectId c →
        Needed h objectId c := fun c hc => hc.of_snoc.resolve_left (by simp)
    cases entry with
    | none => exact fun c hc => ht c (hn c hc)
    | some entry => exact ht.endFlush fun c hc => ⟨hn c hc,hc.of_snoc_endFlush⟩
  | other x =>
    have hn : ∀ c,Needed (h++[⟨objectId,.other x,checkpoint⟩]) objectId c →
        c = checkpoint ∨ Needed h objectId c := fun c hc => hc.of_snoc.imp_left (by simp_all)
    have hu : ∀ c,Unstarted (h++[⟨objectId,.other x,checkpoint⟩]) objectId c →
        c = checkpoint ∨ Unstarted h objectId c := fun c hc => hc.of_snoc.imp_left (by simp_all)
    cases entry with
    | none =>
      intro c hc
      rcases hn c hc with rfl | hc
      · exact le_rfl
      · exact absurd hc (ht c)
    | some entry => exact ht.mutate (hb entry rfl) hl hn hu

lemma nextCheckpoints_below {entry' : Checkpoints} {o : Option Checkpoints} {mutation : ObjectMutation α}
    {checkpoint : JournalCheckpoint} (hb : ∀ e,o = some e → e.Below checkpoint.fileOffset)
    (he : nextCheckpoints mutation checkpoint o = some entry') : entry'.Below checkpoint.fileOffset := by
  cases o with
  | none =>
    cases mutation with
    | beginFlush | endFlush => simp [nextCheckpoints] at he
    | other x =>
      obtain rfl : current checkpoint = entry' := by simpa [nextCheckpoints] using he
      exact le_rfl
  | some entry =>
    have hb := hb entry rfl
    cases mutation with
    | beginFlush =>
      obtain rfl : entry.beginFlush = entry' := by simpa [nextCheckpoints] using he
      exact hb.beginFlush
    | endFlush => exact hb.endFlush (by simpa [nextCheckpoints] using he)
    | other x =>
      obtain rfl : entry.mutate checkpoint = entry' := by simpa [nextCheckpoints] using he
      exact hb.mutate

lemma Tracked.applyMutation (ht : Tracked h limit m) (r : AppliedMutation α) (hl : limit ≤ r.checkpoint.fileOffset) :
    Tracked (h++[r]) r.checkpoint.fileOffset (m.applyMutation r.objectId r.mutation r.checkpoint) where
  tracks id hid := by
    rw [applyMutation_root] at hid
    by_cases hr : id = r.objectId
    · subst hr
      rw [applyMutation_lookup r hid]
      exact nextCheckpoints_tracks r _ (ht.tracks _ hid) (ht.below _) hl
    · rw [applyMutation_lookup_ne r hr]
      have hne : ∀ c,¬∃ x,r = ⟨id,.other x,c⟩ := by
        rintro c ⟨x,rfl⟩
        exact hr rfl
      exact (ht.tracks id hid).mono (fun c hc => hc.of_snoc.resolve_left (hne c))
        fun c hc => hc.of_snoc.resolve_left (hne c)
  below id entry he := by
    by_cases hr : id = r.objectId
    · subst hr
      by_cases hroot : r.objectId = m.rootParentStoreObjectId
      · rw [applyMutation_lookup_root r hroot (hroot ▸ ht.root)] at he
        simp at he
      · rw [applyMutation_lookup r hroot] at he
        exact nextCheckpoints_below (fun e h => (ht.below _ e h).mono hl) he
    · rw [applyMutation_lookup_ne r hr] at he
      exact (ht.below id entry he).mono hl
  root := by
    rw [applyMutation_root]
    by_cases hr : m.rootParentStoreObjectId = r.objectId
    · rw [hr]
      exact applyMutation_lookup_root r hr.symm (hr ▸ ht.root)
    · rw [applyMutation_lookup_ne r hr,ht.root]

lemma Tracked.applyAll (rest : List (AppliedMutation α)) (ht : Tracked h limit m)
    (hrest : (rest.map fun r => r.checkpoint.fileOffset).Pairwise (· ≤ ·))
    (hl : ∀ r ∈ rest,limit ≤ r.checkpoint.fileOffset) {bound : ℕ} (hlimit : limit ≤ bound)
    (hbound : ∀ r ∈ rest,r.checkpoint.fileOffset ≤ bound) : Tracked (h++rest) bound (m.applyAll rest) := by
  induction rest generalizing h limit m with
  | nil =>
    rw [append_nil]
    exact { ht with below := fun id entry he => (ht.below id entry he).mono hlimit }
  | cons r rest ih =>
    rw [map_cons,pairwise_cons] at hrest
    have hstep := ht.applyMutation r (hl r (by simp))
    have hnext := ih hstep hrest.2 (fun x hx => hrest.1 _ (mem_map_of_mem hx)) (hbound r (by simp))
      fun x hx => hbound x (by simp [hx])
    rw [List.append_assoc,singleton_append] at hnext
    exact hnext

variable (entries : List (Σ _ : ℕ,Checkpoints))

lemma journalFileOffsetsLoop_lookup (hkeys : entries.NodupKeys) (offsets : AList fun _ : ℕ => ℕ)
    (minimum : Option JournalCheckpoint) : (journalFileOffsetsLoop entries offsets minimum).1.lookup id =
      ((entries.dlookup id).map fun c => c.earliest.fileOffset).or (offsets.lookup id) := by
  induction entries generalizing offsets minimum with
  | nil => simp [journalFileOffsetsLoop]
  | cons e entries ih =>
    obtain ⟨key,c⟩ := e
    rw [nodupKeys_cons] at hkeys
    rw [journalFileOffsetsLoop,ih hkeys.2]
    by_cases hid : id = key
    · subst hid
      rw [dlookup_cons_eq,dlookup_eq_none.mpr hkeys.1,lookup_insert]
      rfl
    · rw [dlookup_cons_ne _ _ hid,lookup_insert_ne hid]

lemma minCheckpoint_le (c : JournalCheckpoint) (minimum : Option JournalCheckpoint) :
    (minCheckpoint c minimum).fileOffset ≤ c.fileOffset ∧
      ∀ x,minimum = some x → (minCheckpoint c minimum).fileOffset ≤ x.fileOffset := by
  cases minimum with
  | none => simp [minCheckpoint]
  | some m =>
    simp only [minCheckpoint,Option.some.injEq,forall_eq']
    split_ifs <;> omega

lemma journalFileOffsetsLoop_le (offsets : AList fun _ : ℕ => ℕ) (minimum : Option JournalCheckpoint)
    (x : JournalCheckpoint) (hx : minimum = some x ∨ ∃ e ∈ entries,e.2.earliest = x) :
    ∃ c,(journalFileOffsetsLoop entries offsets minimum).2 = some c ∧ c.fileOffset ≤ x.fileOffset := by
  induction entries generalizing offsets minimum x with
  | nil => exact ⟨x,by simpa [journalFileOffsetsLoop] using hx,le_rfl⟩
  | cons e entries ih =>
    have hmin := minCheckpoint_le e.2.earliest minimum
    rcases hx with hx | ⟨e',he',hx⟩
    · obtain ⟨c,hc,hle⟩ := ih (offsets.insert e.1 e.2.earliest.fileOffset) _ _ (.inl rfl)
      exact ⟨c,hc,hle.trans (hmin.2 x hx)⟩
    · rcases mem_cons.mp he' with rfl | he'
      · obtain ⟨c,hc,hle⟩ := ih (offsets.insert e'.1 e'.2.earliest.fileOffset) _ _ (.inl rfl)
        exact ⟨c,hc,hle.trans (hx ▸ hmin.1)⟩
      · exact ih _ _ x (.inr ⟨e',he',hx⟩)

lemma journalFileOffsetsLoop_mem (offsets : AList fun _ : ℕ => ℕ) (minimum : Option JournalCheckpoint)
    (c : JournalCheckpoint) (hc : (journalFileOffsetsLoop entries offsets minimum).2 = some c) :
    minimum = some c ∨ ∃ e ∈ entries,e.2.earliest = c := by
  induction entries generalizing offsets minimum with
  | nil => exact .inl hc
  | cons e entries ih =>
    rcases ih _ _ hc with h | ⟨e',he',h⟩
    · obtain rfl : minCheckpoint e.2.earliest minimum = c := by simpa using h
      cases minimum with
      | none => exact .inr ⟨e,by simp,rfl⟩
      | some m =>
        rw [minCheckpoint]
        split_ifs
        · exact .inr ⟨e,by simp,rfl⟩
        · exact .inl rfl
    · exact .inr ⟨e',by simp [he'],h⟩

lemma journalFileOffsets_lookup (m : ObjectManager) (id : ℕ) : m.journalFileOffsets.1.lookup id =
      (m.journalCheckpoints.lookup id).map fun c => c.earliest.fileOffset := by
  rw [journalFileOffsets,journalFileOffsetsLoop_lookup _ m.journalCheckpoints.nodupKeys]
  simp [AList.lookup]

lemma journalFileOffsets_mem (m : ObjectManager) {c : JournalCheckpoint} (hc : m.journalFileOffsets.2 = some c) :
    ∃ id entry,m.journalCheckpoints.lookup id = some entry ∧ entry.earliest = c := by
  rcases journalFileOffsetsLoop_mem _ _ _ _ hc with h | ⟨⟨id,entry⟩,he,h⟩
  · simp at h
  · exact ⟨id,entry,mem_lookup_iff.mpr he,h⟩

variable {ts : List (AppliedTransaction α)}

lemma mem_history {r : AppliedMutation α} :
    r ∈ history ts ↔ ∃ t ∈ ts,(r.objectId,r.mutation) ∈ t.mutations ∧ r.checkpoint = t.checkpoint := by
  obtain ⟨objectId,mutation,checkpoint⟩ := r
  simp only [history,mem_flatMap,mem_map,AppliedMutation.mk.injEq,Prod.exists]
  grind

lemma history_pairwise (hts : (ts.map fun t => t.checkpoint.fileOffset).Pairwise (· ≤ ·)) :
    ((history ts).map fun r => r.checkpoint.fileOffset).Pairwise (· ≤ ·) := by
  rw [history,map_flatMap,pairwise_flatMap]
  constructor
  · intro t _
    rw [map_map]
    exact pairwise_map.mpr (pairwise_of_forall fun _ _ => le_rfl)
  · refine (pairwise_map.mp hts).imp fun {t t'} hle x hx y hy => ?_
    simp only [map_map,mem_map] at hx hy
    obtain ⟨⟨_,-,rfl⟩,⟨_,-,rfl⟩⟩ := hx,hy
    exact hle

lemma applyTransactions_root (ts : List (AppliedTransaction α)) (m : ObjectManager) :
    (m.applyTransactions ts).rootParentStoreObjectId = m.rootParentStoreObjectId := by
  rw [applyTransactions_eq_applyAll]
  induction history ts generalizing m with
  | nil => rfl
  | cons r rest ih => exact (ih _).trans (applyMutation_root r)

/-- After any sequence of transactions in journal order, an object other than the root
parent store has an entry that is not past any of its mutations that no completed flush
covers; the minimum checkpoint is the least entry; and with the super-block written at
that point, `should_apply` keeps all those mutations and all later ones. -/
theorem journalFileOffsets_conservative (root : ℕ) (ts later : List (AppliedTransaction α))
    (checkpoint : JournalCheckpoint) (hts : (ts.map fun t => t.checkpoint.fileOffset).Pairwise (· ≤ ·))
    (hbefore : ∀ t ∈ ts,t.checkpoint.fileOffset ≤ checkpoint.fileOffset)
    (hafter : ∀ t ∈ later,checkpoint.fileOffset ≤ t.checkpoint.fileOffset) :
    let m := (new root).applyTransactions ts
    (∀ id ≠ root,∀ c,Needed (history ts) id c →
      ∃ offset,m.journalFileOffsets.1.lookup id = some offset ∧ offset ≤ c.fileOffset) ∧
    (∀ id offset,m.journalFileOffsets.1.lookup id = some offset →
      ∃ c,m.journalFileOffsets.2 = some c ∧ c.fileOffset ≤ offset) ∧
    (∀ c,m.journalFileOffsets.2 = some c →
      ∃ id entry,m.journalCheckpoints.lookup id = some entry ∧ entry.earliest = c) ∧
    (∀ id ≠ root,∀ c,Needed (history ts) id c → (m.writeSuperBlock checkpoint).shouldApply id c) ∧
    ∀ r ∈ history later,(m.writeSuperBlock checkpoint).shouldApply r.objectId r.checkpoint := by
  have htracked : Tracked (history ts) checkpoint.fileOffset ((new root).applyTransactions ts) := by
    rw [applyTransactions_eq_applyAll]
    refine (new_tracked root).applyAll (history ts) (history_pairwise hts)
      (fun _ _ => Nat.zero_le _) (Nat.zero_le _) fun r hr => ?_
    obtain ⟨t,ht,-,hc⟩ := mem_history.mp hr
    rw [hc]
    exact hbefore t ht
  have hroot := applyTransactions_root ts (new root)
  intro m
  have hneeded : ∀ id ≠ root,∀ c,Needed (history ts) id c →
      ∃ offset,m.journalFileOffsets.1.lookup id = some offset ∧ offset ≤ c.fileOffset := by
    intro id hid c hc
    have ht := htracked.tracks id (by rw [hroot]; exact hid)
    cases he : m.journalCheckpoints.lookup id with
    | none =>
      rw [he] at ht
      exact absurd hc (ht c)
    | some entry =>
      rw [he] at ht
      exact ⟨_,by rw [journalFileOffsets_lookup,he]; rfl,ht.earliest_le hc⟩
  refine ⟨hneeded,fun id offset ho => ?_,fun c hc => journalFileOffsets_mem m hc,
    fun id hid c hc => ?_,fun r hr => ?_⟩
  · rw [journalFileOffsets_lookup,Option.map_eq_some_iff] at ho
    obtain ⟨entry,he,rfl⟩ := ho
    exact journalFileOffsetsLoop_le _ _ _ _ (.inr ⟨⟨id,entry⟩,mem_lookup_iff.mp he,rfl⟩)
  · obtain ⟨offset,ho,hle⟩ := hneeded id hid c hc
    simpa [SuperBlock.shouldApply,writeSuperBlock,ho] using hle
  · obtain ⟨t,ht,-,hc⟩ := mem_history.mp hr
    have hle : checkpoint.fileOffset ≤ r.checkpoint.fileOffset := hc ▸ hafter t ht
    simp only [SuperBlock.shouldApply,writeSuperBlock,journalFileOffsets_lookup,decide_eq_true_eq]
    cases he : m.journalCheckpoints.lookup r.objectId with
    | none => exact hle
    | some entry => exact (htracked.below _ entry he).earliest_le.trans hle

def retriedFlush : List (AppliedTransaction Unit) :=
  [⟨⟨10,0⟩,[(1,.other ())]⟩,⟨⟨20,0⟩,[(1,.beginFlush)]⟩,⟨⟨30,0⟩,[(1,.other ()),(3,.other ())]⟩,
    ⟨⟨40,0⟩,[(1,.beginFlush)]⟩,⟨⟨50,0⟩,[(2,.other ()),(1,.other ())]⟩,⟨⟨60,0⟩,[(1,.endFlush)]⟩]

theorem journalFileOffsets_conservative_retriedFlush :
    Needed (history retriedFlush) 1 ⟨50,0⟩ ∧
      (((new 3).applyTransactions retriedFlush).writeSuperBlock ⟨70,0⟩).shouldApply 1 ⟨50,0⟩ ∧
      ((new 3).applyTransactions retriedFlush).journalFileOffsets.2 = some ⟨50,0⟩ := by
  have hneeded : Needed (history retriedFlush) 1 ⟨50,0⟩ :=
    ⟨(history retriedFlush).take 6,(),(history retriedFlush).drop 7,rfl,by
      rw [Flushed]
      decide⟩
  have hall := journalFileOffsets_conservative 3 retriedFlush [] ⟨70,0⟩ (by decide) (by decide)
    (by simp)
  exact ⟨hneeded,hall.2.2.2.1 1 (by decide) ⟨50,0⟩ hneeded,by decide⟩

end ObjectManager

end Fuchsia.Fxfs
