import Fuchsia.Netstack.SocketMap

/-! The allocation of ephemeral ports in `algorithm/port_alloc.rs`. -/
namespace Fuchsia.Netstack.EphemeralPort

open Fallible

/-- The constants of a `PortAllocImpl`: `EPHEMERAL_RANGE` has the ports from `first` to `last`. -/
structure PortAllocImpl where
  tableSize : ℕ
  nonzero : 0 < tableSize
  first : UInt16
  last : UInt16

abbrev Secret := Vector UInt8 16

structure PortAlloc (impl : PortAllocImpl) where
  table : Vector UInt16 impl.tableSize
  secretA : Secret
  secretB : Secret

variable {Id : Type} (impl : PortAllocImpl)

def PortAllocImpl.numEphemeral : ℕ := (impl.last-impl.first).toNat+1

/-- The port that is tried where the counter has the value. -/
def portAt (offset : UInt64) (tableVal : UInt16) : UInt16 :=
  impl.first+((offset+tableVal.toUInt64)%impl.numEphemeral.toUInt64).toUInt16

/-- The loop of `try_alloc`: the counter that is left, and the port that was found. -/
def tryAllocLoop (isPortAvailable : UInt16 → Except Panic Bool) (offset : UInt64) :
    ℕ → UInt16 → Except Panic (UInt16 × Option UInt16)
  | 0,tableVal => .ok (tableVal,none)
  | n+1,tableVal => do
    let port := portAt impl offset tableVal
    if ← isPortAvailable port then return (tableVal+1,some port)
    else tryAllocLoop isPortAvailable offset n (tableVal+1)

variable {impl} (hmacWithSecret : Id → Secret → UInt64) (p : PortAlloc impl) (id : Id)

def PortAlloc.tableIndex : Fin impl.tableSize :=
  ⟨(hmacWithSecret id p.secretB).toNat%impl.tableSize,Nat.mod_lt _ impl.nonzero⟩

def PortAlloc.tryAlloc (isPortAvailable : Id → UInt16 → Except Panic Bool) :
    Except Panic (PortAlloc impl × Option UInt16) := do
  let i := p.tableIndex hmacWithSecret id
  let (tableVal,port) ← tryAllocLoop impl (isPortAvailable id) (hmacWithSecret id p.secretA)
    impl.numEphemeral (p.table.get i)
  return ({ p with table := p.table.set i tableVal },port)

variable {offset : UInt64} {tableVal port : UInt16} {n i : ℕ}

lemma numEphemeral_eq (h : impl.first ≤ impl.last) : impl.numEphemeral = impl.last.toNat-impl.first.toNat+1 := by
  rw [PortAllocImpl.numEphemeral,UInt16.toNat_sub_of_le _ _ h]

lemma portAt_toNat (h : impl.first ≤ impl.last) : (portAt impl offset tableVal).toNat =
    impl.first.toNat+(offset.toNat+tableVal.toNat)%2^64%impl.numEphemeral := by
  have hnum := numEphemeral_eq h
  have hle := UInt16.le_iff_toNat_le.mp h
  have hlast := impl.last.toNat_lt
  have hmod := Nat.mod_lt ((offset.toNat+tableVal.toNat)%2^64) (show 0 < impl.numEphemeral by omega)
  have hbig : impl.numEphemeral%2^64 = impl.numEphemeral := Nat.mod_eq_of_lt (by omega)
  simp only [portAt,UInt16.toNat_add,UInt64.toNat_toUInt16,UInt64.toNat_mod,UInt64.toNat_add,
    UInt16.toNat_toUInt64,Nat.toUInt64_eq,UInt64.toNat_ofNat',hbig]
  omega

lemma portAt_mem (h : impl.first ≤ impl.last) :
    impl.first ≤ portAt impl offset tableVal ∧ portAt impl offset tableVal ≤ impl.last := by
  rw [UInt16.le_iff_toNat_le,UInt16.le_iff_toNat_le,portAt_toNat h]
  have hnum := numEphemeral_eq h
  have hmod := Nat.mod_lt ((offset.toNat+tableVal.toNat)%2^64) (show 0 < impl.numEphemeral by omega)
  have hle := UInt16.le_iff_toNat_le.mp h
  omega

/-- The offset of the port that is tried in round `i` of the loop. -/
def probe (num : ℕ) (offset : UInt64) (tableVal : UInt16) (i : ℕ) : ℕ :=
  (offset.toNat+(tableVal.toNat+i)%2^16)%2^64%num

/-- No port is tried twice. -/
def Distinct (num : ℕ) (offset : UInt64) (tableVal : UInt16) : Prop :=
  ∀ i < num,∀ j < num,probe num offset tableVal i = probe num offset tableVal j → i = j

instance (num : ℕ) (offset : UInt64) (tableVal : UInt16) : Decidable (Distinct num offset tableVal) :=
  inferInstanceAs (Decidable (∀ i < num,∀ j < num,_ → i = j))

lemma portAt_probe (h : impl.first ≤ impl.last) (i : ℕ) : (portAt impl offset (tableVal+.ofNat i)).toNat =
    impl.first.toNat+probe impl.numEphemeral offset tableVal i := by
  rw [portAt_toNat h,probe,UInt16.toNat_add,UInt16.toNat_ofNat']
  simp

section Loop

variable {isPortAvailable : UInt16 → Except Panic Bool}

lemma tryAllocLoop_eq (h : ∀ tableVal,∃ free,isPortAvailable (portAt impl offset tableVal) = .ok free) (n : ℕ)
    (tableVal : UInt16) : ∃ v found,tryAllocLoop impl isPortAvailable offset n tableVal = .ok (v,found) ∧
      ∀ port,found = some port → isPortAvailable port = .ok true ∧ ∃ u,port = portAt impl offset u := by
  induction n generalizing tableVal with
  | zero => exact ⟨tableVal,none,rfl,by simp⟩
  | succ n ih =>
    obtain ⟨free,hfree⟩ := h tableVal
    rw [tryAllocLoop]
    simp only [hfree,ok_bind]
    cases free with
    | true =>
      refine ⟨_,_,rfl,?_⟩
      rintro port hport
      cases hport
      exact ⟨hfree,_,rfl⟩
    | false => exact ih _

lemma tryAllocLoop_none_iff {available : UInt16 → Bool} (n : ℕ) (tableVal : UInt16) :
    (∃ v,tryAllocLoop impl (fun port => .ok (available port)) offset n tableVal = .ok (v,none)) ↔
      ∀ i < n,available (portAt impl offset (tableVal+.ofNat i)) = false := by
  induction n generalizing tableVal with
  | zero => simp [tryAllocLoop]
  | succ n ih =>
    have hone : ∀ i,1+UInt16.ofNat i = .ofNat (i+1) := by
      intro i
      rw [UInt16.ofNat_add,UInt16.add_comm]
      rfl
    rw [Nat.forall_lt_succ_left,tryAllocLoop]
    have hzero : tableVal+UInt16.ofNat 0 = tableVal := UInt16.add_zero tableVal
    simp only [ok_bind,hzero,← hone,← UInt16.add_assoc]
    cases havailable : available (portAt impl offset tableVal) with
    | true => simp [pure_eq]
    | false => simpa using ih (tableVal+1)

end Loop

/-- A port that is allocated is an available one of the range. That none is allocated only where none of the
range is available is so, for every predicate, just if no port is tried twice. -/
theorem tryAlloc_exact (h : impl.first ≤ impl.last) :
    (∀ available : Id → UInt16 → Bool,∃ p' found,
      p.tryAlloc hmacWithSecret id (fun id port => .ok (available id port)) = .ok (p',found) ∧
        ∀ port,found = some port → (impl.first ≤ port ∧ port ≤ impl.last) ∧ available id port = true) ∧
    ((∀ (available : Id → UInt16 → Bool) (p' : PortAlloc impl),
      p.tryAlloc hmacWithSecret id (fun id port => .ok (available id port)) = .ok (p',none) →
        ∀ port,impl.first ≤ port → port ≤ impl.last → available id port = false) ↔
      Distinct impl.numEphemeral (hmacWithSecret id p.secretA)
        (p.table.get (p.tableIndex hmacWithSecret id))) := by
  have hnum := numEphemeral_eq h
  have hle := UInt16.le_iff_toNat_le.mp h
  have hlast := impl.last.toNat_lt
  generalize htable : p.table.get (p.tableIndex hmacWithSecret id) = tableVal
  generalize hoffset : hmacWithSecret id p.secretA = offset
  have hmaps : Set.MapsTo (probe impl.numEphemeral offset tableVal) (Finset.range impl.numEphemeral)
      (Finset.range impl.numEphemeral) := fun i _ => by
    simpa [probe] using Nat.mod_lt _ (show 0 < impl.numEphemeral by omega)
  have hnone : ∀ available : Id → UInt16 → Bool,
      (∃ p',p.tryAlloc hmacWithSecret id (fun id port => .ok (available id port)) = .ok (p',none)) ↔
        ∀ i < impl.numEphemeral,available id (portAt impl offset (tableVal+.ofNat i)) = false := by
    intro available
    rw [← tryAllocLoop_none_iff]
    simp only [PortAlloc.tryAlloc,htable,hoffset]
    cases tryAllocLoop impl (fun port => .ok (available id port)) offset impl.numEphemeral tableVal with
    | error e => simp [bind,Except.bind]
    | ok r => simp [ok_bind,pure_eq,Prod.ext_iff]
  refine ⟨fun available => ?_,⟨fun hall => ?_,fun hdistinct available p' hp' port hfirst hport => ?_⟩⟩
  · obtain ⟨v,found,hloop,hfound⟩ := @tryAllocLoop_eq impl offset (fun port => .ok (available id port))
      (fun _ => ⟨_,rfl⟩) impl.numEphemeral tableVal
    refine ⟨_,found,by simp only [PortAlloc.tryAlloc,htable,hoffset,hloop,ok_bind]; rfl,fun port hport => ?_⟩
    obtain ⟨havailable,u,rfl⟩ := hfound port hport
    exact ⟨portAt_mem h,by simpa using havailable⟩
  · -- a port that is not tried could be the only one that is available
    have hsurj : Set.SurjOn (probe impl.numEphemeral offset tableVal) (Finset.range impl.numEphemeral)
        (Finset.range impl.numEphemeral) := by
      intro k hk
      rw [Finset.coe_range,Set.mem_Iio] at hk
      by_contra hmiss
      obtain ⟨p',hp'⟩ := (hnone fun _ port => port.toNat = impl.first.toNat+k).mpr fun i hi => by
        rw [decide_eq_false_iff_not,portAt_probe h]
        exact fun heq => hmiss ⟨i,by simpa using hi,by omega⟩
      have hport : (UInt16.ofNat (impl.first.toNat+k)).toNat = impl.first.toNat+k := by
        rw [UInt16.toNat_ofNat']
        omega
      have hfalse := hall _ p' hp' (.ofNat (impl.first.toNat+k))
        (by rw [UInt16.le_iff_toNat_le,hport]; omega) (by rw [UInt16.le_iff_toNat_le,hport]; omega)
      rw [hport] at hfalse
      simp at hfalse
    intro i hi j hj heq
    exact Finset.injOn_of_surjOn_of_card_le _ hmaps hsurj le_rfl (by simpa using hi) (by simpa using hj) heq
  · rw [UInt16.le_iff_toNat_le] at hfirst hport
    have hinj : Set.InjOn (probe impl.numEphemeral offset tableVal) (Finset.range impl.numEphemeral) :=
      fun i hi j hj heq => hdistinct i (by simpa using hi) j (by simpa using hj) heq
    have hmem : port.toNat-impl.first.toNat ∈ (Finset.range impl.numEphemeral : Set ℕ) := by
      rw [Finset.coe_range,Set.mem_Iio]
      omega
    obtain ⟨i,hi,hprobe⟩ := Finset.surjOn_of_injOn_of_card_le _ hmaps hinj le_rfl hmem
    have hfalse := (hnone available).mp ⟨p',hp'⟩ i (by simpa using hi)
    rwa [show portAt impl offset (tableVal+.ofNat i) = port from
      UInt16.toNat_inj.mp (by rw [portAt_probe h,hprobe]; omega)] at hfalse

def sampleImpl (last : UInt16) : PortAllocImpl := ⟨1,Nat.one_pos,1,last⟩

def sample (last : UInt16) : PortAlloc (sampleImpl last) := ⟨#v[65535],.replicate 16 0,.replicate 16 0⟩

theorem tryAlloc_exact_sample : (∃ p',
    (sample 4).tryAlloc (fun _ _ => 0) () (fun _ port => .ok (decide (port = 3))) = .ok (p',some 3) ∧
      3 ≤ (sampleImpl 4).last) ∧ Distinct 3 (-3) 65535 ∧ ∀ (available : UInt16 → Bool) (p' : _),
    (sample 3).tryAlloc (fun _ _ => -3) () (fun _ port => .ok (available port)) = .ok (p',none) →
      available 3 = false := by
  have hfour := tryAlloc_exact (fun _ _ => 0) (sample 4) () (by decide)
  have hthree := tryAlloc_exact (fun _ _ => -3) (sample 3) () (by decide)
  refine ⟨?_,by decide,fun available p' hp' => ?_⟩
  · obtain ⟨p',found,hp',hport⟩ := hfour.1 fun _ port => decide (port = 3)
    obtain rfl : found = some 3 := congrArg (fun r => r.toOption.bind Prod.snd) hp'.symm
    exact ⟨p',hp',(hport 3 rfl).1.2⟩
  · exact hthree.2.mpr (by decide) (fun _ => available) p' hp' 3 (by decide) (by decide)

/-- The counter wraps around in a range of three ports: the first is tried twice, the last never. -/
theorem tryAlloc_misses : ∃ p',(sample 3).tryAlloc (fun _ _ => 0) ()
    (fun _ port => .ok (decide (port = 3))) = .ok (p',none) ∧ ¬Distinct 3 0 65535 :=
  ⟨_,rfl,by decide⟩

end Fuchsia.Netstack.EphemeralPort
