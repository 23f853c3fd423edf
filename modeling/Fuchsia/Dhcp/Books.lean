import Fuchsia.Dhcp.Server

/-! The calls of `fuchsia.net.dhcp.Server` that change the server (`ServerDispatcher` in
`dhcp/src/server.rs`). -/
namespace Fuchsia.Dhcp

open Effect

inductive Status
  | badState
  | invalidArgs
  | internal
  deriving DecidableEq,Repr

inductive Parameter
  | ipAddrs (addrs : List Ipv4Addr)
  | addressPool (managedAddrs : FidlAddressPool)
  | lease (leaseLength : FidlLeaseLength)
  | other (valid : Bool)
  deriving DecidableEq,Repr

namespace Server

abbrev Admin (A : Type) : Type := Effect Server Status A

variable (env : Environment)

def setParams (s : Server) (params : ServerParameters) : Server := { s with params := params }

def saveParams : Admin Unit :=
  if env.saved then modify fun s => s.setStore { s.store with params := some s.params }
  else throw .internal

def storeOptions : Admin Unit :=
  if env.saved then modify fun s => s.setStore { s.store with options := s.optionsRepo }
  else throw .internal

def recordsIsEmpty (s : Server) : Bool := env.order.all fun id => (s.records id).isNone

def dispatchSetParameter : Parameter → Admin Unit
  | .ipAddrs addrs => do
    modify fun s => s.setParams { s.params with serverIps := addrs }
    saveParams env
  | .addressPool managedAddrs => do
    let s ← get
    if ¬ s.recordsIsEmpty env then throw .badState
    else
      match ManagedAddresses.tryFromFidl managedAddrs with
      | none => throw .invalidArgs
      | some managedAddrs => do
        modify fun s => s.setParams { s.params with managedAddrs := managedAddrs }
        modify fun s => s.setPool (.new managedAddrs.poolRange)
        saveParams env
  | .lease leaseLength =>
    match LeaseLength.tryFromFidl leaseLength with
    | none => throw .invalidArgs
    | some leaseLength => do
      modify fun s => s.setParams { s.params with leaseLength := leaseLength }
      saveParams env
  | .other valid => if valid then saveParams env else throw .invalidArgs

def dispatchResetParameters (defaults : ServerParameters) : Admin Unit := do
  modify fun s => s.setParams defaults
  saveParams env

def clearLoop (drained : ClientIdentifier → Option LeaseRecord) : List ClientIdentifier → Admin Unit
  | [] => pure ()
  | id::rest => do
    let s ← get
    match drained id with
    | none => clearLoop drained rest
    | some record => do
      match record.current with
      | none => pure ()
      | some current =>
        match s.pool.releaseAddr current with
        | .error _ => panicked
        | .ok pool => modify fun s => s.setPool pool
      if env.stored id then do
        modify fun s => s.setStore (s.store.setRecord id none)
        clearLoop drained rest
      else throw .internal

/-- The records are gone even when the loop ends early: the iterator that drains the map
removes what is left when it is dropped. -/
def dispatchClearLeases : Admin Unit := do
  let s ← get
  modify fun s => { s with records := fun _ => none }
  clearLoop env s.records env.order

def dispatchSetOption (option : DhcpOption) : Admin Unit := do
  modify fun s => { s with optionsRepo := Function.update s.optionsRepo option.code (some option) }
  storeOptions env

def dispatchResetOptions : Admin Unit := do
  modify fun s => { s with optionsRepo := fun _ => none }
  storeOptions env

end Server

/-! The books of the server: which addresses the pool has allocated, and for what. -/

open Function Option Finset Ends

namespace AddressPool

variable {pool : AddressPool} {addr : Ipv4Addr}

lemma next_eq_some (h : pool.next = some addr) : pool.addrIsAvailable addr := by
  unfold next at h
  split at h
  next hne =>
    have hmem := min'_mem _ hne
    rw [some.inj h] at hmem
    exact mem_sdiff.mp hmem
  next => cases h

lemma next_eq_none (h : pool.next = none) : pool.universeSet ⊆ pool.allocated := by
  unfold next at h
  split at h
  next => cases h
  next hne => exact sdiff_eq_empty_iff_subset.mp (not_nonempty_iff_eq_empty.mp hne)

lemma allocateAddr_of_available (h : pool.addrIsAvailable addr) :
    pool.allocateAddr addr = .ok { pool with allocated := insert addr pool.allocated } := by
  rw [allocateAddr,if_neg (not_not.mpr h.1),if_neg h.2]

lemma releaseAddr_of_allocated (hmanaged : addr ∈ pool.universeSet) (h : addr ∈ pool.allocated) :
    pool.releaseAddr addr = .ok { pool with allocated := pool.allocated.erase addr } := by
  rw [releaseAddr,if_neg (not_not.mpr hmanaged),if_neg (not_not.mpr h)]

end AddressPool

namespace Server

/-- The address that a client has. -/
def current (s : Server) (id : ClientIdentifier) : Option Ipv4Addr :=
  (s.records id).bind LeaseRecord.current

variable {s s' : Server} {id id' : ClientIdentifier} {addr : Ipv4Addr} {record : LeaseRecord}

lemma current_eq_some : s.current id = some addr ↔ ∃ record,s.records id = some record ∧ record.current = some addr := by
  rw [current]
  exact bind_eq_some_iff

structure Booked (s : Server) (extra : Finset Ipv4Addr) : Prop where
  managed : s.pool.allocated ⊆ s.pool.universeSet
  exact : ∀ {addr},addr ∈ s.pool.allocated ↔ (∃ id,s.current id = some addr) ∨ addr ∈ extra
  apart : ∀ {id addr},s.current id = some addr → addr ∉ extra
  single : ∀ {id id' addr},s.current id = some addr → s.current id' = some addr → id = id'

variable {extra : Finset Ipv4Addr}

lemma Booked.allocated (hb : Booked s extra) (hc : s.current id = some addr) :
    addr ∈ s.pool.allocated := hb.exact.mpr (.inl ⟨id,hc⟩)

lemma booked_of_none (hcurrent : ∀ id,s.current id = none) (hmanaged : s.pool.allocated ⊆ s.pool.universeSet)
    (hexact : ∀ addr,addr ∈ s.pool.allocated ↔ addr ∈ extra) : Booked s extra := by
  refine ⟨hmanaged,fun {a} => ?_,fun {id a} hc => ?_,fun {id id' a} hc => ?_⟩
  · rw [hexact]
    simp [hcurrent]
  · simp [hcurrent] at hc
  · simp [hcurrent] at hc

lemma Booked.assign (hb : Booked s extra) (id : ClientIdentifier) (new : Option Ipv4Addr) {extra' : Finset Ipv4Addr}
    (huniverse : s'.pool.universeSet = s.pool.universeSet) (hcurrent : ∀ j,s'.current j = update s.current id new j)
    (hmanaged : ∀ a,a ∈ s'.pool.allocated → a ∈ s.pool.universeSet)
    (hexact : ∀ a,a ∈ s'.pool.allocated ↔ (∃ j,j ≠ id ∧ s.current j = some a) ∨ new = some a ∨ a ∈ extra')
    (hapart : ∀ j a,j ≠ id → s.current j = some a → a ∉ extra' ∧ new ≠ some a) (hnew : ∀ a,new = some a → a ∉ extra') :
    Booked s' extra' := by
  have hother : ∀ {j},j ≠ id → s'.current j = s.current j := fun hj => by rw [hcurrent,update_of_ne hj]
  have hself : s'.current id = new := by rw [hcurrent,update_self]
  refine ⟨fun a ha => huniverse ▸ hmanaged a ha,fun {a} => ?_,fun {j a} hj => ?_,fun {j j' a} hj hj' => ?_⟩
  · rw [hexact]
    constructor
    · rintro (⟨j,hj,hja⟩ | ha | ha)
      · exact .inl ⟨j,hother hj ▸ hja⟩
      · exact .inl ⟨id,hself.trans ha⟩
      · exact .inr ha
    · rintro (⟨j,hj⟩ | ha)
      · by_cases hji : j = id
        · subst hji
          exact .inr (.inl (hself.symm.trans hj))
        · exact .inl ⟨j,hji,hother hji ▸ hj⟩
      · exact .inr (.inr ha)
  · by_cases hji : j = id
    · subst hji
      exact hnew a (hself.symm.trans hj)
    · exact (hapart j a hji (hother hji ▸ hj)).1
  · by_cases hji : j = id <;> by_cases hji' : j' = id
    · rw [hji,hji']
    · subst hji
      exact absurd (hself.symm.trans hj) (hapart j' a hji' (hother hji' ▸ hj')).2
    · subst hji'
      exact absurd (hself.symm.trans hj') (hapart j a hji (hother hji ▸ hj)).2
    · exact hb.single (hother hji ▸ hj) (hother hji' ▸ hj')

lemma current_setRecord (s : Server) (id : ClientIdentifier) (r : Option LeaseRecord) (j : ClientIdentifier) :
    (s.setRecord id r).current j = update s.current id (r.bind LeaseRecord.current) j := by
  simp only [current,setRecord]
  by_cases hj : j = id
  · rw [hj,update_self,update_self]
  · rw [update_of_ne hj,update_of_ne hj]
    rfl

def released (s : Server) (id : ClientIdentifier) (record : LeaseRecord) (addr : Ipv4Addr) : Server :=
  (s.setRecord id (some { record with current := none,previous := some addr })).setPool
    { s.pool with allocated := s.pool.allocated.erase addr }

lemma Booked.released (hb : Booked s extra) (hc : s.current id = some addr) :
    Booked (s.released id record addr) extra := by
  refine hb.assign id none rfl (current_setRecord s id _) ?_ ?_ ?_ nofun
  · intro a ha
    exact hb.managed (mem_of_mem_erase ha)
  · intro a
    change a ∈ s.pool.allocated.erase addr ↔ _
    rw [mem_erase,hb.exact]
    constructor
    · rintro ⟨hne,⟨j,hj⟩ | ha⟩
      · refine .inl ⟨j,?_,hj⟩
        rintro rfl
        exact hne (some.inj (hj.symm.trans hc))
      · exact .inr (.inr ha)
    · rintro (⟨j,hj,hja⟩ | ha | ha)
      · refine ⟨?_,.inl ⟨j,hja⟩⟩
        rintro rfl
        exact hj (hb.single hja hc)
      · cases ha
      · refine ⟨?_,.inr ha⟩
        rintro rfl
        exact hb.apart hc ha
  · exact fun j a _ hj => ⟨hb.apart hj,nofun⟩

lemma Booked.congr (hb : Booked s extra) (hrecords : s'.records = s.records) (hpool : s'.pool = s.pool) :
    Booked s' extra := by
  have hcurrent : s'.current = s.current := by
    funext id
    rw [current,hrecords,current]
  refine ⟨?_,?_,?_,?_⟩
  · rw [hpool]
    exact hb.managed
  · rw [hpool,hcurrent]
    exact hb.exact
  · rw [hcurrent]
    exact hb.apart
  · rw [hcurrent]
    exact hb.single

/-- The data store has the records, the options and the parameters of the server. -/
structure Stored (s : Server) : Prop where
  records : s.store.records = s.records
  options : s.store.options = s.optionsRepo
  params : s.store.params = some s.params

/-- The data store takes every operation. -/
def Reliable (env : Environment) : Prop := (∀ id,env.stored id = true) ∧ env.saved = true

def Keeps (env : Environment) (s s' : Server) : Prop := Reliable env → Stored s → Stored s'

variable {env : Environment} {panics : Prop}

lemma Keeps.refl (env : Environment) (s : Server) : Keeps env s s := fun _ hs => hs

lemma Keeps.trans {s'' : Server} (h : Keeps env s s') (h' : Keeps env s' s'') : Keeps env s s'' :=
  fun hreliable hs => h' hreliable (h hreliable hs)

lemma Stored.setRecord {r : Option LeaseRecord} (hs : Stored s) (hrecords : s'.records = update s.records id r)
    (hoptions : s'.optionsRepo = s.optionsRepo) (hparams : s'.params = s.params)
    (hstore : s'.store = s.store.setRecord id r) : Stored s' := by
  refine ⟨?_,?_,?_⟩
  · rw [hstore,hrecords,← hs.records]
    rfl
  · rw [hstore,hoptions]
    exact hs.options
  · rw [hstore,hparams]
    exact hs.params

/-- What `release_leased_addr` leaves, whether or not the data store takes the record. -/
def Releases (env : Environment) (s : Server) (id : ClientIdentifier) (record : LeaseRecord) (addr : Ipv4Addr)
    (s' : Server) : Prop :=
  (∃ store,s' = (s.released id record addr).setStore store) ∧ Keeps env s s'

lemma releaseLeasedAddr_ends (hb : Booked s extra)
    (hrecord : s.records id = some record) (hcurrent : record.current = some addr) :
    Ends panics (releaseLeasedAddr env id) s (fun _ s' => Releases env s id record addr s')
      (fun e s' => e = .dataStoreUpdateFailure .storeFailed ∧ Releases env s id record addr s') := by
  have hc : s.current id = some addr := current_eq_some.mpr ⟨record,hrecord,hcurrent⟩
  have halloc := hb.allocated hc
  apply Ends.get_bind
  simp only [hrecord,hcurrent]
  apply Ends.modify_bind
  simp only [AddressPool.releaseAddr_of_allocated (hb.managed halloc) halloc]
  apply Ends.modify_bind
  rw [storeRecord]
  split
  · exact modify ⟨⟨_,rfl⟩,fun _ hs => hs.setRecord rfl rfl rfl rfl⟩
  · next hstore => exact throw ⟨rfl,⟨_,rfl⟩,fun hreliable _ => absurd (hreliable.1 id) hstore⟩

lemma Releases.booked (h : Releases env s id record addr s') (hb : Booked s extra) (hc : s.current id = some addr) :
    Booked s' extra := by
  obtain ⟨⟨store,rfl⟩,-⟩ := h
  exact (hb.released hc).congr rfl rfl

structure Expires (now : ℕ) (s s' : Server) : Prop where
  params : s'.params = s.params
  optionsRepo : s'.optionsRepo = s.optionsRepo
  universeSet : s'.pool.universeSet = s.pool.universeSet
  records : ∀ id,s'.records id = s.records id ∨ ∃ record addr,s.records id = some record ∧
    record.current = some addr ∧ record.expired now ∧
    s'.records id = some { record with current := none,previous := some addr }

lemma Expires.refl (now : ℕ) (s : Server) : Expires now s s := ⟨rfl,rfl,rfl,fun _ => .inl rfl⟩

variable {now : ℕ}

lemma Expires.trans {s'' : Server} (h : Expires now s s') (h' : Expires now s' s'') : Expires now s s'' := by
  refine ⟨h'.params.trans h.params,h'.optionsRepo.trans h.optionsRepo,h'.universeSet.trans h.universeSet,fun id => ?_⟩
  obtain heq' | ⟨record,addr,hrecord,hcurrent,hexpired,hreleased⟩ := h'.records id
  · rw [heq']
    exact h.records id
  · obtain heq | ⟨record',addr',hrecord',hcurrent',hexpired',hreleased'⟩ := h.records id
    · exact .inr ⟨record,addr,heq ▸ hrecord,hcurrent,hexpired,hreleased⟩
    · rw [hrecord] at hreleased'
      cases some.inj hreleased'
      cases hcurrent

lemma Releases.expires (h : Releases env s id record addr s') (hrecord : s.records id = some record)
    (hcurrent : record.current = some addr) (hexpired : record.expired now) : Expires now s s' := by
  obtain ⟨⟨store,rfl⟩,-⟩ := h
  refine ⟨rfl,rfl,rfl,fun j => ?_⟩
  change update s.records id _ j = _ ∨ _
  by_cases hj : j = id
  · subst hj
    exact .inr ⟨record,addr,hrecord,hcurrent,hexpired,update_self _ _ _⟩
  · rw [update_of_ne hj]
    exact .inl rfl

/-- No record in the list has an address with an expired lease. -/
def NoneExpired (now : ℕ) (s : Server) (ids : List ClientIdentifier) : Prop :=
  ∀ id ∈ ids,∀ record,s.records id = some record → record.current ≠ none → ¬ record.expired now

variable {ids : List ClientIdentifier}

lemma NoneExpired.expires (h : NoneExpired now s ids) (hs : Expires now s s') : NoneExpired now s' ids := by
  intro id hid record hrecord hcurrent
  obtain heq | ⟨r,a,hr,hc,he,hrel⟩ := hs.records id
  · exact h id hid record (heq ▸ hrecord) hcurrent
  · rw [hrel] at hrecord
    cases hrecord
    exact absurd rfl hcurrent

lemma releaseExpired_ends (hb : Booked s extra) : Ends panics (releaseExpired env ids) s
      (fun _ s' => Booked s' extra ∧ Expires env.now s s' ∧ Keeps env s s' ∧ NoneExpired env.now s' ids)
      (fun _ _ => False) := by
  induction ids generalizing s with
  | nil => exact pure ⟨hb,.refl _ _,.refl _ _,nofun⟩
  | cons id rest ih =>
    have hnext : ∀ {s1 : Server},Booked s1 extra → Expires env.now s s1 → Keeps env s s1 →
        (∀ record,s1.records id = some record → record.current ≠ none → ¬ record.expired env.now) →
        Ends panics (releaseExpired env rest) s1
          (fun _ s' => Booked s' extra ∧ Expires env.now s s' ∧ Keeps env s s' ∧ NoneExpired env.now s' (id::rest))
          (fun _ _ => False) := by
      intro s1 hb1 hs1 hkeeps1 hid
      refine (ih hb1).mono (fun _ s' h => ?_) (fun _ _ h => h)
      obtain ⟨hb',hs',hkeeps',hnone⟩ := h
      have hone : NoneExpired env.now s1 [id] := List.forall_mem_singleton.mpr hid
      exact ⟨hb',hs1.trans hs',hkeeps1.trans hkeeps',List.forall_mem_cons.mpr ⟨hone.expires hs' id (List.mem_singleton_self id),hnone⟩⟩
    apply Ends.get_bind
    cases hrecord : s.records id with
    | none =>
      simp only
      refine hnext hb (.refl _ _) (.refl _ _) fun record hr => ?_
      rw [hrecord] at hr
      cases hr
    | some record =>
      simp only
      by_cases hcond : record.current.isSome ∧ record.expired env.now
      · rw [if_pos hcond]
        obtain ⟨addr,haddr⟩ := isSome_iff_exists.mp hcond.1
        have hc : s.current id = some addr := current_eq_some.mpr ⟨record,hrecord,haddr⟩
        have hrest : ∀ {s1 : Server},Releases env s id record addr s1 → Ends panics (releaseExpired env rest) s1
            (fun _ s' => Booked s' extra ∧ Expires env.now s s' ∧ Keeps env s s' ∧ NoneExpired env.now s' (id::rest))
            (fun _ _ => False) := by
          intro s1 h
          refine hnext (h.booked hb hc) (h.expires hrecord haddr hcond.2) h.2 fun r hr hcur => ?_
          obtain ⟨⟨store,rfl⟩,-⟩ := h
          change update s.records id _ id = some r at hr
          rw [update_self] at hr
          cases hr
          exact absurd rfl hcur
        apply attempt_bind
        refine (releaseLeasedAddr_ends hb hrecord haddr).mono ?_ ?_
        · intro _ _ h
          exact hrest h
        · rintro _ _ ⟨rfl,h⟩
          exact hrest h
      · rw [if_neg hcond]
        refine hnext hb (.refl _ _) (.refl _ _) fun r hr hcur hexp => hcond ?_
        rw [hrecord] at hr
        cases hr
        exact ⟨isSome_iff_ne_none.mpr hcur,hexp⟩

end Server

end Fuchsia.Dhcp
