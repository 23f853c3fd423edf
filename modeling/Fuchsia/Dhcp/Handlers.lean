import Fuchsia.Dhcp.Books
import Fuchsia.Lib.Fallible

/-! What the handlers of client messages do to the books. -/
namespace Fuchsia.Dhcp.Server

open Effect Function Finset AddressPool

variable {panics : Prop} {env : Environment} {s s' : Server} {id : ClientIdentifier} {addr : Ipv4Addr}
  {extra : Finset Ipv4Addr} {msg : Message}

/-- The iteration has every record. -/
def Iterated (env : Environment) (s : Server) : Prop :=
  env.order.Nodup ∧ ∀ id,s.records id ≠ none → id ∈ env.order

/-- The options in the repository that an offer reads the times from are under their codes. -/
def Coded (s : Server) : Prop := ∀ code opt,code = .renewalTimeValue ∨ code = .rebindingTimeValue →
    s.optionsRepo code = some opt → opt.code = code

def Offerable (s : Server) (id : ClientIdentifier) (addr : Ipv4Addr) : Prop :=
  s.current id = some addr ∨ s.current id = none ∧ s.pool.addrIsAvailable addr

lemma Expires.records_of_none {now : ℕ} (h : Expires now s s') (hc : s.current id = none) :
    s'.records id = s.records id := by
  obtain heq | ⟨record,a,hrecord,hcurrent,-,-⟩ := h.records id
  · exact heq
  · rw [current_eq_some.mpr ⟨record,hrecord,hcurrent⟩] at hc
    cases hc

/-- The server while an address is looked for: leases are released for a client without an
address, when none is available. -/
structure Searched (env : Environment) (s : Server) (id : ClientIdentifier) (extra : Finset Ipv4Addr)
    (s' : Server) : Prop where
  booked : Booked s' extra
  expires : Expires env.now s s'
  keeps : Keeps env s s'
  reclaims : s' = s ∨ s.current id = none ∧ s.pool.next = none

lemma Searched.refl (hb : Booked s extra) : Searched env s id extra s :=
  ⟨hb,.refl _ _,.refl _ _,.inl rfl⟩

structure Exhausted (env : Environment) (s : Server) (id : ClientIdentifier) (s' : Server) : Prop where
  none : s.current id = none
  full : s'.pool.universeSet ⊆ s'.pool.allocated
  expired : NoneExpired env.now s' env.order

lemma offerAny_ends (hb : Booked s extra) (hc : s.current id = none) :
    Ends panics (offerAny env) s (fun a s' => Searched env s id extra s' ∧ Offerable s' id a)
      (fun _ s' => Searched env s id extra s' ∧ Exhausted env s id s') := by
  apply Ends.get_bind
  cases hnext : s.pool.next with
  | some a => exact Ends.pure ⟨.refl hb,.inr ⟨hc,next_eq_some hnext⟩⟩
  | none =>
    simp only
    apply Ends.bind
    refine (releaseExpired_ends hb).mono (fun _ s1 h => ?_) (fun _ _ h => h.elim)
    obtain ⟨hb1,hs1,hkeeps1,hnone⟩ := h
    have hsearched : Searched env s id extra s1 := ⟨hb1,hs1,hkeeps1,.inr ⟨hc,hnext⟩⟩
    apply Ends.get_bind
    cases hnext1 : s1.pool.next with
    | some a =>
      exact Ends.pure ⟨hsearched,.inr ⟨by rw [current,hs1.records_of_none hc]; exact hc,next_eq_some hnext1⟩⟩
    | none =>
      exact Ends.throw ⟨hsearched,hc,next_eq_none hnext1,hnone⟩

lemma offerRequested_ends (hb : Booked s extra) (hc : s.current id = none) : Ends panics (offerRequested env msg) s
      (fun a s' => Searched env s id extra s' ∧ Offerable s' id a)
      (fun _ s' => Searched env s id extra s' ∧ Exhausted env s id s') := by
  apply Ends.get_bind
  cases msg.getRequestedIpAddr with
  | none => exact offerAny_ends hb hc
  | some a =>
    simp only
    split_ifs with ha
    · exact Ends.pure ⟨.refl hb,.inr ⟨hc,ha⟩⟩
    · exact offerAny_ends hb hc

lemma Searched.same (h : Searched env s id extra s') : s'.records id = s.records id := by
  obtain rfl | ⟨hc,-⟩ := h.reclaims
  · rfl
  · exact h.expires.records_of_none hc

lemma getOffered_ends (hb : Booked s extra) : Ends panics (getOffered env msg) s
      (fun a s' => Searched env s msg.clientIdentifier extra s' ∧ Offerable s' msg.clientIdentifier a)
      (fun _ s' => Searched env s msg.clientIdentifier extra s' ∧ Exhausted env s msg.clientIdentifier s') := by
  apply Ends.get_bind
  cases hrecord : s.records msg.clientIdentifier with
  | none => exact offerRequested_ends hb (by rw [current,hrecord]; rfl)
  | some record =>
    cases hcurrent : record.current with
    | some a =>
      have hc : s.current msg.clientIdentifier = some a := current_eq_some.mpr ⟨record,hrecord,hcurrent⟩
      simp only [hcurrent]
      rw [if_pos (hb.allocated hc)]
      exact Ends.pure ⟨.refl hb,.inl hc⟩
    | none =>
      have hc : s.current msg.clientIdentifier = none := by
        rw [current,hrecord]
        exact hcurrent
      cases hprevious : record.previous with
      | none =>
        simp only [hcurrent,hprevious]
        exact offerRequested_ends hb hc
      | some a =>
        simp only [hcurrent,hprevious]
        split_ifs with ha
        · exact Ends.pure ⟨.refl hb,.inr ⟨hc,ha⟩⟩
        · exact offerRequested_ends hb hc

structure IsOffer (s : Server) (disc : Message) (addr : Ipv4Addr) (offer : Message) : Prop where
  yiaddr : offer.yiaddr = addr
  type : offer.getDhcpType = .ok .dhcpoffer
  leaseTime : leaseTime offer.options = some (s.offeredLeaseTime disc)

lemma repoTime_isSome {code : OptionCode} {value : DhcpOption → Option ℕ} {default : ℕ} (hcoded : Coded s)
    (hcode : code = .renewalTimeValue ∨ code = .rebindingTimeValue)
    (hvalue : ∀ opt : DhcpOption,opt.code = code → (value opt).isSome) : (s.repoTime code value default).isSome := by
  unfold repoTime
  cases hopt : s.optionsRepo code with
  | none => rfl
  | some opt => exact hvalue opt (hcoded code opt hcode hopt)

lemma times_isSome (hcoded : Coded s) (leaseLength : ℕ) :
    (s.renewalTime leaseLength).isSome ∧ (s.rebindingTime leaseLength).isSome := by
  constructor
  all_goals
    refine repoTime_isSome hcoded (by simp) fun opt hopt => ?_
    cases opt <;> first | rfl | cases hopt

/-- The answer that no address is left. -/
def exhaustion : ServerError := .serverAddressPoolFailure .ipv4AddrExhaustion

variable {e : ServerError}

lemma getServerIp_ne_exhaustion (h : s.getServerIp msg = .error e) : e ≠ exhaustion := by
  unfold getServerIp at h
  split at h
  · split_ifs at h
    cases h
    exact nofun
  · split at h <;> cases h
    exact nofun

lemma buildOffer_ends (hcoded : panics ∨ Coded s) :
    Ends panics (buildOffer msg addr) s (fun offer s' => s' = s ∧ IsOffer s msg addr offer)
      (fun e s' => s' = s ∧ e ≠ exhaustion) := by
  apply Ends.get_bind
  cases hip : s.getServerIp msg with
  | error e => exact ⟨rfl,getServerIp_ne_exhaustion hip⟩
  | ok serverIp =>
    apply Ends.bind
    refine Ends.pure ?_
    cases hrenewal : s.renewalTime (s.offeredLeaseTime msg) with
    | none =>
      simp only [hrenewal]
      exact Ends.panicked (hcoded.resolve_right fun hcoded => by
        simpa [hrenewal] using (times_isSome hcoded (s.offeredLeaseTime msg)).1)
    | some renewal =>
      cases hrebinding : s.rebindingTime (s.offeredLeaseTime msg) with
      | none =>
        simp only [hrenewal,hrebinding]
        exact Ends.panicked (hcoded.resolve_right fun hcoded => by
          simpa [hrebinding] using (times_isSome hcoded (s.offeredLeaseTime msg)).2)
      | some rebinding =>
        simp only [hrenewal,hrebinding]
        exact Ends.pure ⟨rfl,rfl,rfl,rfl⟩

structure Leased (env : Environment) (s : Server) (id : ClientIdentifier) (addr : Ipv4Addr)
    (seconds : ℕ) (s' : Server) : Prop where
  params : s'.params = s.params
  optionsRepo : s'.optionsRepo = s.optionsRepo
  universeSet : s'.pool.universeSet = s.pool.universeSet
  records : ∃ record,s'.records = update s.records id (some record) ∧ record.current = some addr ∧
    record.leaseStartEpochSeconds = env.later/second ∧ record.leaseLengthSeconds = seconds ∧
    leaseTime record.options = some seconds
  keeps : Keeps env s s'

structure Leaked (env : Environment) (s : Server) (id : ClientIdentifier) (s' : Server) : Prop where
  params : s'.params = s.params
  optionsRepo : s'.optionsRepo = s.optionsRepo
  universeSet : s'.pool.universeSet = s.pool.universeSet
  records : s'.records = s.records
  store : env.stored id = false

lemma leaseTime_filter (options : List DhcpOption) :
    leaseTime (options.filter fun opt => opt.code ≠ .dhcpMessageType) = leaseTime options := by
  induction options with
  | nil => rfl
  | cons opt rest ih =>
    simp only [leaseTime] at ih ⊢
    cases opt <;> simp_all [DhcpOption.code]

variable {record : LeaseRecord}

lemma Booked.leased (hb : Booked s extra) (ho : Offerable s id addr)
    (hrecords : s'.records = update s.records id (some record))
    (hrecord : record.current = some addr) (huniverse : s'.pool.universeSet = s.pool.universeSet)
    (halloc : s'.pool.allocated = insert addr s.pool.allocated) : Booked s' extra := by
  have hcurrent : ∀ j,s'.current j = update s.current id (some addr) j := by
    intro j
    have := current_setRecord s id (some record) j
    rw [Option.bind_some,hrecord] at this
    rw [← this,current,hrecords]
    rfl
  have hnot : ∀ j,j ≠ id → s.current j ≠ some addr := by
    intro j hj hja
    obtain hc | ⟨-,hav⟩ := ho
    · exact hj (hb.single hja hc)
    · exact hav.2 (hb.allocated hja)
  refine hb.assign id (some addr) huniverse hcurrent ?_ ?_ ?_ ?_
  · intro a ha
    rw [halloc,mem_insert] at ha
    obtain rfl | ha := ha
    · obtain hc | ⟨-,hav⟩ := ho
      · exact hb.managed (hb.allocated hc)
      · exact hav.1
    · exact hb.managed ha
  · intro a
    rw [halloc,mem_insert,hb.exact]
    constructor
    · rintro (rfl | ⟨j,hj⟩ | ha)
      · exact .inr (.inl rfl)
      · by_cases hji : j = id
        · subst hji
          obtain hc | ⟨hc,-⟩ := ho
          · exact .inr (.inl (hc.symm.trans hj))
          · rw [hc] at hj
            cases hj
        · exact .inl ⟨j,hji,hj⟩
      · exact .inr (.inr ha)
    · rintro (⟨j,-,hj⟩ | ha | ha)
      · exact .inr (.inl ⟨j,hj⟩)
      · exact .inl (Option.some.inj ha).symm
      · exact .inr (.inr ha)
  · intro j a hj hja
    refine ⟨hb.apart hja,fun heq => hnot j hj ?_⟩
    rw [heq]
    exact hja
  · intro a ha
    cases ha
    obtain hc | ⟨-,hav⟩ := ho
    · exact hb.apart hc
    · exact fun ha => hav.2 (hb.exact.mpr (.inr ha))

lemma Booked.leaked (hb : Booked s extra) (hav : s.pool.addrIsAvailable addr)
    (huniverse : s'.pool.universeSet = s.pool.universeSet) (halloc : s'.pool.allocated = insert addr s.pool.allocated)
    (hrecords : s'.records = s.records) : Booked s' (insert addr extra) := by
  have hcurrent : ∀ j,s'.current j = s.current j := fun j => by rw [current,hrecords,current]
  refine ⟨fun a ha => ?_,fun {a} => ?_,fun {j a} hj => ?_,fun {j j' a} hj hj' => ?_⟩
  · rw [halloc,mem_insert] at ha
    rw [huniverse]
    obtain rfl | ha := ha
    · exact hav.1
    · exact hb.managed ha
  · simp only [halloc,mem_insert,hb.exact,hcurrent]
    tauto
  · rw [hcurrent] at hj
    rw [mem_insert,not_or]
    refine ⟨?_,hb.apart hj⟩
    rintro rfl
    exact hav.2 (hb.allocated hj)
  · exact hb.single (hcurrent j ▸ hj) (hcurrent j' ▸ hj')

lemma storeClientRecord_ends {opts : List DhcpOption} {seconds : ℕ} (hb : Booked s extra) (ho : Offerable s id addr)
    (hopts : leaseTime opts = some seconds) : Ends panics (storeClientRecord env addr id opts) s
      (fun _ s' => Booked s' extra ∧ Leased env s id addr seconds s') (fun e s' => e ≠ exhaustion ∧ Leaked env s id s' ∧
        (Booked s' extra ∨ s.current id = none ∧ Booked s' (insert addr extra))) := by
  rw [storeClientRecord,hopts]
  simp only
  apply Ends.get_bind
  have hoptions := (leaseTime_filter opts).trans hopts
  obtain hc | ⟨hc,hav⟩ := ho
  · have hbind : (s.records id).bind LeaseRecord.current = some addr := hc
    simp only [hbind]
    rw [if_pos trivial,storeRecord]
    apply Ends.bind
    split
    · refine Ends.modify (Ends.modify ?_)
      have hinsert : insert addr s.pool.allocated = s.pool.allocated := insert_eq_of_mem (hb.allocated hc)
      refine ⟨hb.leased (.inl hc) rfl rfl rfl hinsert.symm,rfl,rfl,rfl,⟨_,rfl,rfl,rfl,rfl,hoptions⟩,?_⟩
      exact fun _ hs => hs.setRecord rfl rfl rfl rfl
    · next hstore =>
      exact Ends.throw ⟨(fun h => by cases h),⟨rfl,rfl,rfl,rfl,by simpa using hstore⟩,.inl hb⟩
  · have hbind : (s.records id).bind LeaseRecord.current = none := hc
    simp only [hbind,allocateAddr_of_available hav]
    apply Ends.modify_bind
    rw [storeRecord]
    apply Ends.bind
    split
    · refine Ends.modify (Ends.modify ?_)
      refine ⟨hb.leased (.inr ⟨hc,hav⟩) rfl rfl rfl rfl,rfl,rfl,rfl,⟨_,rfl,rfl,rfl,rfl,hoptions⟩,?_⟩
      exact fun _ hs => hs.setRecord rfl rfl rfl rfl
    · next hstore =>
      refine Ends.throw ⟨(fun h => by cases h),⟨rfl,rfl,rfl,rfl,by simpa using hstore⟩,.inr ⟨hc,?_⟩⟩
      exact hb.leaked hav rfl rfl rfl

structure Offered (env : Environment) (s : Server) (extra : Finset Ipv4Addr) (msg : Message)
    (action : ServerAction) (s' : Server) (addr : Ipv4Addr) (s₁ : Server) : Prop where
  searched : Searched env s msg.clientIdentifier extra s₁
  offerable : Offerable s₁ msg.clientIdentifier addr
  same : s₁.records msg.clientIdentifier = s.records msg.clientIdentifier
  leased : Leased env s₁ msg.clientIdentifier addr (s₁.offeredLeaseTime msg) s'
  booked : Booked s' extra
  offer : ∃ offer,action = .sendResponse offer (getDestination msg addr) ∧ IsOffer s₁ msg addr offer

structure NotOffered (env : Environment) (s : Server) (extra : Finset Ipv4Addr) (msg : Message)
    (e : ServerError) (s' : Server) (s₁ : Server) : Prop where
  searched : Searched env s msg.clientIdentifier extra s₁
  kept : s' = s₁ ∨ Leaked env s₁ msg.clientIdentifier s'
  exhausted : e = exhaustion → s' = s₁ ∧ Exhausted env s msg.clientIdentifier s₁
  booked : Booked s' extra ∨ s.current msg.clientIdentifier = none ∧
    env.stored msg.clientIdentifier = false ∧ ∃ addr,Booked s' (insert addr extra)

lemma requireUnspecified_ne_exhaustion {field : String}
    (h : requireUnspecified field addr = .error e) : e ≠ exhaustion := by
  unfold requireUnspecified at h
  split_ifs at h
  cases h
  exact nofun

lemma validateDiscover_ne_exhaustion (h : validateDiscover msg = .error e) : e ≠ exhaustion := by
  unfold validateDiscover at h
  split_ifs at h
  · cases h
    exact nofun
  · iterate 3
      obtain h | ⟨-,-,h⟩ := Fallible.bind_eq_error.mp h
      · exact requireUnspecified_ne_exhaustion h
    split at h <;> cases h
    exact nofun

lemma Searched.coded (h : Searched env s id extra s') (hcoded : Coded s) : Coded s' := by
  rw [Coded,h.expires.optionsRepo]
  exact hcoded

lemma handleDiscover_ends (hb : Booked s extra) (hcoded : panics ∨ Coded s) : Ends panics (handleDiscover env msg) s
      (fun action s' => ∃ addr s1,Offered env s extra msg action s' addr s1)
      (fun e s' => ∃ s1,NotOffered env s extra msg e s' s1) := by
  apply Ends.bind
  cases hvalid : validateDiscover msg with
  | error e =>
    refine Ends.throw ⟨s,.refl hb,.inl rfl,fun he => ?_,.inl hb⟩
    exact absurd he (validateDiscover_ne_exhaustion hvalid)
  | ok =>
    refine Ends.pure (Ends.bind ?_)
    refine (getOffered_ends hb).mono (fun addr s1 h => ?_) (fun e s1 h => ?_)
    · obtain ⟨hsearched,ho⟩ := h
      apply Ends.bind
      refine (buildOffer_ends (hcoded.imp_right hsearched.coded)).mono (fun offer s2 h => ?_) (fun e s2 h => ?_)
      · obtain ⟨rfl,hoffer⟩ := h
        apply Ends.bind
        refine (storeClientRecord_ends hsearched.booked ho hoffer.leaseTime).mono (fun _ s3 h => ?_) (fun e s3 h => ?_)
        · exact Ends.pure ⟨addr,s2,hsearched,ho,hsearched.same,h.2,h.1,offer,rfl,hoffer⟩
        · obtain ⟨hne,hleaked,hbooked⟩ := h
          refine ⟨s2,hsearched,.inr hleaked,fun he => absurd he hne,?_⟩
          obtain hbooked | ⟨hnone,hbooked⟩ := hbooked
          · exact .inl hbooked
          · refine .inr ⟨?_,hleaked.store,addr,hbooked⟩
            rw [current,← hsearched.same]
            exact hnone
      · obtain ⟨rfl,hne⟩ := h
        exact ⟨s2,hsearched,.inl rfl,fun he => absurd he hne,.inl hsearched.booked⟩
    · obtain ⟨hsearched,hexhausted⟩ := h
      exact ⟨s1,hsearched,.inl rfl,fun _ => ⟨rfl,hexhausted⟩,.inl hsearched.booked⟩

structure Declined (env : Environment) (s : Server) (id : ClientIdentifier) (addr : Ipv4Addr) (s' : Server) :
    Prop where
  current : s.current id = some addr
  eq : ∃ store,s' = (s.setRecord id none).setStore store
  keeps : Keeps env s s'

lemma Declined.booked (h : Declined env s id addr s') (hb : Booked s extra) : Booked s' (insert addr extra) := by
  have hc := h.current
  obtain ⟨-,⟨store,rfl⟩,-⟩ := h
  refine hb.assign id none rfl (current_setRecord s id none)
    (fun a ha => hb.managed ha) (fun a => ?_) (fun j a hj hja => ?_) nofun
  · change a ∈ s.pool.allocated ↔ _
    rw [hb.exact,mem_insert]
    constructor
    · rintro (⟨j,hj⟩ | ha)
      · by_cases hji : j = id
        · subst hji
          exact .inr (.inr (.inl (Option.some.inj (hj.symm.trans hc))))
        · exact .inl ⟨j,hji,hj⟩
      · exact .inr (.inr (.inr ha))
    · rintro (⟨j,-,hj⟩ | ha | rfl | ha)
      · exact .inl ⟨j,hj⟩
      · cases ha
      · exact .inl ⟨id,hc⟩
      · exact .inr ha
  · rw [mem_insert,not_or]
    refine ⟨⟨?_,hb.apart hja⟩,nofun⟩
    rintro rfl
    exact hj (hb.single hja hc)

lemma handleDecline_ends (hb : Booked s extra) :
    Ends panics (handleDecline env msg) s (fun action s' => ∃ addr,action = .addressDecline addr ∧
        msg.getRequestedIpAddr = some addr ∧ Declined env s msg.clientIdentifier addr s')
      (fun e s' => s' = s ∧ (∀ e',e ≠ .dataStoreUpdateFailure e') ∨
        (∃ e',e = .dataStoreUpdateFailure e') ∧ ∃ addr,msg.getRequestedIpAddr = some addr ∧
          Declined env s msg.clientIdentifier addr s') := by
  apply Ends.get_bind
  cases hrequested : msg.getRequestedIpAddr with
  | none => exact Ends.throw (.inl ⟨rfl,fun _ h => by cases h⟩)
  | some addr =>
    simp only
    by_cases hrecipient : isRecipient s.params.serverIps msg = true
    · rw [if_neg (not_not.mpr hrecipient)]
      cases hrecord : s.records msg.clientIdentifier with
      | none => exact Ends.throw (.inl ⟨rfl,fun _ h => by cases h⟩)
      | some record =>
        simp only
        by_cases hcurrent : record.current = some addr
        · have hc : s.current msg.clientIdentifier = some addr :=
            current_eq_some.mpr ⟨record,hrecord,hcurrent⟩
          have halloc := hb.allocated hc
          have hpool : allocateDeclined s.pool addr = .ok s.pool := by
            simp [allocateDeclined,allocateAddr,hb.managed halloc,halloc]
          rw [if_neg (not_not.mpr hcurrent),hpool]
          apply Ends.bind
          refine Ends.pure (Ends.modify_bind (Ends.modify_bind (Ends.bind ?_)))
          rw [storeRecord]
          split
          · refine Ends.modify (Ends.pure ⟨addr,rfl,rfl,hc,⟨_,rfl⟩,?_⟩)
            exact fun _ hs => hs.setRecord rfl rfl rfl rfl
          · next hstore =>
            refine Ends.throw (.inr ⟨⟨_,rfl⟩,addr,rfl,hc,⟨_,rfl⟩,?_⟩)
            exact fun hreliable _ => absurd (hreliable.1 _) hstore
        · rw [if_pos hcurrent]
          exact Ends.throw (.inl ⟨rfl,fun _ h => by cases h⟩)
    · rw [if_pos hrecipient]
      cases msg.getServerId with
      | none | some server => exact Ends.throw (.inl ⟨rfl,fun _ h => by cases h⟩)

structure Released (env : Environment) (s : Server) (id : ClientIdentifier) (addr : Ipv4Addr) (s' : Server) :
    Prop where
  current : s.current id = some addr
  releases : ∃ record,s.records id = some record ∧ Releases env s id record addr s'

lemma handleRelease_ends (hb : Booked s extra) (hrelease : panics ∨
      ∀ record,s.records msg.clientIdentifier = some record → record.current ≠ none) :
    Ends panics (handleRelease env msg) s (fun action s' => action = .addressRelease msg.ciaddr ∧
        ∃ addr,Released env s msg.clientIdentifier addr s')
      (fun _ s' => s' = s ∨ ∃ addr,Released env s msg.clientIdentifier addr s') := by
  apply Ends.get_bind
  cases hrecord : s.records msg.clientIdentifier with
  | none => exact Ends.throw (.inl rfl)
  | some record =>
    cases hcurrent : record.current with
    | none =>
      apply Ends.bind
      apply Ends.get_bind
      simp only [hrecord,hcurrent]
      exact Ends.panicked (hrelease.resolve_right fun h => h record hrecord hcurrent)
    | some addr =>
      have hc : s.current msg.clientIdentifier = some addr :=
        current_eq_some.mpr ⟨record,hrecord,hcurrent⟩
      apply Ends.bind
      refine (releaseLeasedAddr_ends hb hrecord hcurrent).mono ?_ ?_
      · intro _ _ h
        exact Ends.pure ⟨rfl,addr,hc,record,hrecord,h⟩
      · rintro _ _ ⟨-,h⟩
        exact .inr ⟨addr,hc,record,hrecord,h⟩

end Fuchsia.Dhcp.Server
