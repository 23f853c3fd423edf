import Fuchsia.Dhcp.Run

/-! The pool along runs of client messages and administrative calls. -/
namespace Fuchsia.Dhcp.Server

open Effect Function Transition Option Finset Ends Server

variable {panics : Prop} {env : Environment} {s s' : Server} {extra : Finset Ipv4Addr}

structure Reconfigured (s s' : Server) : Prop where
  records : s'.records = s.records
  pool : s'.pool = s.pool
  managedAddrs : s'.params.managedAddrs = s.params.managedAddrs

structure Rebuilt (s s' : Server) : Prop where
  unused : ∀ id,s.records id = none
  records : s'.records = s.records
  pool : s'.pool = .new s'.params.managedAddrs.poolRange

lemma saveParams_ends : Ends panics (saveParams env) s (fun _ s' => ∃ store,s' = s.setStore store)
    (fun e s' => e = .internal ∧ ∃ store,s' = s.setStore store) := by
  unfold saveParams
  split_ifs
  · exact modify ⟨_,rfl⟩
  · exact throw ⟨rfl,s.store,rfl⟩

lemma storeOptions_ends : Ends panics (storeOptions env) s (fun _ s' => ∃ store,s' = s.setStore store)
    (fun _ s' => ∃ store,s' = s.setStore store) := by
  unfold storeOptions
  split_ifs
  · exact modify ⟨_,rfl⟩
  · exact throw ⟨s.store,rfl⟩

def rebuilds (p : Parameter) (outcome : Except Status Unit) : Bool :=
  match p,outcome with
  | .addressPool _,.ok _ => true
  | .addressPool _,.error .internal => true
  | _,_ => false

def Configured (s : Server) (p : Parameter) (outcome : Except Status Unit) (s' : Server) : Prop :=
  rebuilds p outcome = false ∧ Reconfigured s s' ∨ rebuilds p outcome = true ∧ Rebuilt s s'

lemma modify_save_ends {f : Server → Server} {ok : Unit → Server → Prop} {fail : Status → Server → Prop}
    (hok : ∀ store,ok () ((f s).setStore store)) (hfail : ∀ store,fail .internal ((f s).setStore store)) :
    Ends panics (do modify f; saveParams env) s ok fail := by
  refine Ends.modify_bind (saveParams_ends.mono ?_ ?_)
  · rintro ⟨⟩ _ ⟨store,rfl⟩
    exact hok store
  · rintro _ _ ⟨rfl,store,rfl⟩
    exact hfail store

variable {p : Parameter}

lemma dispatchSetParameter_ends (hiter : Iterated env s) :
    Ends panics (dispatchSetParameter env p) s (fun _ s' => Configured s p (.ok ()) s')
      (fun e s' => Configured s p (.error e) s') := by
  cases p with
  | ipAddrs addrs =>
    exact modify_save_ends (fun _ => .inl ⟨rfl,rfl,rfl,rfl⟩) (fun _ => .inl ⟨rfl,rfl,rfl,rfl⟩)
  | addressPool managedAddrs =>
    apply Ends.get_bind
    by_cases hempty : s.recordsIsEmpty env = true
    · rw [if_neg (not_not.mpr hempty)]
      have hnone : ∀ id,s.records id = none := by
        simp only [recordsIsEmpty,List.all_eq_true,isNone_iff_eq_none] at hempty
        intro id
        by_contra hne
        exact hne (hempty id (hiter.2 id hne))
      cases ManagedAddresses.tryFromFidl managedAddrs with
      | none => exact throw (.inl ⟨rfl,rfl,rfl,rfl⟩)
      | some managed =>
        exact Ends.modify_bind (modify_save_ends (fun _ => .inr ⟨rfl,hnone,rfl,rfl⟩) (fun _ => .inr ⟨rfl,hnone,rfl,rfl⟩))
    · rw [if_pos hempty]
      exact throw (.inl ⟨rfl,rfl,rfl,rfl⟩)
  | lease leaseLength =>
    simp only [dispatchSetParameter]
    cases LeaseLength.tryFromFidl leaseLength with
    | none => exact throw (.inl ⟨rfl,rfl,rfl,rfl⟩)
    | some length =>
      exact modify_save_ends (fun _ => .inl ⟨rfl,rfl,rfl,rfl⟩) (fun _ => .inl ⟨rfl,rfl,rfl,rfl⟩)
  | other valid =>
    cases valid with
    | false => exact throw (.inl ⟨rfl,rfl,rfl,rfl⟩)
    | true =>
      refine saveParams_ends.mono ?_ ?_
      · rintro _ _ ⟨store,rfl⟩
        exact .inl ⟨rfl,rfl,rfl,rfl⟩
      · rintro _ _ ⟨-,store,rfl⟩
        exact .inl ⟨rfl,rfl,rfl,rfl⟩

variable {drained : ClientIdentifier → Option LeaseRecord}

structure Draining (drained : ClientIdentifier → Option LeaseRecord) (ids : List ClientIdentifier)
    (extra : Finset Ipv4Addr) (s : Server) : Prop where
  managed : s.pool.allocated ⊆ s.pool.universeSet
  exact : ∀ addr,addr ∈ s.pool.allocated ↔
    (∃ id ∈ ids,(drained id).bind LeaseRecord.current = some addr) ∨ addr ∈ extra

structure Drained (s s' : Server) : Prop where
  records : s'.records = s.records
  params : s'.params = s.params
  universeSet : s'.pool.universeSet = s.pool.universeSet
  managed : s'.pool.allocated ⊆ s'.pool.universeSet

variable {rest : List ClientIdentifier} {id : ClientIdentifier}

lemma Draining.skip (h : Draining drained (id::rest) extra s)
    (hnone : (drained id).bind LeaseRecord.current = none) : Draining drained rest extra s := by
  refine ⟨h.managed,fun a => (h.exact a).trans ?_⟩
  simp [hnone]

lemma Draining.release {addr : Ipv4Addr} (h : Draining drained (id::rest) extra s)
    (hc : (drained id).bind LeaseRecord.current = some addr) (hapart : addr ∉ extra)
    (hother : ∀ j ∈ rest,(drained j).bind LeaseRecord.current ≠ some addr) :
    Draining drained rest extra (s.setPool { s.pool with allocated := s.pool.allocated.erase addr }) := by
  refine ⟨fun a ha => h.managed (mem_of_mem_erase ha),fun a => ?_⟩
  change a ∈ s.pool.allocated.erase addr ↔ _
  rw [mem_erase,h.exact]
  simp only [List.exists_mem_cons_iff,hc,some.injEq]
  constructor
  · rintro ⟨hne,(rfl | hrest) | ha⟩
    · exact absurd rfl hne
    · exact .inl hrest
    · exact .inr ha
  · rintro (⟨j,hj,hja⟩ | ha)
    · refine ⟨?_,.inl (.inr ⟨j,hj,hja⟩)⟩
      rintro rfl
      exact hother j hj hja
    · refine ⟨?_,.inr ha⟩
      rintro rfl
      exact hapart ha

lemma clearLoop_ends {s0 : Server} {ids : List ClientIdentifier} (hnodup : ids.Nodup)
    (hapart : ∀ id addr,(drained id).bind LeaseRecord.current = some addr → addr ∉ extra)
    (hsingle : ∀ id id' addr,(drained id).bind LeaseRecord.current = some addr → (drained id').bind LeaseRecord.current = some addr → id = id')
    (hs : Drained s0 s) (h : Draining drained ids extra s) : Ends panics (clearLoop env drained ids) s
      (fun _ s' => Drained s0 s' ∧ ∀ addr,addr ∈ s'.pool.allocated ↔ addr ∈ extra)
      (fun _ s' => Drained s0 s' ∧ ∃ id,drained id ≠ none ∧ env.stored id = false) := by
  induction ids generalizing s with
  | nil => exact pure ⟨hs,fun a => by simpa using h.exact a⟩
  | cons id rest ih =>
    obtain ⟨hid,hrest⟩ := List.nodup_cons.mp hnodup
    apply Ends.get_bind
    cases hrecord : drained id with
    | none => exact ih hrest hs (h.skip (by rw [hrecord]; rfl))
    | some record =>
      have hstored : ∀ {s1 : Server},Drained s0 s1 → Draining drained rest extra s1 →
          Ends panics (if env.stored id then do
              modify fun s => s.setStore (s.store.setRecord id none)
              clearLoop env drained rest
            else throw .internal) s1
            (fun _ s' => Drained s0 s' ∧ ∀ addr,addr ∈ s'.pool.allocated ↔ addr ∈ extra)
            (fun _ s' => Drained s0 s' ∧ ∃ id,drained id ≠ none ∧ env.stored id = false) := by
        intro s1 hs h1
        split_ifs with hst
        · exact Ends.modify_bind (ih hrest ⟨hs.records,hs.params,hs.universeSet,hs.managed⟩ ⟨h1.managed,h1.exact⟩)
        · refine throw ⟨hs,id,?_,by simpa using hst⟩
          rw [hrecord]
          exact some_ne_none record
      cases hcurrent : record.current with
      | none =>
        have hc : (drained id).bind LeaseRecord.current = none := by rw [hrecord]; exact hcurrent
        simp only [hcurrent]
        exact bind (pure (hstored hs (h.skip hc)))
      | some addr =>
        have hc : (drained id).bind LeaseRecord.current = some addr := by rw [hrecord]; exact hcurrent
        have halloc : addr ∈ s.pool.allocated := (h.exact addr).mpr (.inl ⟨id,List.mem_cons_self,hc⟩)
        have hother : ∀ j ∈ rest,(drained j).bind LeaseRecord.current ≠ some addr := by
          intro j hj hja
          rw [hsingle j id addr hja hc] at hj
          exact hid hj
        simp only [hcurrent,AddressPool.releaseAddr_of_allocated (h.managed halloc) halloc]
        refine bind (modify (hstored ⟨hs.records,hs.params,hs.universeSet,?_⟩ (h.release hc (hapart id addr hc) hother)))
        exact fun a ha => h.managed (mem_of_mem_erase ha)

structure Cleared (s s' : Server) : Prop where
  records : ∀ id,s'.records id = none
  params : s'.params = s.params
  universeSet : s'.pool.universeSet = s.pool.universeSet
  managed : s'.pool.allocated ⊆ s'.pool.universeSet

lemma dispatchClearLeases_ends (hb : Booked s extra) (hiter : Iterated env s) :
    Ends panics (dispatchClearLeases env) s (fun _ s' => Cleared s s' ∧ Booked s' extra)
      (fun _ s' => Cleared s s' ∧ ∃ id,s.records id ≠ none ∧ env.stored id = false) := by
  apply Ends.get_bind
  apply Ends.modify_bind
  have hdraining : Draining s.records env.order extra { s with records := fun _ => none } := by
    refine ⟨hb.managed,fun a => ?_⟩
    change a ∈ s.pool.allocated ↔ _
    rw [hb.exact]
    constructor
    · rintro (⟨id,hc⟩ | ha)
      · refine .inl ⟨id,hiter.2 id fun hnone => ?_,hc⟩
        rw [current,hnone] at hc
        cases hc
      · exact .inr ha
    · rintro (⟨id,-,hc⟩ | ha)
      · exact .inl ⟨id,hc⟩
      · exact .inr ha
  have hcleared : ∀ {s'},Drained { s with records := fun _ => none } s' → Cleared s s' := fun h =>
    ⟨fun id => congrFun h.records id,h.params,h.universeSet,h.managed⟩
  refine (clearLoop_ends hiter.1 (fun _ _ hc => hb.apart hc) (fun _ _ _ hc hc' => hb.single hc hc')
    ⟨rfl,rfl,rfl,hdraining.managed⟩ hdraining).mono (fun _ s' h => ?_) (fun _ s' h => ⟨hcleared h.1,h.2⟩)
  have hnone : ∀ id,s'.current id = none := fun id => by rw [current,(hcleared h.1).records]; rfl
  exact ⟨hcleared h.1,booked_of_none hnone h.1.managed h.2⟩

inductive Request
  | dispatch (msg : Message)
  | setParameter (p : Parameter)
  | resetParameters (defaults : ServerParameters)
  | clearLeases
  | setOption (option : DhcpOption)
  | resetOptions
  deriving DecidableEq

/-- The server, and the addresses declined since its pool was last built. -/
structure Tracked where
  server : Server
  declined : Finset Ipv4Addr

def settle {E A : Type} (f : Except E A → Finset Ipv4Addr) : Result Server E A → Option Tracked
  | .ok a s => some ⟨s,f (.ok a)⟩
  | .fail e s => some ⟨s,f (.error e)⟩
  | .panic => none

def trackedStep (t : Tracked) : Environment × Request → Option Tracked
  | (env,.dispatch msg) =>
    settle (fun outcome => t.declined ∪ declinedBy msg outcome) (dispatch env msg t.server)
  | (env,.setParameter p) =>
    settle (fun outcome => if rebuilds p outcome then ∅ else t.declined)
      (dispatchSetParameter env p t.server)
  | (env,.resetParameters defaults) =>
    settle (fun _ => t.declined) (dispatchResetParameters env defaults t.server)
  | (env,.clearLeases) => settle (fun _ => t.declined) (dispatchClearLeases env t.server)
  | (env,.setOption option) => settle (fun _ => t.declined) (dispatchSetOption env option t.server)
  | (env,.resetOptions) => settle (fun _ => t.declined) (dispatchResetOptions env t.server)

inductive TrackedStart : Tracked → Prop
  | start {s : Server} : Start s → TrackedStart ⟨s,∅⟩

/-- The data store takes the record of a client that has no address yet and the removals of
records, and the parameters are not reset to another pool. -/
def Careful (s : Server) (env : Environment) : Request → Prop
  | .dispatch msg => msg.getDhcpType = .ok .dhcpdiscover →
      s.current msg.clientIdentifier ≠ none ∨ env.stored msg.clientIdentifier = true
  | .resetParameters defaults =>
    defaults.managedAddrs.poolRange = s.params.managedAddrs.poolRange
  | .clearLeases => ∀ id,s.records id ≠ none → env.stored id = true
  | _ => True

/-- The pool is that of the parameters, the addresses of the clients are distinct members of
it, and they and the declined ones are the allocated addresses. -/
structure Kept (t : Tracked) : Prop where
  universeSet : t.server.pool.universeSet = t.server.params.managedAddrs.poolRange
  member : ∀ id addr,t.server.current id = some addr → addr ∈ t.server.pool.universeSet
  distinct : ∀ id id' addr,t.server.current id = some addr → t.server.current id' = some addr → id = id'
  allocated : ∀ addr,addr ∈ t.server.pool.allocated ↔
    (∃ id,t.server.current id = some addr) ∨ addr ∈ t.declined

structure TrackedBooks (t : Tracked) : Prop where
  booked : Booked t.server t.declined
  universeSet : t.server.pool.universeSet = t.server.params.managedAddrs.poolRange

lemma TrackedBooks.kept {t : Tracked} (h : TrackedBooks t) : Kept t :=
  ⟨h.universeSet,fun _ _ hc => h.booked.managed (h.booked.allocated hc),
    fun _ _ _ hc hc' => h.booked.single hc hc',fun _ => h.booked.exact⟩

lemma settle_invariant {E A : Type} {f : Except E A → Finset Ipv4Addr} {x : Effect Server E A} {t' : Tracked}
    (I : Tracked → Prop) (h : Ends True x s (fun a s' => I ⟨s',f (.ok a)⟩) (fun e s' => I ⟨s',f (.error e)⟩))
    (hstep : settle f (x s) = some t') : I t' := by
  cases hx : x s with
  | ok a s' =>
    rw [hx] at hstep
    cases hstep
    exact h.of_ok hx
  | fail e s' =>
    rw [hx] at hstep
    cases hstep
    exact h.of_fail hx
  | panic =>
    rw [hx] at hstep
    cases hstep

variable {msg : Message}

lemma Effected.declined_booked {outcome : Outcome} (hb : Booked s extra) (hcareful : Careful s env (.dispatch msg))
    (h : Effected env s extra msg outcome s') : Booked s' (extra ∪ declinedBy msg outcome) := by
  have hdiscover : ∀ {outcome},msg.getDhcpType = .ok .dhcpdiscover → declinedBy msg outcome = ∅ := by
    intro outcome htype
    refine declinedBy_of_ne ?_
    rw [htype]
    exact nofun
  cases h with
  | same _ _ hdeclined =>
    rw [hdeclined,union_empty]
    exact hb
  | offered htype h =>
    rw [hdiscover htype,union_empty]
    exact h.booked
  | notOffered htype h =>
    rw [hdiscover htype,union_empty]
    obtain hbooked | ⟨hnone,hstored,-⟩ := h.booked
    · exact hbooked
    · obtain hsome | hstored' := hcareful htype
      · exact absurd hnone hsome
      · rw [hstored] at hstored'
        cases hstored'
  | declined _ h _ hdeclined =>
    rw [hdeclined,union_comm]
    exact h.booked hb
  | released htype h =>
    obtain ⟨hc,record,-,h⟩ := h
    have hne : msg.getDhcpType ≠ .ok .dhcpdecline := by
      rw [htype]
      exact nofun
    rw [declinedBy_of_ne hne,union_empty]
    exact h.booked hb hc

variable {declined : Finset Ipv4Addr}

lemma Reconfigured.books (h : Reconfigured s s') (hb : TrackedBooks ⟨s,declined⟩) : TrackedBooks ⟨s',declined⟩ := by
  refine ⟨hb.booked.congr h.records h.pool,?_⟩
  change s'.pool.universeSet = s'.params.managedAddrs.poolRange
  rw [h.pool,h.managedAddrs]
  exact hb.universeSet

lemma modify_storeOptions_books {f : Server → Server} (hrecords : (f s).records = s.records) (hpool : (f s).pool = s.pool)
    (hparams : (f s).params = s.params) (hb : TrackedBooks ⟨s,declined⟩) : Ends panics (do modify f; storeOptions env) s
      (fun _ s' => TrackedBooks ⟨s',declined⟩) (fun _ s' => TrackedBooks ⟨s',declined⟩) := by
  have hbooks : ∀ store,TrackedBooks ⟨(f s).setStore store,declined⟩ := by
    intro store
    have h : Reconfigured s ((f s).setStore store) := ⟨hrecords,hpool,congrArg _ hparams⟩
    exact h.books hb
  refine Ends.modify_bind (storeOptions_ends.mono ?_ ?_)
  · rintro _ _ ⟨store,rfl⟩
    exact hbooks store
  · rintro _ _ ⟨store,rfl⟩
    exact hbooks store

lemma Rebuilt.books (h : Rebuilt s s') : TrackedBooks ⟨s',∅⟩ := by
  have hcurrent : ∀ id,s'.current id = none := fun id => by rw [current,h.records,h.unused]; rfl
  have hallocated : s'.pool.allocated = ∅ := by rw [h.pool]; rfl
  have huniverse : s'.pool.universeSet = s'.params.managedAddrs.poolRange := by rw [h.pool]; rfl
  exact ⟨booked_of_none hcurrent (by simp [hallocated]) (by simp [hallocated]),huniverse⟩

lemma Configured.books {outcome : Except Status Unit} (h : Configured s p outcome s') (hb : TrackedBooks ⟨s,declined⟩) :
    TrackedBooks ⟨s',if rebuilds p outcome then ∅ else declined⟩ := by
  obtain ⟨hno,h⟩ | ⟨hyes,h⟩ := h
  · rw [hno]
    exact h.books hb
  · rw [hyes]
    exact h.books

variable {request : Request}

lemma trackedStep_books {t t' : Tracked} (hb : TrackedBooks t) (hiter : Iterated env t.server)
    (hcareful : Careful t.server env request) (hstep : trackedStep t (env,request) = some t') : TrackedBooks t' := by
  unfold trackedStep at hstep
  cases request with
  | dispatch msg =>
    have heffected : ∀ {outcome s'},Effected env t.server t.declined msg outcome s' →
        TrackedBooks ⟨s',t.declined ∪ declinedBy msg outcome⟩ := by
      intro outcome s' h
      refine ⟨h.declined_booked hb.booked hcareful,?_⟩
      change s'.pool.universeSet = s'.params.managedAddrs.poolRange
      rw [h.config.universeSet,h.config.params]
      exact hb.universeSet
    refine settle_invariant TrackedBooks (x := dispatch env msg) ?_ hstep
    exact (dispatch_ends hb.booked (.inl trivial) (.inl trivial)).mono
      (fun _ _ h => heffected h) (fun _ _ h => heffected h)
  | setParameter p =>
    refine settle_invariant TrackedBooks (x := dispatchSetParameter env p) ?_ hstep
    exact (dispatchSetParameter_ends hiter).mono (fun _ _ h => h.books hb) (fun _ _ h => h.books hb)
  | resetParameters defaults =>
    have hbooks : ∀ store,TrackedBooks ⟨(t.server.setParams defaults).setStore store,t.declined⟩ :=
      fun store => ⟨hb.booked.congr rfl rfl,hb.universeSet.trans hcareful.symm⟩
    exact settle_invariant TrackedBooks (x := dispatchResetParameters env defaults) (modify_save_ends hbooks hbooks) hstep
  | clearLeases =>
    refine settle_invariant TrackedBooks (x := dispatchClearLeases env) ?_ hstep
    refine (dispatchClearLeases_ends hb.booked hiter).mono (fun _ s' h => ?_) (fun _ s' h => ?_)
    · refine ⟨h.2,?_⟩
      change s'.pool.universeSet = s'.params.managedAddrs.poolRange
      rw [h.1.universeSet,h.1.params]
      exact hb.universeSet
    · obtain ⟨-,id,hrecord,hstored⟩ := h
      rw [hcareful id hrecord] at hstored
      cases hstored
  | setOption option =>
    exact settle_invariant TrackedBooks (x := dispatchSetOption env option) (modify_storeOptions_books rfl rfl rfl hb) hstep
  | resetOptions =>
    exact settle_invariant TrackedBooks (x := dispatchResetOptions env) (modify_storeOptions_books rfl rfl rfl hb) hstep

/-- The address is declined, or another client has an unexpired lease of it. -/
def Unavailable (t : Tracked) (client : ClientIdentifier) (now : ℕ) (addr : Ipv4Addr) : Prop :=
  addr ∈ t.declined ∨ ∃ id record,id ≠ client ∧ t.server.records id = some record ∧
    record.current = some addr ∧ ¬ record.expired now

lemma TrackedBooks.exhausted {t : Tracked} (hb : TrackedBooks t) (hiter : Iterated env t.server)
    (htype : msg.getDhcpType = .ok .dhcpdiscover) (hfail : dispatch env msg t.server = .fail exhaustion s') :
    ∀ addr ∈ t.server.pool.universeSet,Unavailable t msg.clientIdentifier env.now addr := by
  intro addr haddr
  have hends : Ends True (dispatch env msg) t.server _ _ :=
    dispatch_ends hb.booked (.inl trivial) (.inl trivial)
  cases hends.of_fail hfail with
  | same hne => exact absurd htype hne
  | declined htype' | released htype' => cases htype.symm.trans htype'
  | notOffered _ h =>
    obtain ⟨rfl,hexhausted⟩ := h.exhausted rfl
    have hexpires := h.searched.expires
    rw [← hexpires.universeSet] at haddr
    obtain ⟨id,hc⟩ | hdeclined := h.searched.booked.exact.mp (hexhausted.full haddr)
    · obtain ⟨record,hrecord,hcurrent⟩ := current_eq_some.mp hc
      obtain heq | ⟨r,a,-,-,-,hreleased⟩ := hexpires.records id
      · rw [heq] at hrecord
        refine .inr ⟨id,record,?_,hrecord,hcurrent,?_⟩
        · rintro rfl
          have hnone := hexhausted.none
          rw [current_eq_some.mpr ⟨record,hrecord,hcurrent⟩] at hnone
          exact some_ne_none addr hnone
        · refine hexhausted.expired id (hiter.2 id ?_) record (heq.trans hrecord) ?_
          · rw [hrecord]
            exact some_ne_none record
          · rw [hcurrent]
            exact some_ne_none addr
      · rw [hreleased] at hrecord
        cases hrecord
        cases hcurrent
    · exact .inl hdeclined

/-- Along every careful run the books are kept, and a client is told that the addresses are
exhausted only when each of them is unavailable. -/
theorem reached_kept {t : Tracked} (h : Reachable TrackedStart
      (fun t a => Iterated a.1 t.server ∧ Careful t.server a.1 a.2) trackedStep t) :
    Kept t ∧ ∀ env msg s',Iterated env t.server → msg.getDhcpType = .ok .dhcpdiscover →
      dispatch env msg t.server = .fail exhaustion s' →
      ∀ addr ∈ t.server.pool.universeSet,Unavailable t msg.clientIdentifier env.now addr := by
  have hbooks : TrackedBooks t := by
    refine h.invariant (I := TrackedBooks) ?_ ?_
    · rintro _ ⟨hs⟩
      exact ⟨hs.booked.1,hs.booked.2⟩
    · rintro t ⟨env,request⟩ t' hb ⟨hiter,hcareful⟩ hstep
      exact trackedStep_books hb hiter hcareful hstep
  exact ⟨hbooks.kept,fun _ _ _ hiter htype hfail => hbooks.exhausted hiter htype hfail⟩

lemma new_iterated (store : DataStore) (params : ServerParameters) (seconds : ℕ) (stored : Bool) :
    Iterated (sampleEnv seconds stored) (.new store params) :=
  ⟨show List.Nodup [ClientIdentifier.id [1],.id [2]] by decide,fun _ h => absurd rfl h⟩

lemma sample_careful (t : Tracked) (seconds : ℕ) (msg : Message) :
    Careful t.server (sampleEnv seconds true) (.dispatch msg) := fun _ => .inr rfl

def sampleRun (calls : List (ℕ × Message)) (t : Tracked) : Option Tracked :=
  calls.foldlM (fun t call => trackedStep t (sampleEnv call.1 true,.dispatch call.2)) t

lemma sampleRun_reached {start : Tracked → Prop} {allowed : Tracked → Environment × Request → Prop}
    {calls : List (ℕ × Message)} {t t' : Tracked} (hallowed : ∀ t seconds msg,Iterated (sampleEnv seconds true) t.server →
      allowed t (sampleEnv seconds true,.dispatch msg)) (h : Reachable start allowed trackedStep t) (hb : TrackedBooks t)
    (hiter : ∀ seconds,Iterated (sampleEnv seconds true) t.server)
    (hclients : ∀ call ∈ calls,call.2.clientIdentifier ∈ (sampleEnv 0 true).order) (hrun : sampleRun calls t = some t') :
    Reachable start allowed trackedStep t' ∧ ∀ seconds,Iterated (sampleEnv seconds true) t'.server := by
  induction calls generalizing t with
  | nil =>
    cases hrun
    exact ⟨h,hiter⟩
  | cons call rest ih =>
    obtain ⟨hclient,hrest⟩ := List.forall_mem_cons.mp hclients
    rw [sampleRun,List.foldlM_cons] at hrun
    obtain ⟨t1,hstep,hrun⟩ := Option.bind_eq_some_iff.mp hrun
    have hb1 : TrackedBooks t1 := trackedStep_books hb (hiter call.1) (sample_careful t call.1 call.2) hstep
    have hiter1 : ∀ seconds,Iterated (sampleEnv seconds true) t1.server := by
      intro seconds
      unfold trackedStep at hstep
      refine settle_invariant (fun t => Iterated (sampleEnv seconds true) t.server) (x := dispatch _ _) ?_ hstep
      exact (dispatch_ends hb.booked (.inl trivial) (.inl trivial)).mono
        (fun _ _ h => h.iterated (hiter seconds) hclient) (fun _ _ h => h.iterated (hiter seconds) hclient)
    exact ih (.step h (hallowed t call.1 call.2 (hiter call.1)) hstep) hb1 hiter1 hrest hrun

lemma sampleServer_books : TrackedBooks ⟨sampleServer,∅⟩ :=
  ⟨booked_of_none (fun _ => rfl) (empty_subset _) fun _ => Iff.rfl,rfl⟩

def sampleFailure {A : Type} : Result Server ServerError A → Option ServerError
  | .fail e _ => some e
  | _ => none

lemma sampleFailure_eq_some {A : Type} {r : Result Server ServerError A} {e : ServerError} (h : sampleFailure r = some e) :
    ∃ s',r = .fail e s' := by
  unfold sampleFailure at h
  split at h
  · cases h
    exact ⟨_,rfl⟩
  · cases h

def sampleDeclining : List (ℕ × Message) :=
  [(0,sampleMessage .dhcpdiscover 1 unspecified []),
    (1,sampleMessage .dhcpdecline 1 unspecified [.requestedIpAddress 2,.serverIdentifier 1]),
    (2,sampleMessage .dhcpdiscover 2 unspecified [])]

theorem reached_kept_sample : ∃ t s',sampleRun sampleDeclining ⟨sampleServer,∅⟩ = some t ∧ Kept t ∧
    t.declined = {2} ∧ t.server.current (.id [2]) = some 3 ∧
    dispatch (sampleEnv 3 true) (sampleMessage .dhcpdiscover 1 unspecified []) t.server = .fail exhaustion s' ∧
    ∀ addr ∈ t.server.pool.universeSet,Unavailable t (.id [1]) (sampleEnv 3 true).now addr := by
  have hrun : (sampleRun sampleDeclining ⟨sampleServer,∅⟩).map (fun t => (t.declined,t.server.current (.id [2]),
      sampleFailure (dispatch (sampleEnv 3 true) (sampleMessage .dhcpdiscover 1 unspecified []) t.server))) =
      some ({2},some 3,some exhaustion) := by decide +kernel
  obtain ⟨t,ht,heq⟩ := map_eq_some_iff.mp hrun
  simp only [Prod.mk.injEq] at heq
  obtain ⟨hdeclined,hcurrent,hfailure⟩ := heq
  obtain ⟨s',hfail⟩ := sampleFailure_eq_some hfailure
  obtain ⟨hreached,hiter⟩ : Reachable TrackedStart (fun t a => Iterated a.1 t.server ∧ Careful t.server a.1 a.2)
      trackedStep t ∧ _ :=
    sampleRun_reached (fun t seconds msg hiter => ⟨hiter,sample_careful t seconds msg⟩) (.start (.start (.new _ _))) sampleServer_books
      (fun seconds => new_iterated _ _ seconds true) (by decide) ht
  obtain ⟨hkept,hexhausted⟩ := reached_kept hreached
  exact ⟨t,s',ht,hkept,hdeclined,hcurrent,hfail,hexhausted (sampleEnv 3 true) _ s' (hiter 3) rfl hfail⟩

def sampleDiscovered : Option Tracked := trackedStep ⟨sampleServer,∅⟩
    (sampleEnv 0 false,.dispatch (sampleMessage .dhcpdiscover 1 unspecified []))

/-- An address is leaked when the data store does not take the record of a new client. -/
theorem reached_leaked : ∃ t,
    Reachable TrackedStart (fun t a => Iterated a.1 t.server) trackedStep t ∧ ¬ Kept t := by
  have hsome : sampleDiscovered.isSome := by decide +kernel
  have hrecords : sampleDiscovered.map (fun t => t.server.records) = some fun _ => none := rfl
  have hallocated : sampleDiscovered.map (fun t => t.server.pool.allocated) = some {2} := by
    decide +kernel
  have hdeclined : sampleDiscovered.map Tracked.declined = some ∅ := by decide +kernel
  obtain ⟨t,ht⟩ := isSome_iff_exists.mp hsome
  simp only [ht,map_some,some.injEq] at hrecords hallocated hdeclined
  refine ⟨t,.step (.start (.start (.new _ _))) ?_ ht,fun hk => ?_⟩
  · exact new_iterated _ _ 0 false
  have hleaked := hk.allocated 2
  simp only [hallocated,hdeclined,current,hrecords] at hleaked
  obtain ⟨id,hid⟩ | hmem := hleaked.mp (by simp)
  · cases hid
  · exact notMem_empty 2 hmem

end Fuchsia.Dhcp.Server
