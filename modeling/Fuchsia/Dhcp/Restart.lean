import Fuchsia.Dhcp.Bookkeeping

/-! A restart of the server: `new_from_state` is given the parameters, options and records that
the data store has. -/
namespace Fuchsia.Dhcp.Server

open Effect Function Transition Finset List

variable {panics : Prop} {env : Environment} {s s' : Server} {t t' : Tracked} {request : Request}

/-! What is stored is what the server has, along every run with a data store that takes every
operation. -/

lemma saveParams_stored (hreliable : Reliable env) (hrecords : s.store.records = s.records)
    (hoptions : s.store.options = s.optionsRepo) : Ends panics (saveParams env) s (fun _ => Stored) (fun _ => Stored) := by
  rw [saveParams,if_pos hreliable.2]
  exact Ends.modify ⟨hrecords,hoptions,rfl⟩

lemma storeOptions_stored (hreliable : Reliable env) (hrecords : s.store.records = s.records)
    (hparams : s.store.params = some s.params) : Ends panics (storeOptions env) s (fun _ => Stored) (fun _ => Stored) := by
  rw [storeOptions,if_pos hreliable.2]
  exact Ends.modify ⟨hrecords,rfl,hparams⟩

lemma dispatchSetParameter_stored (p : Parameter) (hreliable : Reliable env) (hs : Stored s) :
    Ends panics (dispatchSetParameter env p) s (fun _ => Stored) (fun _ => Stored) := by
  cases p with
  | ipAddrs addrs => exact Ends.modify_bind (saveParams_stored hreliable hs.records hs.options)
  | addressPool managedAddrs =>
    apply Ends.get_bind
    split_ifs
    · cases ManagedAddresses.tryFromFidl managedAddrs with
      | none => exact Ends.throw hs
      | some managed =>
        -- The parameters are stored after the pool is built anew.
        apply Ends.modify_bind
        exact Ends.modify_bind (saveParams_stored hreliable hs.records hs.options)
    · exact Ends.throw hs
  | lease leaseLength =>
    simp only [dispatchSetParameter]
    cases LeaseLength.tryFromFidl leaseLength with
    | none => exact Ends.throw hs
    | some length => exact Ends.modify_bind (saveParams_stored hreliable hs.records hs.options)
  | other valid =>
    cases valid with
    | false => exact Ends.throw hs
    | true =>
      exact saveParams_stored hreliable hs.records hs.options

structure Clearing (drained : ClientIdentifier → Option LeaseRecord) (ids : List ClientIdentifier) (s : Server) :
    Prop where
  records : s.records = fun _ => none
  left : ∀ id,s.store.records id ≠ none → id ∈ ids ∧ drained id ≠ none
  options : s.store.options = s.optionsRepo
  params : s.store.params = some s.params

variable {drained : ClientIdentifier → Option LeaseRecord} {ids rest : List ClientIdentifier} {id : ClientIdentifier}

lemma Clearing.skip (h : Clearing drained (id::rest) s) (hnone : drained id = none) : Clearing drained rest s := by
  refine ⟨h.records,fun j hj => ?_,h.options,h.params⟩
  obtain ⟨hmem,hdrained⟩ := h.left j hj
  obtain rfl | hmem := mem_cons.mp hmem
  · exact absurd hnone hdrained
  · exact ⟨hmem,hdrained⟩

lemma Clearing.delete (h : Clearing drained (id::rest) s) :
    Clearing drained rest (s.setStore (s.store.setRecord id none)) := by
  refine ⟨h.records,fun j hj => ?_,h.options,h.params⟩
  change update s.store.records id none j ≠ none at hj
  have hne : j ≠ id := by
    rintro rfl
    exact hj (update_self _ _ _)
  rw [update_of_ne hne] at hj
  obtain ⟨hmem,hdrained⟩ := h.left j hj
  exact ⟨(mem_cons.mp hmem).resolve_left hne,hdrained⟩

lemma Clearing.setPool (h : Clearing drained ids s) (pool : AddressPool) : Clearing drained ids (s.setPool pool) :=
  ⟨h.records,h.left,h.options,h.params⟩

lemma Clearing.stored (h : Clearing drained [] s) : Stored s := by
  refine ⟨funext fun id => ?_,h.options,h.params⟩
  rw [h.records]
  by_contra hne
  exact not_mem_nil (h.left id hne).1

lemma clearLoop_stored (hreliable : Reliable env) (h : Clearing drained ids s) :
    Ends True (clearLoop env drained ids) s (fun _ => Stored) (fun _ => Stored) := by
  induction ids generalizing s with
  | nil => exact Ends.pure h.stored
  | cons id rest ih =>
    apply Ends.get_bind
    cases hrecord : drained id with
    | none => exact ih (h.skip hrecord)
    | some record =>
      have hnext : ∀ {s1 : Server},Clearing drained (id::rest) s1 → Ends True (if env.stored id then do
            modify fun s => s.setStore (s.store.setRecord id none)
            clearLoop env drained rest
          else throw .internal) s1 (fun _ => Stored) (fun _ => Stored) := by
        intro s1 h1
        rw [if_pos (hreliable.1 id)]
        exact Ends.modify_bind (ih h1.delete)
      cases hcurrent : record.current with
      | none =>
        simp only [hcurrent]
        exact Ends.bind (Ends.pure (hnext h))
      | some addr =>
        simp only [hcurrent]
        cases s.pool.releaseAddr addr with
        | error e => exact Ends.bind (Ends.panicked trivial)
        | ok pool => exact Ends.bind (Ends.modify (hnext (h.setPool pool)))

lemma dispatchClearLeases_stored (hreliable : Reliable env) (hiter : Iterated env s) (hs : Stored s) :
    Ends True (dispatchClearLeases env) s (fun _ => Stored) (fun _ => Stored) := by
  apply Ends.get_bind
  apply Ends.modify_bind
  refine clearLoop_stored hreliable ⟨rfl,fun id hid => ?_,hs.options,hs.params⟩
  change s.store.records id ≠ none at hid
  rw [hs.records] at hid
  exact ⟨hiter.2 id hid,hid⟩

lemma trackedStep_stored (hb : TrackedBooks t) (hs : Stored t.server) (hiter : Iterated env t.server)
    (hreliable : Reliable env) (hstep : trackedStep t (env,request) = some t') : Stored t'.server := by
  unfold trackedStep at hstep
  cases request with
  | dispatch msg =>
    refine settle_invariant (fun t => Stored t.server) (x := dispatch env msg) ?_ hstep
    exact (dispatch_ends hb.booked (.inl trivial) (.inl trivial)).mono
      (fun _ _ h => h.keeps hreliable hs) (fun _ _ h => h.keeps hreliable hs)
  | setParameter p =>
    exact settle_invariant (fun t => Stored t.server) (dispatchSetParameter_stored p hreliable hs) hstep
  | resetParameters defaults =>
    exact settle_invariant (fun t => Stored t.server) (x := dispatchResetParameters env defaults)
      (Ends.modify_bind (saveParams_stored hreliable hs.records hs.options)) hstep
  | clearLeases =>
    exact settle_invariant (fun t => Stored t.server) (dispatchClearLeases_stored hreliable hiter hs) hstep
  | setOption option =>
    exact settle_invariant (fun t => Stored t.server) (x := dispatchSetOption env option)
      (Ends.modify_bind (storeOptions_stored hreliable hs.records hs.params)) hstep
  | resetOptions =>
    exact settle_invariant (fun t => Stored t.server) (x := dispatchResetOptions env)
      (Ends.modify_bind (storeOptions_stored hreliable hs.records hs.params)) hstep

/-- A server that starts with what the data store has: `new` over one that has its parameters
and nothing else, or `new_from_state`. -/
inductive StoredStart : Tracked → Prop
  | new (params : ServerParameters) :
      StoredStart ⟨.new ⟨fun _ => none,fun _ => none,some params⟩ params,∅⟩
  | newFromState {env : Environment} {store : DataStore} {params : ServerParameters} {s : Server}
      (order : ∀ id,store.records id ≠ none → id ∈ env.order) (reliable : Reliable env)
      (loaded : store.params = some params)
      (built : newFromState env store params store.options store.records = .ok () s) : StoredStart ⟨s,∅⟩

lemma StoredStart.tracked (h : StoredStart t) : TrackedStart t := by
  cases h with
  | new params => exact .start (.new _ params)
  | newFromState order _ _ built => exact .start (.newFromState order built)

lemma StoredStart.stored (h : StoredStart t) : Stored t.server := by
  cases h with
  | new params => exact ⟨rfl,rfl,rfl⟩
  | @newFromState env store params s order reliable loaded built =>
    unfold Server.newFromState at built
    cases hpool : allocateRecords store.records env.order (.new params.managedAddrs.poolRange) with
    | error e =>
      rw [hpool] at built
      cases built
    | ok pool =>
      rw [hpool] at built
      have hends : Ends True (releaseExpiredLeases env) ⟨store.records,pool,params,store,store.options⟩ _ _ :=
        releaseExpired_ends ((allocateRecords_allocates hpool).booked order)
      exact (hends.of_ok built).2.2.1 reliable ⟨rfl,rfl,loaded⟩

/-- The parameters are not reset to another pool. -/
def KeepsPool (s : Server) : Request → Prop
  | .resetParameters defaults =>
    defaults.managedAddrs.poolRange = s.params.managedAddrs.poolRange
  | _ => True

lemma KeepsPool.careful (h : KeepsPool s request) (hreliable : Reliable env) : Careful s env request := by
  cases request with
  | dispatch msg => exact fun _ => .inr (hreliable.1 _)
  | resetParameters defaults => exact h
  | clearLeases => exact fun id _ => hreliable.1 id
  | _ => trivial

lemma reached_stored (h : Reachable StoredStart
      (fun t a => Iterated a.1 t.server ∧ Reliable a.1 ∧ KeepsPool t.server a.2) trackedStep t) :
    TrackedBooks t ∧ Stored t.server := by
  refine h.invariant (I := fun t => TrackedBooks t ∧ Stored t.server) ?_ ?_
  · intro t hstart
    obtain ⟨hs⟩ := hstart.tracked
    exact ⟨⟨hs.booked.1,hs.booked.2⟩,hstart.stored⟩
  · rintro t ⟨env,request⟩ t' ⟨hb,hs⟩ ⟨hiter,hreliable,hkeeps⟩ hstep
    exact ⟨trackedStep_books hb hiter (hkeeps.careful hreliable) hstep,trackedStep_stored hb hs hiter hreliable hstep⟩

def responses : List (Environment × Message) → Server → List (Option Outcome)
  | [],_ => []
  | (env,msg)::rest,s =>
    match Server.dispatch env msg s with
    | .ok action s' => some (.ok action)::responses rest s'
    | .fail e s' => some (.error e)::responses rest s'
    | .panic => [none]

/-- A server that is built from what the data store of another one has. Its next free address is
the same, it answers every sequence of messages as the other one does, and no address is available
that the other has allocated, unless for an expired lease. -/
structure Restarted (env : Environment) (s s' : Server) : Prop where
  built : ∃ params,s.store.params = some params ∧
    newFromState env s.store params s.store.options s.store.records = .ok () s'
  next : s'.pool.next = s.pool.next
  answers : ∀ calls,responses calls s' = responses calls s
  available : ∀ addr,s'.pool.addrIsAvailable addr → s.pool.addrIsAvailable addr ∨
    ∃ id record,s.records id = some record ∧ record.current = some addr ∧ record.expired env.now

variable {extra : Finset Ipv4Addr} {addr : Ipv4Addr}

lemma Booked.pool_eq (hb : Booked s extra) (hb' : Booked s' extra) (hrecords : s'.records = s.records)
    (huniverse : s'.pool.universeSet = s.pool.universeSet) : s'.pool = s.pool := by
  have hallocated : s'.pool.allocated = s.pool.allocated := by
    ext addr
    rw [hb'.exact,hb.exact]
    simp only [current,hrecords]
  cases hpool : s.pool
  cases hpool' : s'.pool
  rw [hpool,hpool'] at huniverse hallocated
  cases huniverse
  cases hallocated
  rfl

lemma Booked.allocateRecords_ok (hb : Booked s extra) (hids : ids.Nodup) {pool : AddressPool}
    (huniverse : pool.universeSet = s.pool.universeSet)
    (hfresh : ∀ id ∈ ids,∀ addr,s.current id = some addr → addr ∉ pool.allocated) :
    ∃ pool',allocateRecords s.records ids pool = .ok pool' := by
  induction ids generalizing pool with
  | nil => exact ⟨pool,rfl⟩
  | cons id rest ih =>
    obtain ⟨hid,hrest⟩ := nodup_cons.mp hids
    have hfresh' : ∀ j ∈ rest,∀ addr,s.current j = some addr → addr ∉ pool.allocated :=
      (forall_mem_cons.mp hfresh).2
    unfold allocateRecords
    cases hc : (s.records id).bind LeaseRecord.current with
    | none => exact ih hrest huniverse hfresh'
    | some addr =>
      have hmanaged : addr ∈ pool.universeSet := huniverse ▸ hb.managed (hb.allocated hc)
      simp only [AddressPool.allocateAddr_of_available ⟨hmanaged,hfresh id mem_cons_self addr hc⟩]
      refine ih hrest huniverse fun j hj a ha hmem => ?_
      obtain rfl | hmem := mem_insert.mp hmem
      · exact hid (hb.single hc ha ▸ hj)
      · exact hfresh' j hj a ha hmem

lemma releaseExpired_of_noneExpired (h : NoneExpired env.now s ids) : releaseExpired env ids s = .ok () s := by
  induction ids with
  | nil => rfl
  | cons id rest ih =>
    obtain ⟨hid,hrest⟩ := forall_mem_cons.mp h
    rw [releaseExpired,Effect.get_bind]
    cases hrecord : s.records id with
    | none => exact ih hrest
    | some record =>
      simp only
      rw [if_neg]
      · exact ih hrest
      · rintro ⟨hcurrent,hexpired⟩
        exact hid record hrecord (Option.isSome_iff_ne_none.mp hcurrent) hexpired

variable {now : ℕ}

lemma Expires.current_eq_some (h : Expires now s s') (hc : s'.current id = some addr) : s.current id = some addr := by
  obtain heq | ⟨record,a,-,-,-,hreleased⟩ := h.records id
  · rw [current,← heq]
    exact hc
  · rw [current,hreleased] at hc
    cases hc

/-- The server that `new_from_state` builds before it releases the expired leases. -/
structure Loaded (env : Environment) (s s₀ : Server) : Prop where
  built : ∀ {params},s.store.params = some params →
    newFromState env s.store params s.store.options s.store.records = releaseExpiredLeases env s₀
  records : s₀.records = s.records
  universeSet : s₀.pool.universeSet = s.pool.universeSet
  booked : Booked s₀ ∅
  same : s₀ = { s with pool := s₀.pool }

lemma TrackedBooks.loaded (hb : TrackedBooks t) (hs : Stored t.server) (hiter : Iterated env t.server) :
    ∃ s₀,Loaded env t.server s₀ := by
  obtain ⟨pool,hpool⟩ : ∃ pool,allocateRecords t.server.records env.order
      (.new t.server.params.managedAddrs.poolRange) = .ok pool :=
    hb.booked.allocateRecords_ok hiter.1 hb.universeSet.symm fun _ _ addr _ => notMem_empty addr
  have halloc := allocateRecords_allocates hpool
  refine ⟨{ t.server with pool := pool },fun {params} hparams => ?_,rfl,halloc.universeSet.trans hb.universeSet.symm,
    halloc.booked hiter.2,rfl⟩
  rw [hs.params] at hparams
  cases hparams
  rw [newFromState,hs.records,hpool,hs.options]

def releaseBy : ClientIdentifier → Message
  | .id bytes => ⟨.bootrequest,0,0,false,unspecified,unspecified,unspecified,unspecified,[],"","",
      [.dhcpMessageType .dhcprelease,.clientIdentifier bytes]⟩
  | .chaddr mac => ⟨.bootrequest,0,0,false,unspecified,unspecified,unspecified,unspecified,mac,"","",
      [.dhcpMessageType .dhcprelease]⟩

lemma releaseBy_type (id : ClientIdentifier) : (releaseBy id).getDhcpType = .ok .dhcprelease := by
  cases id <;> rfl

lemma releaseBy_client (id : ClientIdentifier) : (releaseBy id).clientIdentifier = id := by
  cases id <;> rfl

lemma dispatch_releaseBy_ne_panic (hb : Booked s extra) (hc : s.current id = some addr) :
    dispatch env (releaseBy id) s ≠ .panic := by
  have hdispatch : dispatch env (releaseBy id) s = handleRelease env (releaseBy id) s := by
    simp only [dispatch,Effect.get_bind,releaseBy_type]
  have hcurrent : ∀ record,s.records (releaseBy id).clientIdentifier = some record → record.current ≠ none := by
    intro record hrecord hnone
    rw [releaseBy_client] at hrecord
    rw [current,hrecord] at hc
    exact Option.some_ne_none addr (hc.symm.trans hnone)
  have hends : Ends False (handleRelease env (releaseBy id)) s _ _ := handleRelease_ends hb (.inr hcurrent)
  rw [hdispatch]
  exact hends.ne_panic

lemma responses_releaseBy_ne (hb : Booked s extra) (hc : s.current id = some addr) {record : LeaseRecord}
    (hrecord : s'.records id = some record) (hcurrent : record.current = none) :
    responses [(env,releaseBy id)] s' ≠ responses [(env,releaseBy id)] s := by
  have htwice : ReleasesTwice s' (releaseBy id) :=
    ⟨releaseBy_type id,record,by rw [releaseBy_client,hrecord],hcurrent⟩
  have hpanic : dispatch env (releaseBy id) s' = .panic := htwice.dispatch_eq
  simp only [responses,hpanic]
  cases hx : dispatch env (releaseBy id) s with
  | panic => exact absurd hx (dispatch_releaseBy_ne_panic hb hc)
  | ok action s1 | fail e s1 => simp

/-- Along every run with a reliable data store from a server that it has the state of, in which the
parameters are not reset to another pool, the server can be restarted just if no address has been
declined and no lease has expired. -/
theorem reached_restarted_iff (h : Reachable StoredStart
      (fun t a => Iterated a.1 t.server ∧ Reliable a.1 ∧ KeepsPool t.server a.2) trackedStep t)
    (hiter : Iterated env t.server) :
    (∃ s',Restarted env t.server s') ↔ t.declined = ∅ ∧ NoneExpired env.now t.server env.order := by
  obtain ⟨hbooks,hstored⟩ := reached_stored h
  obtain ⟨s₀,hloaded⟩ := hbooks.loaded hstored hiter
  constructor
  · rintro ⟨s',hrestarted⟩
    obtain ⟨params,hparams,hbuilt⟩ := hrestarted.built
    have hends : Ends True (releaseExpiredLeases env) s₀ _ _ := releaseExpired_ends hloaded.booked
    obtain ⟨hb',hexpires,-,hnone⟩ := hends.of_ok ((hloaded.built hparams).symm.trans hbuilt)
    refine ⟨eq_empty_of_forall_notMem fun addr haddr => ?_,fun id hid record hrecord hcurrent hexpired => ?_⟩
    · -- The mark of a declined address is in the pool only: it is available after the restart.
      have halloc : addr ∈ t.server.pool.allocated := hbooks.booked.exact.mpr (.inr haddr)
      have hcurrent : ∀ id,t.server.current id ≠ some addr :=
        fun id hc => hbooks.booked.apart hc haddr
      have havailable : s'.pool.addrIsAvailable addr := by
        refine ⟨?_,fun hmem => ?_⟩
        · rw [hexpires.universeSet,hloaded.universeSet]
          exact hbooks.booked.managed halloc
        · obtain ⟨id,hc⟩ | hmem := hb'.exact.mp hmem
          · have hc := hexpires.current_eq_some hc
            rw [current,hloaded.records] at hc
            exact hcurrent id hc
          · exact notMem_empty addr hmem
      obtain hfree | ⟨id,record,hrecord,hc,-⟩ := hrestarted.available addr havailable
      · exact hfree.2 halloc
      · exact hcurrent id (Server.current_eq_some.mpr ⟨record,hrecord,hc⟩)
    · obtain ⟨addr,haddr⟩ := Option.ne_none_iff_exists'.mp hcurrent
      have hc : t.server.current id = some addr := Server.current_eq_some.mpr ⟨record,hrecord,haddr⟩
      obtain heq | ⟨r,a,-,-,-,hreleased⟩ := hexpires.records id
      · rw [hloaded.records,hrecord] at heq
        exact hnone id hid record heq hcurrent hexpired
      · exact responses_releaseBy_ne hbooks.booked hc hreleased rfl (hrestarted.answers [(env,_)])
  · rintro ⟨hdeclined,hnone⟩
    have hbooked := hdeclined ▸ hbooks.booked
    have hsame : s₀ = t.server := by
      rw [hloaded.same,hbooked.pool_eq hloaded.booked hloaded.records hloaded.universeSet]
    have hreleased : releaseExpiredLeases env t.server = .ok () t.server := releaseExpired_of_noneExpired hnone
    refine ⟨t.server,⟨_,hstored.params,?_⟩,rfl,fun _ => rfl,fun _ => .inl⟩
    rw [hloaded.built hstored.params,hsame,hreleased]

lemma sample_storedStart : StoredStart ⟨sampleServer,∅⟩ := .new sampleParams

lemma sample_reliable (seconds : ℕ) : Reliable (sampleEnv seconds true) := ⟨fun _ => rfl,rfl⟩

theorem reached_restarted_sample : ∃ t s',
    sampleRun [(0,sampleMessage .dhcpdiscover 1 unspecified [])] ⟨sampleServer,∅⟩ = some t ∧
    t.server.current (.id [1]) = some 2 ∧ Restarted (sampleEnv 5 true) t.server s' := by
  have hrun : (sampleRun [(0,sampleMessage .dhcpdiscover 1 unspecified [])] ⟨sampleServer,∅⟩).map (fun t =>
      (t.server.current (.id [1]),t.declined,sampleExpired 5 t.server,t.server.records (.id [2]))) =
      some (some 2,∅,some false,none) := by decide +kernel
  obtain ⟨t,ht,heq⟩ := Option.map_eq_some_iff.mp hrun
  simp only [Prod.mk.injEq] at heq
  obtain ⟨hcurrent,hdeclined,hexpired,hother⟩ := heq
  obtain ⟨hreached,hiter⟩ : Reachable StoredStart
      (fun t a => Iterated a.1 t.server ∧ Reliable a.1 ∧ KeepsPool t.server a.2) trackedStep t ∧ _ :=
    sampleRun_reached (fun _ seconds _ hiter => by exact ⟨hiter,sample_reliable seconds,trivial⟩) (.start sample_storedStart)
      sampleServer_books (fun seconds => new_iterated _ _ seconds true) (by decide) ht
  have hnone : NoneExpired (sampleEnv 5 true).now t.server (sampleEnv 5 true).order := by
    intro id hid record hrecord _
    obtain rfl | rfl : id = .id [1] ∨ id = .id [2] := by simpa [sampleEnv] using hid
    · exact sampleExpired_live hexpired hrecord
    · rw [hother] at hrecord
      cases hrecord
  obtain ⟨s',hs'⟩ := (reached_restarted_iff hreached (hiter 5)).mpr ⟨hdeclined,hnone⟩
  exact ⟨t,s',ht,hcurrent,hs'⟩

def sampleReset : ServerParameters :=
  { sampleParams with managedAddrs := ⟨sampleParams.managedAddrs.mask,5,7⟩ }

/-- After a reset to another pool the server goes on with the old one, until it is restarted. -/
theorem reached_restarted_reset : ∃ t,
    Reachable StoredStart (fun t a => Iterated a.1 t.server ∧ Reliable a.1) trackedStep t ∧
      ∃ env,Iterated env t.server ∧ ¬ ∃ s',Restarted env t.server s' := by
  have hstep : trackedStep ⟨sampleServer,∅⟩ (sampleEnv 0 true,.resetParameters sampleReset) =
      some ⟨(sampleServer.setParams sampleReset).setStore (sampleStore sampleReset),∅⟩ := rfl
  have hiter : Iterated (sampleEnv 0 true) sampleServer := new_iterated _ _ 0 true
  refine ⟨_,.step (.start sample_storedStart) ?_ hstep,sampleEnv 0 true,?_,?_⟩
  · exact ⟨hiter,sample_reliable 0⟩
  · exact ⟨hiter.1,fun _ hrecord => absurd rfl hrecord⟩
  rintro ⟨s',hrestarted⟩
  obtain ⟨params,hparams,hbuilt⟩ := hrestarted.built
  cases hparams
  have hnew : newFromState (sampleEnv 0 true) (sampleStore sampleReset) sampleReset (fun _ => none) (fun _ => none) =
      .ok () (.new (sampleStore sampleReset) sampleReset) := rfl
  cases hbuilt.symm.trans hnew
  exact absurd hrestarted.next (by decide +kernel)

/-- `new` leaves old records in the data store: here one with an address outside of the pool, with
which `new_from_state` fails. -/
theorem new_not_restarted : ∃ store,store.params = some sampleParams ∧ Iterated (sampleEnv 0 true) (.new store sampleParams) ∧
    ¬ ∃ s',Restarted (sampleEnv 0 true) (.new store sampleParams) s' := by
  let record : LeaseRecord := ⟨some 5,none,[],0,10⟩
  refine ⟨(sampleStore sampleParams).setRecord (.id [1]) (some record),rfl,new_iterated _ _ 0 true,?_⟩
  rintro ⟨s',hrestarted⟩
  obtain ⟨params,hparams,hbuilt⟩ := hrestarted.built
  cases hparams
  cases hbuilt

end Fuchsia.Dhcp.Server
