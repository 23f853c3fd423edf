import Fuchsia.Dhcp.Handlers
import Fuchsia.Lib.Transition

/-! What a client message does to the server, whatever it is. -/
namespace Fuchsia.Dhcp.Server

open Effect Function Transition Ends

variable {panics : Prop} {env : Environment} {s s' : Server} {id : ClientIdentifier}
  {addr : Ipv4Addr} {extra : Finset Ipv4Addr} {msg : Message}

/-- The answer to a message. -/
abbrev Outcome := Except ServerError ServerAction

def declinedBy (msg : Message) (outcome : Outcome) : Finset Ipv4Addr :=
  match msg.getDhcpType,outcome with
  | .ok .dhcpdecline,.ok _ => msg.getRequestedIpAddr.toFinset
  | .ok .dhcpdecline,.error (.dataStoreUpdateFailure _) => msg.getRequestedIpAddr.toFinset
  | _,_ => ∅

inductive Effected (env : Environment) (s : Server) (extra : Finset Ipv4Addr) (msg : Message) :
    Outcome → Server → Prop
  | same {outcome : Outcome} : msg.getDhcpType ≠ .ok .dhcpdiscover →
      (msg.getDhcpType = .ok .dhcprequest → outcome = s.handleRequest env msg) →
      declinedBy msg outcome = ∅ → Effected env s extra msg outcome s
  | offered {action : ServerAction} {s' : Server} {addr : Ipv4Addr} {s₁ : Server} :
      msg.getDhcpType = .ok .dhcpdiscover → Offered env s extra msg action s' addr s₁ →
      Effected env s extra msg (.ok action) s'
  | notOffered {e : ServerError} {s' s₁ : Server} : msg.getDhcpType = .ok .dhcpdiscover →
      NotOffered env s extra msg e s' s₁ → Effected env s extra msg (.error e) s'
  | declined {outcome : Outcome} {s' : Server} {addr : Ipv4Addr} :
      msg.getDhcpType = .ok .dhcpdecline → Declined env s msg.clientIdentifier addr s' →
      msg.getRequestedIpAddr = some addr → declinedBy msg outcome = {addr} →
      Effected env s extra msg outcome s'
  | released {outcome : Outcome} {s' : Server} {addr : Ipv4Addr} :
      msg.getDhcpType = .ok .dhcprelease → Released env s msg.clientIdentifier addr s' →
      Effected env s extra msg outcome s'

lemma declinedBy_of_ne {outcome : Outcome} (h : msg.getDhcpType ≠ .ok .dhcpdecline) : declinedBy msg outcome = ∅ := by
  unfold declinedBy
  split
  · next heq => exact absurd heq h
  · next heq => exact absurd heq h
  · rfl

lemma declinedBy_error {e : ServerError} (h : ∀ e',e ≠ .dataStoreUpdateFailure e') : declinedBy msg (.error e) = ∅ := by
  unfold declinedBy
  split
  · next heq => cases heq
  · next e' _ heq =>
    cases heq
    exact absurd rfl (h e')
  · rfl

lemma ofExcept_ends {A : Type} {x : Except ServerError A} :
    Ends panics (ofExcept x) s (fun a s' => s' = s ∧ x = .ok a) (fun e s' => s' = s ∧ x = .error e) := by
  cases x with
  | ok a => exact pure ⟨rfl,rfl⟩
  | error e => exact throw ⟨rfl,rfl⟩

/-- The client has a record without an address, and releases it. -/
def ReleasesTwice (s : Server) (msg : Message) : Prop := msg.getDhcpType = .ok .dhcprelease ∧
    ∃ record,s.records msg.clientIdentifier = some record ∧ record.current = none

lemma dispatch_ends (hb : Booked s extra) (hcoded : panics ∨ Coded s) (hrelease : panics ∨ ¬ ReleasesTwice s msg) :
    Ends panics (dispatch env msg) s (fun action s' => Effected env s extra msg (.ok action) s')
      (fun e s' => Effected env s extra msg (.error e) s') := by
  apply Ends.get_bind
  have hsame : ∀ {e : ServerError},msg.getDhcpType ≠ .ok .dhcpdiscover →
      msg.getDhcpType ≠ .ok .dhcprequest → (∀ e',e ≠ .dataStoreUpdateFailure e') →
      Effected env s extra msg (.error e) s :=
    fun hd hr he => .same hd (fun h => absurd h hr) (declinedBy_error he)
  cases htype : msg.getDhcpType with
  | error e =>
    simp only
    exact throw (hsame (by rw [htype]; exact nofun) (by rw [htype]; exact nofun) nofun)
  | ok t =>
    have hne : ∀ {t'},t' ≠ t → msg.getDhcpType ≠ .ok t' := by
      intro t' hne heq
      rw [htype] at heq
      exact hne (Except.ok.inj heq).symm
    cases t with
    | dhcpdiscover =>
      simp only
      refine (handleDiscover_ends hb hcoded).mono (fun action s' h => ?_) (fun e s' h => ?_)
      · obtain ⟨addr,s1,h⟩ := h
        exact .offered htype h
      · obtain ⟨s1,h⟩ := h
        exact .notOffered htype h
    | dhcprequest =>
      simp only
      have hrequest : ∀ {outcome : Outcome},s.handleRequest env msg = outcome → Effected env s extra msg outcome s :=
        fun heq => .same (hne nofun) (fun _ => heq.symm) (declinedBy_of_ne (hne nofun))
      exact ofExcept_ends.mono (fun _ _ h => h.1 ▸ hrequest h.2) (fun _ _ h => h.1 ▸ hrequest h.2)
    | dhcpdecline =>
      simp only
      refine (handleDecline_ends hb).mono (fun action s' h => ?_) (fun e s' h => ?_)
      · obtain ⟨addr,rfl,hrequested,h⟩ := h
        refine .declined htype h hrequested ?_
        simp only [declinedBy,htype,hrequested]
        rfl
      · obtain ⟨rfl,he⟩ | ⟨⟨e',rfl⟩,addr,hrequested,h⟩ := h
        · exact hsame (hne nofun) (hne nofun) he
        · refine .declined htype h hrequested ?_
          simp only [declinedBy,htype,hrequested]
          rfl
    | dhcprelease =>
      simp only
      have hrelease : panics ∨ ∀ record,s.records msg.clientIdentifier = some record → record.current ≠ none :=
        hrelease.imp_right fun h record hrecord hcurrent => h ⟨htype,record,hrecord,hcurrent⟩
      refine (handleRelease_ends hb hrelease).mono (fun action s' h => ?_) (fun e s' h => ?_)
      · obtain ⟨-,addr,h⟩ := h
        exact .released htype h
      · obtain rfl | ⟨addr,h⟩ := h
        · exact .same (hne nofun) (fun h => absurd h (hne nofun)) (declinedBy_of_ne (hne nofun))
        · exact .released htype h
    | dhcpinform =>
      simp only
      have hinform : ∀ {outcome : Outcome},Effected env s extra msg outcome s :=
        .same (hne nofun) (fun h => absurd h (hne nofun)) (declinedBy_of_ne (hne nofun))
      exact ofExcept_ends.mono (fun _ _ h => h.1 ▸ hinform) (fun _ _ h => h.1 ▸ hinform)
    | dhcpoffer | dhcpack | dhcpnak => exact throw (hsame (hne nofun) (hne nofun) nofun)

variable {outcome : Outcome}

lemma Effected.booked (h : Effected env s extra msg outcome s') (hb : Booked s extra) : ∃ extra',Booked s' extra' := by
  cases h with
  | same => exact ⟨extra,hb⟩
  | offered _ h => exact ⟨extra,h.booked⟩
  | notOffered _ h =>
    obtain hbooked | ⟨-,-,a,hbooked⟩ := h.booked
    · exact ⟨extra,hbooked⟩
    · exact ⟨_,hbooked⟩
  | declined _ h => exact ⟨_,h.booked hb⟩
  | released _ h =>
    obtain ⟨hc,record,-,h⟩ := h
    exact ⟨extra,h.booked hb hc⟩

structure SameConfig (s s' : Server) : Prop where
  params : s'.params = s.params
  optionsRepo : s'.optionsRepo = s.optionsRepo
  universeSet : s'.pool.universeSet = s.pool.universeSet

lemma Effected.config (h : Effected env s extra msg outcome s') : SameConfig s s' := by
  cases h with
  | same => exact ⟨rfl,rfl,rfl⟩
  | offered _ h =>
    have he := h.searched.expires
    have hl := h.leased
    exact ⟨hl.params.trans he.params,hl.optionsRepo.trans he.optionsRepo,hl.universeSet.trans he.universeSet⟩
  | notOffered _ h =>
    have he := h.searched.expires
    obtain rfl | hl := h.kept
    · exact ⟨he.params,he.optionsRepo,he.universeSet⟩
    · exact ⟨hl.params.trans he.params,hl.optionsRepo.trans he.optionsRepo,hl.universeSet.trans he.universeSet⟩
  | declined _ h =>
    obtain ⟨-,⟨store,rfl⟩,-⟩ := h
    exact ⟨rfl,rfl,rfl⟩
  | released _ h =>
    obtain ⟨-,record,-,⟨store,rfl⟩,-⟩ := h
    exact ⟨rfl,rfl,rfl⟩

lemma Effected.keeps (h : Effected env s extra msg outcome s') : Keeps env s s' := by
  cases h with
  | same => exact .refl _ _
  | offered _ h => exact h.searched.keeps.trans h.leased.keeps
  | notOffered _ h =>
    obtain rfl | hleaked := h.kept
    · exact h.searched.keeps
    · intro hreliable
      have hstored := hreliable.1 msg.clientIdentifier
      rw [hleaked.store] at hstored
      cases hstored
  | declined _ h => exact h.keeps
  | released _ h =>
    obtain ⟨-,record,-,h⟩ := h
    exact h.2

lemma Expires.same_of_live {now : ℕ} (h : Expires now s s')
    (hlive : ∀ record,s.records id = some record → ¬record.expired now) : s'.records id = s.records id :=
  (h.records id).resolve_right fun ⟨record,_,hrecord,_,hexpired,_⟩ => hlive record hrecord hexpired

lemma Effected.others (h : Effected env s extra msg outcome s') (hid : id ≠ msg.clientIdentifier)
    (hlive : ∀ record,s.records id = some record → ¬record.expired env.now) : s'.records id = s.records id := by
  cases h with
  | same => rfl
  | offered _ h =>
    obtain ⟨record,hrecords,-⟩ := h.leased.records
    rw [hrecords,update_of_ne hid]
    exact h.searched.expires.same_of_live hlive
  | notOffered _ h =>
    have hkeeps := h.searched.expires.same_of_live hlive
    obtain rfl | hl := h.kept
    · exact hkeeps
    · rw [hl.records]
      exact hkeeps
  | declined _ h =>
    obtain ⟨-,⟨store,rfl⟩,-⟩ := h
    exact update_of_ne hid _ _
  | released _ h =>
    obtain ⟨-,record,-,⟨store,rfl⟩,-⟩ := h
    exact update_of_ne hid _ _

lemma Effected.iterated {env' : Environment} (h : Effected env s extra msg outcome s') (hiter : Iterated env' s)
    (hclient : msg.clientIdentifier ∈ env'.order) : Iterated env' s' := by
  refine ⟨hiter.1,fun id hid => ?_⟩
  by_contra hnot
  have hnone : s.records id = none := by_contra fun hrecord => hnot (hiter.2 id hrecord)
  have hne : id ≠ msg.clientIdentifier := by
    rintro rfl
    exact hnot hclient
  refine hid ((h.others hne fun record hrecord => ?_).trans hnone)
  rw [hnone] at hrecord
  cases hrecord

open Finset List

variable {records : ClientIdentifier → Option LeaseRecord} {pool pool' : AddressPool}

structure Allocates (records : ClientIdentifier → Option LeaseRecord) (ids : List ClientIdentifier)
    (pool pool' : AddressPool) : Prop where
  universeSet : pool'.universeSet = pool.universeSet
  allocated : ∀ addr,addr ∈ pool'.allocated ↔ addr ∈ pool.allocated ∨
    ∃ id ∈ ids,(records id).bind LeaseRecord.current = some addr
  managed : ∀ addr ∈ pool'.allocated,addr ∈ pool.allocated ∨ addr ∈ pool.universeSet
  fresh : ∀ id ∈ ids,∀ addr,(records id).bind LeaseRecord.current = some addr → addr ∉ pool.allocated
  single : ∀ id ∈ ids,∀ id' ∈ ids,∀ addr,(records id).bind LeaseRecord.current = some addr →
    (records id').bind LeaseRecord.current = some addr → id = id'

lemma allocateAddr_eq_ok (h : pool.allocateAddr addr = .ok pool') : addr ∈ pool.universeSet ∧ addr ∉ pool.allocated ∧
      pool' = { pool with allocated := insert addr pool.allocated } := by
  unfold AddressPool.allocateAddr at h
  split_ifs at h with hmanaged halloc
  exact ⟨hmanaged,halloc,(Except.ok.inj h).symm⟩

variable {ids : List ClientIdentifier}

lemma allocateRecords_allocates (h : allocateRecords records ids pool = .ok pool') :
    Allocates records ids pool pool' := by
  induction ids generalizing pool with
  | nil =>
    cases h
    exact ⟨rfl,by simp,fun _ h => .inl h,nofun,nofun⟩
  | cons id rest ih =>
    unfold allocateRecords at h
    cases hc : (records id).bind LeaseRecord.current with
    | none =>
      simp only [hc] at h
      have hrest := ih h
      refine ⟨hrest.universeSet,fun a => ?_,hrest.managed,fun j hj => ?_,?_⟩
      · rw [hrest.allocated]
        simp [hc]
      · obtain rfl | hj := mem_cons.mp hj
        · simp [hc]
        · exact hrest.fresh j hj
      · intro i hi j hj a hia hja
        obtain rfl | hi := mem_cons.mp hi
        · simp [hc] at hia
        · obtain rfl | hj := mem_cons.mp hj
          · simp [hc] at hja
          · exact hrest.single i hi j hj a hia hja
    | some a =>
      simp only [hc] at h
      cases hadd : pool.allocateAddr a with
      | error e =>
        rw [hadd] at h
        cases h
      | ok pool1 =>
        rw [hadd] at h
        have hrest := ih h
        obtain ⟨hmanaged,hfresh,rfl⟩ := allocateAddr_eq_ok hadd
        have hne : ∀ j ∈ rest,(records j).bind LeaseRecord.current ≠ some a :=
          fun j hj ha => hrest.fresh j hj a ha (mem_insert_self a _)
        refine ⟨hrest.universeSet,fun b => ?_,fun b hb => ?_,fun j hj b hb => ?_,?_⟩
        · rw [hrest.allocated]
          simp only [mem_insert,exists_mem_cons_iff,hc,Option.some.injEq]
          tauto
        · obtain hb | hb := hrest.managed b hb
          · obtain rfl | hb := mem_insert.mp hb
            · exact .inr hmanaged
            · exact .inl hb
          · exact .inr hb
        · obtain rfl | hj := mem_cons.mp hj
          · rw [hc] at hb
            cases hb
            exact hfresh
          · exact fun hb' => hrest.fresh j hj b hb (mem_insert_of_mem hb')
        · intro i hi j hj b hib hjb
          obtain rfl | hi' := mem_cons.mp hi
          · obtain rfl | hj' := mem_cons.mp hj
            · rfl
            · rw [hc] at hib
              cases hib
              exact absurd hjb (hne j hj')
          · obtain rfl | hj' := mem_cons.mp hj
            · rw [hc] at hjb
              cases hjb
              exact absurd hib (hne i hi')
            · exact hrest.single i hi' j hj' b hib hjb

variable {optionsRepo : OptionCode → Option DhcpOption} {params : ServerParameters} {store : DataStore}

lemma Allocates.booked {addresses : Finset Ipv4Addr} (h : Allocates records ids (.new addresses) pool)
    (hids : ∀ id,records id ≠ none → id ∈ ids) : Booked ⟨records,pool,params,store,optionsRepo⟩ ∅ := by
  have hmem : ∀ {id addr},(records id).bind LeaseRecord.current = some addr → id ∈ ids := by
    intro id addr hc
    refine hids id fun hnone => ?_
    rw [hnone] at hc
    cases hc
  refine ⟨fun a ha => ?_,fun {a} => ?_,fun _ => notMem_empty _,fun {i j a} hi hj => ?_⟩
  · change a ∈ pool.universeSet
    rw [h.universeSet]
    exact (h.managed a ha).resolve_left (notMem_empty a)
  · refine (h.allocated a).trans ?_
    constructor
    · rintro (ha | ⟨id,-,hc⟩)
      · exact absurd ha (notMem_empty a)
      · exact .inl ⟨id,hc⟩
    · rintro (⟨id,hc⟩ | ha)
      · exact .inr ⟨id,hmem hc,hc⟩
      · exact absurd ha (notMem_empty a)
  · exact h.single i (hmem hi) j (hmem hj) a hi hj

/-- The servers that `new` builds, and those that `new_from_state` builds. -/
inductive Start : Server → Prop
  | new (store : DataStore) (params : ServerParameters) : Start (.new store params)
  | newFromState {records : ClientIdentifier → Option LeaseRecord} {env : Environment}
      {store : DataStore} {params : ServerParameters} {optionsRepo : OptionCode → Option DhcpOption} {s : Server}
      (order : ∀ id,records id ≠ none → id ∈ env.order)
      (built : newFromState env store params optionsRepo records = .ok () s) : Start s

lemma Start.booked (h : Start s) : Booked s ∅ ∧ s.pool.universeSet = s.params.managedAddrs.poolRange := by
  cases h with
  | new store params => exact ⟨booked_of_none (fun _ => rfl) (empty_subset _) fun _ => Iff.rfl,rfl⟩
  | @newFromState records env store params optionsRepo _ order built =>
    unfold Server.newFromState at built
    cases hpool : allocateRecords records env.order (.new params.managedAddrs.poolRange) with
    | error e =>
      rw [hpool] at built
      cases built
    | ok pool =>
      rw [hpool] at built
      have halloc := allocateRecords_allocates hpool
      have hends : Ends True (releaseExpiredLeases env) ⟨records,pool,params,store,optionsRepo⟩ _ _ :=
        releaseExpired_ends (halloc.booked order)
      have hok := hends.of_ok built
      refine ⟨hok.1,?_⟩
      rw [hok.2.1.universeSet,hok.2.1.params]
      exact halloc.universeSet

/-- One message, unless the server panics. -/
def messageStep (s : Server) (m : Environment × Message) : Option Server :=
  match dispatch m.1 m.2 s with
  | .ok _ s' => some s'
  | .fail _ s' => some s'
  | .panic => none

/-- The server after messages of clients, with any pattern of failures of the data store. -/
def Served : Server → Prop := Reachable Start (fun _ _ => True) messageStep

lemma Served.booked (h : Served s) : ∃ extra,Booked s extra := by
  refine Reachable.invariant (I := fun s => ∃ extra,Booked s extra) h (fun s hs => ⟨∅,hs.booked.1⟩) ?_
  rintro s ⟨env,msg⟩ s' ⟨extra,hb⟩ - hstep
  have hends : Ends True (dispatch env msg) s _ _ := dispatch_ends hb (.inl trivial) (.inl trivial)
  unfold messageStep at hstep
  split at hstep
  · next hd =>
    cases hstep
    exact (hends.of_ok hd).booked hb
  · next hd =>
    cases hstep
    exact (hends.of_fail hd).booked hb
  · cases hstep

/-- While the lease of a client has not expired, no messages of other clients change its record,
also where the data store fails. -/
theorem served_isolated (h : Served s) (hrun : Reachable (· = s) (fun t m => m.2.clientIdentifier ≠ id ∧
      ∀ record,t.records id = some record → ¬record.expired m.1.now) messageStep s') :
    s'.records id = s.records id := by
  refine (hrun.invariant (I := fun t => Served t ∧ t.records id = s.records id) ?_ ?_).2
  · rintro _ rfl
    exact ⟨h,rfl⟩
  · rintro t ⟨env,msg⟩ t' ⟨ht,heq⟩ ⟨hid,hlive⟩ hstep
    refine ⟨.step ht trivial hstep,Eq.trans ?_ heq⟩
    obtain ⟨extra,hb⟩ := ht.booked
    have hends : Ends True (dispatch env msg) t _ _ := dispatch_ends hb (.inl trivial) (.inl trivial)
    unfold messageStep at hstep
    split at hstep
    · next hd =>
      cases hstep
      exact (hends.of_ok hd).others hid.symm hlive
    · next hd =>
      cases hstep
      exact (hends.of_fail hd).others hid.symm hlive
    · cases hstep

lemma ReleasesTwice.dispatch_eq (h : ReleasesTwice s msg) : dispatch env msg s = .panic := by
  obtain ⟨htype,record,hrecord,hcurrent⟩ := h
  have hpanic : releaseLeasedAddr env msg.clientIdentifier s = .panic := by
    simp only [releaseLeasedAddr,Effect.get_bind,hrecord,hcurrent]
    rfl
  simp only [dispatch,handleRelease,Effect.get_bind,htype,hrecord]
  exact bind_of_panic hpanic

/-- The one message that crashes the server is a release by a client whose record has no
address. -/
theorem dispatch_panics_iff_releasesTwice (env : Environment) (msg : Message) (h : Served s)
    (hcoded : Coded s) : dispatch env msg s = .panic ↔ ReleasesTwice s msg := by
  obtain ⟨extra,hb⟩ := h.booked
  constructor
  · intro hpanic
    by_contra hnot
    have hends : Ends False (dispatch env msg) s _ _ := dispatch_ends hb (.inr hcoded) (.inr hnot)
    exact hends.ne_panic hpanic
  · exact ReleasesTwice.dispatch_eq

def sampleParams : ServerParameters := ⟨[1],⟨10,10⟩,⟨⟨24,by decide⟩,2,4⟩⟩

def sampleStore (params : ServerParameters) : DataStore := ⟨fun _ => none,fun _ => none,some params⟩

def sampleServer : Server := .new (sampleStore sampleParams) sampleParams

def sampleMessage (t : MessageType) (client : UInt8) (ciaddr : Ipv4Addr) (options : List DhcpOption) :
    Message :=
  ⟨.bootrequest,0,0,false,ciaddr,unspecified,unspecified,unspecified,[],"","",
    .dhcpMessageType t::.clientIdentifier [client]::options⟩

def sampleEnv (seconds : ℕ) (stored : Bool) : Environment :=
  ⟨seconds*second,seconds*second,fun _ => stored,true,[.id [1],.id [2]]⟩

def sampleReleased : Option Server := run (fun _ _ => True) messageStep sampleServer
    [(sampleEnv 0 true,sampleMessage .dhcpdiscover 1 unspecified []),
      (sampleEnv 1 true,sampleMessage .dhcprelease 1 2 [])]

lemma sampleReleased_served : ∃ s,sampleReleased = some s ∧ Served s := by
  have hsome : sampleReleased.isSome := by decide +kernel
  obtain ⟨s,hs⟩ := Option.isSome_iff_exists.mp hsome
  exact ⟨s,hs,(Reachable.start (.new _ _)).run hs⟩

/-- A second release by the client crashes the server. -/
theorem dispatch_panics_release : ∃ s env msg,Served s ∧ dispatch env msg s = .panic := by
  obtain ⟨s,hs,hserved⟩ := sampleReleased_served
  refine ⟨s,sampleEnv 2 true,sampleMessage .dhcprelease 1 2 [],hserved,?_⟩
  have hnone : (sampleReleased.bind fun s =>
      messageStep s (sampleEnv 2 true,sampleMessage .dhcprelease 1 2 [])).isNone := by
    decide +kernel
  rw [hs] at hnone
  simp only [Option.bind_some,messageStep] at hnone
  split at hnone
  · cases hnone
  · cases hnone
  · next h => exact h

theorem dispatch_panics_iff_releasesTwice_sample : ∃ s,Served s ∧ Coded s ∧
    (dispatch (sampleEnv 2 true) (sampleMessage .dhcprelease 1 2 []) s = .panic ↔
      ReleasesTwice s (sampleMessage .dhcprelease 1 2 [])) := by
  obtain ⟨s,hs,hserved⟩ := sampleReleased_served
  have hrepo : sampleReleased.map optionsRepo = some fun _ => none := rfl
  have hcoded : Coded s := by
    rw [hs] at hrepo
    intro code opt _ hopt
    rw [Option.some.inj hrepo] at hopt
    cases hopt
  exact ⟨s,hserved,hcoded,dispatch_panics_iff_releasesTwice _ _ hserved hcoded⟩

def sampleLeased : Option Server := messageStep sampleServer (sampleEnv 0 true,sampleMessage .dhcpdiscover 1 unspecified [])

def sampleExpired (seconds : ℕ) (s : Server) : Option Bool :=
  (s.records (.id [1])).map fun record => record.expired (sampleEnv seconds true).now

lemma sampleExpired_live {seconds : ℕ} (h : sampleExpired seconds s = some false) {record : LeaseRecord}
    (hrecord : s.records (.id [1]) = some record) : ¬record.expired (sampleEnv seconds true).now := by
  rw [sampleExpired,hrecord] at h
  exact of_decide_eq_false (Option.some.inj h)

theorem served_isolated_sample : ∃ s s₁ s',Served s ∧ s.current (.id [1]) = some 2 ∧
    messageStep s (sampleEnv 2 true,sampleMessage .dhcpdiscover 2 unspecified [.requestedIpAddress 2]) = some s₁ ∧
    messageStep s₁ (sampleEnv 3 true,sampleMessage .dhcprelease 2 3 []) = some s' ∧
    s'.records (.id [1]) = s.records (.id [1]) := by
  have hsome : (sampleLeased.bind fun s =>
      (messageStep s (sampleEnv 2 true,sampleMessage .dhcpdiscover 2 unspecified [.requestedIpAddress 2])).bind fun s₁ =>
      (messageStep s₁ (sampleEnv 3 true,sampleMessage .dhcprelease 2 3 [])).map fun _ =>
        (s.current (.id [1]),sampleExpired 2 s,sampleExpired 3 s₁)) = some (some 2,some false,some false) := by
    decide +kernel
  obtain ⟨s,hs,hsome⟩ := Option.bind_eq_some_iff.mp hsome
  obtain ⟨s₁,hs₁,hsome⟩ := Option.bind_eq_some_iff.mp hsome
  obtain ⟨s',hs',heq⟩ := Option.map_eq_some_iff.mp hsome
  simp only [Prod.mk.injEq] at heq
  obtain ⟨hcurrent,hlive,hlive₁⟩ := heq
  have hserved : Served s := .step (.start (.new _ _)) trivial hs
  refine ⟨s,s₁,s',hserved,hcurrent,hs₁,hs',served_isolated hserved (.step (.step (.start rfl) ?_ hs₁) ?_ hs')⟩
  · exact ⟨by decide,fun _ => sampleExpired_live hlive⟩
  · exact ⟨by decide,fun _ => sampleExpired_live hlive₁⟩

end Fuchsia.Dhcp.Server
