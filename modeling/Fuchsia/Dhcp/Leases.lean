import Fuchsia.Dhcp.Bookkeeping

/-! The leases that clients are told of, against those that the server has on record. -/
namespace Fuchsia.Dhcp

open Effect Function Transition Option LeaseRecord

def LeaseRecord.grace (r : LeaseRecord) : ℕ := r.leaseEnd+(leaseTime r.options).getD 0*second

namespace Server

variable {env : Environment} {s s' s1 : Server} {extra : Finset Ipv4Addr} {msg m : Message}
  {outcome : Outcome} {target : ResponseTarget} {addr : Ipv4Addr}

/-- The address that an answer offers or acknowledges. -/
def granted (msg : Message) : Outcome → Option Ipv4Addr
  | .ok (.sendResponse m _) =>
    match msg.getDhcpType,m.getDhcpType with
    | .ok .dhcpdiscover,.ok .dhcpoffer => some m.yiaddr
    | .ok .dhcprequest,.ok .dhcpack => some m.yiaddr
    | _,_ => none
  | _ => none

structure Promise where
  client : ClientIdentifier
  addr : Ipv4Addr
  expiry : ℕ
  deriving DecidableEq

def promised (env : Environment) (msg : Message) : Outcome → List Promise
  | .ok (.sendResponse m _) =>
    match msg.getDhcpType,m.getDhcpType,leaseTime m.options with
    | .ok .dhcprequest,.ok .dhcpack,some seconds =>
      [⟨msg.clientIdentifier,m.yiaddr,env.later+seconds*second⟩]
    | _,_,_ => []
  | _ => []

def givenBack (msg : Message) : Option Ipv4Addr :=
  match msg.getDhcpType with
  | .ok .dhcprelease => some msg.ciaddr
  | .ok .dhcpdecline => msg.getRequestedIpAddr
  | _ => none

def GivesBack (msg : Message) (p : Promise) : Prop :=
  p.client = msg.clientIdentifier ∧ givenBack msg = some p.addr

instance (msg : Message) (p : Promise) : Decidable (GivesBack msg p) :=
  inferInstanceAs (Decidable (_ ∧ _))

/-- The server, the clock, and the leases that were acknowledged and not given back. -/
structure Watched where
  server : Server
  clock : ℕ
  ledger : List Promise

inductive Event
  | message (msg : Message)
  | clear
  deriving DecidableEq

def watchedStep (w : Watched) : Environment × Event → Option Watched
  | (env,.message msg) =>
    let kept := w.ledger.filter fun p => ¬ GivesBack msg p
    match dispatch env msg w.server with
    | .ok action s => some ⟨s,env.later,promised env msg (.ok action)++kept⟩
    | .fail _ s => some ⟨s,env.later,kept⟩
    | .panic => none
  | (env,.clear) =>
    match dispatchClearLeases env w.server with
    | .ok _ s => some ⟨s,env.later,[]⟩
    | .fail _ s => some ⟨s,env.later,[]⟩
    | .panic => none

inductive WatchedStart : Watched → Prop
  | start {s : Server} (clock : ℕ) : Start s → WatchedStart ⟨s,clock,[]⟩

/-- The clock does not go back. -/
def Timed (w : Watched) (a : Environment × Event) : Prop :=
  w.clock ≤ a.1.now ∧ a.1.now ≤ a.1.later ∧ (a.2 = .clear → Iterated a.1 w.server)

/-- Expired leases are released only after their grace, a client that discovers the server
again does not shorten its lease, an answer to a request leaves before the end of the lease,
and a client releases the address that it has. -/
def Patient (s : Server) (env : Environment) : Event → Prop
  | .clear => True
  | .message msg =>
    match msg.getDhcpType with
    | .ok .dhcpdiscover =>
      (s.current msg.clientIdentifier = none → s.pool.next = none → ∀ id record,
        s.records id = some record → record.current ≠ none → record.expired env.now →
        record.grace ≤ env.now) ∧
      ∀ record,s.records msg.clientIdentifier = some record → record.current ≠ none →
        record.grace ≤ (env.later/second+s.offeredLeaseTime msg)*second+ s.offeredLeaseTime msg*second
    | .ok .dhcprequest => ∀ record,s.records msg.clientIdentifier = some record →
        record.current ≠ none → ¬ record.expired env.now → env.later ≤ record.leaseEnd
    | .ok .dhcprelease => ∀ addr,s.current msg.clientIdentifier = some addr → addr = msg.ciaddr
    | _ => True

variable {reason : NakReason}

lemma sendNak_type (h : (do
      let (nak,dest) ← s.buildNak msg reason
      return ServerAction.sendResponse nak dest) = .ok (.sendResponse m target)) :
    m.getDhcpType = .ok .dhcpnak := by
  cases hnak : s.buildNak msg reason with
  | error e =>
    rw [hnak] at h
    cases h
  | ok answer =>
    rw [hnak] at h
    cases h
    unfold buildNak at hnak
    cases hip : s.getServerIp msg with
    | error e =>
      rw [hip] at hnak
      cases hnak
    | ok serverIp =>
      rw [hip] at hnak
      simp only [bind,Except.bind,pure,Except.pure] at hnak
      split_ifs at hnak
      · cases hnak
        rfl
      · cases hnak
        rfl

structure Acked (env : Environment) (s : Server) (msg m : Message) (record : LeaseRecord) : Prop where
  records : s.records msg.clientIdentifier = some record
  current : record.current = some m.yiaddr
  fresh : ¬ record.expired env.now
  leaseTime : leaseTime m.options = leaseTime record.options

lemma buildResponse_acked (h : s.buildResponse env msg addr = .ok (.sendResponse m target))
    (hack : m.getDhcpType = .ok .dhcpack) : ∃ record,Acked env s msg m record := by
  unfold buildResponse at h
  cases hvalid : s.validateRequestedAddrWithClient env msg addr with
  | error e =>
    simp only [hvalid] at h
    rw [sendNak_type h] at hack
    cases hack
  | ok =>
    simp only [hvalid,buildAck] at h
    unfold validateRequestedAddrWithClient at hvalid
    cases hrecord : s.records msg.clientIdentifier with
    | none => simp [hrecord] at hvalid
    | some record =>
      cases hcurrent : record.current with
      | none => simp [hrecord,hcurrent] at hvalid
      | some a =>
        simp only [hrecord,hcurrent] at hvalid h
        split_ifs at hvalid with hne hexpired halloc
        cases h
        exact ⟨record,hrecord,by rw [hcurrent,not_not.mp hne],hexpired,rfl⟩

lemma handleRequest_acked (h : s.handleRequest env msg = .ok (.sendResponse m target))
    (hack : m.getDhcpType = .ok .dhcpack) : ∃ record,Acked env s msg m record := by
  unfold handleRequest at h
  split at h
  · cases h
  · unfold handleRequestSelecting at h
    split at h
    · cases h
    · split at h
      · exact buildResponse_acked h hack
      · split at h <;> cases h
  · unfold handleRequestInitReboot at h
    split at h
    · cases h
    · split_ifs at h
      · exact buildResponse_acked h hack
      · rw [sendNak_type h] at hack
        cases hack
  · exact buildResponse_acked h hack

def Backed (s : Server) (p : Promise) : Prop :=
  ∃ record,s.records p.client = some record ∧ record.current = some p.addr ∧ p.expiry ≤ record.grace

variable {p : Promise}

lemma Backed.current (h : Backed s p) : s.current p.client = some p.addr := by
  obtain ⟨record,hrecord,hcurrent,-⟩ := h
  exact current_eq_some.mpr ⟨record,hrecord,hcurrent⟩

lemma Backed.congr {p : Promise} (h : Backed s p) (hrecords : s'.records p.client = s.records p.client) :
    Backed s' p := by
  obtain ⟨record,hrecord,hrest⟩ := h
  exact ⟨record,hrecords.trans hrecord,hrest⟩

lemma Searched.backed (h : Searched env s msg.clientIdentifier extra s1)
    (htype : msg.getDhcpType = .ok .dhcpdiscover) (hpatient : Patient s env (.message msg))
    (hp : Backed s p) : p.expiry ≤ env.now ∨ s1.records p.client = s.records p.client := by
  simp only [Patient,htype] at hpatient
  obtain rfl | ⟨hnone,hnext⟩ := h.reclaims
  · exact .inr rfl
  · obtain heq | ⟨record,a,hrecord,hcurrent,hexpired,-⟩ := h.expires.records p.client
    · exact .inr heq
    · obtain ⟨record',hrecord',-,hgrace⟩ := hp
      rw [hrecord] at hrecord'
      cases hrecord'
      left
      calc p.expiry ≤ record.grace := hgrace
        _ ≤ env.now := hpatient.1 hnone hnext p.client record hrecord (by simp [hcurrent]) hexpired

lemma Offered.backed_self {action : ServerAction} (hpatient : Patient s env (.message msg))
    (htype : msg.getDhcpType = .ok .dhcpdiscover) (h : Offered env s extra msg action s' addr s1)
    (hp : Backed s p) (hself : p.client = msg.clientIdentifier) : Backed s' p := by
  simp only [Patient,htype] at hpatient
  obtain ⟨record,hrecord,hcurrent,hgrace⟩ := hp
  obtain ⟨new,hrecords,hnew,hstart,hlength,htime⟩ := h.leased.records
  have hc : s1.current p.client = some p.addr :=
    current_eq_some.mpr ⟨record,by rw [hself,h.same,← hself,hrecord],hcurrent⟩
  have haddr : addr = p.addr := by
    obtain ho | ⟨ho,-⟩ := h.offerable
    · rw [← hself,hc] at ho
      exact (some.inj ho).symm
    · rw [← hself,hc] at ho
      cases ho
  have hoffered : s1.offeredLeaseTime msg = s.offeredLeaseTime msg := by
    rw [offeredLeaseTime,offeredLeaseTime,h.searched.expires.params]
  refine ⟨new,?_,by rw [hnew,haddr],?_⟩
  · rw [hrecords,hself,update_self]
  · calc p.expiry ≤ record.grace := hgrace
      _ ≤ _ := hpatient.2 record (hself ▸ hrecord) (by simp [hcurrent])
      _ = new.grace := by
        rw [grace,leaseEnd,htime,hstart,hlength,hoffered]
        rfl

lemma Effected.backed (h : Effected env s extra msg outcome s') (hpatient : Patient s env (.message msg))
    (hp : Backed s p) (hkept : ¬ GivesBack msg p) : p.expiry ≤ env.now ∨ Backed s' p := by
  cases h with
  | same => exact .inr hp
  | offered htype h =>
    by_cases hself : p.client = msg.clientIdentifier
    · exact .inr (h.backed_self hpatient htype hp hself)
    · obtain hended | heq := h.searched.backed htype hpatient hp
      · exact .inl hended
      · obtain ⟨record,hrecords,-⟩ := h.leased.records
        refine .inr ((hp.congr heq).congr ?_)
        rw [hrecords,update_of_ne hself]
  | notOffered htype h =>
    refine (h.searched.backed htype hpatient hp).imp_right fun heq => hp.congr ?_
    obtain rfl | hleaked := h.kept
    · exact heq
    · rw [hleaked.records]
      exact heq
  | @declined _ _ addr htype h hrequested =>
    have hne : p.client ≠ msg.clientIdentifier := by
      intro heq
      have hc := hp.current
      rw [heq,h.current] at hc
      refine hkept ⟨heq,?_⟩
      rw [givenBack,htype,← hc]
      exact hrequested
    obtain ⟨-,⟨store,rfl⟩,-⟩ := h
    exact .inr (hp.congr (update_of_ne hne _ _))
  | released htype h =>
    have hne : p.client ≠ msg.clientIdentifier := by
      intro heq
      simp only [Patient,htype] at hpatient
      refine hkept ⟨heq,?_⟩
      rw [givenBack,htype,hpatient p.addr (heq ▸ hp.current)]
    obtain ⟨-,record,-,⟨store,rfl⟩,-⟩ := h
    exact .inr (hp.congr (update_of_ne hne _ _))

lemma Effected.promised_backed (h : Effected env s extra msg outcome s')
    (hpatient : Patient s env (.message msg)) (hp : p ∈ promised env msg outcome) : Backed s' p := by
  unfold promised at hp
  split at hp
  · next m target =>
    split at hp
    · next seconds htype hack hseconds =>
      rw [List.mem_singleton] at hp
      subst hp
      cases h with
      | same _ hrequest =>
        obtain ⟨record,hacked⟩ := handleRequest_acked (hrequest htype).symm hack
        simp only [Patient,htype] at hpatient
        have hlater := hpatient record hacked.records (by simp [hacked.current]) hacked.fresh
        refine ⟨record,hacked.records,hacked.current,?_⟩
        rw [grace,← hacked.leaseTime,hseconds]
        exact Nat.add_le_add_right hlater _
      | offered htype' | declined htype' | released htype' => simp [htype] at htype'
    · cases hp
  · cases hp

lemma Effected.granted_exclusive (hb : Booked s extra) (h : Effected env s extra msg outcome s')
    (hpatient : Patient s env (.message msg)) (hgranted : granted msg outcome = some p.addr)
    (hne : p.client ≠ msg.clientIdentifier) (hp : Backed s p) : p.expiry ≤ env.now := by
  unfold granted at hgranted
  split at hgranted
  · next m target =>
    split at hgranted
    · next htype _ =>
      cases h with
      | same hne' => exact absurd htype hne'
      | offered _ h =>
        obtain ⟨offer,haction,hoffer⟩ := h.offer
        cases haction
        obtain hended | heq := h.searched.backed htype hpatient hp
        · exact hended
        · have hc := (hp.congr heq).current
          exfalso
          rw [← some.inj hgranted,hoffer.yiaddr] at hc
          obtain ho | ⟨-,hav⟩ := h.offerable
          · exact hne (h.searched.booked.single hc ho)
          · exact hav.2 (h.searched.booked.allocated hc)
      | declined htype' | released htype' => simp [htype] at htype'
    · next htype hack =>
      cases h with
      | same _ hrequest =>
        obtain ⟨record,hacked⟩ := handleRequest_acked (hrequest htype).symm hack
        have hc : s.current msg.clientIdentifier = some p.addr := by
          rw [← some.inj hgranted]
          exact current_eq_some.mpr ⟨record,hacked.records,hacked.current⟩
        exact absurd (hb.single hp.current hc) hne
      | offered htype' | declined htype' | released htype' => simp [htype] at htype'
    · cases hgranted
  · cases hgranted

structure Honest (w : Watched) : Prop where
  booked : ∃ extra,Booked w.server extra
  backed : ∀ p ∈ w.ledger,p.expiry ≤ w.clock ∨ Backed w.server p

lemma Effected.honest {w : Watched} (hb : Booked w.server extra) (hw : Honest w) (htimed : Timed w (env,.message msg))
    (hpatient : Patient w.server env (.message msg)) (h : Effected env w.server extra msg outcome s') :
    Honest ⟨s',env.later,promised env msg outcome++w.ledger.filter fun p => ¬ GivesBack msg p⟩ := by
  obtain ⟨hclock,hlater,-⟩ := htimed
  refine ⟨h.booked hb,fun p hp => ?_⟩
  obtain hp | hp := List.mem_append.mp hp
  · exact .inr (h.promised_backed hpatient hp)
  · obtain ⟨hmem,hkept⟩ := List.mem_filter.mp hp
    obtain hended | hbacked := hw.backed p hmem
    · exact .inl (hended.trans (hclock.trans hlater))
    · refine (h.backed hpatient hbacked (of_decide_eq_true hkept)).imp_left fun hended => ?_
      exact hended.trans hlater

lemma watchedStep_honest {w w' : Watched} {event : Event} (hw : Honest w) (htimed : Timed w (env,event))
    (hpatient : Patient w.server env event) (hstep : watchedStep w (env,event) = some w') : Honest w' := by
  obtain ⟨extra,hb⟩ := hw.booked
  cases event with
  | message msg =>
    have hends : Ends True (dispatch env msg) w.server _ _ := dispatch_ends hb (.inl trivial) (.inl trivial)
    simp only [watchedStep] at hstep
    split at hstep
    · next action s' hd =>
      cases hstep
      exact (hends.of_ok hd).honest hb hw htimed hpatient
    · next e s' hd =>
      cases hstep
      exact (hends.of_fail hd).honest hb hw htimed hpatient
    · cases hstep
  | clear =>
    have hends : Ends True (dispatchClearLeases env) w.server _ _ :=
      dispatchClearLeases_ends hb (htimed.2.2 rfl)
    simp only [watchedStep] at hstep
    split at hstep
    · next s' hd =>
      cases hstep
      exact ⟨⟨extra,(hends.of_ok hd).2⟩,nofun⟩
    · next e s' hd =>
      cases hstep
      have hcleared := (hends.of_fail hd).1
      exact ⟨⟨_,booked_of_none (fun id => by rw [current,hcleared.records]; rfl) hcleared.managed
        fun _ => Iff.rfl⟩,nofun⟩
    · cases hstep

/-- Along every patient run, an address is offered or acknowledged to a client only when the
leases of it that other clients were told of have ended. -/
theorem reached_exclusive {w : Watched}
    (h : Reachable WatchedStart (fun w a => Timed w a ∧ Patient w.server a.1 a.2) watchedStep w)
    (env : Environment) (msg : Message) (htimed : Timed w (env,.message msg))
    (hpatient : Patient w.server env (.message msg)) (action : ServerAction) (s' : Server)
    (hanswer : dispatch env msg w.server = .ok action s') :
    ∀ p ∈ w.ledger,granted msg (.ok action) = some p.addr → p.client ≠ msg.clientIdentifier →
      p.expiry ≤ env.now := by
  have hw : Honest w := by
    refine h.invariant (I := Honest) ?_ ?_
    · rintro _ ⟨clock,hs⟩
      exact ⟨⟨∅,hs.booked.1⟩,nofun⟩
    · rintro w ⟨env,event⟩ w' hw ⟨htimed,hpatient⟩ hstep
      exact watchedStep_honest hw htimed hpatient hstep
  obtain ⟨extra,hb⟩ := hw.booked
  have hends : Ends True (dispatch env msg) w.server _ _ := dispatch_ends hb (.inl trivial) (.inl trivial)
  intro p hp hgranted hne
  obtain hended | hbacked := hw.backed p hp
  · exact hended.trans htimed.1
  · exact (hends.of_ok hanswer).granted_exclusive hb hpatient hgranted hne hbacked

def sampleLessor (bound : Ipv4Addr) : Server := .new (sampleStore sampleParams)
    { sampleParams with managedAddrs := ⟨sampleParams.managedAddrs.mask,2,bound⟩ }

def sampleOffered (bound : Ipv4Addr) : Option Watched := watchedStep ⟨sampleLessor bound,0,[]⟩
    (sampleEnv 0 true,.message (sampleMessage .dhcpdiscover 1 unspecified []))

def sampleRequest : Message :=
  sampleMessage .dhcprequest 1 unspecified [.requestedIpAddress 2,.serverIdentifier 1]

def sampleAcked (bound : Ipv4Addr) : Option Watched :=
  (sampleOffered bound).bind fun w => watchedStep w (sampleEnv 9 true,.message sampleRequest)

def sampleOther : Message := sampleMessage .dhcpdiscover 2 unspecified []

def sampleAnswer (w : Watched) : Option Ipv4Addr :=
  match dispatch (sampleEnv 10 true) sampleOther w.server with
  | .ok action _ => granted sampleOther (.ok action)
  | _ => none

lemma sampleAnswer_eq_some {w : Watched} (h : sampleAnswer w = some addr) :
    ∃ action s',dispatch (sampleEnv 10 true) sampleOther w.server = .ok action s' ∧
      granted sampleOther (.ok action) = some addr := by
  unfold sampleAnswer at h
  split at h
  · next action s' hd => exact ⟨action,s',hd,h⟩
  · cases h

/-- An address is offered to a second client nine seconds before the end of the lease that
the first one was told of. -/
theorem reached_offered_early : ∃ w action s' p,Reachable WatchedStart Timed watchedStep w ∧
    Timed w (sampleEnv 10 true,.message sampleOther) ∧
    dispatch (sampleEnv 10 true) sampleOther w.server = .ok action s' ∧ p ∈ w.ledger ∧
    granted sampleOther (.ok action) = some p.addr ∧ p.client ≠ sampleOther.clientIdentifier ∧
    (sampleEnv 10 true).later+9*second = p.expiry := by
  have hclock : (sampleOffered 3).map Watched.clock = some 0 := by decide +kernel
  have hacked : (sampleAcked 3).map (fun w => (w.clock,w.ledger,sampleAnswer w)) =
      some (9*second,[⟨.id [1],2,19*second⟩],some 2) := by decide +kernel
  obtain ⟨w,hw,heq⟩ := map_eq_some_iff.mp hacked
  obtain ⟨w1,hw1,hstep⟩ := bind_eq_some_iff.mp hw
  rw [hw1,map_some,some.injEq] at hclock
  simp only [Prod.mk.injEq] at heq
  obtain ⟨hnow,hledger,hanswer⟩ := heq
  obtain ⟨action,s',hdispatch,hgranted⟩ := sampleAnswer_eq_some hanswer
  refine ⟨w,action,s',⟨.id [1],2,19*second⟩,?_,?_,hdispatch,?_,hgranted,by decide,by decide⟩
  · refine .step (.step (.start (.start 0 (.new _ _))) ?_ hw1) ?_ hstep
    · exact ⟨Nat.zero_le _,le_rfl,nofun⟩
    · exact ⟨by rw [hclock]; exact Nat.zero_le _,le_rfl,nofun⟩
  · exact ⟨by rw [hnow]; decide,le_rfl,nofun⟩
  · rw [hledger]
    exact List.mem_singleton_self _

theorem reached_exclusive_sample : ∃ (w : Watched) (action : ServerAction) (s' : Server),
    dispatch (sampleEnv 10 true) sampleOther w.server = .ok action s' ∧
    w.ledger = [⟨.id [1],2,19*second⟩] ∧ granted sampleOther (.ok action) = some 3 ∧
    ∀ p ∈ w.ledger,granted sampleOther (.ok action) = some p.addr →
      p.client ≠ sampleOther.clientIdentifier → p.expiry ≤ (sampleEnv 10 true).now := by
  have hoffered : (sampleOffered 4).map (fun w =>
      (w.clock,(w.server.records (.id [1])).map leaseEnd)) = some (0,some (10*second)) := by
    decide +kernel
  have hacked : (sampleAcked 4).map (fun w => (w.clock,w.ledger,sampleAnswer w,w.server.pool.next,
      w.server.records (.id [2]))) =
      some (9*second,[⟨.id [1],2,19*second⟩],some 3,some 3,none) := by decide +kernel
  obtain ⟨w,hw,heq⟩ := map_eq_some_iff.mp hacked
  obtain ⟨w1,hw1,hstep⟩ := bind_eq_some_iff.mp hw
  rw [hw1,map_some,some.injEq,Prod.mk.injEq] at hoffered
  simp only [Prod.mk.injEq] at heq
  obtain ⟨hclock,hend⟩ := hoffered
  obtain ⟨hnow,hledger,hanswer,hnext,hrecord⟩ := heq
  obtain ⟨action,s',hdispatch,hgranted⟩ := sampleAnswer_eq_some hanswer
  refine ⟨w,action,s',hdispatch,hledger,hgranted,
    reached_exclusive (.step (.step (.start (.start 0 (.new _ _))) ?_ hw1) ?_ hstep)
      (sampleEnv 10 true) sampleOther ?_ ?_ action s' hdispatch⟩
  · refine ⟨⟨Nat.zero_le _,le_rfl,nofun⟩,?_⟩
    refine ⟨fun _ _ id record h => ?_,fun record h => ?_⟩
    · cases h
    · cases h
  · refine ⟨⟨by rw [hclock]; exact Nat.zero_le _,le_rfl,nofun⟩,fun record hrecord _ _ => ?_⟩
    change w1.server.records (.id [1]) = some record at hrecord
    rw [hrecord,map_some,some.injEq] at hend
    rw [hend]
    decide
  · exact ⟨by rw [hnow]; decide,le_rfl,nofun⟩
  · refine ⟨fun _ hnone => ?_,fun record h => ?_⟩
    · rw [hnext] at hnone
      cases hnone
    · change w.server.records (.id [2]) = some record at h
      rw [hrecord] at h
      cases h

end Server
end Fuchsia.Dhcp
