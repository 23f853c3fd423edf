import Fuchsia.Netstack.GmpRun

/-! IGMPv1 routers on the network of a host. Whether one is present is noted for each group, and
noted anew with every query, but the timer that ends it is that of the device. -/
namespace Fuchsia.Netstack.Gmp

open Context List IpAddress ProtocolSpecific GmpHostState

abbrev IgmpState := MemberState Igmpv2ProtocolSpecific

def MemberState.v1RouterPresent : IgmpState → Bool
  | .delaying s => s.protocolSpecific.v1RouterPresent
  | .idle s => s.protocolSpecific.v1RouterPresent

def reportKind (v1RouterPresent : Bool) : MessageKind :=
  if v1RouterPresent then .membershipReportV1 else .membershipReportV2

/-- The reports sent from one state to another are all of one version. -/
def Reports (v1RouterPresent : Bool) (ctx ctx' : IgmpHost) : Prop := ∃ more,ctx'.sent = ctx.sent++more ∧
    ∀ m ∈ more,m.kind.isReport → m.kind = reportKind v1RouterPresent

/-- What the group notes if it is joined. -/
def Noted (v1RouterPresent : Bool) (ctx : IgmpHost) (group : MulticastAddr Ipv4Addr) : Prop :=
  ∀ entry,ctx.groups.lookup group = some entry → entry.2.v1RouterPresent = v1RouterPresent

/-- Events that do not make a member note anything else. -/
def Admits (v1RouterPresent : Bool) (ctx : IgmpHost) : IgmpEvent → Prop
  | .join _ group => v1RouterPresent → ctx.groups.lookup group ≠ none
  | .query _ _ code => (maxResponseTime code == 0) = v1RouterPresent
  | .fire _ .v1RouterPresent => v1RouterPresent = false
  | _ => True

def Turns (b : Bool) (ctx ctx' : IgmpHost) : Prop := (∀ g,Noted b ctx' g) ∧ Reports b ctx ctx'

def Carries (b : Bool) (actions : Actions Igmpv2ProtocolSpecific) : Prop :=
  ∀ specific,.generic (.sendReport specific) ∈ actions → specific.v1RouterPresent = b

structure Swept (r : Prop) (b : Bool) (groups : List (MulticastAddr Ipv4Addr))
    (ctx ctx' : IgmpHost) : Prop where
  sent : ctx'.sent = ctx.sent
  noted : ∀ g,r ∧ g ∈ groups ∨ Noted b ctx g → Noted b ctx' g

variable {env : Env Ipv4Addr} {ctx ctx' ctx₁ ctx₂ : IgmpHost} {group : MulticastAddr Ipv4Addr}
  {b : Bool} {r : Prop} {s : IgmpState} {groups : List (MulticastAddr Ipv4Addr)}
  {actions : Actions Igmpv2ProtocolSpecific}

lemma reports_of_eq (h : ctx'.sent = ctx.sent) : Reports b ctx ctx' := ⟨[],by simp [h],by simp⟩

lemma Reports.trans (h : Reports b ctx ctx₁) (h' : Reports b ctx₁ ctx₂) : Reports b ctx ctx₂ := by
  obtain ⟨more,heq,hmore⟩ := h
  obtain ⟨more',heq',hmore'⟩ := h'
  exact ⟨more++more',by rw [heq',heq,append_assoc],forall_mem_append.mpr ⟨hmore,hmore'⟩⟩

lemma noted_of_none (h : ctx.groups.lookup group = none) : Noted b ctx group := by
  intro entry hentry
  cases h.symm.trans hentry

lemma mem_keys_or_noted (g : MulticastAddr Ipv4Addr) : g ∈ ctx.groups.keys ∨ Noted b ctx g :=
  or_iff_not_imp_left.mpr fun h => noted_of_none (AList.lookup_eq_none.mpr h)

lemma send_reports {result : Except GmpError (Message Ipv4Addr)}
    (h : ∀ m,result = .ok m → m.kind.isReport → m.kind = reportKind b) :
    (ctx.send result).groups = ctx.groups ∧ Reports b ctx (ctx.send result) := by
  cases result with
  | error e => exact ⟨rfl,reports_of_eq rfl⟩
  | ok m => exact ⟨rfl,[m],rfl,forall_mem_singleton.mpr (h m rfl)⟩

lemma runAction_reports {action : Action Igmpv2ProtocolSpecific} (h : Carries b [action]) :
    (ctx.runAction env group action).groups = ctx.groups ∧ Reports b ctx (ctx.runAction env group action) := by
  cases action with
  | specific action =>
    cases action
    exact ⟨rfl,reports_of_eq rfl⟩
  | generic action =>
    cases action with
    | scheduleReportTimer | stopReportTimer => exact ⟨rfl,reports_of_eq rfl⟩
    | sendLeave =>
      refine send_reports fun m hm hreport => ?_
      rw [(sendIgmpMessage_ok hm).1] at hreport
      cases hreport
    | sendReport specific =>
      obtain rfl := h specific mem_cons_self
      refine send_reports fun m hm _ => ?_
      cases specific with
      | mk v1RouterPresent => cases v1RouterPresent <;> exact (sendIgmpMessage_ok hm).1

lemma Turns.runActions (h : Turns b ctx ctx₁) (hcarries : Carries b actions) :
    Turns b ctx (ctx₁.runActions env group actions) := by
  have hrun : ctx₁.runActions env group actions =
    if env.enabled then actions.foldl (runAction env group) ctx₁ else ctx₁ := rfl
  rw [hrun]
  split_ifs
  · refine foldlRecOn actions _ h fun c hc action haction => ?_
    obtain ⟨hgroups,hreports⟩ := runAction_reports fun specific hmem =>
      hcarries specific (mem_singleton.mp hmem ▸ haction)
    refine ⟨fun g => ?_,hc.2.trans hreports⟩
    rw [Noted,hgroups]
    exact hc.1 g
  · exact h

namespace Swept

lemma turns (h : Swept r b groups ctx ctx') (hnoted : ∀ g,r ∧ g ∈ groups ∨ Noted b ctx g) :
    Turns b ctx ctx' := ⟨fun g => h.noted g (hnoted g),reports_of_eq h.sent⟩

lemma nil : Swept r b [] ctx ctx := ⟨rfl,fun _ h => h.resolve_left fun h => not_mem_nil h.2⟩

lemma cons (h : Swept r b [group] ctx ctx₁) (h' : Swept r b groups ctx₁ ctx₂) : Swept r b (group::groups) ctx ctx₂ := by
  refine ⟨h'.sent.trans h.sent,fun g hg => h'.noted g ?_⟩
  obtain ⟨hr,hmem⟩ | hnoted := hg
  · obtain rfl | hmem := mem_cons.mp hmem
    · exact .inr (h.noted g (.inl ⟨hr,mem_cons_self⟩))
    · exact .inl ⟨hr,hmem⟩
  · exact .inr (h.noted g (.inr hnoted))

lemma none (h : ctx.groups.lookup group = none) : Swept r b [group] ctx ctx := by
  refine ⟨rfl,fun g hg => hg.elim (fun hg => ?_) id⟩
  rw [mem_singleton.mp hg.2]
  exact noted_of_none h

lemma setState (count : ℕ) (h : r ∨ Noted b ctx group → s.v1RouterPresent = b) :
    Swept r b [group] ctx (ctx.setState group count s) := by
  refine ⟨rfl,fun g hg entry hentry => ?_⟩
  by_cases hgroup : g = group
  · subst hgroup
    rw [Context.setState,AList.lookup_insert] at hentry
    cases hentry
    exact h (hg.imp_left And.left)
  · rw [Context.setState,AList.lookup_insert_ne hgroup] at hentry
    exact hg.resolve_left (fun hg => hgroup (mem_singleton.mp hg.2)) entry hentry

end Swept

section Messages

variable {handler : ℕ → IgmpState → IgmpState × Actions Igmpv2ProtocolSpecific}
  (hhandler : ∀ draw s,Carries b (handler draw s).2 ∧
    (r ∨ s.v1RouterPresent = b → (handler draw s).1.v1RouterPresent = b))
include hhandler

lemma handleGroup_swept (group : MulticastAddr Ipv4Addr) : Swept r b [group] ctx (ctx.handleGroup env handler group).1 ∧
      Carries b (ctx.handleGroup env handler group).2 := by
  rw [handleGroup]
  cases hlookup : ctx.groups.lookup group with
  | none => exact ⟨.none hlookup,fun _ h => absurd h not_mem_nil⟩
  | some entry =>
    obtain ⟨hcarries,hnotes⟩ := hhandler (env.draw group) entry.2
    exact ⟨.setState _ fun h => hnotes (h.imp_right fun h => h entry hlookup),hcarries⟩

lemma handleGroups_swept : Swept r b groups ctx (handleGroups env handler ctx groups).1 ∧
    ∀ t ∈ (handleGroups env handler ctx groups).2,Carries b t.2 := by
  induction groups generalizing ctx with
  | nil => exact ⟨.nil,fun t ht => absurd ht not_mem_nil⟩
  | cons g groups ih =>
    obtain ⟨hswept,hcarries⟩ := handleGroup_swept hhandler g
    exact ⟨hswept.cons ih.1,forall_mem_cons.mpr ⟨hcarries,ih.2⟩⟩

lemma handleGmpMessage_turns {addr : Ipv4Addr} (h : ∀ g,r ∧ Concerns addr g ∨ Noted b ctx g) :
    Turns b ctx (ctx.handleGmpMessage env addr handler).1 := by
  rw [handleGmpMessage]
  split_ifs with hall hmulticast
  · obtain ⟨hswept,hcarries⟩ := @handleGroups_swept env ctx b r ctx.groups.keys handler hhandler
    refine foldlRecOn _ _ (hswept.turns fun g => ?_) fun c hc t ht => hc.runActions (hcarries t ht)
    exact (h g).elim (fun h => (mem_keys_or_noted g).imp_left (⟨h.1,·⟩)) .inr
  · have hnoted : ∀ g,r ∧ g ∈ [⟨addr,hmulticast⟩] ∨ Noted b ctx g := by
      refine fun g => (h g).imp_left fun h => ⟨h.1,?_⟩
      obtain rfl := h.2.resolve_left hall
      exact mem_cons_self
    cases hlookup : ctx.groups.lookup ⟨addr,hmulticast⟩ with
    | none => exact (Swept.none hlookup).turns hnoted
    | some entry =>
      obtain ⟨hswept,hcarries⟩ := handleGroup_swept hhandler ⟨addr,hmulticast⟩
      exact (hswept.turns hnoted).runActions hcarries
  · refine ⟨fun g => (h g).resolve_left fun h => hmulticast ?_,reports_of_eq rfl⟩
    rw [h.2.resolve_left hall]
    exact g.property

end Messages

lemma reportReceived_igmp (s : IgmpState) :
    Carries b s.reportReceived.2 ∧ s.reportReceived.1.v1RouterPresent = s.v1RouterPresent := by
  cases s with
  | delaying s =>
    exact ⟨by simp [Carries,MemberState.reportReceived,reportReceived,transition],rfl⟩
  | idle s => exact ⟨fun _ h => absurd h not_mem_nil,rfl⟩

lemma reportTimerExpired_igmp (s : IgmpState) : s.reportTimerExpired.1.v1RouterPresent = s.v1RouterPresent ∧
      Carries s.v1RouterPresent s.reportTimerExpired.2 := by
  cases s with
  | delaying s =>
    refine ⟨rfl,?_⟩
    simp [Carries,MemberState.reportTimerExpired,reportTimerExpired,transition,MemberState.v1RouterPresent]
  | idle s => exact ⟨rfl,fun _ h => absurd h not_mem_nil⟩

lemma receiveQuery_turns {addr : Ipv4Addr} {code : RespCode Igmpv2ProtocolSpecific}
    (hcode : (maxResponseTime code == 0) = b) (h : ∀ g,Concerns addr g ∨ Noted b ctx g) :
    Turns b ctx (ctx.receiveQuery env addr code).1 := by
  refine handleGmpMessage_turns (r := True) (fun draw s => ?_) fun g => (h g).imp_left (⟨trivial,·⟩)
  generalize maxResponseTime code = respTime at hcode ⊢
  have hspecific : ∀ (cfg : Config Igmpv2ProtocolSpecific) (specific : Igmpv2ProtocolSpecific),
      doQueryReceivedSpecific cfg respTime specific = if respTime = 0 then
        (⟨true⟩,[.scheduleV1RouterPresentTimer cfg.v1RouterPresentTimeout]) else (⟨false⟩,[]) :=
    fun _ _ => rfl
  have hcompute : ∀ old specific,.generic (.sendReport specific) ∉
      (computeTimerExpiration (P := Igmpv2ProtocolSpecific) draw old respTime ctx.now).2 := by
    intro old specific
    obtain ⟨-,h⟩ | ⟨-,delay,-,h,-⟩ | ⟨-,o,-,-,h⟩ :=
      computeTimerExpiration_cases (P := Igmpv2ProtocolSpecific) draw old respTime ctx.now <;> simp [h]
  cases s
  all_goals
    simp only [MemberState.queryReceived,queryReceived,hspecific,Carries,mem_append]
    refine ⟨fun specific h => ?_,fun _ => ?_⟩
    · exact absurd (h.resolve_right (by simp)) (hcompute _ specific)
    · by_cases hzero : respTime = 0 <;> simp [← hcode,hzero,MemberState.v1RouterPresent]

lemma foldl_routerGone_swept : Swept True false groups ctx (groups.foldl routerGone ctx) := by
  induction groups generalizing ctx with
  | nil => exact .nil
  | cons g groups ih =>
    refine .cons ?_ ih
    rw [routerGone]
    cases hlookup : ctx.groups.lookup g with
    | none => exact .none hlookup
    | some entry =>
      refine .setState _ fun _ => ?_
      cases entry.2 <;> rfl

lemma handleTimer_router_turns : Turns false ctx (ctx.handleTimer env .v1RouterPresent) :=
  (foldl_routerGone_swept.turns fun g => (mem_keys_or_noted g).imp_left (⟨trivial,·⟩) :)

section Steps

variable (h : ∀ g,Noted b ctx g)
include h

lemma setState_turns {count : ℕ} (hs : s.v1RouterPresent = b) : Turns b ctx (ctx.setState group count s) :=
  (Swept.setState (r := True) count fun _ => hs).turns fun g => .inr (h g)

lemma gmpJoinGroup_turns (hb : b → ctx.groups.lookup group ≠ none) : Turns b ctx (ctx.gmpJoinGroup env group).1 := by
  rw [gmpJoinGroup]
  cases hlookup : ctx.groups.lookup group with
  | some entry => exact setState_turns h (h _ _ hlookup)
  | none =>
    obtain rfl : b = false := by simpa [hlookup] using hb
    refine (setState_turns h rfl).runActions ?_
    simp [Carries,MemberState.joinGroup,joinGroup,transition,defaultSpecific]

lemma gmpLeaveGroup_turns : Turns b ctx (ctx.gmpLeaveGroup env group).1 := by
  rw [gmpLeaveGroup]
  cases hlookup : ctx.groups.lookup group with
  | none => exact ⟨h,reports_of_eq rfl⟩
  | some entry =>
    by_cases hcount : entry.1 = 1
    · simp only [if_pos hcount]
      refine Turns.runActions ⟨fun g e he => ?_,reports_of_eq rfl⟩ fun specific hmem => ?_
      · by_cases hg : g = group
        · rw [hg,AList.lookup_erase] at he
          cases he
        · exact h g e (AList.lookup_erase_ne hg ▸ he)
      · cases hs : entry.2 <;> simp [hs,MemberState.leaveGroup,leaveActions] at hmem
    · simp only [if_neg hcount]
      exact setState_turns h (h _ _ hlookup)

lemma handleTimer_turns : Turns b ctx (ctx.handleTimer env (.reportDelay group)) := by
  rw [handleTimer]
  cases hlookup : (ctx.cancelTimer (.reportDelay group)).groups.lookup group with
  | none => exact ⟨h,reports_of_eq rfl⟩
  | some entry =>
    have hcancel : ∀ g,Noted b (ctx.cancelTimer (.reportDelay group)) g := h
    obtain ⟨hs,hcarries⟩ := reportTimerExpired_igmp entry.2
    rw [h _ _ hlookup] at hs hcarries
    exact (setState_turns hcancel hs).runActions hcarries

lemma step_turns {e : IgmpEvent} (hadmits : Admits b ctx e) (hstep : step ctx e = some ctx') : Turns b ctx ctx' := by
  cases e with
  | advance duration =>
    cases hstep
    exact ⟨h,reports_of_eq rfl⟩
  | join env g =>
    cases hstep
    exact gmpJoinGroup_turns h hadmits
  | leave env g =>
    cases hstep
    exact gmpLeaveGroup_turns h
  | query env addr code =>
    cases hstep
    exact receiveQuery_turns hadmits fun g => .inr (h g)
  | report env addr =>
    cases hstep
    refine handleGmpMessage_turns (r := False) (fun draw s => ?_) fun g => .inr (h g)
    obtain ⟨hcarries,hnotes⟩ := reportReceived_igmp s
    exact ⟨hcarries,fun hs => hnotes.trans (hs.resolve_left id)⟩
  | fire env id =>
    rw [step] at hstep
    split_ifs at hstep
    cases hstep
    cases id with
    | reportDelay g => exact handleTimer_turns h
    | v1RouterPresent =>
      obtain rfl : b = false := hadmits
      exact handleTimer_router_turns

end Steps

lemma run_turns (h : Turns b ctx ctx₁)
    (hrun : Transition.Reachable (fun c => c = ctx₁) (Admits b) step ctx₂) : Turns b ctx ctx₂ := by
  refine Transition.Reachable.invariant hrun (fun c hc => hc ▸ h) fun c e c' hturns ha hstep => ?_
  obtain ⟨hnoted,hreports⟩ := step_turns hturns.1 ha hstep
  exact ⟨hnoted,hturns.2.trans hreports⟩

/-- After an IGMPv1 query for all the groups that do not note it yet the reports are of IGMPv1 until
the timer expires, as long as no group is joined and no query of IGMPv2 is received. After that they
are of IGMPv2 until the next IGMPv1 query. -/
theorem reports_routerPresent :
    (∀ env addr code,maxResponseTime code = 0 → (∀ g,Concerns addr g ∨ Noted true ctx g) →
      step ctx (.query env addr code) = some ctx₁ →
      Transition.Reachable (fun c => c = ctx₁) (Admits true) step ctx₂ → Reports true ctx ctx₂) ∧
    ∀ env,step ctx (.fire env .v1RouterPresent) = some ctx₁ →
      Transition.Reachable (fun c => c = ctx₁) (Admits false) step ctx₂ → Reports false ctx ctx₂ := by
  constructor
  · intro env addr code hcode hnoted hstep hrun
    cases hstep
    exact (run_turns (receiveQuery_turns (by simp [hcode]) hnoted) hrun).2
  · intro env hstep hrun
    rw [step] at hstep
    split_ifs at hstep
    cases hstep
    exact (run_turns handleTimer_router_turns hrun).2

def sampleHost : Env Ipv4Addr := sampleEnv (some 0x0a000001)

def sampleV1 : IgmpHost := ((sampleJoined (some 0x0a000001)).receiveQuery sampleHost 0 (0 : UInt8)).1

/-- `224.0.0.6` -/
def otherGroup : MulticastAddr Ipv4Addr := ⟨0xe0000006,by decide⟩

theorem reports_routerPresent_sample :
    Reports true (sampleJoined (some 0x0a000001))
      ({ sampleV1 with now := 1 }.handleTimer sampleHost (.reportDelay sampleGroup)) ∧
    Reports false { sampleV1 with now := 400000000 } ((handleTimer sampleHost
      { sampleV1 with now := 400000000 } .v1RouterPresent).gmpJoinGroup sampleHost otherGroup).1 :=
  ⟨reports_routerPresent.1 sampleHost 0 (0 : UInt8) rfl (fun _ => .inl (.inl rfl)) rfl
    (.step (.step (.start rfl) (a := .advance 1) trivial rfl)
      (a := .fire sampleHost (.reportDelay sampleGroup)) trivial rfl),
    reports_routerPresent.2 sampleHost rfl (.step (.start rfl) (a := .join sampleHost otherGroup)
      (fun h => absurd h (by decide)) rfl)⟩

/-- A group that is joined after the query of an IGMPv1 router is reported with IGMPv2. -/
theorem routerPresent_v2_report : ∃ ctx ctx₁ ctx₂ : IgmpHost,Reached Timely ctx ∧
    step ctx (.query sampleHost sampleGroup.val (0 : UInt8)) = some ctx₁ ∧
    step ctx₁ (.join sampleHost otherGroup) = some ctx₂ ∧
    ctx₂.timers .v1RouterPresent ≠ none ∧ ¬Reports true ctx₁ ctx₂ := by
  refine ⟨sampleJoined (some 0x0a000001),_,_,sampleJoined_reached rfl,rfl,rfl,Option.some_ne_none _,?_⟩
  rintro ⟨more,heq,h⟩
  have hsent : sampleV1.sent++[⟨.membershipReportV2,0x0a000001,0xe0000006,0xe0000006⟩] =
    sampleV1.sent++more := heq
  cases append_cancel_left hsent
  cases h _ mem_cons_self rfl

end Fuchsia.Netstack.Gmp
