import Fuchsia.Netstack.GmpCalls
import Fuchsia.Lib.Transition

/-! IGMPv2 (`ip/gmp/igmp.rs`). -/
namespace Fuchsia.Netstack.Gmp

section

/-- An IPv4 address. -/
abbrev Ipv4Addr := BitVec 32

instance : IpAddress Ipv4Addr where
  unspecified := 0
  isMulticast a := a.extractLsb' 28 4 == 0xe

structure Igmpv2ProtocolSpecific where
  v1RouterPresent : Bool
  deriving DecidableEq,Repr

inductive Igmpv2Actions
  | scheduleV1RouterPresentTimer (duration : ℕ)
  deriving DecidableEq,Repr

structure Igmpv2HostConfig where
  unsolicitedReportInterval : ℕ
  sendLeaveAnyway : Bool
  v1RouterPresentTimeout : ℕ
  deriving DecidableEq,Repr

def defaultV1QueryMaxRespTime : ℕ := 10*1000000

instance : ProtocolSpecific Igmpv2ProtocolSpecific where
  Action := Igmpv2Actions
  Config := Igmpv2HostConfig
  RespCode := UInt8
  defaultSpecific := ⟨false⟩
  defaultConfig := ⟨10*1000000,false,400*1000000⟩
  maxResponseTime code := code.toNat*100*1000
  cfgUnsolicitedReportInterval cfg := cfg.unsolicitedReportInterval
  cfgSendLeaveAnyway cfg := cfg.sendLeaveAnyway
  getMaxRespTime respTime := if respTime = 0 then defaultV1QueryMaxRespTime else respTime
  doQueryReceivedSpecific cfg maxRespTime _ :=
    if maxRespTime = 0 then
      (⟨true⟩,[.scheduleV1RouterPresentTimer cfg.v1RouterPresentTimeout])
    else (⟨false⟩,[])

/-- `224.0.0.2` -/
def Ipv4Addr.allRouters : Ipv4Addr := 0xe0000002

def sendIgmpMessage (env : Env Ipv4Addr) (kind : MessageKind) (group : MulticastAddr Ipv4Addr)
    (dstIp : Ipv4Addr) : Except GmpError (Message Ipv4Addr) :=
  match env.address with
  | none => .error .noIpAddress
  | some srcIp => env.sendFrame ⟨kind,srcIp,dstIp,group.val⟩

instance : GmpContext Ipv4Addr Igmpv2ProtocolSpecific where
  skip _ := false
  sendLeave env group := sendIgmpMessage env .leaveGroup group Ipv4Addr.allRouters
  sendReport env group specific :=
    if specific.v1RouterPresent then sendIgmpMessage env .membershipReportV1 group group.val
    else sendIgmpMessage env .membershipReportV2 group group.val
  runSpecific _ _ ctx
    | .scheduleV1RouterPresentTimer duration => ctx.scheduleTimer duration .v1RouterPresent
  v1RouterPresentTimerExpired s := s.updateWithProtocolSpecific ⟨false⟩

lemma sendIgmpMessage_ok {env : Env Ipv4Addr} {kind : MessageKind} {group : MulticastAddr Ipv4Addr} {dstIp : Ipv4Addr}
    {m : Message Ipv4Addr} (h : sendIgmpMessage env kind group dstIp = .ok m) : m.kind = kind ∧ m.group = group.val := by
  rw [sendIgmpMessage] at h
  cases haddress : env.address with
  | none => simp [haddress] at h
  | some srcIp =>
    simp only [haddress,Env.sendFrame] at h
    split_ifs at h
    cases h
    exact ⟨rfl,rfl⟩

instance : Lawful Ipv4Addr Igmpv2ProtocolSpecific where
  report env group specific m h := by
    have hsend : (if specific.v1RouterPresent = true then
        sendIgmpMessage env .membershipReportV1 group group.val
      else sendIgmpMessage env .membershipReportV2 group group.val) = .ok m := h
    split_ifs at hsend
    all_goals
      obtain ⟨hkind,hgroup⟩ := sendIgmpMessage_ok hsend
      exact ⟨by rw [hkind]; rfl,hgroup⟩
  frame env group ctx action := by
    cases action
    exact ⟨rfl,fun g _ => rfl,fun _ => le_rfl⟩
  immediate cfg code specific h := by
    -- a response time of 0 stands for the default
    refine absurd h ?_
    change (if code.toNat*100*1000 = 0 then defaultV1QueryMaxRespTime
      else code.toNat*100*1000)/1000 ≠ 0
    split_ifs with hzero
    · decide
    · omega
  delayed cfg code specific _ action _ env group ctx := by
    cases action
    rfl
  routerGone s := ⟨⟨false⟩,rfl⟩

/-! MLD (`ip/gmp/mld.rs`). -/

/-- An IPv6 address. -/
abbrev Ipv6Addr := BitVec 128

instance : IpAddress Ipv6Addr where
  unspecified := 0
  isMulticast a := a.extractLsb' 120 8 == 0xff

def Ipv6Addr.scope (a : Ipv6Addr) : BitVec 4 := a.extractLsb' 112 4

/-- `ff02::1` -/
def Ipv6Addr.allNodesLinkLocal : Ipv6Addr := 0xff020000000000000000000000000001

/-- `ff02::2` -/
def Ipv6Addr.allRoutersLinkLocal : Ipv6Addr := 0xff020000000000000000000000000002

structure MldProtocolSpecific where
  deriving DecidableEq,Repr

inductive ImmediateIdleState
  | immediateIdleState
  deriving DecidableEq,Repr

structure MldConfig where
  unsolicitedReportInterval : ℕ
  sendLeaveAnyway : Bool
  deriving DecidableEq,Repr

instance : ProtocolSpecific MldProtocolSpecific where
  Action := ImmediateIdleState
  Config := MldConfig
  RespCode := UInt16
  defaultSpecific := ⟨⟩
  defaultConfig := ⟨10*1000000,false⟩
  maxResponseTime code := code.toNat*1000
  cfgUnsolicitedReportInterval cfg := cfg.unsolicitedReportInterval
  cfgSendLeaveAnyway cfg := cfg.sendLeaveAnyway
  getMaxRespTime respTime := respTime
  doQueryReceivedSpecific _ maxRespTime old :=
    if maxRespTime/1000 = 0 then (old,[.immediateIdleState]) else (old,[])

/-- Without a link-local address the source is the unspecified one. -/
def sendMldPacket (env : Env Ipv6Addr) (kind : MessageKind) (group : MulticastAddr Ipv6Addr)
    (dstIp : Ipv6Addr) : Except GmpError (Message Ipv6Addr) :=
  env.sendFrame ⟨kind,env.address.getD IpAddress.unspecified,dstIp,group.val⟩

instance : GmpSender Ipv6Addr MldProtocolSpecific where
  skip group := group.val = Ipv6Addr.allNodesLinkLocal ∨ Ipv6Addr.scope group.val = 0 ∨
    Ipv6Addr.scope group.val = 1
  sendLeave env group := sendMldPacket env .multicastListenerDone group Ipv6Addr.allRoutersLinkLocal
  sendReport env group _ := sendMldPacket env .multicastListenerReport group group.val

def runImmediateIdle (env : Env Ipv6Addr) (group : MulticastAddr Ipv6Addr)
    (ctx : Context Ipv6Addr MldProtocolSpecific) : Context Ipv6Addr MldProtocolSpecific :=
  let ctx := ctx.cancelTimer (.reportDelay group)
  match ctx.groups.lookup group with
  | none => ctx
  | some (count,s) =>
    let (s,actions) := s.reportTimerExpired
    actions.foldl (fun ctx action =>
      match action with
      | .generic action => ctx.runGeneric env group action
      | .specific _ => ctx) (ctx.setState group count s)

instance : GmpContext Ipv6Addr MldProtocolSpecific where
  runSpecific env group ctx
    | .immediateIdleState => runImmediateIdle env group ctx
  v1RouterPresentTimerExpired s := s

open Context

variable {ctx : Context Ipv6Addr MldProtocolSpecific} {group : MulticastAddr Ipv6Addr}
  {env : Env Ipv6Addr}

lemma runImmediateIdle_frame : Frame group ctx (runImmediateIdle env group ctx) := by
  rw [runImmediateIdle]
  refine cancelTimer_frame.trans ?_
  cases hlookup : (ctx.cancelTimer (.reportDelay group)).groups.lookup group with
  | none => exact Frame.refl _
  | some e =>
    obtain ⟨count,s⟩ := e
    cases s with
    | delaying s => exact (setState_frame _ _).trans (send_frame _)
    | idle s => exact setState_frame _ _

instance : Lawful Ipv6Addr MldProtocolSpecific where
  report env group specific m h := by
    have hsend : (if env.accepts = true then Except.ok _ else Except.error GmpError.sendFailure) =
      Except.ok m := h
    split_ifs at hsend
    cases hsend
    exact ⟨rfl,rfl⟩
  frame env group ctx action := by
    cases action
    exact runImmediateIdle_frame
  immediate cfg code specific h := by
    refine ⟨.immediateIdleState,?_,fun env group ctx count s hlookup => ?_⟩
    · exact congrArg Prod.snd (if_pos h)
    · change runImmediateIdle env group ctx = _
      simp [runImmediateIdle,hlookup,MemberState.reportTimerExpired,GmpHostState.reportTimerExpired,
        GmpHostState.transition,runGeneric]
  delayed cfg code specific h action haction := by
    have hnone : (ProtocolSpecific.doQueryReceivedSpecific cfg
        (ProtocolSpecific.maxResponseTime (P := MldProtocolSpecific) code) specific).2 = [] :=
      congrArg Prod.snd (if_neg h)
    rw [hnone] at haction
    cases haction
  routerGone s := by
    refine ⟨⟨⟩,?_⟩
    cases s <;> rfl

end

/-! Runs of a group management protocol on a device, with time that passes. -/

open IpAddress ProtocolSpecific Context GmpSender Function

inductive Event (A P : Type) [IpAddress A] [ProtocolSpecific P]
  | advance (duration : ℕ)
  | join (env : Env A) (group : MulticastAddr A)
  | leave (env : Env A) (group : MulticastAddr A)
  | query (env : Env A) (addr : A) (code : RespCode P)
  | report (env : Env A) (addr : A)
  | fire (env : Env A) (id : TimerId A)

variable {A P : Type} [IpAddress A] [ProtocolSpecific P]

/-- The protocol is enabled, and no deadline is passed over. -/
def Timely (ctx : Context A P) : Event A P → Prop
  | .advance duration => ∀ id deadline,ctx.timers id = some deadline → ctx.now+duration ≤ deadline
  | .join env _ | .leave env _ | .query env _ _ | .report env _ | .fire env _ => env.enabled = true

variable [DecidableEq A] [GmpContext A P]

def step (ctx : Context A P) : Event A P → Option (Context A P)
  | .advance duration => some { ctx with now := ctx.now+duration }
  | .join env group => some (ctx.gmpJoinGroup env group).1
  | .leave env group => some (ctx.gmpLeaveGroup env group).1
  | .query env addr code => some (ctx.receiveQuery env addr code).1
  | .report env addr => some (ctx.receiveReport env addr).1
  | .fire env id => if ctx.timers id = some ctx.now then some (ctx.handleTimer env id) else none

def Named : Event A P → Prop
  | .report _ addr => addr ≠ unspecified
  | _ => True

/-- Reports that may be due can be sent. -/
def CanSend : Event A P → Prop
  | .query env _ _ | .fire env _ => env.Sends P
  | _ => True

def Clean (_ : Context A P) (e : Event A P) : Prop := Named e ∧ CanSend e

variable {ctx ctx' : Context A P} {group : MulticastAddr A} {e : Event A P}

/-- A step that is no answer for the group: no report is sent for it or heard, and it is not
left. -/
def Quiet (group : MulticastAddr A) (ctx : Context A P) (e : Event A P) : Prop :=
  (∀ env,e ≠ .report env group.val) ∧ ∀ ctx',step ctx e = some ctx' →
      ctx'.reports group = ctx.reports group ∧ ctx'.groups.lookup group ≠ none

structure Stepped (e : Event A P) (group : MulticastAddr A) (ctx ctx' : Context A P)
    (label : Label) : Prop where
  step : LocalStep ctx.now label (ctx.view group) (ctx'.view group)
  reported : label = .reported → Clean ctx e → ctx.reports group < ctx'.reports group
  heard : label = .heard → ∃ env addr,e = .report env addr ∧ Concerns addr group
  left : label = .left → ctx'.groups.lookup group = none

lemma stepped_same (h : ctx'.view group = ctx.view group) : Stepped e group ctx ctx' .silent := by
  refine ⟨?_,nofun,nofun,nofun⟩
  rw [h]
  exact .same

variable [Lawful A P] {env : Env A}

section

variable (hskip : skip P group = false) (henabled : env.enabled = true)
include hskip henabled

variable (g : MulticastAddr A)

lemma stepped_join : Stepped (.join env g) group ctx (ctx.gmpJoinGroup env g).1 .silent := by
  by_cases hgroup : group = g
  · subst hgroup
    exact ⟨(gmpJoinGroup_settled hskip henabled).step,nofun,nofun,nofun⟩
  · exact stepped_same (gmpJoinGroup_frame.view group hgroup)

lemma stepped_leave : ∃ label,Stepped (.leave env g) group ctx (ctx.gmpLeaveGroup env g).1 label := by
  by_cases hgroup : group = g
  · subst hgroup
    obtain ⟨label,hsettled,rfl | ⟨rfl,hleft⟩⟩ := gmpLeaveGroup_settled ctx hskip henabled
    · exact ⟨.silent,hsettled.step,nofun,nofun,nofun⟩
    · exact ⟨.left,hsettled.step,nofun,nofun,fun _ => hleft⟩
  · exact ⟨.silent,stepped_same (gmpLeaveGroup_frame.view group hgroup)⟩

lemma stepped_query {addr : A} {code : RespCode P} (hconcerns : Concerns addr group) {count : ℕ} {s : MemberState P}
    (hlookup : ctx.groups.lookup group = some (count,s)) :
    ∃ label,Stepped (.query env addr code) group ctx (ctx.receiveQuery env addr code).1 label ∧
      (label = .reported ∨ label = .silent ∧ Owes (ctx.now+getMaxRespTime P (maxResponseTime code))
          ((ctx.receiveQuery env addr code).1.view group)) := by
  obtain ⟨ctx1,hnow1,hview1,hreports1,ctx2,hnow2,hview2,hreports2,hafter,hreports⟩ :=
    handleGmpMessage_handled env (fun draw s => s.queryReceived draw (maxResponseTime code) ctx.now) hconcerns hlookup
  have hnow : ctx2.now = ctx.now := hnow2.trans hnow1
  have hview : ctx.view group = (some (count,s),(ctx.view group).2) := Prod.ext hlookup rfl
  have hbefore : ctx2.view group = (some (count,(s.queryReceived (env.draw group)
      (maxResponseTime code) ctx2.now).1),(ctx.view group).2) := by
    rw [hnow]
    exact hview2.trans hview1
  obtain ⟨label,hsettled,howes⟩ := settle_queryReceived hskip henabled hbefore
  simp only [hnow,← hview] at hsettled howes
  refine ⟨label,⟨?_,fun hlabel hclean => ?_,?_,?_⟩,?_⟩
  · have hlocal := hsettled.step
    rw [hnow] at hlocal
    rw [receiveQuery,hafter]
    exact hlocal
  · exact (hreports1.trans hreports2).trans_lt ((hsettled.sent hlabel hclean.2).trans_le hreports)
  · rintro rfl
    obtain hlabel | ⟨hlabel,-⟩ := howes <;> cases hlabel
  · rintro rfl
    obtain hlabel | ⟨hlabel,-⟩ := howes <;> cases hlabel
  · rw [receiveQuery,hafter]
    exact howes

lemma stepped_receiveQuery (addr : A) (code : RespCode P) :
    ∃ label,Stepped (.query env addr code) group ctx (ctx.receiveQuery env addr code).1 label := by
  by_cases hconcerns : Concerns addr group
  · cases hlookup : ctx.groups.lookup group with
    | none => exact ⟨.silent,stepped_same (handleGmpMessage_other (.inr hlookup))⟩
    | some entry =>
      obtain ⟨label,hstepped,-⟩ := stepped_query hskip henabled hconcerns hlookup
      exact ⟨label,hstepped⟩
  · exact ⟨.silent,stepped_same (handleGmpMessage_other (.inl hconcerns))⟩

lemma stepped_report (addr : A) : ∃ label,Stepped (.report env addr) group ctx (ctx.receiveReport env addr).1 label := by
  by_cases hconcerns : Concerns addr group
  · cases hlookup : ctx.groups.lookup group with
    | none => exact ⟨.silent,stepped_same (handleGmpMessage_other (.inr hlookup))⟩
    | some entry =>
      obtain ⟨count,s⟩ := entry
      obtain ⟨ctx1,hnow1,hview1,hreports1,ctx2,hnow2,hview2,hreports2,hafter,hreports⟩ :=
        handleGmpMessage_handled env (fun _ s => s.reportReceived) hconcerns hlookup
      have hview : ctx.view group = (some (count,s),(ctx.view group).2) := Prod.ext hlookup rfl
      obtain ⟨label,hsettled,hlabel⟩ := @settle_reportReceived _ _ _ _ _ _ env _ _ hskip _
        s count henabled (hview2.trans hview1)
      have hlocal := hsettled.step
      rw [← hview,hnow2,hnow1,← hafter] at hlocal
      refine ⟨label,hlocal,?_,fun _ => ⟨env,addr,rfl,hconcerns⟩,?_⟩
      all_goals
        rintro rfl
        obtain hlabel | hlabel := hlabel <;> cases hlabel
  · exact ⟨.silent,stepped_same (handleGmpMessage_other (.inl hconcerns))⟩

lemma stepped_fire {id : TimerId A} (hfires : ctx.timers id = some ctx.now) (hsane : Sane ctx.now (ctx.view group)) :
    ∃ label,Stepped (.fire env id) group ctx (ctx.handleTimer env id) label := by
  cases id with
  | reportDelay g =>
    by_cases hgroup : group = g
    · subst hgroup
      obtain ⟨count,s,hview⟩ : ∃ count s,ctx.view group = (some (count,.delaying s),(ctx.view group).2) := by
        cases hlookup : ctx.groups.lookup group with
        | none => simp [view,hlookup,Sane,hfires] at hsane
        | some entry =>
          obtain ⟨count,s⟩ := entry
          cases s with
          | delaying s => exact ⟨count,s,Prod.ext hlookup rfl⟩
          | idle s => simp [view,hlookup,Sane,hfires] at hsane
      have hsettled := handleTimer_settled hskip henabled hview
      rw [← hview] at hsettled
      exact ⟨.reported,hsettled.step,fun _ hclean => hsettled.sent rfl hclean.2,
        (fun h => by cases h),fun h => by cases h⟩
    · exact ⟨.silent,stepped_same (handleTimer_frame.view group hgroup)⟩
  | v1RouterPresent =>
    have hview := foldl_routerGone group (ctx.cancelTimer .v1RouterPresent) ctx.groups.keys
    exact ⟨.silent,hview.step,(fun h => by cases h),(fun h => by cases h),fun h => by cases h⟩

end

lemma step_now (hnot : ∀ duration,e ≠ .advance duration) (hstep : step ctx e = some ctx') : ctx'.now = ctx.now := by
  cases e with
  | advance duration => exact absurd rfl (hnot duration)
  | join env g =>
    cases hstep
    exact gmpJoinGroup_frame.now
  | leave env g =>
    cases hstep
    exact gmpLeaveGroup_frame.now
  | query env addr code | report env addr =>
    cases hstep
    exact handleGmpMessage_now addr
  | fire env id =>
    rw [step] at hstep
    split_ifs at hstep
    cases hstep
    cases id with
    | reportDelay g => exact handleTimer_frame.now
    | v1RouterPresent =>
      exact List.foldlRecOn (motive := fun c : Context A P => c.now = ctx.now) _ _ rfl
        fun _ hc _ _ => routerGone_frame.now.trans hc

lemma step_stepped (hskip : skip P group = false) (hsane : Sane ctx.now (ctx.view group)) (htimely : Timely ctx e)
    (hnot : ∀ duration,e ≠ .advance duration) (hstep : step ctx e = some ctx') :
    ∃ label,Stepped e group ctx ctx' label := by
  cases e with
  | advance duration => exact absurd rfl (hnot duration)
  | join env g =>
    cases hstep
    exact ⟨.silent,stepped_join hskip htimely g⟩
  | leave env g =>
    cases hstep
    exact stepped_leave hskip htimely g
  | query env addr code =>
    cases hstep
    exact stepped_receiveQuery hskip htimely addr code
  | report env addr =>
    cases hstep
    exact stepped_report hskip htimely addr
  | fire env id =>
    rw [step] at hstep
    split_ifs at hstep with hfires
    cases hstep
    exact stepped_fire hskip htimely hfires hsane

def AllSane (ctx : Context A P) : Prop := ∀ group,skip P group = false → Sane ctx.now (ctx.view group)

lemma AllSane.step (h : AllSane ctx) (htimely : Timely ctx e) (hstep : step ctx e = some ctx') : AllSane ctx' := by
  intro group hskip
  have hsane := h group hskip
  by_cases hadvance : ∃ duration,e = .advance duration
  · obtain ⟨duration,rfl⟩ := hadvance
    cases hstep
    change Sane (ctx.now+duration) (ctx.view group)
    rw [view] at hsane ⊢
    cases hlookup : ctx.groups.lookup group with
    | none => simpa [hlookup,Sane] using hsane
    | some entry =>
      obtain ⟨count,s⟩ := entry
      rw [hlookup] at hsane
      cases s with
      | delaying s => exact ⟨hsane.1,htimely _ _ hsane.1⟩
      | idle s => exact hsane
  · have hnot : ∀ duration,e ≠ .advance duration := fun d hd => hadvance ⟨d,hd⟩
    obtain ⟨label,hstepped⟩ := step_stepped hskip hsane htimely hnot hstep
    rw [step_now hnot hstep]
    exact hstepped.step.sane hsane

def Reached (allowed : Context A P → Event A P → Prop) (ctx : Context A P) : Prop :=
  Transition.Reachable (fun ctx => ctx = Context.new) allowed step ctx

lemma Reached.allSane {allowed : Context A P → Event A P → Prop}
    (htimely : ∀ ctx e,allowed ctx e → Timely ctx e) (h : Reached allowed ctx) : AllSane ctx := by
  refine Transition.Reachable.invariant h ?_ ?_
  · rintro ctx rfl group -
    rfl
  · intro ctx e ctx' hsane hallowed hstep
    exact hsane.step (htimely ctx e hallowed) hstep

variable {deadline : ℕ}

lemma Owes.step (h : Owes deadline (ctx.view group)) (hskip : skip P group = false) (hsane : AllSane ctx)
    (htimely : Timely ctx e) (hclean : Clean ctx e) (hquiet : Quiet group ctx e) (hstep : step ctx e = some ctx') :
    Owes deadline (ctx'.view group) := by
  by_cases hadvance : ∃ duration,e = .advance duration
  · obtain ⟨duration,rfl⟩ := hadvance
    cases hstep
    exact h
  · have hnot : ∀ duration,e ≠ .advance duration := fun d hd => hadvance ⟨d,hd⟩
    obtain ⟨label,hstepped⟩ := step_stepped hskip (hsane group hskip) htimely hnot hstep
    obtain ⟨hreports,hmember⟩ := hquiet.2 ctx' hstep
    refine hstepped.step.owes h ?_
    cases label with
    | silent => rfl
    | reported => exact absurd hreports (hstepped.reported rfl hclean).ne'
    | left => exact absurd (hstepped.left rfl) hmember
    | heard =>
      obtain ⟨env,addr,rfl,hconcerns⟩ := hstepped.heard rfl
      obtain rfl : addr = group.val := hconcerns.resolve_left hclean.1
      exact absurd rfl (hquiet.1 env)

lemma Owes.run (h : Owes deadline (ctx.view group)) (hskip : skip P group = false) (hsane : AllSane ctx)
    (hrun : Transition.Reachable (fun c => c = ctx) (fun c e => Timely c e ∧ Clean c e ∧ Quiet group c e) Gmp.step ctx') :
    ctx'.now ≤ deadline := by
  have hinv : AllSane ctx' ∧ Owes deadline (ctx'.view group) := by
    refine Transition.Reachable.invariant (I := fun c => AllSane c ∧ Owes deadline (c.view group)) hrun ?_ ?_
    · rintro c rfl
      exact ⟨hsane,h⟩
    · rintro c e c' ⟨hsane,howes⟩ ⟨htimely,hclean,hquiet⟩ hstep
      exact ⟨hsane.step htimely hstep,howes.step hskip hsane htimely hclean hquiet hstep⟩
  obtain ⟨hsane',count,s,hs,hle⟩ := hinv
  have hgroup := hsane' group hskip
  have hview : ctx'.view group = (some (count,.delaying s),(ctx'.view group).2) := Prod.ext hs rfl
  rw [hview] at hgroup
  exact hgroup.2.trans hle

/-- What holds in a state: the report timers pending are those of the groups that are delaying,
a report is heard only by its group, and a query is answered in time, or a report is heard, or
the group is left. -/
structure Responsive (ctx : Context A P) : Prop where
  delaying : ∀ group,skip P group = false → ∀ deadline,
    ctx.timers (.reportDelay group) = some deadline ↔
      ∃ count s,ctx.groups.lookup group = some (count,.delaying s) ∧ s.state.timerExpiration = deadline
  stray : ∀ group,skip P group = false → ctx.groups.lookup group = none →
    ctx.timers (.reportDelay group) = none
  report : ∀ env addr ctx',Clean ctx (.report env addr) →
    Gmp.step ctx (.report env addr) = some ctx' → ∀ group,group.val ≠ addr →
      ctx'.groups.lookup group = ctx.groups.lookup group
  answers : ∀ env addr code group ctx₁,skip P group = false →
    Timely ctx (.query env addr code) → Clean ctx (.query env addr code) →
    Concerns addr group → ctx.groups.lookup group ≠ none →
    Gmp.step ctx (.query env addr code) = some ctx₁ → ctx.reports group < ctx₁.reports group ∨
      ∀ ctx₂,Transition.Reachable (fun c => c = ctx₁)
          (fun c e => Timely c e ∧ Clean c e ∧ Quiet group c e) Gmp.step ctx₂ →
        ctx₂.now ≤ ctx.now+getMaxRespTime P (maxResponseTime code)

lemma Sane.timer_iff {l : Local P} {now deadline : ℕ} (h : Sane now l) : l.2 = some deadline ↔
      ∃ count s,l.1 = some (count,.delaying s) ∧ s.state.timerExpiration = deadline := by
  obtain ⟨entry,timer⟩ := l
  cases entry with
  | none =>
    have htimer : timer = none := h
    simp [htimer]
  | some entry =>
    obtain ⟨count,s⟩ := entry
    cases s with
    | delaying s =>
      obtain ⟨htimer,-⟩ := h
      simp [htimer]
    | idle s =>
      have htimer : timer = none := h
      simp [htimer]

lemma AllSane.responsive (h : AllSane ctx) : Responsive ctx := by
  refine ⟨fun group hskip deadline => (h group hskip).timer_iff,fun group hskip hnone => ?_,?_,?_⟩
  · have hsane := h group hskip
    rw [view,hnone] at hsane
    exact hsane
  · rintro env addr ctx' hclean hstep group hne
    cases hstep
    have hnot : ¬Concerns addr group := by
      rintro (hall | hgroup)
      · exact hclean.1 hall
      · exact hne hgroup.symm
    exact congrArg Prod.fst (handleGmpMessage_other (.inl hnot))
  · intro env addr code group ctx1 hskip htimely hclean hconcerns hmember hstep
    have hsane1 := h.step htimely hstep
    obtain ⟨⟨count,s⟩,hlookup⟩ := Option.ne_none_iff_exists'.mp hmember
    obtain ⟨label,hstepped,hanswer⟩ := stepped_query hskip htimely hconcerns hlookup
    cases hstep
    obtain rfl | ⟨rfl,howes⟩ := hanswer
    · exact .inl (hstepped.reported rfl hclean)
    · right
      exact fun ctx2 hrun => howes.run hskip hsane1 hrun

/-- As long as no report names the unspecified address and reports can be sent, a host of
either protocol is responsive. -/
theorem reached_responsive (ctx : Context Ipv4Addr Igmpv2ProtocolSpecific)
    (ctx' : Context Ipv6Addr MldProtocolSpecific) :
    (Reached (fun c e => Timely c e ∧ Clean c e) ctx → Responsive ctx) ∧
    (Reached (fun c e => Timely c e ∧ Clean c e) ctx' → Responsive ctx') :=
  ⟨fun h => (h.allSane fun _ _ ha => ha.1).responsive,
    fun h => (h.allSane fun _ _ ha => ha.1).responsive⟩

/-- The time to answer a query for the group passes, but no report is sent for it or heard, and
it is not left. -/
def Unanswered (allowed : Context A P → Event A P → Prop) (group : MulticastAddr A) : Prop :=
  ∃ (ctx ctx₁ ctx₂ : Context A P) (env : Env A) (code : RespCode P),
    Reached allowed ctx ∧ ctx.groups.lookup group ≠ none ∧
    allowed ctx (.query env group.val code) ∧ step ctx (.query env group.val code) = some ctx₁ ∧
    ctx₁.reports group = ctx.reports group ∧
    Transition.Reachable (fun c => c = ctx₁) (fun c e => allowed c e ∧ Quiet group c e) step ctx₂ ∧
    ctx.now+getMaxRespTime P (maxResponseTime code) < ctx₂.now

section Sample

def sampleGroup : MulticastAddr Ipv4Addr := ⟨0xe0000005,by decide⟩

def sampleEnv (address : Option Ipv4Addr) : Env Ipv4Addr := ⟨true,address,true,fun _ => 0⟩

abbrev IgmpHost := Context Ipv4Addr Igmpv2ProtocolSpecific

abbrev IgmpEvent := Event Ipv4Addr Igmpv2ProtocolSpecific

def sampleJoined (address : Option Ipv4Addr) : IgmpHost :=
  (Context.new.gmpJoinGroup (sampleEnv address) sampleGroup).1

def sampleQueried (address : Option Ipv4Addr) : IgmpHost :=
  ((sampleJoined address).receiveQuery (sampleEnv address) sampleGroup.val (1 : UInt8)).1

def sampleSilenced : IgmpHost :=
  ((sampleQueried (some 0x0a000001)).receiveReport (sampleEnv (some 0x0a000001)) 0).1

def sampleDue (address : Option Ipv4Addr) : IgmpHost := { sampleQueried address with now := 1 }

def sampleFired (address : Option Ipv4Addr) : IgmpHost :=
  (sampleDue address).handleTimer (sampleEnv address) (.reportDelay sampleGroup)

lemma sampleJoined_reached {allowed : IgmpHost → IgmpEvent → Prop} {address : Option Ipv4Addr}
    (h : allowed .new (.join (sampleEnv address) sampleGroup)) : Reached allowed (sampleJoined address) :=
  .step (.start rfl) h rfl

lemma timely_of_none {ctx : IgmpHost} {id : TimerId Ipv4Addr}
    (h : ctx.timers = update (update (fun _ => none) id (some 1)) id none)
    (duration : ℕ) : Timely ctx (.advance duration) := by
  intro id deadline hid
  rw [h,update_idem,update_eq_self] at hid
  cases hid

lemma sampleQueried_timely (address : Option Ipv4Addr) : Timely (sampleQueried address) (.advance 1) := by
  have htimers : (sampleQueried address).timers = update (fun _ => none) (.reportDelay sampleGroup) (some 1) := by
    cases address <;> rfl
  intro id deadline hid
  rw [htimers] at hid
  by_cases h : id = .reportDelay sampleGroup
  · rw [h,update_self] at hid
    cases hid
    cases address <;> exact le_rfl
  · rw [update_of_ne h] at hid
    cases hid

lemma quiet_of {ctx ctx' : IgmpHost} {e : IgmpEvent} (hreport : ∀ env,e ≠ .report env sampleGroup.val)
    (hstep : step ctx e = some ctx') (hreports : ctx'.reports sampleGroup = ctx.reports sampleGroup)
    (hmember : ctx'.groups.lookup sampleGroup ≠ none) : Quiet sampleGroup ctx e := by
  refine ⟨hreport,fun c hc => ?_⟩
  cases hstep.symm.trans hc
  exact ⟨hreports,hmember⟩

lemma sampleEnv_sends : (sampleEnv (some 0x0a000001)).Sends Igmpv2ProtocolSpecific := by
  rintro - ⟨_ | _⟩ <;> exact ⟨_,rfl⟩

theorem reached_responsive_sample :
    Reached (fun c e => Timely c e ∧ Clean c e) (sampleJoined (some 0x0a000001)) ∧
    (∀ ctx,Transition.Reachable (fun c => c = sampleQueried (some 0x0a000001))
        (fun c e => Timely c e ∧ Clean c e ∧ Quiet sampleGroup c e) step ctx → ctx.now ≤ 100000) ∧
    Transition.Reachable (fun c => c = sampleQueried (some 0x0a000001))
      (fun c e => Timely c e ∧ Clean c e ∧ Quiet sampleGroup c e) step (sampleDue (some 0x0a000001)) ∧
    step (sampleDue (some 0x0a000001)) (.fire (sampleEnv (some 0x0a000001)) (.reportDelay sampleGroup)) =
      some (sampleFired (some 0x0a000001)) ∧
    (sampleDue (some 0x0a000001)).reports sampleGroup < (sampleFired (some 0x0a000001)).reports sampleGroup ∧
    Responsive (sampleFired (some 0x0a000001)) := by
  have hjoined := @sampleJoined_reached (fun c e => Timely c e ∧ Clean c e) (some 0x0a000001)
    ⟨rfl,trivial,trivial⟩
  have hqueried : Reached (fun c e => Timely c e ∧ Clean c e) (sampleQueried (some 0x0a000001)) :=
    hjoined.step (a := .query (sampleEnv (some 0x0a000001)) sampleGroup.val (1 : UInt8))
      ⟨rfl,trivial,sampleEnv_sends⟩ rfl
  have hdue : Reached (fun c e => Timely c e ∧ Clean c e) (sampleDue (some 0x0a000001)) :=
    hqueried.step (a := .advance 1) ⟨sampleQueried_timely _,trivial,trivial⟩ rfl
  have hfired : Reached (fun c e => Timely c e ∧ Clean c e) (sampleFired (some 0x0a000001)) := hdue.step
    (a := .fire (sampleEnv (some 0x0a000001)) (.reportDelay sampleGroup))
    ⟨rfl,trivial,sampleEnv_sends⟩ rfl
  refine ⟨hjoined,?_,?_,rfl,by decide,(reached_responsive _ .new).1 hfired⟩
  · have hanswers := ((reached_responsive _ .new).1 hjoined).answers (sampleEnv (some 0x0a000001)) sampleGroup.val
      (1 : UInt8) sampleGroup _ rfl rfl ⟨trivial,sampleEnv_sends⟩ (.inr rfl) nofun rfl
    exact hanswers.resolve_left (by decide)
  · exact .step (.start rfl) (a := .advance 1) ⟨sampleQueried_timely _,⟨trivial,trivial⟩,
      quiet_of (fun env h => by cases h) rfl rfl nofun⟩ rfl

/-- A query stays without an answer because of a report for the unspecified address, and also
if the device has no address to send from. -/
theorem query_unanswered :
    Unanswered (A := Ipv4Addr) (P := Igmpv2ProtocolSpecific)
      (fun c e => Timely c e ∧ CanSend e) sampleGroup ∧
    Unanswered (A := Ipv4Addr) (P := Igmpv2ProtocolSpecific)
      (fun c e => Timely c e ∧ Named e) sampleGroup := by
  constructor
  · refine ⟨sampleJoined (some 0x0a000001),sampleQueried (some 0x0a000001),
      { sampleSilenced with now := 100001 },sampleEnv (some 0x0a000001),(1 : UInt8),
      sampleJoined_reached ⟨rfl,trivial⟩,nofun,⟨rfl,by rintro - ⟨_ | _⟩ <;> exact ⟨_,rfl⟩⟩,rfl,rfl,?_,by decide⟩
    refine .step (.step (.start rfl) (a := .report (sampleEnv (some 0x0a000001)) 0)
      ⟨⟨rfl,trivial⟩,?_⟩ rfl) (a := .advance 100001) ⟨⟨timely_of_none rfl _,trivial⟩,?_⟩ rfl
    all_goals exact quiet_of (fun env h => by cases h) rfl rfl nofun
  · refine ⟨sampleJoined none,sampleQueried none,{ sampleFired none with now := 100001 },sampleEnv none,
      (1 : UInt8),sampleJoined_reached ⟨rfl,trivial⟩,nofun,⟨rfl,trivial⟩,rfl,rfl,?_,by decide⟩
    refine .step (.step (.step (.start rfl) (a := .advance 1) ⟨⟨sampleQueried_timely none,trivial⟩,?_⟩ rfl)
      (a := .fire (sampleEnv none) (.reportDelay sampleGroup)) ⟨⟨rfl,trivial⟩,?_⟩ rfl)
      (a := .advance 100000) ⟨⟨timely_of_none rfl _,trivial⟩,?_⟩ rfl
    all_goals exact quiet_of (fun env h => by cases h) rfl rfl nofun

end Sample

end Fuchsia.Netstack.Gmp
