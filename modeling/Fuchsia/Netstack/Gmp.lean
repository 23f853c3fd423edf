import Mathlib.Data.List.AList
import Mathlib.Tactic

/-! Group management protocols (`ip/gmp/mod.rs`): the state machine of a group, and the
context of a device that runs its actions. Times are in microseconds. -/
namespace Fuchsia.Netstack.Gmp

section

class IpAddress (A : Type) where
  unspecified : A
  isMulticast : A → Bool

open IpAddress

/-- The address of a group. -/
structure MulticastAddr (A : Type) [IpAddress A] where
  val : A
  property : isMulticast val = true
  deriving DecidableEq

/-- `RespCode` is the type of the maximum response time in a query. -/
class ProtocolSpecific (P : Type) where
  Action : Type
  Config : Type
  RespCode : Type
  defaultSpecific : P
  defaultConfig : Config
  maxResponseTime : RespCode → ℕ
  cfgUnsolicitedReportInterval : Config → ℕ
  cfgSendLeaveAnyway : Config → Bool
  getMaxRespTime : ℕ → ℕ
  doQueryReceivedSpecific : Config → ℕ → P → P × List Action

open ProtocolSpecific

structure NonMember where

structure DelayingMember where
  timerExpiration : ℕ
  lastReporter : Bool

structure IdleMember where
  lastReporter : Bool

structure GmpHostState (S P : Type) [ProtocolSpecific P] where
  state : S
  protocolSpecific : P
  cfg : Config P

inductive GmpAction (P : Type)
  | scheduleReportTimer (delay : ℕ)
  | stopReportTimer
  | sendLeave
  | sendReport (specific : P)

inductive Action (P : Type) [ProtocolSpecific P]
  | generic (action : GmpAction P)
  | specific (action : ProtocolSpecific.Action P)

abbrev Actions (P : Type) [ProtocolSpecific P] := List (Action P)

inductive MemberState (P : Type) [ProtocolSpecific P]
  | delaying (s : GmpHostState DelayingMember P)
  | idle (s : GmpHostState IdleMember P)

variable {P : Type} [ProtocolSpecific P]

/-- A number in `(0, period]`, for each number that may be drawn. -/
def randomReportTimeout (draw period : ℕ) : ℕ := draw%period+1

def computeTimerExpiration (draw : ℕ) (old : Option ℕ) (respTime now : ℕ) :
    ℕ × Actions P :=
  let respTimeDeadline := getMaxRespTime P respTime
  if respTimeDeadline/1000 = 0 then (now,[])
  else
    let newDeadline := now+respTimeDeadline
    let delay := randomReportTimeout draw respTimeDeadline
    match old with
    | some old =>
      if newDeadline < old then (now+delay,[.generic (.scheduleReportTimer delay)])
      else (old,[])
    | none => (now+delay,[.generic (.scheduleReportTimer delay)])

namespace GmpHostState

/-- The next state, with the actions to take. -/
def transition {S T : Type} (self : GmpHostState S P) (t : T) (actions : Actions P) :
    GmpHostState T P × Actions P :=
  (⟨t,self.protocolSpecific,self.cfg⟩,actions)

def joinGroup (self : GmpHostState NonMember P) (draw now : ℕ) :
    GmpHostState DelayingMember P × Actions P :=
  let delay := randomReportTimeout draw (cfgUnsolicitedReportInterval self.cfg)
  self.transition ⟨now+delay,true⟩
    [.generic (.sendReport self.protocolSpecific),.generic (.scheduleReportTimer delay)]

/-- A query in either state; one that is idle has no old expiration. -/
def queryReceived {S : Type} (self : GmpHostState S P) (old : Option ℕ) (lastReporter : Bool)
    (draw maxRespTime now : ℕ) : GmpHostState DelayingMember P × Actions P :=
  let (timerExpiration,actions) := computeTimerExpiration draw old maxRespTime now
  let (newSpecific,more) := doQueryReceivedSpecific self.cfg maxRespTime self.protocolSpecific
  (⟨⟨timerExpiration,lastReporter⟩,newSpecific,self.cfg⟩,actions++more.map .specific)

/-- The leave message that is sent in either state. -/
def leaveActions {S : Type} (self : GmpHostState S P) (lastReporter : Bool) : Actions P :=
  if lastReporter || cfgSendLeaveAnyway self.cfg then [.generic .sendLeave] else []

def reportReceived (self : GmpHostState DelayingMember P) :
    GmpHostState IdleMember P × Actions P :=
  self.transition ⟨false⟩ [.generic .stopReportTimer]

def reportTimerExpired (self : GmpHostState DelayingMember P) :
    GmpHostState IdleMember P × Actions P :=
  self.transition ⟨true⟩ [.generic (.sendReport self.protocolSpecific)]

end GmpHostState

namespace MemberState

def joinGroup (draw now : ℕ) : MemberState P × Actions P :=
  let (s,actions) := (⟨⟨⟩,defaultSpecific,defaultConfig⟩ : GmpHostState NonMember P).joinGroup
    draw now
  (.delaying s,actions)

def leaveGroup : MemberState P → Actions P
  | .delaying s => s.leaveActions s.state.lastReporter++[.generic .stopReportTimer]
  | .idle s => s.leaveActions s.state.lastReporter

def queryReceived (draw maxRespTime now : ℕ) : MemberState P → MemberState P × Actions P
  | .delaying s =>
    let (s,actions) := s.queryReceived (some s.state.timerExpiration) s.state.lastReporter draw
      maxRespTime now
    (.delaying s,actions)
  | .idle s =>
    let (s,actions) := s.queryReceived none s.state.lastReporter draw maxRespTime now
    (.delaying s,actions)

def reportReceived : MemberState P → MemberState P × Actions P
  | .delaying s =>
    let (s,actions) := s.reportReceived
    (.idle s,actions)
  | s => (s,[])

def reportTimerExpired : MemberState P → MemberState P × Actions P
  | .delaying s =>
    let (s,actions) := s.reportTimerExpired
    (.idle s,actions)
  | s => (s,[])

def updateWithProtocolSpecific (specific : P) : MemberState P → MemberState P
  | .delaying s => .delaying { s with protocolSpecific := specific }
  | .idle s => .idle { s with protocolSpecific := specific }

end MemberState

/-- The timers of both protocols; MLD has only the first. -/
inductive TimerId (A : Type) [IpAddress A]
  | reportDelay (group : MulticastAddr A)
  | v1RouterPresent

instance {A : Type} [IpAddress A] [DecidableEq A] : DecidableEq (TimerId A)
  | .reportDelay g,.reportDelay h =>
    decidable_of_iff (g = h) ⟨congrArg TimerId.reportDelay,fun e => TimerId.reportDelay.inj e⟩
  | .reportDelay _,.v1RouterPresent => isFalse nofun
  | .v1RouterPresent,.reportDelay _ => isFalse nofun
  | .v1RouterPresent,.v1RouterPresent => isTrue rfl

inductive MessageKind
  | membershipReportV1
  | membershipReportV2
  | leaveGroup
  | multicastListenerReport
  | multicastListenerDone
  deriving DecidableEq,Repr

def MessageKind.isReport : MessageKind → Bool
  | .membershipReportV1 | .membershipReportV2 | .multicastListenerReport => true
  | .leaveGroup | .multicastListenerDone => false

/-- A message that is sent. -/
structure Message (A : Type) where
  kind : MessageKind
  srcIp : A
  dstIp : A
  group : A
  deriving DecidableEq

inductive GmpError
  | notAMember
  | sendFailure
  | noIpAddress
  deriving DecidableEq,Repr

variable {A : Type} [IpAddress A]

/-- What a call finds around it: whether the protocol is enabled on the device, the address of
the device, whether the frames are taken, and the numbers that are drawn for the groups. -/
structure Env (A : Type) [IpAddress A] where
  enabled : Bool
  address : Option A
  accepts : Bool
  draw : MulticastAddr A → ℕ

/-- `ctx.send_frame` -/
def Env.sendFrame (env : Env A) (message : Message A) : Except GmpError (Message A) :=
  if env.accepts then .ok message else .error .sendFailure

/-- The groups with their reference counts, the deadlines of the timers, and what has been
sent. -/
structure Context (A P : Type) [IpAddress A] [ProtocolSpecific P] where
  now : ℕ
  groups : AList fun _ : MulticastAddr A => ℕ × MemberState P
  timers : TimerId A → Option ℕ
  sent : List (Message A)

class GmpSender (A P : Type) [IpAddress A] [ProtocolSpecific P] where
  skip : MulticastAddr A → Bool
  sendLeave : Env A → MulticastAddr A → Except GmpError (Message A)
  sendReport : Env A → MulticastAddr A → P → Except GmpError (Message A)

namespace Context

def new : Context A P := ⟨0,∅,fun _ => none,[]⟩

def send (ctx : Context A P) : Except GmpError (Message A) → Context A P
  | .ok message => { ctx with sent := ctx.sent++[message] }
  | .error _ => ctx

variable [DecidableEq A]

def scheduleTimer (ctx : Context A P) (delay : ℕ) (id : TimerId A) : Context A P :=
  { ctx with timers := Function.update ctx.timers id (some (ctx.now+delay)) }

def cancelTimer (ctx : Context A P) (id : TimerId A) : Context A P :=
  { ctx with timers := Function.update ctx.timers id none }

def setState (ctx : Context A P) (group : MulticastAddr A) (count : ℕ) (s : MemberState P) :
    Context A P :=
  { ctx with groups := ctx.groups.insert group (count,s) }

/-- The generic part of `run_action`. -/
def runGeneric [GmpSender A P] (env : Env A) (group : MulticastAddr A) (ctx : Context A P) :
    GmpAction P → Context A P
  | .scheduleReportTimer delay => ctx.scheduleTimer delay (.reportDelay group)
  | .stopReportTimer => ctx.cancelTimer (.reportDelay group)
  | .sendLeave => ctx.send (GmpSender.sendLeave P env group)
  | .sendReport specific => ctx.send (GmpSender.sendReport env group specific)

end Context

/-- The rest of `run_action`, and what the router timer does to a state. -/
class GmpContext (A P : Type) [IpAddress A] [DecidableEq A] [ProtocolSpecific P] extends
    GmpSender A P where
  runSpecific : Env A → MulticastAddr A → Context A P → ProtocolSpecific.Action P → Context A P
  v1RouterPresentTimerExpired : MemberState P → MemberState P

inductive GroupJoinResult
  | joined
  | alreadyMember
  deriving DecidableEq,Repr

inductive GroupLeaveResult
  | left
  | stillMember
  | notMember
  deriving DecidableEq,Repr

namespace Context

variable [DecidableEq A] [GmpContext A P]

def runAction (env : Env A) (group : MulticastAddr A) (ctx : Context A P) :
    Action P → Context A P
  | .generic action => ctx.runGeneric env group action
  | .specific action => GmpContext.runSpecific env group ctx action

def runActions (env : Env A) (ctx : Context A P) (group : MulticastAddr A)
    (actions : Actions P) : Context A P :=
  if GmpSender.skip P group then ctx
  else if env.enabled then actions.foldl (runAction env group) ctx
  else ctx

def handleGroup (env : Env A) (handler : ℕ → MemberState P → MemberState P × Actions P)
    (ctx : Context A P) (group : MulticastAddr A) : Context A P × Actions P :=
  match ctx.groups.lookup group with
  | none => (ctx,[])
  | some (count,s) =>
    let (s,actions) := handler (env.draw group) s
    (ctx.setState group count s,actions)

def handleGroups (env : Env A) (handler : ℕ → MemberState P → MemberState P × Actions P) :
    Context A P → List (MulticastAddr A) → Context A P × List (MulticastAddr A × Actions P)
  | ctx,[] => (ctx,[])
  | ctx,group::groups =>
    let (ctx,actions) := ctx.handleGroup env handler group
    let (ctx,todo) := handleGroups env handler ctx groups
    (ctx,(group,actions)::todo)

def runAll (env : Env A) (ctx : Context A P) (todo : List (MulticastAddr A × Actions P)) :
    Context A P :=
  todo.foldl (fun ctx t => ctx.runActions env t.1 t.2) ctx

def handleGmpMessage (env : Env A) (ctx : Context A P) (groupAddr : A)
    (handler : ℕ → MemberState P → MemberState P × Actions P) :
    Context A P × Except GmpError Unit :=
  if groupAddr = unspecified then
    let (ctx,todo) := handleGroups env handler ctx ctx.groups.keys
    (ctx.runAll env todo,.ok ())
  else if h : isMulticast groupAddr = true then
    match ctx.groups.lookup ⟨groupAddr,h⟩ with
    | none => (ctx,.error .notAMember)
    | some _ =>
      let (ctx,actions) := ctx.handleGroup env handler ⟨groupAddr,h⟩
      (ctx.runActions env ⟨groupAddr,h⟩ actions,.ok ())
  else (ctx,.error .notAMember)

def receiveQuery (env : Env A) (ctx : Context A P) (groupAddr : A)
    (code : ProtocolSpecific.RespCode P) : Context A P × Except GmpError Unit :=
  ctx.handleGmpMessage env groupAddr fun draw s =>
    s.queryReceived draw (maxResponseTime code) ctx.now

def receiveReport (env : Env A) (ctx : Context A P) (groupAddr : A) :
    Context A P × Except GmpError Unit :=
  ctx.handleGmpMessage env groupAddr fun _ s => s.reportReceived

def gmpJoinGroup (env : Env A) (ctx : Context A P) (group : MulticastAddr A) :
    Context A P × GroupJoinResult :=
  match ctx.groups.lookup group with
  | some (count,s) => (ctx.setState group (count+1) s,.alreadyMember)
  | none =>
    let (s,actions) := MemberState.joinGroup (env.draw group) ctx.now
    ((ctx.setState group 1 s).runActions env group actions,.joined)

def gmpLeaveGroup (env : Env A) (ctx : Context A P) (group : MulticastAddr A) :
    Context A P × GroupLeaveResult :=
  match ctx.groups.lookup group with
  | none => (ctx,.notMember)
  | some (count,s) =>
    if count = 1 then
      ({ ctx with groups := ctx.groups.erase group }.runActions env group s.leaveGroup,.left)
    else (ctx.setState group (count-1) s,.stillMember)

/-- No IGMPv1 router is present for one group. -/
def routerGone (ctx : Context A P) (group : MulticastAddr A) : Context A P :=
  match ctx.groups.lookup group with
  | none => ctx
  | some (count,s) => ctx.setState group count (GmpContext.v1RouterPresentTimerExpired A s)

/-- The timer that fires is no longer scheduled. -/
def handleTimer (env : Env A) (ctx : Context A P) (id : TimerId A) : Context A P :=
  let ctx := ctx.cancelTimer id
  match id with
  | .reportDelay group =>
    match ctx.groups.lookup group with
    | none => ctx
    | some (count,s) =>
      let (s,actions) := s.reportTimerExpired
      (ctx.setState group count s).runActions env group actions
  | .v1RouterPresent => ctx.groups.keys.foldl routerGone ctx

end Context

end

/-! What each call means for one group: its entry and its report timer. -/

open IpAddress ProtocolSpecific

variable {A P : Type} [IpAddress A] [ProtocolSpecific P]

abbrev Local (P : Type) [ProtocolSpecific P] := Option (ℕ × MemberState P) × Option ℕ

def Sane (now : ℕ) : Local P → Prop
  | (some (_,.delaying s),timer) =>
    timer = some s.state.timerExpiration ∧ now ≤ s.state.timerExpiration
  | (_,timer) => timer = none

inductive Label
  | silent
  | reported
  | heard
  | left

inductive LocalStep (now : ℕ) : Label → Local P → Local P → Prop
  | same {l : Local P} : LocalStep now .silent l l
  | joined {s : GmpHostState DelayingMember P} {timer : Option ℕ}
      (future : now ≤ s.state.timerExpiration) :
      LocalStep now .silent (none,timer) (some (1,.delaying s),some s.state.timerExpiration)
  | counted {count count' : ℕ} {s : MemberState P} {timer : Option ℕ} :
      LocalStep now .silent (some (count,s),timer) (some (count',s),timer)
  | kept {count : ℕ} {s s' : GmpHostState DelayingMember P} {timer : Option ℕ}
      (expiration : s'.state.timerExpiration = s.state.timerExpiration) :
      LocalStep now .silent (some (count,.delaying s),timer) (some (count,.delaying s'),timer)
  | rested {count : ℕ} {s s' : GmpHostState IdleMember P} {timer : Option ℕ} :
      LocalStep now .silent (some (count,.idle s),timer) (some (count,.idle s'),timer)
  | hurried {count : ℕ} {s s' : GmpHostState DelayingMember P} {timer : Option ℕ}
      (future : now ≤ s'.state.timerExpiration)
      (sooner : s'.state.timerExpiration < s.state.timerExpiration) :
      LocalStep now .silent (some (count,.delaying s),timer)
        (some (count,.delaying s'),some s'.state.timerExpiration)
  | started {count : ℕ} {s : GmpHostState IdleMember P} {s' : GmpHostState DelayingMember P}
      {timer : Option ℕ} (future : now ≤ s'.state.timerExpiration) :
      LocalStep now .silent (some (count,.idle s),timer)
        (some (count,.delaying s'),some s'.state.timerExpiration)
  | reported {count : ℕ} {s : MemberState P} {s' : GmpHostState IdleMember P}
      {timer : Option ℕ} :
      LocalStep now .reported (some (count,s),timer) (some (count,.idle s'),none)
  | heard {count : ℕ} {s : GmpHostState DelayingMember P} {s' : GmpHostState IdleMember P}
      {timer : Option ℕ} :
      LocalStep now .heard (some (count,.delaying s),timer) (some (count,.idle s'),none)
  | left {count : ℕ} {s : GmpHostState DelayingMember P} {timer : Option ℕ} :
      LocalStep now .left (some (count,.delaying s),timer) (none,none)
  | leftIdle {count : ℕ} {s : GmpHostState IdleMember P} {timer : Option ℕ} :
      LocalStep now .left (some (count,.idle s),timer) (none,timer)

variable {now : ℕ} {label : Label} {l l' : Local P}

lemma LocalStep.sane (h : LocalStep now label l l') (hsane : Sane now l) : Sane now l' := by
  cases h with
  | same | rested | leftIdle => exact hsane
  | joined hfuture | hurried hfuture _ | started hfuture => exact ⟨rfl,hfuture⟩
  | @counted _ _ s _ => cases s <;> exact hsane
  | kept hexpiration =>
    simp only [Sane,hexpiration] at hsane ⊢
    exact hsane
  | reported | heard | left => rfl

lemma LocalStep.eq_none (h : LocalStep now .left l l') : l'.1 = none := by cases h <;> rfl

def Owes (deadline : ℕ) (l : Local P) : Prop :=
  ∃ count s,l.1 = some (count,.delaying s) ∧ s.state.timerExpiration ≤ deadline

lemma LocalStep.owes {deadline : ℕ} (h : LocalStep now label l l') (howes : Owes deadline l) :
    label = .silent → Owes deadline l' := by
  obtain ⟨count,s,hs,hle⟩ := howes
  intro hlabel
  cases h with
  | same => exact ⟨count,s,hs,hle⟩
  | joined | rested | started => cases hs
  | counted =>
    cases hs
    exact ⟨_,s,rfl,hle⟩
  | @kept _ _ s' _ hexpiration =>
    cases hs
    exact ⟨_,s',rfl,hexpiration ▸ hle⟩
  | @hurried _ _ s' _ _ hsooner =>
    cases hs
    exact ⟨_,s',rfl,hsooner.le.trans hle⟩
  | reported | heard | left | leftIdle => cases hlabel

namespace Context

variable {ctx ctx' ctx1 ctx2 : Context A P} {group group' : MulticastAddr A}
  (m : Except GmpError (Message A))

@[simp] lemma send_now : (ctx.send m).now = ctx.now := by cases m <;> rfl

variable [DecidableEq A]

def view (ctx : Context A P) (group : MulticastAddr A) : Local P :=
  (ctx.groups.lookup group,ctx.timers (.reportDelay group))

/-- How many reports have been sent for the group. -/
def reports (ctx : Context A P) (group : MulticastAddr A) : ℕ :=
  ctx.sent.countP fun m => m.kind.isReport ∧ m.group = group.val

structure Frame (group : MulticastAddr A) (ctx ctx' : Context A P) : Prop where
  now : ctx'.now = ctx.now
  view : ∀ g,g ≠ group → ctx'.view g = ctx.view g
  reports : ∀ g,ctx.reports g ≤ ctx'.reports g

lemma Frame.refl (ctx : Context A P) : Frame group ctx ctx := ⟨rfl,fun _ _ => rfl,fun _ => le_rfl⟩

lemma Frame.trans (h : Frame group ctx ctx1) (h' : Frame group ctx1 ctx2) : Frame group ctx ctx2 :=
  ⟨h'.now.trans h.now,fun g hg => (h'.view g hg).trans (h.view g hg),fun g => (h.reports g).trans (h'.reports g)⟩

variable (count : ℕ)

@[simp] lemma setState_now (s : MemberState P) : (ctx.setState group count s).now = ctx.now := rfl

@[simp] lemma setState_reports (s : MemberState P) :
    (ctx.setState group count s).reports group' = ctx.reports group' := rfl

@[simp] lemma setState_view (s : MemberState P) :
    (ctx.setState group count s).view group = (some (count,s),(ctx.view group).2) := by simp [view,setState]

lemma setState_frame (s : MemberState P) : Frame group ctx (ctx.setState group count s) := by
  refine ⟨rfl,fun g hg => ?_,fun _ => le_rfl⟩
  simp only [view,setState,AList.lookup_insert_ne hg]

@[simp] lemma scheduleTimer_view (delay : ℕ) : (ctx.scheduleTimer delay (.reportDelay group)).view group =
      ((ctx.view group).1,some (ctx.now+delay)) := by simp [view,scheduleTimer]

@[simp] lemma cancelTimer_view : (ctx.cancelTimer (.reportDelay group)).view group = ((ctx.view group).1,none) := by
  simp [view,cancelTimer]

@[simp] lemma cancelTimer_lookup (id : TimerId A) : (ctx.cancelTimer id).groups = ctx.groups := rfl

lemma cancelTimer_frame : Frame group ctx (ctx.cancelTimer (.reportDelay group)) := by
  refine ⟨rfl,fun g hg => ?_,fun _ => le_rfl⟩
  simp [view,cancelTimer,hg]

@[simp] lemma send_view : (ctx.send m).view group = ctx.view group := by cases m <;> rfl

lemma send_frame : Frame group ctx (ctx.send m) := by
  refine ⟨send_now m,fun g _ => send_view m,fun g => ?_⟩
  cases m with
  | error e => exact le_rfl
  | ok m =>
    simp only [reports,send,List.countP_append]
    omega

lemma send_reports {m : Message A} (hreport : m.kind.isReport = true)
    (hgroup : m.group = group.val) : ctx.reports group < (ctx.send (.ok m)).reports group := by
  simp [reports,send,hreport,hgroup]

end Context

end Fuchsia.Netstack.Gmp
