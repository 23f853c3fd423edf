import Fuchsia.Netstack.Gmp

/-! The calls of a protocol, given what its specific actions do. -/
namespace Fuchsia.Netstack.Gmp

section

open IpAddress ProtocolSpecific Context GmpHostState GmpSender List GmpContext

variable {A P : Type} [IpAddress A] [DecidableEq A] [ProtocolSpecific P] [GmpContext A P]

def Env.Sends (P : Type) [ProtocolSpecific P] [GmpContext A P] (env : Env A) : Prop :=
  ∀ (group : MulticastAddr A) (specific : P),∃ m,sendReport env group specific = .ok m

/-- A query that is to be answered at once has a specific action that does so, and the
specific actions of another leave the group alone. -/
class Lawful (A P : Type) [IpAddress A] [DecidableEq A] [ProtocolSpecific P] [GmpContext A P] :
    Prop where
  report : ∀ (env : Env A) (group : MulticastAddr A) (specific : P) (m : Message A),
    sendReport env group specific = .ok m → m.kind.isReport = true ∧ m.group = group.val
  frame : ∀ (env : Env A) (group : MulticastAddr A) (ctx : Context A P)
    (action : ProtocolSpecific.Action P),
    Frame group ctx (runSpecific env group ctx action)
  immediate : ∀ (cfg : Config P) (code : RespCode P) (specific : P),
    getMaxRespTime P (maxResponseTime code)/1000 = 0 →
      ∃ action,(doQueryReceivedSpecific cfg (maxResponseTime code) specific).2 = [action] ∧
        ∀ (env : Env A) (group : MulticastAddr A) (ctx : Context A P) (count : ℕ)
          (s : GmpHostState DelayingMember P),
          ctx.groups.lookup group = some (count,.delaying s) →
          runSpecific env group ctx action = ((ctx.cancelTimer (.reportDelay group)).setState group count
              (.idle ⟨⟨true⟩,s.protocolSpecific,s.cfg⟩)).send
                (sendReport env group s.protocolSpecific)
  delayed : ∀ (cfg : Config P) (code : RespCode P) (specific : P),
    getMaxRespTime P (maxResponseTime code)/1000 ≠ 0 →
      ∀ action ∈ (doQueryReceivedSpecific cfg (maxResponseTime code) specific).2,
        ∀ (env : Env A) (group : MulticastAddr A) (ctx : Context A P),
          (runSpecific env group ctx action).view group = ctx.view group
  routerGone : ∀ s : MemberState P,
    ∃ specific,v1RouterPresentTimerExpired A s = s.updateWithProtocolSpecific specific

structure Settled (env : Env A) (group : MulticastAddr A) (l : Local P)
    (ctx ctx' : Context A P) (label : Label) : Prop where
  step : LocalStep ctx.now label l (ctx'.view group)
  sent : label = .reported → env.Sends P → ctx.reports group < ctx'.reports group

variable {env : Env A} {ctx ctx' : Context A P} {group : MulticastAddr A} {actions : Actions P}

section Frames

variable [Lawful A P]

lemma runAction_frame (action : Action P) : Frame group ctx (ctx.runAction env group action) := by
  cases action with
  | specific action => exact Lawful.frame env group ctx action
  | generic action =>
    cases action with
    | scheduleReportTimer delay =>
      refine ⟨rfl,fun g hg => ?_,fun _ => le_rfl⟩
      simp [runAction,runGeneric,view,scheduleTimer,hg]
    | stopReportTimer => exact cancelTimer_frame
    | sendLeave | sendReport specific => exact send_frame _

lemma runActions_frame : Frame group ctx (ctx.runActions env group actions) := by
  rw [runActions]
  split_ifs
  · exact Frame.refl ctx
  · exact foldlRecOn actions _ (Frame.refl ctx) fun c hc action _ =>
      hc.trans (runAction_frame action)
  · exact Frame.refl ctx

end Frames

lemma runActions_of (hskip : skip P group = false) (henabled : env.enabled = true) :
    ctx.runActions env group actions = actions.foldl (runAction env group) ctx := by
  simp [runActions,hskip,henabled]

lemma foldl_specific_view (ctx : Context A P) {more : List (ProtocolSpecific.Action P)}
    (h : ∀ action ∈ more,∀ ctx : Context A P, (runSpecific env group ctx action).view group = ctx.view group) :
    ((more.map Action.specific).foldl (runAction env group) ctx).view group = ctx.view group := by
  induction more generalizing ctx with
  | nil => rfl
  | cons action more ih =>
    rw [map_cons,foldl_cons,ih _ (forall_mem_cons.mp h).2]
    exact h action mem_cons_self ctx

lemma computeTimerExpiration_cases (draw : ℕ) (old : Option ℕ) (respTime now : ℕ) : (getMaxRespTime P respTime/1000 = 0 ∧
      computeTimerExpiration (P := P) draw old respTime now = (now,[])) ∨
    (getMaxRespTime P respTime/1000 ≠ 0 ∧ ∃ delay,delay ≤ getMaxRespTime P respTime ∧
      computeTimerExpiration (P := P) draw old respTime now =
        (now+delay,[.generic (.scheduleReportTimer delay)]) ∧ ∀ o,old = some o → now+delay < o) ∨
    getMaxRespTime P respTime/1000 ≠ 0 ∧ ∃ o,old = some o ∧ o ≤ now+getMaxRespTime P respTime ∧
      computeTimerExpiration (P := P) draw old respTime now = (o,[]) := by
  rw [computeTimerExpiration]
  by_cases hzero : getMaxRespTime P respTime/1000 = 0
  · exact .inl ⟨hzero,if_pos hzero⟩
  have hdelay : randomReportTimeout draw (getMaxRespTime P respTime) ≤ getMaxRespTime P respTime := by
    have := Nat.mod_lt draw (show 0 < getMaxRespTime P respTime by omega)
    rw [randomReportTimeout]
    omega
  right
  simp only [if_neg hzero]
  cases old with
  | none => exact .inl ⟨hzero,_,hdelay,rfl,by simp⟩
  | some o =>
    by_cases hurgent : now+getMaxRespTime P respTime < o
    · refine .inl ⟨hzero,_,hdelay,by simp only [if_pos hurgent],?_⟩
      intro o' ho
      cases ho
      omega
    · exact .inr ⟨hzero,o,rfl,not_lt.mp hurgent,by simp only [if_neg hurgent]⟩

section

variable (hskip : skip P group = false)
include hskip

variable {timer : Option ℕ} {s : MemberState P} {count draw : ℕ} {code : RespCode P}

section

variable (henabled : env.enabled = true)
include henabled

lemma settle_queryReceived [Lawful A P]
    (hview : ctx.view group = (some (count,(s.queryReceived draw (maxResponseTime code) ctx.now).1),timer)) :
    ∃ label,Settled env group (some (count,s),timer) ctx (ctx.runActions env group
        (s.queryReceived draw (maxResponseTime code) ctx.now).2) label ∧
      (label = .reported ∨ label = .silent ∧ Owes (ctx.now+getMaxRespTime P (maxResponseTime code))
        ((ctx.runActions env group (s.queryReceived draw (maxResponseTime code) ctx.now).2).view group)) := by
  -- in both states `host` computes the timer from the one that was running
  obtain ⟨S,host,old,lastReporter,hquery,hold⟩ : ∃ (S : Type) (host : GmpHostState S P) (old : Option ℕ)
      (lastReporter : Bool),s.queryReceived draw (maxResponseTime code) ctx.now =
        ((host.queryReceived old lastReporter draw (maxResponseTime code) ctx.now).map .delaying id) ∧
      ((∃ s0 : GmpHostState DelayingMember P,s = .delaying s0 ∧ old = some s0.state.timerExpiration) ∨
        ∃ s0 : GmpHostState IdleMember P,s = .idle s0 ∧ old = none) := by
    cases s with
    | delaying s => exact ⟨_,s,_,_,rfl,.inl ⟨s,rfl,rfl⟩⟩
    | idle s => exact ⟨_,s,_,_,rfl,.inr ⟨s,rfl,rfl⟩⟩
  rw [hquery] at hview ⊢
  rw [runActions_of hskip henabled]
  simp only [queryReceived,Prod.map,id] at hview ⊢
  obtain ⟨hzero,hcompute⟩ | ⟨hne,delay,hdelay,hcompute,hsooner⟩ | ⟨hne,o,ho,hle,hcompute⟩ :=
    computeTimerExpiration_cases (P := P) draw old (maxResponseTime code) ctx.now
  · obtain ⟨action,hmore,hrun⟩ := Lawful.immediate (A := A) host.cfg code host.protocolSpecific hzero
    have hlookup := congrArg Prod.fst hview
    refine ⟨.reported,?_,.inl rfl⟩
    rw [hcompute,hmore]
    simp only [nil_append,map_cons,map_nil,foldl_cons,foldl_nil,runAction]
    rw [hrun _ _ _ _ _ hlookup]
    constructor
    · simp only [send_view,setState_view,cancelTimer_view]
      exact .reported
    · rintro - hsends
      obtain ⟨m,hm⟩ := hsends group (_ : P)
      obtain ⟨hreport,hgroup⟩ := Lawful.report _ _ _ _ hm
      rw [hm]
      exact send_reports hreport hgroup
  · have hmore := Lawful.delayed (A := A) host.cfg code host.protocolSpecific hne
    have hafter := foldl_specific_view (ctx.scheduleTimer delay (.reportDelay group))
      fun action haction => hmore action haction env group
    rw [scheduleTimer_view,hview,hcompute] at hafter
    rw [hcompute]
    simp only [cons_append,nil_append,foldl_cons,runAction,runGeneric] at hafter ⊢
    refine ⟨.silent,⟨?_,nofun⟩,.inr ⟨rfl,?_⟩⟩
    · rw [hafter]
      obtain ⟨s0,rfl,hs0⟩ | ⟨s0,rfl,-⟩ := hold
      · exact .hurried (Nat.le_add_right _ _) (hsooner _ hs0)
      · exact .started (Nat.le_add_right _ _)
    · rw [hafter]
      exact ⟨count,_,rfl,Nat.add_le_add_left hdelay _⟩
  · have hmore := Lawful.delayed (A := A) host.cfg code host.protocolSpecific hne
    have hafter := foldl_specific_view ctx fun action haction =>
      hmore action haction env group
    rw [hview,hcompute] at hafter
    rw [hcompute]
    simp only [nil_append] at hafter ⊢
    obtain ⟨s0,rfl,hs0⟩ | ⟨s0,-,hs0⟩ := hold
    · cases ho.symm.trans hs0
      refine ⟨.silent,⟨?_,nofun⟩,.inr ⟨rfl,?_⟩⟩
      · rw [hafter]
        exact .kept rfl
      · rw [hafter]
        exact ⟨count,_,rfl,hle⟩
    · rw [hs0] at ho
      cases ho

lemma settle_reportReceived (hview : ctx.view group = (some (count,s.reportReceived.1),timer)) :
    ∃ label,Settled env group (some (count,s),timer) ctx
      (ctx.runActions env group s.reportReceived.2) label ∧ (label = .heard ∨ label = .silent) := by
  rw [runActions_of hskip henabled]
  cases s with
  | delaying s =>
    refine ⟨.heard,⟨?_,nofun⟩,.inl rfl⟩
    simp only [MemberState.reportReceived,reportReceived,transition,
      foldl_cons,foldl_nil,runAction,runGeneric,cancelTimer_view,hview]
    exact .heard
  | idle s =>
    refine ⟨.silent,⟨?_,nofun⟩,.inr rfl⟩
    simp only [MemberState.reportReceived,foldl_nil,hview]
    exact .same

lemma handleTimer_settled [Lawful A P] {s : GmpHostState DelayingMember P}
    (hview : ctx.view group = (some (count,.delaying s),timer)) : Settled env group (some (count,.delaying s),timer) ctx
      (ctx.handleTimer env (.reportDelay group)) .reported := by
  have hlookup : ctx.groups.lookup group = some (count,.delaying s) := congrArg Prod.fst hview
  have hafter : ctx.handleTimer env (.reportDelay group) = ((ctx.cancelTimer (.reportDelay group)).setState group count
        (.idle ⟨⟨true⟩,s.protocolSpecific,s.cfg⟩)).send (sendReport env group s.protocolSpecific) := by
    simp [handleTimer,hlookup,runActions_of hskip henabled,MemberState.reportTimerExpired,
      reportTimerExpired,transition,runAction,runGeneric]
  rw [hafter]
  constructor
  · simp only [send_view,setState_view,cancelTimer_view]
    exact .reported
  · rintro - hsends
    obtain ⟨m,hm⟩ := hsends group s.protocolSpecific
    obtain ⟨hreport,hgroup⟩ := Lawful.report _ _ _ _ hm
    rw [hm]
    exact send_reports hreport hgroup

end

end

lemma handleTimer_frame [Lawful A P] : Frame group ctx (ctx.handleTimer env (.reportDelay group)) := by
  rw [handleTimer]
  refine cancelTimer_frame.trans ?_
  cases (ctx.cancelTimer (.reportDelay group)).groups.lookup group with
  | none => exact Frame.refl _
  | some e => exact (setState_frame _ _).trans runActions_frame

lemma gmpJoinGroup_settled (hskip : skip P group = false) (henabled : env.enabled = true) :
    Settled env group (ctx.view group) ctx (ctx.gmpJoinGroup env group).1 .silent := by
  refine ⟨?_,nofun⟩
  rw [gmpJoinGroup]
  cases hlookup : ctx.groups.lookup group with
  | some e =>
    have hview : ctx.view group = (some (e.1,e.2),(ctx.view group).2) := Prod.ext hlookup rfl
    simp only [setState_view]
    rw [hview]
    exact .counted
  | none =>
    have hview : ctx.view group = (none,(ctx.view group).2) := Prod.ext hlookup rfl
    simp only [runActions_of hskip henabled,MemberState.joinGroup,joinGroup,
      transition,foldl_cons,foldl_nil,runAction,runGeneric,
      scheduleTimer_view,send_view,send_now,setState_now,setState_view]
    rw [hview]
    exact .joined (Nat.le_add_right _ _)

lemma gmpJoinGroup_frame [Lawful A P] : Frame group ctx (ctx.gmpJoinGroup env group).1 := by
  rw [gmpJoinGroup]
  cases ctx.groups.lookup group with
  | some e => exact setState_frame _ _
  | none => exact (setState_frame _ _).trans runActions_frame

lemma leaveActions_view {S : Type} (host : GmpHostState S P) (lastReporter : Bool) :
    ((host.leaveActions lastReporter).foldl (runAction env group) ctx).view group = ctx.view group := by
  rw [leaveActions]
  split_ifs
  · exact send_view _
  · rfl

lemma gmpLeaveGroup_settled (ctx : Context A P) (hskip : skip P group = false) (henabled : env.enabled = true) :
    ∃ label,Settled env group (ctx.view group) ctx (ctx.gmpLeaveGroup env group).1 label ∧
      (label = .silent ∨ label = .left ∧ (ctx.gmpLeaveGroup env group).1.groups.lookup group = none) := by
  rw [gmpLeaveGroup]
  cases hlookup : ctx.groups.lookup group with
  | none => exact ⟨.silent,⟨.same,fun h => by cases h⟩,.inl rfl⟩
  | some e =>
    obtain ⟨count,s⟩ := e
    have hview : ctx.view group = (some (count,s),(ctx.view group).2) := Prod.ext hlookup rfl
    have herased : { ctx with groups := ctx.groups.erase group }.view group =
        (none,(ctx.view group).2) := Prod.ext (by simp [view]) rfl
    by_cases hcount : count = 1
    · simp only [if_pos hcount,runActions_of hskip henabled]
      suffices hstep : LocalStep ctx.now .left (ctx.view group) ((s.leaveGroup.foldl
          (runAction env group) { ctx with groups := ctx.groups.erase group }).view group) by
        exact ⟨.left,⟨hstep,fun h => by cases h⟩,.inr ⟨rfl,hstep.eq_none⟩⟩
      rw [hview]
      cases s with
      | delaying s =>
        simp only [MemberState.leaveGroup,foldl_append,foldl_cons,foldl_nil,
          runAction,runGeneric,cancelTimer_view,leaveActions_view,herased]
        exact .left
      | idle s =>
        simp only [MemberState.leaveGroup,leaveActions_view,herased]
        exact .leftIdle
    · simp only [if_neg hcount]
      refine ⟨.silent,⟨?_,fun h => by cases h⟩,.inl rfl⟩
      rw [setState_view,hview]
      exact .counted

lemma gmpLeaveGroup_frame [Lawful A P] : Frame group ctx (ctx.gmpLeaveGroup env group).1 := by
  have herase : Frame group ctx { ctx with groups := ctx.groups.erase group } := by
    refine ⟨rfl,fun g hg => ?_,fun _ => le_rfl⟩
    simp only [view,AList.lookup_erase_ne hg]
  rw [gmpLeaveGroup]
  cases ctx.groups.lookup group with
  | none => exact Frame.refl ctx
  | some e =>
    by_cases hcount : e.1 = 1
    · simp only [if_pos hcount]
      exact herase.trans runActions_frame
    · simp only [if_neg hcount]
      exact setState_frame _ _

end

/-! Messages that concern one group or all of them. -/

open IpAddress ProtocolSpecific Context List Prod

variable {A P : Type} [IpAddress A] [DecidableEq A] [ProtocolSpecific P] {env : Env A}
  {ctx ctx' : Context A P} {group : MulticastAddr A}
  {handler : ℕ → MemberState P → MemberState P × Actions P} {groups : List (MulticastAddr A)}

lemma handleGroup_frame : Frame group ctx (ctx.handleGroup env handler group).1 := by
  rw [handleGroup]
  cases ctx.groups.lookup group with
  | none => exact Frame.refl ctx
  | some e => exact setState_frame _ _

lemma handleGroup_of {count : ℕ} {s : MemberState P} (h : ctx.groups.lookup group = some (count,s)) :
    (ctx.handleGroup env handler group).1.view group = (some (count,(handler (env.draw group) s).1),(ctx.view group).2) ∧
      (ctx.handleGroup env handler group).2 = (handler (env.draw group) s).2 := by
  rw [handleGroup,h]
  exact ⟨setState_view _ _,rfl⟩

structure Replaced (env : Env A) (handler : ℕ → MemberState P → MemberState P × Actions P)
    (group : MulticastAddr A) (ctx ctx' : Context A P)
    (todo : List (MulticastAddr A × Actions P)) : Prop where
  now : ctx'.now = ctx.now
  reports : ctx.reports group ≤ ctx'.reports group
  outside : group ∉ todo.map fst → ctx'.view group = ctx.view group
  absent : ctx.groups.lookup group = none → ctx'.view group = ctx.view group
  inside : ∀ count s,group ∈ todo.map fst → ctx.groups.lookup group = some (count,s) →
    ctx'.view group = (some (count,(handler (env.draw group) s).1),(ctx.view group).2) ∧
      (group,(handler (env.draw group) s).2) ∈ todo

lemma handleGroups_fst (env : Env A) (handler : ℕ → MemberState P → MemberState P × Actions P) (ctx : Context A P) :
    (handleGroups env handler ctx groups).2.map fst = groups := by
  induction groups generalizing ctx with
  | nil => rfl
  | cons g groups ih =>
    rw [handleGroups]
    exact congrArg (g::·) (ih _)

lemma handleGroups_replaced (hnodup : groups.Nodup) (group : MulticastAddr A) :
    Replaced env handler group ctx (handleGroups env handler ctx groups).1 (handleGroups env handler ctx groups).2 := by
  induction groups generalizing ctx with
  | nil => exact ⟨rfl,le_rfl,fun _ => rfl,fun _ => rfl,fun _ _ h => by simp [handleGroups] at h⟩
  | cons g groups ih =>
    obtain ⟨hg,hnodup⟩ := nodup_cons.mp hnodup
    have hframe : Frame g ctx (ctx.handleGroup env handler g).1 := handleGroup_frame
    have hrest := @ih (ctx.handleGroup env handler g).1 hnodup
    have hfst := @handleGroups_fst _ _ _ _ _ groups env handler (ctx.handleGroup env handler g).1
    have htodo : (handleGroups env handler ctx (g::groups)).2 = (g,(ctx.handleGroup env handler g).2)::
          (handleGroups env handler (ctx.handleGroup env handler g).1 groups).2 := rfl
    by_cases hgroup : group = g
    · subst hgroup
      have houtside := hrest.outside (by rwa [hfst])
      refine ⟨hrest.now.trans hframe.now,(hframe.reports group).trans hrest.reports,?_,?_,?_⟩
      · intro hnot
        simp [htodo] at hnot
      · intro habsent
        refine houtside.trans ?_
        simp only [handleGroup,habsent]
      · intro count s _ hlookup
        obtain ⟨hview,hactions⟩ := @handleGroup_of _ _ _ _ _ env ctx group handler count s hlookup
        refine ⟨houtside.trans hview,?_⟩
        rw [htodo,hactions]
        exact mem_cons_self
    · have hview := hframe.view group hgroup
      have hlookup : (ctx.handleGroup env handler g).1.groups.lookup group =
          ctx.groups.lookup group := congrArg fst hview
      refine ⟨hrest.now.trans hframe.now,(hframe.reports group).trans hrest.reports,?_,?_,?_⟩
      · intro hnot
        rw [htodo,map_cons,mem_cons,not_or] at hnot
        exact (hrest.outside hnot.2).trans hview
      · intro habsent
        exact (hrest.absent (hlookup.trans habsent)).trans hview
      · intro count s hmem hsome
        rw [htodo,map_cons,mem_cons] at hmem
        obtain ⟨hafter,hactions⟩ := hrest.inside count s (hmem.resolve_left hgroup) (hlookup.trans hsome)
        rw [hview] at hafter
        rw [htodo]
        exact ⟨hafter,mem_cons_of_mem _ hactions⟩

variable [GmpContext A P]

def Ran (env : Env A) (group : MulticastAddr A) (actions : Actions P) (ctx ctx' : Context A P) :
    Prop :=
  ∃ ctx₁ : Context A P,ctx₁.now = ctx.now ∧ ctx₁.view group = ctx.view group ∧
    ctx.reports group ≤ ctx₁.reports group ∧
    ctx'.view group = (ctx₁.runActions env group actions).view group ∧
    (ctx₁.runActions env group actions).reports group ≤ ctx'.reports group

lemma routerGone_frame : Frame group ctx (ctx.routerGone group) := by
  rw [routerGone]
  cases ctx.groups.lookup group with
  | none => exact Frame.refl ctx
  | some e => exact setState_frame _ _

variable [Lawful A P] {todo : List (MulticastAddr A × Actions P)}

lemma runAll_frame (hnot : group ∉ todo.map fst) : (ctx.runAll env todo).view group = ctx.view group ∧
      ctx.reports group ≤ (ctx.runAll env todo).reports group := by
  refine foldlRecOn (motive := fun c : Context A P =>
    c.view group = ctx.view group ∧ ctx.reports group ≤ c.reports group) todo _ ⟨rfl,le_rfl⟩ ?_
  intro c hc t ht
  have hne : group ≠ t.1 := fun h => hnot (h ▸ mem_map_of_mem ht)
  exact ⟨(runActions_frame.view group hne).trans hc.1,hc.2.trans (runActions_frame.reports group)⟩

lemma runAll_now : (ctx.runAll env todo).now = ctx.now :=
  foldlRecOn (motive := fun c : Context A P => c.now = ctx.now) todo _ rfl fun _ hc _ _ =>
    runActions_frame.now.trans hc

lemma runAll_ran (hnodup : (todo.map fst).Nodup) {actions : Actions P} (hmem : (group,actions) ∈ todo) :
    Ran env group actions ctx (ctx.runAll env todo) := by
  induction todo generalizing ctx with
  | nil => cases hmem
  | cons t todo ih =>
    obtain ⟨hnot,hnodup⟩ := nodup_cons.mp hnodup
    obtain rfl | hmem := mem_cons.mp hmem
    · obtain ⟨hview,hreports⟩ :=
        @runAll_frame _ _ _ _ _ env (ctx.runActions env group actions) group _ _ todo hnot
      exact ⟨ctx,rfl,rfl,le_rfl,hview,hreports⟩
    · have hne : group ≠ t.1 := by
        rintro rfl
        exact hnot (mem_map.mpr ⟨_,hmem,rfl⟩)
      have hframe : Frame t.1 ctx (ctx.runActions env t.1 t.2) := runActions_frame
      obtain ⟨ctx1,hnow,hview,hreports,hafter⟩ := @ih (ctx.runActions env t.1 t.2) hnodup hmem
      exact ⟨ctx1,hnow.trans hframe.now,hview.trans (hframe.view group hne),
        (hframe.reports group).trans hreports,hafter⟩

/-- Whether a message with the address is for the group. -/
def Concerns (addr : A) (group : MulticastAddr A) : Prop := addr = unspecified ∨ addr = group.val

lemma handleGmpMessage_now (addr : A) : (ctx.handleGmpMessage env addr handler).1.now = ctx.now := by
  rw [handleGmpMessage]
  split_ifs with hall hmulticast
  · refine runAll_now.trans ?_
    cases hkeys : ctx.groups.keys with
    | nil => rfl
    | cons g groups =>
      rw [← hkeys]
      exact (handleGroups_replaced ctx.groups.keys_nodup g).now
  · cases ctx.groups.lookup ⟨addr,hmulticast⟩ with
    | none => rfl
    | some e => exact runActions_frame.now.trans handleGroup_frame.now
  · rfl

lemma handleGmpMessage_other {addr : A} (h : ¬Concerns addr group ∨ ctx.groups.lookup group = none) :
    (ctx.handleGmpMessage env addr handler).1.view group = ctx.view group := by
  rw [handleGmpMessage]
  split_ifs with hall hmulticast
  · have habsent : ctx.groups.lookup group = none := h.resolve_left fun hnot => hnot (.inl hall)
    have hnot : group ∉ ctx.groups.keys := AList.lookup_eq_none.mp habsent
    have hfst := @handleGroups_fst _ _ _ _ _ ctx.groups.keys env handler ctx
    have hreplaced := @handleGroups_replaced _ _ _ _ _ env ctx handler _ ctx.groups.keys_nodup group
    refine (runAll_frame ?_).1.trans (hreplaced.absent habsent)
    rwa [hfst]
  · cases hlookup : ctx.groups.lookup ⟨addr,hmulticast⟩ with
    | none => rfl
    | some e =>
      have hne : group ≠ ⟨addr,hmulticast⟩ := by
        rintro rfl
        obtain hnot | hnone := h
        · exact hnot (.inr rfl)
        · rw [hnone] at hlookup
          cases hlookup
      exact (runActions_frame.view group hne).trans (handleGroup_frame.view group hne)
  · rfl

lemma handleGmpMessage_handled (env : Env A) (handler : ℕ → MemberState P → MemberState P × Actions P) {addr : A}
    (hconcerns : Concerns addr group) {count : ℕ} {s : MemberState P}
    (hlookup : ctx.groups.lookup group = some (count,s)) : ∃ ctx1 : Context A P,ctx1.now = ctx.now ∧
      ctx1.view group = (some (count,(handler (env.draw group) s).1),(ctx.view group).2) ∧
      ctx.reports group ≤ ctx1.reports group ∧ Ran env group (handler (env.draw group) s).2 ctx1
        (ctx.handleGmpMessage env addr handler).1 := by
  rw [handleGmpMessage]
  by_cases hall : addr = unspecified
  · have hmem : group ∈ ctx.groups.keys := by
      by_contra hnot
      rw [AList.lookup_eq_none.mpr hnot] at hlookup
      cases hlookup
    have hfst := @handleGroups_fst _ _ _ _ _ ctx.groups.keys env handler ctx
    have hreplaced := @handleGroups_replaced _ _ _ _ _ env ctx handler _ ctx.groups.keys_nodup group
    obtain ⟨hview,htodo⟩ := hreplaced.inside count s (by rwa [hfst]) hlookup
    rw [if_pos hall]
    refine ⟨_,hreplaced.now,hview,hreplaced.reports,runAll_ran ?_ htodo⟩
    rw [hfst]
    exact ctx.groups.keys_nodup
  · have haddr := hconcerns.resolve_left hall
    subst haddr
    rw [if_neg hall,dif_pos group.property,hlookup]
    obtain ⟨hview,hactions⟩ := @handleGroup_of _ _ _ _ _ env ctx group handler count s hlookup
    refine ⟨_,handleGroup_frame.now,hview,handleGroup_frame.reports group,?_⟩
    rw [← hactions]
    exact ⟨_,rfl,rfl,le_rfl,rfl,le_rfl⟩

def Respecified (l l' : Local P) : Prop := l' = l ∨ ∃ count s specific,l.1 = some (count,s) ∧
    l' = (some (count,s.updateWithProtocolSpecific specific),l.2)

lemma Respecified.trans {l l1 l2 : Local P} (h : Respecified l l1) (h' : Respecified l1 l2) : Respecified l l2 := by
  obtain rfl | ⟨count,s,specific,hs,rfl⟩ := h'
  · exact h
  · obtain rfl | ⟨count1,s1,specific1,hs1,rfl⟩ := h
    · exact .inr ⟨count,s,specific,hs,rfl⟩
    · cases hs
      refine .inr ⟨count,s1,specific,hs1,?_⟩
      cases s1 <;> rfl

lemma Respecified.step {now : ℕ} {l l' : Local P} (h : Respecified l l') : LocalStep now .silent l l' := by
  obtain rfl | ⟨count,s,specific,hs,rfl⟩ := h
  · exact .same
  · obtain ⟨entry,timer⟩ := l
    cases hs
    cases s with
    | delaying s => exact .kept rfl
    | idle s => exact .rested

lemma routerGone_respecified (g : MulticastAddr A) : Respecified (ctx.view group) ((ctx.routerGone g).view group) := by
  by_cases hgroup : group = g
  · subst hgroup
    rw [routerGone]
    cases hlookup : ctx.groups.lookup group with
    | none => exact .inl rfl
    | some e =>
      obtain ⟨specific,hspecific⟩ := Lawful.routerGone (A := A) e.2
      refine .inr ⟨e.1,e.2,specific,hlookup,?_⟩
      rw [← hspecific]
      exact setState_view _ _
  · exact .inl (routerGone_frame.view group hgroup)

lemma foldl_routerGone (group : MulticastAddr A) (ctx : Context A P) (groups : List (MulticastAddr A)) :
    Respecified (ctx.view group) ((groups.foldl routerGone ctx).view group) :=
  foldlRecOn (motive := fun c : Context A P => Respecified (ctx.view group) (c.view group)) groups _
    (.inl rfl) fun _ hc g _ => hc.trans (routerGone_respecified g)

end Fuchsia.Netstack.Gmp
