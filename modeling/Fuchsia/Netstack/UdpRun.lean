import Fuchsia.Lib.Transition
import Fuchsia.Netstack.UdpCalls

/-! Runs of calls on the UDP sockets: who owns a port does not depend on the order of the
requests, if no connection names the port of a wildcard listener. -/
namespace Fuchsia.Netstack.Udp

section

open Fallible

variable {A E : Type}

inductive Call (A E : Type)
  | connect (ctx : Context A E) (localIp : Option A) (localPort : Option NonZeroU16) (remoteIp : A)
      (remotePort : NonZeroU16)
  | listen (ctx : Context A E) (addr : Option A) (port : Option NonZeroU16)
  | send (ctx : Context A E) (localIp : Option A) (localPort : Option NonZeroU16) (remoteIp : A)
      (remotePort : NonZeroU16)
  | removeConn (id : ℕ)
  | removeListener (id : UdpListenerId)

/-- What a call returns, and whether that is an error. -/
inductive Outcome (A E : Type)
  | connected (r : Except SocketError ℕ)
  | listening (r : Except SocketError UdpListenerId)
  | sent (r : Except (NetstackError E) Unit)
  | removedConn (info : Conn A)
  | removedListener (info : UdpListenerInfo A)

def Outcome.failed : Outcome A E → Bool
  | .connected (.error _) | .listening (.error _) | .sent (.error _) => true
  | _ => false

def Call.removes : Call A E → Option SocketId
  | .removeConn id => some (.conn id)
  | .removeListener id => some (.listener id)
  | _ => none

def Call.asks : Call A E → Option (Socket A)
  | .connect ctx localIp (some localPort) remoteIp remotePort =>
    (ctx.localAddressForRemote remoteIp).bind fun defaultLocal =>
      if ctx.isLocalAddr (localIp.getD defaultLocal) then
        some (.conn ⟨localIp.getD defaultLocal,localPort,remoteIp,remotePort⟩)
      else none
  | .listen ctx addr (some port) =>
    if addr.all ctx.isLocalAddr then some (.listen addr port) else none
  | _ => none

variable {x : Socket A} {ctx : Context A E}

lemma asks_connect {localIp : Option A} {localPort : Option NonZeroU16} {remoteIp : A} {remotePort : NonZeroU16}
    (h : (Call.connect ctx localIp localPort remoteIp remotePort).asks = some x) :
    ∃ port ip,localPort = some port ∧ ctx.localAddressForRemote remoteIp = some ip ∧
      ctx.isLocalAddr (localIp.getD ip) ∧ x = .conn ⟨localIp.getD ip,port,remoteIp,remotePort⟩ := by
  cases localPort with
  | none => cases h
  | some port =>
    rw [Call.asks,Option.bind_eq_some_iff] at h
    obtain ⟨ip,hroute,h⟩ := h
    split_ifs at h with hlocal
    exact ⟨port,ip,rfl,hroute,hlocal,(Option.some.inj h).symm⟩

lemma asks_listen {addr : Option A} {port : Option NonZeroU16} (h : (Call.listen ctx addr port).asks = some x) :
    ∃ p,port = some p ∧ (∀ a,addr = some a → ctx.isLocalAddr a) ∧ x = .listen addr p := by
  cases port with
  | none => cases h
  | some p =>
    rw [Call.asks] at h
    split_ifs at h with hlocal
    refine ⟨p,rfl,?_,(Option.some.inj h).symm⟩
    rintro a rfl
    exact hlocal

variable [DecidableEq A]

def call (s : UdpState A) : Call A E → Except Panic (UdpState A × Outcome A E)
  | .connect ctx localIp localPort remoteIp remotePort => do
    let (s,r) ← connectUdp ctx s localIp localPort remoteIp remotePort
    return (s,.connected r)
  | .listen ctx addr port => do
    let (s,r) ← listenUdp ctx s addr port
    return (s,.listening r)
  | .send ctx localIp localPort remoteIp remotePort => do
    let (s,r) ← sendUdp ctx s localIp localPort remoteIp remotePort
    return (s,.sent r)
  | .removeConn id => do
    let (s,info) ← removeUdpConn s id
    return (s,.removedConn info)
  | .removeListener id => do
    let (s,info) ← removeUdpListener s id
    return (s,.removedListener info)

/-- No connection is asked for on the port of a wildcard listener. -/
def Allowed (s : UdpState A) : Call A E → Prop
  | .connect _ _ (some localPort) _ _ =>
    s.connState.wildcardListeners.getByAddr localPort = none
  | _ => True

instance (s : UdpState A) : (c : Call A E) → Decidable (Allowed s c)
  | .connect _ _ (some localPort) _ _ =>
    inferInstanceAs (Decidable (s.connState.wildcardListeners.getByAddr localPort = none))
  | .connect _ _ none _ _ => .isTrue trivial
  | .listen _ _ _ => .isTrue trivial
  | .send _ _ _ _ _ => .isTrue trivial
  | .removeConn _ => .isTrue trivial
  | .removeListener _ => .isTrue trivial

def start : UdpState A := ⟨.new,none⟩

def step (s : UdpState A) (c : Call A E) : Option (UdpState A) :=
  match call s c with
  | .ok (s',_) => some s'
  | .error _ => none

def Reached (A E : Type) [DecidableEq A] : UdpState A → Prop :=
  Transition.Reachable (· = start) (Allowed : UdpState A → Call A E → Prop) step

def Grants (s : UdpState A) (c : Call A E) (s' : UdpState A) : Prop :=
  ∃ o,call s c = .ok (s',o) ∧ o.failed = false

def NoConflict (s : UdpConnectionState A) : Prop :=
  ∀ i j x y,i ≠ j → s.socket i = some x → s.socket j = some y → ¬Socket.Conflict x y

variable {id : SocketId}

lemma NoConflict.added {s s' : UdpConnectionState A} (h : NoConflict s) (hfree : s.Free x)
    (hadded : Added s x id s') : NoConflict s' := by
  intro i j y z hne hi hj
  rw [hadded.socket] at hi hj
  split_ifs at hi hj with hi' hj' hj'
  · exact absurd (hi'.trans hj'.symm) hne
  · cases hi
    exact hfree j z hj
  · cases hj
    exact fun hconflict => hfree i y hi hconflict.symm
  · exact h i j y z hne hi hj

lemma NoConflict.removed {s s' : UdpConnectionState A} (h : NoConflict s)
    (hremoved : Removed s id s') : NoConflict s' := by
  intro i j x y hne hi hj
  rw [hremoved.socket] at hi hj
  split_ifs at hi hj
  exact h i j x y hne hi hj

inductive Effect (allowed : Prop) (s : UdpConnectionState A) : Bool → UdpConnectionState A → Prop
  | same {failed : Bool} : Effect allowed s failed s
  | added {x : Socket A} {id : SocketId} {s' : UdpConnectionState A} :
      (allowed → s.Free x) → Added s x id s' → Effect allowed s false s'
  | removed {id : SocketId} {s' : UdpConnectionState A} :
      Removed s id s' → Effect allowed s false s'

variable {s s' : UdpState A} {c : Call A E} {o : Outcome A E}

lemma call_effect (h : s.connState.Ok) (c : Call A E) :
    (∃ id,c.removes = some id ∧ s.connState.socket id = none) ∧ call s c = .error .panic ∨
      ∃ s' o,call s c = .ok (s',o) ∧ Effect (Allowed s c) s.connState o.failed s'.connState := by
  cases c with
  | connect ctx localIp localPort remoteIp remotePort =>
    refine .inr ?_
    obtain ⟨t,r,hconnect,⟨⟨e,rfl⟩,hsame⟩ | ⟨d,id,conns,rfl,hdescribes,-,-,hconn,hlistener,hfree,hins,ht⟩⟩ :=
      connectUdp_cases h ctx localIp localPort remoteIp remotePort
    · simp only [call,hconnect,ok_bind,pure_eq]
      exact ⟨t,_,rfl,hsame ▸ .same⟩
    · simp only [call,hconnect,ok_bind,pure_eq]
      refine ⟨t,_,rfl,.added (fun hallowed => ?_) (ht ▸ added_conn h hins)⟩
      cases localPort with
      | none => exact hfree rfl
      | some p =>
        obtain rfl := hdescribes.2.1 p rfl
        exact h.free_conn.mpr ⟨hconn,hlistener,hallowed⟩
  | listen ctx addr port =>
    refine .inr ?_
    obtain ⟨t,r,hlisten,⟨⟨e,rfl⟩,hsame⟩ | ⟨p,id,rfl,-,hfree,hadded⟩⟩ := listenUdp_cases h ctx addr port
    · simp only [call,hlisten,ok_bind,pure_eq]
      exact ⟨t,_,rfl,hsame ▸ .same⟩
    · simp only [call,hlisten,ok_bind,pure_eq]
      exact ⟨t,_,rfl,.added (fun _ => hfree) hadded⟩
  | send ctx localIp localPort remoteIp remotePort =>
    refine .inr ?_
    obtain ⟨t,r,hsend,hsame⟩ := sendUdp_cases h ctx localIp localPort remoteIp remotePort
    simp only [call,hsend,ok_bind,pure_eq]
    exact ⟨t,_,rfl,hsame ▸ .same⟩
  | removeConn id =>
    obtain ⟨hnone,hpanic⟩ | ⟨t,info,hremove,hremoved⟩ := removeUdpConn_cases h id
    · refine .inl ⟨⟨_,rfl,hnone⟩,?_⟩
      simp only [call,hpanic]
      rfl
    · simp only [call,hremove,ok_bind,pure_eq]
      exact .inr ⟨t,_,rfl,.removed hremoved⟩
  | removeListener id =>
    obtain ⟨hnone,hpanic⟩ | ⟨t,info,hremove,hremoved⟩ := removeUdpListener_cases h id
    · refine .inl ⟨⟨_,rfl,hnone⟩,?_⟩
      simp only [call,hpanic]
      rfl
    · simp only [call,hremove,ok_bind,pure_eq]
      exact .inr ⟨t,_,rfl,.removed hremoved⟩

lemma call_ok (h : s.connState.Ok) (hcall : call s c = .ok (s',o)) :
    Effect (Allowed s c) s.connState o.failed s'.connState := by
  obtain ⟨-,hpanic⟩ | ⟨t,r,hok,heffect⟩ := call_effect h c
  · rw [hpanic] at hcall
    cases hcall
  · rw [hok] at hcall
    cases hcall
    exact heffect

structure Good (t : UdpConnectionState A) : Prop where
  ok : t.Ok
  noConflict : NoConflict t

variable {t t' : UdpConnectionState A}

lemma Good.effect (h : Good t) {allowed : Prop} {failed : Bool}
    (hallowed : allowed) (heffect : Effect allowed t failed t') : Good t' := by
  cases heffect with
  | same => exact h
  | added hfree hadded => exact ⟨hadded.ok,h.noConflict.added (hfree hallowed) hadded⟩
  | removed hremoved => exact ⟨hremoved.ok,h.noConflict.removed hremoved⟩

lemma Reached.good (h : Reached A E s) : Good s.connState := by
  refine @Transition.Reachable.invariant _ _ _ _ _ (fun s => Good s.connState) s h ?_ ?_
  · rintro s rfl
    refine ⟨UdpConnectionState.new_ok,fun i j x y _ hi => ?_⟩
    obtain i | i | i := i <;> cases hi
  · rintro s c s' hgood hallowed hstep
    rw [step] at hstep
    split at hstep
    · rename_i t o hcall
      cases hstep
      exact hgood.effect hallowed (call_ok hgood.ok hcall)
    · cases hstep

lemma Grants.added (h : s.connState.Ok) (hasks : c.asks = some x) (hgrants : Grants s c s') :
    (∃ id,Added s.connState x id s'.connState) ∧ (Allowed s c → s.connState.Free x) := by
  obtain ⟨o,hcall,hfailed⟩ := hgrants
  cases c with
  | connect ctx localIp localPort remoteIp remotePort =>
    obtain ⟨port,ip,rfl,hroute,-,rfl⟩ := asks_connect hasks
    obtain ⟨t,r,hconnect,⟨⟨e,rfl⟩,-⟩ | ⟨d,id,conns,rfl,hdescribes,-,hip,hconn,hlistener,-,hins,ht⟩⟩ :=
      connectUdp_cases h ctx localIp (some port) remoteIp remotePort
    · simp only [call,hconnect,ok_bind,pure_eq] at hcall
      cases hcall
      cases hfailed
    · simp only [call,hconnect,ok_bind,pure_eq] at hcall
      cases hcall
      have hd : d = ⟨localIp.getD ip,port,remoteIp,remotePort⟩ := by
        obtain ⟨-,hport,hremote,hremotePort⟩ := hdescribes
        cases d
        simp only [Conn.mk.injEq]
        exact ⟨hip ip hroute,(hport port rfl).symm,hremote,hremotePort⟩
      subst hd
      exact ⟨⟨.conn id,ht ▸ added_conn h hins⟩,fun hallowed => h.free_conn.mpr ⟨hconn,hlistener,hallowed⟩⟩
  | listen ctx addr port =>
    obtain ⟨p,rfl,-,rfl⟩ := asks_listen hasks
    obtain ⟨t,r,hlisten,⟨⟨e,rfl⟩,-⟩ | ⟨q,id,rfl,hq,hfree,hadded⟩⟩ := listenUdp_cases h ctx addr (some p)
    · simp only [call,hlisten,ok_bind,pure_eq] at hcall
      cases hcall
      cases hfailed
    · simp only [call,hlisten,ok_bind,pure_eq] at hcall
      cases hcall
      obtain rfl := hq p rfl
      exact ⟨⟨.listener id,hadded⟩,fun _ => hfree⟩
  | send | removeConn | removeListener => cases hasks

lemma grants_of_free (h : s.connState.Ok) (hasks : c.asks = some x) (hfree : s.connState.Free x) :
    ∃ s',Grants s c s' := by
  cases c with
  | connect ctx localIp localPort remoteIp remotePort =>
    obtain ⟨port,ip,rfl,hroute,hlocal,rfl⟩ := asks_connect hasks
    obtain ⟨hconn,hlistener,-⟩ := h.free_conn.mp hfree
    obtain ⟨id,conns,hinsert,-⟩ := ConnSocketMap.insert_of h.conns hconn
    refine ⟨{ s with connState := { s.connState with conns := conns } },.connected (.ok id),?_,rfl⟩
    rw [call,connectUdp,hroute]
    dsimp only
    rw [if_neg (not_not.mpr hlocal),chooseLocalPort,ok_bind]
    simp only [connectWith,hconn,hlistener,hinsert,ok_bind,pure_eq]
    rfl
  | listen ctx addr port =>
    obtain ⟨p,rfl,hlocal,rfl⟩ := asks_listen hasks
    obtain ⟨e,a,ha,hnot,-⟩ | ⟨s',id,hlisten,-⟩ := listenWith_cases h ctx hfree
    · exact absurd (hlocal a ha) hnot
    · refine ⟨s',.listening (.ok id),?_,rfl⟩
      rw [call,listenUdp,chooseListenPort,h.isListenPortAvailable_iff.mpr hfree,if_pos rfl,ok_bind]
      simp only [hlisten,ok_bind,pure_eq]
  | send | removeConn | removeListener => cases hasks

lemma allowed_of_free (h : s.connState.Ok) (hasks : c.asks = some x) (hfree : s.connState.Free x) : Allowed s c := by
  cases c with
  | connect ctx localIp localPort remoteIp remotePort =>
    obtain ⟨port,ip,rfl,-,-,rfl⟩ := asks_connect hasks
    exact (h.free_conn.mp hfree).2.2
  | listen | send | removeConn | removeListener => trivial

lemma free_added {y : Socket A} (hadded : Added t y id t') : t'.Free x ↔ t.Free x ∧ ¬Socket.Conflict x y := by
  constructor
  · intro hfree
    refine ⟨fun j z hj => hfree j z ?_,hfree id y (by rw [hadded.socket,if_pos rfl])⟩
    rw [hadded.socket,if_neg]
    · exact hj
    · rintro rfl
      rw [hadded.fresh] at hj
      cases hj
  · rintro ⟨hfree,hxy⟩ j z hj
    rw [hadded.socket] at hj
    split_ifs at hj
    · cases hj
      exact hxy
    · exact hfree j z hj

structure Sound (E : Type) (s : UdpState A) : Prop where
  noConflict : NoConflict s.connState
  returns : ∀ c : Call A E,(∀ id,c.removes = some id → s.connState.socket id ≠ none) →
    ∃ r,call s c = .ok r
  failing : ∀ (c : Call A E) s' o,call s c = .ok (s',o) → o.failed = true → s'.connState = s.connState
  sending : ∀ (ctx : Context A E) localIp localPort remoteIp remotePort s' o,
    call s (.send ctx localIp localPort remoteIp remotePort) = .ok (s',o) → s'.connState = s.connState
  granted : ∀ (c : Call A E) x,c.asks = some x → Allowed s c → ((∃ s',Grants s c s') ↔ s.connState.Free x)
  ordered : ∀ (c d : Call A E) x y t u,c.asks = some x → d.asks = some y → Allowed s c →
    Grants s c t → Allowed t d → Grants t d u →
      ∃ t' u',Allowed s d ∧ Grants s d t' ∧ Allowed t' c ∧ Grants t' c u'

/-- In every state that a run reaches without a connection on the port of a wildcard
listener, no two sockets are in conflict, and no order of requests is better than another. -/
theorem reached_ports_owned (h : Reached A E s) : Sound E s := by
  have hgood := h.good
  refine ⟨hgood.noConflict,fun c hc => ?_,fun c s' o hcall hfailed => ?_,
    fun ctx localIp localPort remoteIp remotePort s' o hcall => ?_,
    fun c x hasks hallowed => ⟨?_,grants_of_free hgood.ok hasks⟩,
    fun c d x y t u hc hd hsc hst htd htu => ?_⟩
  · obtain ⟨⟨id,hid,hnone⟩,-⟩ | ⟨s',o,hok,-⟩ := call_effect hgood.ok c
    · exact absurd hnone (hc id hid)
    · exact ⟨_,hok⟩
  · have heffect := call_ok hgood.ok hcall
    rw [hfailed] at heffect
    generalize s'.connState = t' at heffect
    cases heffect
    rfl
  · obtain ⟨t,r,hsend,hsame⟩ := sendUdp_cases hgood.ok ctx localIp localPort remoteIp remotePort
    simp only [call,hsend,ok_bind,pure_eq] at hcall
    cases hcall
    exact hsame
  · rintro ⟨s',hgrants⟩
    exact (hgrants.added hgood.ok hasks).2 hallowed
  · obtain ⟨⟨i,hi⟩,hx⟩ := hst.added hgood.ok hc
    obtain ⟨-,hy⟩ := htu.added hi.ok hd
    obtain ⟨hsy,hyx⟩ := (free_added hi).mp (hy htd)
    obtain ⟨t',hst'⟩ := grants_of_free hgood.ok hd hsy
    obtain ⟨⟨j,hj⟩,-⟩ := hst'.added hgood.ok hd
    have htx := (free_added hj).mpr ⟨hx hsc,fun hconflict => hyx hconflict.symm⟩
    obtain ⟨u',htu'⟩ := grants_of_free hj.ok hc htx
    exact ⟨t',u',allowed_of_free hgood.ok hd hsy,hst',allowed_of_free hj.ok hc htx,htu'⟩

section Sample

def sampleContext : Context Bool Unit where
  localAddressForRemote _ := some false
  isLocalAddr addr := addr = false
  newPortAlloc := ⟨Vector.replicate 20 0,Vector.replicate 16 0,Vector.replicate 16 0⟩
  nextU32 := 0
  hmacWithSecret _ _ := 0
  sendFrame _ := .ok ()

def samplePort : NonZeroU16 := ⟨80,by decide⟩

def sampleListen : Call Bool Unit := .listen sampleContext none (some samplePort)

def sampleConnect : Call Bool Unit := .connect sampleContext none (some samplePort) true samplePort

def sampleCalls : List (Call Bool Unit) :=
  [sampleListen,sampleListen,.connect sampleContext none none true samplePort,
    .listen sampleContext (some false) none,.send sampleContext none (some samplePort) true samplePort,
    .removeListener (.wildcard 0),sampleConnect,sampleListen,.removeConn 0]

lemma sample_runs : (Transition.run Allowed step start sampleCalls).isSome = true := by decide +kernel

theorem reached_ports_owned_sample :
    ∃ s : UdpState Bool,Reached Bool Unit s ∧
      s.connState.socket (.conn 1) = some (.conn ⟨false,samplePort,true,samplePort⟩) ∧
      Sound Unit s := by
  have hrun := (Option.some_get sample_runs).symm
  refine ⟨_,Transition.Reachable.run (.start rfl) hrun,?_,
    reached_ports_owned (Transition.Reachable.run (.start rfl) hrun)⟩
  decide +kernel

/-- A connection is made on the port of a wildcard listener, although the listener is refused
after the connection. -/
theorem connect_over_wildcard_conflicts :
    ∃ s t u v : UdpState Bool,Grants start sampleListen s ∧ Grants s sampleConnect t ∧
      ¬NoConflict t.connState ∧ Grants start sampleConnect u ∧
      ∃ o,call u sampleListen = .ok (v,o) ∧ o.failed = true := by
  refine ⟨_,_,_,_,⟨_,rfl,rfl⟩,⟨_,rfl,rfl⟩,fun h => ?_,⟨_,rfl,rfl⟩,_,rfl,rfl⟩
  refine h (.conn 0) (.listener (.wildcard 0)) (.conn ⟨false,samplePort,true,samplePort⟩)
    (.wildcard samplePort) (by decide) rfl rfl ?_
  exact Socket.conflict_conn.mpr (.inr (.inr rfl))

end Sample

end

/-! The delivery of received UDP packets. A source address that is unspecified and the source
port 0 are absent. -/

variable {A E : Type}

inductive LookupResult (A : Type)
  | conn (id : ℕ) (conn : Conn A)
  | listener (id : UdpListenerId) (listener : Listener A)
  | wildcardListener (id : UdpListenerId) (port : NonZeroU16)

inductive Delivery (A : Type)
  | receiveUdpFromConn (id : ℕ) (remoteIp : A) (remotePort : NonZeroU16)
  | receiveUdpFromListen (id : UdpListenerId) (srcIp : Option A) (dstIp : A)
      (srcPort : Option NonZeroU16)

def Delivery.socketId : Delivery A → SocketId
  | .receiveUdpFromConn id _ _ => .conn id
  | .receiveUdpFromListen id _ _ _ => .listener id

inductive TransportReceiveError
  | portUnreachable
  deriving DecidableEq

variable [DecidableEq A]

def UdpConnectionState.lookup (s : UdpConnectionState A) (localIp remoteIp : A)
    (localPort remotePort : NonZeroU16) : Option (LookupResult A) :=
  let conn : Conn A := ⟨localIp,localPort,remoteIp,remotePort⟩
  ((s.conns.getIdByAddr conn).map fun id => .conn id conn).or
    (((s.listeners.getByAddr ⟨localIp,localPort⟩).map fun id =>
      .listener (.specified id) ⟨localIp,localPort⟩).or
      ((s.wildcardListeners.getByAddr localPort).map fun id =>
        .wildcardListener (.wildcard id) localPort))

/-- `receive_ip_packet` of a packet that parses. -/
def receiveIpPacket (s : UdpConnectionState A) (sendPortUnreachable : Bool) (srcIp : Option A)
    (dstIp : A) (srcPort : Option NonZeroU16) (dstPort : NonZeroU16) :
    Except TransportReceiveError (Option (Delivery A)) :=
  match srcIp.bind fun srcIp => srcPort.bind fun srcPort => s.lookup dstIp srcIp dstPort srcPort with
  | some (.conn id conn) => .ok (some (.receiveUdpFromConn id conn.remoteIp conn.remotePort))
  | some (.listener id _) | some (.wildcardListener id _) =>
    .ok (some (.receiveUdpFromListen id srcIp dstIp srcPort))
  | none => if sendPortUnreachable then .error .portUnreachable else .ok none

def receiver (s : UdpConnectionState A) (sendPortUnreachable : Bool) (srcIp : Option A) (dstIp : A)
    (srcPort : Option NonZeroU16) (dstPort : NonZeroU16) :
    Except TransportReceiveError (Option SocketId) :=
  (receiveIpPacket s sendPortUnreachable srcIp dstIp srcPort dstPort).map (Option.map Delivery.socketId)

def matching (srcIp : Option A) (dstIp : A) (srcPort : Option NonZeroU16) (dstPort : NonZeroU16) :
    List (Socket A) :=
  (srcIp.bind fun ip => srcPort.map fun port => .conn ⟨dstIp,dstPort,ip,port⟩).toList++
    [.listener ⟨dstIp,dstPort⟩,.wildcard dstPort]

/-- A packet goes to the preferred one of the live sockets that match it; the port is
unreachable if there is none. -/
def Preferred (s : UdpConnectionState A) (sendPortUnreachable : Bool) (srcIp : Option A) (dstIp : A)
    (srcPort : Option NonZeroU16) (dstPort : NonZeroU16) : Prop :=
  (∃ before x after id,matching srcIp dstIp srcPort dstPort = before++x::after ∧
      (∀ y ∈ before,∀ j,s.socket j ≠ some y) ∧ s.socket id = some x ∧
      receiver s sendPortUnreachable srcIp dstIp srcPort dstPort = .ok (some id)) ∨
    (∀ x ∈ matching srcIp dstIp srcPort dstPort,∀ j,s.socket j ≠ some x) ∧
      receiver s sendPortUnreachable srcIp dstIp srcPort dstPort =
        if sendPortUnreachable then .error .portUnreachable else .ok none

/-- The state after any calls. -/
def Running (A E : Type) [DecidableEq A] : UdpState A → Prop :=
  Transition.Reachable (· = start) (fun _ (_ : Call A E) => True) step

variable {s : UdpState A}

lemma Effect.ok {t t' : UdpConnectionState A} {allowed : Prop} {failed : Bool} (h : t.Ok)
    (heffect : Effect allowed t failed t') : t'.Ok := by
  cases heffect with
  | same => exact h
  | added _ hadded => exact hadded.ok
  | removed hremoved => exact hremoved.ok

lemma Running.ok (h : Running A E s) : s.connState.Ok := by
  refine @Transition.Reachable.invariant _ _ _ _ _ (fun s => s.connState.Ok) s h ?_ ?_
  · rintro s rfl
    exact UdpConnectionState.new_ok
  · rintro s c s' hok - hstep
    rw [step] at hstep
    split at hstep
    · rename_i hcall
      cases hstep
      exact (call_ok hok hcall).ok hok
    · cases hstep

lemma receiver_eq (t : UdpConnectionState A) (sendPortUnreachable : Bool) (srcIp dstIp : A)
    (srcPort dstPort : NonZeroU16) : receiver t sendPortUnreachable (some srcIp) dstIp (some srcPort) dstPort =
      ((matching (some srcIp) dstIp (some srcPort) dstPort).findSome? t.owner).elim
        (if sendPortUnreachable then .error .portUnreachable else .ok none) fun id => .ok (some id) := by
  simp only [receiver,receiveIpPacket,UdpConnectionState.lookup,Option.bind_some,matching,Option.map_some,
    Option.toList_some,List.singleton_append,List.findSome?_cons,List.findSome?_nil,UdpConnectionState.owner]
  cases t.conns.getIdByAddr ⟨dstIp,dstPort,srcIp,srcPort⟩ with
  | some id => rfl
  | none =>
    cases t.listeners.getByAddr ⟨dstIp,dstPort⟩ with
    | some id => rfl
    | none =>
      cases t.wildcardListeners.getByAddr dstPort with
      | some id => rfl
      | none => cases sendPortUnreachable <;> rfl

lemma receiver_absent (t : UdpConnectionState A) (sendPortUnreachable : Bool) {srcIp : Option A} (dstIp : A)
    {srcPort : Option NonZeroU16} (dstPort : NonZeroU16) (h : srcIp = none ∨ srcPort = none) :
    receiver t sendPortUnreachable srcIp dstIp srcPort dstPort =
      if sendPortUnreachable then .error .portUnreachable else .ok none := by
  have hbind : (srcIp.bind fun ip => srcPort.bind fun port => t.lookup dstIp ip dstPort port) = none := by
    obtain rfl | rfl := h
    · rfl
    · cases srcIp <;> rfl
  simp only [receiver,receiveIpPacket,hbind]
  cases sendPortUnreachable <;> rfl

/-- The delivery is right just if the packet has a source address and a source port, or no listener is there
for its destination. -/
theorem receiver_preferred (sendPortUnreachable : Bool) (srcIp : Option A) (dstIp : A)
    (srcPort : Option NonZeroU16) (dstPort : NonZeroU16) (h : Running A E s) :
    Preferred s.connState sendPortUnreachable srcIp dstIp srcPort dstPort ↔
      srcIp ≠ none ∧ srcPort ≠ none ∨ ∀ j,s.connState.socket j ≠ some (.listener ⟨dstIp,dstPort⟩) ∧
        s.connState.socket j ≠ some (.wildcard dstPort) := by
  by_cases habsent : srcIp = none ∨ srcPort = none
  · have hmatching : matching srcIp dstIp srcPort dstPort = [.listener ⟨dstIp,dstPort⟩,.wildcard dstPort] := by
      obtain rfl | rfl := habsent
      · rfl
      · cases srcIp <;> rfl
    rw [Preferred,receiver_absent _ _ _ _ habsent,hmatching]
    constructor
    · rintro (⟨_,_,_,id,-,-,-,hid⟩ | ⟨hnone,-⟩)
      · cases sendPortUnreachable <;> cases hid
      · exact .inr fun j => ⟨hnone _ (by simp) j,hnone _ (by simp) j⟩
    · intro hnone
      replace hnone := hnone.resolve_left (by tauto)
      refine .inr ⟨?_,rfl⟩
      simp only [List.mem_cons,List.not_mem_nil,or_false,forall_eq_or_imp,forall_eq]
      exact ⟨fun j => (hnone j).1,fun j => (hnone j).2⟩
  · rw [not_or] at habsent
    refine iff_of_true ?_ (.inl habsent)
    obtain ⟨ip,rfl⟩ := Option.ne_none_iff_exists'.mp habsent.1
    obtain ⟨port,rfl⟩ := Option.ne_none_iff_exists'.mp habsent.2
    simp only [Preferred,receiver_eq,← h.ok.owner_eq_none,← h.ok.owner_eq]
    cases howner : (matching (some ip) dstIp (some port) dstPort).findSome? s.connState.owner with
    | none => exact .inr ⟨List.findSome?_eq_none_iff.mp howner,rfl⟩
    | some id =>
      obtain ⟨before,x,after,hmatching,hx,hbefore⟩ := List.findSome?_eq_some_iff.mp howner
      exact .inl ⟨before,x,after,id,hmatching,hbefore,hx,rfl⟩

def sampleListening : UdpState Bool := (step start sampleListen).getD start

lemma sample_running : Running Bool Unit sampleListening :=
  .step (.start rfl) trivial (show step start sampleListen = some _ from rfl)

def sampleBoth : UdpState Bool := (step sampleListening sampleConnect).getD start

theorem receiver_preferred_sample : sampleBoth.connState.socket (.listener (.wildcard 0)) =
      some (.wildcard samplePort) ∧
    Preferred sampleBoth.connState true (some true) false (some samplePort) samplePort ∧
    receiver sampleBoth.connState true (some true) false (some samplePort) samplePort = .ok (some (.conn 0)) ∧
    Preferred sampleBoth.connState true (some true) false (some ⟨81,by decide⟩) samplePort ∧
    receiver sampleBoth.connState true (some true) false (some ⟨81,by decide⟩) samplePort =
      .ok (some (.listener (.wildcard 0))) := by
  have hrunning : Running Bool Unit sampleBoth :=
    .step sample_running trivial (show step sampleListening sampleConnect = some _ from rfl)
  exact ⟨rfl,(receiver_preferred true _ false _ samplePort hrunning).mpr (.inl ⟨nofun,nofun⟩),rfl,
    (receiver_preferred true _ false _ samplePort hrunning).mpr (.inl ⟨nofun,nofun⟩),rfl⟩

/-- A packet without a source port is not given to the listener of its port. -/
theorem receiver_no_source_port : Running Bool Unit sampleListening ∧
    sampleListening.connState.socket (.listener (.wildcard 0)) = some (.wildcard samplePort) ∧
    receiver sampleListening.connState true (some true) false none samplePort =
      .error .portUnreachable :=
  ⟨sample_running,rfl,rfl⟩

end Fuchsia.Netstack.Udp
