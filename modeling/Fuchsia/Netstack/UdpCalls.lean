import Fuchsia.Netstack.Udp

/-! The live sockets of the UDP tables and which of them are in conflict. -/
namespace Fuchsia.Netstack.Udp

open Fallible Option

variable {A E : Type}

inductive Socket (A : Type)
  | conn (c : Conn A)
  | listener (l : Listener A)
  | wildcard (port : NonZeroU16)
  deriving DecidableEq

variable {port : NonZeroU16}

namespace Socket

def localPort : Socket A → NonZeroU16
  | .conn c => c.localPort
  | .listener l => l.port
  | .wildcard port => port

def localIp : Socket A → Option A
  | .conn c => some c.localIp
  | .listener l => some l.addr
  | .wildcard _ => none

def isWildcard : Socket A → Prop
  | .wildcard _ => True
  | _ => False

def isSpecified : Socket A → Prop
  | .listener _ => True
  | _ => False

def Conflict (x y : Socket A) : Prop := (∃ c,x = .conn c ∧ y = .conn c) ∨
    (x.localPort = y.localPort ∧ (x.isWildcard ∨ y.isWildcard)) ∨
    (x.localIp = y.localIp ∧ x.localPort = y.localPort ∧ (x.isSpecified ∨ y.isSpecified))

def listen : Option A → NonZeroU16 → Socket A
  | some addr,port => .listener ⟨addr,port⟩
  | none,port => .wildcard port

variable {y : Socket A}

lemma Conflict.symm {x : Socket A} (h : Conflict x y) : Conflict y x := by
  obtain ⟨c,hx,hy⟩ | ⟨hport,h⟩ | ⟨hip,hport,h⟩ := h
  · exact .inl ⟨c,hy,hx⟩
  · exact .inr (.inl ⟨hport.symm,h.symm⟩)
  · exact .inr (.inr ⟨hip.symm,hport.symm,h.symm⟩)

lemma conflict_self (x : Socket A) : Conflict x x := by
  cases x with
  | conn c => exact .inl ⟨c,rfl,rfl⟩
  | listener l => exact .inr (.inr ⟨rfl,rfl,.inl trivial⟩)
  | wildcard port => exact .inr (.inl ⟨rfl,.inl trivial⟩)

lemma conflict_conn {c : Conn A} : Conflict (.conn c) y ↔ y = .conn c ∨ y = .listener ⟨c.localIp,c.localPort⟩ ∨
      y = .wildcard c.localPort := by
  cases y with
  | conn d => simp [Conflict,isWildcard,isSpecified,eq_comm]
  | listener l =>
    obtain ⟨addr,port⟩ := l
    simp [Conflict,isWildcard,isSpecified,localIp,localPort,eq_comm]
  | wildcard port => simp [Conflict,isWildcard,isSpecified,localIp,localPort,eq_comm]

lemma conflict_wildcard : Conflict (.wildcard port) y ↔ y.localPort = port := by
  cases y <;> simp [Conflict,isWildcard,isSpecified,localIp,localPort,eq_comm]

lemma conflict_listener {l : Listener A} : Conflict (.listener l) y ↔
      y.localPort = l.port ∧ (y = .wildcard l.port ∨ y.localIp = some l.addr) := by
  cases y with
  | conn d | listener l' =>
    simp [Conflict,isWildcard,isSpecified,localIp,localPort,eq_comm,and_comm]
  | wildcard port => simp [Conflict,isWildcard,isSpecified,localIp,localPort,eq_comm]

end Socket

inductive SocketId
  | conn (id : ℕ)
  | listener (id : UdpListenerId)
  deriving DecidableEq,Repr

namespace UdpConnectionState

variable {s : UdpConnectionState A}

/-- The socket with an identifier; a listener has one address. -/
def socket (s : UdpConnectionState A) : SocketId → Option (Socket A)
  | .conn id => (s.conns.getConnById id).map .conn
  | .listener (.specified id) => (s.listeners.address id).map .listener
  | .listener (.wildcard id) => (s.wildcardListeners.address id).map .wildcard

def Free (s : UdpConnectionState A) (x : Socket A) : Prop :=
  ∀ id y,s.socket id = some y → ¬Socket.Conflict x y

variable [DecidableEq A]

def owner (s : UdpConnectionState A) : Socket A → Option SocketId
  | .conn c => (s.conns.getIdByAddr c).map .conn
  | .listener l => (s.listeners.getByAddr l).map fun id => .listener (.specified id)
  | .wildcard port => (s.wildcardListeners.getByAddr port).map fun id => .listener (.wildcard id)

structure Ok (s : UdpConnectionState A) : Prop where
  conns : s.conns.Ok
  listeners : s.listeners.Ok
  wildcardListeners : s.wildcardListeners.Ok

lemma new_ok : (new : UdpConnectionState A).Ok :=
  ⟨ConnSocketMap.new_ok,ListenerSocketMap.new_ok,ListenerSocketMap.new_ok⟩

variable {x : Socket A}

lemma Ok.owner_eq (h : s.Ok) {id : SocketId} : s.owner x = some id ↔ s.socket id = some x := by
  cases x with
  | conn c => obtain id | id | id := id <;> simp [owner,socket,h.conns.getIdByAddr_eq_some]
  | listener l =>
    obtain id | id | id := id <;> simp [owner,socket,h.listeners.getByAddr_eq_some,h.listeners.address_eq]
  | wildcard port =>
    obtain id | id | id := id <;> simp [owner,socket,h.wildcardListeners.getByAddr_eq_some,
      h.wildcardListeners.address_eq]

lemma Ok.owner_eq_none (h : s.Ok) : s.owner x = none ↔ ∀ id,s.socket id ≠ some x := by
  simp only [eq_none_iff_forall_ne_some,ne_eq,h.owner_eq]

lemma owner_conn_eq_none {c : Conn A} : s.owner (.conn c) = none ↔ s.conns.getIdByAddr c = none := map_eq_none_iff

lemma owner_listener_eq_none {l : Listener A} :
    s.owner (.listener l) = none ↔ s.listeners.getByAddr l = none := map_eq_none_iff

lemma owner_wildcard_eq_none : s.owner (.wildcard port) = none ↔ s.wildcardListeners.getByAddr port = none :=
  map_eq_none_iff

section

variable (h : s.Ok)
include h

lemma Free.owner_eq_none (hfree : s.Free x) : s.owner x = none :=
  h.owner_eq_none.mpr fun id hid => hfree id x hid (Socket.conflict_self x)

lemma Ok.free_conn {c : Conn A} : s.Free (.conn c) ↔ s.conns.getIdByAddr c = none ∧
      s.listeners.getByAddr ⟨c.localIp,c.localPort⟩ = none ∧ s.wildcardListeners.getByAddr c.localPort = none := by
  rw [← owner_conn_eq_none,← owner_listener_eq_none,← owner_wildcard_eq_none]
  simp only [h.owner_eq_none,Free,Socket.conflict_conn]
  constructor
  · intro hfree
    exact ⟨fun id hid => hfree id _ hid (.inl rfl),fun id hid => hfree id _ hid (.inr (.inl rfl)),
      fun id hid => hfree id _ hid (.inr (.inr rfl))⟩
  · rintro ⟨hconn,hlistener,hwildcard⟩ id y hid (rfl | rfl | rfl)
    · exact hconn id hid
    · exact hlistener id hid
    · exact hwildcard id hid

lemma Ok.free_iff : s.Free x ↔ (∀ c ∈ s.conns.iterAddrs,¬Socket.Conflict x (.conn c)) ∧
      (∀ l ∈ s.listeners.iterAddrs,¬Socket.Conflict x (.listener l)) ∧
      ∀ port ∈ s.wildcardListeners.iterAddrs,¬Socket.Conflict x (.wildcard port) := by
  constructor
  · intro hfree
    refine ⟨fun c hc => ?_,fun l hl => ?_,fun port hport => ?_⟩
    · obtain ⟨id,hid⟩ := h.conns.mem_iterAddrs.mp hc
      exact hfree (.conn id) _ (by simp [socket,hid])
    · obtain ⟨id,hid⟩ := h.listeners.mem_iterAddrs.mp hl
      exact hfree (.listener (.specified id)) _ (by simp [socket,h.listeners.address_eq.mpr hid])
    · obtain ⟨id,hid⟩ := h.wildcardListeners.mem_iterAddrs.mp hport
      exact hfree (.listener (.wildcard id)) _ (by simp [socket,h.wildcardListeners.address_eq.mpr hid])
  · rintro ⟨hconns,hlisteners,hwildcards⟩ id y hid
    rw [← h.owner_eq] at hid
    cases y with
    | conn c =>
      obtain ⟨n,hn,-⟩ := map_eq_some_iff.mp hid
      exact hconns c (h.conns.mem_iterAddrs.mpr ⟨n,h.conns.getIdByAddr_eq_some.mp hn⟩)
    | listener l =>
      obtain ⟨n,hn,-⟩ := map_eq_some_iff.mp hid
      exact hlisteners l (h.listeners.mem_iterAddrs.mpr ⟨n,h.listeners.getByAddr_eq_some.mp hn⟩)
    | wildcard port =>
      obtain ⟨n,hn,-⟩ := map_eq_some_iff.mp hid
      exact hwildcards port (h.wildcardListeners.mem_iterAddrs.mpr ⟨n,h.wildcardListeners.getByAddr_eq_some.mp hn⟩)

lemma Ok.mem_listeners {l : Listener A} : s.listeners.getByAddr l = none ↔ l ∉ s.listeners.iterAddrs := by
  rw [h.listeners.getByAddr_eq_none,h.listeners.mem_iterAddrs]
  simp

lemma Ok.mem_wildcardListeners : s.wildcardListeners.getByAddr port = none ↔ port ∉ s.wildcardListeners.iterAddrs := by
  rw [h.wildcardListeners.getByAddr_eq_none,h.wildcardListeners.mem_iterAddrs]
  simp

lemma Ok.free_wildcard : s.Free (.wildcard port) ↔ port ∉ s.wildcardListeners.iterAddrs ∧
      (∀ l ∈ s.listeners.iterAddrs,l.port ≠ port) ∧ ∀ c ∈ s.conns.iterAddrs,c.localPort ≠ port := by
  simp only [h.free_iff,Socket.conflict_wildcard,Socket.localPort]
  constructor
  · rintro ⟨hconns,hlisteners,hwildcards⟩
    exact ⟨fun hport => hwildcards port hport rfl,hlisteners,hconns⟩
  · rintro ⟨hwildcards,hlisteners,hconns⟩
    exact ⟨hconns,hlisteners,fun p hp heq => hwildcards (heq ▸ hp)⟩

lemma Ok.free_listener {addr : A} : s.Free (.listener ⟨addr,port⟩) ↔ port ∉ s.wildcardListeners.iterAddrs ∧
      ⟨addr,port⟩ ∉ s.listeners.iterAddrs ∧ ∀ c ∈ s.conns.iterAddrs,¬(c.localIp = addr ∧ c.localPort = port) := by
  simp only [h.free_iff,Socket.conflict_listener,Socket.localPort,Socket.localIp,reduceCtorEq,false_or,some.injEq]
  constructor
  · rintro ⟨hconns,hlisteners,hwildcards⟩
    exact ⟨fun hport => hwildcards port hport ⟨rfl,.inl rfl⟩,fun hl => hlisteners _ hl ⟨rfl,rfl⟩,
      fun c hc heq => hconns c hc heq.symm⟩
  · rintro ⟨hwildcards,hlisteners,hconns⟩
    refine ⟨fun c hc heq => hconns c hc heq.symm,fun l hl heq => hlisteners ?_,fun p hp heq => hwildcards (heq.1 ▸ hp)⟩
    obtain ⟨a,p⟩ := l
    obtain ⟨rfl,rfl⟩ := heq
    exact hl

lemma Ok.isListenPortAvailable_iff {addr : Option A} :
    s.isListenPortAvailable addr port = true ↔ s.Free (.listen addr port) := by
  cases addr with
  | none =>
    rw [Socket.listen,h.free_wildcard,isListenPortAvailable,Bool.and_eq_true,isNone_iff_eq_none,h.mem_wildcardListeners]
    simp
  | some addr =>
    rw [Socket.listen,h.free_listener,isListenPortAvailable,Bool.and_eq_true,Bool.and_eq_true,
      isNone_iff_eq_none,isNone_iff_eq_none,h.mem_wildcardListeners,h.mem_listeners]
    simp

lemma Ok.collectUsedLocalPorts_iff {addr : Option A} :
    port ∉ s.collectUsedLocalPorts addr.toList ↔ s.Free (.listen addr port) := by
  cases addr with
  | none =>
    rw [Socket.listen,h.free_wildcard,collectUsedLocalPorts]
    simp
  | some addr =>
    rw [Socket.listen,h.free_listener,collectUsedLocalPorts]
    have hmem : (∀ l ∈ s.listeners.iterAddrs,l.addr = addr → l.port ≠ port) ↔ ⟨addr,port⟩ ∉ s.listeners.iterAddrs := by
      constructor
      · intro hall hl
        exact hall _ hl rfl rfl
      · rintro hl ⟨a,p⟩ hin rfl rfl
        exact hl hin
    rw [← hmem]
    simp

lemma Ok.isPortAvailable_eq (id : ProtocolFlowId A) {n : UInt16} (hn : n ≠ 0) :
    ∃ free,s.isPortAvailable id n = .ok free ∧
      (free = true ↔ s.Free (.conn (.fromProtocolFlowAndLocalPort id ⟨n,hn⟩))) := by
  have hport : NonZeroU16.ofPort n = .ok ⟨n,hn⟩ := by simp only [NonZeroU16.ofPort,NonZeroU16.new,dif_pos hn]
  refine ⟨_,by rw [isPortAvailable,hport,ok_bind,pure_eq],?_⟩
  rw [h.free_conn]
  simp only [Bool.and_eq_true,isNone_iff_eq_none,Conn.fromProtocolFlowAndLocalPort]
  tauto

end

end UdpConnectionState

/-! What each call does to the live sockets. -/

open UdpConnectionState ListenerSocketMap SocketId UdpListenerId ConnSocketMap EphemeralPort

variable [DecidableEq A]

lemma portAt_ne_zero {offset : UInt64} {tableVal : UInt16} : portAt portAllocImpl offset tableVal ≠ 0 := by
  intro hzero
  have hle := (@portAt_mem portAllocImpl offset tableVal (by decide)).1
  rw [hzero] at hle
  exact absurd hle (by decide)

lemma nextEphemeral_ge {port : UInt16} (h : portAllocImpl.first ≤ port) : portAllocImpl.first ≤ nextEphemeral port := by
  rw [nextEphemeral]
  split_ifs with hend
  · exact UInt16.le_refl _
  · have hne : port.toNat ≠ 65535 := fun heq => hend (UInt16.toNat_inj.mp heq)
    have hlt := port.toNat_lt
    rw [UInt16.le_iff_toNat_le] at h ⊢
    rw [UInt16.toNat_add]
    have hone : (1 : UInt16).toNat = 1 := rfl
    have hstart : portAllocImpl.first.toNat = 49152 := rfl
    omega

lemma randEphemeral_ge (n : UInt32) : portAllocImpl.first ≤ randEphemeral n := by
  have hlt : (n%portAllocImpl.numEphemeral.toUInt32).toNat < 16384 := by
    rw [UInt32.toNat_mod]
    exact Nat.mod_lt _ (by decide)
  rw [randEphemeral,UInt16.le_iff_toNat_le,UInt16.toNat_add,UInt32.toNat_toUInt16,
    show portAllocImpl.first.toNat = 49152 from rfl]
  omega

lemma tryAllocListenLoop_eq (usedPorts : List NonZeroU16) (n : ℕ) {port : UInt16} (h : portAllocImpl.first ≤ port) :
    ∃ found,tryAllocListenLoop usedPorts n port = .ok found ∧ ∀ p,found = some p → p ∉ usedPorts := by
  induction n generalizing port with
  | zero => exact ⟨none,rfl,by simp⟩
  | succ n ih =>
    obtain ⟨p,hp⟩ : ∃ p,NonZeroU16.ofPort port = .ok p := by
      have hne : port ≠ 0 := by
        rintro rfl
        exact absurd h (by decide)
      exact ⟨⟨port,hne⟩,by simp only [NonZeroU16.ofPort,NonZeroU16.new,dif_pos hne]⟩
    rw [tryAllocListenLoop]
    simp only [hp,ok_bind]
    by_cases hmem : p ∉ usedPorts
    · rw [if_pos hmem]
      refine ⟨some p,rfl,?_⟩
      rintro q hq
      cases hq
      exact hmem
    · rw [if_neg hmem]
      exact ih (nextEphemeral_ge h)

variable {s : UdpState A}

structure Added (s : UdpConnectionState A) (x : Socket A) (id : SocketId)
    (s' : UdpConnectionState A) : Prop where
  ok : s'.Ok
  fresh : s.socket id = none
  socket : ∀ j,s'.socket j = if j = id then some x else s.socket j

structure Removed (s : UdpConnectionState A) (id : SocketId) (s' : UdpConnectionState A) : Prop where
  ok : s'.Ok
  socket : ∀ j,s'.socket j = if j = id then none else s.socket j

variable {conns : ConnSocketMap (Conn A)} {c : Conn A}

lemma added_conn {s : UdpConnectionState A} (h : s.Ok) {id : ℕ} (hins : ConnSocketMap.Inserted s.conns c id conns) :
    Added s (.conn c) (.conn id) { s with conns := conns } := by
  refine ⟨⟨hins.ok,h.listeners,h.wildcardListeners⟩,?_,?_⟩
  · simp [socket,hins.fresh]
  · rintro (j | j | j)
    · simp only [socket,hins.get,conn.injEq]
      split_ifs <;> rfl
    · simp [socket]
    · simp [socket]

variable {port : NonZeroU16}

section

variable (h : s.connState.Ok)
include h

lemma connectWith_cases (c : Conn A) :
    (∃ e,connectWith s c = .ok (s,.error e)) ∨ s.connState.conns.getIdByAddr c = none ∧
        s.connState.listeners.getByAddr ⟨c.localIp,c.localPort⟩ = none ∧
        ∃ id conns,ConnSocketMap.Inserted s.connState.conns c id conns ∧ connectWith s c =
            .ok ({ s with connState := { s.connState with conns := conns } },.ok id) := by
  rw [connectWith]
  split_ifs with hused
  · exact .inl ⟨_,rfl⟩
  · rw [Bool.not_eq_true,Bool.or_eq_false_iff,isSome_eq_false_iff,
      isSome_eq_false_iff,isNone_iff_eq_none,isNone_iff_eq_none] at hused
    obtain ⟨id,conns,hinsert,hins⟩ := insert_of h.conns hused.1
    refine .inr ⟨hused.1,hused.2,id,conns,hins,?_⟩
    simp only [hinsert,ok_bind,pure_eq]

lemma chooseLocalPort_cases (ctx : Context A E) (localPort : Option NonZeroU16) (id : ProtocolFlowId A) :
    ∃ t port,chooseLocalPort ctx s localPort id = .ok (t,port) ∧ t.connState = s.connState ∧
      (∀ q,localPort = some q → port = some q) ∧ (localPort = none → ∀ p,port = some p →
        s.connState.Free (.conn (.fromProtocolFlowAndLocalPort id p))) := by
  cases localPort with
  | some p => exact ⟨s,some p,rfl,rfl,fun q hq => hq,fun hnone => (by cases hnone)⟩
  | none =>
    have havailable : ∀ port,port ≠ 0 → ∃ free,s.connState.isPortAvailable id port = .ok free := by
      intro port hport
      obtain ⟨free,hfree,-⟩ := h.isPortAvailable_eq id hport
      exact ⟨free,hfree⟩
    obtain ⟨v,port,hloop,hport⟩ := @tryAllocLoop_eq portAllocImpl (ctx.hmacWithSecret id
      (s.lazyPortAlloc.getD ctx.newPortAlloc).secretA) (s.connState.isPortAvailable id)
      (fun _ => havailable _ portAt_ne_zero) portAllocImpl.numEphemeral
      ((s.lazyPortAlloc.getD ctx.newPortAlloc).table.get
        ((s.lazyPortAlloc.getD ctx.newPortAlloc).tableIndex ctx.hmacWithSecret id))
    simp only [chooseLocalPort,tryAllocLocalPort,PortAlloc.tryAlloc,hloop,ok_bind,pure_eq]
    refine ⟨_,_,rfl,rfl,fun q hq => (by cases hq),fun _ p hp => ?_⟩
    obtain ⟨n,hn,hnew⟩ := bind_eq_some_iff.mp hp
    obtain ⟨htrue,u,rfl⟩ := hport n hn
    obtain ⟨free,hfree,hiff⟩ := h.isPortAvailable_eq id portAt_ne_zero
    rw [htrue] at hfree
    cases hfree
    rw [NonZeroU16.new,dif_pos portAt_ne_zero] at hnew
    cases hnew
    exact hiff.mp rfl

lemma connectUdp_cases (ctx : Context A E) (localIp : Option A) (localPort : Option NonZeroU16) (remoteIp : A)
    (remotePort : NonZeroU16) : ∃ s' r,connectUdp ctx s localIp localPort remoteIp remotePort = .ok (s',r) ∧
      ((∃ e,r = .error e) ∧ s'.connState = s.connState ∨
        ∃ c id conns,r = .ok id ∧ Describes c localIp localPort remoteIp remotePort ∧
          ctx.localAddressForRemote remoteIp ≠ none ∧
          (∀ ip,ctx.localAddressForRemote remoteIp = some ip → c.localIp = localIp.getD ip) ∧
          s.connState.conns.getIdByAddr c = none ∧ s.connState.listeners.getByAddr ⟨c.localIp,c.localPort⟩ = none ∧
          (localPort = none → s.connState.Free (.conn c)) ∧ ConnSocketMap.Inserted s.connState.conns c id conns ∧
          s'.connState = { s.connState with conns := conns }) := by
  rw [connectUdp]
  cases hroute : ctx.localAddressForRemote remoteIp with
  | none => exact ⟨s,_,rfl,.inl ⟨⟨_,rfl⟩,rfl⟩⟩
  | some defaultLocal =>
    dsimp only
    by_cases hlocal : ctx.isLocalAddr (localIp.getD defaultLocal)
    · rw [if_neg (not_not.mpr hlocal)]
      obtain ⟨t,port,hchoose,hsame,hgiven,hfree⟩ := chooseLocalPort_cases h ctx localPort
        ⟨localIp.getD defaultLocal,remoteIp,remotePort⟩
      simp only [hchoose,ok_bind]
      cases port with
      | none => exact ⟨t,_,rfl,.inl ⟨⟨_,rfl⟩,hsame⟩⟩
      | some p =>
        obtain ⟨e,herror⟩ | ⟨hconn,hlistener,id,conns,hins,hwith⟩ := connectWith_cases (hsame ▸ h)
          ⟨localIp.getD defaultLocal,p,remoteIp,remotePort⟩
        · exact ⟨t,_,herror,.inl ⟨⟨e,rfl⟩,hsame⟩⟩
        · rw [hsame] at hconn hlistener hins
          refine ⟨_,_,hwith,.inr ⟨_,id,conns,rfl,⟨?_,?_,rfl,rfl⟩,by simp,?_,hconn,hlistener,?_,hins,?_⟩⟩
          · rintro ip rfl
            rfl
          · rintro q rfl
            exact (some.inj (hgiven q rfl)).symm
          · rintro ip hip
            cases hip
            rfl
          · intro hnone
            exact hfree hnone p rfl
          · rw [hsame]
    · rw [if_pos hlocal]
      exact ⟨s,_,rfl,.inl ⟨⟨_,rfl⟩,rfl⟩⟩

variable {ctx : Context A E}

variable {addr : Option A}

lemma listenWith_cases (ctx : Context A E) (hfree : s.connState.Free (.listen addr port)) :
    (∃ e a,addr = some a ∧ ¬ctx.isLocalAddr a ∧ listenWith ctx s addr port = .ok (s,.error e)) ∨
      ∃ s' id,listenWith ctx s addr port = .ok (s',.ok id) ∧
        Added s.connState (.listen addr port) (.listener id) s'.connState := by
  cases addr with
  | none =>
    have hnew := owner_wildcard_eq_none.mp (hfree.owner_eq_none h)
    obtain ⟨id,listeners,hinsert,hok,hfresh,hget⟩ := insert_of h.wildcardListeners hnew
    refine .inr ⟨{ s with connState := { s.connState with wildcardListeners := listeners } },
      .wildcard id,?_,⟨h.conns,h.listeners,hok⟩,?_,?_⟩
    · rw [listenWith]
      simp only [hinsert,ok_bind,pure_eq]
    · simp [socket,address,hfresh]
    · rintro (j | j | j)
      · simp [socket]
      · simp [socket]
      · simp only [socket,address,hget,listener.injEq,wildcard.injEq]
        split_ifs <;> rfl
  | some addr =>
    rw [listenWith]
    by_cases hlocal : ctx.isLocalAddr addr
    · rw [if_neg (not_not.mpr hlocal)]
      have hnew := owner_listener_eq_none.mp (hfree.owner_eq_none h)
      obtain ⟨id,listeners,hinsert,hok,hfresh,hget⟩ := insert_of h.listeners hnew
      refine .inr ⟨{ s with connState := { s.connState with listeners := listeners } },
        .specified id,?_,⟨h.conns,hok,h.wildcardListeners⟩,?_,?_⟩
      · simp only [hinsert,ok_bind,pure_eq]
      · simp [socket,address,hfresh]
      · rintro (j | j | j)
        · simp [socket]
        · simp only [socket,address,hget,listener.injEq,specified.injEq]
          split_ifs <;> rfl
        · simp [socket]
    · rw [if_pos hlocal]
      exact .inl ⟨_,addr,rfl,hlocal,rfl⟩

lemma chooseListenPort_cases (ctx : Context A E) (addr : Option A) (port : Option NonZeroU16) :
    ∃ r,chooseListenPort ctx s addr port = .ok r ∧
      ∀ p,r = .ok p → (∀ q,port = some q → q = p) ∧ s.connState.Free (.listen addr p) := by
  cases port with
  | some port =>
    refine ⟨_,rfl,fun p hp => ?_⟩
    split_ifs at hp with havailable
    cases hp
    exact ⟨fun q hq => (some.inj hq).symm,h.isListenPortAvailable_iff.mp havailable⟩
  | none =>
    obtain ⟨found,hfound,hfree⟩ := tryAllocListenLoop_eq
      (s.connState.collectUsedLocalPorts addr.toList) portAllocImpl.numEphemeral (randEphemeral_ge ctx.nextU32)
    rw [chooseListenPort,tryAllocListenPort,hfound,ok_bind]
    cases found with
    | none => exact ⟨_,rfl,fun p hp => (by cases hp)⟩
    | some port =>
      refine ⟨_,rfl,fun p hp => ⟨fun q hq => (by cases hq),?_⟩⟩
      cases hp
      exact h.collectUsedLocalPorts_iff.mp (hfree port rfl)

lemma listenUdp_cases (ctx : Context A E) (addr : Option A) (port : Option NonZeroU16) :
    ∃ s' r,listenUdp ctx s addr port = .ok (s',r) ∧ ((∃ e,r = .error e) ∧ s'.connState = s.connState ∨
        ∃ p id,r = .ok id ∧ (∀ q,port = some q → q = p) ∧ s.connState.Free (.listen addr p) ∧
          Added s.connState (.listen addr p) (.listener id) s'.connState) := by
  obtain ⟨r,hchoose,hfree⟩ := chooseListenPort_cases h ctx addr port
  rw [listenUdp,hchoose,ok_bind]
  cases r with
  | error e => exact ⟨s,_,rfl,.inl ⟨⟨e,rfl⟩,rfl⟩⟩
  | ok p =>
    obtain ⟨hgiven,hfree⟩ := hfree p rfl
    obtain ⟨e,a,-,-,herror⟩ | ⟨s',id,hlisten,hadded⟩ := listenWith_cases h ctx hfree
    · exact ⟨s,_,herror,.inl ⟨⟨e,rfl⟩,rfl⟩⟩
    · exact ⟨s',_,hlisten,.inr ⟨p,id,rfl,hgiven,hfree,hadded⟩⟩

end

lemma sendUdp_cases (h : s.connState.Ok) (ctx : Context A E) (localIp : Option A) (localPort : Option NonZeroU16)
    (remoteIp : A) (remotePort : NonZeroU16) : ∃ s' r,sendUdp ctx s localIp localPort remoteIp remotePort = .ok (s',r) ∧
      s'.connState = s.connState := by
  obtain ⟨t,r,hconnect,⟨⟨e,rfl⟩,hsame⟩ | ⟨c,id,conns,rfl,hdescribes,-,-,-,-,-,hins,ht⟩⟩ :=
    connectUdp_cases h ctx localIp localPort remoteIp remotePort
  · rw [sendUdp,hconnect,ok_bind]
    exact ⟨t,_,rfl,hsame⟩
  · have hget : t.connState.conns.getConnById id = some c := by rw [ht,hins.get,if_pos rfl]
    have hsend : sendUdpConn ctx t id = .ok (ctx.sendFrame c) := by rw [sendUdpConn,hget]
    rw [sendUdp,hconnect,ok_bind]
    simp only [hsend,removeUdpConn,ht,hins.remove,ok_bind,require_of hdescribes,pure_eq]
    exact ⟨_,_,rfl,rfl⟩

lemma removeUdpConn_cases (h : s.connState.Ok) (id : ℕ) :
    s.connState.socket (.conn id) = none ∧ removeUdpConn s id = .error .panic ∨
      ∃ s' info,removeUdpConn s id = .ok (s',info) ∧ Removed s.connState (.conn id) s'.connState := by
  rw [removeUdpConn]
  cases hget : s.connState.conns.getConnById id with
  | none =>
    rw [removeById_none hget,ok_bind]
    exact .inl ⟨by simp [socket,hget],rfl⟩
  | some c =>
    obtain ⟨conns,hremove,hok,hconns⟩ := removeById_of h.conns hget
    rw [hremove,ok_bind]
    refine .inr ⟨_,_,rfl,⟨hok,h.listeners,h.wildcardListeners⟩,?_⟩
    rintro (j | j | j)
    · simp only [socket,hconns,conn.injEq]
      split_ifs <;> rfl
    · simp [socket]
    · simp [socket]

lemma removeUdpListener_cases (h : s.connState.Ok) (id : UdpListenerId) :
    s.connState.socket (.listener id) = none ∧ removeUdpListener s id = .error .panic ∨
      ∃ s' info,removeUdpListener s id = .ok (s',info) ∧ Removed s.connState (.listener id) s'.connState := by
  cases id with
  | specified id =>
    rw [removeUdpListener]
    cases hget : s.connState.listeners.getByListener id with
    | none =>
      rw [removeByListener_none hget,ok_bind]
      exact .inl ⟨by simp [socket,address,hget],rfl⟩
    | some addrs =>
      obtain ⟨l,rfl⟩ := h.listeners.single id addrs hget
      obtain ⟨listeners,hremove,hok,hlisteners⟩ := removeByListener_of h.listeners hget
      rw [hremove,ok_bind]
      refine .inr ⟨_,_,rfl,⟨h.conns,hok,h.wildcardListeners⟩,?_⟩
      rintro (j | j | j)
      · simp [socket]
      · simp only [socket,address,hlisteners,listener.injEq,specified.injEq]
        split_ifs <;> rfl
      · simp [socket]
  | wildcard id =>
    rw [removeUdpListener]
    cases hget : s.connState.wildcardListeners.getByListener id with
    | none =>
      rw [removeByListener_none hget,ok_bind]
      exact .inl ⟨by simp [socket,address,hget],rfl⟩
    | some ports =>
      obtain ⟨port,rfl⟩ := h.wildcardListeners.single id ports hget
      obtain ⟨listeners,hremove,hok,hlisteners⟩ := removeByListener_of h.wildcardListeners hget
      rw [hremove,ok_bind]
      refine .inr ⟨_,_,rfl,⟨h.conns,h.listeners,hok⟩,?_⟩
      rintro (j | j | j)
      · simp [socket]
      · simp [socket]
      · simp only [socket,address,hlisteners,listener.injEq,wildcard.injEq]
        split_ifs <;> rfl

end Fuchsia.Netstack.Udp
