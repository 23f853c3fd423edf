import Fuchsia.Netstack.PortAlloc

/-! The sockets of `transport/udp.rs`. `A` has the specified addresses. -/
namespace Fuchsia.Netstack

open Fallible EphemeralPort

structure NonZeroU16 where
  get : UInt16
  nonzero : get ≠ 0
  deriving DecidableEq

def NonZeroU16.new (n : UInt16) : Option NonZeroU16 := if h : n ≠ 0 then some ⟨n,h⟩ else none

/-- `NonZeroU16::new(n).unwrap()` -/
def NonZeroU16.ofPort (n : UInt16) : Except Panic NonZeroU16 :=
  match NonZeroU16.new n with
  | none => .error .panic
  | some port => .ok port

namespace Udp

structure Conn (A : Type) where
  localIp : A
  localPort : NonZeroU16
  remoteIp : A
  remotePort : NonZeroU16
  deriving DecidableEq

structure Listener (A : Type) where
  addr : A
  port : NonZeroU16
  deriving DecidableEq

structure ProtocolFlowId (A : Type) where
  localAddr : A
  remoteAddr : A
  remotePort : NonZeroU16
  deriving DecidableEq

def Conn.fromProtocolFlowAndLocalPort {A : Type} (id : ProtocolFlowId A) (localPort : NonZeroU16) :
    Conn A :=
  ⟨id.localAddr,localPort,id.remoteAddr,id.remotePort⟩

inductive LocalAddressError
  | cannotBindToAddress
  | failedToAllocateLocalPort
  | addressInUse
  deriving DecidableEq,Repr

inductive RemoteAddressError
  | noRoute
  deriving DecidableEq,Repr

inductive SocketError
  | locally (e : LocalAddressError)
  | remotely (e : RemoteAddressError)
  deriving DecidableEq,Repr

structure UdpConnectionState (A : Type) where
  conns : ConnSocketMap (Conn A)
  listeners : ListenerSocketMap (Listener A)
  wildcardListeners : ListenerSocketMap NonZeroU16

/-- The constants of `PortAllocImpl` for `UdpConnectionState`. -/
def portAllocImpl : PortAllocImpl := ⟨20,Nat.succ_pos 19,49152,65535⟩

structure UdpState (A : Type) where
  connState : UdpConnectionState A
  lazyPortAlloc : Option (PortAlloc portAllocImpl)

/-- What a call is answered by its context: routes and addresses, the port allocator and
the number that the random source would give next, the hash of flows, and the outcome of
sending a frame. -/
structure Context (A E : Type) where
  localAddressForRemote : A → Option A
  isLocalAddr : A → Bool
  newPortAlloc : PortAlloc portAllocImpl
  nextU32 : UInt32
  hmacWithSecret : ProtocolFlowId A → Secret → UInt64
  sendFrame : Conn A → Except E Unit

variable {A E : Type} [DecidableEq A]

namespace UdpConnectionState

def new : UdpConnectionState A := ⟨.new,.new,.new⟩

/-- The ports as a list; it is only asked for its members. -/
def collectUsedLocalPorts (s : UdpConnectionState A) (addrs : List A) : List NonZeroU16 :=
  s.wildcardListeners.iterAddrs++
    if addrs.length = 0 then
      s.listeners.iterAddrs.map Listener.port++s.conns.iterAddrs.map Conn.localPort
    else
      (s.listeners.iterAddrs.filterMap fun l => if l.addr ∈ addrs then some l.port else none)++
        s.conns.iterAddrs.filterMap fun c => if c.localIp ∈ addrs then some c.localPort else none

def isListenPortAvailable (s : UdpConnectionState A) (addr : Option A) (port : NonZeroU16) : Bool :=
  (s.wildcardListeners.getByAddr port).isNone &&
    match addr with
    | some addr =>
      (s.listeners.getByAddr ⟨addr,port⟩).isNone &&
        !s.conns.iterAddrs.any fun c => c.localIp = addr && c.localPort = port
    | none =>
      !(s.listeners.iterAddrs.any (fun l => l.port = port) ||
        s.conns.iterAddrs.any fun c => c.localPort = port)

def isPortAvailable (s : UdpConnectionState A) (id : ProtocolFlowId A) (port : UInt16) :
    Except Panic Bool := do
  let port ← NonZeroU16.ofPort port
  return (s.listeners.getByAddr ⟨id.localAddr,port⟩).isNone &&
    (s.wildcardListeners.getByAddr port).isNone &&
    (s.conns.getIdByAddr (.fromProtocolFlowAndLocalPort id port)).isNone

end UdpConnectionState

def tryAllocLocalPort (ctx : Context A E) (s : UdpState A) (id : ProtocolFlowId A) :
    Except Panic (UdpState A × Option NonZeroU16) := do
  let (portAlloc,port) ← (s.lazyPortAlloc.getD ctx.newPortAlloc).tryAlloc ctx.hmacWithSecret id
    s.connState.isPortAvailable
  return ({ s with lazyPortAlloc := some portAlloc },port.bind NonZeroU16.new)

/-- `EphemeralPort::new_random` -/
def randEphemeral (random : UInt32) : UInt16 :=
  portAllocImpl.first+(random%portAllocImpl.numEphemeral.toUInt32).toUInt16

/-- `EphemeralPort::next` -/
def nextEphemeral (port : UInt16) : UInt16 :=
  if port = portAllocImpl.last then portAllocImpl.first else port+1

/-- The loop of `try_alloc_listen_port`. -/
def tryAllocListenLoop (usedPorts : List NonZeroU16) :
    ℕ → UInt16 → Except Panic (Option NonZeroU16)
  | 0,_ => .ok none
  | n+1,port => do
    let tryport ← NonZeroU16.ofPort port
    if tryport ∉ usedPorts then return some tryport
    else tryAllocListenLoop usedPorts n (nextEphemeral port)

def tryAllocListenPort (ctx : Context A E) (usedPorts : List NonZeroU16) :
    Except Panic (Option NonZeroU16) :=
  tryAllocListenLoop usedPorts portAllocImpl.numEphemeral (randEphemeral ctx.nextU32)

/-- The end of `connect_udp`, where the local port is known. -/
def connectWith (s : UdpState A) (c : Conn A) :
    Except Panic (UdpState A × Except SocketError ℕ) :=
  if (s.connState.conns.getIdByAddr c).isSome ||
      (s.connState.listeners.getByAddr ⟨c.localIp,c.localPort⟩).isSome then
    .ok (s,.error (.locally .addressInUse))
  else do
    let (id,conns) ← s.connState.conns.insert c
    return ({ s with connState := { s.connState with conns := conns } },.ok id)

def chooseLocalPort (ctx : Context A E) (s : UdpState A) (localPort : Option NonZeroU16)
    (id : ProtocolFlowId A) : Except Panic (UdpState A × Option NonZeroU16) :=
  match localPort with
  | some localPort => .ok (s,some localPort)
  | none => tryAllocLocalPort ctx s id

def connectUdp (ctx : Context A E) (s : UdpState A) (localIp : Option A)
    (localPort : Option NonZeroU16) (remoteIp : A) (remotePort : NonZeroU16) :
    Except Panic (UdpState A × Except SocketError ℕ) :=
  match ctx.localAddressForRemote remoteIp with
  | none => .ok (s,.error (.remotely .noRoute))
  | some defaultLocal =>
    let localIp := localIp.getD defaultLocal
    if ¬ctx.isLocalAddr localIp then .ok (s,.error (.locally .cannotBindToAddress))
    else do
      let (s,localPort) ← chooseLocalPort ctx s localPort ⟨localIp,remoteIp,remotePort⟩
      match localPort with
      | none => return (s,.error (.locally .failedToAllocateLocalPort))
      | some localPort => connectWith s ⟨localIp,localPort,remoteIp,remotePort⟩

def chooseListenPort (ctx : Context A E) (s : UdpState A) (addr : Option A)
    (port : Option NonZeroU16) : Except Panic (Except SocketError NonZeroU16) :=
  match port with
  | some port =>
    .ok (if s.connState.isListenPortAvailable addr port then .ok port
      else .error (.locally .addressInUse))
  | none => do
    match ← tryAllocListenPort ctx (s.connState.collectUsedLocalPorts addr.toList) with
    | some port => return .ok port
    | none => return .error (.locally .failedToAllocateLocalPort)

/-- `UdpListenerId`: the table that has the listener, and its key there. -/
inductive UdpListenerId
  | specified (id : ℕ)
  | wildcard (id : ℕ)
  deriving DecidableEq,Repr

/-- The end of `listen_udp`, where the port is known. -/
def listenWith (ctx : Context A E) (s : UdpState A) (addr : Option A) (port : NonZeroU16) :
    Except Panic (UdpState A × Except SocketError UdpListenerId) :=
  match addr with
  | none => do
    let (id,listeners) ← s.connState.wildcardListeners.insert [port]
    return ({ s with connState := { s.connState with wildcardListeners := listeners } },
      .ok (.wildcard id))
  | some addr =>
    if ¬ctx.isLocalAddr addr then .ok (s,.error (.locally .cannotBindToAddress))
    else do
      let (id,listeners) ← s.connState.listeners.insert [⟨addr,port⟩]
      return ({ s with connState := { s.connState with listeners := listeners } },.ok (.specified id))

def listenUdp (ctx : Context A E) (s : UdpState A) (addr : Option A) (port : Option NonZeroU16) :
    Except Panic (UdpState A × Except SocketError UdpListenerId) := do
  match ← chooseListenPort ctx s addr port with
  | .error e => return (s,.error e)
  | .ok port => listenWith ctx s addr port

def removeUdpConn (s : UdpState A) (id : ℕ) : Except Panic (UdpState A × Conn A) := do
  match ← s.connState.conns.removeById id with
  | none => .error .panic
  | some (info,conns) =>
    return ({ s with connState := { s.connState with conns := conns } },info)

/-- What `remove_udp_listener` returns: the address, if the listener has one, and the port. -/
structure UdpListenerInfo (A : Type) where
  localIp : Option A
  localPort : NonZeroU16

def removeUdpListener (s : UdpState A) :
    UdpListenerId → Except Panic (UdpState A × UdpListenerInfo A)
  | .specified id => do
    match ← s.connState.listeners.removeByListener id with
    | some (l::_,listeners) =>
      return ({ s with connState := { s.connState with listeners := listeners } },⟨some l.addr,l.port⟩)
    | _ => .error .panic
  | .wildcard id => do
    match ← s.connState.wildcardListeners.removeByListener id with
    | some (port::_,listeners) =>
      return ({ s with connState := { s.connState with wildcardListeners := listeners } },⟨none,port⟩)
    | _ => .error .panic

def sendUdpConn (ctx : Context A E) (s : UdpState A) (id : ℕ) : Except Panic (Except E Unit) :=
  match s.connState.conns.getConnById id with
  | none => .error .panic
  | some c => .ok (ctx.sendFrame c)

inductive NetstackError (E : Type)
  | connect (e : SocketError)
  | sendUdp (e : E)

/-- `Result::map_err` -/
def mapErr {F : Type} (f : E → F) : Except E Unit → Except F Unit
  | .ok () => .ok ()
  | .error e => .error (f e)

/-- What `send_udp` asserts of the connection that it removes. -/
def Describes (c : Conn A) (localIp : Option A) (localPort : Option NonZeroU16) (remoteIp : A)
    (remotePort : NonZeroU16) : Prop :=
  (∀ ip,localIp = some ip → ip = c.localIp) ∧ (∀ port,localPort = some port → port = c.localPort) ∧
    c.remoteIp = remoteIp ∧ c.remotePort = remotePort

instance (c : Conn A) (localIp : Option A) (localPort : Option NonZeroU16) (remoteIp : A)
    (remotePort : NonZeroU16) : Decidable (Describes c localIp localPort remoteIp remotePort) := by
  unfold Describes
  infer_instance

def sendUdp (ctx : Context A E) (s : UdpState A) (localIp : Option A)
    (localPort : Option NonZeroU16) (remoteIp : A) (remotePort : NonZeroU16) :
    Except Panic (UdpState A × Except (NetstackError E) Unit) := do
  let (s,tmpConn) ← connectUdp ctx s localIp localPort remoteIp remotePort
  match tmpConn with
  | .error e => return (s,.error (.connect e))
  | .ok tmpConn => do
    let ret ← sendUdpConn ctx s tmpConn
    let (s,info) ← removeUdpConn s tmpConn
    require .panic (Describes info localIp localPort remoteIp remotePort)
    return (s,mapErr NetstackError.sendUdp ret)

end Udp
end Fuchsia.Netstack
