import Fuchsia.Lib.Effect

/-! The messages of the DHCP server (`dhcp/src/protocol.rs`, `dhcp/src/configuration.rs`) and
its parameters. -/
namespace Fuchsia.Dhcp

/-- An address as a number. -/
abbrev Ipv4Addr := ℕ

def unspecified : Ipv4Addr := 0

abbrev MacAddr := List UInt8

inductive OpCode
  | bootrequest
  | bootreply
  deriving DecidableEq,Repr

inductive MessageType
  | dhcpdiscover
  | dhcpoffer
  | dhcprequest
  | dhcpdecline
  | dhcpack
  | dhcpnak
  | dhcprelease
  | dhcpinform
  deriving DecidableEq,Repr

/-- The codes that the server refers to by name, and the others by number. -/
inductive OptionCode
  | subnetMask
  | requestedIpAddress
  | ipAddressLeaseTime
  | dhcpMessageType
  | serverIdentifier
  | parameterRequestList
  | message
  | renewalTimeValue
  | rebindingTimeValue
  | clientIdentifier
  | other (code : ℕ)
  deriving DecidableEq,Repr

inductive ClientIdentifier
  | id (bytes : List UInt8)
  | chaddr (mac : MacAddr)
  deriving DecidableEq,Repr

inductive AddressPoolError
  | ipv4AddrExhaustion
  | allocatedIpv4AddrAllocation (addr : Ipv4Addr)
  | unallocatedIpv4AddrRelease (addr : Ipv4Addr)
  | unmanagedIpv4Addr (addr : Ipv4Addr)
  deriving DecidableEq,Repr

/-- The field that does not validate in a message. -/
inductive ProtocolError
  | missingOption (code : OptionCode)
  | invalidOp (op : OpCode)
  | invalidField (field : String) (value : Ipv4Addr)
  deriving DecidableEq,Repr

/-- What goes wrong when a record is stored or deleted. -/
inductive DataStoreError
  | missingRequiredDhcpOption (code : OptionCode)
  | storeFailed
  deriving DecidableEq,Repr

inductive ServerError
  | unexpectedClientMessageType (t : MessageType)
  | serverAddressPoolFailure (e : AddressPoolError)
  | incorrectDHCPServer (addr : Ipv4Addr)
  | requestedIpOfferIpMismatch (requested offered : Ipv4Addr)
  | expiredLeaseRecord
  | unidentifiedRequestedIp (addr : Ipv4Addr)
  | unknownClientId (id : ClientIdentifier)
  | noRequestedAddrAtInitReboot
  | unknownClientStateDuringRequest
  | noRequestedAddrForDecline
  | clientMessageError (e : ProtocolError)
  | dataStoreUpdateFailure (e : DataStoreError)
  | serverMissingIpAddr
  | missingRequiredDhcpOption (code : OptionCode)
  | missingServerIdentifier
  | inconsistentInitialServerState (e : AddressPoolError)
  | missingRequestedAddr
  | declineFromUnrecognizedClient (id : ClientIdentifier)
  | declineIpMismatch (declined client : Option Ipv4Addr)
  deriving DecidableEq,Repr

inductive NakReason
  | clientValidationFailure (e : ServerError)
  | differentSubnets
  deriving DecidableEq,Repr

/-- The text of a `Message` option is that of the reason. -/
inductive DhcpOption
  | subnetMask (mask : Ipv4Addr)
  | requestedIpAddress (addr : Ipv4Addr)
  | ipAddressLeaseTime (seconds : ℕ)
  | dhcpMessageType (t : MessageType)
  | serverIdentifier (addr : Ipv4Addr)
  | parameterRequestList (codes : List OptionCode)
  | message (reason : NakReason)
  | renewalTimeValue (seconds : ℕ)
  | rebindingTimeValue (seconds : ℕ)
  | clientIdentifier (bytes : List UInt8)
  | other (code : ℕ) (data : List UInt8)
  deriving DecidableEq,Repr

def DhcpOption.code : DhcpOption → OptionCode
  | .subnetMask _ => .subnetMask
  | .requestedIpAddress _ => .requestedIpAddress
  | .ipAddressLeaseTime _ => .ipAddressLeaseTime
  | .dhcpMessageType _ => .dhcpMessageType
  | .serverIdentifier _ => .serverIdentifier
  | .parameterRequestList _ => .parameterRequestList
  | .message _ => .message
  | .renewalTimeValue _ => .renewalTimeValue
  | .rebindingTimeValue _ => .rebindingTimeValue
  | .clientIdentifier _ => .clientIdentifier
  | .other code _ => .other code

structure Message where
  op : OpCode
  xid : ℕ
  secs : ℕ
  bdcastFlag : Bool
  ciaddr : Ipv4Addr
  yiaddr : Ipv4Addr
  siaddr : Ipv4Addr
  giaddr : Ipv4Addr
  chaddr : MacAddr
  sname : String
  file : String
  options : List DhcpOption
  deriving DecidableEq,Repr

namespace Message

def getDhcpType (m : Message) : Except ProtocolError MessageType :=
  match m.options.findSome? fun | .dhcpMessageType t => some t | _ => none with
  | some t => .ok t
  | none => .error (.missingOption .dhcpMessageType)

def clientIdentifier (m : Message) : ClientIdentifier :=
  match m.options.findSome? fun | .clientIdentifier v => some v | _ => none with
  | some v => .id v
  | none => .chaddr m.chaddr

def getRequestedIpAddr (m : Message) : Option Ipv4Addr :=
  m.options.findSome? fun | .requestedIpAddress addr => some addr | _ => none

def getServerId (m : Message) : Option Ipv4Addr :=
  m.options.findSome? fun | .serverIdentifier addr => some addr | _ => none

end Message

def leaseTime (options : List DhcpOption) : Option ℕ :=
  options.findSome? fun | .ipAddressLeaseTime v => some v | _ => none

/-- A mask of an IPv4 address has at most 32 ones. -/
structure SubnetMask where
  ones : ℕ
  le : ones ≤ 32
  deriving DecidableEq

namespace SubnetMask

def toU32 (mask : SubnetMask) : ℕ := 2^32-2^(32-mask.ones)

def applyTo (mask : SubnetMask) (target : Ipv4Addr) : Ipv4Addr := target&&&mask.toU32

def subnetSize (mask : SubnetMask) : ℕ := 2^32-1-mask.toU32

end SubnetMask

structure LeaseLength where
  defaultSeconds : ℕ
  maxSeconds : ℕ
  deriving DecidableEq,Repr

structure ManagedAddresses where
  mask : SubnetMask
  poolRangeStart : Ipv4Addr
  poolRangeStop : Ipv4Addr
  deriving DecidableEq

def ManagedAddresses.poolRange (m : ManagedAddresses) : Finset Ipv4Addr :=
  Finset.Ico m.poolRangeStart m.poolRangeStop

/-- The parameters that the server reads when it answers. -/
structure ServerParameters where
  serverIps : List Ipv4Addr
  leaseLength : LeaseLength
  managedAddrs : ManagedAddresses
  deriving DecidableEq

/-- A `fuchsia.net.dhcp` address pool, which may lack fields. -/
structure FidlAddressPool where
  prefixLen : Option ℕ
  rangeStart : Option Ipv4Addr
  rangeStop : Option Ipv4Addr
  deriving DecidableEq,Repr

def ManagedAddresses.tryFromFidl (fidl : FidlAddressPool) : Option ManagedAddresses :=
  match fidl.prefixLen,fidl.rangeStart,fidl.rangeStop with
  | some ones,some start,some stop =>
    if h : ones ≤ 32 then
      if start > stop then none
      else if stop-start > (SubnetMask.mk ones h).subnetSize then none
      else some ⟨⟨ones,h⟩,start,stop⟩
    else none
  | _,_,_ => none

/-- A `fuchsia.net.dhcp` lease length, which may lack fields. -/
structure FidlLeaseLength where
  default : Option ℕ
  max : Option ℕ
  deriving DecidableEq,Repr

def LeaseLength.tryFromFidl (fidl : FidlLeaseLength) : Option LeaseLength :=
  fidl.default.map fun seconds => ⟨seconds,fidl.max.getD seconds⟩

/-! `Server` (`dhcp/src/server.rs`). What the data store answers, the samples of the clock and
the order in which a hash map is iterated are chosen anew for each call. -/

open Effect

structure LeaseRecord where
  current : Option Ipv4Addr
  previous : Option Ipv4Addr
  options : List DhcpOption
  leaseStartEpochSeconds : ℕ
  leaseLengthSeconds : ℕ
  deriving DecidableEq,Repr

def second : ℕ := 10^9

def LeaseRecord.leaseEnd (r : LeaseRecord) : ℕ := (r.leaseStartEpochSeconds+r.leaseLengthSeconds)*second

def LeaseRecord.expired (r : LeaseRecord) (now : ℕ) : Prop := r.leaseEnd ≤ now

instance (r : LeaseRecord) (now : ℕ) : Decidable (r.expired now) := inferInstanceAs (Decidable (_ ≤ _))

def LeaseRecord.new (current : Option Ipv4Addr) (options : List DhcpOption) (leaseStart : ℕ)
    (leaseLengthSeconds : ℕ) : LeaseRecord :=
  ⟨current,none,options,leaseStart/second,leaseLengthSeconds⟩

structure AddressPool where
  universeSet : Finset Ipv4Addr
  allocated : Finset Ipv4Addr
  deriving DecidableEq

namespace AddressPool

def new (addresses : Finset Ipv4Addr) : AddressPool := ⟨addresses,∅⟩

/-- The first of the available addresses. -/
def next (pool : AddressPool) : Option Ipv4Addr :=
  if h : (pool.universeSet \ pool.allocated).Nonempty then
    some ((pool.universeSet \ pool.allocated).min' h)
  else none

def allocateAddr (pool : AddressPool) (addr : Ipv4Addr) : Except AddressPoolError AddressPool :=
  if addr ∉ pool.universeSet then .error (.unmanagedIpv4Addr addr)
  else if addr ∈ pool.allocated then .error (.allocatedIpv4AddrAllocation addr)
  else .ok { pool with allocated := insert addr pool.allocated }

def releaseAddr (pool : AddressPool) (addr : Ipv4Addr) : Except AddressPoolError AddressPool :=
  if addr ∉ pool.universeSet then .error (.unmanagedIpv4Addr addr)
  else if addr ∉ pool.allocated then .error (.unallocatedIpv4AddrRelease addr)
  else .ok { pool with allocated := pool.allocated.erase addr }

def addrIsAvailable (pool : AddressPool) (addr : Ipv4Addr) : Prop :=
  addr ∈ pool.universeSet ∧ addr ∉ pool.allocated

instance (pool : AddressPool) (addr : Ipv4Addr) : Decidable (pool.addrIsAvailable addr) :=
  inferInstanceAs (Decidable (_ ∧ _))

end AddressPool

/-- What the data store has: the client records, the options, which are loaded under their
codes, and the parameters, if they were ever stored. -/
structure DataStore where
  records : ClientIdentifier → Option LeaseRecord
  options : OptionCode → Option DhcpOption
  params : Option ServerParameters

/-- `insert` of a record, or `delete` -/
def DataStore.setRecord (store : DataStore) (id : ClientIdentifier) (r : Option LeaseRecord) : DataStore :=
  { store with records := Function.update store.records id r }

structure Server where
  records : ClientIdentifier → Option LeaseRecord
  pool : AddressPool
  params : ServerParameters
  store : DataStore
  optionsRepo : OptionCode → Option DhcpOption

inductive ResponseTarget
  | broadcast
  | unicast (addr : Ipv4Addr) (mac : Option MacAddr)
  deriving DecidableEq,Repr

inductive ServerAction
  | sendResponse (m : Message) (target : ResponseTarget)
  | addressDecline (addr : Ipv4Addr)
  | addressRelease (addr : Ipv4Addr)
  deriving DecidableEq,Repr

/-- What a call meets: the clock when it is first and when it is last read, whether the data
store takes an operation on the record of a client or on the parameters, and the order in
which the records are iterated. -/
structure Environment where
  now : ℕ
  later : ℕ
  stored : ClientIdentifier → Bool
  saved : Bool
  order : List ClientIdentifier

namespace Server

abbrev Call (A : Type) : Type := Effect Server ServerError A

variable (env : Environment)

def setRecord (s : Server) (id : ClientIdentifier) (r : Option LeaseRecord) : Server :=
  { s with records := Function.update s.records id r }

def setPool (s : Server) (pool : AddressPool) : Server := { s with pool := pool }

def setStore (s : Server) (store : DataStore) : Server := { s with store := store }

/-- An operation of the data store on the record of a client. -/
def storeRecord (id : ClientIdentifier) (r : Option LeaseRecord) : Call Unit :=
  if env.stored id then modify fun s => s.setStore (s.store.setRecord id r)
  else throw (.dataStoreUpdateFailure .storeFailed)

def releaseLeasedAddr (id : ClientIdentifier) : Call Unit := do
  let s ← get
  match s.records id with
  | none => pure ()
  | some record =>
    match record.current with
    | none => panicked
    | some addr => do
      let record := { record with current := none,previous := some addr }
      modify fun s => s.setRecord id (some record)
      match s.pool.releaseAddr addr with
      | .error e => throw (.serverAddressPoolFailure e)
      | .ok pool => do
        modify fun s => s.setPool pool
        storeRecord env id (some record)

def releaseExpired : List ClientIdentifier → Call Unit
  | [] => pure ()
  | id::rest => do
    let s ← get
    match s.records id with
    | none => releaseExpired rest
    | some record =>
      if record.current.isSome ∧ record.expired env.now then do
        match ← attempt (releaseLeasedAddr env id) with
        | .ok () => releaseExpired rest
        | .error (.serverAddressPoolFailure _) => panicked
        | .error (.dataStoreUpdateFailure _) => releaseExpired rest
        | .error e => throw e
      else releaseExpired rest

def releaseExpiredLeases : Call Unit := releaseExpired env env.order

def getDestination (clientMsg : Message) (offered : Ipv4Addr) : ResponseTarget :=
  if clientMsg.giaddr ≠ unspecified then .unicast clientMsg.giaddr none
  else if clientMsg.ciaddr ≠ unspecified then .unicast clientMsg.ciaddr none
  else if clientMsg.bdcastFlag then .broadcast
  else .unicast offered (some clientMsg.chaddr)

def offerAny : Call Ipv4Addr := do
  let s ← get
  match s.pool.next with
  | some addr => pure addr
  | none => do
    releaseExpiredLeases env
    let s ← get
    match s.pool.next with
    | some addr => pure addr
    | none => throw (.serverAddressPoolFailure .ipv4AddrExhaustion)

def offerRequested (client : Message) : Call Ipv4Addr := do
  let s ← get
  match client.getRequestedIpAddr with
  | some addr => if s.pool.addrIsAvailable addr then pure addr else offerAny env
  | none => offerAny env

def getOffered (client : Message) : Call Ipv4Addr := do
  let s ← get
  match s.records client.clientIdentifier with
  | none => offerRequested env client
  | some record =>
    match record.current,record.previous with
    | some current,_ => if current ∈ s.pool.allocated then pure current else panicked
    | none,some previous =>
      if s.pool.addrIsAvailable previous then pure previous else offerRequested env client
    | none,none => offerRequested env client

def getServerIp (s : Server) (req : Message) : Except ServerError Ipv4Addr :=
  match req.getServerId with
  | some addr => if addr ∈ s.params.serverIps then .ok addr else .error (.incorrectDHCPServer addr)
  | none =>
    match s.params.serverIps.head? with
    | some addr => .ok addr
    | none => .error .serverMissingIpAddr

def getRequestedOptions (s : Server) (clientOpts : List DhcpOption) : List DhcpOption :=
  match clientOpts.findSome? fun | .parameterRequestList v => some v | _ => none with
  | none => []
  | some codes => codes.filterMap fun code =>
    match s.optionsRepo code with
    | some opt => some opt
    | none => if code = .subnetMask then some (.subnetMask s.params.managedAddrs.mask.toU32) else none

/-- A time of the options repository, or the default; `none` is the panic on an option of
another code. -/
def repoTime (s : Server) (code : OptionCode) (value : DhcpOption → Option ℕ) (default : ℕ) :
    Option ℕ :=
  match s.optionsRepo code with
  | none => some default
  | some opt => value opt

def renewalTime (s : Server) (leaseLength : ℕ) : Option ℕ :=
  repoTime s .renewalTimeValue (fun | .renewalTimeValue v => some v | _ => none) (leaseLength/2)

def rebindingTime (s : Server) (leaseLength : ℕ) : Option ℕ :=
  repoTime s .rebindingTimeValue (fun | .rebindingTimeValue v => some v | _ => none)
    (leaseLength/4*3+leaseLength%4*3/4)

def offeredLeaseTime (s : Server) (disc : Message) : ℕ :=
  match leaseTime disc.options with
  | some seconds => min seconds s.params.leaseLength.maxSeconds
  | none => s.params.leaseLength.defaultSeconds

def buildOffer (disc : Message) (offeredIp : Ipv4Addr) : Call Message := do
  let s ← get
  let serverIp ← ofExcept (s.getServerIp disc)
  let leaseLength := s.offeredLeaseTime disc
  match s.renewalTime leaseLength,s.rebindingTime leaseLength with
  | some renewal,some rebinding =>
    pure { disc with
      op := .bootreply
      secs := 0
      yiaddr := offeredIp
      ciaddr := unspecified
      siaddr := unspecified
      sname := ""
      file := ""
      options := [.dhcpMessageType .dhcpoffer,.serverIdentifier serverIp,
        .ipAddressLeaseTime leaseLength,.renewalTimeValue renewal,.rebindingTimeValue rebinding]++
          s.getRequestedOptions disc.options }
  | _,_ => panicked

def storeClientRecord (offered : Ipv4Addr) (clientId : ClientIdentifier)
    (clientOpts : List DhcpOption) : Call Unit :=
  match leaseTime clientOpts with
  | none => throw (.dataStoreUpdateFailure (.missingRequiredDhcpOption .ipAddressLeaseTime))
  | some leaseLengthSeconds => do
    let options := clientOpts.filter fun opt => opt.code ≠ .dhcpMessageType
    let record := LeaseRecord.new (some offered) options env.later leaseLengthSeconds
    let s ← get
    match (s.records clientId).bind LeaseRecord.current with
    | some current =>
      if current = offered then do
        storeRecord env clientId (some record)
        modify fun s => s.setRecord clientId (some record)
      else panicked
    | none =>
      match s.pool.allocateAddr offered with
      | .error _ => panicked
      | .ok pool => do
        modify fun s => s.setPool pool
        storeRecord env clientId (some record)
        modify fun s => s.setRecord clientId (some record)

def requireUnspecified (field : String) (addr : Ipv4Addr) : Except ServerError Unit :=
  if addr = unspecified then .ok () else .error (.clientMessageError (.invalidField field addr))

def validateDiscover (disc : Message) : Except ServerError Unit := do
  if disc.op ≠ .bootrequest then .error (.clientMessageError (.invalidOp .bootreply))
  else
    requireUnspecified "ciaddr" disc.ciaddr
    requireUnspecified "yiaddr" disc.yiaddr
    requireUnspecified "siaddr" disc.siaddr
    match disc.getServerId with
    | some addr => .error (.clientMessageError (.invalidField "ServerIdentifier" addr))
    | none => .ok ()

def handleDiscover (disc : Message) : Call ServerAction := do
  ofExcept (validateDiscover disc)
  let offered ← getOffered env disc
  let offer ← buildOffer disc offered
  storeClientRecord env offered disc.clientIdentifier offer.options
  pure (.sendResponse offer (getDestination disc offered))

inductive ClientState
  | selecting
  | initReboot
  | renewing
  deriving DecidableEq,Repr

def getClientState (msg : Message) : Option ClientState := let serverId := msg.getServerId
  let requestedIp := msg.getRequestedIpAddr
  if serverId.isSome ∧ msg.ciaddr = unspecified ∧ requestedIp.isSome then some .selecting
  else if serverId.isNone ∧ requestedIp.isSome ∧ msg.ciaddr = unspecified then some .initReboot
  else if serverId.isNone ∧ requestedIp.isNone ∧ msg.ciaddr ≠ unspecified then some .renewing
  else none

def isRecipient (serverIps : List Ipv4Addr) (req : Message) : Bool :=
  match req.getServerId with
  | some serverId => serverIps.contains serverId
  | none => false

def isInSubnet (req : Message) (config : ServerParameters) : Bool :=
  match req.getRequestedIpAddr with
  | none => false
  | some clientIp => config.serverIps.any fun serverIp =>
    config.managedAddrs.mask.applyTo clientIp = config.managedAddrs.mask.applyTo serverIp

def validateRequestedAddrWithClient (s : Server) (req : Message) (requestedIp : Ipv4Addr) :
    Except ServerError Unit :=
  match s.records req.clientIdentifier with
  | none => .error (.unknownClientId req.clientIdentifier)
  | some record =>
    match record.current with
    | none => .error .missingRequestedAddr
    | some clientAddr =>
      if clientAddr ≠ requestedIp then
        .error (.requestedIpOfferIpMismatch requestedIp clientAddr)
      else if record.expired env.now then .error .expiredLeaseRecord
      else if requestedIp ∉ s.pool.allocated then .error (.unidentifiedRequestedIp requestedIp)
      else .ok ()

def buildAck (s : Server) (req : Message) (requestedIp : Ipv4Addr) : Except ServerError Message :=
  match s.records req.clientIdentifier with
  | none => .error (.unknownClientId req.clientIdentifier)
  | some record => .ok { req with
      op := .bootreply
      secs := 0
      yiaddr := requestedIp
      options := .dhcpMessageType .dhcpack::record.options }

def buildInformAck (s : Server) (inf : Message) (clientIp : Ipv4Addr) :
    Except ServerError Message := do
  let serverIp ← s.getServerIp inf
  return { inf with
    op := .bootreply
    secs := 0
    yiaddr := clientIp
    options := [.dhcpMessageType .dhcpack,.serverIdentifier serverIp]++
      s.getRequestedOptions inf.options }

def buildNak (s : Server) (req : Message) (reason : NakReason) :
    Except ServerError (Message × ResponseTarget) := do
  let serverIp ← s.getServerIp req
  let nak : Message := { req with
    op := .bootreply
    secs := 0
    ciaddr := unspecified
    yiaddr := unspecified
    siaddr := unspecified
    options := [.dhcpMessageType .dhcpnak,.serverIdentifier serverIp,.message reason] }
  if nak.giaddr = unspecified then return (nak,.broadcast)
  else return ({ nak with bdcastFlag := true },.unicast nak.giaddr none)

def buildResponse (s : Server) (req : Message) (requestedIp : Ipv4Addr) :
    Except ServerError ServerAction :=
  match s.validateRequestedAddrWithClient env req requestedIp with
  | .ok () => do
    let ack ← s.buildAck req requestedIp
    return .sendResponse ack (getDestination req requestedIp)
  | .error e => do
    let (nak,dest) ← s.buildNak req (.clientValidationFailure e)
    return .sendResponse nak dest

def handleRequestSelecting (s : Server) (req : Message) : Except ServerError ServerAction :=
  match req.getRequestedIpAddr with
  | none => .error (.missingRequiredDhcpOption .requestedIpAddress)
  | some requestedIp =>
    if isRecipient s.params.serverIps req then s.buildResponse env req requestedIp
    else
      match s.params.serverIps.head? with
      | none => .error .serverMissingIpAddr
      | some addr => .error (.incorrectDHCPServer addr)

def handleRequestInitReboot (s : Server) (req : Message) : Except ServerError ServerAction :=
  match req.getRequestedIpAddr with
  | none => .error .noRequestedAddrAtInitReboot
  | some requestedIp =>
    if ¬ isInSubnet req s.params then do
      let (nak,dest) ← s.buildNak req .differentSubnets
      return .sendResponse nak dest
    else if s.records req.clientIdentifier = none then
      .error (.unknownClientId req.clientIdentifier)
    else s.buildResponse env req requestedIp

def handleRequestRenewing (s : Server) (req : Message) : Except ServerError ServerAction :=
  s.buildResponse env req req.ciaddr

/-- A request does not change the server. -/
def handleRequest (s : Server) (req : Message) : Except ServerError ServerAction :=
  match getClientState req with
  | none => .error .unknownClientStateDuringRequest
  | some .selecting => s.handleRequestSelecting env req
  | some .initReboot => s.handleRequestInitReboot env req
  | some .renewing => s.handleRequestRenewing env req

def allocateDeclined (pool : AddressPool) (addr : Ipv4Addr) : Except ServerError AddressPool :=
  match pool.allocateAddr addr with
  | .ok pool => .ok pool
  | .error (.allocatedIpv4AddrAllocation ip) =>
    if ip = addr then .ok pool
    else .error (.serverAddressPoolFailure (.allocatedIpv4AddrAllocation ip))
  | .error e => .error (.serverAddressPoolFailure e)

def handleDecline (dec : Message) : Call ServerAction := do
  let s ← get
  match dec.getRequestedIpAddr with
  | none => throw .noRequestedAddrForDecline
  | some declinedIp =>
    if ¬ isRecipient s.params.serverIps dec then
      match dec.getServerId with
      | none => throw .missingServerIdentifier
      | some addr => throw (.incorrectDHCPServer addr)
    else
      match s.records dec.clientIdentifier with
      | none => throw (.declineFromUnrecognizedClient dec.clientIdentifier)
      | some record =>
        if record.current ≠ some declinedIp then
          throw (.declineIpMismatch (some declinedIp) record.current)
        else do
          let pool ← ofExcept (allocateDeclined s.pool declinedIp)
          modify fun s => s.setPool pool
          modify fun s => s.setRecord dec.clientIdentifier none
          storeRecord env dec.clientIdentifier none
          pure (.addressDecline declinedIp)

def handleRelease (rel : Message) : Call ServerAction := do
  let s ← get
  match s.records rel.clientIdentifier with
  | none => throw (.unknownClientId rel.clientIdentifier)
  | some _ => do
    releaseLeasedAddr env rel.clientIdentifier
    pure (.addressRelease rel.ciaddr)

def handleInform (s : Server) (inf : Message) : Except ServerError ServerAction := do
  let ack ← s.buildInformAck inf unspecified
  return .sendResponse ack (getDestination inf inf.ciaddr)

def dispatch (msg : Message) : Call ServerAction := do
  let s ← get
  match msg.getDhcpType with
  | .error e => throw (.clientMessageError e)
  | .ok .dhcpdiscover => handleDiscover env msg
  | .ok .dhcprequest => ofExcept (s.handleRequest env msg)
  | .ok .dhcpdecline => handleDecline env msg
  | .ok .dhcprelease => handleRelease env msg
  | .ok .dhcpinform => ofExcept (s.handleInform msg)
  | .ok t => throw (.unexpectedClientMessageType t)

/-- `Server::new`, which neither reads nor writes the data store. -/
def new (store : DataStore) (params : ServerParameters) : Server :=
  ⟨fun _ => none,.new params.managedAddrs.poolRange,params,store,fun _ => none⟩

def allocateRecords (records : ClientIdentifier → Option LeaseRecord) :
    List ClientIdentifier → AddressPool → Except ServerError AddressPool
  | [],pool => .ok pool
  | id::rest,pool =>
    match (records id).bind LeaseRecord.current with
    | none => allocateRecords records rest pool
    | some addr =>
      match pool.allocateAddr addr with
      | .error e => .error (.inconsistentInitialServerState e)
      | .ok pool => allocateRecords records rest pool

/-- `Server::new_from_state` -/
def newFromState (store : DataStore) (params : ServerParameters)
    (optionsRepo : OptionCode → Option DhcpOption) (records : ClientIdentifier → Option LeaseRecord) :
    Result Server ServerError Unit :=
  match allocateRecords records env.order (.new params.managedAddrs.poolRange) with
  | .error e => .fail e ⟨records,.new params.managedAddrs.poolRange,params,store,optionsRepo⟩
  | .ok pool => releaseExpiredLeases env ⟨records,pool,params,store,optionsRepo⟩

end Server

end Fuchsia.Dhcp
