import Morton.Base.Table
import Morton.Proto.Messages
import Morton.Net.Reliability

/-! The connection handshake, `ConnectionServer` and `ClientConnection`. What the owner of a
server decides in its handlers is an argument of the step that calls them, and a
disconnect it asks for is a step of its own. Statistics are left out. -/
namespace Morton.Net
open Proto

/-- An IPv4 endpoint. -/
structure Address where
  ip : UInt32 := 0
  port : UInt16 := 0
  deriving DecidableEq

def kProtocolId : Nat := 0x4d525401
def kHeaderBytes : Nat := 5
def kHandshakeTimeoutUs : Nat := 5000000
def kConnectionRequestPadding : Nat := 1000
def kConnectTokenBytes : Nat := 32

/-- The difference of two `u64` clocks. -/
def elapsed (now since : Nat) : Nat := (now + 2 ^ 64 - since) % 2 ^ 64

inductive PacketType
  | connectionRequest
  | challenge
  | challengeResponse
  | connectionAccepted
  | connectionDenied
  | payload
  | disconnect
  deriving DecidableEq

def PacketType.code : PacketType → Nat
  | connectionRequest => 1
  | challenge => 2
  | challengeResponse => 3
  | connectionAccepted => 4
  | connectionDenied => 5
  | payload => 6
  | disconnect => 7

def PacketType.ofCode : Nat → Option PacketType
  | 1 => some connectionRequest
  | 2 => some challenge
  | 3 => some challengeResponse
  | 4 => some connectionAccepted
  | 5 => some connectionDenied
  | 6 => some payload
  | 7 => some disconnect
  | _ => none

def denyCode : DenyReason → Nat
  | .serverFull => 1
  | .badToken => 2
  | .wrongRegion => 3
  | .shardDraining => 4

/-- `write_header` into a buffer of `capacity` bytes, then a body into the rest of it. -/
def writeDatagram (capacity : Nat) (type : PacketType) (body : BitWriter → BitWriter) :
    List UInt8 :=
  let header := ((BitWriter.new (fun _ => 0) capacity).writeU32 kProtocolId).writeU8 type.code
  let offset := header.bytes.length
  header.bytes ++ (body (BitWriter.new (fun _ => 0) (capacity - offset))).bytes

/-- `none` is `return false`. -/
def readHeader (data : List UInt8) : Option PacketType :=
  if data.length < kHeaderBytes then none
  else
    let (id, r) := (BitReader.ofBytes data).readU32
    if id ≠ kProtocolId then none else PacketType.ofCode r.readU8.1

/-- The first `u64` of a body, with the reader after it. -/
def readSalt (body : List UInt8) : Nat × BitReader := (BitReader.ofBytes body).readU64

def writeChallenge (clientSalt serverSalt : Nat) : List UInt8 :=
  writeDatagram 64 .challenge fun w => (w.writeU64 clientSalt).writeU64 serverSalt

def writeDenied (reason : DenyReason) : List UInt8 :=
  writeDatagram 32 .connectionDenied fun w => w.writeU8 (denyCode reason)

def writeAccepted (salt clientId entity : Nat) : List UInt8 :=
  writeDatagram 64 .connectionAccepted fun w =>
    ((w.writeU64 salt).writeU32 clientId).writeU32 entity

def writeDisconnect (salt : Nat) : List UInt8 :=
  writeDatagram 32 .disconnect fun w => w.writeU64 salt

/-- A payload packet around a reliability body; `none` when the body does not fit. -/
def writePayload (reliability : ReliableEndpoint) (salt : Nat) (data : List UInt8) (now : Nat) :
    ReliableEndpoint × Option (List UInt8) :=
  let front := writeDatagram kMaxDatagramSize .payload fun w => w.writeU64 salt
  let (reliability, packet) :=
    reliability.writePacket (fun _ => 0) (kMaxDatagramSize - front.length) data now
  (reliability, packet.map fun packet => front ++ packet)

/-- What `read_packet` makes of the body behind the salt: the unreliable payload and the
messages, when it returns true. -/
def readPayload (reliability : ReliableEndpoint) (body : List UInt8) (now : Nat) :
    ReliableEndpoint × Option (List UInt8 × List ReliableMessage) :=
  let rest := body.drop 8
  let (reliability, result) := reliability.readPacket (BitReader.view rest) rest.length now
  (reliability, result.map fun (view, messages) =>
    ((rest.drop view.offset).take view.size, messages))

structure Connection where
  clientId : Nat
  address : Address
  salt : Nat
  token : List UInt8
  entity : Nat := 0
  lastReceiveUs : Nat
  lastSendUs : Nat
  connectedAtUs : Nat
  reliability : ReliableEndpoint := {}

structure PendingHandshake where
  clientSalt : Nat := 0
  serverSalt : Nat := 0
  token : List UInt8 := List.replicate kConnectTokenBytes 0
  startedUs : Nat := 0
  deriving DecidableEq

structure ServerConfig where
  maxConnections : Nat := 4096
  timeoutUs : Nat := 5000000
  keepaliveUs : Nat := 100000

/-- What `on_admit_` returns. -/
structure AdmitDecision where
  admitted : Bool := false
  reason : DenyReason := .badToken
  clientId : Nat := 0

/-- The owner's side of a completed handshake: the decision of `on_admit_`, if there is
such a handler, and the entity `on_connect_` puts into the connection. -/
structure Admission where
  decision : Option AdmitDecision := none
  entity : Nat := 0

structure ConnectionServer where
  config : ServerConfig := {}
  connections : Table Address Connection := ∅
  pending : Table Address PendingHandshake := ∅
  /-- A pointer to a connection is its address. -/
  byClient : Table Nat Address := ∅
  /-- What the generator of `generate_salt` has still to draw. -/
  rng : Nat → Nat := fun _ => 0
  draws : Nat := 0
  /-- The counter of `next_client_id`, a `u32`: the model is for its first `2^32 - 1` values. -/
  nextClientId : Nat := 1
  /-- The datagrams handed to the socket, oldest first. -/
  outbox : List (Address × List UInt8) := []

namespace ConnectionServer

def generateSalt (s : ConnectionServer) : Nat × ConnectionServer :=
  let salt := s.rng s.draws
  (if salt = 0 then 1 else salt, { s with draws := s.draws + 1 })

def send (s : ConnectionServer) (peer : Address) (data : List UInt8) : ConnectionServer :=
  { s with outbox := s.outbox ++ [(peer, data)] }

def sendChallenge (s : ConnectionServer) (peer : Address) (clientSalt serverSalt : Nat) :
    ConnectionServer :=
  s.send peer (writeChallenge clientSalt serverSalt)

def sendDenied (s : ConnectionServer) (peer : Address) (reason : DenyReason) : ConnectionServer :=
  s.send peer (writeDenied reason)

def sendAccepted (s : ConnectionServer) (c : Connection) : ConnectionServer :=
  s.send c.address (writeAccepted c.salt c.clientId c.entity)

/-- `handle_connection_request` once the request has been read. -/
def answerRequest (s : ConnectionServer) (sender : Address) (clientSalt : Nat)
    (token : List UInt8) (now : Nat) : ConnectionServer :=
  match s.connections.lookup sender with
  | some existing => s.sendAccepted existing
  | none =>
    if s.config.maxConnections ≤ s.connections.keys.card then s.sendDenied sender .serverFull
    else
      -- `pending_[from]` makes an empty entry when there is none
      let pending := (s.pending.lookup sender).getD {}
      let (pending, s) :=
        if pending.clientSalt ≠ clientSalt then
          let (serverSalt, s) := s.generateSalt
          ({ pending with clientSalt, serverSalt, startedUs := now }, s)
        else (pending, s)
      let pending := { pending with token }
      sendChallenge { s with pending := s.pending.insert sender pending } sender
        pending.clientSalt pending.serverSalt

def handleConnectionRequest (s : ConnectionServer) (sender : Address) (body : List UInt8)
    (now : Nat) : ConnectionServer :=
  if body.length < 8 + kConnectTokenBytes + kConnectionRequestPadding then s
  else
    let (clientSalt, r) := readSalt body
    let (token, r) := r.readBytes kConnectTokenBytes
    if r.overflow = true ∨ clientSalt = 0 then s
    else s.answerRequest sender clientSalt token now

/-- The connection a correct response opens. -/
def openConnection (s : ConnectionServer) (sender : Address) (pending : PendingHandshake)
    (xorSalt clientId entity now : Nat) : ConnectionServer :=
  let connection : Connection :=
    { clientId, address := sender, salt := xorSalt, token := pending.token, entity
      lastReceiveUs := now, lastSendUs := now, connectedAtUs := now }
  sendAccepted
    { s with
      pending := s.pending.erase sender
      connections := s.connections.insert sender connection
      byClient := s.byClient.insert clientId sender } connection

def handleChallengeResponse (s : ConnectionServer) (sender : Address) (body : List UInt8)
    (now : Nat) (owner : Admission) : ConnectionServer :=
  let (xorSalt, r) := readSalt body
  if r.overflow = true then s
  else
    match s.connections.lookup sender with
    | some existing => if existing.salt = xorSalt then s.sendAccepted existing else s
    | none =>
      match s.pending.lookup sender with
      | none => s
      | some pending =>
        if pending.clientSalt ^^^ pending.serverSalt ≠ xorSalt then s
        else
          let decision := owner.decision.getD { admitted := true, clientId := s.nextClientId }
          let s := { s with nextClientId := s.nextClientId + 1 }
          if !decision.admitted then
            sendDenied { s with pending := s.pending.erase sender } sender decision.reason
          else if decision.clientId ≠ 0 then
            s.openConnection sender pending xorSalt decision.clientId owner.entity now
          else
            openConnection { s with nextClientId := s.nextClientId + 1 } sender pending xorSalt
              s.nextClientId owner.entity now

/-- The connection server's part of `remove_connection`. -/
def removeConnection (s : ConnectionServer) (address : Address) : ConnectionServer :=
  match s.connections.lookup address with
  | none => s
  | some connection =>
    { s with
      byClient := s.byClient.erase connection.clientId
      connections := s.connections.erase address }

/-- The payload and the messages are what the owner's handlers get. -/
def handlePayload (s : ConnectionServer) (sender : Address) (body : List UInt8) (now : Nat) :
    ConnectionServer × Option (Connection × List UInt8 × List ReliableMessage) :=
  match s.connections.lookup sender with
  | none => (s, none)
  | some connection =>
    let (salt, r) := readSalt body
    if r.overflow = true ∨ salt ≠ connection.salt then (s, none)
    else
      match readPayload connection.reliability body now with
      | (reliability, none) =>
        let connection := { connection with reliability }
        ({ s with connections := s.connections.insert sender connection }, none)
      | (reliability, some received) =>
        let connection := { connection with reliability, lastReceiveUs := now }
        ({ s with connections := s.connections.insert sender connection },
          some (connection, received))

/-- A short body is read as far as it goes. -/
def handleDisconnect (s : ConnectionServer) (sender : Address) (body : List UInt8) :
    ConnectionServer :=
  match s.connections.lookup sender with
  | none => s
  | some connection =>
    if connection.salt = (readSalt body).1 then s.removeConnection sender else s

/-- One round of the loop of `receive`. -/
def receiveDatagram (s : ConnectionServer) (sender : Address) (data : List UInt8) (now : Nat)
    (owner : Admission) : ConnectionServer :=
  let body := data.drop kHeaderBytes
  match readHeader data with
  | some .connectionRequest => s.handleConnectionRequest sender body now
  | some .challengeResponse => s.handleChallengeResponse sender body now owner
  | some .payload => (s.handlePayload sender body now).1
  | some .disconnect => s.handleDisconnect sender body
  | _ => s

/-- The end of `receive`: handshakes that took too long are forgotten. -/
def expirePending (s : ConnectionServer) (now : Nat) : ConnectionServer :=
  { s with pending := s.pending.sift fun _ pending =>
      !decide (kHandshakeTimeoutUs < elapsed now pending.startedUs) }

def sendPayload (s : ConnectionServer) (address : Address) (data : List UInt8) (now : Nat) :
    ConnectionServer :=
  match s.connections.lookup address with
  | none => s
  | some connection =>
    match writePayload connection.reliability connection.salt data now with
    | (reliability, none) =>
      { s with connections := s.connections.insert address { connection with reliability } }
    | (reliability, some packet) =>
      send
        { s with connections :=
            s.connections.insert address { connection with reliability, lastSendUs := now } }
        connection.address packet

/-- One round of the loop of `flush`. -/
def flushOne (now : Nat) (s : ConnectionServer) (address : Address) : ConnectionServer :=
  match s.connections.lookup address with
  | none => s
  | some connection =>
    let connection := { connection with reliability := connection.reliability.update }
    let s := { s with connections := s.connections.insert address connection }
    if s.config.keepaliveUs ≤ elapsed now connection.lastSendUs ∨
        connection.reliability.unacked ≠ [] then
      s.sendPayload address [] now
    else s

/-- `order` is the order in which the loop meets the connections. -/
def flush (s : ConnectionServer) (now : Nat) (order : List Address) : ConnectionServer :=
  order.foldl (flushOne now) s

def timeoutConnections (s : ConnectionServer) (now : Nat) (order : List Address) :
    ConnectionServer :=
  let expired := order.filter fun address =>
    (s.connections.lookup address).any fun connection =>
      decide (s.config.timeoutUs < elapsed now connection.lastReceiveUs)
  expired.foldl removeConnection s

/-- `find`, then `disconnect`. -/
def disconnect (s : ConnectionServer) (clientId : Nat) : ConnectionServer :=
  match (s.byClient.lookup clientId).bind s.connections.lookup with
  | none => s
  | some connection =>
    let packet := writeDisconnect connection.salt
    let s := ((s.send connection.address packet).send connection.address packet).send
      connection.address packet
    s.removeConnection connection.address

def queueReliable (s : ConnectionServer) (address : Address) (channel : UInt8)
    (data : List UInt8) : ConnectionServer :=
  match s.connections.lookup address with
  | none => s
  | some connection =>
    let reliability := connection.reliability.queueReliable channel data
    { s with connections := s.connections.insert address { connection with reliability } }

end ConnectionServer

/-- What a server is made to do, by the network or by its owner. -/
inductive ServerAction
  | datagram (sender : Address) (data : List UInt8) (now : Nat) (owner : Admission)
  | expirePending (now : Nat)
  | sendPayload (address : Address) (data : List UInt8) (now : Nat)
  | flush (now : Nat) (order : List Address)
  | timeoutConnections (now : Nat) (order : List Address)
  | disconnect (clientId : Nat)
  | queueReliable (address : Address) (channel : UInt8) (data : List UInt8)

def ConnectionServer.step (s : ConnectionServer) : ServerAction → ConnectionServer
  | .datagram sender data now owner => s.receiveDatagram sender data now owner
  | .expirePending now => s.expirePending now
  | .sendPayload address data now => s.sendPayload address data now
  | .flush now order => s.flush now order
  | .timeoutConnections now order => s.timeoutConnections now order
  | .disconnect clientId => s.disconnect clientId
  | .queueReliable address channel data => s.queueReliable address channel data

/-- A server after `start`. -/
def ConnectionServer.start (config : ServerConfig) (rng : Nat → Nat) : ConnectionServer :=
  { config, rng }

end Morton.Net
