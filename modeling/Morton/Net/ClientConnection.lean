import Morton.Base.Run
import Morton.Net.Connection

/-! The client's half of the handshake. An established session is to end only with a
datagram that carries the session's salt; a denial carries none and is believed in every
state. -/
namespace Morton.Net
open Proto

inductive ClientState
  | disconnected
  | sendingRequest
  | sendingResponse
  | connected
  | denied
  | timedOut
  deriving DecidableEq

structure ClientConfig where
  server : Address
  token : List UInt8 := List.replicate kConnectTokenBytes 0
  timeoutUs : Nat := 5000000
  retryIntervalUs : Nat := 100000
  keepaliveUs : Nat := 100000

structure ClientConnection where
  config : ClientConfig
  state : ClientState := .disconnected
  denyReason : Nat := denyCode .badToken
  clientSalt : Nat := 0
  serverSalt : Nat := 0
  lastSendUs : Nat := 0
  lastReceiveUs : Nat := 0
  clientId : Nat := 0
  entity : Nat := 0
  reliability : ReliableEndpoint := {}
  /-- The datagrams handed to the socket, oldest first. -/
  outbox : List (Address × List UInt8) := []

/-- What the owner's payload and message handlers do with the connection. -/
abbrev ClientHandlers := ClientConnection → List UInt8 → List ReliableMessage → ClientConnection

namespace ClientConnection

/-- The salt every packet of the session carries. -/
def sessionSalt (c : ClientConnection) : Nat := c.clientSalt ^^^ c.serverSalt

/-- `salt` is what `generate_salt` returned. -/
def start (c : ClientConnection) (config : ClientConfig) (salt now : Nat) : ClientConnection :=
  { c with
    config
    clientSalt := salt
    serverSalt := 0
    state := .sendingRequest
    lastSendUs := 0
    lastReceiveUs := now
    reliability := {} }

/-- Repoints the client at a different shard. -/
def redirect (c : ClientConnection) (server : Address) (token : List UInt8) (salt now : Nat) :
    ClientConnection :=
  { c with
    config := { c.config with server, token }
    clientSalt := salt
    serverSalt := 0
    state := .sendingRequest
    lastSendUs := 0
    lastReceiveUs := now
    reliability := {} }

def send (c : ClientConnection) (data : List UInt8) : ClientConnection :=
  { c with outbox := c.outbox ++ [(c.config.server, data)] }

def sendConnectionRequest (c : ClientConnection) (now : Nat) : ClientConnection :=
  send { c with lastSendUs := now } (writeDatagram kMaxDatagramSize .connectionRequest fun w =>
    (List.range kConnectionRequestPadding).foldl (fun w _ => w.writeU8 0)
      ((w.writeU64 c.clientSalt).writeBytes c.config.token))

def sendChallengeResponse (c : ClientConnection) (now : Nat) : ClientConnection :=
  send { c with lastSendUs := now }
    (writeDatagram 64 .challengeResponse fun w => w.writeU64 c.sessionSalt)

def sendPayload (c : ClientConnection) (data : List UInt8) (now : Nat) : ClientConnection :=
  if c.state ≠ .connected then c
  else
    match writePayload c.reliability c.sessionSalt data now with
    | (reliability, none) => { c with reliability }
    | (reliability, some packet) => send { c with reliability, lastSendUs := now } packet

def queueReliable (c : ClientConnection) (channel : UInt8) (data : List UInt8) :
    ClientConnection :=
  { c with reliability := c.reliability.queueReliable channel data }

def disconnect (c : ClientConnection) : ClientConnection :=
  if c.state ≠ .connected then c
  else
    let packet := writeDisconnect c.sessionSalt
    { ((c.send packet).send packet).send packet with state := .disconnected }

def stop (c : ClientConnection) : ClientConnection := { c.disconnect with state := .disconnected }

def handleChallenge (c : ClientConnection) (body : List UInt8) (now : Nat) : ClientConnection :=
  let (echoedClientSalt, r) := readSalt body
  let (serverSalt, r) := r.readU64
  if r.overflow = true ∨ echoedClientSalt ≠ c.clientSalt then c
  else if c.state ≠ .sendingRequest then c
  else
    sendChallengeResponse { c with serverSalt, state := .sendingResponse, lastReceiveUs := now } now

def handleAccepted (c : ClientConnection) (body : List UInt8) (now : Nat) : ClientConnection :=
  let (salt, r) := readSalt body
  let (clientId, r) := r.readU32
  let (entity, r) := r.readU32
  if r.overflow = true ∨ salt ≠ c.sessionSalt then c
  else
    { c with
      state := if c.state = .sendingResponse then .connected else c.state
      clientId, entity
      lastReceiveUs := now }

def handleDenied (c : ClientConnection) (body : List UInt8) : ClientConnection :=
  let (reason, r) := (BitReader.ofBytes body).readU8
  if r.overflow = true then c else { c with denyReason := reason, state := .denied }

def handleDisconnect (c : ClientConnection) (body : List UInt8) : ClientConnection :=
  let (salt, r) := readSalt body
  if r.overflow = false ∧ salt = c.sessionSalt then { c with state := .disconnected } else c

def handlePayload (handlers : ClientHandlers) (c : ClientConnection) (body : List UInt8)
    (now : Nat) : ClientConnection :=
  let (salt, r) := readSalt body
  if r.overflow = true ∨ salt ≠ c.sessionSalt then c
  else if c.state ≠ .connected then c
  else
    match readPayload c.reliability body now with
    | (reliability, none) => { c with reliability }
    | (reliability, some (payload, messages)) =>
      handlers { c with reliability, lastReceiveUs := now } payload messages

def processDatagram (handlers : ClientHandlers) (c : ClientConnection) (data : List UInt8)
    (now : Nat) : ClientConnection :=
  let body := data.drop kHeaderBytes
  match readHeader data with
  | some .challenge => c.handleChallenge body now
  | some .connectionAccepted => c.handleAccepted body now
  | some .connectionDenied => c.handleDenied body
  | some .disconnect => c.handleDisconnect body
  | some .payload => c.handlePayload handlers body now
  | _ => c

/-- The part of `update` after the socket has been drained. -/
def pace (c : ClientConnection) (now : Nat) : ClientConnection :=
  let c := { c with reliability := c.reliability.update }
  let idle := elapsed now c.lastSendUs
  let c :=
    match c.state with
    | .sendingRequest => if c.config.retryIntervalUs ≤ idle then c.sendConnectionRequest now else c
    | .sendingResponse => if c.config.retryIntervalUs ≤ idle then c.sendChallengeResponse now else c
    | .connected =>
      if c.config.keepaliveUs ≤ idle ∨ c.reliability.unacked ≠ [] then c.sendPayload [] now else c
    | _ => c
  if c.config.timeoutUs < elapsed now c.lastReceiveUs then { c with state := .timedOut } else c

/-- `update` over the datagrams the socket holds; those of other senders are skipped. -/
def update (handlers : ClientHandlers) (c : ClientConnection)
    (datagrams : List (Address × List UInt8)) (now : Nat) : ClientConnection :=
  if c.state = .disconnected ∨ c.state = .denied ∨ c.state = .timedOut then c
  else
    (datagrams.foldl
      (fun c (sender, data) =>
        if sender = c.config.server then c.processDatagram handlers data now else c) c).pace now

/-- The body of the datagram starts with the salt of the session. -/
def CarriesSalt (c : ClientConnection) (data : List UInt8) : Prop :=
  (readSalt (data.drop kHeaderBytes)).2.overflow = false ∧
    (readSalt (data.drop kHeaderBytes)).1 = c.sessionSalt

instance (c : ClientConnection) (data : List UInt8) : Decidable (c.CarriesSalt data) :=
  inferInstanceAs (Decidable (_ ∧ _))

end ClientConnection

/-- A denial with its reason byte. -/
def IsDenial (data : List UInt8) : Prop :=
  readHeader data = some .connectionDenied ∧
    (BitReader.ofBytes (data.drop kHeaderBytes)).readU8.2.overflow = false

instance (data : List UInt8) : Decidable (IsDenial data) := inferInstanceAs (Decidable (_ ∧ _))

namespace ClientConnection
variable {c : ClientConnection}

theorem handleChallenge_connected (hc : c.state = .connected) (body : List UInt8) (now : Nat) :
    c.handleChallenge body now = c := by
  simp [handleChallenge, hc]

theorem handleAccepted_connected (hc : c.state = .connected) (body : List UInt8) (now : Nat) :
    (c.handleAccepted body now).state = .connected := by
  unfold handleAccepted
  dsimp only
  split
  · exact hc
  · simp [hc]

/-- A payload that is not the session's is dropped unread. -/
theorem handlePayload_foreign (handlers : ClientHandlers) {data : List UInt8}
    (h : ¬ c.CarriesSalt data) (now : Nat) :
    c.handlePayload handlers (data.drop kHeaderBytes) now = c := by
  unfold handlePayload
  dsimp only
  rw [if_pos]
  by_contra hneg
  rw [not_or, Bool.not_eq_true, not_not] at hneg
  exact h hneg

theorem handleDisconnect_foreign {data : List UInt8} (h : ¬ c.CarriesSalt data) :
    c.handleDisconnect (data.drop kHeaderBytes) = c := if_neg h

/-- An established session stays or the datagram carries its salt, exactly when a denial
would have to carry it too. -/
theorem session_ends_with_authority_iff (handlers : ClientHandlers) (c : ClientConnection)
    (hc : c.state = .connected) (data : List UInt8) (now : Nat) :
    ((c.processDatagram handlers data now).state = .connected ∨ c.CarriesSalt data) ↔
      (IsDenial data → c.CarriesSalt data) := by
  by_cases hsalt : c.CarriesSalt data
  · simp [hsalt]
  · simp only [hsalt, or_false, imp_false]
    unfold processDatagram IsDenial
    dsimp only
    cases htype : readHeader data with
    | none => simp [hc]
    | some type =>
      cases type with
      | connectionRequest => simp [hc]
      | challenge => simp [handleChallenge_connected hc, hc]
      | challengeResponse => simp [hc]
      | connectionAccepted => simp [handleAccepted_connected hc]
      | connectionDenied =>
        simp only [handleDenied, true_and, Bool.not_eq_false]
        split
        next hshort => exact ⟨fun _ => hshort, fun _ => hc⟩
        next hlong =>
          refine ⟨fun h => ?_, fun h => absurd h hlong⟩
          cases h
      | payload => simp [handlePayload_foreign handlers hsalt now, hc]
      | disconnect => simp [handleDisconnect_foreign hsalt, hc]

/-- A client that sent its request, was challenged, answered, and was accepted. -/
def established : ClientConnection :=
  let server : Address := { ip := 1, port := 2 }
  let quiet : ClientHandlers := fun c _ _ => c
  let c := ClientConnection.start { config := { server } } { server } 5 0
  let c := c.update quiet [] 100000
  let c := c.update quiet [(server, writeChallenge 5 9)] 200000
  c.update quiet [(server, writeAccepted (5 ^^^ 9) 1 1)] 300000

/-- A denial meant for another attempt ends the session without its salt. -/
theorem session_ended_by_denial :
    established.state = .connected ∧ ¬ established.CarriesSalt (writeDenied .serverFull) ∧
      (established.processDatagram (fun c _ _ => c) (writeDenied .serverFull) 300001).state =
        .denied := by
  decide +kernel

theorem session_survives_foreign_disconnect :
    (established.processDatagram (fun c _ _ => c) (writeDisconnect 77) 300001).state =
      .connected := by
  have hiff := session_ends_with_authority_iff (fun c _ _ => c) established (by decide +kernel)
    (writeDisconnect 77) 300001
  obtain hstays | hcarries := hiff.mpr fun hdenial => absurd hdenial (by decide +kernel)
  · exact hstays
  · exact absurd hcarries (by decide +kernel)

end ClientConnection
end Morton.Net
