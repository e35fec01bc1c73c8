import Morton.Base.Framing
import Morton.Base.Run

/-! The broadcast endpoint of the viewers. Its thread polls, takes what was published and serves
every viewer; `publish` runs on another thread and shares the queue and the client count with it.
What the sockets and the handshakes do is in the actions. -/
namespace Morton.Net

def kMaxIncomingBytes : Nat := 64 * 1024

def kMaxOutgoingBytes : Nat := 4 * 1024 * 1024

/-- A `std::string`. -/
abbrev FrameText := List UInt8

def encodeTextFrame (payload : FrameText) : FrameText :=
  let size := payload.length
  if size < 126 then 0x81 :: UInt8.ofNat size :: payload
  else if size ≤ 0xffff then 0x81 :: 126 :: (BigEndian.bytes 2 size ++ payload)
  else 0x81 :: 127 :: (BigEndian.bytes 8 size ++ payload)

structure WebSocketConfig where
  maxClients : Nat := 64
  maxQueuedFrames : Nat := 8

structure WebSocketPeer where
  outgoing : FrameText := []
  incoming : FrameText := []
  closing : Bool := false
  /-- What the socket has taken since the handshake; the source does not keep it. -/
  sent : FrameText := []

/-- The outcomes of `recv`; `again` is an interruption or nothing to read. -/
inductive RecvResult where
  | chunk (bytes : FrameText)
  | closed
  | again
  | failed

/-- The outcomes of `send`. -/
inductive SendResult where
  | took (n : Nat)
  | again
  | failed

structure FrameCounters where
  framesSent : Nat := 0
  framesDropped : Nat := 0

namespace WebSocketPeer

def close (peer : WebSocketPeer) : WebSocketPeer := { peer with closing := true }

/-- Past the results listed the socket has nothing more to read. -/
def drain (peer : WebSocketPeer) : List RecvResult → WebSocketPeer
  | [] | .again :: _ => peer
  | .closed :: _ | .failed :: _ => peer.close
  | .chunk bytes :: results =>
    let peer := { peer with incoming := peer.incoming ++ bytes }
    if kMaxIncomingBytes < peer.incoming.length then peer.close
    else if peer.incoming.head?.any fun first => first &&& 0x0f == 8 then peer.close
    else drain { peer with incoming := [] } results

/-- Past the results listed the socket takes nothing more. -/
def pump (peer : WebSocketPeer) : List SendResult → WebSocketPeer
  | [] => peer
  | result :: results =>
    if peer.outgoing = [] then peer
    else
      match result with
      | .took n =>
        if n = 0 then peer.close
        else pump { peer with
          outgoing := peer.outgoing.drop n
          sent := peer.sent ++ peer.outgoing.take n } results
      | .again => peer
      | .failed => peer.close

/-- The frames go behind what is not sent yet, except those that find no room. -/
def enqueue : WebSocketPeer → FrameCounters → List FrameText → WebSocketPeer × FrameCounters
  | peer, counters, [] => (peer, counters)
  | peer, counters, frame :: frames =>
    if kMaxOutgoingBytes < peer.outgoing.length + frame.length then
      enqueue peer { counters with framesDropped := counters.framesDropped + 1 } frames
    else
      enqueue { peer with outgoing := peer.outgoing ++ frame }
        { counters with framesSent := counters.framesSent + 1 } frames

end WebSocketPeer

/-- What one round finds at the socket of a viewer. -/
structure PeerEvents where
  readable : Bool
  received : List RecvResult
  sent : List SendResult

/-- One round of the loop over the viewers; `polled` is whether it was there at the poll. -/
def servePeer (frames : List FrameText) (polled : Bool) (events : PeerEvents) (peer : WebSocketPeer)
    (counters : FrameCounters) : WebSocketPeer × FrameCounters :=
  let peer := if polled && events.readable then peer.drain events.received else peer
  if peer.closing then (peer, counters)
  else
    let (peer, counters) := peer.enqueue counters frames
    (peer.pump events.sent, counters)

/-- The loop, from viewer `i` on. -/
def servePeers (frames : List FrameText) (waiters : Nat) (events : Nat → PeerEvents) :
    Nat → List WebSocketPeer → FrameCounters → List WebSocketPeer × FrameCounters
  | _, [], counters => ([], counters)
  | i, peer :: peers, counters =>
    let (peer, counters) :=
      servePeer frames (decide (i + 1 < waiters)) (events i) peer counters
    let (peers, counters) := servePeers frames waiters events (i + 1) peers counters
    (peer :: peers, counters)

/-- The loop in `publish` that drops the oldest texts. -/
def popOldest (maxQueuedFrames : Nat) :
    List FrameText → FrameCounters → List FrameText × FrameCounters
  | [], counters => ([], counters)
  | text :: queue, counters =>
    if maxQueuedFrames < queue.length + 1 then
      popOldest maxQueuedFrames queue
        { counters with framesDropped := counters.framesDropped + 1 }
    else (text :: queue, counters)

/-- Where the thread is: not running, at the head of its loop, past the poll over so many
sockets, or past the queue with the frames taken from it. -/
inductive ServePhase where
  | exited
  | top
  | polled (waiters : Nat)
  | taken (waiters : Nat) (frames : List FrameText)

def ServePhase.frames : ServePhase → List FrameText
  | .taken _ frames => frames
  | _ => []

structure WebSocketServer where
  config : WebSocketConfig := {}
  running : Bool := false
  queue : List FrameText := []
  peers : List WebSocketPeer := []
  clients : Nat := 0
  counters : FrameCounters := {}
  phase : ServePhase := .exited
  /-- Calls of `publish` past its first check, and past both of them and waiting for the lock. -/
  entered : List FrameText := []
  waiting : List FrameText := []
  /-- The texts in the order in which they were published; the source does not keep them. -/
  published : List FrameText := []
  /-- Viewers that have left, as they were; the source does not keep them. -/
  departed : List WebSocketPeer := []

inductive WebSocketAction where
  /-- `start` binds its socket. -/
  | start (config : WebSocketConfig)
  /-- `stop` up to the end of the thread, and the rest of it. -/
  | stop
  | clear
  /-- `publish` looks whether the server runs, then whether it has viewers; then one of the
  waiting calls gets the lock. -/
  | enter (text : FrameText)
  | check (call : Nat)
  | publish (call : Nat)
  /-- The thread polls, with or without a new connection, whose handshake succeeds or fails. -/
  | poll (connection : Option Bool)
  /-- It takes the lock and empties the queue. -/
  | take
  /-- It serves the viewers and closes those that have left. -/
  | serve (events : Nat → PeerEvents)

namespace WebSocketServer

def storeClients (s : WebSocketServer) : WebSocketServer :=
  { s with clients := s.peers.length % 2 ^ 32 }

def acceptPeer (s : WebSocketServer) (handshake : Bool) : WebSocketServer :=
  if decide (s.config.maxClients ≤ s.peers.length) || !handshake then s
  else { s with peers := s.peers ++ [({} : WebSocketPeer)] }.storeClients

/-- `publish` under the lock. -/
def enqueueText (s : WebSocketServer) (text : FrameText) : WebSocketServer :=
  let (queue, counters) := popOldest s.config.maxQueuedFrames (s.queue ++ [text]) s.counters
  { s with queue, counters, published := s.published ++ [text] }

/-- Those that are closing leave. -/
def reap (s : WebSocketServer) : WebSocketServer :=
  { s with
    peers := s.peers.filter fun peer => !peer.closing
    departed := s.departed ++ s.peers.filter WebSocketPeer.closing }.storeClients

def step (s : WebSocketServer) : WebSocketAction → WebSocketServer
  | .start config =>
    match s.phase with
    | .exited => { s with config, running := true, phase := .top }
    | _ => s
  | .stop => { s with running := false }
  | .clear =>
    match s.phase with
    | .exited =>
      { s with peers := [], departed := s.departed ++ s.peers, clients := 0, queue := [] }
    | _ => s
  | .enter text => if s.running then { s with entered := s.entered ++ [text] } else s
  | .check call =>
    match s.entered[call]? with
    | some text =>
      let s := { s with entered := s.entered.eraseIdx call }
      if s.clients = 0 then s else { s with waiting := s.waiting ++ [text] }
    | none => s
  | .publish call =>
    match s.waiting[call]? with
    | some text => { s with waiting := s.waiting.eraseIdx call }.enqueueText text
    | none => s
  | .poll connection =>
    match s.phase with
    | .top =>
      if s.running then
        let waiters := s.peers.length + 1
        { (connection.elim s s.acceptPeer) with phase := .polled waiters }
      else { s with phase := .exited }
    | _ => s
  | .take =>
    match s.phase with
    | .polled waiters =>
      { s with phase := .taken waiters (s.queue.map encodeTextFrame), queue := [] }
    | _ => s
  | .serve events =>
    match s.phase with
    | .taken waiters frames =>
      let (peers, counters) := servePeers frames waiters events 0 s.peers s.counters
      { s with peers, counters, phase := .top }.reap
    | _ => s

end WebSocketServer
end Morton.Net
