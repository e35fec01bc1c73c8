import Morton.Net.SequenceBuffer
import Morton.Proto.BitStream

/-! `ReliableEndpoint`: sequence, ack field, 32-bit ack history, and reliable
messages that ride in ordinary packets. The floating-point rate estimates are
left out; every counter that decides something is kept. -/
namespace Morton.Net
open Proto

def kMaxReliablePerPacket : Nat := 8
def kMaxReliableMessageSize : Nat := 512
def kAckWindowSize : Nat := 1024
def kLossHorizon : Nat := 32

structure ReliableMessage where
  id : Nat := 0
  channel : UInt8 := 0
  sends : Nat := 0
  payload : List UInt8 := []
  deriving DecidableEq, Inhabited

/-- A window into the datagram; `size = 0` stands for the null view. -/
structure PayloadView where
  offset : Nat := 0
  size : Nat := 0
  deriving DecidableEq, Inhabited

/-- The list is `message_ids[0 .. message_count)`. -/
structure SentPacket where
  sendTimeUs : Nat := 0
  size : Nat := 0
  acked : Bool := false
  messageIds : List Nat := []
  deriving DecidableEq, Inhabited

structure ReceivedPacket where
  recvTimeUs : Nat := 0
  size : Nat := 0
  deriving DecidableEq, Inhabited

structure NetworkStats where
  packetsSent : Nat := 0
  packetsReceived : Nat := 0
  packetsAcked : Nat := 0
  packetsLost : Nat := 0
  reliableRetransmits : Nat := 0
  deriving DecidableEq, Inhabited

structure ReliableEndpoint where
  sequence : Nat := 0
  nextMessageId : Nat := 0
  expectedMessageId : Nat := 0
  sent : SequenceBuffer SentPacket kAckWindowSize := { values := fun _ => default }
  received : SequenceBuffer ReceivedPacket kAckWindowSize := { values := fun _ => default }
  unacked : List ReliableMessage := []
  /-- The `std::map` keyed by message id, as the list of its values. -/
  reorderBuffer : List ReliableMessage := []
  stats : NetworkStats := {}
  highestReceived : Nat := 0
  hasReceived : Bool := false
  lossCursor : Nat := 0
  hasLossCursor : Bool := false

namespace ReliableEndpoint

def queueReliable (e : ReliableEndpoint) (channel : UInt8) (data : List UInt8) : ReliableEndpoint :=
  if data.length = 0 ∨ kMaxReliableMessageSize < data.length then e
  else
    { e with
      nextMessageId := (e.nextMessageId + 1) % 65536
      unacked := e.unacked ++ [{ id := e.nextMessageId, channel, payload := data }] }

/-- Bit `i` is set when the sequence `i+1` before the newest one was received. -/
def ackBits (e : ReliableEndpoint) : Nat :=
  if e.hasReceived then
    (List.range 32).foldl
      (fun bits i =>
        if e.received.contains (sub16 e.highestReceived (i + 1)) then bits ||| 1 <<< i else bits) 0
  else 0

/-- The counting loop: each message is weighed against the whole remaining room. -/
def includeCount (remaining unreliableSize : Nat) (queue : List ReliableMessage) : Nat :=
  ((queue.take kMaxReliablePerPacket).takeWhile fun message =>
    let neededBits := (16 + 8 + 16 + message.payload.length * 8) % 2 ^ 32
    decide ((neededBits + unreliableSize * 8 + 32) % 2 ^ 32 ≤ remaining)).length

/-- `sends++` on a message that rides in a packet. -/
def markSent (message : ReliableMessage) : ReliableMessage :=
  { message with sends := message.sends + 1 }

def writeMessage (w : BitWriter) (message : ReliableMessage) : BitWriter :=
  (((w.writeU16 message.id).writeU8 message.channel.toNat).writeU16
    (message.payload.length % 65536)).writeBytes message.payload

def writeHeader (e : ReliableEndpoint) (w : BitWriter) : BitWriter :=
  ((w.writeU16 e.sequence).writeU16 (if e.hasReceived then e.highestReceived else 0)).writeU32
    e.ackBits

/-- The body after the header: the messages, then the unreliable payload. -/
def writeBody (messages : List ReliableMessage) (unreliable : List UInt8) (w : BitWriter) :
    BitWriter :=
  let w := messages.foldl writeMessage (w.writeU8 (messages.length % 256))
  let w := w.writeU16 (unreliable.length % 65536)
  if 0 < unreliable.length then w.writeBytes unreliable else w

/-- `none` is the return value 0. The sequence is consumed and the sent record
stays in the window even when the packet does not fit. -/
def writePacket (e : ReliableEndpoint) (out : Nat → UInt8) (capacity : Nat)
    (unreliable : List UInt8) (nowUs : Nat) : ReliableEndpoint × Option (List UInt8) :=
  let sequence := e.sequence
  let header := e.writeHeader (BitWriter.new out capacity)
  let e := { e with sequence := (e.sequence + 1) % 65536 }
  match e.sent.insert sequence with
  | none => (e, none)
  | some sent =>
    let count := includeCount header.bitsRemaining unreliable.length e.unacked
    let included := e.unacked.take count
    let record : SentPacket :=
      { sendTimeUs := nowUs, messageIds := included.map (·.id) }
    let writer := writeBody included unreliable header
    let e := { e with
      unacked := included.map markSent ++ e.unacked.drop count
      stats := { e.stats with
        reliableRetransmits :=
          e.stats.reliableRetransmits +
            included.countP fun (m : ReliableMessage) => decide (0 < m.sends) } }
    if writer.overflow then ({ e with sent := sent.write sequence record }, none)
    else
      let packet := writer.bytes
      ({ e with
          sent := sent.write sequence { record with size := packet.length }
          stats := { e.stats with packetsSent := e.stats.packetsSent + 1 } },
        some packet)

/-- Drops the first message with this id, if there is one. -/
def eraseMessage (queue : List ReliableMessage) (id : Nat) : List ReliableMessage :=
  queue.eraseP fun m => m.id == id

def onPacketAcked (e : ReliableEndpoint) (sequence : Nat) : ReliableEndpoint :=
  match e.sent.find sequence with
  | none => e
  | some record =>
    if record.acked then e
    else
      { e with
        sent := e.sent.write sequence { record with acked := true }
        unacked := record.messageIds.foldl eraseMessage e.unacked
        stats := { e.stats with packetsAcked := e.stats.packetsAcked + 1 } }

/-- The sequences acknowledged by an ack field and its history, in order. -/
def ackedSequences (ack bits : Nat) : List Nat :=
  ack :: ((List.range 32).filter fun i => bits.testBit i).map fun i => sub16 ack (i + 1)

def processAcks (e : ReliableEndpoint) (ack bits : Nat) : ReliableEndpoint :=
  (ackedSequences ack bits).foldl onPacketAcked e

def deliverLoop : Nat → ReliableEndpoint → List ReliableMessage →
    ReliableEndpoint × List ReliableMessage
  | 0, e, out => (e, out)
  | fuel+1, e, out =>
    match e.reorderBuffer.find? fun m => m.id == e.expectedMessageId with
    | none => (e, out)
    | some message =>
      deliverLoop fuel
        { e with
          reorderBuffer := e.reorderBuffer.eraseP fun m => m.id == e.expectedMessageId
          expectedMessageId := (e.expectedMessageId + 1) % 65536 }
        (out ++ [message])

/-- Each round takes one entry out of the buffer, so its size bounds the loop. -/
def deliverInOrder (e : ReliableEndpoint) : ReliableEndpoint × List ReliableMessage :=
  deliverLoop e.reorderBuffer.length e []

/-- Buffers a message unless it was delivered or is already waiting. -/
def bufferMessage (expected : Nat) (buffer : List ReliableMessage) (message : ReliableMessage) :
    List ReliableMessage :=
  let alreadyDelivered := !sequenceGreater16 message.id expected && message.id != expected
  if alreadyDelivered then buffer
  else if buffer.any fun m => m.id == message.id then buffer
  else buffer ++ [message]

/-- One message record: the message and whether it was well formed. -/
def readMessage (r : BitReader) : Option ReliableMessage × BitReader :=
  let (id, r) := r.readU16
  let (channel, r) := r.readU8
  let (payloadSize, r) := r.readU16
  if kMaxReliableMessageSize < payloadSize ∨ r.overflow = true then (none, r)
  else
    let (payload, r) := r.readBytes payloadSize
    if r.overflow = true then (none, r) else (some { id, channel := UInt8.ofNat channel, payload }, r)

/-- The message loop; `false` is the early `return false`, which keeps what was
buffered before it. -/
def readMessages (expected : Nat) :
    Nat → BitReader → List ReliableMessage → Bool × BitReader × List ReliableMessage
  | 0, r, buffer => (true, r, buffer)
  | count+1, r, buffer =>
    match readMessage r with
    | (none, r) => (false, r, buffer)
    | (some message, r) => readMessages expected count r (bufferMessage expected buffer message)

/-- Bookkeeping for a packet whose sequence is new. -/
def noteReceived (e : ReliableEndpoint)
    (received : SequenceBuffer ReceivedPacket kAckWindowSize) (sequence : Nat) :
    ReliableEndpoint :=
  let e := { e with
    received
    stats := { e.stats with packetsReceived := e.stats.packetsReceived + 1 } }
  if !e.hasReceived then { e with highestReceived := sequence, hasReceived := true }
  else if sequenceGreater16 sequence e.highestReceived then { e with highestReceived := sequence }
  else e

/-- What follows the acks: messages, then the unreliable payload's bounds. -/
def readBody (e : ReliableEndpoint) (r : BitReader) (size : Nat) :
    ReliableEndpoint × Option (PayloadView × List ReliableMessage) :=
  let (messageCount, r) := r.readU8
  if kMaxReliablePerPacket < messageCount then (e, none)
  else
    let (ok, r, buffer) := readMessages e.expectedMessageId messageCount r e.reorderBuffer
    let e := { e with reorderBuffer := buffer }
    if !ok then (e, none)
    else
      let (unreliableSize, r) := r.readU16
      if r.overflow = true then (e, none)
      else if size < r.bytesRead + unreliableSize then (e, none)
      else
        let view : PayloadView :=
          if 0 < unreliableSize then { offset := r.bytesRead, size := unreliableSize } else {}
        let (e, out) := e.deliverInOrder
        (e, some (view, out))

/-- `none` is `return false`; otherwise the unreliable view and the messages
appended to `out_messages`. -/
def readPacket (e : ReliableEndpoint) (data : Nat → UInt8) (size nowUs : Nat) :
    ReliableEndpoint × Option (PayloadView × List ReliableMessage) :=
  let r := BitReader.new data size
  let (sequence, r) := r.readU16
  let (ack, r) := r.readU16
  let (ackBits, r) := r.readU32
  if r.overflow = true then (e, none)
  else if e.received.contains sequence then (e, none)
  else
    match e.received.insert sequence with
    | none => (e, none)
    | some received =>
      let received := received.write sequence { recvTimeUs := nowUs, size }
      readBody ((e.noteReceived received sequence).processAcks ack ackBits) r size

/-- The cursor loop of `update`; `fuel` bounds its at most `2^15` rounds. -/
def lossLoop (horizonEnd : Nat) : Nat → ReliableEndpoint → ReliableEndpoint
  | 0, e => e
  | fuel+1, e =>
    if sequenceGreater16 horizonEnd e.lossCursor then
      let lost := match e.sent.find e.lossCursor with
        | some record => !record.acked
        | none => false
      lossLoop horizonEnd fuel
        { e with
          stats := { e.stats with
            packetsLost := if lost then e.stats.packetsLost + 1 else e.stats.packetsLost }
          lossCursor := (e.lossCursor + 1) % 65536 }
    else e

/-- The part of `update` that is not a rate estimate. -/
def update (e : ReliableEndpoint) : ReliableEndpoint :=
  let horizonEnd := sub16 e.sequence kLossHorizon
  let e := if e.hasLossCursor then e
    else { e with lossCursor := horizonEnd, hasLossCursor := true }
  lossLoop horizonEnd 32768 e

end ReliableEndpoint
end Morton.Net
