import Morton.Proto.BitStreamSpec
import Morton.Sim.Movement

/-! Messages between client and shard outside the snapshot stream: input packets, the
redirect event and the credential of the handshake. -/
namespace Morton.Proto
open Sim

/-- A `std::string`. -/
abbrev Bytes := List UInt8

def kMaxDatagramSize : Nat := 1200

def kMaxReliableMessageSize : Nat := 512

def kInputRedundancy : Nat := 6

def kMaxInputsPerPacket : Nat := 16

/-- `Channel::kInput` -/
def kInputChannel : Nat := 1

structure InputPacket (A : Type) where
  clientTick : Nat := 0
  ackedSnapshotTick : Nat := 0
  inputs : List (MoveInput A) := []
  deriving DecidableEq

def kAxisBits : Nat := 8

/-- `input_axis_quantizer` on a pair of axes; the arithmetic of its `f32` is a parameter. -/
structure AxisQuantizer (A : Type) where
  encode : A → Nat × Nat
  decode : Nat × Nat → A
  encode_lt : ∀ axes, (encode axes).1 < 2 ^ kAxisBits ∧ (encode axes).2 < 2 ^ kAxisBits

/-- Both axes in the middle. -/
def AxisQuantizer.centered : AxisQuantizer Unit :=
  { encode := fun _ => (128, 128), decode := fun _ => (), encode_lt := fun _ => by decide }

section
variable {A : Type} (axis : AxisQuantizer A)

def writeInput (w : BitWriter) (input : MoveInput A) : BitWriter :=
  let w := w.writeU32 input.sequence
  let w := w.writeBits (axis.encode input.axes).1 kAxisBits
  let w := w.writeBits (axis.encode input.axes).2 kAxisBits
  w.writeBool input.sprint

/-- The empty string stands for the returned size 0. -/
def encodeInputPacket (packet : InputPacket A) (capacity : Nat) : Bytes :=
  let w := BitWriter.new (fun _ => 0) capacity
  let w := w.writeU8 kInputChannel
  let w := w.writeU32 packet.clientTick
  let w := w.writeU32 packet.ackedSnapshotTick
  let count := min packet.inputs.length kMaxInputsPerPacket
  let w := w.writeRanged count 0 kMaxInputsPerPacket
  let w := (packet.inputs.take count).foldl (writeInput axis) w
  if w.overflow then [] else w.bytes

/-- The loop of `decode_input_packet`; the tick of a command does not travel. -/
def readInputs : Nat → BitReader → List (MoveInput A) × BitReader
  | 0, r => ([], r)
  | count+1, r =>
    let (sequence, r) := r.readU32
    let (x, r) := r.readBits kAxisBits
    let (y, r) := r.readBits kAxisBits
    let (sprint, r) := r.readBool
    let (inputs, r) := readInputs count r
    ({ sequence, axes := axis.decode (x, y), sprint } :: inputs, r)

/-- `none` is `return false`. -/
def decodeInputPacket (data : Bytes) : Option (InputPacket A) :=
  let (channel, r) := (BitReader.ofBytes data).readU8
  if channel ≠ kInputChannel then none
  else
    let (clientTick, r) := r.readU32
    let (ackedSnapshotTick, r) := r.readU32
    let (count, r) := r.readRanged 0 kMaxInputsPerPacket
    if r.overflow = true ∨ count < 0 then none
    else
      let (inputs, r) := readInputs axis count.toNat r
      if r.overflow then none else some { clientTick, ackedSnapshotTick, inputs }

end

structure MigrateRedirectEvent where
  ticket : Nat := 0
  region : Nat := 0
  endpoint : Bytes := []
  shardId : Bytes := []
  deriving DecidableEq

/-- `EventType::kMigrateRedirect` -/
def kMigrateRedirect : Nat := 1

/-- The empty string stands for the returned size 0. -/
def encodeMigrateRedirect (event : MigrateRedirectEvent) (capacity : Nat) : Bytes :=
  let w := BitWriter.new (fun _ => 0) capacity
  let w := w.writeU8 kMigrateRedirect
  let w := w.writeU64 event.ticket
  let w := w.writeVarint event.region
  let w := w.writeString event.endpoint
  let w := w.writeString event.shardId
  if w.overflow then [] else w.bytes

/-- `none` is `return false`. -/
def decodeMigrateRedirect (data : Bytes) : Option MigrateRedirectEvent :=
  let (event, r) := (BitReader.ofBytes data).readU8
  if event ≠ kMigrateRedirect then none
  else
    let (ticket, r) := r.readU64
    let (region, r) := r.readVarint
    let (endpoint, r) := r.readString
    let (shardId, r) := r.readString
    if r.overflow = true ∨ endpoint = [] then none else some { ticket, region, endpoint, shardId }

/-- The world size is kept as the bits of its `f32`; the default is 2048. -/
structure WorldConfigEvent where
  entity : Nat := 0
  tick : Nat := 0
  region : Nat := 0
  worldSize : UInt32 := 0x45000000
  tickRate : Nat := 30
  shardId : Bytes := []
  deriving DecidableEq

/-- `EventType::kWorldConfig` -/
def kWorldConfig : Nat := 3

/-- The empty string stands for the returned size 0. -/
def encodeWorldConfig (event : WorldConfigEvent) (capacity : Nat) : Bytes :=
  let w := BitWriter.new (fun _ => 0) capacity
  let w := w.writeU8 kWorldConfig
  let w := w.writeU32 event.entity
  let w := w.writeU32 event.tick
  let w := w.writeVarint event.region
  let w := w.writeU32 event.worldSize.toNat
  let w := w.writeVarint event.tickRate
  let w := w.writeString event.shardId
  if w.overflow then [] else w.bytes

/-- `none` is `return false`. -/
def decodeWorldConfig (data : Bytes) : Option WorldConfigEvent :=
  let (event, r) := (BitReader.ofBytes data).readU8
  if event ≠ kWorldConfig then none
  else
    let (entity, r) := r.readU32
    let (tick, r) := r.readU32
    let (region, r) := r.readVarint
    let (worldSize, r) := r.readU32
    let (tickRate, r) := r.readVarint
    let (shardId, r) := r.readString
    if r.overflow then none
    else some { entity, tick, region, worldSize := UInt32.ofNat worldSize, tickRate, shardId }

inductive CredentialKind
  | session
  | migration
  deriving DecidableEq

structure ConnectCredential where
  kind : CredentialKind := .session
  token : Nat := 0
  playerId : Bytes := []
  deriving DecidableEq

def kMaxPlayerIdBytes : Nat := 20

/-- `none` is `return false`. -/
def decodeCredential (token : Bytes) : Option ConnectCredential :=
  let (kind, r) := (BitReader.ofBytes token).readU8
  if 1 < kind then none
  else
    let (value, r) := r.readU64
    let (playerId, r) := r.readString
    if r.overflow = true ∨ playerId = [] ∨ kMaxPlayerIdBytes < playerId.length then none
    else some { kind := if kind = 0 then .session else .migration, token := value, playerId }

inductive DenyReason
  | serverFull
  | badToken
  | wrongRegion
  | shardDraining
  deriving DecidableEq

end Morton.Proto
