import Morton.Base.Keyed
import Morton.Net.SequenceBuffer
import Morton.Proto.BitStream

/-! Snapshot replication: the frame ring, `ReplicationState::encode` with its baseline
merge, priorities and selection, and `decode_snapshot`. Scalars are any type with
the operations the source uses; quantised coordinates and the closeness of an
entity arrive with the scene. -/
namespace Morton.Proto
open Net

structure EntityWireState where
  id : Nat := 0
  px : Nat := 0
  py : Nat := 0
  vx : Nat := 0
  vy : Nat := 0
  kind : Nat := 0
  deriving DecidableEq, Inhabited

def EntityWireState.sameStateAs (a b : EntityWireState) : Bool :=
  a.px == b.px && a.py == b.py && a.vx == b.vx && a.vy == b.vy && a.kind == b.kind

structure SnapshotFrame where
  tick : Nat := 0
  valid : Bool := false
  states : List EntityWireState := []
  deriving DecidableEq, Inhabited

/-- `frames_[0 .. capacity)`. -/
structure SnapshotHistory where
  capacity : Nat := 0
  frames : Nat → SnapshotFrame := fun _ => {}

namespace SnapshotHistory

def configure (capacity : Nat) : SnapshotHistory := { capacity }

def get (h : SnapshotHistory) (tick : Nat) : Option SnapshotFrame :=
  if h.capacity = 0 then none
  else
    let frame := h.frames (tick % h.capacity)
    if !frame.valid || frame.tick != tick then none else some frame

/-- A store through `slot(tick)`; nothing happens when the ring is empty. -/
def store (h : SnapshotHistory) (tick : Nat) (states : List EntityWireState) : SnapshotHistory :=
  if h.capacity = 0 then h
  else { h with frames := setSlot h.frames (tick % h.capacity) { tick, valid := true, states } }

def reset (h : SnapshotHistory) : SnapshotHistory := { h with frames := fun _ => {} }

end SnapshotHistory

structure InterestConfig (R : Type) where
  maxSnapshotBytes : Nat := 1000
  baselineHistory : Nat := 32
  distancePriorityFalloff : R

/-- An entity inside the area of interest: its quantised state and its closeness to
the viewer. -/
structure Seen (R : Type) where
  state : EntityWireState
  closeness : R

/-- What `encode` reads of the world: the tick, whether the viewer exists, and the
entities within the radius in the order the grid visits them. -/
structure Scene (R : Type) where
  tick : Nat
  hasViewer : Bool
  seen : List (Seen R)

/-- `std::nth_element` by descending priority: the order inside the two parts is
unspecified, so any function with the documented effect will do. -/
structure NthElement (R : Type) [LT R] where
  apply : List (Nat × R) → Nat → List (Nat × R)
  perm : ∀ candidates n, (apply candidates n).Perm candidates
  top : ∀ candidates n, ∀ a ∈ (apply candidates n).take n, ∀ b ∈ (apply candidates n).drop n,
    ¬ a.2 < b.2

structure ReplicationState (R : Type) where
  config : InterestConfig R
  history : SnapshotHistory := {}
  lastAckedTick : Nat := 0
  hasAcked : Bool := false
  /-- Carried credit by entity id. -/
  priority : List (Nat × R) := []

def kSmallDeltaMin : Int := -2048
def kSmallDeltaMax : Int := 2047
def kVelocityBits : Nat := 12
def kKindBits : Nat := 2
def kWorstCaseEntityBits : Nat := 40 + 1 + 1 + 1 + 16 + 16 + kVelocityBits * 2 + kKindBits
def kUpdateCountBits : Nat := 16

def writeEntityId (w : BitWriter) (id previous : Nat) : BitWriter :=
  w.writeVarint ((id + 2 ^ 32 - previous) % 2 ^ 32)

def readEntityId (r : BitReader) (previous : Nat) : Nat × BitReader :=
  let (gap, r) := r.readVarint
  ((previous + gap) % 2 ^ 32, r)

/-- The merge of two lists sorted by id: the baseline state of each current entity,
and the ids that are gone. The fuel is the number of rounds both lists allow. -/
def mergeBaseline : Nat → List EntityWireState → List EntityWireState →
    List (Option EntityWireState) × List Nat
  | 0, _, current => (current.map fun _ => none, [])
  | _+1, [], current => (current.map fun _ => none, [])
  | _+1, base, [] => ([], base.map EntityWireState.id)
  | fuel+1, old :: base, new :: current =>
    if old.id < new.id then
      let (previous, removed) := mergeBaseline fuel base (new :: current)
      (previous, old.id :: removed)
    else if new.id < old.id then
      let (previous, removed) := mergeBaseline fuel (old :: base) current
      (none :: previous, removed)
    else
      let (previous, removed) := mergeBaseline fuel base current
      (some old :: previous, removed)

/-- The position part of a changed record. -/
def writePosition (w : BitWriter) (current previous : EntityWireState) : BitWriter :=
  let dx : Int := current.px - previous.px
  let dy : Int := current.py - previous.py
  let small := decide (kSmallDeltaMin ≤ dx) && decide (dx ≤ kSmallDeltaMax) &&
    decide (kSmallDeltaMin ≤ dy) && decide (dy ≤ kSmallDeltaMax)
  let w := w.writeBool small
  if small then
    (w.writeRanged dx kSmallDeltaMin kSmallDeltaMax).writeRanged dy kSmallDeltaMin kSmallDeltaMax
  else (w.writeU16 current.px).writeU16 current.py

/-- One update record after its id. -/
def writeChange (w : BitWriter) (current : EntityWireState) :
    Option EntityWireState → BitWriter
  | none =>
    let w := w.writeBool true
    let w := (w.writeU16 current.px).writeU16 current.py
    let w := (w.writeBits current.vx kVelocityBits).writeBits current.vy kVelocityBits
    w.writeBits current.kind kKindBits
  | some previous =>
    let w := w.writeBool false
    let positionChanged := current.px != previous.px || current.py != previous.py
    let w := w.writeBool positionChanged
    let w := if positionChanged then writePosition w current previous else w
    let velocityChanged := current.vx != previous.vx || current.vy != previous.vy
    let w := w.writeBool velocityChanged
    if velocityChanged then
      (w.writeBits current.vx kVelocityBits).writeBits current.vy kVelocityBits
    else w

def writeRecords (w : BitWriter) (previousId : Nat) :
    List (EntityWireState × Option EntityWireState) → BitWriter
  | [] => w
  | (current, previous) :: rest =>
    writeRecords (writeChange (writeEntityId w current.id previousId) current previous)
      current.id rest

def writeRemoved (w : BitWriter) (previousId : Nat) : List Nat → BitWriter
  | [] => w
  | id :: rest => writeRemoved (writeEntityId w id previousId) id rest

/-- Everything before the record count. -/
def writeSnapshotHeader (w : BitWriter) (tick : Nat) (baseTick : Option Nat)
    (lastInputSequence viewer : Nat) (removed : List Nat) : BitWriter :=
  let w := (w.writeU32 tick).writeBool baseTick.isNone
  let w := match baseTick with
    | some baseTick => w.writeU32 baseTick
    | none => w
  let w := (w.writeU32 lastInputSequence).writeVarint viewer
  writeRemoved (w.writeVarint (removed.length % 2 ^ 32)) 0 removed

namespace ReplicationState
variable {R : Type}

def configure (config : InterestConfig R) : ReplicationState R :=
  { config, history := SnapshotHistory.configure config.baselineHistory }

def reset (s : ReplicationState R) : ReplicationState R :=
  { s with history := s.history.reset, lastAckedTick := 0, hasAcked := false, priority := [] }

def baseline (s : ReplicationState R) : Option SnapshotFrame :=
  if s.hasAcked then s.history.get s.lastAckedTick else none

def acknowledge (s : ReplicationState R) (tick : Nat) : ReplicationState R :=
  if s.hasAcked && !sequenceGreater32 tick s.lastAckedTick then s
  else { s with lastAckedTick := tick, hasAcked := true }

/-- The baseline, unless it shares its ring slot with the frame about to be written. -/
def usableBaseline (s : ReplicationState R) (tick : Nat) : Option SnapshotFrame :=
  if s.lastAckedTick % s.history.capacity = tick % s.history.capacity then none else s.baseline

section
variable [Add R] [Mul R] [Neg R] [LT R] [DecidableLT R] [OfScientific R]

/-- The cursor over the carried credits, advanced to `id`. -/
def advanceCarried (priority : List (Nat × R)) (id : Nat) : List (Nat × R) × R :=
  let rest := priority.dropWhile fun carried => decide (carried.1 < id)
  match rest with
  | [] => (rest, 0.0)
  | carried :: _ => (rest, if carried.1 = id then carried.2 else 0.0)

/-- The priority of each entity that changed against the baseline. -/
def candidatePriorities (config : InterestConfig R) (viewer : Nat) :
    List (Seen R × Option EntityWireState) → List (Nat × R) → List (Option R)
  | [], _ => []
  | (current, previous) :: rest, priority =>
    let (priority, carried) := advanceCarried priority current.state.id
    let unchanged := match previous with
      | some previous => current.state.sameStateAs previous
      | none => false
    let value :=
      if unchanged then none
      else
        let value := carried + current.closeness * config.distancePriorityFalloff + 0.01
        some (if current.state.id = viewer then value + 1e6 else value)
    value :: candidatePriorities config viewer rest priority

/-- Indices and priorities of the candidates, in id order. -/
def candidates (priorities : List (Option R)) : List (Nat × R) :=
  priorities.zipIdx.filterMap fun (priority, index) => priority.map fun p => (index, p)

/-- How many records fit in the bits that are left. -/
def fits (availableBits : Nat) : Nat :=
  if availableBits ≤ kUpdateCountBits then 0
  else (availableBits - kUpdateCountBits) / kWorstCaseEntityBits

/-- The selected indices, ascending. -/
def select (nth : NthElement R) (candidates : List (Nat × R)) (fits : Nat) : List Nat :=
  if candidates.length ≤ fits then candidates.map Prod.fst
  else (((nth.apply candidates fits).take fits).map Prod.fst).mergeSort fun a b => decide (a ≤ b)

/-- The frame kept for later: sent entities as they are now, the others as the
client has them. -/
def frameStates (rows : List (EntityWireState × Option EntityWireState)) (selected : List Nat) :
    List EntityWireState :=
  rows.zipIdx.filterMap fun ((current, previous), index) =>
    if index ∈ selected then some current else previous

/-- Credit carried to the next encode: candidates that were not sent. -/
def nextPriority (current : List EntityWireState) (priorities : List (Option R))
    (selected : List Nat) : List (Nat × R) :=
  (current.zip priorities).zipIdx.filterMap fun ((state, priority), index) =>
    let value := priority.getD (-1.0)
    if index ∈ selected ∨ value < 0.0 then none else some (state.id, value)

/-- `none` is the return value 0. -/
def encode (nth : NthElement R) (s : ReplicationState R) (scene : Scene R)
    (viewer lastInputSequence : Nat) (out : Nat → UInt8) (capacity : Nat) :
    ReplicationState R × Option (List UInt8) :=
  if !scene.hasViewer then (s, none)
  else
    let seen := scene.seen.mergeSort fun a b => decide (a.state.id ≤ b.state.id)
    let current := seen.map Seen.state
    let base := s.usableBaseline scene.tick
    let baseStates := (base.map SnapshotFrame.states).getD []
    let (previous, removed) :=
      mergeBaseline (baseStates.length + current.length) baseStates current
    let priorities := candidatePriorities s.config viewer (seen.zip previous) s.priority
    let writer := writeSnapshotHeader
      (BitWriter.new out (min capacity s.config.maxSnapshotBytes)) scene.tick
      (base.map SnapshotFrame.tick) lastInputSequence viewer removed
    if writer.overflow then (s, none)
    else
      let selected := select nth (candidates priorities) (fits writer.bitsRemaining)
      let rows := current.zip previous
      let writer := writeRecords (writer.writeU16 (selected.length % 65536)) 0
        (selected.filterMap fun index => rows[index]?)
      if writer.overflow then (s, none)
      else
        ({ s with
            history := s.history.store scene.tick (frameStates rows selected)
            priority := nextPriority current priorities selected },
          some writer.bytes)

end
end ReplicationState

structure DecodedSnapshot where
  tick : Nat
  baselineTick : Nat
  full : Bool
  lastInputSequence : Nat
  viewer : Nat
  states : List EntityWireState
  removed : List Nat
  deriving DecidableEq

/-- `none` is `return false`. -/
def peekSnapshotHeader (data : Nat → UInt8) (size : Nat) : Option (Nat × Nat × Bool) :=
  let r := BitReader.new data size
  let (tick, r) := r.readU32
  let (full, r) := r.readBool
  let (baselineTick, r) := if full then (0, r) else r.readU32
  if r.overflow then none else some (tick, baselineTick, full)

def readRemoved : Nat → BitReader → Nat → List Nat × BitReader
  | 0, r, _ => ([], r)
  | count+1, r, previousId =>
    let (id, r) := readEntityId r previousId
    let (rest, r) := readRemoved count r id
    (id :: rest, r)

/-- A full record read over `state`. -/
def readNew (r : BitReader) (state : EntityWireState) : EntityWireState × BitReader :=
  let (px, r) := r.readU16
  let (py, r) := r.readU16
  let (vx, r) := r.readBits kVelocityBits
  let (vy, r) := r.readBits kVelocityBits
  let (kind, r) := r.readBits kKindBits
  ({ state with px, py, vx, vy, kind }, r)

/-- `static_cast<u16>` of an `i32` sum. -/
def addDelta (coordinate : Nat) (delta : Int) : Nat := ((coordinate + delta) % 65536).toNat

/-- The position part of a changed record. -/
def readPosition (r : BitReader) (state : EntityWireState) : EntityWireState × BitReader :=
  let (small, r) := r.readBool
  if small then
    let (dx, r) := r.readRanged kSmallDeltaMin kSmallDeltaMax
    let (dy, r) := r.readRanged kSmallDeltaMin kSmallDeltaMax
    ({ state with px := addDelta state.px dx, py := addDelta state.py dy }, r)
  else
    let (px, r) := r.readU16
    let (py, r) := r.readU16
    ({ state with px, py }, r)

/-- A changed record read over `state`. -/
def readChange (r : BitReader) (state : EntityWireState) : EntityWireState × BitReader :=
  let (positionChanged, r) := r.readBool
  let (state, r) := if positionChanged then readPosition r state else (state, r)
  let (velocityChanged, r) := r.readBool
  if velocityChanged then
    let (vx, r) := r.readBits kVelocityBits
    let (vy, r) := r.readBits kVelocityBits
    ({ state with vx, vy }, r)
  else (state, r)

/-- The update loop over the states decoded so far. -/
def readRecords : Nat → BitReader → Nat → List EntityWireState →
    Option (List EntityWireState × BitReader)
  | 0, r, _, states => some (states, r)
  | count+1, r, previousId, states =>
    let (id, r) := readEntityId r previousId
    let (isNew, r) := r.readBool
    if r.overflow then none
    else
      let existing := (Keyed.above EntityWireState.id states id).head?.filter fun s => s.id == id
      let state := existing.getD { id }
      if !isNew && existing.isNone then none
      else
        let (state, r) := if isNew then readNew r state else readChange r state
        if r.overflow then none
        else readRecords count r id (Keyed.upsert EntityWireState.id states state)

/-- The body of a snapshot once its baseline is settled. -/
def decodeBody (r : BitReader) (baseStates : List EntityWireState) :
    Option (List EntityWireState × List Nat) :=
  let (removedCount, r) := r.readVarint
  if r.overflow = true ∨ 65535 < removedCount then none
  else
    let (removed, r) := readRemoved removedCount r 0
    if r.overflow then none
    else
      let states := baseStates.filter fun state => !removed.contains state.id
      let (updatedCount, r) := r.readU16
      if r.overflow then none
      else (readRecords updatedCount r 0 states).map fun (states, _) => (states, removed)

/-- `none` is `return false`. -/
def decodeSnapshot (data : Nat → UInt8) (size : Nat) (baseline : Option SnapshotFrame) :
    Option DecodedSnapshot :=
  let r := BitReader.new data size
  let (tick, r) := r.readU32
  let (full, r) := r.readBool
  let (baselineTick, r) := if full then (0, r) else r.readU32
  let (lastInputSequence, r) := r.readU32
  let (viewer, r) := r.readVarint
  if r.overflow then none
  else if !full && baseline.all (fun b => !b.valid || b.tick != baselineTick) then none
  else
    let baseStates := if full then [] else (baseline.map SnapshotFrame.states).getD []
    (decodeBody r baseStates).map fun (states, removed) =>
      { tick, baselineTick, full, lastInputSequence, viewer, states, removed }

/-- The tick of a snapshot stands in its header. -/
theorem decodeSnapshot_tick {data : Nat → UInt8} {size tick baselineTick : Nat} {full : Bool}
    (hpeek : peekSnapshotHeader data size = some (tick, baselineTick, full))
    {baseline : Option SnapshotFrame} {snapshot : DecodedSnapshot}
    (h : decodeSnapshot data size baseline = some snapshot) : snapshot.tick = tick := by
  have hread : (BitReader.new data size).readU32.1 = tick := by
    unfold peekSnapshotHeader at hpeek
    dsimp only at hpeek
    generalize (if (BitReader.new data size).readU32.2.readBool.1 then
      (0, (BitReader.new data size).readU32.2.readBool.2)
      else (BitReader.new data size).readU32.2.readBool.2.readU32) = rest at hpeek
    split at hpeek
    · cases hpeek
    · exact congrArg Prod.fst (Option.some.inj hpeek)
  unfold decodeSnapshot at h
  dsimp only at h
  generalize (if (BitReader.new data size).readU32.2.readBool.1 then
    (0, (BitReader.new data size).readU32.2.readBool.2)
    else (BitReader.new data size).readU32.2.readBool.2.readU32) = rest at h
  split at h
  · cases h
  · split at h
    · cases h
    · obtain ⟨_, -, rfl⟩ := Option.map_eq_some_iff.mp h
      exact hread

end Morton.Proto
