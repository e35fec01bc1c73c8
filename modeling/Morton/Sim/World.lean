import Mathlib.Data.UInt
import Morton.Base.Table
import Morton.Sim.Movement

/-! The authoritative simulation of one shard: entity storage in parallel arrays, the
command buffers of its players, and the fixed tick. Floating-point work is a parameter. -/
namespace Morton.Sim

structure Vec2 (F : Type) where
  x : F
  y : F
  deriving DecidableEq

structure MoveState (F : Type) where
  position : Vec2 F
  velocity : Vec2 F
  deriving DecidableEq

inductive EntityKind
  | player
  | drifter
  deriving DecidableEq

def hashU32 (x : UInt32) : UInt32 :=
  let x := x ^^^ (x >>> 16)
  let x := x * 0x7feb352d
  let x := x ^^^ (x >>> 15)
  let x := x * 0x846ca68b
  x ^^^ (x >>> 16)

/-- Structure-of-arrays storage. Ids are counted without wrap-around. -/
structure EntityStore (F : Type) where
  id : List Nat := []
  position : List (Vec2 F) := []
  velocity : List (Vec2 F) := []
  kind : List EntityKind := []
  owner : List Nat := []
  lastInputSequence : List Nat := []
  aiSeed : List UInt32 := []
  indexOf : Table Nat Nat := ∅

namespace EntityStore
variable {F : Type}

def size (s : EntityStore F) : Nat := s.id.length

def find (s : EntityStore F) (entity : Nat) : Option Nat := s.indexOf.lookup entity

def add [Zero F] (s : EntityStore F) (entity : Nat) (kind : EntityKind) (start : Vec2 F)
    (client : Nat) : EntityStore F :=
  { id := s.id ++ [entity]
    position := s.position ++ [start]
    velocity := s.velocity ++ [⟨0, 0⟩]
    kind := s.kind ++ [kind]
    owner := s.owner ++ [client]
    lastInputSequence := s.lastInputSequence ++ [0]
    aiSeed := s.aiSeed ++ [hashU32 (UInt32.ofNat entity * 2654435761)]
    indexOf := s.indexOf.insert entity s.size }

/-- `xs[index] = xs[last]`, then `pop_back`. -/
def swapPop {α : Type} (xs : List α) (index : Nat) : List α :=
  match xs.getLast? with
  | none => []
  | some x => (xs.set index x).dropLast

/-- Swap-and-pop; the flag is the returned value. -/
def remove (s : EntityStore F) (entity : Nat) : EntityStore F × Bool :=
  match s.indexOf.lookup entity with
  | none => (s, false)
  | some index =>
    let last := s.size - 1
    let moved := if index = last then s.indexOf else
      match s.id[last]? with
      | none => s.indexOf
      | some id => s.indexOf.insert id index
    ({ id := swapPop s.id index
       position := swapPop s.position index
       velocity := swapPop s.velocity index
       kind := swapPop s.kind index
       owner := swapPop s.owner index
       lastInputSequence := swapPop s.lastInputSequence index
       aiSeed := swapPop s.aiSeed index
       indexOf := moved.erase entity }, true)

end EntityStore

structure WorldStats where
  entityCount : Nat := 0
  playerCount : Nat := 0
  inputsApplied : Nat := 0
  inputsStarved : Nat := 0
  collisionPairs : Nat := 0
  peakCellOccupancy : Nat := 0
  deriving DecidableEq

/-- Command buffer and reconciliation bookkeeping of one player. -/
structure PlayerSlot (A : Type) where
  entity : Nat
  client : Nat
  pending : List (MoveInput A) := []
  lastApplied : MoveInput A
  lastAppliedSequence : Nat := 0
  highestReceivedSequence : Nat := 0
  droppedStaleInputs : Nat := 0
  hasApplied : Bool := false

/-- The floating-point part of a tick over coordinates `F` and axes `A`. Collisions move
positions only; they also report the pairs pushed apart and the fullest cell. -/
structure Simulation (F A : Type) extends Physics (MoveState F) A where
  drifterAxes : UInt32 → A
  resolveCollisions : List Nat → List (Vec2 F) → List (Vec2 F) × Nat × Nat
  resolve_length : ∀ ids positions, (resolveCollisions ids positions).1.length = positions.length

def kInputRepeatTicks : Nat := 6

def kMaxQueuedInputs : Nat := 32

def kDrifterHeadingTicks : Nat := 45

structure World (F A : Type) where
  entities : EntityStore F := {}
  players : Table Nat (PlayerSlot A) := ∅
  stats : WorldStats := {}
  tick : Nat := 0
  /-- A `u32`; `World.actU32` has its overflow, the calls here are for fewer than `2^32` ids. -/
  nextEntity : Nat := 1

namespace PlayerSlot
variable {A : Type}

/-- Stale and repeated commands are dropped; a full queue loses its oldest command. -/
def receive (quantize : A → A) (slot : PlayerSlot A) (input : MoveInput A) : PlayerSlot A :=
  if input.sequence ≤ slot.highestReceivedSequence ∧ slot.highestReceivedSequence ≠ 0 then
    { slot with droppedStaleInputs := slot.droppedStaleInputs + 1 }
  else
    let pending := if slot.pending.length ≥ kMaxQueuedInputs then slot.pending.tail
      else slot.pending
    { slot with
      highestReceivedSequence := input.sequence
      pending := pending ++ [{ input with axes := quantize input.axes }] }

/-- The command this tick integrates, whether it was waiting, and the slot after. -/
def next (centered : A) (tick : Nat) (slot : PlayerSlot A) : MoveInput A × Bool × PlayerSlot A :=
  match slot.pending with
  | input :: pending =>
    (input, true,
      { slot with
        pending
        lastApplied := input
        lastAppliedSequence := input.sequence
        hasApplied := true })
  | [] =>
    if slot.hasApplied && decide ((tick + 2 ^ 32 - slot.lastApplied.tick) % 2 ^ 32 ≤ kInputRepeatTicks)
    then (slot.lastApplied, false, slot)
    else ({ sequence := slot.lastAppliedSequence, axes := centered }, false, slot)

end PlayerSlot

namespace World
variable {F A : Type}

def spawnPlayer [Zero F] (centered : A) (w : World F A) (client : Nat) (position : Vec2 F) :
    Nat × World F A :=
  let entity := w.nextEntity
  (entity,
    { w with
      nextEntity := entity + 1
      entities := w.entities.add entity .player position client
      players := w.players.insert client
        { entity, client, lastApplied := { axes := centered } } })

def spawnDrifter [Zero F] (w : World F A) (position : Vec2 F) : Nat × World F A :=
  let entity := w.nextEntity
  (entity,
    { w with
      nextEntity := entity + 1
      entities := w.entities.add entity .drifter position 0 })

def despawn (w : World F A) (entity : Nat) : World F A :=
  match w.entities.find entity with
  | none => w
  | some index =>
    let client := w.entities.owner.getD index 0
    { w with
      entities := (w.entities.remove entity).1
      players := if client ≠ 0 then w.players.erase client else w.players }

def adoptEntity [Zero F] (centered : A) (w : World F A) (entity client : Nat)
    (position velocity : Vec2 F) (lastInputSequence : Nat) : World F A :=
  let (entities, nextEntity, index) :=
    match w.entities.find entity with
    | none => (w.entities.add entity .player position client, max w.nextEntity (entity + 1),
        w.entities.size)
    | some index => (w.entities, w.nextEntity, index)
  { w with
    nextEntity
    entities :=
      { entities with
        position := entities.position.set index position
        velocity := entities.velocity.set index velocity
        owner := entities.owner.set index client
        lastInputSequence := entities.lastInputSequence.set index lastInputSequence }
    players := w.players.insert client
      { entity, client, lastApplied := { axes := centered }
        lastAppliedSequence := lastInputSequence
        highestReceivedSequence := lastInputSequence } }

def queueInput (quantize : A → A) (w : World F A) (client : Nat) (input : MoveInput A) :
    World F A :=
  match w.players.lookup client with
  | none => w
  | some slot => { w with players := w.players.insert client (slot.receive quantize input) }

variable (sim : Simulation F A)

/-- One round of the loop of `apply_inputs`. -/
def applyInput (w : World F A) (client : Nat) : World F A :=
  match w.players.lookup client with
  | none => w
  | some slot =>
    match w.entities.find slot.entity with
    | none => w
    | some index =>
      match w.entities.position[index]?, w.entities.velocity[index]? with
      | some position, some velocity =>
        let (input, waited, slot') := slot.next sim.centered w.tick
        let state := sim.stepMovement ⟨position, velocity⟩ input
        { w with
          players := w.players.insert client slot'
          stats :=
            { w.stats with
              inputsApplied := w.stats.inputsApplied + if waited then 1 else 0
              inputsStarved := w.stats.inputsStarved + if waited then 0 else 1 }
          entities :=
            { w.entities with
              position := w.entities.position.set index state.position
              velocity := w.entities.velocity.set index state.velocity
              lastInputSequence :=
                w.entities.lastInputSequence.set index slot'.lastAppliedSequence } }
      | _, _ => w

/-- `order` is the order in which the loop meets the clients of `players_`. -/
def applyInputs (w : World F A) (order : List Nat) : World F A := order.foldl (applyInput sim) w

/-- One round of the loop of `drive_drifters`. -/
def driveDrifter (epoch : UInt32) (s : EntityStore F) (index : Nat) : EntityStore F :=
  match s.kind[index]?, s.aiSeed[index]?, s.position[index]?, s.velocity[index]? with
  | some .drifter, some seed, some position, some velocity =>
    let noise := hashU32 (seed ^^^ hashU32 epoch)
    let axes := sim.quantizeInput (sim.drifterAxes noise)
    let state := sim.stepMovement ⟨position, velocity⟩ { axes }
    { s with
      position := s.position.set index state.position
      velocity := s.velocity.set index state.velocity }
  | _, _, _, _ => s

def driveDrifters (w : World F A) : World F A :=
  let epoch := UInt32.ofNat (w.tick / kDrifterHeadingTicks)
  { w with entities := (List.range w.entities.size).foldl (driveDrifter sim epoch) w.entities }

/-- Advances exactly one tick. -/
def step (w : World F A) (order : List Nat) : World F A :=
  let w := { w with stats := { w.stats with inputsApplied := 0, inputsStarved := 0 } }
  let w := driveDrifters sim (applyInputs sim w order)
  let (position, pairs, peak) := sim.resolveCollisions w.entities.id w.entities.position
  { w with
    entities := { w.entities with position }
    stats :=
      { w.stats with
        collisionPairs := pairs
        entityCount := w.entities.size
        playerCount := w.players.keys.card
        peakCellOccupancy := peak }
    tick := (w.tick + 1) % 2 ^ 32 }

end World
end Morton.Sim
