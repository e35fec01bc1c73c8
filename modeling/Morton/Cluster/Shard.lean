import Mathlib.Data.List.Sort
import Morton.Cluster.Migration

/-! `ShardCoordinator`: region ownership derived from the live members, and the plan of a
handoff. The membership itself is read from the registry by `refresh`. -/
namespace Morton.Cluster
open Proto Sim

structure ShardInfo where
  id : Bytes
  udpEndpoint : Bytes := []
  playerCount : Nat := 0
  capacity : Nat := 0
  draining : Bool := false
  deriving DecidableEq

/-- Region to shard over a sorted shard list; the empty string is no owner. -/
def assignRegions (sortedShardIds : List Bytes) (regionCount : Nat) : List Bytes :=
  (List.range regionCount).map fun region =>
    if sortedShardIds.isEmpty then []
    else sortedShardIds.getD (region % sortedShardIds.length) []

structure ShardConfig where
  id : Bytes
  presenceTtlMs : Nat := 15000
  ticketTtlMs : Nat := 10000
  regionCount : Nat := 4

structure ShardCoordinator where
  config : ShardConfig
  regionOwner : List Bytes := []
  endpoints : Table Bytes Bytes := ∅
  /-- What `rng_` has still to draw. -/
  rng : Nat → Nat := fun _ => 0
  draws : Nat := 0

structure HandoffPlan where
  token : Nat
  targetRegion : Nat
  targetShard : Bytes
  targetEndpoint : Bytes
  deriving DecidableEq

namespace ShardCoordinator

def recomputeOwnership (c : ShardCoordinator) (members : List ShardInfo) : ShardCoordinator :=
  let ids := (members.filter fun shard => !(shard.draining && shard.id != c.config.id)).map
    ShardInfo.id
  { c with
    endpoints := members.foldl (fun endpoints shard => endpoints.insert shard.id shard.udpEndpoint) ∅
    regionOwner :=
      assignRegions (ids.insertionSort (· ≤ ·)) c.config.regionCount }

/-- The part of `refresh` after `live_shards`: no answer leaves the map as it was. -/
def refresh (c : ShardCoordinator) (members : List ShardInfo) : ShardCoordinator :=
  if members.isEmpty then c else c.recomputeOwnership members

def ownerOfRegion (c : ShardCoordinator) (region : Nat) : Bytes := c.regionOwner.getD region []

def ownsRegion (c : ShardCoordinator) (region : Nat) : Bool :=
  decide (region < c.regionOwner.length) && c.ownerOfRegion region == c.config.id

def ownedRegions (c : ShardCoordinator) : List Nat :=
  (List.range c.regionOwner.length).filter c.ownsRegion

def endpointOfShard (c : ShardCoordinator) (shard : Bytes) : Option Bytes :=
  (c.endpoints.lookup shard).filter fun endpoint => !endpoint.isEmpty

def nextToken (c : ShardCoordinator) : Nat × ShardCoordinator :=
  let token := c.rng c.draws
  (if token = 0 then 1 else token, { c with draws := c.draws + 1 })

/-- `plan_handoff` up to the call of `publish_and_transfer`: `none` where it returns
false before that. `target` is what `handoff_target` returned. -/
def planHandoff (c : ShardCoordinator) (playerId : Bytes) (target : Nat)
    (position velocity : Vec2 UInt32) (tick lastInputSequence : Nat) :
    ShardCoordinator × Option (HandoffPlan × MigrationTicket) :=
  let owner := c.ownerOfRegion target
  if owner = [] ∨ owner = c.config.id then (c, none)
  else
    match c.endpointOfShard owner with
    | none => (c, none)
    | some endpoint =>
      let (token, c) := c.nextToken
      (c, some
        ({ token, targetRegion := target, targetShard := owner, targetEndpoint := endpoint },
          { token, playerId
            fromShard := c.config.id
            toShard := owner
            region := target
            tick, position, velocity, lastInputSequence }))

/-- The token the coordinator draws at its `n`th draw. -/
def tokenAt (c : ShardCoordinator) (n : Nat) : Nat :=
  if c.rng n = 0 then 1 else c.rng n

theorem planHandoff_cases (c : ShardCoordinator) (playerId : Bytes) (target : Nat)
    (position velocity : Vec2 UInt32) (tick lastInputSequence : Nat) :
    c.planHandoff playerId target position velocity tick lastInputSequence = (c, none) ∨
    ∃ plan ticket,
      c.planHandoff playerId target position velocity tick lastInputSequence =
        ({ c with draws := c.draws + 1 }, some (plan, ticket)) ∧
      plan.token = c.tokenAt c.draws ∧ ticket.token = c.tokenAt c.draws ∧
      ticket.playerId = playerId ∧ ticket.fromShard = c.config.id := by
  unfold planHandoff
  dsimp only
  split
  · exact Or.inl rfl
  · split
    · exact Or.inl rfl
    · exact Or.inr ⟨_, _, rfl, rfl, rfl, rfl, rfl⟩

end ShardCoordinator
end Morton.Cluster
