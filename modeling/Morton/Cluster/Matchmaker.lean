import Morton.Base.Process
import Mathlib.Data.Rat.Defs
import Mathlib.Data.List.Lex
import Morton.Cluster.Shard

/-! The matchmaker. `assign` and `release` hold its lock, so it runs one of them at a
time; it waits for Redis at a `MatchTask`. Load factors are exact. -/
namespace Morton.Cluster
open Proto

structure SessionGrant where
  playerId : Bytes
  shardId : Bytes
  udpEndpoint : Bytes
  region : Nat
  sessionToken : Nat
  reconnect : Bool
  deriving DecidableEq

structure Matchmaker where
  sessionTtlMs : Nat := 15000
  regionCount : Nat := 4
  /-- What `rng_` has still to draw. -/
  rng : Nat → Nat := fun _ => 0
  draws : Nat := 0
  /-- The successful grants, oldest first. -/
  grants : List SessionGrant := []

/-- Where `assign` or `release` waits for Redis. `live` is what `live_shards` returned. -/
inductive MatchTask
  /-- `assign`, for `get_presence` -/
  | lookup (player : Bytes) (live : List ShardInfo)
  /-- `assign`, for `set_presence` of the record it read -/
  | restore (existing : PresenceRecord) (owner : ShardInfo) (now : Nat)
  /-- `clear_presence`, for its `get_presence`; `none` when called from `release` -/
  | clearLookup (player : Bytes) (live : Option (List ShardInfo))
  /-- `clear_presence`, for the `DEL` -/
  | clear (player : Bytes) (record : Option PresenceRecord) (live : Option (List ShardInfo))
  /-- `assign`, for `claim_presence` -/
  | claim (record : PresenceRecord) (live : List ShardInfo) (now : Nat)
  /-- `assign`, for `get_presence` after a lost claim -/
  | relookup (player : Bytes) (winner : ShardInfo)

namespace ShardInfo

def loadFactor (shard : ShardInfo) : ℚ :=
  if shard.capacity = 0 then 1 else shard.playerCount / shard.capacity

def accepting (shard : ShardInfo) : Bool :=
  !shard.draining && decide (shard.playerCount < shard.capacity)

end ShardInfo

namespace Matchmaker

/-- One round of the loop of `pick_shard`. -/
def pickBetter (best : Option ShardInfo) (shard : ShardInfo) : Option ShardInfo :=
  if !shard.accepting then best
  else
    match best with
    | none => some shard
    | some current =>
      let delta := shard.loadFactor - current.loadFactor
      if delta < -(1 / 10000) then some shard
      else if delta ≤ 1 / 10000 ∧ shard.id < current.id then some shard
      else some current

def pickShard (live : List ShardInfo) : Option ShardInfo := live.foldl pickBetter none

def liveShard (live : List ShardInfo) (id : Bytes) : Option ShardInfo :=
  live.find? fun shard => shard.id == id

/-- The first region the chosen shard owns, zero if it owns none. -/
def claimRegion (m : Matchmaker) (live : List ShardInfo) (chosen : ShardInfo) : Nat :=
  let ids := ((live.filter fun shard => !shard.draining).map ShardInfo.id).insertionSort (· ≤ ·)
  let owners := assignRegions ids m.regionCount
  ((List.range owners.length).find? fun region => owners.getD region [] == chosen.id).getD 0

/-- `rng_()`, with zero replaced. -/
def drawn (m : Matchmaker) : Nat := if m.rng m.draws = 0 then 1 else m.rng m.draws

/-- `assign` from `pick_shard` on. -/
def claimFor (m : Matchmaker) (player : Bytes) (live : List ShardInfo) (now : Nat) :
    Matchmaker × Option MatchTask :=
  match pickShard live with
  | none => (m, none)
  | some chosen =>
    let record : PresenceRecord :=
      { playerId := player
        shardId := chosen.id
        region := m.claimRegion live chosen
        sessionToken := m.drawn }
    ({ m with draws := m.draws + 1 }, some (.claim record live now))

/-- `assign` up to its first wait. -/
def assign (m : Matchmaker) (player : Bytes) (live : List ShardInfo) :
    Matchmaker × Option MatchTask :=
  if live.isEmpty then (m, none) else (m, some (.lookup player live))

def release (m : Matchmaker) (player : Bytes) : Matchmaker × Option MatchTask :=
  (m, some (.clearLookup player none))

def commands (m : Matchmaker) : MatchTask → List RedisCommand
  | .lookup player _ => [.getPresence player]
  | .restore existing _ now => setPresenceCommands existing m.sessionTtlMs now
  | .clearLookup player _ => [.getPresence player]
  | .clear player record _ => clearPresenceCommands player record
  | .claim record _ now =>
    [.claim record.playerId record.shardId record.region record.sessionToken now m.sessionTtlMs]
  | .relookup player _ => [.getPresence player]

def grant (m : Matchmaker) (record : PresenceRecord) (shard : ShardInfo) (reconnect : Bool) :
    Matchmaker :=
  { m with
    grants := m.grants ++
      [{ playerId := record.playerId
         shardId := shard.id
         udpEndpoint := shard.udpEndpoint
         region := record.region
         sessionToken := record.sessionToken
         reconnect }] }

def resume (m : Matchmaker) (now : Nat) (replies : Option (List RedisReply)) :
    MatchTask → Matchmaker × Option MatchTask
  | .lookup player live =>
    match (readPresence player replies).filter fun record => !record.shardId.isEmpty with
    | none => m.claimFor player live now
    | some existing =>
      match (liveShard live existing.shardId).filter fun owner => !owner.draining with
      | some owner => (m, some (.restore existing owner now))
      | none => (m, some (.clearLookup player (some live)))
  | .restore existing owner _ => (m.grant existing owner true, none)
  | .clearLookup player live => (m, some (.clear player (readPresence player replies) live))
  | .clear player _ live => live.elim (m, none) fun live => m.claimFor player live now
  | .claim record live _ =>
    match readClaim replies with
    | .claimed =>
      match liveShard live record.shardId with
      | some chosen => (m.grant record chosen false, none)
      | none => (m, none)
    | .lost owner =>
      match liveShard live owner with
      | none => (m, none)
      | some winner => (m, some (.relookup record.playerId winner))
  | .relookup player winner =>
    -- a failed read leaves the fresh record's defaults
    let owned := (readPresence player replies).getD {}
    (m.grant { owned with playerId := player } winner true, none)

end Matchmaker
end Morton.Cluster
