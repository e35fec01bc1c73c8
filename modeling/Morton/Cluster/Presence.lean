import Morton.Cluster.Redis

/-! The presence directory: which commands each operation of the registry puts in its
pipeline, and how it reads the replies. -/
namespace Morton.Cluster
open Proto

structure PresenceRecord where
  playerId : Bytes := []
  shardId : Bytes := []
  region : Nat := 0
  sessionToken : Nat := 0
  updatedMs : Nat := 0
  deriving DecidableEq

/-- `queue_set_presence`; `now` is `wall_ms()`. -/
def setPresenceCommands (record : PresenceRecord) (ttl now : Nat) : List RedisCommand :=
  [.setPresence record.playerId record.shardId record.region record.sessionToken now,
    .expirePresence record.playerId ttl,
    .addRoster record.shardId record.playerId,
    .expireRoster record.shardId ttl]

/-- `get_presence` on the reply to `HGETALL`; a missing field reads as zero. -/
def readPresence (player : Bytes) : Option (List RedisReply) → Option PresenceRecord
  | some (.hash (some hash) :: _) =>
    some
      { playerId := player
        shardId := hash.shard
        region := hash.region
        sessionToken := hash.session.getD 0
        updatedMs := hash.updated }
  | _ => none

/-- The pipeline of `clear_presence`, after it read the record. -/
def clearPresenceCommands (player : Bytes) (record : Option PresenceRecord) : List RedisCommand :=
  match record with
  | some record =>
    if record.shardId ≠ [] then [.remRoster record.shardId player, .delPresence player]
    else [.delPresence player]
  | none => [.delPresence player]

inductive ClaimOutcome
  | claimed
  | lost (currentOwner : Bytes)
  deriving DecidableEq

/-- `claim_presence` on the reply to the script. A transport error has no owner. -/
def readClaim : Option (List RedisReply) → ClaimOutcome
  | some (.integer 1 :: _) => .claimed
  | some (.string owner :: _) => .lost owner
  | _ => .lost []

end Morton.Cluster
