import Morton.Base.Pipeline
import Morton.Base.Table
import Morton.Cluster.MigrationTicket

/-! The part of Redis the cluster shares: presence hashes, handoff tickets and rosters,
with the commands and scripts issued on them. Each command is atomic. Times to live are
not counted: a key that has one may expire between any two commands. -/
namespace Morton.Cluster
open Pipeline Proto

/-- The hash under a presence key. A transfer onto a missing key leaves `session` unset. -/
structure PresenceHash where
  shard : Bytes
  region : Nat
  session : Option Nat
  updated : Nat
  deriving DecidableEq

structure Redis where
  presence : Table Bytes PresenceHash := ∅
  tickets : Table Nat Bytes := ∅
  rosters : Bytes → List Bytes := fun _ => []

inductive RedisCommand
  /-- `SET ticket blob PX ttl NX` -/
  | setTicket (token : Nat) (blob : Bytes) (ttl : Nat)
  /-- `GETDEL ticket` -/
  | getDelTicket (token : Nat)
  /-- `DEL ticket` -/
  | delTicket (token : Nat)
  /-- `EVAL kTransferScript` -/
  | transfer (player fromShard toShard : Bytes) (region updated ttl : Nat)
  /-- `EVAL kClaimScript` -/
  | claim (player shard : Bytes) (region session updated ttl : Nat)
  /-- `HSET presence shard region session updated` -/
  | setPresence (player shard : Bytes) (region session updated : Nat)
  /-- `PEXPIRE presence ttl` -/
  | expirePresence (player : Bytes) (ttl : Nat)
  /-- `HGETALL presence` -/
  | getPresence (player : Bytes)
  /-- `DEL presence` -/
  | delPresence (player : Bytes)
  /-- `SADD roster player` -/
  | addRoster (shard player : Bytes)
  /-- `SREM roster player` -/
  | remRoster (shard player : Bytes)
  /-- `PEXPIRE roster ttl` -/
  | expireRoster (shard : Bytes) (ttl : Nat)
  deriving DecidableEq

inductive RedisReply
  | nil
  | ok
  | integer (value : Nat)
  | string (value : Bytes)
  /-- The array `HGETALL` returns; empty for a missing key. -/
  | hash (value : Option PresenceHash)
  deriving DecidableEq

namespace Redis

def addRoster (r : Redis) (shard player : Bytes) : Redis :=
  { r with rosters := fun s => if s = shard then r.rosters s ∪ [player] else r.rosters s }

def remRoster (r : Redis) (shard player : Bytes) : Redis :=
  { r with rosters := fun s => if s = shard then (r.rosters s).erase player else r.rosters s }

/-- `if current and current ~= ARGV[1]`: the record names another shard. -/
def heldElsewhere (r : Redis) (player shard : Bytes) : Bool :=
  match r.presence.lookup player with
  | none => false
  | some hash => hash.shard != shard

def transfer (r : Redis) (player fromShard toShard : Bytes) (region updated : Nat) :
    Redis × RedisReply :=
  if r.heldElsewhere player fromShard then (r, .integer 0)
  else
    let session := (r.presence.lookup player).bind PresenceHash.session
    let r := { r with
      presence := r.presence.insert player { shard := toShard, region, session, updated } }
    ((r.remRoster fromShard player).addRoster toShard player, .integer 1)

def claim (r : Redis) (player shard : Bytes) (region session updated : Nat) : Redis × RedisReply :=
  match r.presence.lookup player with
  | some hash =>
    if hash.shard ≠ shard then (r, .string hash.shard) else take r
  | none => take r
where
  take (r : Redis) : Redis × RedisReply :=
    let r := { r with
      presence := r.presence.insert player { shard, region, session := some session, updated } }
    (r.addRoster shard player, .integer 1)

def exec (r : Redis) : RedisCommand → Redis × RedisReply
  | .setTicket token blob _ =>
    match r.tickets.lookup token with
    | some _ => (r, .nil)
    | none => ({ r with tickets := r.tickets.insert token blob }, .ok)
  | .getDelTicket token =>
    match r.tickets.lookup token with
    | some blob => ({ r with tickets := r.tickets.erase token }, .string blob)
    | none => (r, .nil)
  | .delTicket token =>
    ({ r with tickets := r.tickets.erase token },
      .integer (if (r.tickets.lookup token).isSome then 1 else 0))
  | .transfer player fromShard toShard region updated _ =>
    r.transfer player fromShard toShard region updated
  | .claim player shard region session updated _ => r.claim player shard region session updated
  | .setPresence player shard region session updated =>
    ({ r with
      presence := r.presence.insert player { shard, region, session := some session, updated } },
      .integer (match r.presence.lookup player with
        | none => 4
        | some hash => if hash.session.isSome then 0 else 1))
  | .expirePresence player _ =>
    (r, .integer (if (r.presence.lookup player).isSome then 1 else 0))
  | .getPresence player => (r, .hash (r.presence.lookup player))
  | .delPresence player =>
    ({ r with presence := r.presence.erase player },
      .integer (if (r.presence.lookup player).isSome then 1 else 0))
  | .addRoster shard player =>
    (r.addRoster shard player, .integer (if player ∈ r.rosters shard then 0 else 1))
  | .remRoster shard player =>
    (r.remRoster shard player, .integer (if player ∈ r.rosters shard then 1 else 0))
  | .expireRoster shard _ => (r, .integer (if r.rosters shard = [] then 0 else 1))

@[simp] theorem addRoster_presence (r : Redis) (shard player : Bytes) :
    (r.addRoster shard player).presence = r.presence := rfl

@[simp] theorem addRoster_tickets (r : Redis) (shard player : Bytes) :
    (r.addRoster shard player).tickets = r.tickets := rfl

@[simp] theorem remRoster_presence (r : Redis) (shard player : Bytes) :
    (r.remRoster shard player).presence = r.presence := rfl

@[simp] theorem remRoster_tickets (r : Redis) (shard player : Bytes) :
    (r.remRoster shard player).tickets = r.tickets := rfl

end Redis

/-- The outcome of each attempt of one `flush`. -/
structure Transport where
  first : Attempt := .replied
  second : Attempt := .replied
  deriving DecidableEq

/-- `RedisClient::flush` on a pipeline; `none` is `return false`. -/
def redisFlush (transport : Transport) (commands : List RedisCommand) (r : Redis) :
    Redis × Option (List RedisReply) :=
  flush Redis.exec transport.first transport.second commands r

end Morton.Cluster
