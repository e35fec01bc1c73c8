import Morton.Cluster.Matchmaker
import Morton.Cluster.RedisScript

/-! The operations of the registry, the ticket store, the shards and the matchmaker as scripts
on one Redis client, with the commands as they are sent. Replies never slip out of step: what
an operation takes for the reply to a command is that, or an error of the transport. -/
namespace Morton.Cluster
open Proto Text RedisScript

namespace RespReply

/-- The member `str`. -/
def str : RespReply → Bytes
  | status str => str
  | error str => str
  | string str => str
  | _ => []

def isError : RespReply → Bool
  | error _ => true
  | _ => false

def ok : RespReply → Bool
  | status str => str == ascii "OK"
  | _ => false

/-- The elements of an array; none for any other type. -/
def elements : RespReply → List RespReply
  | array elements => elements
  | _ => []

def isOne : RespReply → Bool
  | integer value => value == 1
  | _ => false

end RespReply

/-- `field` -/
def field : List RespReply → Bytes → Bytes
  | key :: value :: rest, name => if key.str = name then value.str else field rest name
  | _, _ => []

def fieldU64 (hash : List RespReply) (name : Bytes) : Nat :=
  let value := field hash name
  if value = [] then 0 else strtoull value

def parseShard (id : Bytes) (hash : List RespReply) : ShardInfo :=
  { id
    udpEndpoint := field hash (ascii "udp")
    playerCount := fieldU64 hash (ascii "players") % 2 ^ 32
    capacity := fieldU64 hash (ascii "capacity") % 2 ^ 32
    draining := field hash (ascii "draining") == ascii "1" }

def kTransferScript : Bytes := ascii "
local current = redis.call('HGET', KEYS[1], 'shard')
if current and current ~= ARGV[1] then return 0 end
redis.call('HSET', KEYS[1], 'shard', ARGV[2], 'region', ARGV[3], 'updated', ARGV[4])
redis.call('PEXPIRE', KEYS[1], ARGV[5])
redis.call('SREM', KEYS[2], ARGV[6])
redis.call('SADD', KEYS[3], ARGV[6])
redis.call('PEXPIRE', KEYS[3], ARGV[5])
return 1
"

def kClaimScript : Bytes := ascii "
local current = redis.call('HGET', KEYS[1], 'shard')
if current and current ~= ARGV[1] then return current end
redis.call('HSET', KEYS[1], 'shard', ARGV[1], 'region', ARGV[2], 'session', ARGV[3], 'updated', ARGV[4])
redis.call('PEXPIRE', KEYS[1], ARGV[5])
redis.call('SADD', KEYS[2], ARGV[6])
redis.call('PEXPIRE', KEYS[2], ARGV[5])
return 1
"

/-- The loop over replies that stops at an error. -/
def noErrors : List (List Bytes) → List RespReply → RedisScript Bool
  | args :: commands, reply :: replies => do
    examine args reply
    if reply.isError then pure false else noErrors commands replies
  | _, _ => pure true

structure ClusterRegistry where
  keyPrefix : Bytes := ascii "morton"

namespace ClusterRegistry
variable (r : ClusterRegistry)

def shardKey (id : Bytes) : Bytes := r.keyPrefix ++ ascii ":shard:" ++ id

def presenceKey (id : Bytes) : Bytes := r.keyPrefix ++ ascii ":presence:" ++ id

def membersKey : Bytes := r.keyPrefix ++ ascii ":shards"

def rosterKey (id : Bytes) : Bytes := r.keyPrefix ++ ascii ":roster:" ++ id

/-- `key` of a ticket -/
def ticketKey (token : Nat) : Bytes := r.keyPrefix ++ ascii ":ticket:" ++ decimal token

/-- What `heartbeat_shard` queues. The tick time comes as `to_string` prints it. -/
def heartbeatArgs (shard : ShardInfo) (httpEndpoint tickP99Ms : Bytes) (ttl now : Nat) :
    List (List Bytes) :=
  [[ascii "HSET", r.shardKey shard.id, ascii "udp", shard.udpEndpoint, ascii "http", httpEndpoint,
      ascii "players", decimal shard.playerCount, ascii "capacity", decimal shard.capacity,
      ascii "tick_p99_ms", tickP99Ms, ascii "heartbeat", decimal now, ascii "draining",
      if shard.draining then ascii "1" else ascii "0"],
    [ascii "PEXPIRE", r.shardKey shard.id, decimal ttl],
    [ascii "SADD", r.membersKey, shard.id]]

def heartbeatShard (shard : ShardInfo) (httpEndpoint tickP99Ms : Bytes) (ttl : Nat) :
    RedisScript Bool :=
  if shard.id = [] then pure false
  else do
    let now ← wallMs
    let (ok, replies) ← pipeline (r.heartbeatArgs shard httpEndpoint tickP99Ms ttl now)
    if !ok then pure false
    else noErrors (r.heartbeatArgs shard httpEndpoint tickP99Ms ttl now) replies

def removeShard (id : Bytes) : RedisScript Bool := do
  let (ok, _) ← pipeline
    [[ascii "DEL", r.shardKey id], [ascii "SREM", r.membersKey, id], [ascii "DEL", r.rosterKey id]]
  return ok

def hashArgs (id : Bytes) : List Bytes := [ascii "HGETALL", r.shardKey id]

/-- The loop of `live_shards` over the hashes. -/
def sortHashes : List Bytes → List RespReply → RedisScript (List ShardInfo × List Bytes)
  | id :: ids, reply :: hashes => do
    examine (r.hashArgs id) reply
    let (live, dead) ← sortHashes ids hashes
    if reply.elements.isEmpty then pure (live, id :: dead)
    else pure (parseShard id reply.elements :: live, dead)
  | _, _ => pure ([], [])

/-- With the live shards comes how many were pruned. -/
def liveShards : RedisScript (List ShardInfo × Nat) := do
  let members ← command [ascii "SMEMBERS", r.membersKey]
  if members.elements.isEmpty then pure ([], 0)
  else do
    let ids := members.elements.map RespReply.str
    let (ok, hashes) ← pipeline (ids.map r.hashArgs)
    if !ok || hashes.length != ids.length then pure ([], 0)
    else do
      let (live, dead) ← r.sortHashes ids hashes
      if dead.isEmpty then pure (live, 0)
      else do
        let _ ← pipeline (dead.flatMap fun id =>
          [[ascii "SREM", r.membersKey, id], [ascii "DEL", r.rosterKey id]])
        pure (live, dead.length)

def getShard (id : Bytes) : RedisScript (Option ShardInfo) := do
  let hash ← command (r.hashArgs id)
  pure (if hash.elements.isEmpty then none else some (parseShard id hash.elements))

/-- What `queue_set_presence` queues. -/
def setPresenceArgs (record : PresenceRecord) (ttl now : Nat) : List (List Bytes) :=
  [[ascii "HSET", r.presenceKey record.playerId, ascii "shard", record.shardId, ascii "region",
      decimal record.region, ascii "session", decimal record.sessionToken, ascii "updated",
      decimal now],
    [ascii "PEXPIRE", r.presenceKey record.playerId, decimal ttl],
    [ascii "SADD", r.rosterKey record.shardId, record.playerId],
    [ascii "PEXPIRE", r.rosterKey record.shardId, decimal ttl]]

/-- `queue_set_presence`; it returns what it queued. -/
def queueSetPresence (record : PresenceRecord) (ttl : Nat) : RedisScript (List (List Bytes)) := do
  let now ← wallMs
  queueAll (r.setPresenceArgs record ttl now)
  return r.setPresenceArgs record ttl now

/-- `flush_presence`, and the end of `set_presence`, after the commands that were queued. -/
def flushPresence (queued : List (List Bytes)) : RedisScript Bool := do
  let (ok, replies) ← flush
  if !ok then pure false else noErrors queued replies

def setPresence (record : PresenceRecord) (ttl : Nat) : RedisScript Bool := do
  let queued ← r.queueSetPresence record ttl
  flushPresence queued

def getPresence (player : Bytes) : RedisScript (Option PresenceRecord) := do
  let hash ← command [ascii "HGETALL", r.presenceKey player]
  if hash.elements.isEmpty then pure none
  else
    pure (some
      { playerId := player
        shardId := field hash.elements (ascii "shard")
        region := fieldU64 hash.elements (ascii "region") % 2 ^ 32
        sessionToken := fieldU64 hash.elements (ascii "session")
        updatedMs := fieldU64 hash.elements (ascii "updated") })

def clearPresence (player : Bytes) : RedisScript Bool := do
  let record ← r.getPresence player
  let roster := match record with
    | some record =>
      if record.shardId = [] then [] else [[ascii "SREM", r.rosterKey record.shardId, player]]
    | none => []
  let (ok, _) ← pipeline (roster ++ [[ascii "DEL", r.presenceKey player]])
  return ok

/-- What `queue_transfer_presence` queues. -/
def transferArgs (player fromShard toShard : Bytes) (region ttl now : Nat) : List Bytes :=
  [ascii "EVAL", kTransferScript, ascii "3", r.presenceKey player, r.rosterKey fromShard,
    r.rosterKey toShard, fromShard, toShard, decimal region, decimal now, decimal ttl, player]

def transferPresence (player fromShard toShard : Bytes) (region ttl : Nat) : RedisScript Bool := do
  let now ← wallMs
  let (ok, replies) ← pipeline [r.transferArgs player fromShard toShard region ttl now]
  match replies with
  | [] => pure false
  | reply :: _ =>
    if !ok then pure false
    else do
      examine (r.transferArgs player fromShard toShard region ttl now) reply
      pure reply.isOne

def claimPresence (record : PresenceRecord) (ttl : Nat) : RedisScript ClaimOutcome := do
  let now ← wallMs
  let reply ← command
    [ascii "EVAL", kClaimScript, ascii "2", r.presenceKey record.playerId,
      r.rosterKey record.shardId, record.shardId, decimal record.region,
      decimal record.sessionToken, decimal now, decimal ttl, record.playerId]
  if reply.isError then pure (.lost [])
  else if reply.isOne then pure .claimed
  else pure (.lost reply.str)

def playersOnShard (id : Bytes) : RedisScript (List Bytes) := do
  let members ← command [ascii "SMEMBERS", r.rosterKey id]
  pure (members.elements.map RespReply.str)

/-- `discard` of the ticket store -/
def discard (token : Nat) : RedisScript Bool := do
  let reply ← command [ascii "DEL", r.ticketKey token]
  pure reply.isOne

/-- `redeem` of the ticket store -/
def redeem (token : Nat) : RedisScript (Option MigrationTicket) := do
  let reply ← command [ascii "GETDEL", r.ticketKey token]
  match reply with
  | .string blob => pure ((decodeMigrationTicket blob).filter fun ticket => ticket.token == token)
  | _ => pure none

/-- `publish_and_transfer` of the ticket store -/
def publishAndTransfer (ticket : MigrationTicket) (ttl presenceTtl : Nat) : RedisScript Bool := do
  let stampedAt ← wallMs
  let stamped := MigrationStore.stamp ticket stampedAt
  let blob := encodeMigrationTicket stamped
  if blob = [] then pure false
  else do
    let now ← wallMs
    let set := [ascii "SET", r.ticketKey stamped.token, blob, ascii "PX", decimal ttl, ascii "NX"]
    let transfer := r.transferArgs stamped.playerId stamped.fromShard stamped.toShard
      stamped.region presenceTtl now
    let (ok, replies) ← pipeline [set, transfer]
    match replies with
    | [first, second] =>
      if !ok then pure false
      else do
        examine set first
        if !first.ok then pure false
        else do
          examine transfer second
          if second.isOne then pure true
          else do
            let _ ← r.discard stamped.token
            pure false
    | _ => pure false

/-- `refresh` of a shard, if it is due: what its `live_shards` found -/
def refresh (due : Bool) (self : ShardInfo) (httpEndpoint tickP99Ms : Bytes) (ttl : Nat) :
    RedisScript (List ShardInfo) :=
  if !due then pure []
  else do
    let beaten ← r.heartbeatShard self httpEndpoint tickP99Ms ttl
    if !beaten then pure []
    else do
      let (members, _) ← r.liveShards
      pure members

/-- `start` of a shard -/
def startShard (self : ShardInfo) (httpEndpoint tickP99Ms : Bytes) (ttl : Nat) :
    RedisScript (List ShardInfo) := do
  let opened ← connect
  if !opened then pure [] else r.refresh true self httpEndpoint tickP99Ms ttl

/-- `stop` of a shard -/
def stopShard (id : Bytes) : RedisScript Unit := do
  let opened ← connected
  if !opened then pure ()
  else do
    let _ ← r.removeShard id
    disconnect

/-- `plan_handoff` of a shard, with the ticket it makes -/
def planHandoff (c : ShardCoordinator) (player : Bytes) (target : Nat)
    (position velocity : Sim.Vec2 UInt32) (tick lastInputSequence : Nat) :
    RedisScript (Option HandoffPlan) :=
  match (c.planHandoff player target position velocity tick lastInputSequence).2 with
  | none => pure none
  | some (plan, ticket) => do
    let published ← r.publishAndTransfer ticket c.config.ticketTtlMs c.config.presenceTtlMs
    pure (if published then some plan else none)

/-- `accept_handoff` of a shard -/
def acceptHandoff (self : Bytes) (token : Nat) : RedisScript (Option MigrationTicket) := do
  let ticket ← r.redeem token
  pure (ticket.filter fun ticket => ticket.toShard == self)

/-- The calls of `queue_touch_presence`, which returns what they queued. -/
def queueTouches (ttl : Nat) : List PresenceRecord → RedisScript (List (List Bytes))
  | [] => pure []
  | record :: rest => do
    let first ← r.queueSetPresence record ttl
    let others ← queueTouches ttl rest
    pure (first ++ others)

/-- The presence refresh of a server: its touches, and `flush_presence`. -/
def touchPlayers (records : List PresenceRecord) (ttl : Nat) : RedisScript Bool := do
  let queued ← r.queueTouches ttl records
  flushPresence queued

/-- `assign` of the matchmaker, from `pick_shard` on -/
def assignNew (m : Matchmaker) (player : Bytes) (live : List ShardInfo) :
    RedisScript (Except Bytes SessionGrant) :=
  match Matchmaker.pickShard live with
  | none => pure (.error (ascii "all shards full or draining"))
  | some chosen => do
    let record : PresenceRecord :=
      { playerId := player
        shardId := chosen.id
        region := m.claimRegion live chosen
        sessionToken := m.drawn }
    let outcome ← r.claimPresence record m.sessionTtlMs
    match outcome with
    | .claimed =>
      pure (.ok
        { playerId := player
          shardId := chosen.id
          udpEndpoint := chosen.udpEndpoint
          region := record.region
          sessionToken := record.sessionToken
          reconnect := false })
    | .lost currentOwner =>
      match Matchmaker.liveShard live currentOwner with
      | none => pure (.error (ascii "presence claim lost"))
      | some winner => do
        let owned ← r.getPresence player
        pure (.ok
          { playerId := player
            shardId := winner.id
            udpEndpoint := winner.udpEndpoint
            region := (owned.getD {}).region
            sessionToken := (owned.getD {}).sessionToken
            reconnect := true })

/-- `assign` of the matchmaker, after `live_shards` -/
def assignAmong (m : Matchmaker) (player : Bytes) (live : List ShardInfo) :
    RedisScript (Except Bytes SessionGrant) :=
  if live.isEmpty then pure (.error (ascii "no live shards"))
  else do
    let existing ← r.getPresence player
    match existing.filter fun record => !record.shardId.isEmpty with
    | none => r.assignNew m player live
    | some existing =>
      match (Matchmaker.liveShard live existing.shardId).filter fun owner => !owner.draining with
      | some owner => do
        let _ ← r.setPresence existing m.sessionTtlMs
        pure (.ok
          { playerId := player
            shardId := owner.id
            udpEndpoint := owner.udpEndpoint
            region := existing.region
            sessionToken := existing.sessionToken
            reconnect := true })
      | none => do
        let _ ← r.clearPresence player
        r.assignNew m player live

def assign (m : Matchmaker) (player : Bytes) : RedisScript (Except Bytes SessionGrant) := do
  let (live, _) ← r.liveShards
  r.assignAmong m player live

theorem noErrors_steady {commands : List (List Bytes)} {replies : List RespReply} :
    SteadyOn commands replies (noErrors commands replies) := by
  induction commands generalizing replies with
  | nil => exact steadyOn_pure _ _ true
  | cons args commands ih =>
    cases replies with
    | nil => exact steadyOn_pure _ _ true
    | cons reply replies =>
      apply steadyOn_examine
      split
      · exact steadyOn_pure _ _ false
      · exact ih

section
variable (r : ClusterRegistry)

theorem heartbeatShard_steady (shard : ShardInfo) (httpEndpoint tickP99Ms : Bytes) (ttl : Nat) :
    Steady (r.heartbeatShard shard httpEndpoint tickP99Ms ttl) := by
  unfold heartbeatShard
  split
  · exact steady_pure false
  · apply steady_wallMs.bind
    intro now
    apply steady_pipeline
    intro ok replies
    dsimp only
    split
    · exact steadyOn_pure _ _ false
    · exact noErrors_steady

theorem removeShard_steady (id : Bytes) : Steady (r.removeShard id) :=
  steady_pipeline fun ok _ => steadyOn_pure _ _ ok

theorem sortHashes_steady (ids : List Bytes) (hashes : List RespReply) :
    SteadyOn (ids.map r.hashArgs) hashes (r.sortHashes ids hashes) := by
  induction ids generalizing hashes with
  | nil => exact steadyOn_pure _ _ ([], [])
  | cons id ids ih =>
    cases hashes with
    | nil => exact steadyOn_pure _ _ ([], [])
    | cons reply hashes =>
      apply steadyOn_examine
      apply (ih hashes).bind
      intro sorted
      dsimp only
      split
      · exact steady_pure _
      · exact steady_pure _

theorem liveShards_steady : Steady r.liveShards := by
  apply (steady_command _).bind
  intro members
  split
  · exact steady_pure _
  · apply steady_pipeline
    intro ok hashes
    dsimp only
    split
    · exact steadyOn_pure _ _ _
    · apply (sortHashes_steady r _ hashes).bind
      intro sorted
      split
      · exact steady_pure _
      · exact steady_pipeline fun _ _ => steadyOn_pure _ _ _

theorem getShard_steady (id : Bytes) : Steady (r.getShard id) :=
  (steady_command _).bind fun _ => steady_pure _

theorem queueSetPresence_keeps {Right : List Bytes → RespReply → Prop} (record : PresenceRecord)
    (ttl : Nat) (queued : List (List Bytes)) :
    Keeps (fun _ left added => left = queued ++ added) Right queued
      (r.queueSetPresence record ttl) := by
  intro now
  change Keeps _ Right queued (queueAll (r.setPresenceArgs record ttl now) >>= _)
  rw [keeps_queueAll]
  exact rfl

theorem flushPresence_keeps {Right : List Bytes → RespReply → Prop} (queued : List (List Bytes)) :
    Keeps (fun _ left _ => left = []) Right queued (flushPresence queued) := by
  intro Right ok replies hreplies
  have hloop := noErrors_steady Right hreplies
  change Keeps _ Right [] (if (!ok) = true then pure false else noErrors queued replies)
  split
  · exact rfl
  · exact hloop

theorem setPresence_steady (record : PresenceRecord) (ttl : Nat) :
    Steady (r.setPresence record ttl) := by
  intro Right
  unfold setPresence
  rw [keeps_bind]
  apply (queueSetPresence_keeps r record ttl []).mono
  intro Right queued added hqueued
  rw [hqueued]
  exact flushPresence_keeps added

theorem queueTouches_keeps {Right : List Bytes → RespReply → Prop} (ttl : Nat)
    (records : List PresenceRecord) (queued : List (List Bytes)) :
    Keeps (fun _ left added => left = queued ++ added) Right queued (r.queueTouches ttl records) := by
  induction records generalizing Right queued with
  | nil => exact (List.append_nil queued).symm
  | cons record records ih =>
    unfold queueTouches
    rw [keeps_bind]
    apply (queueSetPresence_keeps r record ttl queued).mono
    intro Right left first hleft
    rw [keeps_bind]
    apply (ih left).mono
    intro Right last others hlast
    have hboth : last = queued ++ (first ++ others) := by
      rw [hlast, hleft, List.append_assoc]
    exact hboth

theorem touchPlayers_steady (records : List PresenceRecord) (ttl : Nat) :
    Steady (r.touchPlayers records ttl) := by
  intro Right
  unfold touchPlayers
  rw [keeps_bind]
  apply (queueTouches_keeps r ttl records []).mono
  intro Right queued added hqueued
  rw [hqueued]
  exact flushPresence_keeps added

theorem getPresence_steady (player : Bytes) : Steady (r.getPresence player) := by
  apply (steady_command _).bind
  intro hash
  split
  · exact steady_pure _
  · exact steady_pure _

theorem clearPresence_steady (player : Bytes) : Steady (r.clearPresence player) := by
  apply (getPresence_steady r player).bind
  intro record
  exact steady_pipeline fun ok _ => steadyOn_pure _ _ ok

theorem transferPresence_steady (player fromShard toShard : Bytes) (region ttl : Nat) :
    Steady (r.transferPresence player fromShard toShard region ttl) := by
  apply steady_wallMs.bind
  intro now
  apply steady_pipeline
  intro ok replies
  dsimp only
  split
  · exact steadyOn_pure _ _ _
  · split
    · exact steadyOn_pure _ _ _
    · intro Right hreplies
      cases hreplies with
      | cons hreply hrest => exact ⟨hreply, rfl⟩

theorem claimPresence_steady (record : PresenceRecord) (ttl : Nat) :
    Steady (r.claimPresence record ttl) := by
  apply steady_wallMs.bind
  intro now
  apply (steady_command _).bind
  intro reply
  split
  · exact steady_pure _
  · split
    · exact steady_pure _
    · exact steady_pure _

theorem playersOnShard_steady (id : Bytes) : Steady (r.playersOnShard id) :=
  (steady_command _).bind fun _ => steady_pure _

theorem discard_steady (token : Nat) : Steady (r.discard token) :=
  (steady_command _).bind fun _ => steady_pure _

theorem redeem_steady (token : Nat) : Steady (r.redeem token) := by
  apply (steady_command _).bind
  intro reply
  split
  · exact steady_pure _
  · exact steady_pure _

theorem publishAndTransfer_steady (ticket : MigrationTicket) (ttl presenceTtl : Nat) :
    Steady (r.publishAndTransfer ticket ttl presenceTtl) := by
  apply steady_wallMs.bind
  intro stampedAt
  dsimp only
  split
  · exact steady_pure _
  · apply steady_wallMs.bind
    intro now
    apply steady_pipeline
    intro ok replies
    dsimp only
    split
    · split
      · exact steadyOn_pure _ _ _
      · apply steadyOn_examine
        split
        · exact steadyOn_pure _ _ _
        · apply steadyOn_examine
          split
          · exact steadyOn_pure _ _ _
          · exact ((discard_steady r _).bind fun _ => steady_pure _).on _ _
    · exact steadyOn_pure _ _ _

theorem refresh_steady (due : Bool) (self : ShardInfo) (httpEndpoint tickP99Ms : Bytes)
    (ttl : Nat) : Steady (r.refresh due self httpEndpoint tickP99Ms ttl) := by
  unfold refresh
  split
  · exact steady_pure _
  · apply (heartbeatShard_steady r _ _ _ _).bind
    intro beaten
    split
    · exact steady_pure _
    · exact (liveShards_steady r).bind fun _ => steady_pure _

theorem startShard_steady (self : ShardInfo) (httpEndpoint tickP99Ms : Bytes) (ttl : Nat) :
    Steady (r.startShard self httpEndpoint tickP99Ms ttl) := by
  apply steady_connect.bind
  intro opened
  split
  · exact steady_pure _
  · exact refresh_steady r _ _ _ _ _

theorem stopShard_steady (id : Bytes) : Steady (r.stopShard id) := by
  apply steady_connected.bind
  intro opened
  split
  · exact steady_pure _
  · exact (removeShard_steady r id).bind fun _ => steady_disconnect

theorem planHandoff_steady (c : ShardCoordinator) (player : Bytes) (target : Nat)
    (position velocity : Sim.Vec2 UInt32) (tick lastInputSequence : Nat) :
    Steady (r.planHandoff c player target position velocity tick lastInputSequence) := by
  unfold planHandoff
  split
  · exact steady_pure _
  · exact (publishAndTransfer_steady r _ _ _).bind fun _ => steady_pure _

theorem acceptHandoff_steady (self : Bytes) (token : Nat) : Steady (r.acceptHandoff self token) :=
  (redeem_steady r token).bind fun _ => steady_pure _

theorem assignNew_steady (m : Matchmaker) (player : Bytes) (live : List ShardInfo) :
    Steady (r.assignNew m player live) := by
  unfold assignNew
  split
  · exact steady_pure _
  · apply (claimPresence_steady r _ _).bind
    intro outcome
    split
    · exact steady_pure _
    · split
      · exact steady_pure _
      · exact (getPresence_steady r player).bind fun _ => steady_pure _

theorem assign_steady (m : Matchmaker) (player : Bytes) : Steady (r.assign m player) := by
  apply (liveShards_steady r).bind
  intro found
  dsimp only
  unfold assignAmong
  split
  · exact steady_pure _
  · apply (getPresence_steady r player).bind
    intro existing
    split
    · exact assignNew_steady r m player _
    · split
      · exact (setPresence_steady r _ _).bind fun _ => steady_pure _
      · exact (clearPresence_steady r player).bind fun _ => assignNew_steady r m player _

end

/-- What a process does with its Redis client. -/
inductive Operation
  | connect
  | disconnect
  | heartbeatShard (shard : ShardInfo) (httpEndpoint tickP99Ms : Bytes) (ttl : Nat)
  | removeShard (id : Bytes)
  | liveShards
  | getShard (id : Bytes)
  | setPresence (record : PresenceRecord) (ttl : Nat)
  | getPresence (player : Bytes)
  | clearPresence (player : Bytes)
  | transferPresence (player fromShard toShard : Bytes) (region ttl : Nat)
  | claimPresence (record : PresenceRecord) (ttl : Nat)
  | playersOnShard (id : Bytes)
  | publishAndTransfer (ticket : MigrationTicket) (ttl presenceTtl : Nat)
  | redeem (token : Nat)
  | discard (token : Nat)
  | startShard (self : ShardInfo) (httpEndpoint tickP99Ms : Bytes) (ttl : Nat)
  | stopShard (id : Bytes)
  | refresh (due : Bool) (self : ShardInfo) (httpEndpoint tickP99Ms : Bytes) (ttl : Nat)
  | planHandoff (c : ShardCoordinator) (player : Bytes) (target : Nat)
      (position velocity : Sim.Vec2 UInt32) (tick lastInputSequence : Nat)
  | acceptHandoff (self : Bytes) (token : Nat)
  | touchPlayers (records : List PresenceRecord) (ttl : Nat)
  | assign (m : Matchmaker) (player : Bytes)

/-- `touch_presence`, `claim_player` and `release_player` of a shard and `shards` and `release`
of the matchmaker are calls of the registry. -/
def script (r : ClusterRegistry) : Operation → RedisScript Unit
  | .connect => do let _ ← RedisScript.connect
  | .disconnect => RedisScript.disconnect
  | .heartbeatShard shard httpEndpoint tickP99Ms ttl => do
    let _ ← r.heartbeatShard shard httpEndpoint tickP99Ms ttl
  | .removeShard id => do let _ ← r.removeShard id
  | .liveShards => do let _ ← r.liveShards
  | .getShard id => do let _ ← r.getShard id
  | .setPresence record ttl => do let _ ← r.setPresence record ttl
  | .getPresence player => do let _ ← r.getPresence player
  | .clearPresence player => do let _ ← r.clearPresence player
  | .transferPresence player fromShard toShard region ttl => do
    let _ ← r.transferPresence player fromShard toShard region ttl
  | .claimPresence record ttl => do let _ ← r.claimPresence record ttl
  | .playersOnShard id => do let _ ← r.playersOnShard id
  | .publishAndTransfer ticket ttl presenceTtl => do
    let _ ← r.publishAndTransfer ticket ttl presenceTtl
  | .redeem token => do let _ ← r.redeem token
  | .discard token => do let _ ← r.discard token
  | .startShard self httpEndpoint tickP99Ms ttl => do
    let _ ← r.startShard self httpEndpoint tickP99Ms ttl
  | .stopShard id => r.stopShard id
  | .refresh due self httpEndpoint tickP99Ms ttl => do
    let _ ← r.refresh due self httpEndpoint tickP99Ms ttl
  | .planHandoff c player target position velocity tick lastInputSequence => do
    let _ ← r.planHandoff c player target position velocity tick lastInputSequence
  | .acceptHandoff self token => do let _ ← r.acceptHandoff self token
  | .touchPlayers records ttl => do let _ ← r.touchPlayers records ttl
  | .assign m player => do let _ ← r.assign m player

/-- Some operations, one after the other. -/
def session (r : ClusterRegistry) : List Operation → RedisScript Unit
  | [] => pure ()
  | operation :: rest => do
    r.script operation
    r.session rest

theorem script_steady (r : ClusterRegistry) (operation : Operation) :
    Steady (r.script operation) := by
  cases operation with
  | connect => exact steady_connect.bind fun _ => steady_pure _
  | disconnect => exact steady_disconnect
  | heartbeatShard shard httpEndpoint tickP99Ms ttl =>
    exact (heartbeatShard_steady r _ _ _ _).bind fun _ => steady_pure _
  | removeShard id => exact (removeShard_steady r _).bind fun _ => steady_pure _
  | liveShards => exact (liveShards_steady r).bind fun _ => steady_pure _
  | getShard id => exact (getShard_steady r _).bind fun _ => steady_pure _
  | setPresence record ttl => exact (setPresence_steady r _ _).bind fun _ => steady_pure _
  | getPresence player => exact (getPresence_steady r _).bind fun _ => steady_pure _
  | clearPresence player => exact (clearPresence_steady r _).bind fun _ => steady_pure _
  | transferPresence player fromShard toShard region ttl =>
    exact (transferPresence_steady r _ _ _ _ _).bind fun _ => steady_pure _
  | claimPresence record ttl => exact (claimPresence_steady r _ _).bind fun _ => steady_pure _
  | playersOnShard id => exact (playersOnShard_steady r _).bind fun _ => steady_pure _
  | publishAndTransfer ticket ttl presenceTtl =>
    exact (publishAndTransfer_steady r _ _ _).bind fun _ => steady_pure _
  | redeem token => exact (redeem_steady r _).bind fun _ => steady_pure _
  | discard token => exact (discard_steady r _).bind fun _ => steady_pure _
  | startShard self httpEndpoint tickP99Ms ttl =>
    exact (startShard_steady r _ _ _ _).bind fun _ => steady_pure _
  | stopShard id => exact stopShard_steady r id
  | refresh due self httpEndpoint tickP99Ms ttl =>
    exact (refresh_steady r _ _ _ _ _).bind fun _ => steady_pure _
  | planHandoff c player target position velocity tick lastInputSequence =>
    exact (planHandoff_steady r _ _ _ _ _ _ _).bind fun _ => steady_pure _
  | acceptHandoff self token => exact (acceptHandoff_steady r _ _).bind fun _ => steady_pure _
  | touchPlayers records ttl => exact (touchPlayers_steady r _ _).bind fun _ => steady_pure _
  | assign m player => exact (assign_steady r _ _).bind fun _ => steady_pure _

theorem session_steady (r : ClusterRegistry) (operations : List Operation) :
    Steady (r.session operations) := by
  induction operations with
  | nil => exact steady_pure ()
  | cons operation operations ih => exact (script_steady r operation).bind fun _ => ih

/-- Every reply that any operation examines is an error of the transport, or the server's reply
to an execution, in the flush before, of the command it is taken for. -/
theorem replies_in_step {σ : Type} {server : RedisServer σ} (hserver : server.WellFormed)
    (weather : Nat → Weather σ) (time : Nat → Nat) (r : ClusterRegistry)
    (operations : List Operation) :
    let after := (run server weather time (r.session operations) {}).1
    ∀ x ∈ after.examined, (∃ error, x.reply = transportError error) ∨
      RedisClient.Answers server (after.executedIn x.flushes) x.taken x.reply := by
  intro after
  have hfresh : RedisClient.InStep {} [] := RedisClient.disconnect_spec {}
  let RightIn : Nat → List Bytes → RespReply → Prop := fun flush args reply =>
    (∃ error, reply = transportError error) ∨
      RedisClient.Answers server (after.executedIn flush) args reply
  have hright : ∀ e ∈ after.executed, RightIn e.1 e.2.2 (server.answer e.2.1 e.2.2) := by
    intro e he
    refine Or.inr ⟨e.2.1, ?_, rfl⟩
    exact List.mem_map_of_mem (List.mem_filter.mpr ⟨he, BEq.rfl⟩)
  obtain ⟨-, -, -, hexamined⟩ := run_keeps weather time hserver (w := {}) hfresh
    (session_steady r operations (RightIn 0)) hright (fun _ _ error => Or.inl ⟨error, rfl⟩)
    (fun _ h => by cases h)
  exact hexamined

end ClusterRegistry

/-- The hashes and the sets of a Redis, each under its key. -/
structure Keyspace where
  hashes : List (Bytes × List (Bytes × Bytes)) := []
  sets : List (Bytes × List Bytes) := []

namespace Keyspace

def hash (k : Keyspace) (key : Bytes) : List (Bytes × Bytes) := (k.hashes.lookup key).getD []

def members (k : Keyspace) (key : Bytes) : List Bytes := (k.sets.lookup key).getD []

def has (k : Keyspace) (key : Bytes) : Bool :=
  (k.hashes.lookup key).isSome || (k.sets.lookup key).isSome

def failure (line : Bytes) : RespReply × Bytes := (.error line, 45 :: line ++ crlf)

def count (n : Nat) : RespReply × Bytes :=
  if n < 2 ^ 63 then (.integer n, 58 :: decimal n ++ crlf) else failure (ascii "ERR overflow")

/-- An array of strings has the form of a command. -/
def strings (values : List Bytes) : RespReply × Bytes :=
  if values.length < 2 ^ 63 then (.array (values.map .string), encodeRespCommand values)
  else failure (ascii "ERR too long")

/-- The fields of `HSET`, without the values. -/
def fields : List Bytes → List Bytes
  | name :: _ :: rest => name :: fields rest
  | _ => []

/-- The replies to the commands of the shard registry. -/
def reply (k : Keyspace) : List Bytes → RespReply × Bytes
  | command :: key :: rest =>
    if command = ascii "HGETALL" then strings ((k.hash key).flatMap fun (name, value) => [name, value])
    else if command = ascii "SMEMBERS" then strings (k.members key)
    else if command = ascii "HSET" then
      count ((fields rest).countP fun name => ((k.hash key).lookup name).isNone)
    else if command = ascii "PEXPIRE" then count (if k.has key then 1 else 0)
    else if command = ascii "SADD" then
      count (rest.countP fun member => !(k.members key).contains member)
    else if command = ascii "SREM" then
      count (rest.countP fun member => (k.members key).contains member)
    else if command = ascii "DEL" then count ((key :: rest).countP k.has)
    else failure (ascii "ERR unknown command")
  | _ => failure (ascii "ERR unknown command")

def server : RedisServer Keyspace where
  answer k args := (k.reply args).1
  bytes k args := (k.reply args).2

theorem server_wellFormed : server.WellFormed := by
  let Sound := fun outcome : RespReply × Bytes =>
    Serialises (fun _ => True) [outcome.1] outcome.2
  have hfailure : ∀ line, 13 ∉ line → Sound (failure line) := fun line hline => by
    simpa [failure] using Serialises.error (not_infix_crlf hline) .done
  have hcount : ∀ n, Sound (count n) := fun n => by
    unfold count
    split
    next hn =>
      have hinteger : Serialises (fun _ => True) [.integer n] (58 :: decimal n ++ crlf ++ []) :=
        .integer (numeral_decimal n) (by omega) (by omega) .done
      simpa using hinteger
    · exact hfailure _ (by decide)
  have hstrings : ∀ values, Sound (strings values) := fun values => by
    unfold strings
    split
    next hlength =>
      have hcommand : Serialises (fun _ => True) [.array (values.map .string)]
          (encodeRespCommand values ++ []) :=
        serialises_command hlength (fun _ _ => trivial) .done
      simpa using hcommand
    · exact hfailure _ (by decide)
  intro k args
  change Sound (k.reply args)
  unfold reply
  split
  · split_ifs
    · exact hstrings _
    · exact hstrings _
    · exact hcount _
    · exact hcount 1
    · exact hcount 0
    · exact hcount _
    · exact hcount _
    · exact hcount _
    · exact hfailure _ (by decide)
  · exact hfailure _ (by decide)

end Keyspace

namespace ClusterRegistry

def shardA : ShardInfo :=
  { id := ascii "a", udpEndpoint := ascii "h:1", playerCount := 3, capacity := 9 }

/-- The registry of the shard, and of another one that has expired. -/
def registered : Keyspace where
  hashes := [(ascii "morton:shard:a", [(ascii "udp", ascii "h:1"), (ascii "players", ascii "3"),
    (ascii "capacity", ascii "9")])]
  sets := [(ascii "morton:shards", [ascii "a", ascii "b"])]

/-- Sends that stop halfway, a reply that breaks off, and a Redis that cannot be reached. -/
def storm : Nat → Weather Keyspace
  | 1 =>
    { sends := [.wrote 200, .interrupted, .failed (ascii "reset")]
      executes := (heartbeatArgs {} shardA (ascii "h:2") (ascii "1.5") 3000 7).map (Prod.mk {}) }
  | 2 =>
    { sends := [.wrote 7, .wrote 4000]
      executes := (heartbeatArgs {} shardA (ascii "h:2") (ascii "1.5") 3000 7).map
        (Prod.mk registered)
      receives := [.got 3, .interrupted, .got 100] }
  | 3 =>
    { sends := [.wrote 4000]
      executes := [(registered, [ascii "SMEMBERS", ascii "morton:shards"])]
      receives := [.got 5, .failed (ascii "timeout")] }
  | 4 =>
    { sends := [.wrote 4000]
      executes := [(registered, [ascii "SMEMBERS", ascii "morton:shards"])]
      receives := [.got 9, .got 100] }
  | 5 =>
    { sends := [.wrote 4000]
      executes := [(registered, hashArgs {} (ascii "a")), (registered, hashArgs {} (ascii "b"))]
      receives := [.got 33, .got 100] }
  | 7 => { sends := [.failed (ascii "reset")] }
  | 8 => { refused := some (ascii "refused") }
  | 9 =>
    { sends := [.wrote 4000]
      executes := [(registered, hashArgs {} (ascii "b"))]
      receives := [.got 100] }
  | 11 => { sends := [.wrote 9, .failed (ascii "reset")] }
  | 12 => { refused := some (ascii "refused") }
  | _ => {}

/-- A heartbeat whose first attempt is executed in part, a discovery that starts over after half
a reply and fails to prune, and a lookup that fails: eight replies are examined, and the last
one is the error. -/
theorem replies_in_step_storm :
    let after := (run Keyspace.server storm (fun _ => 7) (session {}
      [.heartbeatShard shardA (ascii "h:2") (ascii "1.5") 3000, .liveShards, .getShard (ascii "b"),
        .getPresence (ascii "p")]) {}).1
    after.examined.map (fun x => (x.flushes, x.taken.headD [], x.reply.isError)) =
        [(1, ascii "HSET", false), (1, ascii "PEXPIRE", false), (1, ascii "SADD", false),
          (2, ascii "SMEMBERS", false), (3, ascii "HGETALL", false), (3, ascii "HGETALL", false),
          (5, ascii "HGETALL", false), (6, ascii "HGETALL", true)] ∧
      ∀ x ∈ after.examined, (∃ error, x.reply = transportError error) ∨
        RedisClient.Answers Keyspace.server (after.executedIn x.flushes) x.taken x.reply :=
  ⟨by decide +kernel, replies_in_step Keyspace.server_wellFormed storm (fun _ => 7) {} _⟩

end ClusterRegistry
end Morton.Cluster
