import Morton.Cluster.Shard
import Morton.Proto.Replication
import Morton.Sim.World

/-! One shard process. A handler that waits for Redis stops at a `Task` and goes on with
`resume` when the pipeline it sent has been answered or given up; until then the shard
handles nothing else. Encoding and delivery of events are left to the connection. -/
namespace Morton.App
open Proto Sim Cluster

structure WorldServerConfig (R : Type) where
  shardId : Bytes
  interest : InterestConfig R
  capacity : Nat := 512
  reconnectGraceMs : Nat := 20000
  redirectGraceTicks : Nat := 45
  advertise : Bool := true

structure WorldPlayer (R : Type) where
  client : Nat
  playerId : Bytes
  entity : Nat
  region : Nat
  sessionToken : Nat
  lastInputSequence : Nat := 0
  ackedSnapshotTick : Nat := 0
  redirectDeadline : Nat := 0
  redirecting : Bool := false
  migratedIn : Bool := false
  replication : ReplicationState R

/-- Simulation state kept after a client drops. -/
structure GhostState where
  position : Vec2 UInt32
  velocity : Vec2 UInt32
  lastInputSequence : Nat
  region : Nat
  sessionToken : Nat
  expiresMs : Nat
  deriving DecidableEq

structure PendingAdmit where
  client : Nat
  credential : ConnectCredential
  ticket : Option MigrationTicket
  region : Nat
  expiresMs : Nat

/-- One value of `last_input_sequence` handed out, beside the sequence simulated for the
player's entity and those still waiting in its slot at that moment. -/
structure Publication where
  client : Nat
  sequence : Nat
  simulated : Option Nat
  waiting : List Nat
  deriving DecidableEq

/-- What the shard has done that others can see. -/
inductive Trace
  | published (publication : Publication)
  | redirected (client : Nat) (event : MigrateRedirectEvent)
  | joined (client : Nat) (credential : ConnectCredential) (ticket : Option MigrationTicket)
  | denied (reason : DenyReason)
  deriving DecidableEq

structure WorldServer (R A : Type) where
  config : WorldServerConfig R
  world : World UInt32 A := {}
  /-- The keys of `by_client_`. -/
  connections : Finset Nat := ∅
  coordinator : ShardCoordinator
  players : Table Nat (WorldPlayer R) := ∅
  byPlayerId : Table Bytes Nat := ∅
  ghosts : Table Bytes GhostState := ∅
  pendingAdmits : Table Nat PendingAdmit := ∅
  pendingByPlayer : Table Bytes Nat := ∅
  redeemedTickets : Table Nat MigrationTicket := ∅
  /-- A `u32` in the source: the model is for the first `2^32 - 1` connections of a shard. -/
  nextClient : Nat := 1
  lastPresenceRefreshMs : Nat := 0
  trace : List Trace := []

/-- The floating-point parts of a shard: the simulation, what a viewer sees of the world,
region geometry and spawn points. -/
structure ShardEnv (R A : Type) [LT R] where
  sim : Simulation UInt32 A
  scene : World UInt32 A → Nat → Scene R
  nth : NthElement R
  /-- `none` is `kInvalidRegion`. -/
  handoffTarget : Nat → Vec2 UInt32 → Option Nat
  spawnPoint : Nat → Nat → Vec2 UInt32

/-- A shard on which nothing moves and nobody sees anything. -/
def ShardEnv.still : ShardEnv ℚ Unit :=
  { sim :=
      { stepMovement := fun s _ => s
        quantizeInput := id
        decode := fun _ => ⟨⟨0, 0⟩, ⟨0, 0⟩⟩
        initial := ⟨⟨0, 0⟩, ⟨0, 0⟩⟩
        centered := ()
        drifterAxes := fun _ => ()
        resolveCollisions := fun _ positions => (positions, 0, 0)
        resolve_length := fun _ _ => rfl }
    scene := fun world _ => { tick := world.tick, hasViewer := false, seen := [] }
    nth := NthElement.sorting ℚ
    handoffTarget := fun _ _ => none
    spawnPoint := fun _ _ => ⟨0, 0⟩ }

/-- As `still`, but whoever is in region 0 is due in region 1. -/
def ShardEnv.eastward : ShardEnv ℚ Unit :=
  { ShardEnv.still with
    handoffTarget := fun region _ => if region = 0 then some 1 else none }

/-- Where a handler waits for Redis. -/
inductive Task
  /-- `admit`, for the reply to `get_presence` -/
  | admitSession (credential : ConnectCredential) (admittedMs : Nat)
  /-- `admit`, for the reply to `accept_handoff` -/
  | admitTicket (credential : ConnectCredential) (admittedMs : Nat)
  /-- `on_connect`, for `touch_presence` -/
  | touch (record : PresenceRecord) (now : Nat)
  /-- `check_migrations`, for the pipeline of `publish_and_transfer` -/
  | handoff (client : Nat) (plan : HandoffPlan) (stamped : MigrationTicket) (now : Nat)
      (rest expired : List Nat)
  /-- `check_migrations`, for the `DEL` of a lost handoff -/
  | discard (token : Nat) (rest expired : List Nat)
  /-- `refresh_cluster`, for `flush_presence` -/
  | heartbeat (records : List PresenceRecord) (now : Nat)

def kPendingAdmitTtlMs : Nat := 15000

def kRedeemedTicketTtlMs : Nat := 30000

def kPresenceRefreshMs : Nat := 2000

namespace WorldServer
variable {R A : Type}

/-- The state of a handler that may have to wait. -/
abbrev Progress (R A : Type) := WorldServer R A × Option Task

def record (w : WorldServer R A) (player : WorldPlayer R) : PresenceRecord :=
  { playerId := player.playerId
    shardId := w.config.shardId
    region := player.region
    sessionToken := player.sessionToken }

/-- The pipeline a task waits for. -/
def commands (w : WorldServer R A) : Task → List RedisCommand
  | .admitSession credential _ => [.getPresence credential.playerId]
  | .admitTicket credential _ => [.getDelTicket credential.token]
  | .touch record now => setPresenceCommands record w.coordinator.config.presenceTtlMs now
  | .handoff _ _ stamped now _ _ =>
    MigrationStore.publishCommands stamped (encodeMigrationTicket stamped)
      w.coordinator.config.ticketTtlMs w.coordinator.config.presenceTtlMs now
  | .discard token _ _ => [.delTicket token]
  | .heartbeat records now =>
    records.flatMap fun record =>
      setPresenceCommands record w.coordinator.config.presenceTtlMs now

/-- Keeps a ghost of a player that is not redirecting, then forgets it. -/
def onDisconnect (w : WorldServer R A) (client now : Nat) : WorldServer R A :=
  match w.players.lookup client with
  | none => w
  | some player =>
    let ghosts :=
      if player.redirecting then w.ghosts
      else
        match w.world.entities.find player.entity with
        | none => w.ghosts
        | some index =>
          match w.world.entities.position[index]?, w.world.entities.velocity[index]?,
            w.world.entities.lastInputSequence[index]? with
          | some position, some velocity, some lastInputSequence =>
            w.ghosts.insert player.playerId
              { position, velocity, lastInputSequence
                region := player.region
                sessionToken := player.sessionToken
                expiresMs := now + w.config.reconnectGraceMs }
          | _, _, _ => w.ghosts
    { w with
      ghosts
      world := w.world.despawn player.entity
      byPlayerId :=
        if w.byPlayerId.lookup player.playerId = some client then
          w.byPlayerId.erase player.playerId
        else w.byPlayerId
      players := w.players.erase client }

/-- `remove_connection`: the handler runs, then the connection is gone. -/
def disconnect (w : WorldServer R A) (client now : Nat) : WorldServer R A :=
  if client ∈ w.connections then
    let w := w.onDisconnect client now
    { w with connections := w.connections.erase client }
  else w

/-- A newer session of a player replaces the older one. -/
def replaceStale (w : WorldServer R A) (playerId : Bytes) (client now : Nat) : WorldServer R A :=
  match w.byPlayerId.lookup playerId with
  | some stale => if stale ≠ client then w.disconnect stale now else w
  | none => w

/-- Where an admitted player starts: the ticket, a ghost of the same session, or a spawn
point. The flag tells whether the ghost was used. -/
def startState (spawnPoint : Nat → Nat → Vec2 UInt32) (w : WorldServer R A)
    (admitted : PendingAdmit) (now : Nat) : Vec2 UInt32 × Vec2 UInt32 × Nat × Nat × Bool :=
  match admitted.ticket with
  | some ticket =>
    (ticket.position, ticket.velocity, ticket.lastInputSequence, admitted.region, false)
  | none =>
    match (w.ghosts.lookup admitted.credential.playerId).filter fun ghost =>
      decide (now < ghost.expiresMs) && ghost.sessionToken == admitted.credential.token with
    | some ghost => (ghost.position, ghost.velocity, ghost.lastInputSequence, ghost.region, true)
    | none => (spawnPoint admitted.region admitted.client, ⟨0, 0⟩, 0, admitted.region, false)

/-- `admit` refuses. -/
def deny (w : WorldServer R A) (reason : DenyReason) : Progress R A :=
  ({ w with trace := w.trace ++ [.denied reason] }, none)

section
variable [LT R] (env : ShardEnv R A)

/-- The rest of `on_connect`, once the stale session is gone. -/
def join (w : WorldServer R A) (client : Nat) (admitted : PendingAdmit) (now : Nat) :
    Progress R A :=
  let (position, velocity, lastSequence, region, resumed) :=
    startState env.spawnPoint w admitted now
  let (entity, world) := w.world.spawnPlayer env.sim.centered client position
  let player : WorldPlayer R :=
    { client, entity, region
      playerId := admitted.credential.playerId
      sessionToken := admitted.credential.token
      lastInputSequence := lastSequence
      migratedIn := admitted.ticket.isSome
      replication := ReplicationState.configure w.config.interest }
  let w :=
    { w with
      ghosts := if resumed then w.ghosts.erase player.playerId else w.ghosts
      world := world.adoptEntity env.sim.centered entity client position velocity lastSequence
      byPlayerId := w.byPlayerId.insert player.playerId client
      -- `emplace`: an entry that exists is kept
      players := if client ∈ w.players then w.players else w.players.insert client player
      trace := w.trace ++ [.joined client admitted.credential admitted.ticket] }
  (w, if w.config.advertise then some (.touch (w.record player) now) else none)

def onConnect (w : WorldServer R A) (client now : Nat) : Progress R A :=
  match w.pendingAdmits.lookup client with
  | none => (w.disconnect client now, none)
  | some admitted =>
    let playerId := admitted.credential.playerId
    let w :=
      { w with
        pendingAdmits := w.pendingAdmits.erase client
        pendingByPlayer := w.pendingByPlayer.erase playerId }
    (w.replaceStale playerId client now).join env client admitted now

/-- `handle_challenge_response` after `admit` returned a client id. -/
def accept (w : WorldServer R A) (client now : Nat) : Progress R A :=
  onConnect env { w with connections := insert client w.connections } client now

/-- A region the shard does not own is replaced by the first it owns. -/
def admitRegion (w : WorldServer R A) (region : Nat) : Nat :=
  if !w.coordinator.ownsRegion region && w.config.advertise then
    w.coordinator.ownedRegions.headD region
  else region

/-- The end of `admit`, once the region is known. -/
def finishAdmit (w : WorldServer R A) (credential : ConnectCredential)
    (ticket : Option MigrationTicket) (region admittedMs now : Nat) : Progress R A :=
  let client := w.nextClient
  let admitted : PendingAdmit :=
    { client, credential, ticket
      region := w.admitRegion region
      expiresMs := admittedMs + kPendingAdmitTtlMs }
  let w :=
    { w with
      nextClient := client + 1
      pendingAdmits := w.pendingAdmits.insert client admitted
      pendingByPlayer := w.pendingByPlayer.insert credential.playerId client }
  w.accept env client now

/-- A ticket in hand, cached or just redeemed; one for another player is refused. -/
def admitTicketed (w : WorldServer R A) (credential : ConnectCredential)
    (ticket : MigrationTicket) (admittedMs now : Nat) : Progress R A :=
  if ticket.playerId ≠ credential.playerId then w.deny .badToken
  else w.finishAdmit env credential (some ticket) ticket.region admittedMs now

/-- `admit` on the result of `decode_credential`, up to the first wait. -/
def admitClient (w : WorldServer R A) (credential : Option ConnectCredential) (now : Nat) :
    Progress R A :=
  match credential with
  | none => w.deny .badToken
  | some credential =>
    match ((w.pendingByPlayer.lookup credential.playerId).bind w.pendingAdmits.lookup).filter
      fun entry => decide (now < entry.expiresMs) && entry.credential.token == credential.token with
    | some entry => w.accept env entry.client now
    | none =>
      if w.config.capacity ≤ w.players.keys.card then w.deny .serverFull
      else
        match credential.kind with
        | .migration =>
          match w.redeemedTickets.lookup credential.token with
          | some ticket => w.admitTicketed env credential ticket now now
          | none =>
            -- a shard that does not advertise has no connection to Redis
            if w.config.advertise then (w, some (.admitTicket credential now))
            else w.deny .badToken
        | .session =>
          if w.config.advertise then (w, some (.admitSession credential now))
          else w.finishAdmit env credential none 0 now now

def onPayload (w : WorldServer R A) (client : Nat) (packet : Option (InputPacket A)) :
    WorldServer R A :=
  match w.players.lookup client, packet with
  | some player, some packet =>
    if player.redirecting then w
    else
      let quantize := env.sim.quantizeInput
      let world := packet.inputs.foldl
        (fun world input =>
          world.queueInput quantize client { input with axes := quantize input.axes }) w.world
      let player :=
        { player with
          lastInputSequence := packet.inputs.foldl
            (fun last input => if last < input.sequence then input.sequence else last)
            player.lastInputSequence }
      let acked := packet.ackedSnapshotTick
      let player :=
        if acked ≠ 0 ∧ acked ≠ player.ackedSnapshotTick then
          { player with
            ackedSnapshotTick := acked
            replication := player.replication.acknowledge acked }
        else player
      { w with world, players := w.players.insert client player }
  | _, _ => w

/-- What is handed out for a player now. -/
def publication (w : WorldServer R A) (player : WorldPlayer R) (client : Nat) : Publication :=
  { client
    sequence := player.lastInputSequence
    simulated := (w.world.entities.find player.entity).bind fun index =>
      w.world.entities.lastInputSequence[index]?
    waiting := ((w.world.players.lookup client).elim [] PlayerSlot.pending).map
      MoveInput.sequence }

/-- The redirected sessions whose grace is over. -/
def dropExpired (w : WorldServer R A) (now client : Nat) : WorldServer R A :=
  if client ∈ w.connections then w.disconnect client now
  else
    match w.players.lookup client with
    | none => w
    | some player =>
      { w with
        world := w.world.despawn player.entity
        byPlayerId := w.byPlayerId.erase player.playerId
        players := w.players.erase client }

/-- The loop of `check_migrations` over the clients still to be met. It stops where a
handoff waits for Redis. -/
def checkMigrations (now : Nat) : WorldServer R A → List Nat → List Nat → Progress R A
  | w, [], expired => (expired.foldl (fun w client => w.dropExpired now client) w, none)
  | w, client :: rest, expired =>
    match w.players.lookup client with
    | none => checkMigrations now w rest expired
    | some player =>
      if player.redirecting then
        checkMigrations now w rest
          (if player.redirectDeadline ≤ w.world.tick then expired ++ [client] else expired)
      else
        match (w.world.entities.find player.entity).bind fun index =>
          (w.world.entities.position[index]?).bind fun position =>
            (w.world.entities.velocity[index]?).map fun velocity => (position, velocity) with
        | none => checkMigrations now w rest expired
        | some (position, velocity) =>
          match env.handoffTarget player.region position with
          | none => checkMigrations now w rest expired
          | some target =>
            if w.coordinator.ownsRegion target then
              checkMigrations now
                { w with players := w.players.insert client { player with region := target } }
                rest expired
            else
              match w.coordinator.planHandoff player.playerId target position velocity
                w.world.tick player.lastInputSequence with
              | (coordinator, none) => checkMigrations now { w with coordinator } rest expired
              | (coordinator, some (plan, ticket)) =>
                let w :=
                  { w with
                    coordinator
                    trace := w.trace ++ [.published (w.publication player client)] }
                let stamped := MigrationStore.stamp ticket now
                if (encodeMigrationTicket stamped).isEmpty then
                  checkMigrations now w rest expired
                else (w, some (.handoff client plan stamped now rest expired))

/-- A published handoff: tell the client and stop simulating its commands. -/
def redirect (w : WorldServer R A) (client : Nat) (plan : HandoffPlan) : WorldServer R A :=
  let event : MigrateRedirectEvent :=
    { ticket := plan.token, region := plan.targetRegion, endpoint := plan.targetEndpoint
      shardId := plan.targetShard }
  match w.players.lookup client with
  | none => w
  | some player =>
    if encodeMigrateRedirect event kMaxReliableMessageSize = [] ∨ client ∉ w.connections then w
    else
      { w with
        trace := w.trace ++ [.redirected client event]
        players := w.players.insert client
          { player with
            redirecting := true
            redirectDeadline := (w.world.tick + w.config.redirectGraceTicks) % 2 ^ 32 } }

def heartbeatRecords (w : WorldServer R A) (roster : List Nat) : List PresenceRecord :=
  (roster.filterMap w.players.lookup).filterMap fun player =>
    if player.redirecting then none else some (w.record player)

/-- The timed part of `refresh_cluster`. -/
def refreshCluster (w : WorldServer R A) (now : Nat) (roster : List Nat) : Progress R A :=
  if !w.config.advertise ∨ (now + 2 ^ 64 - w.lastPresenceRefreshMs) % 2 ^ 64 < kPresenceRefreshMs
  then (w, none)
  else
    ({ w with lastPresenceRefreshMs := now },
      some (.heartbeat (w.heartbeatRecords roster) now))

/-- `expire_ghosts` and the expiry of redeemed tickets, after the heartbeat. -/
def expire (w : WorldServer R A) (now : Nat) : WorldServer R A :=
  { w with
    ghosts := w.ghosts.sift fun _ ghost => decide (now < ghost.expiresMs)
    redeemedTickets := w.redeemedTickets.sift fun _ ticket =>
      decide (now ≤ ticket.issuedMs + kRedeemedTicketTtlMs) }

/-- A handler goes on with the outcome of its pipeline; `none` is a failed `flush`. -/
def resume (w : WorldServer R A) (now : Nat) (replies : Option (List RedisReply)) :
    Task → Progress R A
  | .admitSession credential admittedMs =>
    match readPresence credential.playerId replies with
    | none => w.deny .badToken
    | some record =>
      if record.sessionToken ≠ credential.token then w.deny .badToken
      else if record.shardId ≠ w.config.shardId then w.deny .wrongRegion
      else w.finishAdmit env credential none record.region admittedMs now
  | .admitTicket credential admittedMs =>
    match (MigrationStore.readRedeem credential.token replies).filter fun ticket =>
      ticket.toShard == w.coordinator.config.id with
    | none => w.deny .badToken
    | some ticket =>
      admitTicketed env
        { w with redeemedTickets := w.redeemedTickets.insert credential.token ticket }
        credential ticket admittedMs now
  | .touch _ _ => (w, none)
  | .handoff client plan stamped _ rest expired =>
    match MigrationStore.judge replies with
    | .published => checkMigrations env now (w.redirect client plan) rest expired
    | .discard => (w, some (.discard stamped.token rest expired))
    | .failed => checkMigrations env now w rest expired
  | .discard _ rest expired => checkMigrations env now w rest expired
  | .heartbeat _ heartbeatMs => (w.expire heartbeatMs, none)

variable [Add R] [Mul R] [Neg R] [DecidableLT R] [OfScientific R]

/-- One round of the loop of `replicate`. -/
def replicateTo (w : WorldServer R A) (client : Nat) : WorldServer R A :=
  match w.players.lookup client with
  | none => w
  | some player =>
    if player.redirecting ∨ client ∉ w.connections then w
    else
      let capacity := min w.config.interest.maxSnapshotBytes (kMaxDatagramSize - 64 - 1)
      let (replication, _) := player.replication.encode env.nth (env.scene w.world player.entity)
        player.entity player.lastInputSequence (fun _ => 0) capacity
      { w with
        players := w.players.insert client { player with replication }
        trace := w.trace ++ [.published (w.publication player client)] }

/-- A tick after `receive`: `clients` and `roster` are the orders in which the loops meet
the simulated and the connected players. -/
def tick (w : WorldServer R A) (now : Nat) (clients roster : List Nat) : Progress R A :=
  let w := { w with world := w.world.step env.sim clients }
  let w := roster.foldl (replicateTo env) w
  if w.config.advertise then checkMigrations env now w roster [] else (w, none)

end
end WorldServer

/-- What happens to a shard, one handler at a time. -/
inductive ShardAction (A : Type)
  /-- A challenge was answered; the credential is what `decode_credential` made of it. -/
  | connect (credential : Option ConnectCredential) (now : Nat)
  /-- A connection timed out or its peer left. -/
  | disconnect (client now : Nat)
  /-- An input packet of a connection, as `decode_input_packet` read it. -/
  | payload (client : Nat) (packet : Option (InputPacket A))
  | tick (now : Nat) (clients roster : List Nat)
  | refresh (now : Nat) (roster : List Nat)
  | membership (members : List ShardInfo)
  /-- The awaited pipeline was answered, or given up. -/
  | resume (replies : Option (List RedisReply)) (now : Nat)

/-- A shard and the task its handler waits for. -/
structure Shard (R A : Type) where
  server : WorldServer R A
  task : Option Task := none

namespace Shard
variable {R A : Type} [LT R] [Add R] [Mul R] [Neg R] [DecidableLT R] [OfScientific R]
  (env : ShardEnv R A)

def ofProgress (p : WorldServer.Progress R A) : Shard R A := ⟨p.1, p.2⟩

/-- A handler starts only when none is waiting. -/
def step (s : Shard R A) (action : ShardAction A) : Shard R A :=
  match s.task, action with
  | some task, .resume replies now => ofProgress (s.server.resume env now replies task)
  | none, .connect credential now => ofProgress (s.server.admitClient env credential now)
  | none, .disconnect client now => ⟨s.server.disconnect client now, none⟩
  | none, .payload client packet =>
    if client ∈ s.server.connections then ⟨s.server.onPayload env client packet, none⟩ else s
  | none, .tick now clients roster => ofProgress (s.server.tick env now clients roster)
  | none, .refresh now roster => ofProgress (s.server.refreshCluster now roster)
  | none, .membership members =>
    ⟨{ s.server with coordinator := s.server.coordinator.refresh members }, none⟩
  | _, _ => s

/-- A shard after `start`: drifters are there, players are not. -/
def start (config : WorldServerConfig R) (coordinator : ShardCoordinator)
    (drifters : List (Vec2 UInt32)) : Shard R A :=
  { server :=
      { config, coordinator
        world := drifters.foldl (fun world position => (world.spawnDrifter position).2) {} } }

end Shard
end Morton.App
