import Morton.App.WorldServer
import Morton.Base.Run
import Morton.Cluster.Matchmaker

/-! The cluster: shards and matchmakers around one Redis, their commands interleaved in
any order, replies lost at any point and keys expiring at any time. Shards are known by
their id. -/
namespace Morton.App
open Proto Sim Cluster

abbrev ShardProcess (R A : Type) := Process (WorldServer R A) Task RedisCommand RedisReply

abbrev MatchProcess := Process Matchmaker MatchTask RedisCommand RedisReply

structure Fleet (R A : Type) where
  redis : Redis := {}
  shards : Bytes → ShardProcess R A
  matchmakers : Nat → MatchProcess

inductive FleetAction (A : Type)
  /-- An idle shard handles something; `resume` is not for the environment to send. -/
  | shard (id : Bytes) (action : ShardAction A)
  | shardExec (id : Bytes)
  | shardLose (id : Bytes) (now : Nat)
  | shardAnswer (id : Bytes) (now : Nat)
  | assign (matchmaker : Nat) (player : Bytes) (live : List ShardInfo)
  | release (matchmaker : Nat) (player : Bytes)
  | matchExec (matchmaker : Nat)
  | matchLose (matchmaker : Nat) (now : Nat)
  | matchAnswer (matchmaker : Nat) (now : Nat)
  | expirePresence (player : Bytes)
  | expireTicket (token : Nat)

namespace Fleet
variable {R A : Type}

def matchBehaviour : Behaviour Matchmaker MatchTask RedisCommand RedisReply :=
  { commands := Matchmaker.commands, resume := Matchmaker.resume }

def setShard (s : Fleet R A) (id : Bytes) (p : ShardProcess R A) : Fleet R A :=
  { s with shards := Function.update s.shards id p }

def setMatchmaker (s : Fleet R A) (m : Nat) (p : MatchProcess) : Fleet R A :=
  { s with matchmakers := Function.update s.matchmakers m p }

variable [LT R] [Add R] [Mul R] [Neg R] [DecidableLT R] [OfScientific R] (env : ShardEnv R A)

def shardBehaviour : Behaviour (WorldServer R A) Task RedisCommand RedisReply :=
  { commands := WorldServer.commands, resume := WorldServer.resume env }

/-- The command Redis executes at a step, if it executes one. -/
def executes (s : Fleet R A) : FleetAction A → Option RedisCommand
  | .shardExec id => (s.shards id).next
  | .matchExec m => (s.matchmakers m).next
  | _ => none

/-- A handler of an idle shard; `none` where it is not one. -/
def handle (w : WorldServer R A) : ShardAction A → Option (WorldServer.Progress R A)
  | .connect credential now => some (w.admitClient env credential now)
  | .disconnect client now => some (w.disconnect client now, none)
  | .payload client packet =>
    if client ∈ w.connections then some (w.onPayload env client packet, none) else none
  | .tick now clients roster => some (w.tick env now clients roster)
  | .refresh now roster => some (w.refreshCluster now roster)
  | .membership members =>
    some ({ w with coordinator := w.coordinator.refresh members }, none)
  | .resume _ _ => none

def step (s : Fleet R A) : FleetAction A → Fleet R A
  | .shard id action =>
    match (s.shards id).task, handle env (s.shards id).state action with
    | none, some progress => s.setShard id (Process.launch (shardBehaviour env) progress)
    | _, _ => s
  | .shardExec id =>
    let (redis, p) := (s.shards id).advance Redis.exec s.redis
    { s.setShard id p with redis }
  | .shardLose id now => s.setShard id ((s.shards id).lose (shardBehaviour env) now)
  | .shardAnswer id now => s.setShard id ((s.shards id).answer (shardBehaviour env) now)
  | .assign m player live =>
    if (s.matchmakers m).task.isSome then s
    else s.setMatchmaker m
      (Process.launch matchBehaviour ((s.matchmakers m).state.assign player live))
  | .release m player =>
    if (s.matchmakers m).task.isSome then s
    else s.setMatchmaker m (Process.launch matchBehaviour ((s.matchmakers m).state.release player))
  | .matchExec m =>
    let (redis, p) := (s.matchmakers m).advance Redis.exec s.redis
    { s.setMatchmaker m p with redis }
  | .matchLose m now => s.setMatchmaker m ((s.matchmakers m).lose matchBehaviour now)
  | .matchAnswer m now => s.setMatchmaker m ((s.matchmakers m).answer matchBehaviour now)
  | .expirePresence player =>
    { s with redis := { s.redis with presence := s.redis.presence.erase player } }
  | .expireTicket token =>
    { s with redis := { s.redis with tickets := s.redis.tickets.erase token } }

/-- Shards and matchmakers before anything has happened. -/
structure Fresh (s : Fleet R A) : Prop where
  redis : s.redis = {}
  idle : ∀ id, (s.shards id).task = none
  named : ∀ id, (s.shards id).state.config.shardId = id ∧
    (s.shards id).state.coordinator.config.id = id
  empty : ∀ id, (s.shards id).state.players = ∅ ∧ (s.shards id).state.pendingAdmits = ∅ ∧
    (s.shards id).state.redeemedTickets = ∅ ∧ (s.shards id).state.trace = [] ∧
    (s.shards id).state.coordinator.draws = 0
  matchIdle : ∀ m, (s.matchmakers m).task = none ∧ (s.matchmakers m).state.draws = 0 ∧
    (s.matchmakers m).state.grants = [] ∧ (s.matchmakers m).flight.replies = []

/-- Every shard is empty and alone, and draws 7, 8, and so on; the matchmaker draws 5. -/
def quiet : Fleet ℚ Unit :=
  { shards := fun id =>
      { state :=
          { config := { shardId := id, interest := { distancePriorityFalloff := 1 } }
            coordinator := { config := { id }, rng := fun draw => 7 + draw } } }
    matchmakers := fun _ => { state := { rng := fun _ => 5 } } }

theorem fresh_quiet : quiet.Fresh where
  redis := rfl
  idle _ := rfl
  named _ := ⟨rfl, rfl⟩
  empty _ := ⟨rfl, rfl, rfl, rfl, rfl⟩
  matchIdle _ := ⟨rfl, rfl, rfl, rfl⟩

/-- Two shards, "a" with the even regions and "b" with the odd ones. -/
def twoMembers : List ShardInfo :=
  [{ id := [97], udpEndpoint := [1], capacity := 2 },
    { id := [98], udpEndpoint := [2], capacity := 2 }]

/-- The matchmaker sends player "p" to shard "a", where it joins. -/
def arrival : List (FleetAction Unit) :=
  [.shard [97] (.membership twoMembers), .shard [98] (.membership twoMembers),
    .assign 0 [112] twoMembers, .matchExec 0, .matchAnswer 0 0, .matchExec 0, .matchAnswer 0 0,
    .shard [97] (.connect (some { token := 5, playerId := [112] }) 0), .shardExec [97],
    .shardAnswer [97] 0, .shardExec [97], .shardExec [97], .shardExec [97], .shardExec [97],
    .shardAnswer [97] 0]

/-- Shard "a" publishes the handoff of "p" to "b" and redirects it. -/
def departure : List (FleetAction Unit) :=
  [.shard [97] (.tick 0 [1] [1]), .shardExec [97], .shardExec [97], .shardAnswer [97] 0]

/-- Player "p" comes to shard "b" with the ticket. -/
def landing : List (FleetAction Unit) :=
  [.shard [98] (.connect (some { kind := .migration, token := 7, playerId := [112] }) 0),
    .shardExec [98], .shardAnswer [98] 0, .shardExec [98], .shardExec [98], .shardExec [98],
    .shardExec [98], .shardAnswer [98] 0]

end Fleet
end Morton.App
