import Morton.App.Fleet
import Morton.Cluster.MatchmakerSpec
import Morton.Cluster.RegistryTasks

/-! The scripts that matchmakers and shards run are the tasks they wait at: what a script returns
is what the handler goes on with. -/
namespace Morton.App
open Proto Cluster Cluster.RedisScript Cluster.ClusterRegistry

namespace Fleet
variable {r : ClusterRegistry}

/-- What `assign` adds to the grants. -/
def granted (m : Matchmaker) (result : Except Bytes SessionGrant) : List SessionGrant :=
  m.grants ++ result.toOption.toList

/-- `assign` ends with this, and with the grants that go with it. -/
def Assigned (m : Matchmaker) : Outcome Matchmaker MatchTask → List (List Bytes) →
    Except Bytes SessionGrant → Prop :=
  Ends fun after result => after.grants = granted m result

theorem liveShard_eq {live : List ShardInfo} (hids : (live.map ShardInfo.id).Nodup)
    {shard : ShardInfo} (hmem : shard ∈ live) : Matchmaker.liveShard live shard.id = some shard := by
  unfold Matchmaker.liveShard
  cases hfound : live.find? fun other => other.id == shard.id with
  | none => exact absurd (List.find?_eq_none.mp hfound shard hmem) (by simp)
  | some other =>
    have hsame : other.id = shard.id := by simpa using List.find?_some hfound
    rw [List.inj_on_of_nodup_map hids (List.mem_of_find?_eq_some hfound) hmem hsame]

/-- An error adds no grant. -/
theorem assigned_error {m before : Matchmaker} (hgrants : m.grants = before.grants)
    {outcome : Outcome Matchmaker MatchTask} (h : ∀ now, outcome now = (m, none)) (error : Bytes) :
    Assigned before outcome [] (.error error) := by
  refine ⟨rfl, fun now => ?_⟩
  rw [h]
  refine ⟨rfl, ?_⟩
  show m.grants = before.grants ++ []
  rw [hgrants, List.append_nil]

/-- A grant is recorded as it is returned. -/
theorem assigned_grant {m before : Matchmaker} (hgrants : m.grants = before.grants)
    {record : PresenceRecord} {shard : ShardInfo} {reconnect : Bool}
    {outcome : Outcome Matchmaker MatchTask}
    (h : ∀ now, outcome now = (m.grant record shard reconnect, none)) :
    Assigned before outcome []
      (.ok
        { playerId := record.playerId
          shardId := shard.id
          udpEndpoint := shard.udpEndpoint
          region := record.region
          sessionToken := record.sessionToken
          reconnect }) := by
  refine ⟨rfl, fun now => ?_⟩
  rw [h]
  refine ⟨rfl, ?_⟩
  show m.grants ++ _ = before.grants ++ _
  rw [hgrants]
  rfl

/-- `assign` from `pick_shard` on. -/
theorem assignNew_performs {m before : Matchmaker} (hgrants : m.grants = before.grants)
    (player : Bytes) {live : List ShardInfo} (hids : (live.map ShardInfo.id).Nodup) :
    Performs (redisWire r) matchBehaviour (Assigned before) (m.claimFor player live) []
      (r.assignNew m player live) := by
  unfold assignNew Matchmaker.claimFor
  cases hpick : Matchmaker.pickShard live with
  | none => exact assigned_error hgrants (fun _ => rfl) _
  | some chosen =>
    have hchosen := liveShard_eq hids (Matchmaker.pickShard_accepting hpick).1
    have hdrawn : { m with draws := m.draws + 1 }.grants = before.grants := hgrants
    dsimp only
    rw [performs_bind]
    apply claimPresence_performs
    intro now
    refine ⟨_, _, now, rfl, rfl, fun replies => ?_⟩
    dsimp only [matchBehaviour, Matchmaker.resume]
    generalize ({ m with draws := m.draws + 1 } : Matchmaker) = drawn at hdrawn
    cases readClaim replies with
    | claimed =>
      simp only [hchosen]
      exact assigned_grant hdrawn fun _ => rfl
    | lost owner =>
      dsimp only
      cases Matchmaker.liveShard live owner with
      | none => exact assigned_error hdrawn (fun _ => rfl) _
      | some winner =>
        dsimp only
        rw [performs_bind]
        apply getPresence_performs rfl
        intro replies'
        exact assigned_grant hdrawn fun _ => rfl

/-- The script `assign` runs after `live_shards` returns the grant that the matchmaker records. -/
theorem assign_performs (m : Matchmaker) (player : Bytes) {live : List ShardInfo}
    (hids : (live.map ShardInfo.id).Nodup) :
    Performs (redisWire r) matchBehaviour (Assigned m) (fun _ => m.assign player live) []
      (r.assignAmong m player live) := by
  unfold assignAmong Matchmaker.assign
  cases live.isEmpty with
  | true => exact assigned_error rfl (fun _ => rfl) _
  | false =>
    simp only [Bool.false_eq_true, if_false]
    rw [performs_bind]
    apply getPresence_performs rfl
    intro replies
    dsimp only [matchBehaviour, Matchmaker.resume]
    have hplayer : ∀ existing ∈ (readPresence player replies).filter fun record =>
        !record.shardId.isEmpty, existing.playerId = player := by
      intro existing hexisting
      have hread := (Option.filter_eq_some_iff.mp hexisting).1
      unfold readPresence at hread
      split at hread
      · cases hread
        rfl
      · cases hread
    cases hread : (readPresence player replies).filter fun record => !record.shardId.isEmpty with
    | none => exact assignNew_performs rfl player hids
    | some existing =>
      dsimp only
      cases (Matchmaker.liveShard live existing.shardId).filter fun owner => !owner.draining with
      | some owner =>
        dsimp only
        rw [performs_bind]
        apply setPresence_performs
        intro now
        refine ⟨_, _, now, rfl, rfl, fun replies' stored => ?_⟩
        rw [← hplayer existing hread]
        exact assigned_grant rfl fun _ => rfl
      | none =>
        dsimp only
        rw [performs_bind]
        apply clearPresence_performs rfl
        intro replies'
        exact ⟨_, _, rfl, rfl, fun replies'' cleared => assignNew_performs rfl player hids⟩

/-- Whatever the network and Redis do while the script runs, the matchmaker ends with the grant. -/
theorem assign_run {σ : Type} {server : RedisServer σ} (hserver : server.WellFormed)
    (hspeaks : (redisWire r).Speaks server) (weather : Nat → Weather σ) (time : Nat → Nat)
    (m : Matchmaker) (player : Bytes) {live : List ShardInfo}
    (hids : (live.map ShardInfo.id).Nodup) :
    ∃ last, Goes (redisWire r) matchBehaviour (fun _ => m.assign player live) last ∧
      ∀ now, (last now).2 = none ∧ (last now).1.grants =
        granted m (run server weather time (r.assignAmong m player live) {}).2 := by
  have hfresh : RedisClient.InStep {} [] := RedisClient.disconnect_spec {}
  obtain ⟨last, -, hgoes, -, hended⟩ :=
    (assign_performs m player hids).goes hserver hspeaks weather time (w := {}) hfresh
  exact ⟨last, hgoes, hended⟩

/-- The script of `release` leaves the matchmaker as it is. -/
theorem release_performs (m : Matchmaker) (player : Bytes) :
    Performs (redisWire r) matchBehaviour (Ends fun after _ => after = m)
      (fun _ => m.release player) [] (r.clearPresence player) := by
  apply clearPresence_performs rfl
  intro replies
  exact ⟨_, _, rfl, rfl, fun replies' cleared => ⟨rfl, fun _ => ⟨rfl, rfl⟩⟩⟩

section Shard
variable {R A : Type} [LT R] (env : ShardEnv R A)

/-- The handler goes on from here, at whatever time. -/
def GoesOn {α : Type} (next : α → Nat → WorldServer.Progress R A)
    (outcome : Outcome (WorldServer R A) Task) (queued : List (List Bytes)) (a : α) : Prop :=
  queued = [] ∧ outcome = next a

/-- `admit` for a session credential, on what `get_presence` returned. -/
def admitRecorded (w : WorldServer R A) (credential : ConnectCredential) (admittedMs : Nat)
    (record : Option PresenceRecord) (now : Nat) : WorldServer.Progress R A :=
  match record with
  | none => w.deny .badToken
  | some record =>
    if record.sessionToken ≠ credential.token then w.deny .badToken
    else if record.shardId ≠ w.config.shardId then w.deny .wrongRegion
    else w.finishAdmit env credential none record.region admittedMs now

theorem admitSession_performs (w : WorldServer R A) (credential : ConnectCredential)
    (admittedMs : Nat) :
    Performs (redisWire r) (shardBehaviour env)
      (GoesOn (admitRecorded env w credential admittedMs))
      (fun _ => (w, some (.admitSession credential admittedMs))) []
      (r.getPresence credential.playerId) := by
  apply getPresence_performs rfl
  intro replies
  exact ⟨rfl, rfl⟩

/-- `admit` for a migration credential, on what `accept_handoff` returned. -/
def admitAccepted (w : WorldServer R A) (credential : ConnectCredential) (admittedMs : Nat)
    (ticket : Option MigrationTicket) (now : Nat) : WorldServer.Progress R A :=
  match ticket with
  | none => w.deny .badToken
  | some ticket =>
    WorldServer.admitTicketed env
      { w with redeemedTickets := w.redeemedTickets.insert credential.token ticket }
      credential ticket admittedMs now

theorem admitTicket_performs (w : WorldServer R A) (credential : ConnectCredential)
    (admittedMs : Nat) :
    Performs (redisWire r) (shardBehaviour env)
      (GoesOn (admitAccepted env w credential admittedMs))
      (fun _ => (w, some (.admitTicket credential admittedMs))) []
      (r.acceptHandoff w.coordinator.config.id credential.token) := by
  unfold acceptHandoff
  rw [performs_bind]
  apply redeem_performs rfl
  intro replies
  exact ⟨rfl, rfl⟩

/-- `touch_presence` on arrival. -/
theorem touch_performs (w : WorldServer R A) (record : PresenceRecord) (now : Nat) :
    Performs (redisWire r) (shardBehaviour env) (GoesOn fun _ _ => (w, none))
      (fun _ => (w, some (.touch record now))) []
      (r.setPresence record w.coordinator.config.presenceTtlMs) := by
  apply setPresence_performs
  intro later
  exact ⟨_, _, now, rfl, rfl, fun replies stored => ⟨rfl, rfl⟩⟩

/-- The touches of `refresh_cluster`. -/
theorem heartbeat_performs (w : WorldServer R A) (records : List PresenceRecord) (now : Nat) :
    Performs (redisWire r) (shardBehaviour env) (GoesOn fun _ _ => (w.expire now, none))
      (fun _ => (w, some (.heartbeat records now))) []
      (r.touchPlayers records w.coordinator.config.presenceTtlMs) := by
  apply touchPlayers_performs rfl
  intro replies done
  exact ⟨rfl, rfl⟩

/-- `check_migrations` where a player is handed off: if the ticket fits it waits for Redis. -/
def handingOff (w : WorldServer R A) (client : Nat) (plan : HandoffPlan) (ticket : MigrationTicket)
    (rest expired : List Nat) : Outcome (WorldServer R A) Task := fun now =>
  let stamped := MigrationStore.stamp ticket now
  if (encodeMigrationTicket stamped).isEmpty then
    WorldServer.checkMigrations env now w rest expired
  else (w, some (.handoff client plan stamped now rest expired))

/-- The player is redirected exactly if the script published the ticket, and the loop goes on. -/
theorem handoff_performs (w : WorldServer R A) (client : Nat) (plan : HandoffPlan)
    (ticket : MigrationTicket) (rest expired : List Nat) :
    Performs (redisWire r) (shardBehaviour env)
      (fun outcome queued published => queued = [] ∧ ∀ now, ∃ later, outcome now =
        WorldServer.checkMigrations env later (if published then w.redirect client plan else w)
          rest expired)
      (handingOff env w client plan ticket rest expired) []
      (r.publishAndTransfer ticket w.coordinator.config.ticketTtlMs
        w.coordinator.config.presenceTtlMs) := by
  apply publishAndTransfer_performs
  · intro now hempty
    refine ⟨rfl, fun _ => ⟨now, ?_⟩⟩
    rw [handingOff, hempty]
    rfl
  · intro now hfits
    refine ⟨w, .handoff client plan (MigrationStore.stamp ticket now) now rest expired, ?_, ?_⟩
    · rw [handingOff, if_neg (by simpa using hfits)]
    · exact
        { commands := ⟨now, rfl⟩
          published := fun replies hjudged => ⟨rfl, fun later => ⟨later, by
            simp only [shardBehaviour, WorldServer.resume, hjudged, if_true]⟩⟩
          discard := fun replies hjudged => ⟨w, _, by
            funext later
            simp only [shardBehaviour, WorldServer.resume, hjudged]
            rfl, rfl, fun replies' => ⟨rfl, fun later => ⟨later, rfl⟩⟩⟩
          failed := fun replies hjudged => ⟨rfl, fun later => ⟨later, by
            simp only [shardBehaviour, WorldServer.resume, hjudged, Bool.false_eq_true, if_false]⟩⟩ }

/-- `check_migrations` has met a player who is to be handed off: where the player is, and what
`plan_handoff` makes of it before it asks Redis. -/
structure Leaving (w : WorldServer R A) (client : Nat) (player : WorldPlayer R) (target : Nat)
    (position velocity : Sim.Vec2 UInt32) (plan : HandoffPlan) (ticket : MigrationTicket) :
    Prop where
  found : w.players.lookup client = some player
  stays : player.redirecting = false
  place : ((w.world.entities.find player.entity).bind fun index =>
    (w.world.entities.position[index]?).bind fun position =>
      (w.world.entities.velocity[index]?).map fun velocity => (position, velocity)) =
        some (position, velocity)
  crossed : env.handoffTarget player.region position = some target
  foreign : w.coordinator.ownsRegion target = false
  planned : w.coordinator.planHandoff player.playerId target position velocity w.world.tick
    player.lastInputSequence =
      ({ w.coordinator with draws := w.coordinator.draws + 1 }, some (plan, ticket))

/-- The shard when it has planned the handoff. -/
def planning (w : WorldServer R A) (client : Nat) (player : WorldPlayer R) : WorldServer R A :=
  { w with
    coordinator := { w.coordinator with draws := w.coordinator.draws + 1 }
    trace := w.trace ++ [.published (w.publication player client)] }

/-- The player is redirected exactly if `plan_handoff` returned a plan, and the loop goes on. -/
theorem planHandoff_performs {w : WorldServer R A} {client target : Nat} {player : WorldPlayer R}
    {position velocity : Sim.Vec2 UInt32} {plan : HandoffPlan} {ticket : MigrationTicket}
    (h : Leaving env w client player target position velocity plan ticket)
    (rest expired : List Nat) :
    Performs (redisWire r) (shardBehaviour env)
      (fun outcome queued result => queued = [] ∧ ∀ now, ∃ later, outcome now =
        WorldServer.checkMigrations env later
          (result.elim (planning w client player) fun plan =>
            (planning w client player).redirect client plan)
          rest expired)
      (fun now => WorldServer.checkMigrations env now w (client :: rest) expired) []
      (r.planHandoff w.coordinator player.playerId target position velocity w.world.tick
        player.lastInputSequence) := by
  have hwaits : (fun now => WorldServer.checkMigrations env now w (client :: rest) expired) =
      handingOff env (planning w client player) client plan ticket rest expired := by
    funext now
    rw [WorldServer.checkMigrations]
    simp only [h.found, h.stays, h.place, h.crossed, h.foreign, h.planned, Bool.false_eq_true,
      if_false]
    rfl
  rw [hwaits, ClusterRegistry.planHandoff, h.planned]
  dsimp only
  rw [performs_bind]
  apply (handoff_performs env (planning w client player) client plan ticket rest expired).mono
  rintro outcome queued published ⟨hqueued, hgoes⟩
  cases published with
  | true => exact ⟨hqueued, hgoes⟩
  | false => exact ⟨hqueued, hgoes⟩

end Shard

end Fleet
end Morton.App
