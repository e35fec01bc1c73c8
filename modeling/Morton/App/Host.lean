import Mathlib.Data.Finset.Sort
import Morton.App.Bookkeeping
import Morton.Net.ClientIndex

/-! The shard process with its connections: `ConnectionServer` calls the handlers of
`WorldServer`, which disconnects clients in turn. While a handler waits for Redis no datagram
is read. -/
namespace Morton.App
open Proto Sim Cluster Net

/-- A correct challenge response on which `on_admit_` has not decided yet. -/
structure Handshake where
  sender : Address
  pending : PendingHandshake
  xorSalt : Nat
  now : Nat

structure Host (R A : Type) where
  net : ConnectionServer
  shard : Shard R A
  handshake : Option Handshake := none

inductive HostAction (A : Type)
  /-- One round of the loop of `receive`. -/
  | datagram (sender : Address) (data : List UInt8) (now nowMs : Nat)
  | expirePending (now : Nat)
  | timeoutConnections (now nowMs : Nat) (order : List Address)
  | sendPayload (address : Address) (data : List UInt8) (now : Nat)
  | queueReliable (address : Address) (channel : UInt8) (data : List UInt8)
  | flush (now : Nat) (order : List Address)
  | tick (now : Nat) (clients roster : List Nat)
  | refresh (now : Nat) (roster : List Nat)
  | membership (members : List ShardInfo)
  /-- The pipeline a handler waits for was answered, or given up. -/
  | answered (replies : Option (List RedisReply)) (now : Nat)

/-- The reason of the last refusal. -/
def WorldServer.denial {R A : Type} (w : WorldServer R A) : DenyReason :=
  match w.trace.getLast? with
  | some (.denied reason) => reason
  | _ => .badToken

namespace Host
variable {R A : Type}

/-- What a handler of the shard does to the connections: clients it dropped are disconnected,
and a handshake it decided on is completed. The acceptance is sent at once, though the source
sends it when `on_connect` has touched the presence record. -/
def relay (h : Host R A) (shard : Shard R A) : Host R A :=
  let gone := h.shard.server.connections \ shard.server.connections
  let net := gone.sort.foldl ConnectionServer.disconnect h.net
  match h.handshake with
  | none => { h with net, shard }
  | some handshake =>
    match (shard.server.connections \ h.shard.server.connections).sort with
    | client :: _ =>
      let entity := ((shard.server.players.lookup client).map WorldPlayer.entity).getD 0
      { net := net.openConnection handshake.sender handshake.pending handshake.xorSalt client
          entity handshake.now
        shard }
    | [] =>
      if (shard.task.bind Task.credential).isSome then { h with net, shard }
      else
        { net := ConnectionServer.sendDenied
            { net with pending := net.pending.erase handshake.sender } handshake.sender
            shard.server.denial
          shard }

section
variable [LT R] [Add R] [Mul R] [Neg R] [DecidableLT R] [OfScientific R]
  (env : ShardEnv R A) (axis : AxisQuantizer A)

/-- `handle_challenge_response` with `on_admit_` and `on_connect_` of the shard. -/
def handleChallengeResponse (h : Host R A) (sender : Address) (body : List UInt8)
    (now nowMs : Nat) : Host R A :=
  let (xorSalt, r) := readSalt body
  if r.overflow = true then h
  else
    match h.net.connections.lookup sender with
    | some existing =>
      if existing.salt = xorSalt then { h with net := h.net.sendAccepted existing } else h
    | none =>
      match h.net.pending.lookup sender with
      | none => h
      | some pending =>
        if pending.clientSalt ^^^ pending.serverSalt ≠ xorSalt then h
        else
          -- an id is drawn even though the handler brings its own
          let net := { h.net with nextClientId := h.net.nextClientId + 1 }
          relay { h with net, handshake := some { sender, pending, xorSalt, now } }
            (h.shard.step env (.connect (decodeCredential pending.token) nowMs))

/-- `handle_payload` with `on_payload_` of the shard. -/
def handlePayload (h : Host R A) (sender : Address) (body : List UInt8) (now : Nat) : Host R A :=
  match h.net.handlePayload sender body now with
  | (net, none) => { h with net }
  | (net, some (connection, payload, _)) =>
    if payload = [] then { h with net }
    else
      relay { h with net }
        (h.shard.step env (.payload connection.clientId (decodeInputPacket axis payload)))

/-- `remove_connection` with `on_disconnect_` of the shard. -/
def removeConnection (nowMs : Nat) (h : Host R A) (address : Address) : Host R A :=
  match h.net.connections.lookup address with
  | none => h
  | some connection =>
    { h with
      net := h.net.removeConnection address
      shard := h.shard.step env (.disconnect connection.clientId nowMs) }

def handleDisconnect (h : Host R A) (sender : Address) (body : List UInt8) (nowMs : Nat) :
    Host R A :=
  match h.net.connections.lookup sender with
  | none => h
  | some connection =>
    if connection.salt = (readSalt body).1 then h.removeConnection env nowMs sender else h

def receiveDatagram (h : Host R A) (sender : Address) (data : List UInt8) (now nowMs : Nat) :
    Host R A :=
  let body := data.drop kHeaderBytes
  match readHeader data with
  | some .connectionRequest => { h with net := h.net.handleConnectionRequest sender body now }
  | some .challengeResponse => h.handleChallengeResponse env sender body now nowMs
  | some .payload => h.handlePayload env axis sender body now
  | some .disconnect => h.handleDisconnect env sender body nowMs
  | _ => h

def timeoutConnections (h : Host R A) (now nowMs : Nat) (order : List Address) : Host R A :=
  let expired := order.filter fun address =>
    (h.net.connections.lookup address).any fun connection =>
      decide (h.net.config.timeoutUs < elapsed now connection.lastReceiveUs)
  expired.foldl (removeConnection env nowMs) h

def step (h : Host R A) (action : HostAction A) : Host R A :=
  match h.shard.task, action with
  | none, .datagram sender data now nowMs => h.receiveDatagram env axis sender data now nowMs
  | none, .expirePending now => { h with net := h.net.expirePending now }
  | none, .timeoutConnections now nowMs order => h.timeoutConnections env now nowMs order
  -- snapshots and events go out between the waits of a tick
  | _, .sendPayload address data now => { h with net := h.net.sendPayload address data now }
  | _, .queueReliable address channel data =>
    { h with net := h.net.queueReliable address channel data }
  | none, .flush now order => { h with net := h.net.flush now order }
  | none, .tick now clients roster => h.relay (h.shard.step env (.tick now clients roster))
  | none, .refresh now roster => h.relay (h.shard.step env (.refresh now roster))
  | none, .membership members => h.relay (h.shard.step env (.membership members))
  | some _, .answered replies now => h.relay (h.shard.step env (.resume replies now))
  | _, _ => h

end

/-- A process after `start`. -/
def start (netConfig : ServerConfig) (rng : Nat → Nat) (config : WorldServerConfig R)
    (coordinator : ShardCoordinator) (drifters : List (Vec2 UInt32)) : Host R A :=
  { net := ConnectionServer.start netConfig rng
    shard := Shard.start config coordinator drifters }

/-- The tables of the process agree. -/
structure Consistent (h : Host R A) : Prop where
  booked : h.shard.Booked
  indexed : h.net.Indexed
  shared : h.net.byClient.keys = h.shard.server.connections
  waiting : ∀ handshake, h.handshake = some handshake →
    h.net.connections.lookup handshake.sender = none ∧
      ∃ task credential, h.shard.task = some task ∧ task.credential = some credential
  asked : ∀ task credential, h.shard.task = some task → task.credential = some credential →
    h.handshake.isSome = true

/-- Steps of the connections that keep them all. -/
theorem Consistent.keeps {h : Host R A} (hconsistent : h.Consistent) {net : ConnectionServer}
    (hkeeps : ConnectionServer.Keeps h.net net) : Consistent { h with net } := by
  refine ⟨hconsistent.booked, hconsistent.indexed.keeps hkeeps, ?_, fun handshake hsome => ?_,
    hconsistent.asked⟩
  · show net.byClient.keys = _
    rw [hkeeps.byClient, hconsistent.shared]
  · obtain ⟨hnone, htask⟩ := hconsistent.waiting handshake hsome
    exact ⟨hkeeps.lookup_none hnone, htask⟩

/-- No handshake is open while no handler waits. -/
theorem Consistent.idle {h : Host R A} (hconsistent : h.Consistent) (htask : h.shard.task = none) :
    h.handshake = none := by
  cases hhandshake : h.handshake with
  | none => rfl
  | some handshake =>
    obtain ⟨-, task, credential, hwaits, -⟩ := hconsistent.waiting handshake hhandshake
    cases htask.symm.trans hwaits

/-- The connections after a handler, with those it dropped taken out. -/
theorem indexed_gone {h : Host R A} (hindexed : h.net.Indexed)
    (hshared : h.net.byClient.keys = h.shard.server.connections) (shard : Shard R A) :
    let gone := h.shard.server.connections \ shard.server.connections
    let net := gone.sort.foldl ConnectionServer.disconnect h.net
    net.Indexed ∧ net.byClient.keys = h.shard.server.connections ∩ shard.server.connections := by
  obtain ⟨hall, hkeys⟩ := hindexed.disconnect_all
    (h.shard.server.connections \ shard.server.connections).sort
  refine ⟨hall, ?_⟩
  rw [hkeys, hshared, Finset.sort_toFinset, sdiff_sdiff_right_self]
  rfl

section
variable [LT R] [Add R] [Mul R] [Neg R] [DecidableLT R] [OfScientific R]
  (env : ShardEnv R A) (axis : AxisQuantizer A)

/-- A handler of the shard leaves the tables in agreement, if a handshake is open whenever it
may let somebody in. -/
theorem consistent_relay {h : Host R A} (hbooked : h.shard.Booked) (hindexed : h.net.Indexed)
    (hshared : h.net.byClient.keys = h.shard.server.connections)
    (hsender : ∀ handshake, h.handshake = some handshake →
      h.net.connections.lookup handshake.sender = none) {action : ShardAction A}
    (hopen : h.shard.Admitting action → h.handshake.isSome = true)
    (hasks : ∀ task credential, (h.shard.step env action).task = some task →
      task.credential = some credential → h.handshake.isSome = true) :
    (h.relay (h.shard.step env action)).Consistent := by
  have hbooked' := Shard.booked_step env hbooked action
  have hmoves := Shard.moves_step env hbooked action
  obtain ⟨hgone, hkeys⟩ := indexed_gone hindexed hshared (h.shard.step env action)
  generalize h.shard.step env action = shard at *
  unfold relay
  dsimp only at hgone hkeys ⊢
  cases hhandshake : h.handshake with
  | none =>
    rw [hhandshake] at hasks hopen
    cases hmoves with
    | stays hstay =>
      refine ⟨hbooked', hgone, ?_, fun handshake hsome => ?_, fun task credential ht hc => ?_⟩
      · exact hkeys.trans (Finset.inter_eq_right.mpr hstay)
      · cases hsome
      · cases hasks task credential ht hc
    | joins hadmitting => cases hopen hadmitting
  | some handshake =>
    have hnone := ConnectionServer.disconnect_all_none (hsender handshake hhandshake)
      (h.shard.server.connections \ shard.server.connections).sort
    dsimp only
    cases hmoves with
    | stays hstay =>
      have hempty : shard.server.connections \ h.shard.server.connections = ∅ :=
        Finset.sdiff_eq_empty_iff_subset.mpr hstay
      rw [Finset.inter_eq_right.mpr hstay] at hkeys
      rw [hempty, Finset.sort_empty]
      dsimp only
      split
      · rename_i hwaits
        obtain ⟨credential, hcredential⟩ := Option.isSome_iff_exists.mp hwaits
        obtain ⟨task, htask, hcredential⟩ := Option.bind_eq_some_iff.mp hcredential
        refine ⟨hbooked', hgone, hkeys, fun other hsome => ?_, fun _ _ _ _ => rfl⟩
        cases hsome
        exact ⟨hnone, task, credential, htask, hcredential⟩
      · rename_i hdecided
        refine ⟨hbooked', hgone.keeps (ConnectionServer.keeps_of_tables rfl rfl), hkeys,
          fun other hsome => ?_, fun task credential htask hcredential => ?_⟩
        · cases hsome
        · exact absurd (Option.isSome_iff_exists.mpr
            ⟨credential, Option.bind_eq_some_iff.mpr ⟨task, htask, hcredential⟩⟩) hdecided
    | joins hadmitting hnew hsubset hdone =>
      have hnewcomer := hbooked.newcomer
      have hsingle : shard.server.connections \ h.shard.server.connections =
          {h.shard.server.nextClient} := by
        ext client
        rw [Finset.mem_sdiff, Finset.mem_singleton]
        constructor
        · rintro ⟨hthere, hnew⟩
          exact (Finset.mem_insert.mp (hsubset hthere)).resolve_right hnew
        · rintro rfl
          exact ⟨hnew, hnewcomer⟩
      rw [hsingle, Finset.sort_singleton]
      dsimp only
      generalize (h.shard.server.connections \ shard.server.connections).sort.foldl
        ConnectionServer.disconnect h.net = net at hgone hkeys hnone ⊢
      have hclient : net.byClient.lookup h.shard.server.nextClient = none := by
        refine Finmap.lookup_eq_none.mpr fun hthere => hnewcomer ?_
        rw [← Finmap.mem_keys, hkeys] at hthere
        exact (Finset.mem_inter.mp hthere).1
      obtain ⟨hopened, hclients⟩ := hgone.openConnection hnone hclient handshake.pending
        handshake.xorSalt
        (((shard.server.players.lookup h.shard.server.nextClient).map WorldPlayer.entity).getD 0)
        handshake.now
      refine ⟨hbooked', hopened, ?_, fun other hsome => ?_, fun task credential htask hcredential => ?_⟩
      · dsimp only
        rw [hclients, Table.keys_insert, hkeys]
        ext client
        rw [Finset.mem_insert, Finset.mem_inter]
        constructor
        · rintro (rfl | ⟨-, hthere⟩)
          · exact hnew
          · exact hthere
        · intro hthere
          exact (Finset.mem_insert.mp (hsubset hthere)).imp_right fun hold => ⟨hold, hthere⟩
      · cases hsome
      · cases (hdone task htask).symm.trans hcredential

theorem Consistent.relay {h : Host R A} (hconsistent : h.Consistent) {action : ShardAction A}
    (hconnect : ∀ credential now, action ≠ .connect credential now) :
    (h.relay (h.shard.step env action)).Consistent := by
  refine consistent_relay env hconsistent.booked hconsistent.indexed hconsistent.shared
    (fun handshake hsome => (hconsistent.waiting handshake hsome).1) (fun hadmitting => ?_)
    fun task credential htask hcredential => ?_
  · rcases hadmitting with ⟨-, credential, now, rfl⟩ | ⟨task, credential, -, -, htask, hasks, -⟩
    · exact absurd rfl (hconnect credential now)
    · exact hconsistent.asked task credential htask hasks
  · rcases Shard.asks_step env hconsistent.booked action htask hcredential with
      hsame | ⟨-, offered, now, rfl⟩
    · rw [hsame] at htask
      exact hconsistent.asked task credential htask hcredential
    · exact absurd rfl (hconnect offered now)

theorem consistent_removeConnection {h : Host R A} (hconsistent : h.Consistent)
    (htask : h.shard.task = none) (nowMs : Nat) (address : Address) :
    (h.removeConnection env nowMs address).Consistent ∧
    (h.removeConnection env nowMs address).shard.task = none := by
  unfold removeConnection
  cases hconnection : h.net.connections.lookup address with
  | none => exact ⟨hconsistent, htask⟩
  | some c =>
    obtain ⟨hindexed, hclients⟩ := hconsistent.indexed.removeConnection hconnection
    have hbooked := Shard.booked_step env hconsistent.booked (.disconnect c.clientId nowMs)
    have hidle : (h.shard.step env (.disconnect c.clientId nowMs)).task = none := by
      simp only [Shard.step, htask]
    refine ⟨⟨hbooked, hindexed, ?_, fun handshake hsome => ?_, fun task credential ht => ?_⟩, hidle⟩
    · dsimp only
      rw [hclients, ConnectionServer.keys_erase, hconsistent.shared]
      simp only [Shard.step, htask, WorldServer.connections_disconnect]
    · cases (hconsistent.idle htask).symm.trans hsome
    · cases hidle.symm.trans ht

theorem consistent_timeoutConnections {h : Host R A} (hconsistent : h.Consistent)
    (htask : h.shard.task = none) (now nowMs : Nat) (order : List Address) :
    (h.timeoutConnections env now nowMs order).Consistent := by
  unfold timeoutConnections
  dsimp only
  generalize order.filter _ = expired
  induction expired generalizing h with
  | nil => exact hconsistent
  | cons address expired ih =>
    obtain ⟨hnext, hidle⟩ := consistent_removeConnection env hconsistent htask nowMs address
    exact ih hnext hidle

theorem consistent_handleChallengeResponse {h : Host R A} (hconsistent : h.Consistent)
    (sender : Address) (body : List UInt8) (now nowMs : Nat) :
    (h.handleChallengeResponse env sender body now nowMs).Consistent := by
  unfold handleChallengeResponse
  dsimp only
  split
  · exact hconsistent
  · split
    · split
      · exact hconsistent.keeps (ConnectionServer.keeps_of_tables rfl rfl)
      · exact hconsistent
    · rename_i hsender
      split
      · exact hconsistent
      · split
        · exact hconsistent
        · apply consistent_relay env
          · exact hconsistent.booked
          · exact hconsistent.indexed.keeps (ConnectionServer.keeps_of_tables rfl rfl)
          · exact hconsistent.shared
          · intro handshake hsome
            cases hsome
            exact hsender
          · exact fun _ => rfl
          · exact fun _ _ _ _ => rfl

theorem consistent_handlePayload {h : Host R A} (hconsistent : h.Consistent) (sender : Address)
    (body : List UInt8) (now : Nat) : (h.handlePayload env axis sender body now).Consistent := by
  have hkeeps := h.net.keeps_handlePayload sender body now
  unfold handlePayload
  split
  · rename_i net hnet
    rw [hnet] at hkeeps
    exact hconsistent.keeps hkeeps
  · rename_i net connection payload _ hnet
    rw [hnet] at hkeeps
    split
    · exact hconsistent.keeps hkeeps
    · exact Consistent.relay env (hconsistent.keeps hkeeps) (by simp)

theorem consistent_receiveDatagram {h : Host R A} (hconsistent : h.Consistent)
    (htask : h.shard.task = none) (sender : Address) (data : List UInt8) (now nowMs : Nat) :
    (h.receiveDatagram env axis sender data now nowMs).Consistent := by
  unfold receiveDatagram
  dsimp only
  split
  · exact hconsistent.keeps (h.net.keeps_handleConnectionRequest sender _ now)
  · exact consistent_handleChallengeResponse env hconsistent sender _ now nowMs
  · exact consistent_handlePayload env axis hconsistent sender _ now
  · unfold handleDisconnect
    split
    · exact hconsistent
    · split
      · exact (consistent_removeConnection env hconsistent htask nowMs sender).1
      · exact hconsistent
  · exact hconsistent

theorem consistent_step {h : Host R A} (hconsistent : h.Consistent) (action : HostAction A) :
    (h.step env axis action).Consistent := by
  unfold step
  split
  · exact consistent_receiveDatagram env axis hconsistent ‹_› _ _ _ _
  · exact hconsistent.keeps (ConnectionServer.keeps_of_tables rfl rfl)
  · exact consistent_timeoutConnections env hconsistent ‹_› _ _ _
  · exact hconsistent.keeps (h.net.keeps_sendPayload _ _ _)
  · exact hconsistent.keeps (h.net.keeps_queueReliable _ _ _)
  · exact hconsistent.keeps (h.net.keeps_flush _ _)
  · exact hconsistent.relay env (by simp)
  · exact hconsistent.relay env (by simp)
  · exact hconsistent.relay env (by simp)
  · exact hconsistent.relay env (by simp)
  · exact hconsistent

end

theorem consistent_start (netConfig : ServerConfig) (rng : Nat → Nat) (config : WorldServerConfig R)
    (coordinator : ShardCoordinator) (drifters : List (Vec2 UInt32)) :
    (start netConfig rng config coordinator drifters : Host R A).Consistent := by
  refine ⟨Shard.booked_start config coordinator drifters, ⟨fun a c h => ?_, fun a c h => ?_,
    fun client a h => ?_⟩, rfl, fun handshake h => ?_, fun task credential h => ?_⟩
  · cases h
  · cases h
  · cases h
  · cases h
  · cases h

/-- What the five tables of three objects have in common. -/
structure Books (h : Host R A) : Prop where
  /-- `players_`, `by_client_` and `connections_` name the same clients. -/
  clients : h.net.byClient.keys = h.shard.server.players.keys
  connections : ∀ client, client ∈ h.shard.server.players.keys ↔
    ∃ address connection, h.net.connections.lookup address = some connection ∧
      connection.clientId = client
  /-- `by_player_id_` leads from the ids of the players to their clients, and nowhere else. -/
  named : ∀ id client, h.shard.server.byPlayerId.lookup id = some client ↔
    ∃ player, h.shard.server.players.lookup client = some player ∧ player.playerId = id
  alone : ∀ client client' player player', h.shard.server.players.lookup client = some player →
    h.shard.server.players.lookup client' = some player' → player.playerId = player'.playerId →
    client = client'
  entities : ∀ client player, h.shard.server.players.lookup client = some player →
    h.shard.server.world.entities.ownerOf player.entity = some client
  simulated : h.shard.server.world.players.keys = h.shard.server.players.keys
  capacity : h.shard.server.players.keys.card ≤ h.shard.server.config.capacity
  admits : h.shard.server.pendingAdmits = ∅ ∧ h.shard.server.pendingByPlayer = ∅

theorem Consistent.books {h : Host R A} (hconsistent : h.Consistent) : h.Books := by
  have hbooked := hconsistent.booked
  have hnamed : ∀ id client, h.shard.server.byPlayerId.lookup id = some client ↔
      ∃ player, h.shard.server.players.lookup client = some player ∧ player.playerId = id := by
    intro id client
    constructor
    · exact hbooked.kept.indexed id client
    · rintro ⟨player, hplayer, rfl⟩
      exact (hbooked.tidy.indexed client player hplayer).1
  have hslot : ∀ client player, h.shard.server.players.lookup client = some player →
      ∃ slot, h.shard.server.world.players.lookup client = some slot ∧
        slot.entity = player.entity := by
    intro client player hplayer
    obtain ⟨slot, hslot, hseat⟩ :=
      Option.map_eq_some_iff.mp (hbooked.seated.seat client player hplayer)
    exact ⟨slot, hslot, congrArg Prod.fst hseat⟩
  have hclients := hconsistent.shared.trans hbooked.connections_eq
  refine ⟨hclients, fun client => ?_, hnamed, fun client client' player player' hp hp' hsame => ?_,
    fun client player hplayer => ?_, ?_, hbooked.kept.capacity,
    hbooked.tidy.pending, hbooked.kept.answered⟩
  · rw [← hclients, Table.mem_keys_iff]
    constructor
    · rintro ⟨address, haddress⟩
      obtain ⟨c, hc, hid⟩ := hconsistent.indexed.backward client address haddress
      exact ⟨address, c, hc, hid⟩
    · rintro ⟨address, c, hc, rfl⟩
      exact ⟨address, hconsistent.indexed.forward address c hc⟩
  · have hfirst := (hnamed _ client).mpr ⟨player, hp, rfl⟩
    have hsecond := (hnamed _ client').mpr ⟨player', hp', hsame.symm⟩
    exact Option.some.inj (hfirst.symm.trans hsecond)
  · obtain ⟨slot, hslot, hentity⟩ := hslot client player hplayer
    exact hentity ▸ (hbooked.seated.world.slot client slot hslot).1
  · ext client
    rw [Table.mem_keys_iff, Table.mem_keys_iff]
    constructor
    · rintro ⟨slot, hslot⟩
      exact hbooked.kept.simulated client slot hslot
    · rintro ⟨player, hplayer⟩
      obtain ⟨slot, hslot, -⟩ := hslot client player hplayer
      exact ⟨slot, hslot⟩

section
variable [LT R] [Add R] [Mul R] [Neg R] [DecidableLT R] [OfScientific R]
  (env : ShardEnv R A) (axis : AxisQuantizer A)

/-- The books are right in every state the process reaches, whatever datagrams, ticks,
timeouts and answers of Redis there are, and also while a handler waits. -/
theorem books_agree (netConfig : ServerConfig) (rng : Nat → Nat) (config : WorldServerConfig R)
    (coordinator : ShardCoordinator) (drifters : List (Vec2 UInt32))
    (actions : List (HostAction A)) :
    (Run.run (step env axis) (start netConfig rng config coordinator drifters) actions).Books := by
  have hconsistent := Run.invariant_always Consistent
    (fun h action hconsistent => consistent_step env axis hconsistent action)
    (consistent_start netConfig rng config coordinator drifters) actions
  exact hconsistent.books

end

/-- Player "p" asks and answers the challenge. -/
def greeting : List (HostAction Unit) :=
  [.datagram { ip := 1, port := 1 }
      ([0x01, 0x54, 0x52, 0x4d, 1, 5, 0, 0, 0, 0, 0, 0, 0] ++
        ([0, 5, 0, 0, 0, 0, 0, 0, 0, 1, 112] ++ List.replicate 1021 0)) 0 0,
    .datagram { ip := 1, port := 1 } (plainResponse (5 ^^^ 9)) 0 0]

example :
    let h := Run.run (step .still .centered)
      (start {} (fun _ => 9)
        { shardId := [97], interest := { distancePriorityFalloff := 1 }, advertise := false }
        { config := { id := [97] } } []) greeting
    h.net.byClient.keys = {1} ∧ h.shard.server.players.keys = {1} := by
  decide +kernel

end Host
end Morton.App
