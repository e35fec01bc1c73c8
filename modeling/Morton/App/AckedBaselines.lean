import Morton.App.GameClient
import Morton.App.WorldServer
import Morton.Base.Run
import Morton.Proto.InputCodec

/-! A client on its way from shard to shard. Each connection has a number, which stands for
its salts: a datagram of another connection is dropped. Of the shard only the client's own
entry matters, which `replicate` encodes for and `on_payload` acknowledges to. -/
namespace Morton.App
open Proto Sim Net

namespace WorldPlayer
variable {R A : Type}

/-- The tick of a packet that `on_payload` hands to `acknowledge`. -/
def acknowledges (player : WorldPlayer R) (packet : InputPacket A) : Option Nat :=
  if packet.ackedSnapshotTick ≠ 0 ∧ packet.ackedSnapshotTick ≠ player.ackedSnapshotTick then
    some packet.ackedSnapshotTick
  else none

/-- What `on_payload` makes of the entry of its client. -/
def hear (player : WorldPlayer R) (packet : InputPacket A) : WorldPlayer R :=
  let lastInputSequence := packet.inputs.foldl
    (fun last input => if last < input.sequence then input.sequence else last)
    player.lastInputSequence
  match player.acknowledges packet with
  | none => { player with lastInputSequence }
  | some tick =>
    { player with
      lastInputSequence
      ackedSnapshotTick := tick
      replication := player.replication.acknowledge tick }

end WorldPlayer

/-- The entry of a client, the snapshots that were encoded for it, with their ticks, and the
ticks that were handed to `acknowledge`. -/
structure Stay (R : Type) where
  player : WorldPlayer R
  shown : List (Nat × Bytes) := []
  acknowledged : List Nat := []

namespace Stay
variable {R A : Type}

/-- A packet of the client, as `decode_input_packet` read it. -/
def hear (x : Stay R) : Option (InputPacket A) → Stay R
  | none => x
  | some packet =>
    if x.player.redirecting then x
    else
      { x with
        player := x.player.hear packet
        acknowledged := x.acknowledged ++ (x.player.acknowledges packet).toList }

section
variable [LT R] [Add R] [Mul R] [Neg R] [DecidableLT R] [OfScientific R] (nth : NthElement R)

/-- The turn of the entry in the loop of `replicate`. -/
def replicate (x : Stay R) (scene : Scene R) (maxSnapshotBytes : Nat) : Stay R :=
  if x.player.redirecting then x
  else
    let capacity := min maxSnapshotBytes (kMaxDatagramSize - 64 - 1)
    let (replication, packet) := x.player.replication.encode nth scene x.player.entity
      x.player.lastInputSequence (fun _ => 0) capacity
    { x with
      player := { x.player with replication }
      shown := x.shown ++ packet.toList.map fun bytes => (scene.tick, bytes) }

end

/-- A published handoff: the entry is neither shown to nor heard from then on. -/
def handOff (x : Stay R) : Stay R := { x with player := { x.player with redirecting := true } }

/-- A snapshot of this tick was encoded. -/
def Shows (x : Stay R) (tick : Nat) : Prop := ∃ y ∈ x.shown, y.1 = tick

/-- An entry whose numbers fit, and packets that name the ticks they were encoded at. -/
structure Good (kindOf : Nat → Nat) (x : Stay R) : Prop where
  entity : x.player.entity < 2 ^ 32
  sequence : x.player.lastInputSequence < 2 ^ 32
  frames : ∀ t frame, x.player.replication.history.get t = some frame →
    ReplicationState.FrameOk kindOf frame
  shown : ∀ y ∈ x.shown, y.1 < 2 ^ 32 ∧ ∃ baselineTick full,
    peekSnapshotHeader (BitReader.view y.2) y.2.length = some (y.1, baselineTick, full)
  acknowledged : ∀ tick ∈ x.acknowledged, x.Shows tick

theorem Shows.mono {x x' : Stay R} {tick : Nat} (h : x.Shows tick)
    (hshown : ∀ y ∈ x.shown, y ∈ x'.shown) : x'.Shows tick := by
  obtain ⟨y, hy, htick⟩ := h
  exact ⟨y, hshown y hy, htick⟩

theorem shown_hear (x : Stay R) (packet : Option (InputPacket A)) :
    (x.hear packet).shown = x.shown := by
  cases packet with
  | none => rfl
  | some packet =>
    unfold hear
    dsimp only
    split
    · rfl
    · rfl

theorem newest_lt {inputs : List (MoveInput A)} {last : Nat} (hlast : last < 2 ^ 32)
    (hinputs : ∀ input ∈ inputs, input.sequence < 2 ^ 32) :
    inputs.foldl (fun last input => if last < input.sequence then input.sequence else last) last <
      2 ^ 32 := by
  induction inputs generalizing last with
  | nil => exact hlast
  | cons input inputs ih =>
    apply ih
    · dsimp only
      split
      · exact hinputs input List.mem_cons_self
      · exact hlast
    · intro other hother
      exact hinputs other (List.mem_cons_of_mem _ hother)

/-- A packet that acknowledges nothing, or a snapshot that was encoded here. -/
theorem Good.hear {kindOf : Nat → Nat} {x : Stay R} (h : x.Good kindOf) {packet : InputPacket A}
    (hinputs : ∀ input ∈ packet.inputs, input.sequence < 2 ^ 32)
    (hacked : packet.ackedSnapshotTick ≠ 0 → x.Shows packet.ackedSnapshotTick) :
    (x.hear (some packet)).Good kindOf := by
  unfold Stay.hear
  dsimp only
  split
  · exact h
  · have hsequence := newest_lt h.sequence hinputs
    by_cases hnew : packet.ackedSnapshotTick ≠ 0 ∧
        packet.ackedSnapshotTick ≠ x.player.ackedSnapshotTick
    · simp only [WorldPlayer.hear, WorldPlayer.acknowledges, if_pos hnew, Option.toList_some]
      refine ⟨h.entity, hsequence, fun t frame hget => ?_, h.shown, fun t ht => ?_⟩
      · dsimp only at hget
        rw [ReplicationState.acknowledge_history] at hget
        exact h.frames t frame hget
      · rcases List.mem_append.mp ht with ht | ht
        · exact h.acknowledged t ht
        · rw [List.mem_singleton.mp ht]
          exact hacked hnew.1
    · simp only [WorldPlayer.hear, WorldPlayer.acknowledges, if_neg hnew, Option.toList_none,
        List.append_nil]
      exact ⟨h.entity, hsequence, h.frames, h.shown, h.acknowledged⟩

theorem Good.handOff {kindOf : Nat → Nat} {x : Stay R} (h : x.Good kindOf) :
    x.handOff.Good kindOf :=
  ⟨h.entity, h.sequence, h.frames, h.shown, h.acknowledged⟩

section
variable [LT R] [Add R] [Mul R] [Neg R] [DecidableLT R] [OfScientific R] (nth : NthElement R)

theorem shown_replicate (x : Stay R) (scene : Scene R) (maxSnapshotBytes : Nat) :
    ∀ y ∈ x.shown, y ∈ (x.replicate nth scene maxSnapshotBytes).shown := by
  intro y hy
  unfold replicate
  split
  · exact hy
  · exact List.mem_append_left _ hy

/-- A packet of `encode` has the tick of the scene in its header. -/
theorem Good.replicate {kindOf : Nat → Nat} {x : Stay R} (h : x.Good kindOf) {scene : Scene R}
    (hscene : scene.WF) (hkinds : ∀ a ∈ scene.seen, a.state.kind = kindOf a.state.id)
    (maxSnapshotBytes : Nat) : (x.replicate nth scene maxSnapshotBytes).Good kindOf := by
  unfold Stay.replicate
  split
  · exact h
  · have hcapacity : min maxSnapshotBytes (kMaxDatagramSize - 64 - 1) ≤ 65535 := by
      have : kMaxDatagramSize = 1200 := rfl
      omega
    rcases ReplicationState.encode_spec nth x.player.replication hscene hkinds h.frames h.entity
      h.sequence (fun _ => 0) hcapacity with
      hfail | ⟨bytes, states, priority, decoded, heq, hframe, hpeek, -, -, -⟩
    · simp only [hfail, Option.toList_none, List.map_nil, List.append_nil]
      exact ⟨h.entity, h.sequence, h.frames, h.shown, h.acknowledged⟩
    · simp only [heq, Option.toList_some, List.map_singleton]
      refine ⟨h.entity, h.sequence, fun t frame hget => ?_, fun y hy => ?_, fun t ht => ?_⟩
      · rcases SnapshotHistory.get_store hget with ⟨-, rfl⟩ | hold
        · exact hframe
        · exact h.frames t frame hold
      · rcases List.mem_append.mp hy with hy | hy
        · exact h.shown y hy
        · rw [List.mem_singleton.mp hy]
          exact ⟨hscene.tick, _, _, hpeek⟩
      · exact (h.acknowledged t ht).mono fun y hy => List.mem_append_left _ hy

end

end Stay

namespace WorldServer
variable {R A : Type} [LT R] (env : ShardEnv R A)

/-- The shard hears a client as its stay does. -/
theorem lookup_onPayload (w : WorldServer R A) (client : Nat) (packet : Option (InputPacket A)) :
    (w.onPayload env client packet).players.lookup client =
      (w.players.lookup client).map fun player => (Stay.hear { player } packet).player := by
  unfold onPayload
  cases hplayer : w.players.lookup client with
  | none => simpa using hplayer
  | some player =>
    cases packet with
    | none => simpa [Stay.hear] using hplayer
    | some packet =>
      by_cases hleaving : player.redirecting = true
      · simpa [Stay.hear, hleaving] using hplayer
      · simp only [hleaving, Bool.false_eq_true, if_false, Table.lookup_insert, if_true,
          Option.map_some, Stay.hear, WorldPlayer.hear, WorldPlayer.acknowledges]
        split
        · rfl
        · rfl

variable [Add R] [Mul R] [Neg R] [DecidableLT R] [OfScientific R]

/-- The shard encodes for a connected client as its stay does. -/
theorem lookup_replicateTo {w : WorldServer R A} {client : Nat} (h : client ∈ w.connections) :
    (w.replicateTo env client).players.lookup client =
      (w.players.lookup client).map fun player =>
        (Stay.replicate env.nth { player } (env.scene w.world player.entity)
          w.config.interest.maxSnapshotBytes).player := by
  unfold replicateTo
  cases hplayer : w.players.lookup client with
  | none => simpa using hplayer
  | some player =>
    by_cases hleaving : player.redirecting = true
    · simpa [Stay.replicate, hleaving] using hplayer
    · simp [Stay.replicate, hleaving, h]

end WorldServer

/-- What `on_connect` makes a new entry from. -/
structure Arrival (R : Type) where
  client : Nat
  playerId : Bytes
  entity : Nat
  region : Nat
  sessionToken : Nat
  lastInputSequence : Nat
  migratedIn : Bool
  interest : InterestConfig R
  entity_lt : entity < 2 ^ 32
  sequence_lt : lastInputSequence < 2 ^ 32

def Arrival.stay {R : Type} (a : Arrival R) : Stay R :=
  { player :=
      { client := a.client
        playerId := a.playerId
        entity := a.entity
        region := a.region
        sessionToken := a.sessionToken
        lastInputSequence := a.lastInputSequence
        migratedIn := a.migratedIn
        replication := ReplicationState.configure a.interest } }

theorem Arrival.good {R : Type} (a : Arrival R) (kindOf : Nat → Nat) : a.stay.Good kindOf where
  entity := a.entity_lt
  sequence := a.sequence_lt
  frames t frame hget := by
    have hnone : (SnapshotHistory.configure a.interest.baselineHistory).get t = none :=
      SnapshotHistory.get_configure
    cases hnone.symm.trans hget
  shown y hy := by cases hy
  acknowledged tick htick := by cases htick

/-- A packet that went out, with the frame its ring of baselines had for the tick it
acknowledges. -/
structure Sent where
  session : Nat
  acked : Nat
  held : Option SnapshotFrame
  data : Bytes

structure Voyage (R S A : Type) where
  game : GameClient S A
  /-- The number of the connection the client holds or asks for. -/
  session : Nat := 0
  /-- The client's entry at the other end of each connection. -/
  stays : Nat → Stay R
  /-- What `apply_snapshot` decoded, each with its connection. -/
  decoded : List (Nat × DecodedSnapshot) := []
  sent : List Sent := []

inductive VoyageAction (R S A : Type)
  | replicate (session : Nat) (scene : Scene R) (maxSnapshotBytes : Nat)
  | handOff (session : Nat)
  /-- The packet with this index reaches the shard, perhaps not for the first time. -/
  | arrive (index : Nat)
  /-- The same for a snapshot of the connection and the client. -/
  | snapshot (session index : Nat)
  | worldConfig (entity : Nat)
  | redirect (event : MigrateRedirectEvent)
  | link (connected : Bool)
  /-- `apply_redirect`; `none` if the endpoint or the credential is no good. -/
  | move (state : Option S)
  | restart (config : ClientViewConfig)
  | send (axes : A) (sprint : Bool)

namespace Voyage
variable {R S A : Type}

def setStay (s : Voyage R S A) (session : Nat) (stay : Stay R) : Voyage R S A :=
  { s with stays := Function.update s.stays session stay }

/-- The datagram of a snapshot, if the client's connection lets it through. -/
def received (s : Voyage R S A) (session index : Nat) : Option Bytes :=
  if session = s.session ∧ s.game.connected = true then
    ((s.stays session).shown[index]?).map fun y => UInt8.ofNat kSnapshotChannel :: y.2
  else none

section
variable [LT R] [Add R] [Mul R] [Neg R] [DecidableLT R] [OfScientific R]
  (nth : NthElement R) (physics : Physics S A) (axis : AxisQuantizer A)

def step (s : Voyage R S A) : VoyageAction R S A → Voyage R S A
  | .replicate session scene maxSnapshotBytes =>
    s.setStay session ((s.stays session).replicate nth scene maxSnapshotBytes)
  | .handOff session => s.setStay session (s.stays session).handOff
  | .arrive index =>
    match s.sent[index]? with
    | none => s
    | some x =>
      s.setStay x.session ((s.stays x.session).hear (decodeInputPacket axis x.data))
  | .snapshot session index =>
    match s.received session index with
    | none => s
    | some data =>
      { s with
        game := s.game.handlePayload physics data
        decoded := s.decoded ++
          (s.game.takesIn physics data).toList.map fun snapshot => (session, snapshot) }
  | .worldConfig entity => { s with game := s.game.handleWorldConfig entity }
  | .redirect event => { s with game := s.game.handleRedirect event }
  | .link connected => { s with game := { s.game with connected } }
  | .move state =>
    match s.game.pendingRedirect, state with
    | none, _ => s
    | some _, none => { s with game := { s.game with pendingRedirect := none } }
    | some _, some state =>
      { s with game := s.game.applyRedirect state, session := s.session + 1 }
  | .restart config =>
    { s with game := s.game.restart physics config, session := s.session + 1 }
  | .send axes sprint =>
    match s.game.sendInput physics axes sprint with
    | (game, none) => { s with game }
    | (game, some (_, packet)) =>
      let data := encodeInputPacket axis packet kMaxDatagramSize
      if data = [] then { s with game }
      else
        { s with
          game
          sent := s.sent ++
            [{ session := s.session
               acked := packet.ackedSnapshotTick
               held := s.game.view.baselines.get packet.ackedSnapshotTick
               data }] }

end

def start (physics : Physics S A) (config : ClientViewConfig) (arrivals : Nat → Arrival R) :
    Voyage R S A :=
  { game := GameClient.start physics config, stays := fun session => (arrivals session).stay }

/-- The tick of the packet is that of a snapshot that was decoded on its connection, and the
ring had its frame. -/
def Usable (s : Voyage R S A) (x : Sent) : Prop :=
  x.held.isSome = true ∧ ∃ y ∈ s.decoded, y.1 = x.session ∧ y.2.tick = x.acked

/-- Every acknowledged tick is a usable baseline, and one that was encoded by the state it is
handed to. -/
def AcksUsable (s : Voyage R S A) : Prop :=
  (∀ x ∈ s.sent, x.acked ≠ 0 → s.Usable x) ∧
  ∀ session, ∀ tick ∈ (s.stays session).acknowledged, (s.stays session).Shows tick

/-- What the shards promise of their worlds: scenes are well formed, and an id keeps its
kind. -/
def Fair (kindOf : Nat → Nat → Nat) : VoyageAction R S A → Prop
  | .replicate session scene _ =>
    scene.WF ∧ ∀ a ∈ scene.seen, a.state.kind = kindOf session a.state.id
  | _ => True

/-- The client does not send between a redirect and the next snapshot, but for a client that
never had one, and no snapshot it decodes is older than the newest and in its slot. -/
def Timely (physics : Physics S A) (s : Voyage R S A) : VoyageAction R S A → Prop
  | .send _ _ =>
    s.game.connected = true → s.game.localEntity ≠ kInvalidEntity →
      s.game.view.hasSnapshot = true ∨ s.game.view.latestTick = 0
  | .snapshot session index =>
    ∀ data ∈ s.received session index, ∀ snapshot ∈ s.game.takesIn physics data,
      s.game.view.hasSnapshot = true →
      sequenceGreater32 snapshot.tick s.game.view.latestTick = false →
      snapshot.tick % s.game.view.baselines.capacity =
        s.game.view.latestTick % s.game.view.baselines.capacity →
      snapshot.tick = s.game.view.latestTick
  | .restart config => config.snapshotHistory ≠ 0
  | _ => True

/-- The packet carries its tick to the shard. -/
def Carries (axis : AxisQuantizer A) (x : Sent) : Prop :=
  ∃ packet, decodeInputPacket axis x.data = some packet ∧
    packet.ackedSnapshotTick = x.acked ∧ ∀ input ∈ packet.inputs, input.sequence < 2 ^ 32

/-- Where a snapshot has been taken in on this connection, the newest one is a baseline. -/
structure Anchored (s : Voyage R S A) : Prop where
  ring : s.game.view.baselines.capacity ≠ 0
  held : s.game.view.hasSnapshot = true →
    (s.game.view.baselines.get s.game.view.latestTick).isSome = true
  decoded : s.game.view.hasSnapshot = true →
    ∃ y ∈ s.decoded, y.1 = s.session ∧ y.2.tick = s.game.view.latestTick

/-- Right after a redirect or a start. -/
theorem Anchored.of_new {s : Voyage R S A} (hring : s.game.view.baselines.capacity ≠ 0)
    (hnew : s.game.view.hasSnapshot = false) : s.Anchored where
  ring := hring
  held hhas := by cases hnew.symm.trans hhas
  decoded hhas := by cases hnew.symm.trans hhas

/-- What the client has numbered fits its packets. -/
structure Numbered (g : GameClient S A) : Prop where
  next : g.view.nextInputSequence < 2 ^ 32
  short : g.inputWindow.length ≤ kInputRedundancy
  window : ∀ input ∈ g.inputWindow, input.sequence < 2 ^ 32

structure Good (axis : AxisQuantizer A) (kindOf : Nat → Nat → Nat) (s : Voyage R S A) : Prop where
  stays : ∀ session, (s.stays session).Good (kindOf session)
  anchored : s.Anchored
  numbered : Numbered s.game
  decoded : ∀ y ∈ s.decoded, (s.stays y.1).Shows y.2.tick
  sent : ∀ x ∈ s.sent, Carries axis x ∧ (x.acked ≠ 0 → s.Usable x)

theorem Good.acksUsable {axis : AxisQuantizer A} {kindOf : Nat → Nat → Nat} {s : Voyage R S A}
    (h : s.Good axis kindOf) : s.AcksUsable :=
  ⟨fun x hx => (h.sent x hx).2, fun session => (h.stays session).acknowledged⟩

theorem good_start (physics : Physics S A) {axis : AxisQuantizer A} {kindOf : Nat → Nat → Nat}
    {config : ClientViewConfig} (hring : config.snapshotHistory ≠ 0) (arrivals : Nat → Arrival R) :
    (start physics config arrivals : Voyage R S A).Good axis kindOf where
  stays session := (arrivals session).good (kindOf session)
  anchored := .of_new hring rfl
  numbered := ⟨Nat.one_lt_two_pow (by decide), Nat.zero_le _, fun input hinput => by cases hinput⟩
  decoded y hy := by cases hy
  sent x hx := by cases hx

/-- Steps of a shard. -/
theorem Good.setStay {axis : AxisQuantizer A} {kindOf : Nat → Nat → Nat} {s : Voyage R S A}
    (h : s.Good axis kindOf) {session : Nat} {stay : Stay R}
    (hstay : stay.Good (kindOf session))
    (hshown : ∀ y ∈ (s.stays session).shown, y ∈ stay.shown) :
    (s.setStay session stay).Good axis kindOf := by
  refine ⟨fun other => ?_, ⟨h.anchored.ring, h.anchored.held, h.anchored.decoded⟩, h.numbered,
    fun y hy => ?_, h.sent⟩
  · by_cases heq : other = session
    · subst heq
      simpa only [Voyage.setStay, Function.update_self] using hstay
    · simpa only [Voyage.setStay, Function.update_of_ne heq] using h.stays other
  · have hshows := h.decoded y hy
    by_cases heq : y.1 = session
    · rw [heq] at hshows ⊢
      simpa only [Voyage.setStay, Function.update_self] using hshows.mono hshown
    · simpa only [Voyage.setStay, Function.update_of_ne heq] using hshows

/-- Steps of the client that neither send nor decode. -/
theorem Good.setGame {axis : AxisQuantizer A} {kindOf : Nat → Nat → Nat} {s : Voyage R S A}
    (h : s.Good axis kindOf) {game : GameClient S A} {session : Nat}
    (hnumbered : Numbered game) (hanchored : Anchored { s with game, session }) :
    Good axis kindOf { s with game, session } :=
  ⟨h.stays, hanchored, hnumbered, h.decoded, h.sent⟩

/-- A snapshot that is taken in becomes the newest, or leaves the newest in its slot. -/
theorem Anchored.install {physics : Physics S A} {s : Voyage R S A} (h : s.Anchored)
    {snapshot : DecodedSnapshot}
    (hkept : s.game.view.hasSnapshot = true →
      sequenceGreater32 snapshot.tick s.game.view.latestTick = false →
      snapshot.tick % s.game.view.baselines.capacity =
        s.game.view.latestTick % s.game.view.baselines.capacity →
      snapshot.tick = s.game.view.latestTick) :
    Anchored { s with
      game := { s.game with view := s.game.view.install physics snapshot }
      decoded := s.decoded ++ [(s.session, snapshot)] } := by
  obtain ⟨-, hlatest⟩ := s.game.view.install_latestTick physics snapshot
  have hnew : ∃ y ∈ s.decoded ++ [(s.session, snapshot)],
      y.1 = s.session ∧ y.2.tick = snapshot.tick :=
    ⟨(s.session, snapshot), List.mem_append_right _ (List.mem_singleton_self _), rfl, rfl⟩
  have hstored : ((s.game.view.baselines.store snapshot.tick snapshot.states).get
      snapshot.tick).isSome = true := by
    rw [SnapshotHistory.get_store_self h.ring]
    rfl
  refine ⟨?_, fun _ => ?_, fun _ => ?_⟩
  · dsimp only
    rw [ClientView.install_baselines, SnapshotHistory.store_capacity]
    exact h.ring
  · dsimp only
    rw [ClientView.install_baselines, hlatest]
    split
    · exact hstored
    · rename_i hold
      simp only [Bool.or_eq_true, Bool.not_eq_true', not_or, Bool.not_eq_true,
        Bool.not_eq_false] at hold
      by_cases hslot : s.game.view.latestTick % s.game.view.baselines.capacity =
          snapshot.tick % s.game.view.baselines.capacity
      · rw [← hkept hold.1 hold.2 hslot.symm]
        exact hstored
      · rw [SnapshotHistory.get_store_of_ne hslot]
        exact h.held hold.1
  · dsimp only
    rw [hlatest]
    split
    · exact hnew
    · rename_i hold
      simp only [Bool.or_eq_true, Bool.not_eq_true', not_or, Bool.not_eq_true,
        Bool.not_eq_false] at hold
      obtain ⟨y, hy, hsame⟩ := h.decoded hold.1
      exact ⟨y, List.mem_append_left _ hy, hsame⟩

section
variable [LT R] [Add R] [Mul R] [Neg R] [DecidableLT R] [OfScientific R]
  (nth : NthElement R) (physics : Physics S A) {axis : AxisQuantizer A}
  {kindOf : Nat → Nat → Nat} {s : Voyage R S A}

theorem Good.arrive_step (h : s.Good axis kindOf) (index : Nat) :
    (s.step nth physics axis (.arrive index)).Good axis kindOf := by
  unfold step
  dsimp only
  cases hsent : s.sent[index]? with
  | none => exact h
  | some x =>
    obtain ⟨⟨packet, hdecode, hacked, hinputs⟩, husable⟩ := h.sent x (List.mem_of_getElem? hsent)
    dsimp only
    rw [hdecode]
    refine h.setStay ((h.stays x.session).hear hinputs fun hnonzero => ?_) fun y hy => ?_
    · rw [hacked] at hnonzero ⊢
      obtain ⟨-, y, hy, hsession, htick⟩ := husable hnonzero
      rw [← hsession, ← htick]
      exact h.decoded y hy
    · rw [Stay.shown_hear]
      exact hy

theorem Good.snapshot_step (h : s.Good axis kindOf) {session index : Nat}
    (htimely : s.Timely physics (.snapshot session index)) :
    (s.step nth physics axis (.snapshot session index)).Good axis kindOf := by
  unfold step
  dsimp only
  cases hreceived : s.received session index with
  | none => exact h
  | some data =>
    cases htaken : s.game.takesIn physics data with
    | none =>
      simp only [GameClient.handlePayload_none physics htaken, htaken, Option.toList_none,
        List.map_nil, List.append_nil]
      exact h
    | some snapshot =>
      have hkept := htimely data hreceived snapshot htaken
      have hnumbered : Numbered (s.game.handlePayload physics data) := by
        obtain ⟨hnext, hwindow⟩ := s.game.handlePayload_frame physics data
        exact ⟨hnext ▸ h.numbered.next, hwindow ▸ h.numbered.short, hwindow ▸ h.numbered.window⟩
      unfold received at hreceived
      split at hreceived
      · rename_i hcurrent
        obtain ⟨rfl, -⟩ := hcurrent
        obtain ⟨y, hy, rfl⟩ := Option.map_eq_some_iff.mp hreceived
        have hmem := List.mem_of_getElem? hy
        obtain ⟨-, baselineTick, full, hpeek⟩ := (h.stays s.session).shown y hmem
        have htick := s.game.takesIn_tick physics hpeek htaken
        simp only [GameClient.handlePayload_some physics htaken, htaken, Option.toList_some,
          List.map_singleton] at hnumbered ⊢
        refine ⟨h.stays, h.anchored.install hkept, hnumbered, fun z hz => ?_,
          fun x hx => ⟨(h.sent x hx).1, fun hacked => ?_⟩⟩
        · rcases List.mem_append.mp hz with hz | hz
          · exact h.decoded z hz
          · rw [List.mem_singleton.mp hz]
            exact ⟨y, hmem, htick.symm⟩
        · obtain ⟨hheld, z, hz, hsame⟩ := (h.sent x hx).2 hacked
          exact ⟨hheld, z, List.mem_append_left _ hz, hsame⟩
      · cases hreceived

/-- What is acknowledged is the newest tick, and the packet says so to the shard. -/
theorem Good.send_step (h : s.Good axis kindOf) {axes : A} {sprint : Bool}
    (htimely : s.Timely physics (.send axes sprint)) :
    (s.step nth physics axis (.send axes sprint)).Good axis kindOf := by
  unfold step
  dsimp only
  rcases s.game.sendInput_cases physics axes sprint with
    hidle | ⟨hconnected, hlocal, input, view, clientTick, hpushed, hsent⟩
  · rw [hidle]
    exact h
  · rw [hsent]
    dsimp only
    have hready := htimely hconnected hlocal
    obtain ⟨rfl, rfl⟩ := Prod.mk.inj hpushed
    have hinput : ∀ other ∈ GameClient.slide s.game.inputWindow
        (s.game.view.pushInput physics axes sprint clientTick).1, other.sequence < 2 ^ 32 := by
      intro other hother
      rcases GameClient.mem_slide hother with hold | rfl
      · exact h.numbered.window other hold
      · exact h.numbered.next
    have hnumbered : Numbered { s.game with
        view := (s.game.view.pushInput physics axes sprint clientTick).2
        clientTick
        inputWindow := GameClient.slide s.game.inputWindow
          (s.game.view.pushInput physics axes sprint clientTick).1 } :=
      ⟨Nat.mod_lt _ (by decide), GameClient.length_slide h.numbered.short, hinput⟩
    have hanchored : ∀ sent, Anchored { s with
        game := { s.game with
          view := (s.game.view.pushInput physics axes sprint clientTick).2
          clientTick
          inputWindow := GameClient.slide s.game.inputWindow
            (s.game.view.pushInput physics axes sprint clientTick).1 }
        sent } :=
      fun sent => ⟨h.anchored.ring, h.anchored.held, h.anchored.decoded⟩
    split
    · exact ⟨h.stays, hanchored s.sent, hnumbered, h.decoded, h.sent⟩
    · rename_i hfits
      refine ⟨h.stays, hanchored _, hnumbered, h.decoded, fun x hx => ?_⟩
      rcases List.mem_append.mp hx with hx | hx
      · exact h.sent x hx
      · rw [List.mem_singleton.mp hx]
        have hlatest : s.game.view.latestTick < 2 ^ 32 := by
          rcases hready with hhas | hzero
          · obtain ⟨y, hy, -, htick⟩ := h.anchored.decoded hhas
            obtain ⟨z, hz, hshown⟩ := h.decoded y hy
            rw [← htick, ← hshown]
            exact ((h.stays y.1).shown z hz).1
          · rw [hzero]
            decide
        refine ⟨⟨_, decodeInputPacket_encode axis ?_ hinput hfits, ?_, ?_⟩,
          fun hacked => ?_⟩
        · exact Nat.le_trans (GameClient.length_slide h.numbered.short) (by decide)
        · exact Nat.mod_eq_of_lt hlatest
        · intro other hother
          obtain ⟨own, hown, rfl⟩ := List.mem_map.mp hother
          exact hinput own hown
        · have hhas : s.game.view.hasSnapshot = true := by
            rcases hready with hhas | hzero
            · exact hhas
            · exact absurd hzero hacked
          exact ⟨h.anchored.held hhas, h.anchored.decoded hhas⟩

theorem good_step (h : s.Good axis kindOf) {action : VoyageAction R S A}
    (hfair : Fair kindOf action) (htimely : s.Timely physics action) :
    (s.step nth physics axis action).Good axis kindOf := by
  cases action with
  | replicate session scene maxSnapshotBytes =>
    exact h.setStay ((h.stays session).replicate nth hfair.1 hfair.2 maxSnapshotBytes)
      (Stay.shown_replicate nth _ scene maxSnapshotBytes)
  | handOff session => exact h.setStay (h.stays session).handOff fun _ hy => hy
  | arrive index => exact h.arrive_step nth physics index
  | snapshot session index => exact h.snapshot_step nth physics htimely
  | worldConfig entity =>
    exact h.setGame ⟨h.numbered.next, h.numbered.short, h.numbered.window⟩
      ⟨h.anchored.ring, h.anchored.held, h.anchored.decoded⟩
  | redirect event =>
    exact h.setGame ⟨h.numbered.next, h.numbered.short, h.numbered.window⟩
      ⟨h.anchored.ring, h.anchored.held, h.anchored.decoded⟩
  | link connected =>
    exact h.setGame ⟨h.numbered.next, h.numbered.short, h.numbered.window⟩
      ⟨h.anchored.ring, h.anchored.held, h.anchored.decoded⟩
  | move state =>
    unfold step
    dsimp only
    split
    · exact h
    · exact h.setGame ⟨h.numbered.next, h.numbered.short, h.numbered.window⟩
        ⟨h.anchored.ring, h.anchored.held, h.anchored.decoded⟩
    · exact h.setGame ⟨h.numbered.next, h.numbered.short, h.numbered.window⟩
        (.of_new h.anchored.ring rfl)
  | restart config =>
    exact h.setGame ⟨Nat.one_lt_two_pow (by decide), h.numbered.short, h.numbered.window⟩
      (.of_new htimely rfl)
  | send axes sprint => exact h.send_step nth physics htimely

variable (axis kindOf)

/-- As long as the client is not between a redirect and its first snapshot when it sends, and
no late snapshot takes the slot of the newest, every tick it acknowledges is a baseline it has
from the shard it is connected to, and one that shard encoded. -/
theorem acks_usable {config : ClientViewConfig} (hring : config.snapshotHistory ≠ 0)
    (arrivals : Nat → Arrival R) {actions : List (VoyageAction R S A)}
    (hfair : ∀ action ∈ actions, Fair kindOf action)
    (htimely : Run.Along (step nth physics axis) (Timely physics) (start physics config arrivals)
      actions) :
    (Run.run (step nth physics axis) (start physics config arrivals) actions).AcksUsable :=
  (Run.invariant (Good axis kindOf)
    (fun _ _ hok h => good_step nth physics h hok.1 hok.2)
    (good_start physics hring arrivals)
    (Run.along_and (Run.along_of_forall _ hfair) htimely)).acksUsable

end

instance decidableTimely (physics : Physics S A) (s : Voyage R S A) (action : VoyageAction R S A) :
    Decidable (s.Timely physics action) :=
  match action with
  | .send _ _ => inferInstanceAs (Decidable (_ → _ → _ ∨ _))
  | .snapshot session index =>
    inferInstanceAs (Decidable (∀ data ∈ s.received session index,
      ∀ snapshot ∈ s.game.takesIn physics data, _ → _ → _ → _))
  | .restart _ => inferInstanceAs (Decidable (_ ≠ _))
  | .replicate _ _ _ | .handOff _ | .arrive _ | .worldConfig _ | .redirect _ | .link _
  | .move _ => isTrue trivial

/-- Player "p", whose entity is the third. -/
def third : Arrival ℚ :=
  { client := 1, playerId := [112], entity := 3, region := 0, sessionToken := 5
    lastInputSequence := 0, migratedIn := false, interest := { distancePriorityFalloff := 1 }
    entity_lt := by decide, sequence_lt := by decide }

/-- The third entity, alone. -/
def glimpse (tick : Nat) : Scene ℚ :=
  { tick, hasViewer := true, seen := [⟨{ id := 3, px := 9 }, 1⟩] }

theorem fair_glimpse {tick : Nat} (h : tick < 2 ^ 32) (session maxSnapshotBytes : Nat) :
    Fair (fun _ _ => 0)
      (.replicate session (glimpse tick) maxSnapshotBytes : VoyageAction ℚ Unit Unit) := by
  refine ⟨⟨h, by simp [glimpse], fun a ha => ?_⟩, fun a ha => ?_⟩
  · rw [List.mem_singleton.mp ha]
    decide
  · rw [List.mem_singleton.mp ha]

/-- The client plays on its first shard, acknowledges tick 7 there and is sent to another. -/
def crossing : List (VoyageAction ℚ Unit Unit) :=
  [.link true, .worldConfig 3, .replicate 0 (glimpse 7) 1000, .snapshot 0 0, .send () false,
    .arrive 0, .redirect { ticket := 7, endpoint := [2] }, .move (some ()), .link true,
    .worldConfig 3]

theorem fair_crossing : ∀ action ∈ crossing, Fair (fun _ _ => 0) action := by
  simp only [crossing, List.forall_mem_cons]
  exact ⟨trivial, trivial, fair_glimpse (by decide) _ _, trivial, trivial, trivial, trivial,
    trivial, trivial, trivial, by simp⟩

/-- On the other shard it waits for a snapshot before it sends. -/
theorem acks_usable_patient :
    let actions := crossing ++ [.replicate 1 (glimpse 2) 1000, .snapshot 1 0, .send () false,
      .arrive 1]
    let s := Run.run (step (NthElement.sorting ℚ) Physics.still .centered)
      (start .still {} fun _ => third) actions
    ((s.stays 0).acknowledged = [7] ∧ (s.stays 1).acknowledged = [2]) ∧ s.AcksUsable := by
  refine ⟨by decide +kernel, ?_⟩
  refine acks_usable (NthElement.sorting ℚ) Physics.still .centered (fun _ _ => 0)
    (by decide) _ ?_ (by decide +kernel)
  refine List.forall_mem_append.mpr ⟨fair_crossing, ?_⟩
  simp only [List.forall_mem_cons]
  exact ⟨fair_glimpse (by decide) _ _, trivial, trivial, trivial, by simp⟩

/-- It sends before the other shard has shown it anything: that shard is told of a tick it
never encoded. -/
theorem stale_tick_acknowledged :
    let actions := crossing ++ [.send () false, .arrive 1]
    let s := Run.run (step (NthElement.sorting ℚ) Physics.still .centered)
      (start .still {} fun _ => third) actions
    (∀ action ∈ actions, Fair (fun _ _ => 0) action) ∧
    (s.sent.map fun x => (x.session, x.acked, x.held.isSome)) = [(0, 7, true), (1, 7, false)] ∧
    (s.stays 1).acknowledged = [7] ∧ (s.stays 1).shown = [] ∧ ¬ s.AcksUsable := by
  have hacknowledged : ((Run.run (step (NthElement.sorting ℚ) Physics.still .centered)
      (start .still {} fun _ => third) (crossing ++ [.send () false, .arrive 1])).stays
        1).acknowledged = [7] := by
    decide +kernel
  have hshown : ((Run.run (step (NthElement.sorting ℚ) Physics.still .centered)
      (start .still {} fun _ => third) (crossing ++ [.send () false, .arrive 1])).stays
        1).shown = [] := by
    decide +kernel
  refine ⟨List.forall_mem_append.mpr ⟨fair_crossing, ?_⟩, by decide +kernel, hacknowledged, hshown,
    fun h => ?_⟩
  · simp only [List.forall_mem_cons]
    exact ⟨trivial, trivial, by simp⟩
  · obtain ⟨y, hy, -⟩ := h.2 1 7 (hacknowledged ▸ List.mem_singleton_self 7)
    rw [hshown] at hy
    cases hy

/-- A full snapshot that is 32 ticks late takes the slot of the newest one. -/
example :
    ((Run.run (step (NthElement.sorting ℚ) Physics.still .centered)
      (start .still {} fun _ => third)
      [.link true, .worldConfig 3, .replicate 0 (glimpse 7) 1000, .replicate 0 (glimpse 39) 1000,
        .snapshot 0 1, .snapshot 0 0, .send () false]).sent.map
      fun x => (x.acked, x.held.isSome)) = [(39, false)] := by
  decide +kernel

end Voyage
end Morton.App
