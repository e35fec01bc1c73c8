import Morton.App.ServerEffects
import Morton.Base.Run
import Morton.Sim.WorldSpec

/-! Which input sequence a shard hands out. The server's own copy follows the highest
sequence received, the entity keeps the one applied last; they agree exactly when the
player has no command waiting. -/
namespace Morton.App
open Proto Sim Cluster

/-- The sequence handed out is the simulated one, and of no command still waiting. -/
def Publication.Truthful (p : Publication) : Prop :=
  p.simulated = some p.sequence ∧ p.sequence ∉ p.waiting

instance (p : Publication) : Decidable p.Truthful :=
  inferInstanceAs (Decidable (_ ∧ _))

namespace WorldServer
variable {R A : Type}

/-- Every player has its seat in the world, with the server's copy of the sequence. -/
structure Seated (w : WorldServer R A) : Prop where
  world : w.world.Good
  pending : w.pendingAdmits = ∅
  positive : 0 < w.nextClient
  numbered : ∀ client, w.nextClient ≤ client → w.world.players.lookup client = none
  seat : ∀ client player, w.players.lookup client = some player →
    w.world.seat client = some (player.entity, player.lastInputSequence)
  published : ∀ p, Trace.published p ∈ w.trace → (p.Truthful ↔ p.waiting = [])

theorem Seated.client_lt {w : WorldServer R A} (h : w.Seated) {client : Nat} {slot : PlayerSlot A}
    (hslot : w.world.players.lookup client = some slot) : client < w.nextClient := by
  by_contra hlate
  cases (h.numbered client (Nat.le_of_not_lt hlate)).symm.trans hslot

/-- A publication is truthful exactly when nothing waits. -/
theorem Seated.publication {w : WorldServer R A} (h : w.Seated) {client : Nat}
    {player : WorldPlayer R} (hplayer : w.players.lookup client = some player) :
    (w.publication player client).Truthful ↔ (w.publication player client).waiting = [] := by
  obtain ⟨slot, hslot, hseat⟩ := Option.map_eq_some_iff.mp (h.seat client player hplayer)
  obtain ⟨hentity, hhighest⟩ := Prod.mk.injEq _ _ _ _ ▸ hseat
  obtain ⟨-, hsequence, hnewest⟩ := h.world.slot client slot hslot
  have hsim : (w.publication player client).simulated = some slot.lastAppliedSequence := by
    rw [hentity] at hsequence
    exact hsequence
  have hwaiting : (w.publication player client).waiting = slot.pending.map MoveInput.sequence := by
    simp only [WorldServer.publication, hslot, Option.elim_some]
  have hown : (w.publication player client).sequence = slot.newest := by
    rw [hnewest, hhighest]
    rfl
  rw [Publication.Truthful, hsim, hwaiting, hown, List.map_eq_nil_iff]
  constructor
  · rintro ⟨-, hnot⟩
    by_contra hne
    refine hnot (List.mem_map.mpr ⟨slot.pending.getLast hne, List.getLast_mem hne, ?_⟩)
    rw [PlayerSlot.newest, List.getLast?_eq_some_getLast hne, Option.map_some, Option.getD_some]
  · intro hnil
    rw [PlayerSlot.newest, hnil]
    exact ⟨rfl, List.not_mem_nil⟩

/-- Steps that leave the world and the players' seats alone. -/
theorem Seated.of_world {w w' : WorldServer R A} (h : w.Seated) (hworld : w'.world = w.world)
    (hpending : w'.pendingAdmits = w.pendingAdmits) (hnext : w'.nextClient = w.nextClient)
    (hplayers : ∀ client player, w'.players.lookup client = some player →
      ∃ old, w.players.lookup client = some old ∧ old.entity = player.entity ∧
        old.lastInputSequence = player.lastInputSequence)
    (htrace : ∀ p, Trace.published p ∈ w'.trace →
      Trace.published p ∈ w.trace ∨ (p.Truthful ↔ p.waiting = [])) : w'.Seated where
  world := hworld ▸ h.world
  pending := hpending.trans h.pending
  positive := hnext ▸ h.positive
  numbered := by
    rw [hworld, hnext]
    exact h.numbered
  seat client player hplayer := by
    obtain ⟨old, hold, hentity, hsequence⟩ := hplayers client player hplayer
    rw [hworld, ← hentity, ← hsequence]
    exact h.seat client old hold
  published p hp := (htrace p hp).elim (h.published p) id

/-- A player and its entity leave together. -/
theorem Seated.remove {w : WorldServer R A} (h : w.Seated) {client : Nat}
    {player : WorldPlayer R} (hplayer : w.players.lookup client = some player) :
    ({ w with
      world := w.world.despawn player.entity
      players := w.players.erase client } : WorldServer R A).Seated := by
  obtain ⟨slot, hslot, hseat⟩ := Option.map_eq_some_iff.mp (h.seat client player hplayer)
  obtain ⟨hentity, -⟩ := Prod.mk.injEq _ _ _ _ ▸ hseat
  have howner := (h.world.slot client slot hslot).1
  rw [hentity] at howner
  have hlookup := h.world.players_despawn howner
  refine ⟨h.world.despawn _, h.pending, h.positive, fun c hc => ?_, fun c other hother => ?_,
    h.published⟩
  · rw [hlookup, h.numbered c hc, ite_self]
  · obtain ⟨hne, hother⟩ := Table.lookup_erase_some hother
    have hold := h.seat c other hother
    unfold World.seat at hold ⊢
    rwa [hlookup, if_neg hne]

theorem players_despawn_none {w : World UInt32 A} (h : w.Good) {entity client : Nat}
    (hnone : w.players.lookup client = none) :
    (w.despawn entity).players.lookup client = none := by
  cases howner : w.entities.ownerOf entity with
  | some owner => rw [h.players_despawn howner, hnone, ite_self]
  | none =>
    have hfind : w.entities.find entity = none := by
      cases hfind : w.entities.find entity with
      | none => rfl
      | some i =>
        have hlt := h.store.find_lt hfind
        rw [← h.store.owner] at hlt
        rw [EntityStore.ownerOf, EntityStore.cell, hfind, Option.bind_some,
          List.getElem?_eq_getElem hlt] at howner
        cases howner
    simpa only [World.despawn, hfind] using hnone

theorem Seated.disconnect {w : WorldServer R A} (h : w.Seated) (client now : Nat) :
    (w.disconnect client now).Seated ∧ (w.disconnect client now).nextClient = w.nextClient ∧
      ∀ c, w.world.players.lookup c = none →
        (w.disconnect client now).world.players.lookup c = none := by
  unfold WorldServer.disconnect
  split
  · cases hplayer : w.players.lookup client with
    | none =>
      simp only [onDisconnect, hplayer]
      refine ⟨h.of_world rfl rfl rfl (fun c p hp => ⟨p, hp, rfl, rfl⟩) fun p hp => Or.inl hp,
        trivial, fun c hc => hc⟩
    | some player =>
      simp only [onDisconnect, hplayer]
      refine ⟨(h.remove hplayer).of_world rfl rfl rfl (fun c p hp => ⟨p, hp, rfl, rfl⟩)
        fun p hp => Or.inl hp, trivial, fun c hc => players_despawn_none h.world hc⟩
  · exact ⟨h, rfl, fun c hc => hc⟩

theorem Seated.numberClient {w : WorldServer R A} (h : w.Seated) (playerId : Bytes) :
    (w.numberClient playerId).Seated :=
  ⟨h.world, h.pending, Nat.succ_pos _, fun c hc => h.numbered c (Nat.le_of_succ_le hc), h.seat,
    h.published⟩

theorem Seated.replaceStale {w : WorldServer R A} (h : w.Seated) (playerId : Bytes)
    (client now : Nat) :
    (w.replaceStale playerId client now).Seated ∧
      (w.replaceStale playerId client now).nextClient = w.nextClient ∧
      ∀ c, w.world.players.lookup c = none →
        (w.replaceStale playerId client now).world.players.lookup c = none := by
  unfold WorldServer.replaceStale
  split
  · split
    · exact h.disconnect _ now
    · exact ⟨h, rfl, fun c hc => hc⟩
  · exact ⟨h, rfl, fun c hc => hc⟩

/-- Spawning and adopting a player of a new client. -/
theorem seat_spawn_adopt {w : World UInt32 A} (h : w.Good) (centered : A) {client : Nat}
    (hclient : client ≠ 0) (hnew : w.players.lookup client = none)
    (position velocity : Vec2 UInt32) (sequence : Nat) :
    let spawned := w.spawnPlayer centered client position
    let adopted := spawned.2.adoptEntity centered spawned.1 client position velocity sequence
    adopted.Good ∧
      (∀ c, c ≠ client → adopted.players.lookup c = w.players.lookup c) ∧
      adopted.seat client = some (spawned.1, sequence) := by
  have hspawned := h.spawnPlayer centered hclient hnew position
  have hslot : (w.spawnPlayer centered client position).2.players.lookup client =
      some { entity := w.nextEntity, client, lastApplied := { axes := centered } } :=
    Finmap.lookup_insert _
  have howner := (hspawned.slot client _ hslot).1
  refine ⟨hspawned.adoptEntity centered hclient howner position velocity sequence, fun c hc => ?_, ?_⟩
  · simp only [World.adoptEntity, World.spawnPlayer, Table.lookup_insert, if_neg hc]
  · simp only [World.seat, World.adoptEntity, Table.lookup_insert, if_true, Option.map_some]

theorem Seated.deny {w : WorldServer R A} (h : w.Seated) (reason : DenyReason) :
    (w.deny reason).1.Seated := by
  refine h.of_world rfl rfl rfl (fun c p hp => ⟨p, hp, rfl, rfl⟩) fun p hp => ?_
  rcases List.mem_append.mp hp with hp | hp
  · exact Or.inl hp
  · cases List.mem_singleton.mp hp

/-- Handing out the sequence of a player. -/
theorem Seated.publish {w : WorldServer R A} (h : w.Seated) {client : Nat}
    {player : WorldPlayer R} (hplayer : w.players.lookup client = some player) :
    ({ w with trace := w.trace ++ [.published (w.publication player client)] } :
      WorldServer R A).Seated := by
  refine h.of_world rfl rfl rfl (fun c p hp => ⟨p, hp, rfl, rfl⟩) fun p hp => ?_
  rcases List.mem_append.mp hp with hp | hp
  · exact Or.inl hp
  · cases List.mem_singleton.mp hp
    exact Or.inr (h.publication hplayer)

/-- Rewriting a player without moving it. -/
theorem Seated.setPlayer {w : WorldServer R A} (h : w.Seated) {client : Nat}
    {player player' : WorldPlayer R} (hplayer : w.players.lookup client = some player)
    (hentity : player'.entity = player.entity)
    (hsequence : player'.lastInputSequence = player.lastInputSequence) :
    ({ w with players := w.players.insert client player' } : WorldServer R A).Seated := by
  refine h.of_world rfl rfl rfl (fun c p hp => ?_) fun p hp => Or.inl hp
  rw [Table.lookup_insert] at hp
  split at hp
  · cases hp
    exact ⟨player, ‹c = client› ▸ hplayer, hentity.symm, hsequence.symm⟩
  · exact ⟨p, hp, rfl, rfl⟩

theorem Seated.setCoordinator {w : WorldServer R A} (h : w.Seated)
    (coordinator : ShardCoordinator) : ({ w with coordinator } : WorldServer R A).Seated :=
  h.of_world rfl rfl rfl (fun _ p hp => ⟨p, hp, rfl, rfl⟩) fun _ hp => Or.inl hp

theorem Seated.dropExpired {w : WorldServer R A} (h : w.Seated) (now client : Nat) :
    (w.dropExpired now client).Seated := by
  unfold WorldServer.dropExpired
  split
  · exact (h.disconnect client now).1
  · split
    · exact h
    · rename_i player hplayer
      exact (h.remove hplayer).of_world rfl rfl rfl (fun _ p hp => ⟨p, hp, rfl, rfl⟩)
        fun _ hp => Or.inl hp

theorem Seated.redirect {w : WorldServer R A} (h : w.Seated) (client : Nat) (plan : HandoffPlan) :
    (w.redirect client plan).Seated := by
  unfold WorldServer.redirect
  dsimp only
  split
  · exact h
  · rename_i player hplayer
    split
    · exact h
    · refine Seated.of_world (h.setPlayer hplayer ?_ ?_) rfl rfl rfl
        (fun _ p hp => ⟨p, hp, rfl, rfl⟩) fun p hp => ?_
      · rfl
      · rfl
      · rcases List.mem_append.mp hp with hp | hp
        · exact Or.inl hp
        · cases List.mem_singleton.mp hp

theorem Seated.refreshCluster {w : WorldServer R A} (h : w.Seated) (now : Nat)
    (roster : List Nat) : (w.refreshCluster now roster).1.Seated := by
  unfold WorldServer.refreshCluster
  split
  · exact h
  · exact h.of_world rfl rfl rfl (fun _ p hp => ⟨p, hp, rfl, rfl⟩) fun _ hp => Or.inl hp

section
variable [LT R] (env : ShardEnv R A)

theorem Seated.join {w : WorldServer R A} (h : w.Seated) {client : Nat} (hclient : client ≠ 0)
    (hlt : client < w.nextClient) (hnew : w.world.players.lookup client = none)
    (admitted : PendingAdmit) (now : Nat) : (w.join env client admitted now).1.Seated := by
  unfold WorldServer.join
  generalize startState env.spawnPoint w admitted now = start
  obtain ⟨position, velocity, sequence, region, resumed⟩ := start
  obtain ⟨hgood, hothers, hseat⟩ := seat_spawn_adopt h.world env.sim.centered hclient hnew position
    velocity sequence
  have hnone : w.players.lookup client = none := by
    cases hplayer : w.players.lookup client with
    | none => rfl
    | some player =>
      have := h.seat client player hplayer
      rw [World.seat, hnew] at this
      cases this
  have hmem : client ∉ w.players := Finmap.lookup_eq_none.mp hnone
  dsimp only
  refine ⟨hgood, h.pending, h.positive, fun c hc => ?_, fun c player hplayer => ?_, fun p hp => ?_⟩
  · exact (hothers c (by dsimp only at hc; omega)).trans (h.numbered c hc)
  · simp only [if_neg hmem, Table.lookup_insert] at hplayer
    split at hplayer
    · cases hplayer
      rw [‹c = client›]
      exact hseat
    · have hold := h.seat c player hplayer
      unfold World.seat at hold ⊢
      rw [hothers c ‹_›]
      exact hold
  · rcases List.mem_append.mp hp with hp | hp
    · exact h.published p hp
    · cases List.mem_singleton.mp hp

theorem Seated.finishAdmit {w : WorldServer R A} (h : w.Seated) (credential : ConnectCredential)
    (ticket : Option MigrationTicket) (region admittedMs now : Nat) :
    (w.finishAdmit env credential ticket region admittedMs now).1.Seated := by
  rw [finishAdmit_eq env h.pending]
  have hnew := h.numbered w.nextClient (Nat.le_refl _)
  obtain ⟨hstale, hnext, hfree⟩ := (h.numberClient credential.playerId).replaceStale
    credential.playerId w.nextClient now
  exact hstale.join env (Nat.ne_of_gt h.positive) (by rw [hnext]; exact Nat.lt_succ_self _)
    (hfree _ hnew) _ now

theorem Seated.admitTicketed {w : WorldServer R A} (h : w.Seated) (credential : ConnectCredential)
    (ticket : MigrationTicket) (admittedMs now : Nat) :
    (w.admitTicketed env credential ticket admittedMs now).1.Seated := by
  unfold WorldServer.admitTicketed
  split
  · exact h.deny _
  · exact h.finishAdmit env credential (some ticket) ticket.region admittedMs now

theorem Seated.admitClient {w : WorldServer R A} (h : w.Seated) (credential : Option ConnectCredential)
    (now : Nat) : (w.admitClient env credential now).1.Seated := by
  unfold WorldServer.admitClient
  cases credential with
  | none => exact h.deny _
  | some credential =>
    have hnone : ((w.pendingByPlayer.lookup credential.playerId).bind
        fun client => w.pendingAdmits.lookup client) = none := by
      rw [h.pending]
      cases w.pendingByPlayer.lookup credential.playerId <;> rfl
    dsimp only
    rw [hnone, Option.filter_none]
    dsimp only
    split
    · exact h.deny _
    · split
      · split
        · exact h.admitTicketed env credential _ now now
        · split
          · exact h
          · exact h.deny _
      · split
        · exact h
        · exact h.finishAdmit env credential none 0 now now

/-- A packet raises the server's copy and the slot's highest sequence alike. -/
theorem seat_foldl_queueInput (quantize : A → A) (client : Nat) (inputs : List (MoveInput A))
    {world : World UInt32 A} (h : world.Good) :
    let after := inputs.foldl (fun world input =>
      world.queueInput quantize client { input with axes := quantize input.axes }) world
    after.Good ∧ (∀ c, world.players.lookup c = none → after.players.lookup c = none) ∧
      (∀ c, c ≠ client → after.seat c = world.seat c) ∧
      ∀ entity last, world.seat client = some (entity, last) →
        after.seat client = some (entity, inputs.foldl
          (fun last input => if last < input.sequence then input.sequence else last) last) := by
  induction inputs generalizing world with
  | nil => exact ⟨h, fun _ => id, fun _ _ => rfl, fun _ _ => id⟩
  | cons input inputs ih =>
    have hseat := world.seat_queueInput quantize client { input with axes := quantize input.axes }
    obtain ⟨hgood, hnone, hothers, hown⟩ :=
      ih (h.queueInput quantize client { input with axes := quantize input.axes })
    refine ⟨hgood, fun c hc => hnone c ?_, fun c hc => ?_, fun entity last hlast => ?_⟩
    · have hmap := hseat c
      rw [World.seat, World.seat, hc] at hmap
      simpa using hmap
    · rw [List.foldl_cons, hothers c hc, hseat, if_neg hc]
    · refine hown entity _ ?_
      rw [hseat, if_pos rfl, hlast, Option.map_some]
      dsimp only
      congr 2
      split <;> omega

theorem Seated.onPayload {w : WorldServer R A} (h : w.Seated) (client : Nat)
    (packet : Option (InputPacket A)) : (w.onPayload env client packet).Seated := by
  unfold WorldServer.onPayload
  split
  · rename_i player packet hplayer
    split
    · exact h
    · obtain ⟨hgood, hnone, hothers, hown⟩ := seat_foldl_queueInput env.sim.quantizeInput client
        packet.inputs h.world
      refine ⟨hgood, h.pending, h.positive, fun c hc => hnone c (h.numbered c hc),
        fun c other hother => ?_, h.published⟩
      rw [Table.lookup_insert] at hother
      split at hother
      · have hseat := hown _ _ (h.seat client player hplayer)
        cases hother
        rw [‹c = client›, hseat]
        split <;> rfl
      · exact (hothers c ‹_›).trans (h.seat c other hother)
  · exact h

theorem Seated.checkMigrations {w : WorldServer R A} (h : w.Seated) (now : Nat)
    (rest expired : List Nat) : (checkMigrations env now w rest expired).1.Seated := by
  induction rest generalizing w expired with
  | nil =>
    have hfold : ∀ (clients : List Nat) {w : WorldServer R A}, w.Seated →
        (clients.foldl (fun w client => w.dropExpired now client) w).Seated := by
      intro clients
      induction clients with
      | nil => exact fun h => h
      | cons client clients ih => exact fun h => ih (h.dropExpired now client)
    exact hfold expired h
  | cons client rest ih =>
    unfold WorldServer.checkMigrations
    split
    · exact ih h expired
    · rename_i player hplayer
      split
      · exact ih h _
      · split
        · exact ih h expired
        · split
          · exact ih h expired
          · split
            · refine ih (h.setPlayer hplayer ?_ ?_) expired <;> rfl
            · split
              · exact ih (h.setCoordinator _) expired
              · have hpublished := (h.publish hplayer).setCoordinator
                dsimp only
                split
                · exact ih (hpublished _) expired
                · exact hpublished _

theorem Seated.resume {w : WorldServer R A} (h : w.Seated) (now : Nat)
    (replies : Option (List RedisReply)) (task : Task) :
    (w.resume env now replies task).1.Seated := by
  cases task with
  | admitSession credential admittedMs =>
    simp only [WorldServer.resume]
    split
    · exact h.deny _
    · split
      · exact h.deny _
      · split
        · exact h.deny _
        · exact h.finishAdmit env credential none _ admittedMs now
  | admitTicket credential admittedMs =>
    simp only [WorldServer.resume]
    split
    · exact h.deny _
    · refine Seated.admitTicketed env ?_ credential _ admittedMs now
      exact h.of_world rfl rfl rfl (fun _ p hp => ⟨p, hp, rfl, rfl⟩) fun _ hp => Or.inl hp
  | touch record => exact h
  | handoff client plan stamped sentMs rest expired =>
    simp only [WorldServer.resume]
    split
    · exact (h.redirect client plan).checkMigrations env now rest expired
    · exact h
    · exact h.checkMigrations env now rest expired
  | discard token rest expired => exact h.checkMigrations env now rest expired
  | heartbeat records heartbeatMs =>
    exact h.of_world rfl rfl rfl (fun _ p hp => ⟨p, hp, rfl, rfl⟩) fun _ hp => Or.inl hp

/-- The world's part of a tick. -/
theorem Seated.stepped {w : WorldServer R A} (h : w.Seated) (clients : List Nat) :
    ({ w with world := w.world.step env.sim clients } : WorldServer R A).Seated := by
  obtain ⟨hgood, hseat⟩ := h.world.step env.sim clients
  refine ⟨hgood, h.pending, h.positive, fun c hc => ?_, fun c player hplayer => ?_, h.published⟩
  · have hnone := hseat c
    rw [World.seat, World.seat, h.numbered c hc] at hnone
    simpa using hnone
  · exact (hseat c).trans (h.seat c player hplayer)

variable [Add R] [Mul R] [Neg R] [DecidableLT R] [OfScientific R]

theorem Seated.replicateTo {w : WorldServer R A} (h : w.Seated) (client : Nat) :
    (w.replicateTo env client).Seated := by
  unfold WorldServer.replicateTo
  split
  · exact h
  · rename_i player hplayer
    split
    · exact h
    · refine Seated.setPlayer (h.publish hplayer) hplayer ?_ ?_ <;> rfl

theorem Seated.tick {w : WorldServer R A} (h : w.Seated) (now : Nat) (clients roster : List Nat) :
    (w.tick env now clients roster).1.Seated := by
  have hreplicated : ∀ (roster : List Nat) {w : WorldServer R A}, w.Seated →
      (roster.foldl (WorldServer.replicateTo env) w).Seated := by
    intro roster
    induction roster with
    | nil => exact fun h => h
    | cons client roster ih => exact fun h => ih (h.replicateTo env client)
  unfold WorldServer.tick
  dsimp only
  split
  · exact (hreplicated roster (h.stepped env clients)).checkMigrations env now roster []
  · exact hreplicated roster (h.stepped env clients)

end
end WorldServer

namespace Shard

theorem seated_start {R A : Type} (config : WorldServerConfig R) (coordinator : ShardCoordinator)
    (drifters : List (Vec2 UInt32)) :
    (start config coordinator drifters : Shard R A).server.Seated := by
  have hworld : ∀ (drifters : List (Vec2 UInt32)) {world : World UInt32 A}, world.Good →
      (∀ c, world.players.lookup c = none) →
      (drifters.foldl (fun world position => (world.spawnDrifter position).2) world).Good ∧
        ∀ c, (drifters.foldl (fun world position => (world.spawnDrifter position).2)
          world).players.lookup c = none := by
    intro drifters
    induction drifters with
    | nil => exact fun h hnone => ⟨h, hnone⟩
    | cons position drifters ih => exact fun h hnone => ih (h.spawnDrifter position) hnone
  obtain ⟨hgood, hnone⟩ := hworld drifters World.Good.empty fun c => rfl
  refine ⟨hgood, rfl, Nat.one_pos, fun c _ => hnone c, ?_, ?_⟩
  · intro c player hplayer
    cases hplayer
  · intro p hp
    cases hp

variable {R A : Type} [LT R] [Add R] [Mul R] [Neg R] [DecidableLT R] [OfScientific R]
  (env : ShardEnv R A)

theorem seated_step (s : Shard R A) (action : ShardAction A) (h : s.server.Seated) :
    (s.step env action).server.Seated := by
  unfold step
  split
  · exact h.resume env _ _ _
  · exact h.admitClient env _ _
  · exact (h.disconnect _ _).1
  · split
    · exact h.onPayload env _ _
    · exact h
  · exact h.tick env _ _ _
  · exact h.refreshCluster _ _
  · exact h.setCoordinator _
  · exact h

/-- In every state a shard can reach, whatever arrives between ticks and whatever Redis
answers, each sequence handed out by `replicate` or put in a ticket is the simulated one,
and of no waiting command, exactly when the player had no command waiting. -/
theorem published_truthful_iff (config : WorldServerConfig R) (coordinator : ShardCoordinator)
    (drifters : List (Vec2 UInt32)) (actions : List (ShardAction A)) :
    ∀ p, Trace.published p ∈
        (Run.run (step env) (start config coordinator drifters) actions).server.trace →
      (p.Truthful ↔ p.waiting = []) := by
  have hrun := Run.invariant_always (fun s : Shard R A => s.server.Seated)
    (fun s action => seated_step env s action) (seated_start config coordinator drifters) actions
  exact hrun.published

/-- One command before the first tick, two before the second, none before the third, which also
sends the player to another shard. -/
def catchingUp : List (ShardAction Unit) :=
  [.connect (some { token := 5, playerId := [112] }) 0,
    .resume (some [.hash (some { shard := [97], region := 0, session := some 5, updated := 0 })]) 0,
    .resume (some []) 0,
    .payload 1 (some { inputs := [{ sequence := 1, axes := () }] }), .tick 0 [1] [1],
    .payload 1 (some { inputs := [{ sequence := 2, axes := () }, { sequence := 3, axes := () }] }),
    .tick 1 [1] [1],
    .membership [{ id := [97], udpEndpoint := [1] }, { id := [98], udpEndpoint := [2] }],
    .tick 2 [1] [1]]

/-- The snapshot of the second tick is ahead; the others and the ticket are not. -/
theorem published_truthful_catchingUp :
    (Run.run (step ShardEnv.eastward)
      (start { shardId := [97], interest := { distancePriorityFalloff := 1 } }
        { config := { id := [97] } } []) catchingUp).server.trace =
      [.joined 1 { token := 5, playerId := [112] } none, .published ⟨1, 1, some 1, []⟩,
        .published ⟨1, 3, some 2, [3]⟩, .published ⟨1, 3, some 3, []⟩,
        .published ⟨1, 3, some 3, []⟩] ∧
      (⟨1, 1, some 1, []⟩ : Publication).Truthful ∧
      ¬ (⟨1, 3, some 2, [3]⟩ : Publication).Truthful ∧
      (⟨1, 3, some 3, []⟩ : Publication).Truthful := by
  have htrace : (Run.run (step ShardEnv.eastward)
      (start { shardId := [97], interest := { distancePriorityFalloff := 1 } }
        { config := { id := [97] } } []) catchingUp).server.trace =
      [.joined 1 { token := 5, playerId := [112] } none, .published ⟨1, 1, some 1, []⟩,
        .published ⟨1, 3, some 2, [3]⟩, .published ⟨1, 3, some 3, []⟩,
        .published ⟨1, 3, some 3, []⟩] := by decide +kernel
  have hiff := published_truthful_iff ShardEnv.eastward
    { shardId := [97], interest := { distancePriorityFalloff := 1 } } { config := { id := [97] } } []
    catchingUp
  rw [htrace] at hiff
  refine ⟨htrace, (hiff _ (by simp)).mpr rfl, fun htrue => ?_, (hiff _ (by simp)).mpr rfl⟩
  cases (hiff ⟨1, 3, some 2, [3]⟩ (by simp)).mp htrue

/-- Two commands in one packet before a tick: the shard simulates the first and hands out
the sequence of the second. -/
theorem published_ahead_of_simulation :
    Trace.published ⟨1, 2, some 1, [2]⟩ ∈
        (Run.run (step ShardEnv.still)
          (start
            { shardId := [97], interest := { distancePriorityFalloff := 1 }, advertise := false }
            { config := { id := [97] } } [])
          [.connect (some { token := 5, playerId := [112] }) 0,
            .payload 1 (some
              { inputs := [{ sequence := 1, axes := () }, { sequence := 2, axes := () }] }),
            .tick 0 [1] [1]]).server.trace ∧
      ¬ (⟨1, 2, some 1, [2]⟩ : Publication).Truthful := by
  decide

end Shard
end Morton.App
