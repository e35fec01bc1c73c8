import Morton.App.InputTruth
import Morton.Base.Run

/-! The tables of a shard name the same clients: its players, its connections, the index by
player id and the slots of the world. A newcomer is connected before it is a player; in
between it is the guest. -/
namespace Morton.App
open Proto Sim Cluster
namespace WorldServer
variable {R A : Type}

structure Kept (guest : Option Nat) (w : WorldServer R A) : Prop where
  connected : ∀ client ∈ w.connections, some client ≠ guest →
    ∃ player, w.players.lookup client = some player
  indexed : ∀ id client, w.byPlayerId.lookup id = some client →
    ∃ player, w.players.lookup client = some player ∧ player.playerId = id
  simulated : ∀ client slot, w.world.players.lookup client = some slot →
    ∃ player, w.players.lookup client = some player
  answered : w.pendingByPlayer = ∅
  capacity : w.players.keys.card ≤ w.config.capacity

/-- Handlers that leave every table as it is, but for what a player is like. -/
theorem Kept.of_tables {guest : Option Nat} {w w' : WorldServer R A} (h : w.Kept guest)
    (hconnections : w'.connections = w.connections) (hindex : w'.byPlayerId = w.byPlayerId)
    (hslots : ∀ client slot, w'.world.players.lookup client = some slot →
      ∃ old, w.world.players.lookup client = some old)
    (hpending : w'.pendingByPlayer = w.pendingByPlayer) (hconfig : w'.config = w.config)
    (hplayers : ∀ client player, w.players.lookup client = some player →
      ∃ player', w'.players.lookup client = some player' ∧ player'.playerId = player.playerId)
    (hkeys : w'.players.keys = w.players.keys) : w'.Kept guest where
  connected client hclient hguest := by
    obtain ⟨player, hplayer⟩ := h.connected client (hconnections ▸ hclient) hguest
    obtain ⟨player', hplayer', -⟩ := hplayers client player hplayer
    exact ⟨player', hplayer'⟩
  indexed id client hid := by
    rw [hindex] at hid
    obtain ⟨player, hplayer, hname⟩ := h.indexed id client hid
    obtain ⟨player', hplayer', hsame⟩ := hplayers client player hplayer
    exact ⟨player', hplayer', hsame.trans hname⟩
  simulated client slot hslot := by
    obtain ⟨old, hold⟩ := hslots client slot hslot
    obtain ⟨player, hplayer⟩ := h.simulated client old hold
    obtain ⟨player', hplayer', -⟩ := hplayers client player hplayer
    exact ⟨player', hplayer'⟩
  answered := hpending.trans h.answered
  capacity := by
    rw [hkeys, hconfig]
    exact h.capacity

theorem Kept.of_same {guest : Option Nat} {w w' : WorldServer R A} (h : w.Kept guest)
    (hworld : w'.world = w.world) (hconnections : w'.connections = w.connections)
    (hindex : w'.byPlayerId = w.byPlayerId) (hpending : w'.pendingByPlayer = w.pendingByPlayer)
    (hconfig : w'.config = w.config) (hplayers : w'.players = w.players) : w'.Kept guest :=
  h.of_tables hconnections hindex (fun _ slot hslot => ⟨slot, hworld ▸ hslot⟩) hpending hconfig
    (fun _ player hplayer => ⟨player, hplayers ▸ hplayer, rfl⟩) (by rw [hplayers])

theorem keys_insert_of_lookup {w : WorldServer R A} {client : Nat} {player : WorldPlayer R}
    (h : w.players.lookup client = some player) (player' : WorldPlayer R) :
    (w.players.insert client player').keys = w.players.keys := by
  rw [Table.keys_insert]
  exact Finset.insert_eq_self.mpr (Table.mem_keys_iff.mpr ⟨player, h⟩)

theorem Kept.setPlayer {guest : Option Nat} {w : WorldServer R A} (h : w.Kept guest) {client : Nat}
    {player player' : WorldPlayer R} (hplayer : w.players.lookup client = some player)
    (hid : player'.playerId = player.playerId) :
    ({ w with players := w.players.insert client player' } : WorldServer R A).Kept guest := by
  refine h.of_tables rfl rfl (fun _ slot hslot => ⟨slot, hslot⟩) rfl rfl (fun c other hother => ?_)
    (keys_insert_of_lookup hplayer player')
  rw [Table.lookup_insert]
  split
  · subst ‹c = client›
    cases hplayer.symm.trans hother
    exact ⟨player', rfl, hid⟩
  · exact ⟨other, hother, rfl⟩

/-- A player leaves every table at once. -/
theorem Kept.remove {guest : Option Nat} {w w' : WorldServer R A} (h : w.Kept guest)
    (hseated : w.Seated) {client : Nat} {player : WorldPlayer R}
    (hplayer : w.players.lookup client = some player)
    (hworld : w'.world = w.world.despawn player.entity)
    (hconnections : w'.connections = w.connections.erase client)
    (hindex : w'.byPlayerId = w.byPlayerId.erase player.playerId)
    (hplayers : w'.players = w.players.erase client)
    (hpending : w'.pendingByPlayer = w.pendingByPlayer) (hconfig : w'.config = w.config) :
    w'.Kept guest where
  connected c hc hguest := by
    rw [hconnections] at hc
    obtain ⟨hne, hc⟩ := Finset.mem_erase.mp hc
    obtain ⟨other, hother⟩ := h.connected c hc hguest
    exact ⟨other, by rw [hplayers, Table.lookup_erase, if_neg hne, hother]⟩
  indexed id c hid := by
    rw [hindex] at hid
    obtain ⟨hne, hid⟩ := Table.lookup_erase_some hid
    obtain ⟨other, hother, hname⟩ := h.indexed id c hid
    refine ⟨other, ?_, hname⟩
    rw [hplayers, Table.lookup_erase, if_neg]
    · exact hother
    · rintro rfl
      cases hplayer.symm.trans hother
      exact hne hname.symm
  simulated c slot hslot := by
    obtain ⟨own, hown, hseat⟩ := Option.map_eq_some_iff.mp (hseated.seat client player hplayer)
    have hentity : own.entity = player.entity := congrArg Prod.fst hseat
    have howner := (hseated.world.slot client own hown).1
    rw [hentity] at howner
    rw [hworld, hseated.world.players_despawn howner] at hslot
    split at hslot
    · cases hslot
    · obtain ⟨other, hother⟩ := h.simulated c slot hslot
      exact ⟨other, by rw [hplayers, Table.lookup_erase, if_neg ‹_›, hother]⟩
  answered := hpending.trans h.answered
  capacity := by
    have hle : w'.players.keys.card ≤ w.players.keys.card := by
      refine Finset.card_le_card fun c hc => ?_
      obtain ⟨other, hother⟩ := Table.mem_keys_iff.mp hc
      rw [hplayers] at hother
      exact Table.mem_keys_iff.mpr ⟨other, (Table.lookup_erase_some hother).2⟩
    rw [hconfig]
    exact Nat.le_trans hle h.capacity

theorem Kept.disconnect {guest : Option Nat} {w : WorldServer R A} (h : w.Kept guest)
    (htidy : w.Tidy) (hseated : w.Seated) (client now : Nat) :
    (w.disconnect client now).Kept guest := by
  unfold WorldServer.disconnect
  split
  · cases hplayer : w.players.lookup client with
    | none =>
      simp only [onDisconnect, hplayer]
      refine ⟨fun c hc => h.connected c (Finset.mem_of_mem_erase hc), h.indexed, h.simulated,
        h.answered, h.capacity⟩
    | some player =>
      have hindex := (htidy.indexed client player hplayer).1
      simp only [onDisconnect, hplayer, hindex, if_true]
      exact h.remove hseated hplayer rfl rfl rfl rfl rfl rfl
  · exact h

theorem connections_disconnect (w : WorldServer R A) (client now : Nat) :
    (w.disconnect client now).connections = w.connections.erase client := by
  unfold WorldServer.disconnect
  split
  · unfold onDisconnect
    split <;> rfl
  · exact (Finset.erase_eq_of_notMem ‹_›).symm

theorem Kept.replaceStale {guest : Option Nat} {w : WorldServer R A} (h : w.Kept guest)
    (htidy : w.Tidy) (hseated : w.Seated) (playerId : Bytes) (client now : Nat) :
    (w.replaceStale playerId client now).Kept guest := by
  unfold WorldServer.replaceStale
  split
  · split
    · exact h.disconnect htidy hseated _ now
    · exact h
  · exact h

theorem Kept.deny {guest : Option Nat} {w : WorldServer R A} (h : w.Kept guest)
    (reason : DenyReason) : (w.deny reason).1.Kept guest :=
  h.of_same rfl rfl rfl rfl rfl rfl

theorem Kept.dropExpired {w : WorldServer R A} (h : w.Kept none) (htidy : w.Tidy)
    (hseated : w.Seated) (now client : Nat) : (w.dropExpired now client).Kept none := by
  unfold WorldServer.dropExpired
  split
  · exact h.disconnect htidy hseated client now
  · rename_i hclient
    split
    · exact h
    · rename_i player hplayer
      exact absurd (htidy.indexed client player hplayer).2 hclient

theorem Kept.redirect {w : WorldServer R A} (h : w.Kept none) (client : Nat) (plan : HandoffPlan) :
    (w.redirect client plan).Kept none := by
  rcases w.redirect_cases client plan with hsame | ⟨player, hplayer, hredirect⟩
  · rw [hsame]
    exact h
  · rw [hredirect]
    refine Kept.of_same (h.setPlayer hplayer ?_) rfl rfl rfl rfl rfl rfl
    rfl

/-- The newcomer is a guest until it joins. -/
theorem Kept.numberClient {w : WorldServer R A} (h : w.Kept none) (playerId : Bytes) :
    (w.numberClient playerId).Kept (some w.nextClient) where
  connected client hclient hguest := by
    rcases Finset.mem_insert.mp hclient with rfl | hclient
    · exact absurd rfl hguest
    · exact h.connected client hclient (by simp)
  indexed := h.indexed
  simulated := h.simulated
  answered := by
    refine Finmap.ext_lookup fun id => ?_
    simp only [WorldServer.numberClient, Table.lookup_erase, Table.lookup_insert, h.answered]
    split <;> rfl
  capacity := h.capacity

theorem card_replaceStale (w : WorldServer R A) (playerId : Bytes) (client now : Nat) :
    (w.replaceStale playerId client now).players.keys.card ≤ w.players.keys.card := by
  refine Finset.card_le_card fun c hc => ?_
  obtain ⟨player, hplayer⟩ := Table.mem_keys_iff.mp hc
  obtain ⟨old, hold, -⟩ := (w.continues_replaceStale playerId client now).players c player hplayer
  exact Table.mem_keys_iff.mpr ⟨old, hold⟩

section
variable [LT R] (env : ShardEnv R A)

theorem Kept.join {w : WorldServer R A} {client : Nat} (h : w.Kept (some client))
    (hnew : w.players.lookup client = none) (hroom : w.players.keys.card < w.config.capacity)
    (admitted : PendingAdmit) (now : Nat) : (w.join env client admitted now).1.Kept none := by
  have hmem : client ∉ w.players := Finmap.lookup_eq_none.mp hnew
  unfold WorldServer.join
  generalize startState env.spawnPoint w admitted now = start
  obtain ⟨position, velocity, sequence, region, resumed⟩ := start
  simp only [if_neg hmem]
  -- who was there before is still there
  have hkept : ∀ (newcomer : WorldPlayer R) c player, w.players.lookup c = some player →
      (w.players.insert client newcomer).lookup c = some player := by
    intro newcomer c player hplayer
    rw [Table.lookup_insert, if_neg]
    · exact hplayer
    · rintro rfl
      cases hnew.symm.trans hplayer
  refine ⟨fun c hc _ => ?_, fun id c hid => ?_, fun c slot hslot => ?_, h.answered, ?_⟩
  · by_cases hself : c = client
    · exact ⟨_, by rw [hself, Finmap.lookup_insert]⟩
    · obtain ⟨player, hplayer⟩ := h.connected c hc (by simpa using hself)
      exact ⟨player, hkept _ c player hplayer⟩
  · dsimp only at hid
    rw [Table.lookup_insert] at hid
    split at hid
    · cases hid
      exact ⟨_, Finmap.lookup_insert _, (‹id = _›).symm⟩
    · obtain ⟨player, hplayer, hname⟩ := h.indexed id c hid
      exact ⟨player, hkept _ c player hplayer, hname⟩
  · by_cases hself : c = client
    · exact ⟨_, by rw [hself, Finmap.lookup_insert]⟩
    · simp only [World.adoptEntity, World.spawnPlayer, Table.lookup_insert, if_neg hself] at hslot
      obtain ⟨player, hplayer⟩ := h.simulated c slot hslot
      exact ⟨player, hkept _ c player hplayer⟩
  · dsimp only
    rw [Table.keys_insert, Finset.card_insert_of_notMem (Table.notMem_keys hnew)]
    exact hroom

theorem Kept.finishAdmit {w : WorldServer R A} (h : w.Kept none) (htidy : w.Tidy)
    (hseated : w.Seated) (hroom : w.players.keys.card < w.config.capacity)
    (credential : ConnectCredential) (ticket : Option MigrationTicket)
    (region admittedMs now : Nat) :
    (w.finishAdmit env credential ticket region admittedMs now).1.Kept none := by
  rw [finishAdmit_eq env htidy.pending]
  have hnumbered := tidy_numberClient htidy credential.playerId
  have hstale := (h.numberClient credential.playerId).replaceStale hnumbered
    (hseated.numberClient credential.playerId) credential.playerId w.nextClient now
  have hcontinues := (w.numberClient credential.playerId).continues_replaceStale
    credential.playerId w.nextClient now
  have hcard := (w.numberClient credential.playerId).card_replaceStale credential.playerId
    w.nextClient now
  refine hstale.join env ?_ ?_ _ now
  · cases hlookup : ((w.numberClient credential.playerId).replaceStale credential.playerId
        w.nextClient now).players.lookup w.nextClient with
    | none => rfl
    | some player =>
      obtain ⟨old, hold, -⟩ := hcontinues.players _ player hlookup
      exact absurd (htidy.numbered _ old hold) (Nat.lt_irrefl _)
  · rw [hcontinues.config]
    exact Nat.lt_of_le_of_lt hcard hroom

theorem Kept.admitTicketed {w : WorldServer R A} (h : w.Kept none) (htidy : w.Tidy)
    (hseated : w.Seated) (hroom : w.players.keys.card < w.config.capacity)
    (credential : ConnectCredential) (ticket : MigrationTicket) (admittedMs now : Nat) :
    (w.admitTicketed env credential ticket admittedMs now).1.Kept none := by
  unfold WorldServer.admitTicketed
  split
  · exact h.deny _
  · exact h.finishAdmit env htidy hseated hroom credential (some ticket) _ admittedMs now

/-- `admit` asks Redis only while there is room. -/
theorem Kept.admitClient {w : WorldServer R A} (h : w.Kept none) (htidy : w.Tidy)
    (hseated : w.Seated) (offered : Option ConnectCredential) (now : Nat) :
    (w.admitClient env offered now).1.Kept none ∧
    ∀ task credential, (w.admitClient env offered now).2 = some task →
      task.credential = some credential →
      (w.admitClient env offered now).1.players.keys.card <
        (w.admitClient env offered now).1.config.capacity := by
  have hfinish : ∀ credential ticket region task found,
      (w.finishAdmit env credential ticket region now now).2 = some task →
      task.credential ≠ some found := by
    intro credential ticket region task found htask
    rcases (finishAdmit_joins env htidy credential ticket region now now).2 with
      hnone | ⟨-, record, htouch, -⟩
    · cases hnone.symm.trans htask
    · cases htouch.symm.trans htask
      simp [Task.credential]
  unfold WorldServer.admitClient
  cases offered with
  | none => exact ⟨h.deny _, fun task credential htask => by cases htask⟩
  | some credential =>
    have hnone : ((w.pendingByPlayer.lookup credential.playerId).bind
        fun client => w.pendingAdmits.lookup client) = none := by
      rw [h.answered]
      rfl
    simp only [hnone, Option.filter_none]
    split
    · exact ⟨h.deny _, fun task credential htask => by cases htask⟩
    · rename_i hroom
      rw [Nat.not_le] at hroom
      split
      · split
        · rename_i ticket hcached
          refine ⟨h.admitTicketed env htidy hseated hroom credential ticket now now, ?_⟩
          intro task found htask hfound
          unfold WorldServer.admitTicketed at htask
          split at htask
          · cases htask
          · exact absurd hfound (hfinish _ _ _ _ _ htask)
        · split
          · exact ⟨h, fun _ _ _ _ => hroom⟩
          · exact ⟨h.deny _, fun task credential htask => by cases htask⟩
      · split
        · exact ⟨h, fun _ _ _ _ => hroom⟩
        · refine ⟨h.finishAdmit env htidy hseated hroom credential none 0 now now, ?_⟩
          intro task found htask hfound
          exact absurd hfound (hfinish _ _ _ _ _ htask)

theorem Kept.onPayload {w : WorldServer R A} (h : w.Kept none) (hseated : w.Seated) (client : Nat)
    (packet : Option (InputPacket A)) : (w.onPayload env client packet).Kept none := by
  unfold WorldServer.onPayload
  split
  · rename_i player packet hplayer
    split
    · exact h
    · have hslots := (seat_foldl_queueInput env.sim.quantizeInput client packet.inputs
        hseated.world).2.1
      have hworld : Kept none { w with world := packet.inputs.foldl (fun world input =>
          world.queueInput env.sim.quantizeInput client
            { input with axes := env.sim.quantizeInput input.axes }) w.world } := by
        refine h.of_tables rfl rfl (fun c slot hslot => ?_) rfl rfl
          (fun c other hother => ⟨other, hother, rfl⟩) rfl
        cases hold : w.world.players.lookup c with
        | none => cases (hslots c hold).symm.trans hslot
        | some old => exact ⟨old, rfl⟩
      refine hworld.setPlayer hplayer ?_
      split <;> rfl
  · exact h

theorem Kept.checkMigrations {w : WorldServer R A} (h : w.Kept none) (htidy : w.Tidy)
    (hseated : w.Seated) (now : Nat) (rest expired : List Nat) :
    (checkMigrations env now w rest expired).1.Kept none := by
  induction rest generalizing w expired with
  | nil =>
    have hfold : ∀ (clients : List Nat) {w : WorldServer R A}, w.Kept none → w.Tidy → w.Seated →
        (clients.foldl (fun w client => w.dropExpired now client) w).Kept none := by
      intro clients
      induction clients with
      | nil => exact fun h _ _ => h
      | cons client clients ih =>
        intro w h htidy hseated
        exact ih (h.dropExpired htidy hseated now client)
          ((w.continues_dropExpired now client).tidy htidy) (hseated.dropExpired now client)
    exact hfold expired h htidy hseated
  | cons client rest ih =>
    unfold WorldServer.checkMigrations
    split
    · exact ih h htidy hseated expired
    · rename_i player hplayer
      split
      · exact ih h htidy hseated _
      · split
        · exact ih h htidy hseated expired
        · split
          · exact ih h htidy hseated expired
          · split
            · refine ih (h.setPlayer hplayer ?_)
                ((continues_setPlayer hplayer ?_ ?_ ?_).tidy htidy) (hseated.setPlayer hplayer ?_ ?_)
                expired <;> rfl
            · split
              · refine ih ?_ ?_ (hseated.setCoordinator _) expired
                · exact h.of_same rfl rfl rfl rfl rfl rfl
                · exact ⟨htidy.pending, htidy.numbered, htidy.indexed⟩
              · have hpublished := (hseated.publish hplayer).setCoordinator
                dsimp only
                split
                · refine ih ?_ ?_ (hpublished _) expired
                  · exact h.of_same rfl rfl rfl rfl rfl rfl
                  · exact ⟨htidy.pending, htidy.numbered, htidy.indexed⟩
                · exact h.of_same rfl rfl rfl rfl rfl rfl

theorem Kept.resume {w : WorldServer R A} (h : w.Kept none) (htidy : w.Tidy) (hseated : w.Seated)
    {task : Task} (hroom : ∀ credential, task.credential = some credential →
      w.players.keys.card < w.config.capacity) (now : Nat)
    (replies : Option (List RedisReply)) : (w.resume env now replies task).1.Kept none := by
  cases task with
  | admitSession credential admittedMs =>
    simp only [WorldServer.resume]
    split
    · exact h.deny _
    · split
      · exact h.deny _
      · split
        · exact h.deny _
        · exact h.finishAdmit env htidy hseated (hroom credential rfl) credential none _
            admittedMs now
  | admitTicket credential admittedMs =>
    simp only [WorldServer.resume]
    split
    · exact h.deny _
    · refine Kept.admitTicketed env ?_ ?_ ?_ ?_ credential _ admittedMs now
      · exact h.of_same rfl rfl rfl rfl rfl rfl
      · exact ⟨htidy.pending, htidy.numbered, htidy.indexed⟩
      · exact hseated.of_world rfl rfl rfl (fun _ p hp => ⟨p, hp, rfl, rfl⟩) fun _ hp => Or.inl hp
      · exact hroom credential rfl
  | touch record sentMs => exact h
  | handoff client plan stamped sentMs rest expired =>
    have hheard := (w.hears_heard replies (.handoff client plan stamped sentMs rest expired)).tidy
      htidy
    simp only [heard] at hheard
    simp only [WorldServer.resume]
    cases hjudge : MigrationStore.judge replies with
    | published =>
      rw [if_pos hjudge] at hheard
      exact (h.redirect client plan).checkMigrations env hheard (hseated.redirect client plan) now
        rest expired
    | discard => exact h
    | failed => exact h.checkMigrations env htidy hseated now rest expired
  | discard token rest expired => exact h.checkMigrations env htidy hseated now rest expired
  | heartbeat records heartbeatMs => exact h.of_same rfl rfl rfl rfl rfl rfl

variable [Add R] [Mul R] [Neg R] [DecidableLT R] [OfScientific R]

theorem Kept.replicateTo {w : WorldServer R A} (h : w.Kept none) (client : Nat) :
    (w.replicateTo env client).Kept none := by
  unfold WorldServer.replicateTo
  split
  · exact h
  · rename_i player hplayer
    split
    · exact h
    · refine Kept.of_same (h.setPlayer hplayer ?_) rfl rfl rfl rfl rfl rfl
      rfl

theorem Kept.tick {w : WorldServer R A} (h : w.Kept none) (htidy : w.Tidy) (hseated : w.Seated)
    (now : Nat) (clients roster : List Nat) : (w.tick env now clients roster).1.Kept none := by
  have hstepped : Kept none { w with world := w.world.step env.sim clients } := by
    refine h.of_tables rfl rfl (fun c slot hslot => ?_) rfl rfl
      (fun c other hother => ⟨other, hother, rfl⟩) rfl
    have hseat := (hseated.world.step env.sim clients).2 c
    rw [World.seat, World.seat, hslot, Option.map_some] at hseat
    obtain ⟨old, hold, -⟩ := Option.map_eq_some_iff.mp hseat.symm
    exact ⟨old, hold⟩
  have htidied : Tidy { w with world := w.world.step env.sim clients } :=
    ⟨htidy.pending, htidy.numbered, htidy.indexed⟩
  have hreplicated : ∀ (roster : List Nat) {w : WorldServer R A}, w.Kept none → w.Tidy →
      w.Seated → (roster.foldl (WorldServer.replicateTo env) w).Kept none ∧
        (roster.foldl (WorldServer.replicateTo env) w).Tidy ∧
        (roster.foldl (WorldServer.replicateTo env) w).Seated := by
    intro roster
    induction roster with
    | nil => exact fun h htidy hseated => ⟨h, htidy, hseated⟩
    | cons client roster ih =>
      intro w h htidy hseated
      exact ih (h.replicateTo env client) ((w.continues_replicateTo env client).tidy htidy)
        (hseated.replicateTo env client)
  obtain ⟨hkept, htidy, hseated⟩ := hreplicated roster hstepped htidied
    (hseated.stepped env clients)
  unfold WorldServer.tick
  dsimp only
  split
  · exact hkept.checkMigrations env htidy hseated now roster []
  · exact hkept

end
/-- Whom a handler leaves on the shard: nobody new, or one newcomer it may admit. -/
theorem Outcome.clients {w : WorldServer R A} {asks : ConnectCredential → Prop}
    {admits : ConnectCredential → Option MigrationTicket → Prop} {progress : Progress R A}
    (h : Outcome w asks admits progress) :
    progress.1.players.keys ⊆ w.players.keys ∨
    (∃ credential ticket, admits credential ticket) ∧
      w.nextClient ∈ progress.1.players.keys ∧
      progress.1.players.keys ⊆ insert w.nextClient w.players.keys ∧
      ∀ task, progress.2 = some task → task.credential = none := by
  have hstay : ∀ {w' : WorldServer R A}, w.Continues w' → w'.players.keys ⊆ w.players.keys := by
    intro w' hcontinues client hclient
    obtain ⟨player', hplayer'⟩ := Table.mem_keys_iff.mp hclient
    obtain ⟨player, hplayer, -⟩ := hcontinues.players client player' hplayer'
    exact Table.mem_keys_iff.mpr ⟨player, hplayer⟩
  cases h with
  | idle hcontinues => exact Or.inl (hstay hcontinues)
  | waits hcontinues => exact Or.inl (hstay hcontinues)
  | joins hjoins hadmits htask =>
    obtain ⟨player, hplayer, -⟩ := hjoins.newcomer
    refine Or.inr ⟨⟨_, _, hadmits⟩, Table.mem_keys_iff.mpr ⟨player, hplayer⟩, fun c hc => ?_,
      fun task ht => ?_⟩
    · obtain ⟨other', hother'⟩ := Table.mem_keys_iff.mp hc
      by_cases hself : c = w.nextClient
      · exact Finset.mem_insert.mpr (Or.inl hself)
      · obtain ⟨-, other, hother, -⟩ := hjoins.others c other' hother' hself
        exact Finset.mem_insert_of_mem (Table.mem_keys_iff.mpr ⟨other, hother⟩)
    · rcases htask with rfl | ⟨-, record, now, rfl, -⟩
      · cases ht
      · cases ht
        rfl

theorem heard_nextClient (w : WorldServer R A) (replies : Option (List RedisReply)) (task : Task) :
    (w.heard replies task).nextClient = w.nextClient := by
  unfold heard
  split
  · split <;> rfl
  · split
    · rename_i client plan _ _ _ _ _
      rcases w.redirect_cases client plan with hsame | ⟨player, -, hredirect⟩
      · rw [hsame]
      · rw [hredirect]
    · rfl
  · rfl

end WorldServer

namespace Shard
variable {R A : Type}

/-- The tables of a shard agree, and a handler that waits finds what it counts on. -/
structure Booked (s : Shard R A) : Prop where
  tidy : s.server.Tidy
  seated : s.server.Seated
  kept : s.server.Kept none
  advertises : ∀ task, s.task = some task → s.server.config.advertise = true
  awaits : ∀ task, s.task = some task → s.server.Awaits task
  room : ∀ task credential, s.task = some task → task.credential = some credential →
    s.server.players.keys.card < s.server.config.capacity

theorem players_spawnDrifters (drifters : List (Vec2 UInt32)) (world : World UInt32 A) :
    (drifters.foldl (fun world position => (world.spawnDrifter position).2) world).players =
      world.players := by
  induction drifters generalizing world with
  | nil => rfl
  | cons position drifters ih => exact ih _

theorem booked_start (config : WorldServerConfig R) (coordinator : ShardCoordinator)
    (drifters : List (Vec2 UInt32)) : (start config coordinator drifters : Shard R A).Booked := by
  refine ⟨⟨rfl, fun c player h => ?_, fun c player h => ?_⟩,
    seated_start config coordinator drifters,
    ⟨fun c hc => ?_, fun id c h => ?_, fun c slot hslot => ?_, rfl, Nat.zero_le _⟩,
    fun task h => ?_, fun task h => ?_, fun task credential h => ?_⟩
  · cases h
  · cases h
  · cases hc
  · cases h
  · rw [start, players_spawnDrifters] at hslot
    cases hslot
  · cases h
  · cases h
  · cases h

theorem booked_idle {w w' : WorldServer R A} (htidy : w.Tidy) (h : w.Continues w')
    (hseated : w'.Seated) (hkept : w'.Kept none) : Booked ⟨w', none⟩ where
  tidy := h.tidy htidy
  seated := hseated
  kept := hkept
  advertises _ htask := by cases htask
  awaits _ htask := by cases htask
  room _ _ htask := by cases htask

/-- What a handler leaves behind. -/
theorem booked_ofProgress {w : WorldServer R A} (htidy : w.Tidy)
    {asks : ConnectCredential → Prop}
    {admits : ConnectCredential → Option MigrationTicket → Prop}
    {progress : WorldServer.Progress R A} (h : WorldServer.Outcome w asks admits progress)
    (hseated : progress.1.Seated) (hkept : progress.1.Kept none)
    (hroom : ∀ task credential, progress.2 = some task → task.credential = some credential →
      progress.1.players.keys.card < progress.1.config.capacity) :
    (ofProgress progress).Booked := by
  cases h with
  | idle h => exact booked_idle htidy h hseated hkept
  | waits h hadvertise hawaits hasks hdraws =>
    refine ⟨h.tidy htidy, hseated, hkept, fun task htask => ?_, fun task htask => ?_, hroom⟩
    · exact (congrArg _ h.config).trans hadvertise
    · cases htask
      exact hawaits
  | joins h hadmits htask =>
    refine ⟨h.tidy, hseated, hkept, fun task ht => ?_, fun task ht => ?_, hroom⟩
    · rcases htask with rfl | ⟨hadvertise, record, now, rfl, hhosts⟩
      · cases ht
      · exact (congrArg _ h.config).trans hadvertise
    · rcases htask with rfl | ⟨hadvertise, record, now, rfl, hhosts⟩
      · cases ht
      · cases ht
        exact hhosts

/-- A handler that may not ask about anybody. -/
theorem no_asks {w : WorldServer R A}
    {admits : ConnectCredential → Option MigrationTicket → Prop}
    {progress : WorldServer.Progress R A}
    (h : WorldServer.Outcome w (fun _ => False) admits progress) (task : Task)
    (credential : ConnectCredential) (htask : progress.2 = some task) :
    task.credential ≠ some credential := by
  cases h with
  | idle => cases htask
  | waits _ _ _ hasks _ =>
    cases htask
    exact hasks credential
  | joins _ _ hjoined =>
    rcases hjoined with rfl | ⟨-, record, now, rfl, -⟩
    · cases htask
    · cases htask
      simp [Task.credential]

/-- The handler may let somebody in: a challenge was answered, or an admission is. -/
def Admitting (s : Shard R A) (action : ShardAction A) : Prop :=
  (s.task = none ∧ ∃ credential now, action = .connect credential now) ∨
  ∃ task credential replies now, s.task = some task ∧ task.credential = some credential ∧
    action = .resume replies now

/-- What a step does to the connections. -/
inductive Moves (s : Shard R A) (action : ShardAction A) (s' : Shard R A) : Prop
  | stays (h : s'.server.connections ⊆ s.server.connections)
  | joins (hadmitting : s.Admitting action) (hnew : s.server.nextClient ∈ s'.server.connections)
      (h : s'.server.connections ⊆ insert s.server.nextClient s.server.connections)
      (hdone : ∀ task, s'.task = some task → task.credential = none)

theorem Booked.connections_eq {s : Shard R A} (h : s.Booked) :
    s.server.connections = s.server.players.keys := by
  ext client
  constructor
  · intro hclient
    exact Table.mem_keys_iff.mpr (h.kept.connected client hclient (by simp))
  · intro hclient
    obtain ⟨player, hplayer⟩ := Table.mem_keys_iff.mp hclient
    exact (h.tidy.indexed client player hplayer).2

theorem Booked.newcomer {s : Shard R A} (h : s.Booked) :
    s.server.nextClient ∉ s.server.connections := by
  rw [h.connections_eq]
  intro hclient
  obtain ⟨player, hplayer⟩ := Table.mem_keys_iff.mp hclient
  exact Nat.lt_irrefl _ (h.tidy.numbered _ player hplayer)

/-- A step that nobody can join in. -/
theorem Booked.stays {s s' : Shard R A} (h : s.Booked) (h' : s'.Booked) {action : ShardAction A}
    (hcontinues : s.server.Continues s'.server) : Moves s action s' := by
  refine .stays ?_
  rw [h.connections_eq, h'.connections_eq]
  intro client hclient
  obtain ⟨player', hplayer'⟩ := Table.mem_keys_iff.mp hclient
  obtain ⟨player, hplayer, -⟩ := hcontinues.players client player' hplayer'
  exact Table.mem_keys_iff.mpr ⟨player, hplayer⟩

theorem Booked.moves_outcome {s : Shard R A} (h : s.Booked) {action : ShardAction A}
    {asks : ConnectCredential → Prop}
    {admits : ConnectCredential → Option MigrationTicket → Prop}
    {progress : WorldServer.Progress R A} (h' : (ofProgress progress).Booked)
    (houtcome : WorldServer.Outcome s.server asks admits progress)
    (hadmitting : ∀ credential ticket, admits credential ticket → s.Admitting action) :
    Moves s action (ofProgress progress) := by
  have hnow := h.connections_eq
  have hthen : progress.1.connections = progress.1.players.keys := h'.connections_eq
  rcases houtcome.clients with hstay | ⟨⟨credential, ticket, hadmits⟩, hnew, hkeys, hdone⟩
  · exact .stays (by rwa [← hnow, ← hthen] at hstay)
  · rw [← hthen] at hnew hkeys
    rw [← hnow] at hkeys
    exact .joins (hadmitting credential ticket hadmits) hnew hkeys hdone

/-- Nobody is asked about and nobody joins. -/
abbrev Quiet (s : Shard R A) (progress : WorldServer.Progress R A) : Prop :=
  WorldServer.Outcome s.server (fun _ => False) (fun _ _ => False) progress

theorem quiet_refreshCluster (s : Shard R A) (now : Nat) (roster : List Nat) :
    Quiet s (s.server.refreshCluster now roster) :=
  WorldServer.outcome_refreshCluster now roster

variable [LT R] [Add R] [Mul R] [Neg R] [DecidableLT R] [OfScientific R] (env : ShardEnv R A)

theorem quiet_tick (s : Shard R A) (now : Nat) (clients roster : List Nat) :
    Quiet s (s.server.tick env now clients roster) :=
  WorldServer.outcome_tick env now clients roster

theorem booked_step {s : Shard R A} (h : s.Booked) (action : ShardAction A) :
    (s.step env action).Booked := by
  have hseated := seated_step env s action h.seated
  unfold step at hseated ⊢
  split at hseated
  · rename_i task replies now htask
    have houtcome := WorldServer.outcome_resume env h.tidy (h.advertises task htask) now replies
      (h.awaits task htask)
    have htidy := (s.server.hears_heard replies task).tidy h.tidy
    refine booked_ofProgress htidy houtcome hseated ?_ fun next credential hnext hcredential => ?_
    · exact h.kept.resume env h.tidy h.seated
        (fun credential => h.room task credential htask) now replies
    · exact absurd hcredential (no_asks houtcome next credential hnext)
  · rename_i credential now htask
    obtain ⟨hkept, hroom⟩ := h.kept.admitClient env h.tidy h.seated credential now
    exact booked_ofProgress h.tidy (WorldServer.outcome_admit env h.tidy credential now) hseated
      hkept hroom
  · rename_i client now htask
    exact booked_idle h.tidy (s.server.continues_disconnect client now) hseated
      (h.kept.disconnect h.tidy h.seated client now)
  · rename_i client packet htask
    split at hseated
    · rw [if_pos ‹_›]
      exact booked_idle h.tidy (s.server.continues_onPayload env client packet) hseated
        (h.kept.onPayload env h.seated client packet)
    · rw [if_neg ‹_›]
      exact h
  · rename_i now clients roster htask
    have houtcome := quiet_tick env s now clients roster
    refine booked_ofProgress h.tidy houtcome hseated
      (h.kept.tick env h.tidy h.seated now clients roster) fun task credential ht hc => ?_
    exact absurd hc (no_asks houtcome task credential ht)
  · rename_i now roster htask
    have houtcome := quiet_refreshCluster s now roster
    refine booked_ofProgress h.tidy houtcome hseated ?_ fun task credential ht hc => ?_
    · unfold WorldServer.refreshCluster
      split
      · exact h.kept
      · exact h.kept.of_same rfl rfl rfl rfl rfl rfl
    · exact absurd hc (no_asks houtcome task credential ht)
  · rename_i members htask
    exact booked_idle h.tidy (s.server.continues_refresh members) hseated
      (h.kept.of_same rfl rfl rfl rfl rfl rfl)
  · exact h

theorem moves_step {s : Shard R A} (h : s.Booked) (action : ShardAction A) :
    Moves s action (s.step env action) := by
  have h' := booked_step env h action
  unfold step at h' ⊢
  split at h'
  · rename_i task replies now htask
    have houtcome := WorldServer.outcome_resume env h.tidy (h.advertises task htask) now replies
      (h.awaits task htask)
    have hheard := s.server.hears_heard replies task
    have hkeys : (s.server.heard replies task).players.keys ⊆ s.server.connections := by
      rw [h.connections_eq]
      intro client hclient
      obtain ⟨player', hplayer'⟩ := Table.mem_keys_iff.mp hclient
      obtain ⟨player, hplayer, -⟩ := hheard.players client player' hplayer'
      exact Table.mem_keys_iff.mpr ⟨player, hplayer⟩
    have hthen : (s.server.resume env now replies task).1.connections = _ := h'.connections_eq
    rcases houtcome.clients with hstay | ⟨⟨credential, ticket, hadmits⟩, hnew, hjoined, hdone⟩
    · exact .stays (hthen ▸ hstay.trans hkeys)
    · rw [s.server.heard_nextClient replies task] at hnew hjoined
      refine .joins (Or.inr ⟨task, credential, replies, now, htask, hadmits.1, rfl⟩) ?_ ?_ hdone
      · exact hthen ▸ hnew
      · exact hthen ▸ hjoined.trans (Finset.insert_subset_insert _ hkeys)
  · rename_i credential now htask
    exact h.moves_outcome h' (WorldServer.outcome_admit env h.tidy credential now)
      fun _ _ _ => Or.inl ⟨htask, credential, now, rfl⟩
  · rename_i client now htask
    exact h.stays h' (s.server.continues_disconnect client now)
  · rename_i client packet htask
    split at h'
    · rw [if_pos ‹_›]
      exact h.stays h' (s.server.continues_onPayload env client packet)
    · rw [if_neg ‹_›]
      exact .stays (Finset.Subset.refl _)
  · rename_i now clients roster htask
    have houtcome := quiet_tick env s now clients roster
    exact h.moves_outcome h' houtcome fun _ _ => False.elim
  · rename_i now roster htask
    have houtcome := quiet_refreshCluster s now roster
    exact h.moves_outcome h' houtcome fun _ _ => False.elim
  · rename_i members htask
    exact h.stays h' (s.server.continues_refresh members)
  · exact .stays (Finset.Subset.refl _)

/-- Only a challenge that was answered makes a shard ask about a credential. -/
theorem asks_step {s : Shard R A} (h : s.Booked) (action : ShardAction A) {task : Task}
    {credential : ConnectCredential} (htask : (s.step env action).task = some task)
    (hasks : task.credential = some credential) :
    s.step env action = s ∨ s.task = none ∧ ∃ offered now, action = .connect offered now := by
  unfold step at htask ⊢
  split at htask
  · rename_i waiting replies now hwaiting
    have houtcome := WorldServer.outcome_resume env h.tidy (h.advertises waiting hwaiting) now
      replies (h.awaits waiting hwaiting)
    exact absurd hasks (no_asks houtcome task credential htask)
  · exact Or.inr ⟨‹_›, _, _, rfl⟩
  · cases htask
  · split at htask
    · cases htask
    · exact Or.inl (if_neg ‹_›)
  · exact absurd hasks (no_asks (quiet_tick env s _ _ _) task credential htask)
  · exact absurd hasks (no_asks (quiet_refreshCluster s _ _) task credential htask)
  · cases htask
  · exact Or.inl rfl

/-- The shard comes from its start by some sequence of events. -/
def Reachable (s : Shard R A) : Prop :=
  ∃ config coordinator drifters actions,
    s = Run.run (step env) (start config coordinator drifters) actions

theorem Reachable.booked {s : Shard R A} (h : s.Reachable env) : s.Booked := by
  obtain ⟨config, coordinator, drifters, actions, rfl⟩ := h
  exact Run.invariant_always Booked (fun s action h => booked_step env h action)
    (booked_start config coordinator drifters) actions

end Shard
end Morton.App
