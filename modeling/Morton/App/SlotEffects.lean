import Morton.App.InputTruth

/-! What the handlers of a shard do to the commands of one client that is already there.
Only its own packets add to them and only a tick takes from them; every other handler
leaves them alone or removes the player. -/
namespace Morton.Sim

namespace PlayerSlot
variable {A : Type}

/-- `slot'` is `slot` after some of its waiting commands were applied, in order. -/
structure Consumes (slot slot' : PlayerSlot A) : Prop where
  pending : ∃ taken, slot.pending = taken ++ slot'.pending ∧
    slot'.lastAppliedSequence =
      ((taken.getLast?).map MoveInput.sequence).getD slot.lastAppliedSequence
  highest : slot'.highestReceivedSequence = slot.highestReceivedSequence

theorem Consumes.refl (slot : PlayerSlot A) : slot.Consumes slot := ⟨⟨[], rfl, rfl⟩, rfl⟩

theorem Consumes.trans {slot slot' slot'' : PlayerSlot A} (h : slot.Consumes slot')
    (h' : slot'.Consumes slot'') : slot.Consumes slot'' := by
  obtain ⟨⟨taken, hpending, hlast⟩, hhighest⟩ := h
  obtain ⟨⟨taken', hpending', hlast'⟩, hhighest'⟩ := h'
  refine ⟨⟨taken ++ taken', by rw [hpending, hpending', List.append_assoc], ?_⟩,
    hhighest'.trans hhighest⟩
  rw [hlast', hlast, List.getLast?_append]
  cases taken'.getLast? with
  | none => rfl
  | some input => rfl

theorem consumes_next (centered : A) (tick : Nat) (slot : PlayerSlot A) :
    slot.Consumes (slot.next centered tick).2.2 := by
  unfold next
  split
  · rename_i input pending hpending
    exact ⟨⟨[input], hpending, rfl⟩, rfl⟩
  · split
    · exact Consumes.refl slot
    · exact Consumes.refl slot

end PlayerSlot

namespace World
variable {F A : Type} (sim : Simulation F A)

theorem consumes_applyInputs (order : List Nat) (w : World F A) (client : Nat)
    {slot' : PlayerSlot A} (h : (applyInputs sim w order).players.lookup client = some slot') :
    ∃ slot, w.players.lookup client = some slot ∧ slot.Consumes slot' := by
  induction order generalizing w with
  | nil => exact ⟨slot', h, .refl slot'⟩
  | cons c order ih =>
    obtain ⟨mid, hmid, hconsumes⟩ := ih (applyInput sim w c) h
    rcases applyInput_cases sim w c with
      hsame | ⟨slot, i, stats, hslot, hfind, position, velocity, hstep⟩
    · rw [hsame] at hmid
      exact ⟨mid, hmid, hconsumes⟩
    · rw [hstep] at hmid
      dsimp only at hmid
      rw [Table.lookup_insert] at hmid
      split at hmid
      · cases hmid
        exact ⟨slot, ‹client = c› ▸ hslot, (slot.consumes_next _ _).trans hconsumes⟩
      · exact ⟨mid, hmid, hconsumes⟩

theorem consumes_step (w : World F A) (order : List Nat) (client : Nat) {slot' : PlayerSlot A}
    (h : (step sim w order).players.lookup client = some slot') :
    ∃ slot, w.players.lookup client = some slot ∧ slot.Consumes slot' :=
  consumes_applyInputs sim order
    { w with stats := { w.stats with inputsApplied := 0, inputsStarved := 0 } } client h

theorem lookup_despawn {w : World F A} {entity client : Nat} {slot : PlayerSlot A}
    (h : (w.despawn entity).players.lookup client = some slot) :
    w.players.lookup client = some slot := by
  unfold despawn at h
  split at h
  · exact h
  · dsimp only at h
    split at h
    · exact (Table.lookup_erase_some h).2
    · exact h

theorem lookup_queueInput_of_ne (w : World F A) (quantize : A → A) {client c : Nat}
    (h : client ≠ c) (input : MoveInput A) :
    (w.queueInput quantize c input).players.lookup client = w.players.lookup client := by
  unfold queueInput
  split
  · rfl
  · exact (Table.lookup_insert _ _ _ _).trans (if_neg h)

/-- A packet's commands go through the slot one by one. -/
theorem lookup_foldl_queueInput (quantize : A → A) (client : Nat) (inputs : List (MoveInput A))
    {w : World F A} {slot : PlayerSlot A} (h : w.players.lookup client = some slot) :
    (inputs.foldl (fun w input => w.queueInput quantize client input) w).players.lookup client =
      some (inputs.foldl (fun slot input => slot.receive quantize input) slot) := by
  induction inputs generalizing w slot with
  | nil => exact h
  | cons input inputs ih =>
    refine ih ?_
    simp only [queueInput, h, Table.lookup_insert, if_true]

end World
end Morton.Sim

namespace Morton.App
open Proto Sim Cluster
namespace WorldServer
variable {R A : Type}

/-- The publication is what the server would hand out for the client now. -/
def Reports (w : WorldServer R A) (client : Nat) (p : Publication) : Prop :=
  ∀ player slot, w.players.lookup client = some player →
    w.world.players.lookup client = some slot →
    p.sequence = player.lastInputSequence ∧ p.waiting = slot.pending.map MoveInput.sequence

/-- From `w` to `w'` the commands of the client stay as they are, unless it leaves. -/
structure Steady (client : Nat) (w w' : WorldServer R A) : Prop where
  slot : ∀ slot', w'.world.players.lookup client = some slot' →
    w.world.players.lookup client = some slot'
  player : ∀ player', w'.players.lookup client = some player' →
    ∃ player, w.players.lookup client = some player ∧
      player'.lastInputSequence = player.lastInputSequence
  published : ∃ more, w'.trace = w.trace ++ more ∧
    ∀ p, Trace.published p ∈ more → p.client = client → w'.Reports client p
  numbered : w.nextClient ≤ w'.nextClient

theorem Reports.steady {client : Nat} {w w' : WorldServer R A} {p : Publication}
    (h : w.Reports client p) (hsteady : Steady client w w') : w'.Reports client p := by
  intro player' slot' hplayer' hslot'
  obtain ⟨player, hplayer, hsequence⟩ := hsteady.player player' hplayer'
  rw [hsequence]
  exact h player slot' hplayer (hsteady.slot slot' hslot')

/-- As `Steady`, but some of the client's waiting commands may have been applied. -/
structure Follows (client : Nat) (w w' : WorldServer R A) : Prop where
  slot : ∀ slot', w'.world.players.lookup client = some slot' →
    ∃ slot, w.world.players.lookup client = some slot ∧ slot.Consumes slot'
  player : ∀ player', w'.players.lookup client = some player' →
    ∃ player, w.players.lookup client = some player ∧
      player'.lastInputSequence = player.lastInputSequence
  published : ∃ more, w'.trace = w.trace ++ more ∧
    ∀ p, Trace.published p ∈ more → p.client = client → w'.Reports client p
  numbered : w.nextClient ≤ w'.nextClient

theorem Steady.follows {client : Nat} {w w' : WorldServer R A} (h : Steady client w w') :
    Follows client w w' :=
  ⟨fun slot' hslot => ⟨slot', h.slot slot' hslot, .refl slot'⟩, h.player, h.published, h.numbered⟩

theorem Steady.refl (client : Nat) (w : WorldServer R A) : Steady client w w :=
  ⟨fun _ h => h, fun player h => ⟨player, h, rfl⟩, ⟨[], by simp, by simp⟩, Nat.le_refl _⟩

theorem Steady.trans {client : Nat} {w w' w'' : WorldServer R A} (h : Steady client w w')
    (h' : Steady client w' w'') : Steady client w w'' where
  slot slot'' hslot := h.slot slot'' (h'.slot slot'' hslot)
  player player'' hplayer'' := by
    obtain ⟨player', hplayer', hsequence'⟩ := h'.player player'' hplayer''
    obtain ⟨player, hplayer, hsequence⟩ := h.player player' hplayer'
    exact ⟨player, hplayer, hsequence'.trans hsequence⟩
  published := by
    obtain ⟨more, hmore, hreports⟩ := h.published
    obtain ⟨more', hmore', hreports'⟩ := h'.published
    refine ⟨more ++ more', by rw [hmore', hmore, List.append_assoc], fun p hp hclient => ?_⟩
    rcases List.mem_append.mp hp with hp | hp
    · exact (hreports p hp hclient).steady h'
    · exact hreports' p hp hclient
  numbered := Nat.le_trans h.numbered h'.numbered

theorem Steady.foldl {β : Type} {client : Nat} {f : WorldServer R A → β → WorldServer R A}
    (hf : ∀ w b, Steady client w (f w b)) (bs : List β) (w : WorldServer R A) :
    Steady client w (bs.foldl f w) := by
  induction bs generalizing w with
  | nil => exact Steady.refl client w
  | cons b bs ih => exact (hf w b).trans (ih (f w b))

/-- Handlers that neither publish nor change what is waiting. -/
theorem Steady.of_tables {client : Nat} {w w' : WorldServer R A}
    (hslot : ∀ slot', w'.world.players.lookup client = some slot' →
      w.world.players.lookup client = some slot')
    (hplayer : ∀ player', w'.players.lookup client = some player' →
      ∃ player, w.players.lookup client = some player ∧
        player'.lastInputSequence = player.lastInputSequence)
    (hnumbered : w.nextClient ≤ w'.nextClient) (more : List Trace)
    (htrace : w'.trace = w.trace ++ more) (hmore : ∀ p, Trace.published p ∉ more) :
    Steady client w w' :=
  ⟨hslot, hplayer, ⟨more, htrace, fun p hp => absurd hp (hmore p)⟩, hnumbered⟩

theorem steady_of_same {client : Nat} {w w' : WorldServer R A} (hworld : w'.world = w.world)
    (hplayers : w'.players = w.players) (hnumbered : w.nextClient ≤ w'.nextClient)
    (more : List Trace) (htrace : w'.trace = w.trace ++ more)
    (hmore : ∀ p, Trace.published p ∉ more) : Steady client w w' :=
  .of_tables (fun _ h => hworld ▸ h) (fun player h => ⟨player, hplayers ▸ h, rfl⟩) hnumbered more
    htrace hmore

theorem steady_deny (client : Nat) (w : WorldServer R A) (reason : DenyReason) :
    Steady client w (w.deny reason).1 :=
  steady_of_same rfl rfl (Nat.le_refl _) [.denied reason] rfl (by simp)

/-- Rewriting a player that keeps its sequence. -/
theorem steady_setPlayer (client : Nat) {w : WorldServer R A} {c : Nat}
    {player player' : WorldPlayer R} (hplayer : w.players.lookup c = some player)
    (hsequence : player'.lastInputSequence = player.lastInputSequence) :
    Steady client w { w with players := w.players.insert c player' } := by
  refine .of_tables (fun _ h => h) (fun other hother => ?_) (Nat.le_refl _) [] (by simp) (by simp)
  rw [Table.lookup_insert] at hother
  split at hother
  · cases hother
    exact ⟨player, ‹client = c› ▸ hplayer, hsequence⟩
  · exact ⟨other, hother, rfl⟩

theorem steady_setCoordinator (client : Nat) (w : WorldServer R A)
    (coordinator : ShardCoordinator) : Steady client w { w with coordinator } :=
  steady_of_same rfl rfl (Nat.le_refl _) [] (by simp) (by simp)

theorem steady_publish (client : Nat) {w : WorldServer R A} {c : Nat} {player : WorldPlayer R}
    (hplayer : w.players.lookup c = some player) :
    Steady client w { w with trace := w.trace ++ [.published (w.publication player c)] } := by
  refine ⟨fun _ h => h, fun other h => ⟨other, h, rfl⟩, ⟨_, rfl, fun p hp hclient => ?_⟩,
    Nat.le_refl _⟩
  cases List.mem_singleton.mp hp
  have hsame : c = client := hclient
  subst hsame
  intro other slot hother hslot
  cases hplayer.symm.trans hother
  refine ⟨rfl, ?_⟩
  dsimp only at hslot
  simp only [publication, hslot, Option.elim_some]

theorem steady_disconnect (client : Nat) (w : WorldServer R A) (c now : Nat) :
    Steady client w (w.disconnect c now) := by
  unfold disconnect
  split
  · unfold onDisconnect
    split
    · exact steady_of_same rfl rfl (Nat.le_refl _) [] (by simp) (by simp)
    · refine .of_tables (fun _ h => World.lookup_despawn h) (fun player h => ?_) (Nat.le_refl _) []
        (by simp) (by simp)
      exact ⟨player, (Table.lookup_erase_some h).2, rfl⟩
  · exact Steady.refl client w

theorem steady_replaceStale (client : Nat) (w : WorldServer R A) (playerId : Bytes)
    (c now : Nat) : Steady client w (w.replaceStale playerId c now) := by
  unfold replaceStale
  split
  · split
    · exact steady_disconnect client w _ now
    · exact Steady.refl client w
  · exact Steady.refl client w

theorem steady_dropExpired (client : Nat) (w : WorldServer R A) (now c : Nat) :
    Steady client w (w.dropExpired now c) := by
  unfold dropExpired
  split
  · exact steady_disconnect client w c now
  · split
    · exact Steady.refl client w
    · refine .of_tables (fun _ h => World.lookup_despawn h) (fun player h => ?_) (Nat.le_refl _) []
        (by simp) (by simp)
      exact ⟨player, (Table.lookup_erase_some h).2, rfl⟩

theorem steady_redirect (client : Nat) (w : WorldServer R A) (c : Nat) (plan : HandoffPlan) :
    Steady client w (w.redirect c plan) := by
  rcases w.redirect_cases c plan with hsame | ⟨player, hplayer, hredirect⟩
  · rw [hsame]
    exact Steady.refl client w
  · rw [hredirect]
    refine (steady_setPlayer client hplayer ?_).trans
      (steady_of_same rfl rfl (Nat.le_refl _) [.redirected c _] rfl (by simp))
    rfl

section
variable [LT R] (env : ShardEnv R A)

theorem steady_join {client : Nat} {w : WorldServer R A} {c : Nat} (hne : client ≠ c)
    (admitted : PendingAdmit) (now : Nat) : Steady client w (w.join env c admitted now).1 := by
  unfold join
  generalize startState env.spawnPoint w admitted now = start
  obtain ⟨position, velocity, sequence, region, resumed⟩ := start
  refine .of_tables (fun slot' h => ?_) (fun player h => ?_) (Nat.le_refl _) [.joined c _ _] rfl (by simp)
  · simpa only [World.adoptEntity, World.spawnPlayer, Table.lookup_insert, if_neg hne] using h
  · dsimp only at h
    split at h
    · exact ⟨player, h, rfl⟩
    · rw [Table.lookup_insert, if_neg hne] at h
      exact ⟨player, h, rfl⟩

theorem steady_finishAdmit {client : Nat} {w : WorldServer R A} (hpending : w.pendingAdmits = ∅)
    (hclient : client < w.nextClient) (credential : ConnectCredential)
    (ticket : Option MigrationTicket) (region admittedMs now : Nat) :
    Steady client w (w.finishAdmit env credential ticket region admittedMs now).1 := by
  rw [finishAdmit_eq env hpending]
  have hnumbered : Steady client w (w.numberClient credential.playerId) :=
    steady_of_same rfl rfl (Nat.le_succ _) [] (by simp [numberClient]) (by simp)
  exact (hnumbered.trans (steady_replaceStale client _ _ _ now)).trans
    (steady_join env (Nat.ne_of_lt hclient) _ now)

theorem steady_admitTicketed {client : Nat} {w : WorldServer R A} (hpending : w.pendingAdmits = ∅)
    (hclient : client < w.nextClient) (credential : ConnectCredential)
    (ticket : MigrationTicket) (admittedMs now : Nat) :
    Steady client w (w.admitTicketed env credential ticket admittedMs now).1 := by
  unfold admitTicketed
  split
  · exact steady_deny client w _
  · exact steady_finishAdmit env hpending hclient credential (some ticket) _ admittedMs now

theorem steady_admitClient {client : Nat} {w : WorldServer R A} (hpending : w.pendingAdmits = ∅)
    (hclient : client < w.nextClient) (offered : Option ConnectCredential) (now : Nat) :
    Steady client w (w.admitClient env offered now).1 := by
  unfold admitClient
  cases offered with
  | none => exact steady_deny client w _
  | some credential =>
    have hnone : ((w.pendingByPlayer.lookup credential.playerId).bind
        fun client => w.pendingAdmits.lookup client) = none := by
      rw [hpending]
      cases w.pendingByPlayer.lookup credential.playerId <;> rfl
    simp only [hnone, Option.filter_none]
    split
    · exact steady_deny client w _
    · split
      · split
        · exact steady_admitTicketed env hpending hclient credential _ now now
        · split
          · exact Steady.refl client w
          · exact steady_deny client w _
      · split
        · exact Steady.refl client w
        · exact steady_finishAdmit env hpending hclient credential none 0 now now

theorem steady_checkMigrations (client now : Nat) (w : WorldServer R A) (rest expired : List Nat) :
    Steady client w (checkMigrations env now w rest expired).1 := by
  induction rest generalizing w expired with
  | nil => exact Steady.foldl (fun w c => steady_dropExpired client w now c) expired w
  | cons c rest ih =>
    unfold checkMigrations
    split
    · exact ih w expired
    · rename_i player hplayer
      split
      · exact ih w _
      · split
        · exact ih w expired
        · split
          · exact ih w expired
          · split
            · refine (steady_setPlayer client hplayer ?_).trans (ih _ expired)
              rfl
            · split
              · exact (steady_setCoordinator client w _).trans (ih _ expired)
              · have hpublished := fun coordinator => (steady_publish client hplayer).trans
                  (steady_setCoordinator client _ coordinator)
                dsimp only
                split
                · exact (hpublished _).trans (ih _ expired)
                · exact hpublished _

theorem steady_resume {client : Nat} {w : WorldServer R A} (hpending : w.pendingAdmits = ∅)
    (hclient : client < w.nextClient) (now : Nat) (replies : Option (List RedisReply))
    (task : Task) : Steady client w (w.resume env now replies task).1 := by
  cases task with
  | admitSession credential admittedMs =>
    simp only [resume]
    split
    · exact steady_deny client w _
    · split
      · exact steady_deny client w _
      · split
        · exact steady_deny client w _
        · exact steady_finishAdmit env hpending hclient credential none _ admittedMs now
  | admitTicket credential admittedMs =>
    simp only [resume]
    split
    · exact steady_deny client w _
    · rename_i ticket hticket
      have hcached : Steady client w { w with
          redeemedTickets := w.redeemedTickets.insert credential.token ticket } :=
        steady_of_same rfl rfl (Nat.le_refl _) [] (by simp) (by simp)
      refine hcached.trans (steady_admitTicketed env ?_ ?_ credential ticket admittedMs now)
      · exact hpending
      · exact hclient
  | touch record sentMs => exact Steady.refl client w
  | handoff c plan stamped sentMs rest expired =>
    simp only [resume]
    split
    · exact (steady_redirect client w c plan).trans
        (steady_checkMigrations env client now _ rest expired)
    · exact Steady.refl client w
    · exact steady_checkMigrations env client now w rest expired
  | discard token rest expired => exact steady_checkMigrations env client now w rest expired
  | heartbeat records heartbeatMs =>
    exact steady_of_same rfl rfl (Nat.le_refl _) [] (by simp [expire, resume]) (by simp)

/-- Packets of other clients. -/
theorem steady_onPayload {client : Nat} (w : WorldServer R A) {c : Nat} (hne : client ≠ c)
    (packet : Option (InputPacket A)) : Steady client w (w.onPayload env c packet) := by
  unfold onPayload
  split
  · rename_i player packet hplayer
    split
    · exact Steady.refl client w
    · have hworld : ∀ (inputs : List (MoveInput A)) (world : World UInt32 A),
          (inputs.foldl (fun world input => world.queueInput env.sim.quantizeInput c
            { input with axes := env.sim.quantizeInput input.axes }) world).players.lookup client =
          world.players.lookup client := by
        intro inputs
        induction inputs with
        | nil => exact fun world => rfl
        | cons input inputs ih =>
          intro world
          rw [List.foldl_cons, ih, World.lookup_queueInput_of_ne _ _ hne]
      refine .of_tables (fun slot' h => ?_) (fun player h => ?_) (Nat.le_refl _) [] (by simp) (by simp)
      · exact (hworld _ _).symm.trans h
      · exact ⟨player, ((Table.lookup_insert _ _ _ _).trans (if_neg hne)).symm.trans h, rfl⟩
  · exact Steady.refl client w

variable [Add R] [Mul R] [Neg R] [DecidableLT R] [OfScientific R]

theorem steady_replicateTo (client : Nat) (w : WorldServer R A) (c : Nat) :
    Steady client w (w.replicateTo env c) := by
  unfold replicateTo
  split
  · exact Steady.refl client w
  · rename_i player hplayer
    split
    · exact Steady.refl client w
    · refine (steady_publish client hplayer).trans (steady_setPlayer client hplayer ?_)
      rfl

/-- After the world's step a tick leaves the commands alone. -/
theorem steady_tick (client : Nat) (w : WorldServer R A) (now : Nat) (clients roster : List Nat) :
    Steady client { w with world := w.world.step env.sim clients }
      (w.tick env now clients roster).1 := by
  have hreplicated := Steady.foldl (fun w c => steady_replicateTo env client w c) roster
    { w with world := w.world.step env.sim clients }
  unfold tick
  dsimp only
  split
  · exact hreplicated.trans (steady_checkMigrations env client now _ roster [])
  · exact hreplicated

theorem follows_tick (client : Nat) (w : WorldServer R A) (now : Nat) (clients roster : List Nat) :
    Follows client w (w.tick env now clients roster).1 := by
  have hsteady := steady_tick env client w now clients roster
  refine ⟨fun slot' hslot => ?_, hsteady.player, hsteady.published, hsteady.numbered⟩
  exact World.consumes_step env.sim w.world clients client (hsteady.slot slot' hslot)

end
end WorldServer

namespace Shard
variable {R A : Type} [LT R] [Add R] [Mul R] [Neg R] [DecidableLT R] [OfScientific R]
  (env : ShardEnv R A)

/-- Whatever the shard does, but for packets of the client. -/
theorem follows_step {s : Shard R A} {client : Nat} (htidy : s.server.Tidy)
    (hclient : client < s.server.nextClient) {action : ShardAction A}
    (hother : ∀ packet, action ≠ .payload client packet) :
    s.server.Follows client (s.step env action).server := by
  unfold step
  split
  · exact (WorldServer.steady_resume env htidy.pending hclient _ _ _).follows
  · exact (WorldServer.steady_admitClient env htidy.pending hclient _ _).follows
  · exact (WorldServer.steady_disconnect client s.server _ _).follows
  · rename_i c packet htask
    have hne : client ≠ c := by
      rintro rfl
      exact hother packet rfl
    split
    · exact (WorldServer.steady_onPayload env s.server hne packet).follows
    · exact (WorldServer.Steady.refl client s.server).follows
  · exact WorldServer.follows_tick env client s.server _ _ _
  · refine (WorldServer.Steady.follows ?_)
    unfold WorldServer.refreshCluster
    split
    · exact WorldServer.Steady.refl client s.server
    · exact WorldServer.steady_of_same rfl rfl (Nat.le_refl _) [] (by simp [ofProgress]) (by simp)
  · exact (WorldServer.steady_setCoordinator client s.server _).follows
  · exact (WorldServer.Steady.refl client s.server).follows

/-- A packet of the client, while it is not being redirected. -/
theorem step_payload {s : Shard R A} (htask : s.task = none) {client : Nat}
    (hclient : client ∈ s.server.connections) {player : WorldPlayer R}
    (hplayer : s.server.players.lookup client = some player) (hstays : player.redirecting = false)
    {slot : PlayerSlot A} (hslot : s.server.world.players.lookup client = some slot)
    (packet : InputPacket A) :
    ((s.step env (.payload client (some packet))).server.world.players.lookup client =
      some ((packet.inputs.map fun input =>
        { input with axes := env.sim.quantizeInput input.axes }).foldl
          (PlayerSlot.receive env.sim.quantizeInput) slot)) ∧
    (s.step env (.payload client (some packet))).server.trace = s.server.trace := by
  simp only [step, htask, if_pos hclient, WorldServer.onPayload, hplayer, hstays,
    Bool.false_eq_true, if_false, List.foldl_map, and_true]
  have hfold := World.lookup_foldl_queueInput env.sim.quantizeInput client
    (packet.inputs.map fun input => { input with axes := env.sim.quantizeInput input.axes }) hslot
  rw [List.foldl_map, List.foldl_map] at hfold
  exact hfold

end Shard
end Morton.App
