import Morton.App.InputStream
import Morton.Proto.InputDecoder
import Morton.Sim.AppliedOrder

/-! What a silent client's entity is moved with. The repeat window is counted from the tick
stored in the command, and a command that came over the wire has tick 0. -/
namespace Morton.Sim
namespace PlayerSlot
variable {A : Type}

/-- Nothing waits in the slot, and `command` was applied last. -/
structure Resting (slot : PlayerSlot A) (command : MoveInput A) : Prop where
  pending : slot.pending = []
  applied : slot.hasApplied = true
  last : slot.lastApplied = command
  sequence : slot.lastAppliedSequence = command.sequence

/-- What a tick integrates when nothing waits. -/
def starved (centered : A) (command : MoveInput A) (tick : Nat) : MoveInput A :=
  if (tick + 2 ^ 32 - command.tick) % 2 ^ 32 ≤ kInputRepeatTicks then command
  else { sequence := command.sequence, axes := centered }

theorem Resting.next {slot : PlayerSlot A} {command : MoveInput A} (h : slot.Resting command)
    (centered : A) (tick : Nat) :
    slot.next centered tick = (starved centered command tick, false, slot) := by
  simp only [PlayerSlot.next, h.pending, h.applied, h.last, h.sequence, starved, Bool.true_and,
    decide_eq_true_eq]
  split
  · rfl
  · rfl

/-- Taking the only waiting command. -/
theorem resting_of_next {slot : PlayerSlot A} {command : MoveInput A}
    (h : slot.pending = [command]) (centered : A) (tick : Nat) :
    (slot.next centered tick).1 = command ∧ (slot.next centered tick).2.2.Resting command := by
  simp only [PlayerSlot.next, h, true_and]
  exact ⟨rfl, rfl, rfl, rfl⟩

theorem Resting.receive {slot : PlayerSlot A} {command : MoveInput A} (h : slot.Resting command)
    (quantize : A → A) {input : MoveInput A} (hstale : slot.Stale input) :
    (slot.receive quantize input).Resting command := by
  simp only [PlayerSlot.receive, if_pos (show _ ∧ _ from hstale)]
  exact ⟨h.pending, h.applied, h.last, h.sequence⟩

/-- What a run of starved ticks from `tick` on integrates. -/
def starvedFrom (centered : A) (command : MoveInput A) (tick k : Nat) : MoveInput A :=
  starved centered command (tick + k)

/-- Only the tick modulo 2^32 counts. -/
theorem starvedFrom_mod (centered : A) {command : MoveInput A} (htick : command.tick = 0)
    (tick k : Nat) :
    starvedFrom centered command (tick % 2 ^ 32) k = starvedFrom centered command tick k := by
  have hsame : (tick % 2 ^ 32 + k + 2 ^ 32 - command.tick) % 2 ^ 32 =
      (tick + k + 2 ^ 32 - command.tick) % 2 ^ 32 := by omega
  rw [starvedFrom, starved, hsame, starvedFrom, starved]

/-- Six repeats, then zero axes. -/
def Coasts (centered : A) (command : MoveInput A) (moves : List (MoveInput A)) : Prop :=
  ∀ k input, moves[k]? = some input →
    if k < 6 then input = command else input.axes = centered

instance (centered : A) (command : MoveInput A) (moves : List (MoveInput A)) [DecidableEq A] :
    Decidable (Coasts centered command moves) :=
  decidable_of_iff (∀ k : Fin moves.length,
      if k.val < 6 then moves[k] = command else moves[k].axes = centered) (by
    constructor
    · intro h k input hinput
      obtain ⟨hlt, hget⟩ := List.getElem?_eq_some_iff.mp hinput
      exact hget ▸ h ⟨k, hlt⟩
    · intro h k
      exact h k _ (List.getElem?_eq_getElem k.isLt))

theorem coasts_map_range (centered : A) (command : MoveInput A) (f : Nat → MoveInput A) (n : Nat) :
    Coasts centered command ((List.range n).map f) ↔
      ∀ k < n, if k < 6 then f k = command else (f k).axes = centered := by
  constructor
  · intro h k hk
    exact h k (f k) (by simp [hk])
  · intro h k input hinput
    simp only [List.getElem?_map, Option.map_eq_some_iff, List.getElem?_eq_some_iff,
      List.length_range, List.getElem_range] at hinput
    obtain ⟨k', ⟨hk, rfl⟩, rfl⟩ := hinput
    exact h k hk

/-- The command is one of the sequence's own with zero axes, as a coasting tick makes it. -/
def Idle (centered : A) (command : MoveInput A) : Prop :=
  command.axes = centered ∧ command.sprint = false

section
variable (centered : A) {command : MoveInput A} (htick : command.tick = 0) (tick : Nat)
include htick

theorem starved_eq : starved centered command tick =
    if tick % 2 ^ 32 ≤ 6 then command else { sequence := command.sequence, axes := centered } := by
  have hsame : (tick + 2 ^ 32 - command.tick) % 2 ^ 32 = tick % 2 ^ 32 := by omega
  rw [starved, hsame, kInputRepeatTicks]

theorem starved_eq_iff :
    starved centered command tick = command ↔ tick % 2 ^ 32 ≤ 6 ∨ Idle centered command := by
  rw [starved_eq centered htick]
  by_cases hsoon : tick % 2 ^ 32 ≤ 6
  · rw [if_pos hsoon]
    exact iff_of_true rfl (Or.inl hsoon)
  · rw [if_neg hsoon, or_iff_right hsoon]
    cases command with
    | mk sequence t axes sprint =>
      dsimp only at htick
      simp [htick, Idle, eq_comm]

theorem starved_axes_iff :
    (starved centered command tick).axes = centered ↔
      6 < tick % 2 ^ 32 ∨ command.axes = centered := by
  rw [starved_eq centered htick]
  by_cases hsoon : tick % 2 ^ 32 ≤ 6
  · rw [if_pos hsoon]
    constructor
    · exact Or.inr
    · exact fun h => h.resolve_left (Nat.not_lt.mpr hsoon)
  · rw [if_neg hsoon]
    exact iff_of_true rfl (Or.inl (Nat.lt_of_not_le hsoon))

/-- When the moves from tick `t + 1` on are those of a resting slot. -/
theorem coasts_starved_iff {n : Nat} (hlong : 7 ≤ n) :
    Coasts centered command ((List.range n).map (starvedFrom centered command (tick + 1))) ↔
      (tick % 2 ^ 32 = 0 ∧ n < 2 ^ 32) ∨
      (command.axes = centered ∧
        (command.sprint = false ∨ tick % 2 ^ 32 = 0 ∨ tick % 2 ^ 32 = 2 ^ 32 - 1)) := by
  rw [coasts_map_range]
  have hmove : ∀ k, starvedFrom centered command (tick + 1) k = command ↔
      (tick + 1 + k) % 2 ^ 32 ≤ 6 ∨ Idle centered command :=
    fun k => starved_eq_iff centered htick (tick + 1 + k)
  have hstop : ∀ k, (starvedFrom centered command (tick + 1) k).axes = centered ↔
      6 < (tick + 1 + k) % 2 ^ 32 ∨ command.axes = centered :=
    fun k => starved_axes_iff centered htick (tick + 1 + k)
  constructor
  · intro h
    have hearly : ∀ k < 6, (tick + 1 + k) % 2 ^ 32 ≤ 6 ∨ Idle centered command := by
      intro k hk
      have hrepeat := h k (by omega)
      rw [if_pos hk] at hrepeat
      exact (hmove k).mp hrepeat
    have hlate : ∀ k, 6 ≤ k → k < n →
        6 < (tick + 1 + k) % 2 ^ 32 ∨ command.axes = centered := by
      intro k hk hlt
      have hcoast := h k hlt
      rw [if_neg (Nat.not_lt.mpr hk)] at hcoast
      exact (hstop k).mp hcoast
    by_cases haxes : command.axes = centered
    · right
      refine ⟨haxes, ?_⟩
      cases hsprint : command.sprint with
      | false => exact Or.inl rfl
      | true =>
        have hnot : ¬ Idle centered command := fun hidle => by
          rw [hidle.2] at hsprint
          cases hsprint
        have hone := (hearly 0 (by omega)).resolve_right hnot
        have hsix := (hearly 5 (by omega)).resolve_right hnot
        right
        omega
    · left
      have hnot : ¬ Idle centered command := fun hidle => haxes hidle.1
      have hsix := (hearly 5 (by omega)).resolve_right hnot
      have hseven := (hlate 6 (by omega) (by omega)).resolve_right haxes
      refine ⟨by omega, ?_⟩
      -- the tick comes round to `t` again
      apply Nat.lt_of_not_le
      intro hround
      obtain ⟨k, hk⟩ : ∃ k, k + 1 = 2 ^ 32 := ⟨4294967295, by norm_num⟩
      have hagain := (hlate k (by omega) (by omega)).resolve_right haxes
      omega
  · intro h k hk
    split
    · rename_i hsoon
      rw [hmove]
      cases h with
      | inl hstart =>
        left
        omega
      | inr hzero =>
        cases hzero.2 with
        | inl hsprint => exact Or.inr ⟨hzero.1, hsprint⟩
        | inr hedge =>
          left
          omega
    · rename_i hlate
      rw [hstop]
      cases h with
      | inl hstart =>
        left
        omega
      | inr hzero => exact Or.inr hzero.1

end

end PlayerSlot

namespace World
variable {F A : Type} (sim : Simulation F A)

/-- The command that a call moves the client's entity with; only a tick does. -/
def moves (client : Nat) (w : World F A) : WorldAction F A → Option (MoveInput A)
  | .step _ => (w.integrates sim client).map Prod.fst
  | _ => none

/-- The call queues nothing for the client, whose slot stays. -/
def Silent (client : Nat) (w : World F A) : WorldAction F A → Prop
  | .queueInput c input =>
    c = client → ∀ slot ∈ w.players.lookup client, slot.Stale input
  | action => w.Spares client action

/-- The call queues nothing for the client, in an order a tick can take. -/
def Unfed (client : Nat) (w : World F A) (action : WorldAction F A) : Prop :=
  w.Rightful action ∧ w.Enumerates action ∧ w.Silent client action

theorem tick_act [Zero F] (w : World F A) {action : WorldAction F A}
    (h : ∀ order, action ≠ .step order) : (w.act sim action).tick = w.tick := by
  cases action with
  | spawnPlayer c position => rfl
  | spawnDrifter position => rfl
  | despawn entity =>
    simp only [act, World.despawn]
    split
    · rfl
    · rfl
  | adoptEntity entity c position velocity sequence => rfl
  | queueInput c input =>
    simp only [act, World.queueInput]
    split
    · rfl
    · rfl
  | step order => exact absurd rfl (h order)

section
variable [Zero F] {client : Nat} {command : MoveInput A}

/-- A call that queues nothing leaves the slot at rest. -/
theorem Rowed.resting_act {w : World F A} (h : w.Rowed) {slot : PlayerSlot A}
    (hslot : w.players.lookup client = some slot) (hresting : slot.Resting command)
    {action : WorldAction F A} (hrightful : w.Rightful action) (henumerates : w.Enumerates action)
    (hsilent : w.Silent client action) :
    ∃ slot', (w.act sim action).players.lookup client = some slot' ∧ slot'.Resting command := by
  by_cases hqueue : ∃ input, action = .queueInput client input
  · obtain ⟨input, rfl⟩ := hqueue
    refine ⟨_, ?_, hresting.receive sim.quantizeInput (hsilent rfl slot hslot)⟩
    simp only [act, World.queueInput, hslot]
    exact (Table.lookup_insert _ _ _ _).trans (if_pos rfl)
  by_cases hstep : ∃ order, action = .step order
  · obtain ⟨order, rfl⟩ := hstep
    have hafter := (h.turned_step sim hslot henumerates).1
    rw [hresting.next] at hafter
    exact ⟨slot, hafter, hresting⟩
  · have hspares : w.Spares client action := by
      cases action with
      | queueInput c input =>
        intro hc
        exact absurd ⟨input, hc ▸ rfl⟩ hqueue
      | _ => exact hsilent
    exact ⟨slot, (h.untouched sim hslot hrightful hspares
      (fun input heq => hqueue ⟨input, heq⟩) (fun order heq => hstep ⟨order, heq⟩)).1, hresting⟩

/-- Whatever is called but a new command queued, the ticks integrate what a starved slot gives. -/
theorem Rowed.log_resting (htick : command.tick = 0) {w : World F A} (h : w.Rowed)
    {slot : PlayerSlot A} (hslot : w.players.lookup client = some slot)
    (hresting : slot.Resting command) {actions : List (WorldAction F A)}
    (hactions : Run.Along (act sim) (Unfed client) w actions) :
    ∃ n, Run.log (act sim) (moves sim client) w actions =
      (List.range n).map (PlayerSlot.starvedFrom sim.centered command w.tick) := by
  induction actions generalizing w slot with
  | nil => exact ⟨0, rfl⟩
  | cons action actions ih =>
    obtain ⟨⟨hrightful, henumerates, hsilent⟩, hrest⟩ := hactions
    obtain ⟨slot', hslot', hresting'⟩ :=
      h.resting_act sim hslot hresting hrightful henumerates hsilent
    obtain ⟨n, hlog⟩ := ih (rowed_act sim h hrightful) hslot' hresting' hrest
    by_cases hstep : ∃ order, action = .step order
    · obtain ⟨order, rfl⟩ := hstep
      have hmoves : w.moves sim client (.step order) =
          some (PlayerSlot.starvedFrom sim.centered command w.tick 0) := by
        rw [moves, integrates, hslot, Option.map_some, hresting.next]
        rfl
      refine ⟨n + 1, ?_⟩
      rw [Run.log, hmoves, hlog, act, tick_step, List.range_succ_eq_map, List.map_cons,
        List.map_map, Option.toList_some, List.singleton_append]
      congr 1
      apply List.map_congr_left
      intro k _
      rw [PlayerSlot.starvedFrom_mod _ htick, Function.comp_apply, PlayerSlot.starvedFrom,
        PlayerSlot.starvedFrom, Nat.add_right_comm, Nat.add_assoc]
    · have hmoves : w.moves sim client action = none := by
        cases action with
        | step order => exact absurd ⟨order, rfl⟩ hstep
        | _ => rfl
      refine ⟨n, ?_⟩
      rw [Run.log, hmoves, Option.toList_none, List.nil_append, hlog,
        tick_act sim w fun order heq => hstep ⟨order, heq⟩]

end

end World
end Morton.Sim

namespace Morton.Sim

/-- What gets into the queue is one of the commands given, with its axes quantized. -/
theorem PlayerSlot.mem_accepts {A : Type} {quantize : A → A} {inputs : List (MoveInput A)}
    {slot : PlayerSlot A} {command : MoveInput A} (h : command ∈ slot.accepts quantize inputs) :
    ∃ input ∈ inputs, command = { input with axes := quantize input.axes } := by
  induction inputs generalizing slot with
  | nil => cases h
  | cons input inputs ih =>
    have hrest : command ∈ (slot.receive quantize input).accepts quantize inputs →
        ∃ other ∈ input :: inputs, command = { other with axes := quantize other.axes } := by
      intro hmem
      obtain ⟨other, hother, heq⟩ := ih hmem
      exact ⟨other, List.mem_cons_of_mem _ hother, heq⟩
    rw [PlayerSlot.accepts] at h
    split at h
    · exact hrest h
    · cases h with
      | head => exact ⟨input, List.mem_cons_self, rfl⟩
      | tail _ hmem => exact hrest hmem

instance World.decidableUnfed {F A : Type} (client : Nat) (w : World F A)
    (action : WorldAction F A) : Decidable (w.Unfed client action) :=
  haveI : Decidable (w.Silent client action) :=
    match action with
    | .queueInput c input => inferInstanceAs (Decidable (c = client →
        ∀ slot ∈ w.players.lookup client, slot.Stale input))
    | .spawnPlayer c position => w.decidableSpares client (.spawnPlayer c position)
    | .spawnDrifter position => w.decidableSpares client (.spawnDrifter position)
    | .despawn entity => w.decidableSpares client (.despawn entity)
    | .adoptEntity entity c position velocity sequence =>
      w.decidableSpares client (.adoptEntity entity c position velocity sequence)
    | .step order => w.decidableSpares client (.step order)
  inferInstanceAs (Decidable (_ ∧ _ ∧ _))

theorem World.Good.rowed {F A : Type} {w : World F A} (h : w.Good) : w.Rowed where
  store := h.store
  fresh := h.fresh
  unowned := by rw [World.entityOf, h.unowned, Option.map_none]
  slot client entity hentity := by
    obtain ⟨slot, hslot, rfl⟩ := Option.map_eq_some_iff.mp hentity
    exact (h.slot client slot hslot).1

end Morton.Sim

namespace Morton.App
open Proto Sim Cluster
variable {R A : Type} [LT R] (env : ShardEnv R A) (axis : AxisQuantizer A)

/-- A command that came through the decoder is queued without a tick. -/
theorem tick_of_accepted {w : WorldServer R A} {client : Nat} {data : Bytes}
    {command : MoveInput A}
    (h : command ∈ w.accepted env client (decodeInputPacket axis data)) : command.tick = 0 := by
  unfold WorldServer.accepted at h
  split at h
  · rename_i player slot packet hplayer hslot hpacket
    split at h
    · cases h
    · obtain ⟨quantized, hquantized, rfl⟩ := PlayerSlot.mem_accepts h
      obtain ⟨input, hinput, rfl⟩ := List.mem_map.mp hquantized
      exact ((accepted_of_decode axis hpacket).wired input hinput).tick
  · cases h

variable [Add R] [Mul R] [Neg R] [DecidableLT R] [OfScientific R]

/-- On any shard, a command that `on_payload` queues is the last one waiting when a tick takes
it; later calls queue nothing for the player. Over seven or more ticks its entity coasts as
intended if the tick's number was 0 and no tick has that number again, or if the command had
zero axes and, with the sprint flag, came at the edge. -/
theorem coasts_iff {s : Shard R A} (hs : s.Reachable env) {client : Nat} {data : Bytes}
    {command : MoveInput A}
    (hcommand : command ∈ s.server.accepted env client (decodeInputPacket axis data))
    {before later : List (WorldAction UInt32 A)} {order : List Nat} {w : World UInt32 A}
    (hw : w = Run.run (World.act env.sim)
      (s.server.onPayload env client (decodeInputPacket axis data)).world before)
    (hbefore : Run.Along (World.act env.sim) World.Rightful
      (s.server.onPayload env client (decodeInputPacket axis data)).world before)
    {slot : PlayerSlot A} (hslot : w.players.lookup client = some slot)
    (hpending : slot.pending = [command]) (horder : w.Iterated order)
    (hlater : Run.Along (World.act env.sim) (World.Unfed client)
      (w.act env.sim (.step order)) later)
    (hlong : 7 ≤ (Run.log (World.act env.sim) (World.moves env.sim client)
      (w.act env.sim (.step order)) later).length) :
    w.integrates env.sim client = some (command, true) ∧
    (PlayerSlot.Coasts env.sim.centered command
        (Run.log (World.act env.sim) (World.moves env.sim client)
          (w.act env.sim (.step order)) later) ↔
      (w.tick % 2 ^ 32 = 0 ∧ (Run.log (World.act env.sim) (World.moves env.sim client)
        (w.act env.sim (.step order)) later).length < 2 ^ 32) ∨
      (command.axes = env.sim.centered ∧
        (command.sprint = false ∨ w.tick % 2 ^ 32 = 0 ∨ w.tick % 2 ^ 32 = 2 ^ 32 - 1))) := by
  have hworld := (hs.booked env).seated.onPayload env client (decodeInputPacket axis data)
  have hrowed : w.Rowed := hw ▸ Run.invariant World.Rowed
    (fun _ _ hok h => World.rowed_act env.sim h hok) hworld.world.rowed hbefore
  obtain ⟨hfirst, hresting⟩ := PlayerSlot.resting_of_next hpending env.sim.centered w.tick
  have hafter := (hrowed.turned_step env.sim hslot horder).1
  have htick := tick_of_accepted env axis hcommand
  have hstep : (w.act env.sim (.step order)).Rowed := World.rowed_act env.sim hrowed trivial
  obtain ⟨n, hlog⟩ := hstep.log_resting env.sim htick hafter hresting hlater
  constructor
  · rw [World.integrates, hslot, Option.map_some, PlayerSlot.next, hpending]
  · rw [hlog, List.length_map, List.length_range] at hlong ⊢
    rw [World.act, World.tick_step] at hlog ⊢
    have hmap : (List.range n).map (PlayerSlot.starvedFrom env.sim.centered command
        ((w.tick + 1) % 2 ^ 32)) =
        (List.range n).map (PlayerSlot.starvedFrom env.sim.centered command (w.tick + 1)) :=
      List.map_congr_left fun k _ => PlayerSlot.starvedFrom_mod _ htick _ k
    rw [hmap]
    exact PlayerSlot.coasts_starved_iff env.sim.centered htick w.tick hlong

/-- Entities that pass through each other stay as many. -/
theorem passing_length (ids : List Nat) (positions : List (Vec2 UInt32)) :
    ((fun _ positions => (positions, 0, 0)) ids positions :
      List (Vec2 UInt32) × Nat × Nat).1.length = positions.length := rfl

/-- A shard on which nothing moves, with axes as on the wire. -/
def ShardEnv.steered : ShardEnv ℚ (ℚ × ℚ) :=
  { sim :=
      { stepMovement := fun s _ => s
        quantizeInput := fun axes => AxisQuantizer.exact.decode (AxisQuantizer.exact.encode axes)
        decode := fun _ => ⟨⟨0, 0⟩, ⟨0, 0⟩⟩
        initial := ⟨⟨0, 0⟩, ⟨0, 0⟩⟩
        centered := (0, 0)
        drifterAxes := fun _ => (0, 0)
        resolveCollisions := fun _ positions => (positions, 0, 0)
        resolve_length := passing_length }
    scene := fun world _ => { tick := world.tick, hasViewer := false, seen := [] }
    nth := NthElement.sorting ℚ
    handoffTarget := fun _ _ => none
    spawnPoint := fun _ _ => ⟨0, 0⟩ }

/-- Shard "a" some ticks after player "p" has joined it under client id 1. -/
def arena (ticks : Nat) : Shard ℚ (ℚ × ℚ) :=
  Run.run (Shard.step .steered)
    (Shard.start
      { shardId := [97], interest := { distancePriorityFalloff := 1 }, advertise := false }
      { config := { id := [97] } } [])
    (.connect (some { token := 5, playerId := [112] }) 0 :: List.replicate ticks (.tick 0 [1] [1]))

/-- Full speed along the diagonal, as it is queued. -/
def dash : MoveInput (ℚ × ℚ) := { sequence := 1, axes := (1, 1) }

/-- The packet with it; the client stamps the tick it has estimated. -/
def dashPacket (clientTick : Nat) : Bytes :=
  encodeInputPacket AxisQuantizer.exact
    { clientTick, inputs := [{ dash with tick := clientTick }] } kMaxDatagramSize

/-- The world of the shard when the packet has been handled. -/
def dashed (ticks : Nat) : World UInt32 (ℚ × ℚ) :=
  ((arena ticks).server.onPayload .steered 1
    (decodeInputPacket AxisQuantizer.exact (dashPacket ticks))).world

/-- What seven silent ticks integrate after the tick that applied the command. -/
def silence (ticks : Nat) : List (MoveInput (ℚ × ℚ)) :=
  Run.log (World.act ShardEnv.steered.sim) (World.moves ShardEnv.steered.sim 1)
    ((dashed ticks).act ShardEnv.steered.sim (.step [1])) (List.replicate 7 (.step [1]))

/-- Applied by the very first tick, the command is repeated six times. -/
theorem coasts_iff_first_tick :
    PlayerSlot.Coasts ShardEnv.steered.sim.centered dash (silence 0) := by
  have hpending : ((dashed 0).players.lookup 1).map PlayerSlot.pending = some [dash] := by
    decide +kernel
  obtain ⟨slot, hslot, hpending⟩ := Option.map_eq_some_iff.mp hpending
  apply (@coasts_iff ℚ (ℚ × ℚ) _ .steered .exact _ _ _ _ _ (arena 0) ⟨_, _, _, _, rfl⟩ 1
    (dashPacket 0) dash (by decide +kernel) [] (List.replicate 7 (.step [1])) [1] (dashed 0) rfl
    trivial slot hslot hpending (World.iterated_of_keys (by decide) (by decide +kernel))
    (by decide +kernel) (by decide +kernel)).2.mpr
  exact Or.inl ⟨by decide +kernel, by decide +kernel⟩

/-- At tick 10 the window is over before it begins: the first silent tick has zero axes. -/
theorem tenth_tick_does_not_coast :
    (dashed 10).tick = 10 ∧
    (dashed 10).integrates ShardEnv.steered.sim 1 = some (dash, true) ∧
    (silence 10).map MoveInput.axes = List.replicate 7 (0, 0) ∧
    ¬ PlayerSlot.Coasts ShardEnv.steered.sim.centered dash (silence 10) := by
  decide +kernel

end Morton.App
