import Morton.Sim.Movement

/-! The client's mirror of the world: commands kept for replay, baselines kept for
decoding, reconciliation with the server. Rendering is left out. -/
namespace Morton.Sim
open Proto Net

structure ClientViewConfig where
  inputHistory : Nat := 128
  snapshotHistory : Nat := 32

structure ClientView (S A : Type) where
  config : ClientViewConfig := {}
  localEntity : Nat := 0
  predicted : S
  authoritative : S
  inputHistory : List (MoveInput A) := []
  nextInputSequence : Nat := 1
  lastAcknowledgedInput : Nat := 0
  baselines : SnapshotHistory := {}
  /-- Interpolation frames: tick and states, in tick order. -/
  frames : List (Nat × List EntityWireState) := []
  latestTick : Nat := 0
  hasSnapshot : Bool := false

def kInvalidEntity : Nat := 0

namespace ClientView
variable {S A : Type} (physics : Physics S A)

def configure (config : ClientViewConfig) : ClientView S A :=
  { config, predicted := physics.initial, authoritative := physics.initial
    baselines := SnapshotHistory.configure config.snapshotHistory }

def reset (v : ClientView S A) : ClientView S A :=
  { v with
    predicted := physics.initial
    authoritative := physics.initial
    inputHistory := []
    nextInputSequence := 1
    lastAcknowledgedInput := 0
    baselines := v.baselines.reset
    frames := []
    latestTick := 0
    hasSnapshot := false }

def adoptMigratedState (v : ClientView S A) (entity : Nat) (state : S) : ClientView S A :=
  { v with
    localEntity := entity
    predicted := state
    authoritative := state
    inputHistory := []
    baselines := v.baselines.reset
    frames := []
    hasSnapshot := false }

/-- Keeps the newest `limit` elements of a deque that grows at the back. -/
def keepLast {α : Type} (limit : Nat) (xs : List α) : List α := xs.drop (xs.length - limit)

def pushInput (v : ClientView S A) (axes : A) (sprint : Bool) (clientTick : Nat) :
    MoveInput A × ClientView S A :=
  let input : MoveInput A :=
    { sequence := v.nextInputSequence, tick := clientTick, axes := physics.quantizeInput axes, sprint }
  (input,
    { v with
      nextInputSequence := (v.nextInputSequence + 1) % 2 ^ 32
      predicted := physics.stepMovement v.predicted input
      inputHistory := keepLast v.config.inputHistory (v.inputHistory ++ [input]) })

def reconcile (v : ClientView S A) (snapshot : DecodedSnapshot) : ClientView S A :=
  match snapshot.states.find? fun state => state.id == v.localEntity with
  | none => v
  | some mine =>
    if snapshot.lastInputSequence < v.lastAcknowledgedInput then v
    else
      let history := v.inputHistory.dropWhile fun input =>
        decide (input.sequence ≤ snapshot.lastInputSequence)
      { v with
        lastAcknowledgedInput := snapshot.lastInputSequence
        authoritative := physics.decode mine
        inputHistory := history
        predicted := history.foldl physics.stepMovement (physics.decode mine) }

/-- What a decoded snapshot does to the view. -/
def install (v : ClientView S A) (snapshot : DecodedSnapshot) : ClientView S A :=
  let v := { v with
    baselines := v.baselines.store snapshot.tick snapshot.states
    localEntity := if snapshot.viewer ≠ kInvalidEntity then snapshot.viewer else v.localEntity
    frames := keepLast v.config.snapshotHistory
      (Keyed.upsert Prod.fst v.frames (snapshot.tick, snapshot.states))
    latestTick :=
      if !v.hasSnapshot || sequenceGreater32 snapshot.tick v.latestTick then snapshot.tick
      else v.latestTick
    hasSnapshot := true }
  v.reconcile physics snapshot

/-- `none` is `return false`; otherwise the snapshot that was decoded. -/
def applySnapshot (v : ClientView S A) (data : Nat → UInt8) (size : Nat) :
    ClientView S A × Option DecodedSnapshot :=
  match peekSnapshotHeader data size with
  | none => (v, none)
  | some (_, baselineTick, full) =>
    let baseline := if full then none else v.baselines.get baselineTick
    if !full && baseline.isNone then (v, none)
    else
      match decodeSnapshot data size baseline with
      | none => (v, none)
      | some snapshot => (v.install physics snapshot, some snapshot)

/-- Reconciliation rewrites the commands kept for replay and what was predicted from them. -/
theorem reconcile_frame (v : ClientView S A) (snapshot : DecodedSnapshot) :
    ∃ lastAcknowledgedInput authoritative inputHistory predicted,
      v.reconcile physics snapshot =
        { v with lastAcknowledgedInput, authoritative, inputHistory, predicted } := by
  unfold reconcile
  split
  · exact ⟨_, _, _, _, rfl⟩
  · split
    · exact ⟨_, _, _, _, rfl⟩
    · exact ⟨_, _, _, _, rfl⟩

/-- A snapshot is refused, or decoded over the baseline its header names and stored. -/
theorem applySnapshot_cases (v : ClientView S A) (data : Nat → UInt8) (size : Nat) :
    v.applySnapshot physics data size = (v, none) ∨
    ∃ tick baselineTick full snapshot, peekSnapshotHeader data size = some (tick, baselineTick, full) ∧
      decodeSnapshot data size (if full then none else v.baselines.get baselineTick) =
        some snapshot ∧
      (full = false → (v.baselines.get baselineTick).isSome = true) ∧
      v.applySnapshot physics data size = (v.install physics snapshot, some snapshot) := by
  unfold applySnapshot
  cases hpeek : peekSnapshotHeader data size with
  | none => exact Or.inl rfl
  | some header =>
    obtain ⟨tick, baselineTick, full⟩ := header
    dsimp only
    generalize hbase : (if full then none else v.baselines.get baselineTick) = baseline
    by_cases hhave : (!full && baseline.isNone) = true
    · exact Or.inl (if_pos hhave)
    · cases hdecode : decodeSnapshot data size baseline with
      | none => exact Or.inl (if_neg hhave)
      | some snapshot =>
        refine Or.inr ⟨tick, baselineTick, full, snapshot, rfl, hbase ▸ hdecode, ?_, if_neg hhave⟩
        rintro rfl
        rw [if_neg (by decide)] at hbase
        rw [hbase, Option.isSome_iff_ne_none]
        simpa using hhave

theorem install_baselines (v : ClientView S A) (snapshot : DecodedSnapshot) :
    (v.install physics snapshot).baselines = v.baselines.store snapshot.tick snapshot.states := by
  unfold install
  obtain ⟨_, _, _, _, heq⟩ := reconcile_frame physics _ snapshot
  rw [heq]

/-- The newest tick follows the snapshots; the first one counts whatever came before it. -/
theorem install_latestTick (v : ClientView S A) (snapshot : DecodedSnapshot) :
    (v.install physics snapshot).hasSnapshot = true ∧
    (v.install physics snapshot).latestTick =
      if !v.hasSnapshot || sequenceGreater32 snapshot.tick v.latestTick then snapshot.tick
      else v.latestTick := by
  unfold install
  obtain ⟨_, _, _, _, heq⟩ := reconcile_frame physics _ snapshot
  rw [heq]
  exact ⟨rfl, rfl⟩

/-- A snapshot that is applied has the tick of its header. -/
theorem applySnapshot_tick (v : ClientView S A) {data : Nat → UInt8} {size tick baselineTick : Nat}
    {full : Bool} (hpeek : peekSnapshotHeader data size = some (tick, baselineTick, full))
    {snapshot : DecodedSnapshot} (h : (v.applySnapshot physics data size).2 = some snapshot) :
    snapshot.tick = tick := by
  rcases v.applySnapshot_cases physics data size with
    hfail | ⟨tick', baselineTick', full', decoded, hpeek', hdecode, -, heq⟩
  · rw [hfail] at h
    cases h
  · rw [heq] at h
    cases h
    exact decodeSnapshot_tick hpeek hdecode

/-- Reconciliation forgets what the server has acknowledged, and nothing else. -/
theorem install_inputHistory (v : ClientView S A) (snapshot : DecodedSnapshot) :
    (v.install physics snapshot).inputHistory = v.inputHistory ∨
    (v.install physics snapshot).inputHistory = v.inputHistory.dropWhile fun input =>
      decide (input.sequence ≤ snapshot.lastInputSequence) := by
  unfold install
  generalize hlocal : (if snapshot.viewer ≠ kInvalidEntity then snapshot.viewer
    else v.localEntity) = localEntity
  unfold reconcile
  dsimp only
  split
  · exact Or.inl rfl
  · split
    · exact Or.inl rfl
    · exact Or.inr rfl

theorem install_nextInputSequence (v : ClientView S A) (snapshot : DecodedSnapshot) :
    (v.install physics snapshot).nextInputSequence = v.nextInputSequence := by
  unfold install
  obtain ⟨_, _, _, _, heq⟩ := reconcile_frame physics _ snapshot
  rw [heq]

end ClientView
end Morton.Sim
