import Morton.Proto.SnapshotOrder
import Morton.Sim.Prediction

/-! The whole `ClientView`: its statistics and the correction of what is drawn stand beside the
view. What only `advance` writes is a type of its own, and arithmetic on floats is a parameter. -/
namespace Morton.Sim
open Proto Net Keyed LowerBound

structure ClientViewStats (R : Type) where
  snapshotsApplied : Nat := 0
  snapshotsRejected : Nat := 0
  reconciliations : Nat := 0
  replayedInputs : Nat := 0
  hardSnaps : Nat := 0
  lastPredictionError : R
  peakPredictionError : R
  meanPredictionError : R
  knownEntities : Nat := 0
  pendingInputs : Nat := 0

/-- Errors are of type `R`, correction offsets of type `O`; `D` is the render clock and the
render list. -/
structure Display (S R O D : Type) where
  zero : R
  greater : R → R → Bool
  /-- `(replayed.position - previous_prediction).length()` -/
  distance : S → S → R
  /-- `error_sum_ += error` -/
  accumulate : R → R → R
  mean : R → Nat → R
  correctionSnapDistance : R
  noOffset : O
  /-- `previous_prediction - replayed.position + correction_offset_` -/
  retire : S → S → O → O
  blank : D
  /-- The render clock starts anew. -/
  stopped : D → D

structure Mirror (S A R O D : Type) where
  view : ClientView S A
  correctionOffset : O
  drawn : D
  stats : ClientViewStats R
  errorSum : R
  errorSamples : Nat := 0

/-- The calls a `ClientView` takes; what `advance` computes is left open. -/
inductive MirrorCall (S A O D : Type)
  | configure (config : ClientViewConfig)
  | reset
  | setLocalEntity (entity : Nat)
  | adoptMigratedState (entity : Nat) (state : S)
  | pushInput (axes : A) (sprint : Bool) (clientTick : Nat)
  | applySnapshot (data : Nat → UInt8) (size : Nat)
  | advance (correctionOffset : O) (drawn : D)

/-- A `u32` counter. -/
def counted (counter n : Nat) : Nat := (counter + n) % 2 ^ 32

/-- `find_state`; `none` is the null pointer. -/
def findState (states : List EntityWireState) (id : Nat) : Option EntityWireState :=
  states[lowerBound (fun state => decide (state.id < id)) states]?.filter
    fun state => state.id == id

namespace Mirror
variable {S A R O D : Type} (physics : Physics S A) (display : Display S R O D)

/-- Every member as `reset` leaves it, around a view. -/
def blank (view : ClientView S A) : Mirror S A R O D :=
  { view, correctionOffset := display.noOffset, drawn := display.blank
    stats := { lastPredictionError := display.zero, peakPredictionError := display.zero
               meanPredictionError := display.zero }
    errorSum := display.zero }

def start (config : ClientViewConfig) : Mirror S A R O D :=
  blank display (ClientView.configure physics config)

def reset (m : Mirror S A R O D) : Mirror S A R O D := blank display (m.view.reset physics)

def configure (m : Mirror S A R O D) (config : ClientViewConfig) : Mirror S A R O D :=
  reset physics display
    { m with view :=
        { m.view with config, baselines := SnapshotHistory.configure config.snapshotHistory } }

def adoptMigratedState (m : Mirror S A R O D) (entity : Nat) (state : S) : Mirror S A R O D :=
  { m with
    view := m.view.adoptMigratedState entity state
    correctionOffset := display.noOffset
    drawn := display.stopped m.drawn }

def pushInput (m : Mirror S A R O D) (axes : A) (sprint : Bool) (clientTick : Nat) :
    Mirror S A R O D :=
  let view := (m.view.pushInput physics axes sprint clientTick).2
  { m with view, stats := { m.stats with pendingInputs := view.inputHistory.length } }

def reconcile (m : Mirror S A R O D) (snapshot : DecodedSnapshot) : Mirror S A R O D :=
  if m.view.reconciles snapshot then
    let view := m.view.reconcile physics snapshot
    let error := display.distance view.predicted m.view.predicted
    let errorSum := display.accumulate m.errorSum error
    let errorSamples := counted m.errorSamples 1
    let snaps := display.greater error display.correctionSnapDistance
    { m with
      view, errorSum, errorSamples
      stats :=
        { m.stats with
          replayedInputs := counted m.stats.replayedInputs view.inputHistory.length
          lastPredictionError := error
          peakPredictionError :=
            if display.greater error m.stats.peakPredictionError then error
            else m.stats.peakPredictionError
          meanPredictionError := display.mean errorSum errorSamples
          reconciliations :=
            if display.greater error display.zero then counted m.stats.reconciliations 1
            else m.stats.reconciliations
          hardSnaps := if snaps then counted m.stats.hardSnaps 1 else m.stats.hardSnaps
          pendingInputs := view.inputHistory.length }
      correctionOffset :=
        if snaps then display.noOffset
        else display.retire m.view.predicted view.predicted m.correctionOffset }
  else m

/-- A refused snapshot is counted. -/
def refuse (m : Mirror S A R O D) : Mirror S A R O D :=
  { m with stats := { m.stats with snapshotsRejected := counted m.stats.snapshotsRejected 1 } }

def accept (m : Mirror S A R O D) (snapshot : DecodedSnapshot) : Mirror S A R O D :=
  reconcile physics display
    { m with
      view := m.view.record snapshot
      stats :=
        { m.stats with
          snapshotsApplied := counted m.stats.snapshotsApplied 1
          knownEntities := snapshot.states.length } }
    snapshot

/-- `apply_snapshot` and what it returns. -/
def applySnapshot (m : Mirror S A R O D) (data : Nat → UInt8) (size : Nat) :
    Mirror S A R O D × Bool :=
  match peekSnapshotHeader data size with
  | none => (m.refuse, false)
  | some (_, baselineTick, full) =>
    let baseline := if full then none else m.view.baselines.get baselineTick
    if !full && baseline.isNone then (m.refuse, false)
    else
      match decodeSnapshot data size baseline with
      | none => (m.refuse, false)
      | some snapshot => (accept physics display m snapshot, true)

def step (m : Mirror S A R O D) : MirrorCall S A O D → Mirror S A R O D
  | .configure config => m.configure physics display config
  | .reset => m.reset physics display
  | .setLocalEntity entity => { m with view := { m.view with localEntity := entity } }
  | .adoptMigratedState entity state => m.adoptMigratedState display entity state
  | .pushInput axes sprint clientTick => m.pushInput physics axes sprint clientTick
  | .applySnapshot data size => (m.applySnapshot physics display data size).1
  | .advance correctionOffset drawn => { m with correctionOffset, drawn }

/-- The view inside goes its own way. -/
theorem reconcile_view (m : Mirror S A R O D) (snapshot : DecodedSnapshot) :
    (m.reconcile physics display snapshot).view = m.view.reconcile physics snapshot := by
  rw [reconcile]
  cases hreconciles : m.view.reconciles snapshot with
  | true => rfl
  | false =>
    obtain ⟨-, hsame⟩ | ⟨htrue, -⟩ := m.view.reconcile_cases physics snapshot
    · exact hsame.symm
    · rw [hreconciles] at htrue
      cases htrue

theorem applySnapshot_view (m : Mirror S A R O D) (data : Nat → UInt8) (size : Nat) :
    (m.applySnapshot physics display data size).1.view =
        (m.view.applySnapshot physics data size).1 ∧
      (m.applySnapshot physics display data size).2 =
        (m.view.applySnapshot physics data size).2.isSome := by
  unfold applySnapshot ClientView.applySnapshot
  cases peekSnapshotHeader data size with
  | none => exact ⟨rfl, rfl⟩
  | some header =>
    obtain ⟨tick, baselineTick, full⟩ := header
    dsimp only
    generalize (if full then none else m.view.baselines.get baselineTick) = baseline
    split
    · exact ⟨rfl, rfl⟩
    · cases decodeSnapshot data size baseline with
      | none => exact ⟨rfl, rfl⟩
      | some snapshot => exact ⟨reconcile_view physics display _ snapshot, rfl⟩

/-- A snapshot that is refused leaves everything else as it was. -/
theorem applySnapshot_refused (m : Mirror S A R O D) {data : Nat → UInt8} {size : Nat}
    (h : (m.applySnapshot physics display data size).2 = false) :
    (m.applySnapshot physics display data size).1 = m.refuse := by
  unfold applySnapshot at h ⊢
  cases hpeek : peekSnapshotHeader data size with
  | none => rfl
  | some header =>
    obtain ⟨tick, baselineTick, full⟩ := header
    simp only [hpeek] at h ⊢
    generalize (if full then none else m.view.baselines.get baselineTick) = baseline at h ⊢
    split at h
    · rename_i hmissing
      rw [if_pos hmissing]
    · rename_i hhave
      rw [if_neg hhave]
      cases hdecode : decodeSnapshot data size baseline with
      | none => rfl
      | some snapshot =>
        rw [hdecode] at h
        cases h

end Mirror

namespace ClientView
variable {S A : Type}

/-- What the binary searches of a view rely on: the states of each stored frame are in id order,
and the interpolation frames in tick order. -/
structure Ordered (v : ClientView S A) : Prop where
  baselines : ∀ i, Increasing EntityWireState.id (v.baselines.frames i).states
  frames : ∀ frame ∈ v.frames, Increasing EntityWireState.id frame.2
  ticks : Increasing Prod.fst v.frames

theorem Ordered.get {v : ClientView S A} (h : v.Ordered) {tick : Nat} {frame : SnapshotFrame}
    (hget : v.baselines.get tick = some frame) : Increasing EntityWireState.id frame.states := by
  unfold SnapshotHistory.get at hget
  dsimp only at hget
  split at hget
  · cases hget
  · split at hget
    · cases hget
    · cases hget
      exact h.baselines _

/-- In an ordered view every lookup by binary search finds the entity, if it is there. -/
theorem Ordered.finds {v : ClientView S A} (h : v.Ordered) (id : Nat) :
    (∀ tick frame, v.baselines.get tick = some frame →
      frame.find id = lookup EntityWireState.id frame.states id) ∧
    ∀ frame ∈ v.frames, findState frame.2 id = lookup EntityWireState.id frame.2 id :=
  ⟨fun _ _ hget => SnapshotFrame.find_eq (h.get hget) id,
    fun frame hframe => find_lowerBound (h.frames frame hframe) id⟩

theorem increasing_keepLast {α : Type} {key : α → Nat} {xs : List α} (h : Increasing key xs)
    (limit : Nat) : Increasing key (keepLast limit xs) :=
  h.sublist (List.drop_sublist _ _)

theorem ordered_store {history : SnapshotHistory} {states : List EntityWireState}
    (h : ∀ i, Increasing EntityWireState.id (history.frames i).states)
    (hstates : Increasing EntityWireState.id states) (tick i : Nat) :
    Increasing EntityWireState.id ((history.store tick states).frames i).states := by
  unfold SnapshotHistory.store
  split
  · exact h i
  · simp only [setSlot]
    split
    · exact hstates
    · exact h i

theorem Ordered.record {v : ClientView S A} (h : v.Ordered) {snapshot : DecodedSnapshot}
    (hstates : Increasing EntityWireState.id snapshot.states) : (v.record snapshot).Ordered where
  baselines i := ordered_store h.baselines hstates snapshot.tick i
  frames frame hframe := by
    have hmem : frame ∈ upsert Prod.fst v.frames (snapshot.tick, snapshot.states) :=
      List.mem_of_mem_drop hframe
    rw [mem_upsert h.ticks] at hmem
    obtain rfl | ⟨hold, -⟩ := hmem
    · exact hstates
    · exact h.frames frame hold
  ticks := increasing_keepLast (increasing_upsert h.ticks _) _

/-- Only the frames matter. -/
theorem Ordered.of_frames {v w : ClientView S A} (h : v.Ordered) (hbaselines : w.baselines = v.baselines)
    (hframes : w.frames = v.frames) : w.Ordered where
  baselines i := by rw [hbaselines]; exact h.baselines i
  frames frame hframe := h.frames frame (hframes ▸ hframe)
  ticks := by rw [hframes]; exact h.ticks

theorem ordered_empty {v : ClientView S A} (hbaselines : ∀ i, (v.baselines.frames i).states = [])
    (hframes : v.frames = []) : v.Ordered where
  baselines i := by rw [hbaselines]; exact List.Pairwise.nil
  frames frame hframe := by rw [hframes] at hframe; cases hframe
  ticks := by rw [hframes]; exact List.Pairwise.nil

theorem Ordered.applySnapshot {v : ClientView S A} (h : v.Ordered) (physics : Physics S A)
    (data : Nat → UInt8) (size : Nat) : (v.applySnapshot physics data size).1.Ordered := by
  obtain hsame | ⟨tick, baselineTick, full, snapshot, -, hdecode, -, heq⟩ :=
    v.applySnapshot_cases physics data size
  · rw [hsame]
    exact h
  · rw [heq]
    have hbase : ∀ frame ∈ (if full then none else v.baselines.get baselineTick),
        Increasing EntityWireState.id frame.states := by
      intro frame hframe
      cases full with
      | true => cases hframe
      | false => exact h.get hframe
    have hrecorded := h.record (decodeSnapshot_increasing hbase hdecode)
    rw [install_eq]
    obtain ⟨_, _, _, _, hreconcile⟩ := reconcile_frame physics (v.record snapshot) snapshot
    apply hrecorded.of_frames <;> rw [hreconcile]

end ClientView

namespace Mirror
variable {S A R O D : Type} (physics : Physics S A) (display : Display S R O D)

theorem ordered_step (m : Mirror S A R O D) (call : MirrorCall S A O D) (h : m.view.Ordered) :
    (m.step physics display call).view.Ordered := by
  cases call with
  | configure config => exact ClientView.ordered_empty (fun _ => rfl) rfl
  | reset => exact ClientView.ordered_empty (fun _ => rfl) rfl
  | setLocalEntity entity => exact h.of_frames rfl rfl
  | adoptMigratedState entity state => exact ClientView.ordered_empty (fun _ => rfl) rfl
  | pushInput axes sprint clientTick => exact h.of_frames rfl rfl
  | applySnapshot data size =>
    simp only [step, (m.applySnapshot_view physics display data size).1]
    exact h.applySnapshot physics data size
  | advance correctionOffset drawn => exact h

theorem ordered_run (config : ClientViewConfig) (calls : List (MirrorCall S A O D)) :
    (Run.run (step physics display) (start physics display config) calls).view.Ordered := by
  have hstart : (start physics display config).view.Ordered :=
    ClientView.ordered_empty (fun _ => rfl) rfl
  exact Run.invariant_always (fun m : Mirror S A R O D => m.view.Ordered)
    (ordered_step physics display) hstart calls

/-- Whatever arrives, decoded states are in id order, so is everything a view stores, and what
is refused changes nothing but its count. -/
theorem snapshots_stay_ordered :
    (∀ (data : Nat → UInt8) size baseline snapshot,
      (∀ frame ∈ baseline, Increasing EntityWireState.id frame.states) →
      decodeSnapshot data size baseline = some snapshot →
      Increasing EntityWireState.id snapshot.states) ∧
    (∀ config (calls : List (MirrorCall S A O D)),
      (Run.run (step physics display) (start physics display config) calls).view.Ordered) ∧
    ∀ (m : Mirror S A R O D) (data : Nat → UInt8) size,
      (m.applySnapshot physics display data size).2 = false →
      (m.applySnapshot physics display data size).1 =
        { m with
          stats := { m.stats with snapshotsRejected := counted m.stats.snapshotsRejected 1 } } :=
  ⟨fun _ _ _ _ hbase hdecode => decodeSnapshot_increasing hbase hdecode,
    ordered_run physics display,
    fun m _ _ hrefused => m.applySnapshot_refused physics display hrefused⟩

/-- A display without numbers. -/
def dark : Display Unit Unit Unit Unit :=
  { zero := (), greater := fun _ _ => false, distance := fun _ _ => (), accumulate := fun _ _ => ()
    mean := fun _ _ => (), correctionSnapDistance := (), noOffset := (), retire := fun _ _ _ => ()
    blank := (), stopped := id }

/-- A full snapshot of two entities. -/
def wholeSnapshot : List UInt8 :=
  (writeRecords ((writeSnapshotHeader (BitWriter.new (fun _ => 0) 100) 4 none 0 3 []).writeU16 2) 0
    [({ id := 3, px := 700 }, none), ({ id := 8, px := 90 }, none)]).bytes

/-- A snapshot over a baseline of tick 3, which removes entity 8. -/
def overMissing : List UInt8 :=
  ((writeSnapshotHeader (BitWriter.new (fun _ => 0) 100) 5 (some 3) 0 3 [8]).writeU16 0).bytes

/-- What arrived whole is stored in order; the other snapshot is counted and forgotten. -/
theorem snapshots_stay_ordered_missing :
    let calls : List (MirrorCall Unit Unit Unit Unit) :=
      [.applySnapshot (BitReader.view wholeSnapshot) wholeSnapshot.length]
    let m := Run.run (step Physics.still dark) (start Physics.still dark {}) calls
    let refused := m.applySnapshot Physics.still dark (BitReader.view overMissing) overMissing.length
    (m.view.baselines.get 4).map (fun frame => frame.states.map EntityWireState.id) = some [3, 8] ∧
      m.view.Ordered ∧
      refused = ({ m with stats := { m.stats with snapshotsRejected := 1 } }, false) := by
  intro calls m refused
  obtain ⟨-, hordered, hrefused⟩ := snapshots_stay_ordered Physics.still dark
  have hfalse : refused.2 = false := by decide +kernel
  have hnone : m.stats.snapshotsRejected = 0 := by decide +kernel
  have hcounted := hrefused m _ _ hfalse
  rw [hnone] at hcounted
  exact ⟨by decide +kernel, hordered {} calls, Prod.ext hcounted hfalse⟩

end Mirror
end Morton.Sim
