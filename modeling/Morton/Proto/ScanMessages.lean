import Morton.Proto.Messages
import Morton.Proto.Scan
import Morton.Proto.Snapshot

/-! The decoders of snapshots, input packets, events and credentials, each with the
indices it reads. -/
namespace Morton.Proto.Scan
open Traced

def peekSnapshotHeader : Scan (Option (Nat × Nat × Bool)) := do
  let tick ← u32
  let full ← bool
  let baselineTick ← (bif full then pure 0 else u32)
  let failed ← overflowed
  pure (bif failed then none else some (tick, baselineTick, full))

def entityId (previous : Nat) : Scan Nat := do
  let gap ← varint
  pure ((previous + gap) % 2 ^ 32)

def removedIds : Nat → Nat → Scan (List Nat)
  | 0, _ => pure []
  | count+1, previousId => do
    let id ← entityId previousId
    let rest ← removedIds count id
    pure (id :: rest)

def newRecord (state : EntityWireState) : Scan EntityWireState := do
  let px ← u16
  let py ← u16
  let vx ← bits kVelocityBits
  let vy ← bits kVelocityBits
  let kind ← bits kKindBits
  pure { state with px, py, vx, vy, kind }

def position (state : EntityWireState) : Scan EntityWireState := do
  let small ← bool
  bif small then do
    let dx ← ranged kSmallDeltaMin kSmallDeltaMax
    let dy ← ranged kSmallDeltaMin kSmallDeltaMax
    pure { state with px := addDelta state.px dx, py := addDelta state.py dy }
  else do
    let px ← u16
    let py ← u16
    pure { state with px, py }

def change (state : EntityWireState) : Scan EntityWireState := do
  let positionChanged ← bool
  let state ← (bif positionChanged then position state else pure state)
  let velocityChanged ← bool
  bif velocityChanged then do
    let vx ← bits kVelocityBits
    let vy ← bits kVelocityBits
    pure { state with vx, vy }
  else pure state

/-- One round of the update loop over the last id and the states so far. -/
def record (last : Nat × List EntityWireState) : Scan (Option (Nat × List EntityWireState)) := do
  let id ← entityId last.1
  let isNew ← bool
  let failed ← overflowed
  bif failed then pure none
  else
    let existing :=
      (Keyed.above EntityWireState.id last.2 id).head?.filter fun s => s.id == id
    let state := existing.getD { id }
    bif !isNew && existing.isNone then pure none
    else do
      let state ← (bif isNew then newRecord state else change state)
      let failed ← overflowed
      pure (bif failed then none else some (id, Keyed.upsert EntityWireState.id last.2 state))

def records (count : Nat) (states : List EntityWireState) :
    Scan (Option (List EntityWireState)) := do
  let read ← rounds record count (0, states)
  pure (bif read.1 then some read.2.2 else none)

def body (baseStates : List EntityWireState) :
    Scan (Option (List EntityWireState × List Nat)) := do
  let removedCount ← varint
  let failed ← overflowed
  bif failed || decide (65535 < removedCount) then pure none
  else do
    let removed ← removedIds removedCount 0
    let failed ← overflowed
    bif failed then pure none
    else do
      let states := baseStates.filter fun state => !removed.contains state.id
      let updatedCount ← u16
      let failed ← overflowed
      bif failed then pure none
      else do
        let states ← records updatedCount states
        pure (states.map fun states => (states, removed))

def snapshot (baseline : Option SnapshotFrame) : Scan (Option DecodedSnapshot) := do
  let tick ← u32
  let full ← bool
  let baselineTick ← (bif full then pure 0 else u32)
  let lastInputSequence ← u32
  let viewer ← varint
  let failed ← overflowed
  bif failed then pure none
  else
    bif !full && baseline.all (fun b => !b.valid || b.tick != baselineTick) then pure none
    else do
      let baseStates := bif full then [] else (baseline.map SnapshotFrame.states).getD []
      let decoded ← body baseStates
      pure (decoded.map fun (states, removed) =>
        { tick, baselineTick, full, lastInputSequence, viewer, states, removed })

section
variable {A : Type} (axis : AxisQuantizer A)

def inputs : Nat → Scan (List (Sim.MoveInput A))
  | 0 => pure []
  | count+1 => do
    let sequence ← u32
    let x ← bits kAxisBits
    let y ← bits kAxisBits
    let sprint ← bool
    let rest ← inputs count
    pure ({ sequence, axes := axis.decode (x, y), sprint } :: rest)

def inputPacket : Scan (Option (InputPacket A)) := do
  let channel ← u8
  bif channel != kInputChannel then pure none
  else do
    let clientTick ← u32
    let ackedSnapshotTick ← u32
    let count ← ranged 0 kMaxInputsPerPacket
    let failed ← overflowed
    bif failed || decide (count < 0) then pure none
    else do
      let inputs ← inputs axis count.toNat
      let failed ← overflowed
      pure (bif failed then none else some { clientTick, ackedSnapshotTick, inputs })

end

def migrateRedirect : Scan (Option MigrateRedirectEvent) := do
  let event ← u8
  bif event != kMigrateRedirect then pure none
  else do
    let ticket ← u64
    let region ← varint
    let endpoint ← string
    let shardId ← string
    let failed ← overflowed
    pure (bif failed || endpoint.isEmpty then none else some { ticket, region, endpoint, shardId })

def worldConfig : Scan (Option WorldConfigEvent) := do
  let event ← u8
  bif event != kWorldConfig then pure none
  else do
    let entity ← u32
    let tick ← u32
    let region ← varint
    let worldSize ← u32
    let tickRate ← varint
    let shardId ← string
    let failed ← overflowed
    pure (bif failed then none
      else some { entity, tick, region, worldSize := UInt32.ofNat worldSize, tickRate, shardId })

def credential : Scan (Option ConnectCredential) := do
  let kind ← u8
  bif decide (1 < kind) then pure none
  else do
    let token ← u64
    let playerId ← string
    let failed ← overflowed
    pure (bif failed || playerId.isEmpty || decide (kMaxPlayerIdBytes < playerId.length) then none
      else some { kind := bif kind == 0 then .session else .migration, token, playerId })

section Erasure

theorem eval_peekSnapshotHeader (data : Nat → UInt8) (size : Nat) :
    (peekSnapshotHeader.eval (BitReader.new data size)).1 =
      Proto.peekSnapshotHeader data size := by
  simp only [peekSnapshotHeader, eval_bind, eval_u32, eval_bool, eval_cond, eval_overflowed,
    eval_pure]
  simp only [Proto.peekSnapshotHeader, Bool.cond_eq_ite]

@[simp] theorem eval_entityId (previous : Nat) (r : BitReader) :
    (entityId previous).eval r = readEntityId r previous := by
  simp [entityId, readEntityId]

@[simp] theorem eval_removedIds (count previousId : Nat) (r : BitReader) :
    (removedIds count previousId).eval r = readRemoved count r previousId := by
  induction count generalizing r previousId with
  | zero => rfl
  | succ count ih => simp [removedIds, readRemoved, ih]

@[simp] theorem eval_newRecord (state : EntityWireState) (r : BitReader) :
    (newRecord state).eval r = readNew r state := by
  simp [newRecord, readNew]

@[simp] theorem eval_position (state : EntityWireState) (r : BitReader) :
    (position state).eval r = readPosition r state := by
  simp [position, readPosition, Bool.cond_eq_ite]

@[simp] theorem eval_change (state : EntityWireState) (r : BitReader) :
    (change state).eval r = readChange r state := by
  simp [change, readChange, Bool.cond_eq_ite]

theorem eval_record_rounds (count previousId : Nat) (states : List EntityWireState)
    (r : BitReader) :
    readRecords count r previousId states =
      bif ((rounds record count (previousId, states)).eval r).1.1 then
        some (((rounds record count (previousId, states)).eval r).1.2.2,
          ((rounds record count (previousId, states)).eval r).2)
      else none := by
  induction count generalizing r previousId states with
  | zero => rfl
  | succ count ih =>
    have hround : (record (previousId, states)).eval r =
        let first := readEntityId r previousId
        let second := first.2.readBool
        let existing := (Keyed.above EntityWireState.id states first.1).head?.filter
          fun s => s.id == first.1
        let state := existing.getD { id := first.1 }
        let third := if second.1 = true then readNew second.2 state else readChange second.2 state
        bif second.2.overflow then (none, second.2)
        else bif !second.1 && existing.isNone then (none, second.2)
        else (bif third.2.overflow then none
          else some (first.1, Keyed.upsert EntityWireState.id states third.1), third.2) := by
      simp only [record, eval_bind, eval_entityId, eval_bool, eval_overflowed, eval_cond, eval_pure,
        eval_newRecord, eval_change]
      simp only [Bool.cond_eq_ite]
    rw [readRecords]
    dsimp only at hround ⊢
    generalize readEntityId r previousId = first at hround ⊢
    generalize first.2.readBool = second at hround ⊢
    generalize (Keyed.above EntityWireState.id states first.1).head?.filter
      (fun s => s.id == first.1) = existing at hround ⊢
    generalize (if second.1 = true then readNew second.2 (existing.getD { id := first.1 })
      else readChange second.2 (existing.getD { id := first.1 })) = third at hround ⊢
    cases hlate : second.2.overflow with
    | true =>
      rw [hlate] at hround
      simp [eval_rounds_none hround]
    | false =>
      cases hknown : !second.1 && existing.isNone with
      | true =>
        rw [hlate, hknown] at hround
        simp [eval_rounds_none hround]
      | false =>
        rw [hlate, hknown] at hround
        cases hover : third.2.overflow with
        | true =>
          rw [hover] at hround
          simp [eval_rounds_none hround]
        | false =>
          rw [hover] at hround
          rw [eval_rounds_some hround, ← ih]
          simp

theorem eval_records (count : Nat) (states : List EntityWireState) (r : BitReader) :
    ((records count states).eval r).1 = (readRecords count r 0 states).map Prod.fst := by
  rw [eval_record_rounds]
  simp only [records, eval_bind, eval_pure]
  cases ((rounds record count (0, states)).eval r).1.1 <;> rfl

theorem eval_body (baseStates : List EntityWireState) (r : BitReader) :
    ((body baseStates).eval r).1 = decodeBody r baseStates := by
  simp only [body, eval_bind, eval_varint, eval_overflowed, eval_cond, eval_pure, eval_removedIds,
    eval_u16]
  simp only [decodeBody, Bool.cond_eq_ite, Bool.or_eq_true, decide_eq_true_eq]
  split
  · rfl
  · split
    · rfl
    · split
      · rfl
      · rw [eval_records, Option.map_map]
        rfl

theorem eval_snapshot (data : Nat → UInt8) (size : Nat) (baseline : Option SnapshotFrame) :
    ((snapshot baseline).eval (BitReader.new data size)).1 = decodeSnapshot data size baseline := by
  simp only [snapshot, eval_bind, eval_u32, eval_bool, eval_cond, eval_varint, eval_overflowed,
    eval_pure]
  simp only [decodeSnapshot, Bool.cond_eq_ite]
  generalize (BitReader.new data size).readU32 = first
  generalize first.2.readBool = second
  generalize (if second.1 = true then (0, second.2) else second.2.readU32) = third
  generalize third.2.readU32 = fourth
  generalize fourth.2.readVarint = fifth
  split
  · rfl
  · split
    · rfl
    · simp [eval_body]

theorem eval_inputs {A : Type} (axis : AxisQuantizer A) (count : Nat) (r : BitReader) :
    (inputs axis count).eval r = readInputs axis count r := by
  induction count generalizing r with
  | zero => rfl
  | succ count ih => simp [inputs, readInputs, ih]

theorem eval_inputPacket {A : Type} (axis : AxisQuantizer A) (data : Bytes) :
    ((inputPacket axis).eval (BitReader.ofBytes data)).1 = decodeInputPacket axis data := by
  simp only [inputPacket, eval_bind, eval_u8, eval_u32, eval_ranged, eval_cond, eval_overflowed,
    eval_pure, eval_inputs]
  simp only [decodeInputPacket, Bool.cond_eq_ite, bne_iff_ne, Bool.or_eq_true, decide_eq_true_eq]
  split
  · rfl
  · split <;> rfl

theorem eval_migrateRedirect (data : Bytes) :
    (migrateRedirect.eval (BitReader.ofBytes data)).1 = decodeMigrateRedirect data := by
  simp only [migrateRedirect, eval_bind, eval_u8, eval_u64, eval_varint, eval_string, eval_cond,
    eval_overflowed, eval_pure]
  simp only [decodeMigrateRedirect, Bool.cond_eq_ite, bne_iff_ne, Bool.or_eq_true,
    List.isEmpty_iff]
  split <;> rfl

theorem eval_worldConfig (data : Bytes) :
    (worldConfig.eval (BitReader.ofBytes data)).1 = decodeWorldConfig data := by
  simp only [worldConfig, eval_bind, eval_u8, eval_u32, eval_varint, eval_string, eval_cond,
    eval_overflowed, eval_pure]
  simp only [decodeWorldConfig, Bool.cond_eq_ite, bne_iff_ne]
  generalize (BitReader.ofBytes data).readU8 = event
  generalize event.2.readU32 = entity
  generalize entity.2.readU32 = tick
  generalize tick.2.readVarint = region
  generalize region.2.readU32 = worldSize
  generalize worldSize.2.readVarint = tickRate
  generalize tickRate.2.readString = shardId
  split <;> simp

theorem eval_credential (token : Bytes) :
    (credential.eval (BitReader.ofBytes token)).1 = decodeCredential token := by
  simp only [credential, eval_bind, eval_u8, eval_u64, eval_string, eval_cond, eval_overflowed,
    eval_pure]
  simp only [decodeCredential, Bool.cond_eq_ite, Bool.or_eq_true, List.isEmpty_iff,
    decide_eq_true_eq, beq_iff_eq, or_assoc]
  split <;> rfl

end Erasure

section Bounds
variable {size : Nat} (hsize : size < 2 ^ 28)
include hsize

theorem within_baselineTick (full : Bool) :
    Within (Inside size) (· < size) (bif full then pure 0 else u32) fun _ => True :=
  within_cond (fun _ => within_pure trivial) fun _ => within_u32 hsize

theorem within_peekSnapshotHeader :
    Within (Inside size) (· < size) peekSnapshotHeader fun _ => True :=
  (within_u32 hsize).andThen fun _ => (within_bool hsize).andThen fun full =>
    (within_baselineTick hsize full).andThen fun _ =>
      within_overflowed.andThen fun _ => within_pure trivial

theorem within_entityId (previous : Nat) :
    Within (Inside size) (· < size) (entityId previous) fun _ => True :=
  (within_varint hsize).andThen fun _ => within_pure trivial

theorem within_removedIds (count previousId : Nat) :
    Within (Inside size) (· < size) (removedIds count previousId) fun _ => True := by
  induction count generalizing previousId with
  | zero => exact within_pure trivial
  | succ count ih =>
    exact (within_entityId hsize previousId).andThen fun id =>
      (ih id).andThen fun _ => within_pure trivial

theorem within_newRecord (state : EntityWireState) :
    Within (Inside size) (· < size) (newRecord state) fun _ => True :=
  (within_u16 hsize).andThen fun _ => (within_u16 hsize).andThen fun _ =>
    (within_bits hsize (by decide)).andThen fun _ => (within_bits hsize (by decide)).andThen fun _ =>
      (within_bits hsize (by decide)).andThen fun _ => within_pure trivial

theorem within_position (state : EntityWireState) :
    Within (Inside size) (· < size) (position state) fun _ => True := by
  refine (within_bool hsize).andThen fun small => within_cond (fun _ => ?_) fun _ => ?_
  · exact (within_ranged hsize (by decide)).andThen fun _ =>
      (within_ranged hsize (by decide)).andThen fun _ => within_pure trivial
  · exact (within_u16 hsize).andThen fun _ => (within_u16 hsize).andThen fun _ =>
      within_pure trivial

theorem within_change (state : EntityWireState) :
    Within (Inside size) (· < size) (change state) fun _ => True := by
  refine (within_bool hsize).andThen fun positionChanged => ?_
  have hmoved : Within (Inside size) (· < size)
      (bif positionChanged then position state else pure state) fun _ => True :=
    within_cond (fun _ => within_position hsize state) fun _ => within_pure trivial
  refine hmoved.andThen fun state => (within_bool hsize).andThen fun velocityChanged =>
    within_cond (fun _ => ?_) fun _ => within_pure trivial
  exact (within_bits hsize (by decide)).andThen fun _ =>
    (within_bits hsize (by decide)).andThen fun _ => within_pure trivial

theorem within_record (last : Nat × List EntityWireState) :
    Within (Inside size) (· < size) (record last) fun _ => True := by
  refine (within_entityId hsize last.1).andThen fun id => (within_bool hsize).andThen
    fun isNew => within_overflowed.andThen fun _ => within_cond (fun _ => within_pure trivial)
    fun _ => within_cond (fun _ => within_pure trivial) fun _ => ?_
  have hstate : ∀ state, Within (Inside size) (· < size)
      (bif isNew then newRecord state else change state) fun _ => True := fun state =>
    within_cond (fun _ => within_newRecord hsize state) fun _ => within_change hsize state
  exact (hstate _).andThen fun _ => within_overflowed.andThen fun _ => within_pure trivial

/-- However many records are announced, reading them stays inside. -/
theorem within_records (count : Nat) (states : List EntityWireState) :
    Within (Inside size) (· < size) (records count states) fun _ => True :=
  (within_rounds (fun _ => True)
    (fun last _ => (within_record hsize last).weaken fun _ _ _ _ => trivial) count trivial).andThen
    fun _ => within_pure trivial

theorem within_body (baseStates : List EntityWireState) :
    Within (Inside size) (· < size) (body baseStates) fun _ => True :=
  (within_varint hsize).andThen fun count => within_overflowed.andThen fun _ =>
    within_cond (fun _ => within_pure trivial) fun _ =>
      (within_removedIds hsize count 0).andThen fun _ => within_overflowed.andThen fun _ =>
        within_cond (fun _ => within_pure trivial) fun _ =>
          (within_u16 hsize).andThen fun count => within_overflowed.andThen fun _ =>
            within_cond (fun _ => within_pure trivial) fun _ =>
              (within_records hsize count _).andThen fun _ => within_pure trivial

theorem within_snapshot (baseline : Option SnapshotFrame) :
    Within (Inside size) (· < size) (snapshot baseline) fun _ => True := by
  unfold snapshot
  refine (within_u32 hsize).andThen fun tick => (within_bool hsize).andThen fun full => ?_
  refine Within.andThen (within_baselineTick hsize full) fun baselineTick => ?_
  refine (within_u32 hsize).andThen fun sequence => (within_varint hsize).andThen fun viewer => ?_
  refine within_overflowed.andThen fun failed => ?_
  refine within_cond (fun _ => within_pure trivial) fun _ => ?_
  refine within_cond (fun _ => within_pure trivial) fun _ => ?_
  exact (within_body hsize _).andThen fun _ => within_pure trivial

theorem within_inputs {A : Type} (axis : AxisQuantizer A) (count : Nat) :
    Within (Inside size) (· < size) (inputs axis count) fun _ => True := by
  induction count with
  | zero => exact within_pure trivial
  | succ count ih =>
    exact (within_u32 hsize).andThen fun _ => (within_bits hsize (by decide)).andThen fun _ =>
      (within_bits hsize (by decide)).andThen fun _ => (within_bool hsize).andThen fun _ =>
        ih.andThen fun _ => within_pure trivial

theorem within_inputPacket {A : Type} (axis : AxisQuantizer A) :
    Within (Inside size) (· < size) (inputPacket axis) fun _ => True :=
  (within_u8 hsize).andThen fun _ => within_cond (fun _ => within_pure trivial) fun _ =>
    (within_u32 hsize).andThen fun _ => (within_u32 hsize).andThen fun _ =>
      (within_ranged hsize (by decide)).andThen fun count => within_overflowed.andThen fun _ =>
        within_cond (fun _ => within_pure trivial) fun _ =>
          (within_inputs hsize axis count.toNat).andThen fun _ =>
            within_overflowed.andThen fun _ => within_pure trivial

theorem within_migrateRedirect :
    Within (Inside size) (· < size) migrateRedirect fun _ => True :=
  (within_u8 hsize).andThen fun _ => within_cond (fun _ => within_pure trivial) fun _ =>
    (within_u64 hsize).andThen fun _ => (within_varint hsize).andThen fun _ =>
      (within_string hsize).andThen fun _ => (within_string hsize).andThen fun _ =>
        within_overflowed.andThen fun _ => within_pure trivial

theorem within_worldConfig : Within (Inside size) (· < size) worldConfig fun _ => True :=
  (within_u8 hsize).andThen fun _ => within_cond (fun _ => within_pure trivial) fun _ =>
    (within_u32 hsize).andThen fun _ => (within_u32 hsize).andThen fun _ =>
      (within_varint hsize).andThen fun _ => (within_u32 hsize).andThen fun _ =>
        (within_varint hsize).andThen fun _ => (within_string hsize).andThen fun _ =>
          within_overflowed.andThen fun _ => within_pure trivial

theorem within_credential : Within (Inside size) (· < size) credential fun _ => True :=
  (within_u8 hsize).andThen fun _ => within_cond (fun _ => within_pure trivial) fun _ =>
    (within_u64 hsize).andThen fun _ => (within_string hsize).andThen fun _ =>
      within_overflowed.andThen fun _ => within_pure trivial

end Bounds
end Morton.Proto.Scan
