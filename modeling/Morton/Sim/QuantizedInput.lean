import Morton.Proto.InputDecoder
import Morton.Sim.ClientView
import Morton.Sim.World

/-! A command is quantized by the client, by the packet, by the shard and by the world. All
of them after the first leave its axes as they are. -/
namespace Morton.Proto

/-- What the two sides of a quantizer rely on. -/
structure Quantizer.Agrees (q : Quantizer) : Prop where
  encode_decode : ∀ quantized < 2 ^ q.bits, q.encode (q.decode quantized) = quantized
  range : ∀ value, q.encode value < 2 ^ q.bits
  monotone : Monotone q.encode
  near : ∀ value,
    |q.snap value - clampf value q.min q.max| ≤ (q.max - q.min) / (2 ^ q.bits - 1) / 2
  idempotent : ∀ value, q.snap (q.snap value) = q.snap value

theorem Quantizer.agrees {q : Quantizer} (hrange : q.min < q.max) (hlow : 1 ≤ q.bits)
    (hhigh : q.bits ≤ 31) : q.Agrees := by
  have hlevels := q.levels_of_bits hhigh
  have hpos := q.levels_pos hlow hhigh
  have hsteps : (q.levels : ℚ) = 2 ^ q.bits - 1 := by
    rw [hlevels, Nat.cast_sub (Nat.one_le_two_pow)]
    push_cast
    rfl
  constructor
  case encode_decode =>
    intro quantized hquantized
    exact q.encode_decode hrange (by omega) hpos
  case range => exact q.encode_lt hrange hhigh
  case monotone => exact q.encode_mono hrange
  case near =>
    intro value
    have := q.snap_near hrange hpos value
    rwa [hsteps] at this
  case idempotent => exact q.snap_snap hrange hpos

theorem inputAxisQuantizer_range : inputAxisQuantizer.min < inputAxisQuantizer.max := by
  norm_num [inputAxisQuantizer]

/-- On the axes, clamping and snapping is encoding and decoding. -/
theorem quantizeInput_eq (axes : ℚ × ℚ) :
    quantizeInput axes = AxisQuantizer.exact.decode (AxisQuantizer.exact.encode axes) := by
  have hclamp := Quantizer.snap_clampf inputAxisQuantizer_range
  exact Prod.ext (hclamp axes.1) (hclamp axes.2)

theorem quantizeInput_quantizeInput (axes : ℚ × ℚ) :
    quantizeInput (quantizeInput axes) = quantizeInput axes := by
  have hcodes := AxisQuantizer.exact.encode_lt axes
  rw [quantizeInput_eq (quantizeInput axes), quantizeInput_eq axes,
    exact_inverse _ hcodes.1 hcodes.2]

end Morton.Proto

namespace Morton.Sim
open Proto

/-- A quantized command comes out of the packet as it went in, but for its tick. -/
theorem conveyed_quantized {input : MoveInput (ℚ × ℚ)} {axes : ℚ × ℚ}
    (h : input.axes = quantizeInput axes) : conveyed .exact input = { input with tick := 0 } := by
  have haxes : AxisQuantizer.exact.decode (AxisQuantizer.exact.encode input.axes) = input.axes := by
    rw [← quantizeInput_eq, h, quantizeInput_quantizeInput]
  rw [conveyed, haxes]

/-- The queue of a player takes a quantized command as it is. -/
theorem receive_quantized (slot : PlayerSlot (ℚ × ℚ)) {input : MoveInput (ℚ × ℚ)} {axes : ℚ × ℚ}
    (h : input.axes = quantizeInput axes) :
    slot.receive quantizeInput { input with axes := quantizeInput input.axes } =
      if input.sequence ≤ slot.highestReceivedSequence ∧ slot.highestReceivedSequence ≠ 0 then
        { slot with droppedStaleInputs := slot.droppedStaleInputs + 1 }
      else
        { slot with
          highestReceivedSequence := input.sequence
          pending := (if slot.pending.length ≥ kMaxQueuedInputs then slot.pending.tail
            else slot.pending) ++ [input] } := by
  have hquantized : quantizeInput input.axes = input.axes := by
    rw [h, quantizeInput_quantizeInput]
  rw [PlayerSlot.receive, hquantized, hquantized]

section
variable {q : Quantizer} (hrange : q.min < q.max) (hlow : 1 ≤ q.bits) (hhigh : q.bits ≤ 31)
  {S : Type} (physics : Physics S (ℚ × ℚ)) (v : ClientView S (ℚ × ℚ)) (axes : ℚ × ℚ)
  (sprint : Bool) (clientTick : Nat)
include hrange hlow hhigh

/-- The command that the client integrates, with quantized axes, is the one that arrives and
the one the shard queues unless it is stale; only its tick is lost on the way. -/
theorem quantised_commands_agree {packet : InputPacket (ℚ × ℚ)}
    (hsequences : ∀ input ∈ packet.inputs, input.sequence < 2 ^ 32) {i : Nat}
    (hi : i < kMaxInputsPerPacket)
    (hpacket : packet.inputs[i]? =
      some (v.pushInput { physics with quantizeInput } axes sprint clientTick).1)
    {capacity : Nat} (hsent : encodeInputPacket .exact packet capacity ≠ []) :
    let pushed := v.pushInput { physics with quantizeInput } axes sprint clientTick
    q.Agrees ∧ pushed.1.axes = quantizeInput axes ∧
      pushed.2.predicted = physics.stepMovement v.predicted pushed.1 ∧
      ∃ arrived, decodeInputPacket .exact (encodeInputPacket .exact packet capacity) =
          some arrived ∧ ∃ input, arrived.inputs[i]? = some input ∧
        input = { pushed.1 with tick := 0 } ∧ ∀ slot : PlayerSlot (ℚ × ℚ),
          slot.receive quantizeInput { input with axes := quantizeInput input.axes } =
            if input.sequence ≤ slot.highestReceivedSequence ∧
                slot.highestReceivedSequence ≠ 0 then
              { slot with droppedStaleInputs := slot.droppedStaleInputs + 1 }
            else
              { slot with
                highestReceivedSequence := input.sequence
                pending := (if slot.pending.length ≥ kMaxQueuedInputs then slot.pending.tail
                  else slot.pending) ++ [input] } := by
  intro pushed
  have haxes : pushed.1.axes = quantizeInput axes := rfl
  refine ⟨Quantizer.agrees hrange hlow hhigh, haxes, rfl, ?_⟩
  rw [encodeInputPacket_take] at hsent ⊢
  have hdecode := decodeInputPacket_encode AxisQuantizer.exact (List.length_take_le _ _)
    (fun input hinput => hsequences input (List.mem_of_mem_take hinput)) hsent
  have hget : ((packet.inputs.take kMaxInputsPerPacket).map (conveyed .exact))[i]? =
      some (conveyed .exact pushed.1) := by
    rw [List.getElem?_map, List.getElem?_take_of_lt hi, hpacket]
    rfl
  have harrived := conveyed_quantized haxes
  refine ⟨_, hdecode, conveyed .exact pushed.1, hget, harrived, fun slot => ?_⟩
  rw [harrived]
  exact receive_quantized slot haxes

end

/-- Players go where the axes say, with exact arithmetic. -/
def Physics.analog : Physics (ℚ × ℚ) (ℚ × ℚ) :=
  { stepMovement := fun s input => (s.1 + input.axes.1, s.2 + input.axes.2)
    quantizeInput := id, decode := fun _ => (0, 0), initial := (0, 0), centered := (0, 0) }

/-- A stick at three sevenths, and far beyond its range on the other axis, pushed twice. -/
def tiltedOnce : ClientView (ℚ × ℚ) (ℚ × ℚ) :=
  ((ClientView.configure Physics.analog {}).pushInput
    { Physics.analog with quantizeInput } (3 / 7, -5) true 9).2

def tilted : MoveInput (ℚ × ℚ) × ClientView (ℚ × ℚ) (ℚ × ℚ) :=
  tiltedOnce.pushInput { Physics.analog with quantizeInput } (3 / 7, -5) false 10

def tiltedPacket : InputPacket (ℚ × ℚ) := { inputs := tiltedOnce.inputHistory ++ [tilted.1] }

/-- The shard has the first of the two commands. -/
def waiting : PlayerSlot (ℚ × ℚ) where
  entity := 1
  client := 7
  lastApplied := { axes := (0, 0) }
  highestReceivedSequence := 1
  pending := tiltedOnce.inputHistory

/-- The second command is rounded to a 255th, predicted so, and queued so behind the first. -/
theorem quantised_commands_agree_tilted :
    tilted.1.axes = (109 / 255, -1) ∧ tilted.2.predicted = (218 / 255, -2) ∧
      ∃ arrived input,
        decodeInputPacket .exact (encodeInputPacket .exact tiltedPacket 1200) = some arrived ∧
        arrived.inputs[1]? = some input ∧
        (waiting.receive quantizeInput { input with axes := quantizeInput input.axes }).pending =
          waiting.pending ++ [{ tilted.1 with tick := 0 }] := by
  have hsequences : ∀ input ∈ tiltedPacket.inputs, input.sequence < 2 ^ 32 := by decide +kernel
  have hpacket : tiltedPacket.inputs[1]? = some tilted.1 := by decide +kernel
  have hsent : encodeInputPacket .exact tiltedPacket 1200 ≠ [] := by decide +kernel
  obtain ⟨-, -, hpredicted, arrived, hdecode, input, hget, hinput, hqueued⟩ :=
    quantised_commands_agree inputAxisQuantizer_range (by decide) (by decide) Physics.analog
      tiltedOnce (3 / 7, -5) false 10 hsequences (by decide) hpacket hsent
  refine ⟨by decide +kernel, ?_, arrived, input, hdecode, hget, ?_⟩
  · exact hpredicted.trans (by decide +kernel)
  · rw [hqueued, hinput]
    decide +kernel

end Morton.Sim
