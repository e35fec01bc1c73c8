import Morton.Proto.Fields
import Morton.Proto.Messages

/-! Input packets come back from the wire: commands keep their sequence and their sprint
flag, axes are quantized, and the client's tick of a command is lost. -/
namespace Morton.Proto
open Bits Sim
variable {A : Type} (axis : AxisQuantizer A)

/-- A command as the other side reads it. -/
def conveyed (input : MoveInput A) : MoveInput A :=
  { sequence := input.sequence
    axes := axis.decode (axis.encode input.axes)
    sprint := input.sprint }

def inputBits (input : MoveInput A) : List Bool :=
  toBits 32 input.sequence ++ (toBits kAxisBits (axis.encode input.axes).1 ++
    (toBits kAxisBits (axis.encode input.axes).2 ++ [input.sprint]))

theorem writeInput_emits (input : MoveInput A) :
    BitWriter.Emits (fun w => writeInput axis w input) (inputBits axis input) :=
  (BitWriter.writeU32_emits _).comp <|
  (BitWriter.writeBits_emits _ _ (by decide)).comp <|
  (BitWriter.writeBits_emits _ _ (by decide)).comp <|
  BitWriter.writeBool_emits _

theorem readInputs_ahead {inputs : List (MoveInput A)} {r : BitReader} {rest : List Bool}
    (h : r.Ahead (inputs.flatMap (inputBits axis) ++ rest))
    (hrange : ∀ input ∈ inputs, input.sequence < 2 ^ 32) :
    ∃ r', readInputs axis inputs.length r = (inputs.map (conveyed axis), r') ∧ r'.Ahead rest := by
  induction inputs generalizing r with
  | nil => exact ⟨r, rfl, h⟩
  | cons input inputs ih =>
    simp only [List.flatMap_cons, inputBits, List.append_assoc] at h
    obtain ⟨r₁, e₁, h, -⟩ := h.readU32 (hrange input List.mem_cons_self)
    obtain ⟨r₂, e₂, h, -⟩ := h.readBits (axis.encode_lt input.axes).1
    obtain ⟨r₃, e₃, h, -⟩ := h.readBits (axis.encode_lt input.axes).2
    obtain ⟨r₄, e₄, h, -⟩ := h.readBool
    obtain ⟨r₅, e₅, h⟩ := ih h fun other hother => hrange other (List.mem_cons_of_mem _ hother)
    refine ⟨r₅, ?_, h⟩
    simp only [List.length_cons, readInputs, e₁, e₂, e₃, e₄, e₅, List.map_cons, conveyed]

theorem inputsBits_length (inputs : List (MoveInput A)) :
    (inputs.flatMap (inputBits axis)).length = 49 * inputs.length := by
  induction inputs with
  | nil => rfl
  | cons input inputs ih =>
    rw [List.flatMap_cons, List.length_append, ih, List.length_cons]
    simp only [inputBits, List.length_append, toBits_length, List.length_singleton, kAxisBits]
    omega

/-- A packet of at most sixteen commands that fits comes back, its ticks as `u32`. -/
theorem decodeInputPacket_encode {packet : InputPacket A} {capacity : Nat}
    (hcount : packet.inputs.length ≤ kMaxInputsPerPacket)
    (hrange : ∀ input ∈ packet.inputs, input.sequence < 2 ^ 32)
    (hfits : encodeInputPacket axis packet capacity ≠ []) :
    decodeInputPacket axis (encodeInputPacket axis packet capacity) =
      some
        { clientTick := packet.clientTick % 2 ^ 32
          ackedSnapshotTick := packet.ackedSnapshotTick % 2 ^ 32
          inputs := packet.inputs.map (conveyed axis) } := by
  have hranged := BitWriter.writeRanged_emits
    (Int.natCast_nonneg packet.inputs.length) (Int.ofNat_le.mpr hcount) (by decide) (by decide)
  rw [Int.sub_zero, Int.toNat_natCast] at hranged
  have hemits := (BitWriter.writeU8_emits kInputChannel).comp <|
    (BitWriter.writeU32_emits packet.clientTick).comp <|
    (BitWriter.writeU32_emits packet.ackedSnapshotTick).comp <| hranged.comp <|
    BitWriter.Emits.foldl (writeInput_emits axis) packet.inputs
  -- sixteen commands are far from the end of a `u32` position, whatever the capacity is
  have hshort := inputsBits_length axis packet.inputs
  have hwidth : BitWriter.bitsRequired 0 kMaxInputsPerPacket = 5 := by decide
  have hmost : kMaxInputsPerPacket = 16 := rfl
  have hzero : (BitWriter.new (fun _ => 0) capacity).bitPos = 0 := rfl
  have hlong : (toBits 8 kInputChannel ++ (toBits 32 packet.clientTick ++
      (toBits 32 packet.ackedSnapshotTick ++
        (toBits (BitWriter.bitsRequired 0 kMaxInputsPerPacket) packet.inputs.length ++
          packet.inputs.flatMap (inputBits axis))))).length = 77 + 49 * packet.inputs.length := by
    simp only [List.length_append, toBits_length, hshort, hwidth]
    omega
  obtain ⟨hwf, -, hpos, hcontent⟩ := hemits _ (BitWriter.new_wf (fun _ => 0) capacity)
    (Or.inl (by rw [hlong, hzero]; omega))
  unfold encodeInputPacket at hfits ⊢
  simp only [Nat.min_eq_left hcount, List.take_length] at hfits ⊢
  split at hfits
  · exact absurd rfl hfits
  · rename_i hclean
    rw [if_neg hclean]
    obtain ⟨-, hcontent⟩ := hcontent (by simpa using hclean)
    obtain ⟨pad, hbits, hlength⟩ := hwf.bytes_bits
    rw [hlong, hzero] at hpos
    have hempty : (BitWriter.new (fun _ => 0) capacity).content = [] := by
      simp [BitWriter.content, BitWriter.new, toBits]
    rw [hcontent, hempty, List.nil_append, ← toBits_mod 32 packet.clientTick,
      ← toBits_mod 32 packet.ackedSnapshotTick] at hbits
    obtain ⟨r₁, e₁, h₁, -⟩ := (BitReader.ofBytes_ahead hbits (by omega)).readU8 (by decide)
    obtain ⟨r₂, e₂, h₂, -⟩ := h₁.readU32 (Nat.mod_lt _ (by decide))
    obtain ⟨r₃, e₃, h₃, -⟩ := h₂.readU32 (Nat.mod_lt _ (by decide))
    have hoffset := BitWriter.offset_lt_bitsRequired
      (Int.natCast_nonneg packet.inputs.length) (Int.ofNat_le.mpr hcount) (by decide)
    have hvalue : toBits (BitWriter.bitsRequired 0 kMaxInputsPerPacket) packet.inputs.length =
        toBits (BitWriter.bitsRequired 0 kMaxInputsPerPacket)
          ((packet.inputs.length : Int) - 0).toNat := by
      rw [Int.sub_zero, Int.toNat_natCast]
    rw [hvalue] at h₃
    obtain ⟨r₄, e₄, h₄, -⟩ := h₃.readRanged (Int.natCast_nonneg packet.inputs.length) hoffset
      (by unfold kMaxInputsPerPacket at hcount; omega)
    rw [← List.append_nil (List.flatMap _ _)] at h₄
    obtain ⟨r₅, e₅, h₅⟩ := readInputs_ahead axis h₄ hrange
    have hnonneg : ¬ ((packet.inputs.length : Int) < 0) := by omega
    simp only [decodeInputPacket, e₁, e₂, e₃, e₄, Int.toNat_natCast, e₅, h₄.clean, h₅.clean, hnonneg,
      ne_eq, not_true, Bool.false_eq_true, if_false, or_self]

end Morton.Proto
