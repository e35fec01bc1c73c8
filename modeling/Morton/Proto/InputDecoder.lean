import Morton.Proto.BitStreamRoom
import Morton.Proto.InputCodec
import Morton.Proto.Quantizer

/-! Which input packets the decoder accepts. The count of commands has a field of five bits,
so it can say more than the encoder ever writes. -/
namespace Morton.Proto
open Bits Sim

/-- What the decoder reads as the count: the low five bits of the tenth byte. -/
def commandCount (data : Bytes) : Nat := (data.getD 9 0).toNat % 32

section
variable {A : Type} (axis : AxisQuantizer A)

/-- A command as it stands in a packet. -/
structure Wired (input : MoveInput A) : Prop where
  sequence : input.sequence < 2 ^ 32
  tick : input.tick = 0
  axes : ∃ codes : Nat × Nat, codes.1 < 2 ^ kAxisBits ∧ codes.2 < 2 ^ kAxisBits ∧
    input.axes = axis.decode codes

theorem readInputs_wired (count : Nat) (r : BitReader) :
    (readInputs axis count r).1.length = count ∧
      ∀ input ∈ (readInputs axis count r).1, Wired axis input := by
  induction count generalizing r with
  | zero => exact ⟨rfl, fun _ h => by cases h⟩
  | succ count ih =>
    simp only [readInputs]
    obtain ⟨hlength, hwired⟩ := ih ((((r.readU32.2).readBits kAxisBits).2.readBits
      kAxisBits).2.readBool).2
    refine ⟨by rw [List.length_cons, hlength], fun input hinput => ?_⟩
    cases hinput with
    | head =>
      exact ⟨BitReader.readBits_lt r 32, rfl, _, BitReader.readBits_lt _ _,
        BitReader.readBits_lt _ _, rfl⟩
    | tail _ htail => exact hwired input htail

/-- What an accepted packet holds. -/
structure Accepted (data : Bytes) (packet : InputPacket A) : Prop where
  clientTick : packet.clientTick < 2 ^ 32
  ackedSnapshotTick : packet.ackedSnapshotTick < 2 ^ 32
  count : packet.inputs.length = commandCount data
  wired : ∀ input ∈ packet.inputs, Wired axis input

/-- The count is read from where the three fields before it end. -/
theorem readRanged_count {data : Bytes} {r : BitReader}
    (hr : r = (((BitReader.ofBytes data).readU8.2).readU32.2).readU32.2)
    (hclean : (r.readRanged 0 kMaxInputsPerPacket).2.overflow = false) :
    (r.readRanged 0 kMaxInputsPerPacket).1 = commandCount data := by
  have hwidth : BitWriter.bitsRequired 0 kMaxInputsPerPacket = 5 := by decide
  obtain ⟨hclean₃, hcount⟩ := BitReader.readBits_of_clean (r := r)
    (BitWriter.bitsRequired 0 kMaxInputsPerPacket) hclean
  rw [hr] at hclean₃
  obtain ⟨hclean₂, hthird⟩ := BitReader.readBits_of_clean 32 hclean₃
  obtain ⟨hclean₁, hsecond⟩ := BitReader.readBits_of_clean 32 hclean₂
  obtain ⟨-, hfirst⟩ := BitReader.readBits_of_clean 8 hclean₁
  have hplace : r = (((BitReader.ofBytes data).advance 8).advance 32).advance 32 := by
    rw [hr]
    simp only [BitReader.readU32, BitReader.readU8] at hthird hsecond hfirst ⊢
    rw [hthird, hsecond, hfirst]
  have hbyte : ofBits (slice r.buffer r.bitPos 5) = commandCount data := by
    rw [hplace]
    simp only [BitReader.advance, BitReader.ofBytes, BitReader.new]
    rw [slice_in_byte _ _ 5 (by decide), ofBits_toBits]
    rfl
  have hsmall : commandCount data < 2 ^ 31 := by
    have := Nat.mod_lt (data.getD 9 0).toNat (show 0 < 32 by decide)
    unfold commandCount
    omega
  rw [BitReader.readRanged, hcount, hwidth, hbyte]
  simp only [BitReader.toI32, hsmall, if_true, Int.add_zero]

theorem accepted_of_decode {data : Bytes} {packet : InputPacket A}
    (h : decodeInputPacket axis data = some packet) : Accepted axis data packet := by
  unfold decodeInputPacket at h
  dsimp only at h
  split at h
  · cases h
  · split at h
    · cases h
    · rename_i hclean
      rw [not_or] at hclean
      have hcount := readRanged_count rfl (by simpa using hclean.1)
      split at h
      · cases h
      · cases h
        obtain ⟨hlength, hwired⟩ := readInputs_wired axis
          (((((BitReader.ofBytes data).readU8.2).readU32.2).readU32.2).readRanged 0
            kMaxInputsPerPacket).1.toNat
          (((((BitReader.ofBytes data).readU8.2).readU32.2).readU32.2).readRanged 0
            kMaxInputsPerPacket).2
        refine ⟨BitReader.readBits_lt _ 32, BitReader.readBits_lt _ 32, ?_, hwired⟩
        rw [hlength, hcount, Int.toNat_natCast]

/-- The encoder undoes the decoder on every pair of codes. -/
def AxisQuantizer.Inverse : Prop :=
  ∀ codes : Nat × Nat, codes.1 < 2 ^ kAxisBits → codes.2 < 2 ^ kAxisBits →
    axis.encode (axis.decode codes) = codes

theorem conveyed_of_wired (haxis : axis.Inverse) {input : MoveInput A} (h : Wired axis input) :
    conveyed axis input = input := by
  obtain ⟨-, htick, codes, hx, hy, haxes⟩ := h
  cases input with
  | mk sequence tick axes sprint =>
    dsimp only at htick haxes
    rw [conveyed, haxes, haxis codes hx hy, htick]

theorem writeInput_takes (input : MoveInput A) :
    BitWriter.Takes (fun w => writeInput axis w input) (inputBits axis input) :=
  (BitWriter.writeU32_takes _).comp <|
  (BitWriter.writeBits_takes _ _ (by decide)).comp <|
  (BitWriter.writeBits_takes _ _ (by decide)).comp <|
  BitWriter.writeBool_takes _

theorem inputBits_length (inputs : List (MoveInput A)) :
    (inputs.flatMap (inputBits axis)).length = 49 * inputs.length := by
  induction inputs with
  | nil => rfl
  | cons input inputs ih =>
    simp only [List.flatMap_cons, List.length_append, ih, inputBits, toBits_length, kAxisBits,
      List.length_cons, List.length_nil]
    omega

/-- The commands past the sixteenth are not looked at. -/
theorem encodeInputPacket_take (packet : InputPacket A) (capacity : Nat) :
    encodeInputPacket axis packet capacity =
      encodeInputPacket axis
        { packet with inputs := packet.inputs.take kMaxInputsPerPacket } capacity := by
  have hcount : min (packet.inputs.take kMaxInputsPerPacket).length kMaxInputsPerPacket =
      min packet.inputs.length kMaxInputsPerPacket := by
    rw [List.length_take]
    omega
  have htake : (packet.inputs.take kMaxInputsPerPacket).take
      (min packet.inputs.length kMaxInputsPerPacket) =
      packet.inputs.take (min packet.inputs.length kMaxInputsPerPacket) := by
    rw [List.take_take]
    congr 1
    omega
  simp only [encodeInputPacket, hcount, htake]

/-- Sixteen commands fit in 108 bytes. -/
theorem encodeInputPacket_ne_nil {packet : InputPacket A} {capacity : Nat}
    (hroom : 108 ≤ capacity) (hcapacity : capacity < 2 ^ 28) :
    encodeInputPacket axis packet capacity ≠ [] := by
  rw [encodeInputPacket_take]
  generalize hinputs : packet.inputs.take kMaxInputsPerPacket = inputs
  have hcount : inputs.length ≤ kMaxInputsPerPacket := by
    rw [← hinputs]
    exact List.length_take_le _ _
  have hranged := BitWriter.writeRanged_takes
    (Int.natCast_nonneg inputs.length) (Int.ofNat_le.mpr hcount) (by decide) (by decide)
  have htakes := (BitWriter.writeU8_takes kInputChannel).comp <|
    (BitWriter.writeU32_takes packet.clientTick).comp <|
    (BitWriter.writeU32_takes packet.ackedSnapshotTick).comp <| hranged.comp <|
    BitWriter.Takes.foldl (writeInput_takes axis) inputs
  have hwidth : BitWriter.bitsRequired 0 kMaxInputsPerPacket = 5 := by decide
  have hfits : (toBits 8 kInputChannel ++ (toBits 32 packet.clientTick ++
      (toBits 32 packet.ackedSnapshotTick ++ (toBits (BitWriter.bitsRequired 0 kMaxInputsPerPacket)
        ((inputs.length : Int) - 0).toNat ++ inputs.flatMap (inputBits axis))))).length ≤
      8 * capacity := by
    unfold kMaxInputsPerPacket at hcount
    simp only [List.length_append, toBits_length, hwidth, inputBits_length]
    omega
  have hclean := htakes.clean_new (fun _ => 0) hcapacity hfits
  have hcap := BitWriter.new_capacity (fun _ => 0) hcapacity
  have hstart : (BitWriter.new (fun _ => 0) capacity).bitPos = 0 := rfl
  obtain ⟨hwf, -, -, hpos⟩ := htakes.position (BitWriter.new_wf (fun _ => 0) capacity) rfl
    (by omega)
  simp only [List.length_append, toBits_length] at hpos
  unfold encodeInputPacket
  simp only [Nat.min_eq_left hcount, List.take_length]
  rw [hclean, if_neg (by decide)]
  apply BitWriter.bytes_ne_nil hwf
  omega

/-- What encoding a packet that was accepted and decoding it again makes of it. -/
theorem decodeInputPacket_reencode (haxis : axis.Inverse) {data : Bytes} {packet : InputPacket A}
    (h : Accepted axis data packet) {capacity : Nat}
    (hfits : encodeInputPacket axis packet capacity ≠ []) :
    decodeInputPacket axis (encodeInputPacket axis packet capacity) =
      some { packet with inputs := packet.inputs.take kMaxInputsPerPacket } := by
  have hkept : ∀ input ∈ packet.inputs.take kMaxInputsPerPacket, Wired axis input :=
    fun input hinput => h.wired input (List.mem_of_mem_take hinput)
  have hsame : (packet.inputs.take kMaxInputsPerPacket).map (conveyed axis) =
      packet.inputs.take kMaxInputsPerPacket := by
    conv_rhs => rw [← List.map_id (packet.inputs.take kMaxInputsPerPacket)]
    apply List.map_congr_left
    intro input hinput
    exact conveyed_of_wired axis haxis (hkept input hinput)
  rw [encodeInputPacket_take] at hfits ⊢
  rw [decodeInputPacket_encode axis (List.length_take_le _ _)
    (fun input hinput => (hkept input hinput).sequence) hfits]
  simp only [hsame, Nat.mod_eq_of_lt h.clientTick, Nat.mod_eq_of_lt h.ackedSnapshotTick]

/-- A packet the decoder accepted is one the encoder writes exactly when its count field says
at most sixteen. -/
theorem reencodes_iff (haxis : axis.Inverse) {data : Bytes} {packet : InputPacket A}
    (h : decodeInputPacket axis data = some packet) :
    (∀ capacity, 108 ≤ capacity → capacity < 2 ^ 28 →
      decodeInputPacket axis (encodeInputPacket axis packet capacity) = some packet) ↔
      commandCount data ≤ kMaxInputsPerPacket := by
  have haccepted := accepted_of_decode axis h
  have hagain : ∀ capacity, 108 ≤ capacity → capacity < 2 ^ 28 →
      decodeInputPacket axis (encodeInputPacket axis packet capacity) =
        some { packet with inputs := packet.inputs.take kMaxInputsPerPacket } := by
    intro capacity hroom hcapacity
    exact decodeInputPacket_reencode axis haxis haccepted
      (encodeInputPacket_ne_nil axis hroom hcapacity)
  rw [← haccepted.count]
  constructor
  · intro hcanonical
    have hsame := (hagain 108 le_rfl (by decide)).symm.trans (hcanonical 108 le_rfl (by decide))
    have hinputs := congrArg InputPacket.inputs (Option.some.inj hsame)
    rw [← hinputs]
    exact List.length_take_le _ _
  · intro hcount capacity hroom hcapacity
    rw [hagain capacity hroom hcapacity, List.take_of_length_le hcount]

end

theorem exact_inverse : AxisQuantizer.exact.Inverse := by
  intro codes hx hy
  have hrange : inputAxisQuantizer.min < inputAxisQuantizer.max := by
    norm_num [inputAxisQuantizer]
  have hlevels := inputAxisQuantizer_levels
  unfold kAxisBits at hx hy
  have hfirst := Quantizer.encode_decode hrange
    (show codes.1 ≤ inputAxisQuantizer.levels by omega) (by omega)
  have hsecond := Quantizer.encode_decode hrange
    (show codes.2 ≤ inputAxisQuantizer.levels by omega) (by omega)
  exact Prod.ext hfirst hsecond

/-- A ranged read stays in its range exactly when the field holds an offset of the range. -/
theorem readRanged_mem_iff {r : BitReader} {min max : Int}
    (hclean : (r.readRanged min max).2.overflow = false) :
    (min ≤ (r.readRanged min max).1 ∧ (r.readRanged min max).1 ≤ max) ↔
      (ofBits (slice r.buffer r.bitPos (BitWriter.bitsRequired min max)) : Int) ≤ max - min ∧
        ofBits (slice r.buffer r.bitPos (BitWriter.bitsRequired min max)) < 2 ^ 31 := by
  obtain ⟨-, hread⟩ := BitReader.readBits_of_clean (r := r)
    (BitWriter.bitsRequired min max) hclean
  have hlt := BitReader.readBits_lt r (BitWriter.bitsRequired min max)
  have hwidth : 2 ^ BitWriter.bitsRequired min max ≤ 2 ^ 32 :=
    Nat.pow_le_pow_right (by decide) (BitWriter.bitsRequired_le min max)
  rw [hread] at hlt
  rw [BitReader.readRanged, hread]
  generalize ofBits (slice r.buffer r.bitPos (BitWriter.bitsRequired min max)) = field at *
  dsimp only at hlt ⊢
  unfold BitReader.toI32
  split <;> omega

/-- The decoder accepts only what the encoder can write, exactly up to the values that the
fields of its ranges have beyond the range. -/
theorem input_decoder_canonical {data : Bytes} {packet : InputPacket (ℚ × ℚ)}
    (h : decodeInputPacket .exact data = some packet) {r : BitReader} {min max : Int}
    (hclean : (r.readRanged min max).2.overflow = false) :
    ((packet.inputs.length ≤ kMaxInputsPerPacket ↔ commandCount data ≤ kMaxInputsPerPacket) ∧
      ((∀ capacity, 108 ≤ capacity → capacity < 2 ^ 28 →
        decodeInputPacket .exact (encodeInputPacket .exact packet capacity) = some packet) ↔
        commandCount data ≤ kMaxInputsPerPacket)) ∧
    ((min ≤ (r.readRanged min max).1 ∧ (r.readRanged min max).1 ≤ max) ↔
      (ofBits (slice r.buffer r.bitPos (BitWriter.bitsRequired min max)) : Int) ≤ max - min ∧
        ofBits (slice r.buffer r.bitPos (BitWriter.bitsRequired min max)) < 2 ^ 31) := by
  refine ⟨⟨?_, reencodes_iff _ exact_inverse h⟩, readRanged_mem_iff hclean⟩
  rw [(accepted_of_decode _ h).count]

/-- Two commands, the first of them a sprint. -/
def running : InputPacket (ℚ × ℚ) where
  clientTick := 70
  ackedSnapshotTick := 64
  inputs := [{ sequence := 41, axes := (29 / 51, -29 / 51), sprint := true },
    { sequence := 42, axes := (1, -1) }]

/-- The packet as the encoder writes it, but for the spare bit and a byte behind it. -/
def runningBytes : Bytes :=
  [1, 70, 0, 0, 0, 64, 0, 0, 0, 34, 5, 0, 0, 0, 249, 166, 10, 0, 0, 192, 63, 128, 255]

/-- Its commands come back, and a position delta at its upper end is in range. -/
theorem input_decoder_canonical_running :
    decodeInputPacket .exact runningBytes = some running ∧
      encodeInputPacket .exact running 108 ≠ runningBytes ∧
      decodeInputPacket .exact (encodeInputPacket .exact running 108) = some running ∧
      ((BitReader.ofBytes [15]).readRanged (-7) 8).1 ≤ 8 := by
  have hrunning : decodeInputPacket .exact runningBytes = some running := by decide +kernel
  have hdelta : ((BitReader.ofBytes [15]).readRanged (-7) 8).2.overflow = false := by
    decide +kernel
  have hboth := input_decoder_canonical hrunning hdelta
  exact ⟨hrunning, by decide +kernel, hboth.1.2.mpr (by decide) 108 (by decide) (by decide),
    (hboth.2.mpr (by decide +kernel)).2⟩

/-- A packet whose count field says seventeen. -/
def crowded : Bytes := 1 :: (List.replicate 8 0 ++ 17 :: List.replicate 105 0)

theorem crowded_accepted :
    (∃ packet, decodeInputPacket .exact crowded = some packet ∧ packet.inputs.length = 17 ∧
      ¬ ∀ capacity, 108 ≤ capacity → capacity < 2 ^ 28 →
        decodeInputPacket .exact (encodeInputPacket .exact packet capacity) = some packet) ∧
    ((BitReader.ofBytes [17]).readRanged 0 16).1 = 17 ∧
      ((BitReader.ofBytes [17]).readRanged 0 16).2.overflow = false := by
  have haccepted : (decodeInputPacket .exact crowded).isSome = true := by decide +kernel
  obtain ⟨packet, hpacket⟩ := Option.isSome_iff_exists.mp haccepted
  have hcount : commandCount crowded = 17 := by decide
  refine ⟨⟨packet, hpacket, ?_, ?_⟩, by decide +kernel, by decide +kernel⟩
  · rw [(accepted_of_decode _ hpacket).count, hcount]
  · rw [reencodes_iff _ exact_inverse hpacket, hcount]
    decide

end Morton.Proto
