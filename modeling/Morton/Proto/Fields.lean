import Morton.Proto.BitStreamSpec

/-! Sequences of typed fields. Every write leaves the memory past the capacity
alone, and what a sequence of writes appended is what the matching sequence of
reads returns, also when `bytes_written()` is called in between. -/
namespace Morton.Proto
open Bits

namespace BitWriter

/-- A step that keeps the writer well formed and writes no index past the capacity.
The writer never looks at its memory, so a stray store would show in some memory. -/
def Contained (f : BitWriter → BitWriter) : Prop :=
  ∀ w : BitWriter, w.WF → w.capacityBits + 32 < 2 ^ 32 →
    (f w).WF ∧ (f w).capacityBits = w.capacityBits ∧
      ∀ i, w.capacityBits ≤ 8 * i → (f w).buffer i = w.buffer i

theorem contained_id : Contained id := fun _ hw _ => ⟨hw, rfl, fun _ _ => rfl⟩

theorem Contained.comp {f g : BitWriter → BitWriter} (hf : Contained f) (hg : Contained g) :
    Contained (fun w => g (f w)) := by
  intro w hw hcap
  obtain ⟨hw₁, hc₁, hb₁⟩ := hf w hw hcap
  obtain ⟨hw₂, hc₂, hb₂⟩ := hg (f w) hw₁ (by omega)
  refine ⟨hw₂, hc₂.trans hc₁, fun i hi => ?_⟩
  rw [hb₂ i (by omega), hb₁ i hi]

theorem Contained.foldl {α : Type*} {f : BitWriter → α → BitWriter}
    (h : ∀ a, Contained (fun w => f w a)) (xs : List α) :
    Contained (fun w => xs.foldl f w) := by
  induction xs with
  | nil => exact contained_id
  | cons x xs ih => exact (h x).comp ih

/-- What is written into a fresh buffer fits it. -/
theorem Contained.bytes_length {f : BitWriter → BitWriter} (hf : Contained f)
    (memory : Nat → UInt8) {capacity : Nat} (hcap : capacity < 2 ^ 28) :
    (f (new memory capacity)).bytes.length ≤ capacity := by
  have hbits := new_capacity memory hcap
  obtain ⟨hwf, hsame, -⟩ := hf _ (new_wf memory capacity) (by omega)
  obtain ⟨-, -, hsize⟩ := hwf.bytes_bits
  have hfits := hwf.fits
  omega

/-- The flush loop stores whole pending bytes only. -/
theorem flushPending_buffer (fuel : Nat) (w : BitWriter) (i : Nat)
    (hi : 8 * w.flushedBytes + w.pendingBits ≤ 8 * i) :
    (flushPending fuel w).buffer i = w.buffer i := by
  induction fuel generalizing w with
  | zero => rfl
  | succ fuel ih =>
    rw [flushPending]
    split
    next h8 =>
      rw [ih _ (by dsimp only; omega)]
      have hne : i ≠ w.flushedBytes := by omega
      simp [store, hne]
    next => rfl

theorem contained_writeBits (value bits : Nat) (hbits : bits ≤ 32) :
    Contained (fun w => w.writeBits value bits) := by
  intro w hw hcap
  obtain ⟨hwf, hc, -, -⟩ := writeBits_emits value bits hbits w hw (Or.inr hcap)
  refine ⟨hwf, hc, fun i hi => ?_⟩
  have hfits := hw.fits
  have hpos := hw.position
  have hwrap : (w.bitPos + bits) % 2 ^ 32 = w.bitPos + bits := Nat.mod_eq_of_lt (by omega)
  simp only [writeBits, hwrap]
  split
  · rfl
  · split
    · rfl
    · rw [flushPending_buffer _ _ _ (by dsimp only; omega)]

theorem contained_writeVarint (value : Nat) : Contained (fun w => w.writeVarint value) := by
  suffices h : ∀ fuel value, Contained (fun w => writeVarintLoop fuel w value) from h 4 value
  intro fuel
  induction fuel with
  | zero => exact fun value => contained_writeBits _ 8 (by omega)
  | succ fuel ih =>
    intro value
    by_cases h : 128 ≤ value
    · simp only [writeVarintLoop, h, if_true]
      exact (contained_writeBits _ 8 (by omega)).comp (ih _)
    · simp only [writeVarintLoop, h, if_false]
      exact contained_writeBits _ 8 (by omega)

theorem contained_writeU8s (data : List UInt8) :
    Contained (fun w => data.foldl (fun w b => w.writeU8 b.toNat) w) :=
  Contained.foldl (f := fun w (b : UInt8) => w.writeU8 b.toNat)
    (fun b => contained_writeBits b.toNat 8 (by omega)) data

theorem contained_writeBytes (data : List UInt8) : Contained (fun w => w.writeBytes data) := by
  intro w hw hcap
  have hpos := hw.position
  by_cases h0 : w.pendingBits = 0
  · obtain ⟨hwf, hc, -, -⟩ := writeBytes_aligned hw (by omega) data
    refine ⟨hwf, hc, fun i hi => ?_⟩
    simp only [writeBytes, h0, ne_eq, not_true, if_false]
    split
    · rfl
    · have hout : ¬ i < w.flushedBytes + data.length := by omega
      simp [copyBytes, hout]
  · have h := contained_writeU8s data w hw hcap
    simpa [writeBytes, h0] using h

theorem contained_align : Contained align := by
  intro w hw hcap
  unfold align
  dsimp only
  split
  next => exact contained_writeBits 0 (8 - w.bitPos % 8) (by omega) w hw hcap
  next => exact ⟨hw, rfl, fun _ _ => rfl⟩

/-- The trailing byte lies within the capacity whenever there is one. -/
theorem contained_bytesWritten : Contained (fun w => w.bytesWritten.2) := by
  intro w hw hcap
  have hpos := hw.position
  have hfits := hw.fits
  unfold bytesWritten
  dsimp only
  split
  next h =>
    refine ⟨⟨hw.pending, hw.accumulator, hw.position, hw.fits, hw.capacity⟩, rfl, fun i hi => ?_⟩
    have hne : i ≠ w.flushedBytes := by omega
    simp [store, hne]
  next => exact ⟨hw, rfl, fun _ _ => rfl⟩

@[simp] theorem bytesWritten_overflow (w : BitWriter) :
    w.bytesWritten.2.overflow = w.overflow := by
  unfold bytesWritten
  split <;> rfl

@[simp] theorem bytesWritten_bitPos (w : BitWriter) : w.bytesWritten.2.bitPos = w.bitPos := by
  unfold bytesWritten
  split <;> rfl

/-- The trailing byte is stored beyond the completed ones. -/
@[simp] theorem bytesWritten_content (w : BitWriter) : w.bytesWritten.2.content = w.content := by
  unfold bytesWritten
  split
  next =>
    simp only [content]
    congr 2
    refine List.map_congr_left fun i hi => ?_
    have hne : i ≠ w.flushedBytes := Nat.ne_of_lt (List.mem_range.mp hi)
    simp [store, hne]
  next => rfl

theorem bitLength_le (fuel range : Nat) : bitLength fuel range ≤ fuel := by
  induction fuel generalizing range with
  | zero => simp [bitLength]
  | succ fuel ih =>
    rw [bitLength]
    have := ih (range / 2)
    split <;> omega

theorem lt_two_pow_bitLength {fuel range : Nat} (h : range < 2 ^ fuel) :
    range < 2 ^ bitLength fuel range := by
  induction fuel generalizing range with
  | zero => simpa [bitLength] using h
  | succ fuel ih =>
    rw [bitLength]
    split
    next hpos =>
      have hsmall : range / 2 < 2 ^ fuel := by
        rw [Nat.pow_succ] at h
        omega
      have hhalf := ih hsmall
      rw [Nat.pow_succ]
      omega
    next hpos => omega

theorem bitsRequired_le (min max : Int) : bitsRequired min max ≤ 32 := by
  have := bitLength_le 32 ((max - min) % 2 ^ 32).toNat
  unfold bitsRequired
  dsimp only
  split <;> omega

/-- Every offset within the range fits the width chosen for it. -/
theorem offset_lt_bitsRequired {value min max : Int} (hmin : min ≤ value) (hmax : value ≤ max)
    (hrange : max - min < 2 ^ 32) : (value - min).toNat < 2 ^ bitsRequired min max := by
  have hlt : ((max - min) % 2 ^ 32).toNat < 2 ^ 32 := by omega
  have hlen := lt_two_pow_bitLength hlt
  have hrem : ((max - min) % 2 ^ 32).toNat = (max - min).toNat := by
    rw [Int.emod_eq_of_lt (by omega) hrange]
  unfold bitsRequired
  rw [hrem] at hlen ⊢
  dsimp only
  split
  next h0 =>
    rw [h0] at hlen
    omega
  next => omega

end BitWriter

/-- A typed write, with a value that fits its field. -/
inductive Field
  | bits (width : Nat) (value : BitVec width) (hwidth : 1 ≤ width ∧ width ≤ 32)
  | bool (value : Bool)
  | u8 (value : UInt8)
  | u16 (value : UInt16)
  | u32 (value : UInt32)
  | u64 (value : UInt64)
  | ranged (value min max : Int) (hrange : min ≤ value ∧ value ≤ max ∧ max - min < 2 ^ 31)
  | varint (value : UInt32)
  | string (value : List UInt8) (hlength : value.length ≤ 1023)
  | bytes (data : List UInt8)
  | align

/-- What the reader has to know of a field. -/
inductive Shape
  | bits (width : Nat)
  | bool
  | u8
  | u16
  | u32
  | u64
  | ranged (min max : Int)
  | varint
  | string
  | bytes (count : Nat)
  | align

/-- What a read returns. -/
inductive Value
  | number (value : Nat)
  | integer (value : Int)
  | flag (value : Bool)
  | text (value : List UInt8)
  | nothing
  deriving DecidableEq

namespace Field

def shape : Field → Shape
  | bits width _ _ => .bits width
  | bool _ => .bool
  | u8 _ => .u8
  | u16 _ => .u16
  | u32 _ => .u32
  | u64 _ => .u64
  | ranged _ min max _ => .ranged min max
  | varint _ => .varint
  | string _ _ => .string
  | bytes data => .bytes data.length
  | align => .align

def value : Field → Value
  | bits _ value _ => .number value.toNat
  | bool value => .flag value
  | u8 value => .number value.toNat
  | u16 value => .number value.toNat
  | u32 value => .number value.toNat
  | u64 value => .number value.toNat
  | ranged value _ _ _ => .integer value
  | varint value => .number value.toNat
  | string value _ => .text value
  | bytes data => .text data
  | align => .nothing

def write (w : BitWriter) : Field → BitWriter
  | bits width value _ => w.writeBits value.toNat width
  | bool value => w.writeBool value
  | u8 value => w.writeU8 value.toNat
  | u16 value => w.writeU16 value.toNat
  | u32 value => w.writeU32 value.toNat
  | u64 value => w.writeU64 value.toNat
  | ranged value min max _ => w.writeRanged value min max
  | varint value => w.writeVarint value.toNat
  | string value _ => w.writeString value
  | bytes data => w.writeBytes data
  | align => w.align

end Field

def Shape.read (r : BitReader) : Shape → Value × BitReader
  | .bits width => (r.readBits width).map .number id
  | .bool => r.readBool.map .flag id
  | .u8 => r.readU8.map .number id
  | .u16 => r.readU16.map .number id
  | .u32 => r.readU32.map .number id
  | .u64 => r.readU64.map .number id
  | .ranged min max => (r.readRanged min max).map .integer id
  | .varint => r.readVarint.map .number id
  | .string => r.readString.map .text id
  | .bytes count => (r.readBytes count).map .text id
  | .align => (.nothing, r.align)

/-- The reads of a sequence of shapes, one after the other. -/
def readAll : BitReader → List Shape → List Value × BitReader
  | r, [] => ([], r)
  | r, shape :: shapes =>
    let (value, r) := shape.read r
    let (values, r) := readAll r shapes
    (value :: values, r)

/-- A call on the writer: a field, or a look at the length so far. -/
inductive Call
  | write (field : Field)
  | bytesWritten

namespace Call

def apply (w : BitWriter) : Call → BitWriter
  | write field => field.write w
  | bytesWritten => w.bytesWritten.2

def field? : Call → Option Field
  | write field => some field
  | bytesWritten => none

end Call

def writeAll (w : BitWriter) (calls : List Call) : BitWriter := calls.foldl Call.apply w

theorem Field.contained (field : Field) : BitWriter.Contained (fun w => field.write w) := by
  cases field with
  | bits width value hwidth => exact BitWriter.contained_writeBits _ width hwidth.2
  | bool value => exact BitWriter.contained_writeBits _ 1 (by omega)
  | u8 value => exact BitWriter.contained_writeBits _ 8 (by omega)
  | u16 value => exact BitWriter.contained_writeBits _ 16 (by omega)
  | u32 value => exact BitWriter.contained_writeBits _ 32 (by omega)
  | u64 value =>
    exact (BitWriter.contained_writeBits _ 32 (by omega)).comp
      (BitWriter.contained_writeBits _ 32 (by omega))
  | ranged value min max hrange =>
    exact BitWriter.contained_writeBits _ _ (BitWriter.bitsRequired_le min max)
  | varint value => exact BitWriter.contained_writeVarint _
  | string value hlength =>
    exact (BitWriter.contained_writeVarint _).comp (BitWriter.contained_writeU8s _)
  | bytes data => exact BitWriter.contained_writeBytes data
  | align => exact BitWriter.contained_align

theorem Call.contained (call : Call) : BitWriter.Contained (fun w => call.apply w) := by
  cases call with
  | write field => exact field.contained
  | bytesWritten => exact BitWriter.contained_bytesWritten

theorem writeAll_contained (calls : List Call) :
    BitWriter.Contained (fun w => writeAll w calls) :=
  BitWriter.Contained.foldl (f := Call.apply) Call.contained calls

theorem readAll_append (r : BitReader) (xs ys : List Shape) :
    readAll r (xs ++ ys) =
      ((readAll r xs).1 ++ (readAll (readAll r xs).2 ys).1, (readAll (readAll r xs).2 ys).2) := by
  induction xs generalizing r with
  | nil => rfl
  | cons x xs ih => simp only [List.cons_append, readAll, ih]

/-- What a step from `w` to `w'` appended reads back as `values`, from the position it was
written at to the position it ended at. -/
def Conveyed (w w' : BitWriter) (shapes : List Shape) (values : List Value) : Prop :=
  ∃ bits, w'.content = w.content ++ bits ∧
    ∀ (r : BitReader) (rest : List Bool), r.Ahead (bits ++ rest) → r.bitPos = w.bitPos →
      ∃ r', readAll r shapes = (values, r') ∧ r'.Ahead rest ∧ r'.bitPos = w'.bitPos

theorem Conveyed.append {w₁ w₂ w₃ : BitWriter} {xs ys : List Shape} {us vs : List Value}
    (h₁ : Conveyed w₁ w₂ xs us) (h₂ : Conveyed w₂ w₃ ys vs) :
    Conveyed w₁ w₃ (xs ++ ys) (us ++ vs) := by
  obtain ⟨bits₁, hcontent₁, hread₁⟩ := h₁
  obtain ⟨bits₂, hcontent₂, hread₂⟩ := h₂
  refine ⟨bits₁ ++ bits₂, by rw [hcontent₂, hcontent₁, List.append_assoc], ?_⟩
  intro r rest hahead hpos
  rw [List.append_assoc] at hahead
  obtain ⟨r₁, e₁, ahead₁, pos₁⟩ := hread₁ r _ hahead hpos
  obtain ⟨r₂, e₂, ahead₂, pos₂⟩ := hread₂ r₁ rest ahead₁ pos₁
  exact ⟨r₂, by rw [readAll_append, e₁, e₂], ahead₂, pos₂⟩

/-- A field is conveyed when its writer emits bits that its reader consumes. -/
theorem Field.conveyed_of_emits (field : Field) {bits : List Bool}
    (hemits : BitWriter.Emits (fun w => field.write w) bits)
    (hread : ∀ (r : BitReader) (rest : List Bool), r.Ahead (bits ++ rest) →
      ∃ r', field.shape.read r = (field.value, r') ∧ r'.Ahead rest ∧
        r'.bitPos = r.bitPos + bits.length)
    {w : BitWriter} (hw : w.WF) (hcap : w.capacityBits + 32 < 2 ^ 32)
    (hclean : (field.write w).overflow = false) :
    w.overflow = false ∧ Conveyed w (field.write w) [field.shape] [field.value] := by
  obtain ⟨hwf, -, -, hcontent⟩ := hemits w hw (Or.inr hcap)
  obtain ⟨hbefore, happend⟩ := hcontent hclean
  refine ⟨hbefore, bits, happend, fun r rest hahead hpos => ?_⟩
  obtain ⟨r', hvalue, hrest, hpos'⟩ := hread r rest hahead
  have hlength := congrArg List.length happend
  rw [List.length_append, hwf.content_length, hw.content_length] at hlength
  exact ⟨r', by simp only [readAll, hvalue], hrest, by rw [hpos', hpos, hlength]⟩

/-- Both sides pad from the same position. -/
theorem Field.conveyed_align {w : BitWriter} (hw : w.WF) (hcap : w.capacityBits + 32 < 2 ^ 32)
    (hclean : w.align.overflow = false) :
    w.overflow = false ∧ Conveyed w w.align [.align] [.nothing] := by
  unfold BitWriter.align at hclean ⊢
  dsimp only at hclean ⊢
  split at hclean
  next hrem =>
    rw [if_pos hrem]
    obtain ⟨hwf, -, -, hcontent⟩ :=
      BitWriter.writeBits_emits 0 (8 - w.bitPos % 8) (by omega) w hw (Or.inr hcap)
    obtain ⟨hbefore, happend⟩ := hcontent hclean
    refine ⟨hbefore, _, happend, fun r rest hahead hpos => ?_⟩
    obtain ⟨r', hvalue, hrest, hpos'⟩ := hahead.readBits (Nat.two_pow_pos _)
    have hlength := congrArg List.length happend
    rw [List.length_append, hwf.content_length, hw.content_length, toBits_length] at hlength
    refine ⟨r', ?_, hrest, by rw [hpos', hpos, hlength]⟩
    simp only [readAll, Shape.read, BitReader.align, hpos, if_pos hrem, hvalue]
  next hrem =>
    rw [if_neg hrem]
    refine ⟨hclean, [], (List.append_nil _).symm, fun r rest hahead hpos => ?_⟩
    refine ⟨r, ?_, hahead, hpos⟩
    simp only [readAll, Shape.read, BitReader.align, hpos, if_neg hrem]

/-- Every field comes back, one case per type. -/
theorem Field.conveyed (field : Field) {w : BitWriter} (hw : w.WF)
    (hcap : w.capacityBits + 32 < 2 ^ 32) (hclean : (field.write w).overflow = false) :
    w.overflow = false ∧ Conveyed w (field.write w) [field.shape] [field.value] := by
  cases field with
  | bits width value hwidth =>
    refine conveyed_of_emits (.bits width value hwidth)
      (BitWriter.writeBits_emits _ width hwidth.2) ?_ hw hcap hclean
    intro r rest hahead
    obtain ⟨r', hread, hrest, hpos⟩ := hahead.readBits value.isLt
    exact ⟨r', by simp only [shape, Shape.read, hread, Field.value]; rfl, hrest,
      by rw [hpos, toBits_length]⟩
  | bool value =>
    refine conveyed_of_emits (.bool value) (BitWriter.writeBool_emits value) ?_ hw hcap hclean
    intro r rest hahead
    obtain ⟨r', hread, hrest, hpos⟩ := hahead.readBool
    exact ⟨r', by simp only [shape, Shape.read, hread, Field.value]; rfl, hrest, hpos⟩
  | u8 value =>
    refine conveyed_of_emits (.u8 value) (BitWriter.writeU8_emits _) ?_ hw hcap hclean
    intro r rest hahead
    obtain ⟨r', hread, hrest, hpos⟩ := hahead.readU8 value.toNat_lt
    exact ⟨r', by simp only [shape, Shape.read, hread, Field.value]; rfl, hrest,
      by rw [hpos, toBits_length]⟩
  | u16 value =>
    refine conveyed_of_emits (.u16 value) (BitWriter.writeU16_emits _) ?_ hw hcap hclean
    intro r rest hahead
    obtain ⟨r', hread, hrest, hpos⟩ := hahead.readU16 value.toNat_lt
    exact ⟨r', by simp only [shape, Shape.read, hread, Field.value]; rfl, hrest,
      by rw [hpos, toBits_length]⟩
  | u32 value =>
    refine conveyed_of_emits (.u32 value) (BitWriter.writeU32_emits _) ?_ hw hcap hclean
    intro r rest hahead
    obtain ⟨r', hread, hrest, hpos⟩ := hahead.readU32 value.toNat_lt
    exact ⟨r', by simp only [shape, Shape.read, hread, Field.value]; rfl, hrest,
      by rw [hpos, toBits_length]⟩
  | u64 value =>
    refine conveyed_of_emits (.u64 value) (BitWriter.writeU64_emits _) ?_ hw hcap hclean
    intro r rest hahead
    obtain ⟨r', hread, hrest, hpos⟩ := hahead.readU64 value.toNat_lt
    exact ⟨r', by simp only [shape, Shape.read, hread, Field.value]; rfl, hrest,
      by rw [hpos, toBits_length]⟩
  | ranged value min max hrange =>
    obtain ⟨hmin, hmax, hwide⟩ := hrange
    have hemits := BitWriter.writeRanged_emits hmin hmax (by omega)
      (BitWriter.bitsRequired_le min max)
    refine conveyed_of_emits (.ranged value min max ⟨hmin, hmax, hwide⟩) hemits ?_ hw hcap hclean
    intro r rest hahead
    obtain ⟨r', hread, hrest, hpos⟩ :=
      hahead.readRanged hmin (BitWriter.offset_lt_bitsRequired hmin hmax (by omega)) (by omega)
    exact ⟨r', by simp only [shape, Shape.read, hread, Field.value]; rfl, hrest,
      by rw [hpos, toBits_length]⟩
  | varint value =>
    refine conveyed_of_emits (.varint value) (BitWriter.writeVarint_emits _) ?_ hw hcap hclean
    intro r rest hahead
    obtain ⟨r', hread, hrest, hpos⟩ := hahead.readVarint value.toNat_lt
    exact ⟨r', by simp only [shape, Shape.read, hread, Field.value]; rfl, hrest, hpos⟩
  | string value hlength =>
    refine conveyed_of_emits (.string value hlength)
      (BitWriter.writeString_emits value) ?_ hw hcap hclean
    intro r rest hahead
    obtain ⟨r', hread, hrest, hpos⟩ := hahead.readString hlength
    exact ⟨r', by simp only [shape, Shape.read, hread, Field.value]; rfl, hrest, hpos⟩
  | bytes data =>
    refine conveyed_of_emits (.bytes data) (BitWriter.writeBytes_emits data) ?_ hw hcap hclean
    intro r rest hahead
    obtain ⟨r', hread, hrest, hpos⟩ := hahead.readBytes
    exact ⟨r', by simp only [shape, Shape.read, hread, Field.value]; rfl, hrest,
      by rw [hpos, bytesBits_length]⟩
  | align => exact conveyed_align hw hcap hclean

theorem Call.conveyed (call : Call) {w : BitWriter} (hw : w.WF)
    (hcap : w.capacityBits + 32 < 2 ^ 32) (hclean : (call.apply w).overflow = false) :
    w.overflow = false ∧ Conveyed w (call.apply w) (call.field?.toList.map Field.shape)
      (call.field?.toList.map Field.value) := by
  cases call with
  | write field => exact field.conveyed hw hcap hclean
  | bytesWritten =>
    simp only [Call.apply, BitWriter.bytesWritten_overflow] at hclean ⊢
    refine ⟨hclean, [], ?_, fun r rest hahead hpos => ?_⟩
    · rw [BitWriter.bytesWritten_content, List.append_nil]
    · exact ⟨r, rfl, hahead, by rw [BitWriter.bytesWritten_bitPos, hpos]⟩

/-- Induction over the calls: each appends to what the earlier ones conveyed. -/
theorem writeAll_conveyed (calls : List Call) {w : BitWriter} (hw : w.WF)
    (hcap : w.capacityBits + 32 < 2 ^ 32) (hclean : (writeAll w calls).overflow = false) :
    w.overflow = false ∧ Conveyed w (writeAll w calls)
      ((calls.filterMap Call.field?).map Field.shape)
      ((calls.filterMap Call.field?).map Field.value) := by
  induction calls generalizing w with
  | nil =>
    exact ⟨hclean, [], (List.append_nil _).symm, fun r _ hahead hpos => ⟨r, rfl, hahead, hpos⟩⟩
  | cons call calls ih =>
    obtain ⟨hwf, hsame, -⟩ := call.contained w hw hcap
    obtain ⟨hclean', htail⟩ := ih hwf (by rw [hsame]; exact hcap) hclean
    obtain ⟨hbefore, hhead⟩ := call.conveyed hw hcap hclean'
    refine ⟨hbefore, ?_⟩
    have h := hhead.append htail
    rw [← List.map_append, ← List.map_append] at h
    cases call <;> exact h

/-- Whatever is written into a buffer below 256 MiB stays in the buffer, and unless it
overflowed the bytes it finished with read back to the same values and position. -/
theorem bit_stream_round_trip (memory : Nat → UInt8) (capacity : Nat) (hcap : capacity < 2 ^ 28)
    (calls : List Call) :
    (∀ i, capacity ≤ i → (writeAll (.new memory capacity) calls).buffer i = memory i) ∧
    ((writeAll (.new memory capacity) calls).overflow = false →
      ∃ r, readAll (.ofBytes (writeAll (.new memory capacity) calls).bytes)
          ((calls.filterMap Call.field?).map Field.shape) =
          ((calls.filterMap Call.field?).map Field.value, r) ∧
        r.overflow = false ∧ r.bitPos = (writeAll (.new memory capacity) calls).bitPos) := by
  have hnew := BitWriter.new_wf memory capacity
  have hbits := BitWriter.new_capacity memory hcap
  have hroom : (BitWriter.new memory capacity).capacityBits + 32 < 2 ^ 32 := by omega
  obtain ⟨hwf, hsame, hbuffer⟩ := writeAll_contained calls _ hnew hroom
  refine ⟨fun i hi => hbuffer i (by omega), fun hclean => ?_⟩
  obtain ⟨-, bits, hcontent, hread⟩ := writeAll_conveyed calls hnew hroom hclean
  obtain ⟨pad, hbytes, hsize⟩ := hwf.bytes_bits
  have hfits := hwf.fits
  have hempty : (BitWriter.new memory capacity).content = [] := by
    simp [BitWriter.content, BitWriter.new, toBits]
  dsimp only at hbytes hsize hfits hsame
  rw [hcontent, hempty, List.nil_append] at hbytes
  have hahead : (BitReader.ofBytes (writeAll (.new memory capacity) calls).bytes).Ahead
      (bits ++ []) := by
    rw [List.append_nil]
    exact BitReader.ofBytes_ahead hbytes (by omega)
  obtain ⟨r, hvalues, hend, hpos⟩ := hread _ [] hahead rfl
  exact ⟨r, hvalues, hend.clean, hpos⟩

/-- Unaligned bytes, a length taken in mid byte, and an aligned tail. -/
def mixedCalls : List Call :=
  [.write (.bits 3 5 (by decide)), .bytesWritten, .write (.bytes [255, 1]), .write (.bool true),
   .write (.ranged (-3) (-5) 90 (by decide)), .write (.varint 300), .bytesWritten,
   .write .align, .write (.string [104, 105] (by decide)), .write (.u64 0x123456789abcdef0)]

theorem mixedCalls_round_trip :
    ∃ r, readAll (.ofBytes (writeAll (.new (fun _ => 7) 32) mixedCalls).bytes)
        [.bits 3, .bytes 2, .bool, .ranged (-5) 90, .varint, .align, .string, .u64] =
        ([.number 5, .text [255, 1], .flag true, .integer (-3), .number 300, .nothing,
          .text [104, 105], .number 0x123456789abcdef0], r) ∧
      r.overflow = false ∧ r.bitPos = (writeAll (.new (fun _ => 7) 32) mixedCalls).bitPos :=
  (bit_stream_round_trip (fun _ => 7) 32 (by decide) mixedCalls).2 (by decide +kernel)

end Morton.Proto
