import Morton.Proto.BitStreamSpec

/-! When a writer overflows: a clean writer takes a step exactly when the bits of the
step fit in what is left of the buffer. -/
namespace Morton.Proto.BitWriter
open Bits

/-- An encoder step that a clean writer with room for its bits takes. -/
def Takes (f : BitWriter → BitWriter) (bits : List Bool) : Prop :=
  Emits f bits ∧ ∀ w : BitWriter, w.WF → w.overflow = false →
    w.bitPos + bits.length ≤ w.capacityBits → (f w).overflow = false

theorem Emits.bitPos {f : BitWriter → BitWriter} {bits : List Bool} (hf : Emits f bits)
    {w : BitWriter} (hw : w.WF) (hroom : w.Room bits.length) (hclean : (f w).overflow = false) :
    (f w).bitPos = w.bitPos + bits.length := by
  obtain ⟨hwf, -, -, hcontent⟩ := hf w hw hroom
  rw [← hwf.content_length, (hcontent hclean).2, List.length_append, hw.content_length]

theorem WF.room {w : BitWriter} (hw : w.WF) {n : Nat} (h : w.bitPos + n ≤ w.capacityBits) :
    w.Room n := by
  have := hw.capacity
  exact Or.inl (by omega)

theorem takes_id : Takes id [] := ⟨emits_id, fun _ _ h _ => h⟩

theorem Takes.comp {f g : BitWriter → BitWriter} {xs ys : List Bool} (hf : Takes f xs)
    (hg : Takes g ys) : Takes (fun w => g (f w)) (xs ++ ys) := by
  refine ⟨hf.1.comp hg.1, fun w hw hclean hroom => ?_⟩
  rw [List.length_append] at hroom
  have hfirst : w.bitPos + xs.length ≤ w.capacityBits := by omega
  have hclean₁ := hf.2 w hw hclean hfirst
  obtain ⟨hw₁, hcap, -, -⟩ := hf.1 w hw (hw.room hfirst)
  have hpos := hf.1.bitPos hw (hw.room hfirst) hclean₁
  exact hg.2 (f w) hw₁ hclean₁ (by omega)

theorem Takes.foldl {α : Type*} {f : BitWriter → α → BitWriter} {bits : α → List Bool}
    (h : ∀ a, Takes (fun w => f w a) (bits a)) (xs : List α) :
    Takes (fun w => xs.foldl f w) (xs.flatMap bits) := by
  induction xs with
  | nil => exact takes_id
  | cons x xs ih => exact (h x).comp ih

theorem writeBits_takes (value bits : Nat) (hbits : bits ≤ 32) :
    Takes (fun w => w.writeBits value bits) (toBits bits value) := by
  refine ⟨writeBits_emits value bits hbits, fun w hw hclean hroom => ?_⟩
  rw [toBits_length] at hroom
  have hcap := hw.capacity
  have hwrap : (w.bitPos + bits) % 2 ^ 32 = w.bitPos + bits := Nat.mod_eq_of_lt (by omega)
  dsimp only
  rw [writeBits, hwrap, if_neg (Nat.not_lt.mpr hroom)]
  split
  · exact hclean
  · rw [flushPending_overflow]
    exact hclean

theorem writeU8_takes (value : Nat) : Takes (fun w => w.writeU8 value) (toBits 8 value) :=
  writeBits_takes value 8 (by omega)

theorem writeU16_takes (value : Nat) : Takes (fun w => w.writeU16 value) (toBits 16 value) :=
  writeBits_takes value 16 (by omega)

theorem writeU32_takes (value : Nat) : Takes (fun w => w.writeU32 value) (toBits 32 value) :=
  writeBits_takes value 32 (by omega)

theorem writeU64_takes (value : Nat) : Takes (fun w => w.writeU64 value) (toBits 64 value) := by
  have h := (writeBits_takes (value % 2 ^ 32) 32 (by omega)).comp
    (writeBits_takes (value / 2 ^ 32) 32 (by omega))
  rwa [toBits_mod, ← toBits_add] at h

theorem writeBool_takes (value : Bool) : Takes (fun w => w.writeBool value) [value] := by
  have h := writeBits_takes (if value then 1 else 0) 1 (by omega)
  cases value <;> exact h

theorem writeVarintLoop_takes (fuel value : Nat) :
    Takes (fun w => writeVarintLoop fuel w value) (varintBits fuel value) := by
  induction fuel generalizing value with
  | zero => exact writeBits_takes _ 8 (by omega)
  | succ fuel ih =>
    by_cases h : 128 ≤ value
    · simp only [writeVarintLoop, varintBits, h, if_true]
      exact (writeBits_takes _ 8 (by omega)).comp (ih _)
    · simp only [writeVarintLoop, varintBits, h, if_false]
      exact writeBits_takes _ 8 (by omega)

theorem writeVarint_takes (value : Nat) :
    Takes (fun w => w.writeVarint value) (varintBits 4 value) :=
  writeVarintLoop_takes 4 value

theorem writeRanged_takes {value min max : Int} (hmin : min ≤ value) (hmax : value ≤ max)
    (hrange : max - min < 2 ^ 32) (hbits : bitsRequired min max ≤ 32) :
    Takes (fun w => w.writeRanged value min max)
      (toBits (bitsRequired min max) (value - min).toNat) := by
  have h := writeBits_takes (value - min).toNat (bitsRequired min max) hbits
  simpa only [writeRanged, if_neg (Int.not_lt.mpr hmin), if_neg (Int.not_lt.mpr hmax),
    Int.emod_eq_of_lt (show 0 ≤ value - min by omega) (show value - min < 2 ^ 32 by omega)] using h

theorem writeString_takes (value : List UInt8) :
    Takes (fun w => w.writeString value) (stringBits value) := by
  have hlen : (if 1023 < value.length then 1023 else value.length) = (value.take 1023).length := by
    rw [List.length_take]
    split <;> omega
  have htake : value.take (value.take 1023).length = value.take 1023 := by
    rw [List.length_take, ← List.take_eq_take_min]
  simp only [writeString, hlen, htake]
  exact (writeVarint_takes _).comp
    (Takes.foldl (f := fun w (b : UInt8) => w.writeU8 b.toNat) (fun b => writeU8_takes b.toNat) _)

/-- The bytes of a varint. -/
def varintBytes (value : Nat) : Nat :=
  if value < 2 ^ 7 then 1
  else if value < 2 ^ 14 then 2
  else if value < 2 ^ 21 then 3
  else if value < 2 ^ 28 then 4
  else 5

theorem varintBits_length (value : Nat) : (varintBits 4 value).length = 8 * varintBytes value := by
  have hgroup : ∀ low rest, (toBits 8 low ++ rest).length = 8 + rest.length := by simp
  simp only [varintBits, varintBytes]
  split_ifs <;> simp only [hgroup, toBits_length] <;> omega

def stringBytes (value : List UInt8) : Nat := varintBytes value.length + value.length

theorem stringBits_length {value : List UInt8} (h : value.length ≤ 1023) :
    (stringBits value).length = 8 * stringBytes value := by
  rw [stringBits, List.take_of_length_le h, List.length_append, bytesBits_length,
    varintBits_length, stringBytes, Nat.mul_add]

theorem writeBytes_takes (data : List UInt8) :
    Takes (fun w => w.writeBytes data) (bytesBits data) := by
  refine ⟨writeBytes_emits data, fun w hw hclean hroom => ?_⟩
  by_cases h0 : w.pendingBits = 0
  · rw [bytesBits_length] at hroom
    dsimp only
    rw [writeBytes, if_neg (by simpa using h0), if_neg (by omega)]
    exact hclean
  · have hloop := (Takes.foldl (f := fun w (b : UInt8) => w.writeU8 b.toNat)
      (fun b => writeU8_takes b.toNat) data).2 w hw hclean hroom
    simpa [writeBytes, h0] using hloop

/-- A step on a clean writer overflows exactly when its bits do not fit. -/
theorem Takes.clean_iff {f : BitWriter → BitWriter} {bits : List Bool} (hf : Takes f bits)
    {w : BitWriter} (hw : w.WF) (hclean : w.overflow = false) (hroom : w.Room bits.length) :
    (f w).overflow = false ↔ w.bitPos + bits.length ≤ w.capacityBits := by
  constructor
  · intro h
    obtain ⟨hwf, hcap, -, -⟩ := hf.1 w hw hroom
    have hpos := hf.1.bitPos hw hroom h
    have hfits := hwf.fits
    omega
  · exact hf.2 w hw hclean

/-- What a step that was taken leaves behind. -/
theorem Takes.position {f : BitWriter → BitWriter} {bits : List Bool} (hf : Takes f bits)
    {w : BitWriter} (hw : w.WF) (hclean : w.overflow = false)
    (hroom : w.bitPos + bits.length ≤ w.capacityBits) :
    (f w).WF ∧ (f w).overflow = false ∧ (f w).capacityBits = w.capacityBits ∧
      (f w).bitPos = w.bitPos + bits.length := by
  have hdone := hf.2 w hw hclean hroom
  obtain ⟨hwf, hcap, -, -⟩ := hf.1 w hw (hw.room hroom)
  exact ⟨hwf, hdone, hcap, hf.1.bitPos hw (hw.room hroom) hdone⟩

/-- A packet that was finished in a fresh buffer shows its bits to a reader. -/
theorem Emits.finished {f : BitWriter → BitWriter} {bits : List Bool} (hf : Emits f bits)
    (buffer : Nat → UInt8) {capacity : Nat} (hcapacity : capacity < 2 ^ 28)
    (hclean : (f (new buffer capacity)).overflow = false) :
    (BitReader.ofBytes (f (new buffer capacity)).bytes).Ahead bits ∧
      bits.length ≤ 8 * capacity := by
  have hcap := new_capacity buffer hcapacity
  have hnew := new_wf buffer capacity
  have hroom : (new buffer capacity).Room bits.length := Or.inr (by omega)
  have hpos := hf.bitPos hnew hroom hclean
  obtain ⟨hwf, hsame, -, hcontent⟩ := hf _ hnew hroom
  have hempty : (new buffer capacity).content = [] := by simp [content, new, toBits]
  have hstart : (new buffer capacity).bitPos = 0 := rfl
  have hfits := hwf.fits
  obtain ⟨pad, hbits, hlength⟩ := hwf.bytes_bits
  rw [(hcontent hclean).2, hempty, List.nil_append] at hbits
  exact ⟨BitReader.ofBytes_ahead hbits (by omega), by omega⟩

/-- A step that fits a fresh buffer finishes a packet in it. -/
theorem Takes.clean_new {f : BitWriter → BitWriter} {bits : List Bool} (hf : Takes f bits)
    (buffer : Nat → UInt8) {capacity : Nat} (hcapacity : capacity < 2 ^ 28)
    (hfits : bits.length ≤ 8 * capacity) : (f (new buffer capacity)).overflow = false := by
  have hcap := new_capacity buffer hcapacity
  have hstart : (new buffer capacity).bitPos = 0 := rfl
  exact hf.2 _ (new_wf buffer capacity) rfl (by omega)

theorem bytes_ne_nil {w : BitWriter} (hw : w.WF) (h : 0 < w.bitPos) : w.bytes ≠ [] := by
  intro hnil
  obtain ⟨pad, hbits, -⟩ := hw.bytes_bits
  have hlen := congrArg List.length hbits
  rw [hnil, List.length_append, hw.content_length] at hlen
  simp only [bytesBits_nil, List.length_nil] at hlen
  omega

theorem bytes_length_of_aligned {w : BitWriter} (hw : w.WF) (h8 : w.bitPos % 8 = 0) :
    8 * w.bytes.length = w.bitPos := by
  have hpos := hw.position
  have hpending := hw.pending
  have h0 : w.pendingBits = 0 := by omega
  simp only [bytes, bytesWritten, h0, Nat.lt_irrefl, if_false, List.length_map, List.length_range]
  omega

end Morton.Proto.BitWriter
