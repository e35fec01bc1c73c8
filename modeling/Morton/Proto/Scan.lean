import Morton.Base.Traced
import Morton.Proto.BitStream

/-! `BitReader` with the buffer indices it reads. Each operation is the one of the
reader when the indices are dropped, and stays inside the buffer whatever it reads. -/
namespace Morton.Proto

abbrev Scan (α : Type) := Traced BitReader Nat α

namespace Scan
open Traced

def fetchLoop : Nat → BitReader → Nat → Nat → Nat → (Nat × BitReader) × List Nat
  | 0, r, result, _, _ => ((result, r), [])
  | fuel+1, r, result, written, remaining =>
    if remaining = 0 then ((result, r), [])
    else
      let byteIndex := r.bitPos / 8
      let bitOffset := r.bitPos % 8
      let availInByte := 8 - bitOffset
      let take := if remaining < availInByte then remaining else availInByte
      let chunk := (r.buffer byteIndex).toNat >>> bitOffset &&& (2 ^ take - 1)
      let (out, touched) := fetchLoop fuel { r with bitPos := r.bitPos + take }
        (result ||| chunk <<< written) (written + take) (remaining - take)
      (out, byteIndex :: touched)

def bits (n : Nat) : Scan Nat := ⟨fun r =>
  if n = 0 then ((0, r), [])
  else if r.capacityBits < (r.bitPos + n) % 2 ^ 32 then ((0, { r with overflow := true }), [])
  else fetchLoop n r 0 0 n⟩

def bool : Scan Bool := do
  let value ← bits 1
  pure (value != 0)

def u8 : Scan Nat := bits 8
def u16 : Scan Nat := bits 16
def u32 : Scan Nat := bits 32

def u64 : Scan Nat := do
  let low ← bits 32
  let high ← bits 32
  pure (low ||| high <<< 32)

def ranged (min max : Int) : Scan Int := do
  let value ← bits (BitWriter.bitsRequired min max)
  pure (BitReader.toI32 value + min)

def varintLoop : Nat → Nat → Nat → Scan Nat
  | 0, result, _ => pure result
  | fuel+1, result, shift => do
    let byte ← bits 8
    let result := (result ||| (byte % 128) <<< shift) % 2 ^ 32
    if byte < 128 then pure result else varintLoop fuel result (shift + 7)

def varint : Scan Nat := varintLoop 5 0 0

def byteLoop : Nat → Scan (List UInt8)
  | 0 => pure []
  | n+1 => do
    let byte ← u8
    let rest ← byteLoop n
    pure (UInt8.ofNat byte :: rest)

/-- `overflow_ = true` -/
def latch : Scan Unit := ⟨fun r => (((), { r with overflow := true }), [])⟩

def string : Scan (List UInt8) := do
  let len ← varint
  if 1023 < len then do
    latch
    pure []
  else byteLoop len

/-- The aligned path of `read_bytes`. -/
def copy (count : Nat) : Scan (List UInt8) := ⟨fun r =>
  if r.capacityBits < r.bitPos + count * 8 then
    ((List.replicate count 0, { r with overflow := true }), [])
  else
    (((List.range count).map fun i => r.buffer (r.bitPos / 8 + i),
      { r with bitPos := r.bitPos + count * 8 }),
      (List.range count).map fun i => r.bitPos / 8 + i)⟩

def bytes (count : Nat) : Scan (List UInt8) := ⟨fun r =>
  if r.bitPos % 8 ≠ 0 then (byteLoop count).run r else (copy count).run r⟩

def overflowed : Scan Bool := look BitReader.overflow

section Erasure

theorem fetchLoop_fst (fuel : Nat) (r : BitReader) (result written remaining : Nat) :
    (fetchLoop fuel r result written remaining).1 = r.readLoop fuel result written remaining := by
  induction fuel generalizing r result written remaining with
  | zero => rfl
  | succ fuel ih =>
    rw [fetchLoop, BitReader.readLoop]
    split
    · rfl
    · exact ih _ _ _ _

@[simp] theorem eval_bits (n : Nat) (r : BitReader) : (bits n).eval r = r.readBits n := by
  rw [BitReader.readBits, eval, bits]
  dsimp only
  split
  · rfl
  · split
    · rfl
    · exact fetchLoop_fst n r 0 0 n

@[simp] theorem eval_u8 (r : BitReader) : u8.eval r = r.readU8 := eval_bits 8 r

@[simp] theorem eval_u16 (r : BitReader) : u16.eval r = r.readU16 := eval_bits 16 r

@[simp] theorem eval_u32 (r : BitReader) : u32.eval r = r.readU32 := eval_bits 32 r

@[simp] theorem eval_bool (r : BitReader) : bool.eval r = r.readBool := by
  simp [bool, BitReader.readBool]

@[simp] theorem eval_u64 (r : BitReader) : u64.eval r = r.readU64 := by
  simp [u64, BitReader.readU64]

@[simp] theorem eval_ranged (min max : Int) (r : BitReader) :
    (ranged min max).eval r = r.readRanged min max := by
  simp [ranged, BitReader.readRanged]

theorem eval_varintLoop (fuel result shift : Nat) (r : BitReader) :
    (varintLoop fuel result shift).eval r = r.readVarintLoop fuel result shift := by
  induction fuel generalizing r result shift with
  | zero => rfl
  | succ fuel ih => simp [varintLoop, BitReader.readVarintLoop, ih]

@[simp] theorem eval_varint (r : BitReader) : varint.eval r = r.readVarint :=
  eval_varintLoop 5 0 0 r

@[simp] theorem eval_byteLoop (n : Nat) (r : BitReader) :
    (byteLoop n).eval r = r.readByteLoop n := by
  induction n generalizing r with
  | zero => rfl
  | succ n ih => simp [byteLoop, BitReader.readByteLoop, ih]

@[simp] theorem eval_latch (r : BitReader) :
    latch.eval r = ((), { r with overflow := true }) := rfl

@[simp] theorem eval_string (r : BitReader) : string.eval r = r.readString := by
  simp [string, BitReader.readString]

@[simp] theorem eval_bytes (count : Nat) (r : BitReader) :
    (bytes count).eval r = r.readBytes count := by
  rw [BitReader.readBytes, eval, bytes]
  dsimp only
  split
  · exact eval_byteLoop count r
  · rw [copy]
    dsimp only
    split <;> rfl

@[simp] theorem eval_overflowed (r : BitReader) : overflowed.eval r = (r.overflow, r) := rfl

end Erasure

/-- The reader of a buffer of `size` bytes, somewhere between its first bit and its end. -/
def Inside (size : Nat) (r : BitReader) : Prop := r.capacityBits = 8 * size ∧ r.bitPos ≤ 8 * size

theorem inside_new {size : Nat} (hsize : size < 2 ^ 28) (buffer : Nat → UInt8) :
    Inside size (BitReader.new buffer size) := by
  simp only [Inside, BitReader.new]
  omega

/-- The loop of `read_bits` fetches from the bytes its bits lie in and comes to its end. -/
theorem fetchLoop_inside {size : Nat} (fuel : Nat) (r : BitReader)
    (result written remaining : Nat) (hfuel : remaining ≤ fuel) (hr : Inside size r)
    (hend : r.bitPos + remaining ≤ 8 * size) :
    (∀ i ∈ (fetchLoop fuel r result written remaining).2, i < size) ∧
    (fetchLoop fuel r result written remaining).1.2 =
      { r with bitPos := r.bitPos + remaining } := by
  induction fuel generalizing r result written remaining with
  | zero =>
    obtain rfl : remaining = 0 := by omega
    exact ⟨by simp [fetchLoop], rfl⟩
  | succ fuel ih =>
    rw [fetchLoop]
    split
    next h0 =>
      subst h0
      exact ⟨by simp, rfl⟩
    next h0 =>
      dsimp only
      generalize htake : (if remaining < 8 - r.bitPos % 8 then remaining else 8 - r.bitPos % 8) = take
      have hpos : 0 < take ∧ take ≤ remaining := by
        rw [← htake]
        split <;> omega
      obtain ⟨htouched, hreader⟩ := ih { r with bitPos := r.bitPos + take }
        (result ||| ((r.buffer (r.bitPos / 8)).toNat >>> (r.bitPos % 8) &&& (2 ^ take - 1)) <<< written)
        (written + take) (remaining - take) (by omega) ⟨hr.1, by dsimp only; omega⟩
        (by dsimp only; omega)
      refine ⟨fun i hi => ?_, ?_⟩
      · rcases List.mem_cons.mp hi with hi | hi
        · omega
        · exact htouched i hi
      · rw [hreader]
        congr 1
        dsimp only
        omega

/-- Reading the overflow flag looks at no byte. -/
theorem within_overflowed {size : Nat} :
    Within (Inside size) (· < size) overflowed fun _ => True :=
  within_look _

section Bounds
variable {size : Nat} (hsize : size < 2 ^ 28)
include hsize

theorem within_bits {n : Nat} (hn : n ≤ 32) :
    Within (Inside size) (· < size) (bits n) fun _ => True := by
  intro r hr
  have hcap := hr.1
  have hle := hr.2
  have hwrap : (r.bitPos + n) % 2 ^ 32 = r.bitPos + n := Nat.mod_eq_of_lt (by omega)
  simp only [eval, touched, bits, hwrap]
  split
  · exact ⟨hr, by simp, trivial⟩
  · split
    · exact ⟨hr, by simp, trivial⟩
    · obtain ⟨htouched, hreader⟩ := fetchLoop_inside n r 0 0 n (le_refl n) hr (by omega)
      refine ⟨?_, htouched, trivial⟩
      rw [hreader]
      exact ⟨hr.1, by dsimp only; omega⟩

theorem within_u8 : Within (Inside size) (· < size) u8 fun _ => True :=
  within_bits hsize (by omega)

theorem within_u16 : Within (Inside size) (· < size) u16 fun _ => True :=
  within_bits hsize (by omega)

theorem within_u32 : Within (Inside size) (· < size) u32 fun _ => True :=
  within_bits hsize (by omega)

theorem within_bool : Within (Inside size) (· < size) bool fun _ => True :=
  (within_bits hsize (by omega)).andThen fun _ => within_pure trivial

theorem within_u64 : Within (Inside size) (· < size) u64 fun _ => True :=
  (within_bits hsize (by omega)).andThen fun _ =>
    (within_bits hsize (by omega)).andThen fun _ => within_pure trivial

theorem within_ranged {min max : Int} (h : BitWriter.bitsRequired min max ≤ 32) :
    Within (Inside size) (· < size) (ranged min max) fun _ => True :=
  (within_bits hsize h).andThen fun _ => within_pure trivial

theorem within_varintLoop (fuel result shift : Nat) :
    Within (Inside size) (· < size) (varintLoop fuel result shift) fun _ => True := by
  induction fuel generalizing result shift with
  | zero => exact within_pure trivial
  | succ fuel ih =>
    exact (within_bits hsize (by omega)).andThen fun _ =>
      within_ite (fun _ => within_pure trivial) fun _ => ih _ _

theorem within_varint : Within (Inside size) (· < size) varint fun _ => True :=
  within_varintLoop hsize 5 0 0

theorem within_byteLoop (n : Nat) :
    Within (Inside size) (· < size) (byteLoop n) fun _ => True := by
  induction n with
  | zero => exact within_pure trivial
  | succ n ih => exact (within_u8 hsize).andThen fun _ => ih.andThen fun _ => within_pure trivial

theorem within_string : Within (Inside size) (· < size) string fun _ => True := by
  refine (within_varint hsize).andThen fun len => within_ite (fun _ => ?_) fun _ => ?_
  · have hlatch : Within (Inside size) (· < size) latch fun _ => True :=
      fun r hr => ⟨hr, fun _ hi => (nomatch hi), trivial⟩
    exact hlatch.andThen fun _ => within_pure trivial
  · exact within_byteLoop hsize len

end Bounds

/-- The copy of aligned bytes: its check is made in 64 bits. -/
theorem copy_inside {size : Nat} (count : Nat) {r : BitReader} (hr : Inside size r)
    (haligned : r.bitPos % 8 = 0) :
    Inside size ((copy count).eval r).2 ∧ ∀ i ∈ (copy count).touched r, i < size := by
  have hcap := hr.1
  simp only [eval, touched, copy]
  split
  · exact ⟨hr, by simp⟩
  · refine ⟨⟨hr.1, by dsimp only; omega⟩, fun i hi => ?_⟩
    obtain ⟨k, hk, rfl⟩ := List.mem_map.mp hi
    have := List.mem_range.mp hk
    omega

theorem within_bytes {size : Nat} (hsize : size < 2 ^ 28) (count : Nat) :
    Within (Inside size) (· < size) (bytes count) fun _ => True := by
  intro r hr
  by_cases h : r.bitPos % 8 = 0
  · simpa [eval, touched, bytes, h] using copy_inside count hr h
  · simpa [eval, touched, bytes, h] using within_byteLoop hsize count r hr

end Scan
end Morton.Proto
