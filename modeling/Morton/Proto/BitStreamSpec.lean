import Morton.Proto.BitStream

/-! What a writer has written and what a reader will read, as bit lists. `Emits`
composes along `++`, `Ahead` is consumed field by field, and `ofBytes_ahead`
joins the two, so that packet codecs are verified without looking at bytes. -/
namespace Morton.Proto
open Bits

namespace BitWriter

/-- The bits written so far: completed bytes, then the pending low bits. -/
def content (w : BitWriter) : List Bool :=
  bytesBits ((List.range w.flushedBytes).map w.buffer) ++ toBits w.pendingBits w.accumulator

/-- What every reachable writer satisfies, overflowed or not. -/
structure WF (w : BitWriter) : Prop where
  pending : w.pendingBits < 8
  accumulator : w.accumulator < 2 ^ w.pendingBits
  position : w.bitPos = 8 * w.flushedBytes + w.pendingBits
  fits : w.bitPos ≤ w.capacityBits
  capacity : w.capacityBits < 2 ^ 32

theorem new_wf (buffer : Nat → UInt8) (capacity : Nat) : (new buffer capacity).WF where
  pending := by simp [new]
  accumulator := by simp [new]
  position := by simp [new]
  fits := by simp [new]
  capacity := Nat.mod_lt _ (by decide)

theorem new_capacity (memory : Nat → UInt8) {capacity : Nat} (h : capacity < 2 ^ 28) :
    (new memory capacity).capacityBits = 8 * capacity := by
  simp only [new]
  omega

theorem content_length (w : BitWriter) :
    w.content.length = 8 * w.flushedBytes + w.pendingBits := by
  simp [content]

theorem WF.content_length {w : BitWriter} (hw : w.WF) : w.content.length = w.bitPos := by
  rw [BitWriter.content_length, hw.position]

theorem range_map_store (memory : Nat → UInt8) (n : Nat) (b : UInt8) :
    (List.range (n+1)).map (store memory n b) = (List.range n).map memory ++ [b] := by
  rw [List.range_succ, List.map_append]
  congr 1
  · refine List.map_congr_left fun i hi => ?_
    have hi : i < n := List.mem_range.mp hi
    simp [store, Nat.ne_of_lt hi]
  · simp [store]

/-- Flushing moves whole bytes out of the accumulator and loses no bit. -/
theorem flushPending_spec (fuel : Nat) (w : BitWriter) (hfuel : w.pendingBits ≤ fuel + 7)
    (hacc : w.accumulator < 2 ^ w.pendingBits) :
    (flushPending fuel w).content = w.content ∧
    (flushPending fuel w).pendingBits < 8 ∧
    (flushPending fuel w).accumulator < 2 ^ (flushPending fuel w).pendingBits ∧
    8 * (flushPending fuel w).flushedBytes + (flushPending fuel w).pendingBits =
      8 * w.flushedBytes + w.pendingBits ∧
    (flushPending fuel w).bitPos = w.bitPos ∧
    (flushPending fuel w).capacityBits = w.capacityBits ∧
    (flushPending fuel w).overflow = w.overflow := by
  induction fuel generalizing w with
  | zero => exact ⟨rfl, by simp only [flushPending]; omega, hacc, rfl, rfl, rfl, rfl⟩
  | succ fuel ih =>
    rw [flushPending]
    split
    next h8 =>
      have hpow : 2 ^ w.pendingBits = 2 ^ 8 * 2 ^ (w.pendingBits - 8) := by
        rw [← Nat.pow_add]; congr 1; omega
      have hhigh : w.accumulator >>> 8 < 2 ^ (w.pendingBits - 8) := by
        rw [Nat.shiftRight_eq_div_pow]
        exact Nat.div_lt_of_lt_mul (by omega)
      have hflush := ih { w with
        buffer := store w.buffer w.flushedBytes (UInt8.ofNat w.accumulator)
        flushedBytes := w.flushedBytes + 1
        accumulator := w.accumulator >>> 8
        pendingBits := w.pendingBits - 8 } (by dsimp only; omega) hhigh
      obtain ⟨hc, hp, ha, hpos, hb, hcap, ho⟩ := hflush
      dsimp only at hpos
      refine ⟨hc.trans ?_, hp, ha, by omega, hb, hcap, ho⟩
      have hsplit := toBits_add 8 (w.pendingBits - 8) w.accumulator
      rw [show 8 + (w.pendingBits - 8) = w.pendingBits by omega] at hsplit
      simp only [content, range_map_store, bytesBits_append, bytesBits_cons, bytesBits_nil,
        List.append_nil, List.append_assoc, hsplit, Nat.shiftRight_eq_div_pow]
      rw [UInt8.toNat_ofNat', toBits_mod]
    next h8 => exact ⟨rfl, by omega, hacc, rfl, rfl, rfl, rfl⟩

/-- The `u32` position cannot wrap while `n` more bits are written. -/
def Room (w : BitWriter) (n : Nat) : Prop := w.bitPos + n < 2 ^ 32 ∨ w.capacityBits + 32 < 2 ^ 32

/-- A step of an encoder: it keeps the writer well formed, and unless it
overflows it appends exactly `bits`. -/
def Emits (f : BitWriter → BitWriter) (bits : List Bool) : Prop :=
  ∀ w : BitWriter, w.WF → w.Room bits.length →
    (f w).WF ∧ (f w).capacityBits = w.capacityBits ∧ (f w).bitPos ≤ w.bitPos + bits.length ∧
    ((f w).overflow = false → w.overflow = false ∧ (f w).content = w.content ++ bits)

theorem emits_id : Emits id [] := by
  intro w hw _
  exact ⟨hw, rfl, by simp, fun h => ⟨h, by simp⟩⟩

theorem Emits.comp {f g : BitWriter → BitWriter} {xs ys : List Bool}
    (hf : Emits f xs) (hg : Emits g ys) : Emits (fun w => g (f w)) (xs ++ ys) := by
  intro w hw hlen
  unfold Room at hlen
  rw [List.length_append] at hlen ⊢
  obtain ⟨hw₁, hc₁, hp₁, hv₁⟩ := hf w hw (by unfold Room; omega)
  obtain ⟨hw₂, hc₂, hp₂, hv₂⟩ := hg (f w) hw₁ (by unfold Room; omega)
  refine ⟨hw₂, hc₂.trans hc₁, by dsimp only; omega, fun h => ?_⟩
  obtain ⟨ho, hcontent⟩ := hv₂ h
  obtain ⟨ho', hcontent'⟩ := hv₁ ho
  exact ⟨ho', by rw [hcontent, hcontent', List.append_assoc]⟩

theorem Emits.foldl {α : Type*} {f : BitWriter → α → BitWriter} {bits : α → List Bool}
    (h : ∀ a, Emits (fun w => f w a) (bits a)) (xs : List α) :
    Emits (fun w => xs.foldl f w) (xs.flatMap bits) := by
  induction xs with
  | nil => exact emits_id
  | cons x xs ih => exact (h x).comp ih

theorem writeBits_emits (value bits : Nat) (hbits : bits ≤ 32) :
    Emits (fun w => w.writeBits value bits) (toBits bits value) := by
  intro w hw hlen
  unfold Room at hlen
  rw [toBits_length] at hlen ⊢
  have hwrap : (w.bitPos + bits) % 2 ^ 32 = w.bitPos + bits := by
    have := hw.fits
    exact Nat.mod_eq_of_lt (by omega)
  unfold writeBits
  dsimp only
  split
  next h0 => subst h0; exact ⟨hw, rfl, by omega, fun h => ⟨h, by simp [toBits]⟩⟩
  next h0 =>
    split
    next hfull =>
      refine ⟨⟨hw.pending, hw.accumulator, hw.position, hw.fits, hw.capacity⟩, rfl,
        Nat.le_add_right _ _, fun h => ?_⟩
      cases h
    next hfits =>
      rw [hwrap] at hfits
      have hvalue : (if bits < 32 then value &&& (2 ^ bits - 1) else value % 2 ^ 32)
          = value % 2 ^ bits := by
        split
        · exact Nat.and_two_pow_sub_one_eq_mod value bits
        · rw [show bits = 32 by omega]
      rw [hvalue]
      have hacc : w.accumulator ||| (value % 2 ^ bits) <<< w.pendingBits <
          2 ^ (w.pendingBits + bits) := by
        refine Nat.or_lt_two_pow ?_ ?_
        · exact lt_of_lt_of_le hw.accumulator (Nat.pow_le_pow_right (by omega) (by omega))
        · rw [Nat.shiftLeft_eq, Nat.pow_add, Nat.mul_comm]
          exact Nat.mul_lt_mul_of_pos_left (Nat.mod_lt _ (Nat.two_pow_pos _)) (Nat.two_pow_pos _)
      obtain ⟨hc, hp, ha, hpos, hb, hcap, ho⟩ :=
        flushPending_spec (w.pendingBits + bits) { w with
          accumulator := w.accumulator ||| (value % 2 ^ bits) <<< w.pendingBits
          pendingBits := w.pendingBits + bits
          bitPos := w.bitPos + bits } (by dsimp only; omega) hacc
      have hposition := hw.position
      refine ⟨⟨hp, ha, by dsimp only at hpos hb; omega, by rw [hb, hcap]; dsimp only; omega,
        by rw [hcap]; exact hw.capacity⟩, hcap, by rw [hb], fun h => ⟨ho ▸ h, hc.trans ?_⟩⟩
      simp only [content, toBits_pack _ _ _ _ hw.accumulator, toBits_mod, List.append_assoc]

theorem flushPending_overflow (fuel : Nat) (w : BitWriter) :
    (flushPending fuel w).overflow = w.overflow := by
  induction fuel generalizing w with
  | zero => rfl
  | succ fuel ih =>
    rw [flushPending]
    split
    · exact ih _
    · rfl

/-- Overflow latches: a clean writer was clean before the last field. -/
theorem writeBits_clean {w : BitWriter} {value bits : Nat}
    (h : (w.writeBits value bits).overflow = false) : w.overflow = false := by
  rw [writeBits] at h
  split at h
  · exact h
  · split at h
    · cases h
    · rwa [flushPending_overflow] at h

theorem writeU8s_clean {data : List UInt8} {w : BitWriter}
    (h : (data.foldl (fun w b => w.writeU8 b.toNat) w).overflow = false) : w.overflow = false := by
  induction data generalizing w with
  | nil => exact h
  | cons b data ih => exact writeBits_clean (ih h)

theorem writeBytes_clean {w : BitWriter} {data : List UInt8}
    (h : (w.writeBytes data).overflow = false) : w.overflow = false := by
  rw [writeBytes] at h
  split at h
  · exact writeU8s_clean h
  · split at h
    · cases h
    · exact h

theorem writeBool_emits (value : Bool) : Emits (fun w => w.writeBool value) [value] := by
  have h := writeBits_emits (if value then 1 else 0) 1 (by omega)
  cases value <;> exact h

theorem writeU8_emits (value : Nat) : Emits (fun w => w.writeU8 value) (toBits 8 value) :=
  writeBits_emits value 8 (by omega)

theorem writeU16_emits (value : Nat) : Emits (fun w => w.writeU16 value) (toBits 16 value) :=
  writeBits_emits value 16 (by omega)

theorem writeU32_emits (value : Nat) : Emits (fun w => w.writeU32 value) (toBits 32 value) :=
  writeBits_emits value 32 (by omega)

theorem writeU64_emits (value : Nat) : Emits (fun w => w.writeU64 value) (toBits 64 value) := by
  have h := (writeBits_emits (value % 2 ^ 32) 32 (by omega)).comp
    (writeBits_emits (value / 2 ^ 32) 32 (by omega))
  rwa [toBits_mod, ← toBits_add] at h

/-- The groups of a varint: seven payload bits, then the continuation bit. -/
def varintBits : Nat → Nat → List Bool
  | 0, value => toBits 8 (value % 128)
  | fuel+1, value =>
    if 128 ≤ value then toBits 8 (value % 128 + 128) ++ varintBits fuel (value / 128)
    else toBits 8 (value % 128)

theorem writeVarintLoop_emits (fuel value : Nat) :
    Emits (fun w => writeVarintLoop fuel w value) (varintBits fuel value) := by
  induction fuel generalizing value with
  | zero => exact writeBits_emits _ 8 (by omega)
  | succ fuel ih =>
    by_cases h : 128 ≤ value
    · simp only [writeVarintLoop, varintBits, h, if_true]
      exact (writeBits_emits _ 8 (by omega)).comp (ih _)
    · simp only [writeVarintLoop, varintBits, h, if_false]
      exact writeBits_emits _ 8 (by omega)

theorem writeVarint_emits (value : Nat) :
    Emits (fun w => w.writeVarint value) (varintBits 4 value) :=
  writeVarintLoop_emits 4 value

theorem writeRanged_emits {value min max : Int} (hmin : min ≤ value) (hmax : value ≤ max)
    (hrange : max - min < 2 ^ 32) (hbits : bitsRequired min max ≤ 32) :
    Emits (fun w => w.writeRanged value min max)
      (toBits (bitsRequired min max) (value - min).toNat) := by
  have h := writeBits_emits ((value - min) % 2 ^ 32).toNat (bitsRequired min max) hbits
  rw [Int.emod_eq_of_lt (by omega) (by omega)] at h
  simpa only [writeRanged, if_neg (Int.not_lt.mpr hmin), if_neg (Int.not_lt.mpr hmax),
    Int.emod_eq_of_lt (show 0 ≤ value - min by omega) (show value - min < 2 ^ 32 by omega)] using h

theorem writeU8s_emits (data : List UInt8) :
    Emits (fun w => data.foldl (fun w b => w.writeU8 b.toNat) w) (bytesBits data) :=
  Emits.foldl (f := fun w (b : UInt8) => w.writeU8 b.toNat) (fun b => writeU8_emits b.toNat) data

/-- A string of at most 1023 bytes with its length before it; a longer one is cut. -/
def stringBits (value : List UInt8) : List Bool :=
  varintBits 4 (value.take 1023).length ++ bytesBits (value.take 1023)

theorem stringBits_length_ge (value : List UInt8) :
    8 * min 1023 value.length ≤ (stringBits value).length := by
  rw [stringBits, List.length_append, bytesBits_length, List.length_take]
  omega

theorem writeString_emits (value : List UInt8) :
    Emits (fun w => w.writeString value) (stringBits value) := by
  have hlen : (if 1023 < value.length then 1023 else value.length) = (value.take 1023).length := by
    rw [List.length_take]
    split <;> omega
  have htake : value.take (value.take 1023).length = value.take 1023 := by
    rw [List.length_take, ← List.take_eq_take_min]
  simp only [writeString, hlen, htake]
  exact (writeVarint_emits _).comp (writeU8s_emits _)

theorem range_map_copyBytes (memory : Nat → UInt8) (n : Nat) (data : List UInt8) :
    (List.range (n + data.length)).map (copyBytes memory n data) =
      (List.range n).map memory ++ data := by
  rw [List.range_add, List.map_append, List.map_map]
  congr 1
  · refine List.map_congr_left fun i hi => ?_
    have hi : i < n := List.mem_range.mp hi
    simp [copyBytes, Nat.not_le_of_lt hi]
  · refine List.ext_getElem (by simp) fun i h₁ h₂ => ?_
    simp [copyBytes, h₂]

/-- The aligned `memcpy` path, whatever the size of `data`: its bound check is
done in 64 bits. -/
theorem writeBytes_aligned {w : BitWriter} (hw : w.WF) (h8 : w.bitPos % 8 = 0)
    (data : List UInt8) :
    (w.writeBytes data).WF ∧ (w.writeBytes data).capacityBits = w.capacityBits ∧
    (w.writeBytes data).bitPos ≤ w.bitPos + 8 * data.length ∧
    ((w.writeBytes data).overflow = false →
      w.overflow = false ∧ (w.writeBytes data).content = w.content ++ bytesBits data) := by
  have hpos := hw.position
  have hpend := hw.pending
  have h0 : w.pendingBits = 0 := by omega
  rw [writeBytes, if_neg (by omega)]
  split
  next hfull =>
    refine ⟨⟨hw.pending, hw.accumulator, hw.position, hw.fits, hw.capacity⟩, rfl,
      Nat.le_add_right _ _, fun h => ?_⟩
    cases h
  next hfits =>
    refine ⟨⟨hw.pending, hw.accumulator, by dsimp only; omega, by dsimp only; omega, hw.capacity⟩,
      rfl, by dsimp only; omega, fun h => ⟨h, ?_⟩⟩
    simp [content, range_map_copyBytes, h0, toBits]

theorem writeBytes_emits (data : List UInt8) :
    Emits (fun w => w.writeBytes data) (bytesBits data) := by
  intro w hw hlen
  have hpos := hw.position
  have hpend := hw.pending
  by_cases h0 : w.pendingBits = 0
  · have h := writeBytes_aligned hw (by omega) data
    rwa [bytesBits_length]
  · have h := writeU8s_emits data w hw hlen
    simpa [writeBytes, h0] using h

/-- Padding to the next byte. -/
theorem align_spec {w : BitWriter} (hw : w.WF) (hroom : w.Room 8) :
    w.align.WF ∧ w.align.capacityBits = w.capacityBits ∧ w.align.bitPos ≤ w.bitPos + 8 ∧
    (w.align.overflow = false → w.overflow = false ∧ w.align.pendingBits = 0 ∧
      ∃ pad, w.align.content = w.content ++ pad) := by
  have hpos := hw.position
  have hpending := hw.pending
  unfold align
  dsimp only
  split
  next hrem =>
    unfold Room at hroom
    obtain ⟨hwf, hcap, hle, hcontent⟩ := writeBits_emits 0 (8 - w.bitPos % 8) (by omega) w hw
      (by unfold Room; rw [toBits_length]; omega)
    rw [toBits_length] at hle
    refine ⟨hwf, hcap, by dsimp only at hle; omega, fun hclean => ?_⟩
    obtain ⟨hclean', hbits⟩ := hcontent hclean
    refine ⟨hclean', ?_, _, hbits⟩
    have hlen := congrArg List.length hbits
    rw [hwf.content_length, List.length_append, hw.content_length, toBits_length] at hlen
    have := hwf.position
    have := hwf.pending
    dsimp only at *
    omega
  next hrem =>
    refine ⟨hw, rfl, by omega, fun hclean => ⟨hclean, by omega, [], ?_⟩⟩
    rw [List.append_nil]

/-- A writer at a byte boundary holds exactly its content. -/
theorem bytes_of_aligned {w : BitWriter} (h0 : w.pendingBits = 0) :
    bytesBits w.bytes = w.content ∧ w.bytesWritten.2 = w := by
  simp [bytes, bytesWritten, content, h0, toBits]

/-- The finished bytes hold the content, padded with zero bits to a byte. -/
theorem WF.bytes_bits {w : BitWriter} (hw : w.WF) :
    ∃ pad, bytesBits w.bytes = w.content ++ pad ∧ 8 * w.bytes.length < w.bitPos + 8 := by
  have hpos := hw.position
  by_cases h0 : 0 < w.pendingBits
  · refine ⟨toBits (8 - w.pendingBits) (w.accumulator / 2 ^ w.pendingBits), ?_, ?_⟩
    · have hsplit := toBits_add w.pendingBits (8 - w.pendingBits) w.accumulator
      rw [show w.pendingBits + (8 - w.pendingBits) = 8 by have := hw.pending; omega] at hsplit
      simp only [bytes, bytesWritten, h0, if_true, range_map_store, bytesBits_append,
        bytesBits_cons, bytesBits_nil, List.append_nil, content, List.append_assoc, ← hsplit]
      rw [UInt8.toNat_ofNat', toBits_mod]
    · simp only [bytes, bytesWritten, h0, if_true, List.length_map, List.length_range]
      omega
  · have h0 : w.pendingBits = 0 := by omega
    refine ⟨[], ?_, ?_⟩
    · simp [bytes, bytesWritten, content, h0, toBits]
    · simp only [bytes, bytesWritten, h0, Nat.lt_irrefl, if_false, List.length_map,
        List.length_range]
      omega

end BitWriter

namespace BitReader

/-- The reader has not overflowed and the next bits it sees are `bits`. -/
structure Ahead (r : BitReader) (bits : List Bool) : Prop where
  clean : r.overflow = false
  fits : r.bitPos + bits.length ≤ r.capacityBits
  capacity : r.capacityBits < 2 ^ 32
  sees : slice r.buffer r.bitPos bits.length = bits

/-- The reader after `n` more bits. -/
def advance (r : BitReader) (n : Nat) : BitReader := { r with bitPos := r.bitPos + n }

theorem Ahead.drop {r : BitReader} {xs ys : List Bool} (h : r.Ahead (xs ++ ys)) :
    (r.advance xs.length).Ahead ys ∧ slice r.buffer r.bitPos xs.length = xs := by
  have hfits := h.fits
  have hsees := h.sees
  rw [List.length_append] at hfits hsees
  rw [slice_add] at hsees
  obtain ⟨hx, hy⟩ := List.append_inj hsees (by simp)
  exact ⟨⟨h.clean, by simp only [advance]; omega, h.capacity, hy⟩, hx⟩

/-- The reading loop collects the bits of the slice, lowest first. -/
theorem readLoop_spec (fuel : Nat) (r : BitReader) (result written remaining : Nat)
    (hfuel : remaining ≤ fuel) (hres : result < 2 ^ written) :
    readLoop fuel r result written remaining =
      (result + 2 ^ written * ofBits (slice r.buffer r.bitPos remaining), r.advance remaining) := by
  induction fuel generalizing r result written remaining with
  | zero =>
    have h0 : remaining = 0 := by omega
    subst h0
    simp [readLoop, slice, ofBits, advance]
  | succ fuel ih =>
    rw [readLoop]
    split
    next h0 =>
      subst h0
      simp [slice, ofBits, advance]
    next h0 =>
      dsimp only
      generalize htake : (if remaining < 8 - r.bitPos % 8 then remaining
        else 8 - r.bitPos % 8) = take
      have hbound : take ≤ remaining ∧ 0 < take ∧ r.bitPos % 8 + take ≤ 8 := by
        split at htake <;> omega
      have hchunk : (r.buffer (r.bitPos / 8)).toNat >>> (r.bitPos % 8) &&& (2 ^ take - 1) =
          ofBits (slice r.buffer r.bitPos take) := by
        rw [slice_in_byte _ _ _ hbound.2.2, ofBits_toBits, Nat.and_two_pow_sub_one_eq_mod]
      have hlt := ofBits_lt (slice r.buffer r.bitPos take)
      rw [slice_length] at hlt
      rw [hchunk, Nat.lor_comm, ← Nat.shiftLeft_add_eq_or_of_lt hres, Nat.shiftLeft_eq,
        ih _ _ _ _ (by omega) ?bound]
      case bound =>
        rw [Nat.pow_add]
        calc ofBits (slice r.buffer r.bitPos take) * 2 ^ written + result
            < ofBits (slice r.buffer r.bitPos take) * 2 ^ written + 2 ^ written := by omega
          _ = (ofBits (slice r.buffer r.bitPos take) + 1) * 2 ^ written := by ring
          _ ≤ 2 ^ take * 2 ^ written := Nat.mul_le_mul_right _ hlt
          _ = 2 ^ written * 2 ^ take := by ring
      have hslice : slice r.buffer r.bitPos remaining = slice r.buffer r.bitPos take ++
          slice r.buffer (r.bitPos + take) (remaining - take) := by
        rw [← slice_add]
        congr 1
        omega
      simp only [advance, hslice, ofBits_append, slice_length, Nat.pow_add]
      refine Prod.ext (by ring) ?_
      simp only [BitReader.mk.injEq, true_and, and_true]
      omega

/-- Reading a field that is ahead returns it and moves past it. -/
theorem Ahead.readBits {r : BitReader} {bits value : Nat} {rest : List Bool}
    (h : r.Ahead (toBits bits value ++ rest)) (hvalue : value < 2 ^ bits) :
    ∃ r', r.readBits bits = (value, r') ∧ r'.Ahead rest ∧ r'.bitPos = r.bitPos + bits := by
  obtain ⟨hrest, hsees⟩ := h.drop
  rw [toBits_length] at hrest hsees
  have hfits := h.fits
  have hcap := h.capacity
  rw [List.length_append, toBits_length] at hfits
  have hwrap : (r.bitPos + bits) % 2 ^ 32 = r.bitPos + bits := Nat.mod_eq_of_lt (by omega)
  refine ⟨r.advance bits, ?_, hrest, rfl⟩
  rw [BitReader.readBits]
  split
  next h0 =>
    subst h0
    have : value = 0 := by simpa using hvalue
    simp [advance, this]
  next h0 =>
    rw [hwrap, if_neg (by omega), readLoop_spec _ _ _ _ _ le_rfl (by simp), hsees, ofBits_toBits,
      Nat.mod_eq_of_lt hvalue]
    simp

/-- A read takes the next bits, or it overflows and moves nothing. -/
theorem readBits_cases (r : BitReader) (bits : Nat) :
    r.readBits bits = (ofBits (slice r.buffer r.bitPos bits), r.advance bits) ∨
      r.readBits bits = (0, { r with overflow := true }) := by
  rw [BitReader.readBits]
  split
  next h0 =>
    subst h0
    exact Or.inl (by simp [slice, ofBits, advance])
  next h0 =>
    split
    next => exact Or.inr rfl
    next =>
      refine Or.inl ?_
      rw [readLoop_spec _ _ _ _ _ le_rfl (by simp)]
      simp

/-- A field of `bits` bits reads as a number of `bits` bits. -/
theorem readBits_lt (r : BitReader) (bits : Nat) : (r.readBits bits).1 < 2 ^ bits := by
  obtain h | h := readBits_cases r bits
  · rw [h]
    simpa using ofBits_lt (slice r.buffer r.bitPos bits)
  · rw [h]
    exact Nat.two_pow_pos bits

theorem readBits_of_clean {r : BitReader} (bits : Nat)
    (h : (r.readBits bits).2.overflow = false) :
    r.overflow = false ∧
      r.readBits bits = (ofBits (slice r.buffer r.bitPos bits), r.advance bits) := by
  obtain hread | hread := readBits_cases r bits
  · rw [hread] at h
    exact ⟨h, hread⟩
  · rw [hread] at h
    cases h

theorem Ahead.readU8 {r : BitReader} {value : Nat} {rest : List Bool}
    (h : r.Ahead (toBits 8 value ++ rest)) (hvalue : value < 256) :
    ∃ r', r.readU8 = (value, r') ∧ r'.Ahead rest ∧ r'.bitPos = r.bitPos + 8 :=
  h.readBits hvalue

theorem Ahead.readU16 {r : BitReader} {value : Nat} {rest : List Bool}
    (h : r.Ahead (toBits 16 value ++ rest)) (hvalue : value < 65536) :
    ∃ r', r.readU16 = (value, r') ∧ r'.Ahead rest ∧ r'.bitPos = r.bitPos + 16 :=
  h.readBits hvalue

theorem Ahead.readU32 {r : BitReader} {value : Nat} {rest : List Bool}
    (h : r.Ahead (toBits 32 value ++ rest)) (hvalue : value < 2 ^ 32) :
    ∃ r', r.readU32 = (value, r') ∧ r'.Ahead rest ∧ r'.bitPos = r.bitPos + 32 :=
  h.readBits hvalue

theorem Ahead.readU64 {r : BitReader} {value : Nat} {rest : List Bool}
    (h : r.Ahead (toBits 64 value ++ rest)) (hvalue : value < 2 ^ 64) :
    ∃ r', r.readU64 = (value, r') ∧ r'.Ahead rest ∧ r'.bitPos = r.bitPos + 64 := by
  rw [show (64 : Nat) = 32 + 32 from rfl, toBits_add, ← toBits_mod 32 value, List.append_assoc] at h
  obtain ⟨r₁, hlow, hnext, hpos₁⟩ := h.readBits (Nat.mod_lt _ (by decide))
  obtain ⟨r₂, hhigh, hrest, hpos₂⟩ := hnext.readBits (show value / 2 ^ 32 < 2 ^ 32 by omega)
  refine ⟨r₂, ?_, hrest, by omega⟩
  have hjoin : value % 2 ^ 32 ||| (value / 2 ^ 32) <<< 32 = value := by
    rw [Nat.lor_comm, ← Nat.shiftLeft_add_eq_or_of_lt (Nat.mod_lt _ (by decide)), Nat.shiftLeft_eq]
    omega
  simp only [BitReader.readU64, hlow, hhigh, hjoin]

/-- A finished packet shows its reader the bits that were written. -/
theorem ofBytes_ahead {bytes : List UInt8} {bits pad : List Bool}
    (h : bytesBits bytes = bits ++ pad) (hlen : 8 * bytes.length < 2 ^ 32) :
    (ofBytes bytes).Ahead bits := by
  have hcap : bytes.length * 8 % 2 ^ 32 = 8 * bytes.length := by
    rw [Nat.mul_comm, Nat.mod_eq_of_lt hlen]
  have hsize := congrArg List.length h
  rw [bytesBits_length, List.length_append] at hsize
  have hview : (List.range bytes.length).map (fun i => view bytes (0+i)) = bytes := by
    refine List.ext_getElem (by simp) fun i h₁ h₂ => ?_
    simp [view, h₂]
  have hall := slice_bytes (view bytes) 0 bytes.length
  rw [hview, h, hsize, slice_add] at hall
  refine ⟨rfl, ?_, ?_, (List.append_inj hall (by simp)).1⟩
  · simp only [ofBytes, new, hcap]
    omega
  · simp only [ofBytes, new, hcap]
    omega

theorem Ahead.readByteLoop {r : BitReader} {data : List UInt8} {rest : List Bool}
    (h : r.Ahead (bytesBits data ++ rest)) :
    ∃ r', r.readByteLoop data.length = (data, r') ∧ r'.Ahead rest ∧
      r'.bitPos = r.bitPos + 8 * data.length := by
  induction data generalizing r with
  | nil => exact ⟨r, rfl, h, rfl⟩
  | cons b data ih =>
    rw [bytesBits_cons, List.append_assoc] at h
    obtain ⟨r₁, e₁, h₁, p₁⟩ := h.readU8 b.toNat_lt
    obtain ⟨r₂, e₂, h₂, p₂⟩ := ih h₁
    refine ⟨r₂, ?_, h₂, by rw [p₂, p₁, List.length_cons]; omega⟩
    simp only [List.length_cons, BitReader.readByteLoop, e₁, e₂, UInt8.ofNat_toNat]

theorem Ahead.readBytes {r : BitReader} {data : List UInt8} {rest : List Bool}
    (h : r.Ahead (bytesBits data ++ rest)) :
    ∃ r', r.readBytes data.length = (data, r') ∧ r'.Ahead rest ∧
      r'.bitPos = r.bitPos + 8 * data.length := by
  have hfits := h.fits
  rw [List.length_append, bytesBits_length] at hfits
  rw [BitReader.readBytes]
  split
  next => exact h.readByteLoop
  next h8 =>
    have h8 : r.bitPos = 8 * (r.bitPos / 8) := by omega
    obtain ⟨hrest, hsees⟩ := h.drop
    rw [bytesBits_length] at hrest hsees
    rw [h8, slice_bytes] at hsees
    rw [if_neg (by omega), bytesBits_inj hsees]
    exact ⟨_, rfl, by rwa [Nat.mul_comm], by simp only; omega⟩

theorem Ahead.readBool {r : BitReader} {value : Bool} {rest : List Bool}
    (h : r.Ahead (value :: rest)) :
    ∃ r', r.readBool = (value, r') ∧ r'.Ahead rest ∧ r'.bitPos = r.bitPos + 1 := by
  have hbit : toBits 1 (if value then 1 else 0) = [value] := by cases value <;> rfl
  have hfield : r.Ahead (toBits 1 (if value then 1 else 0) ++ rest) := by
    rw [hbit]
    exact h
  obtain ⟨r', hread, hrest, hpos⟩ := hfield.readBits (by cases value <;> decide)
  refine ⟨r', ?_, hrest, hpos⟩
  rw [BitReader.readBool, hread]
  cases value <;> rfl

/-- A group placed above the bits already collected adds up with them. -/
theorem merge_group {acc shift v : Nat} (hacc : acc < 2 ^ shift)
    (hsum : acc + v * 2 ^ shift < 2 ^ 32) :
    (acc ||| v <<< shift) % 2 ^ 32 = acc + v * 2 ^ shift := by
  rw [Nat.lor_comm, ← Nat.shiftLeft_add_eq_or_of_lt hacc, Nat.shiftLeft_eq,
    Nat.add_comm (v * 2 ^ shift), Nat.mod_eq_of_lt hsum]

/-- The groups of a varint add up, each above the bits already collected. -/
theorem Ahead.readVarintLoop {r : BitReader} {fuel value : Nat} {rest : List Bool}
    (acc shift : Nat) (h : r.Ahead (BitWriter.varintBits fuel value ++ rest))
    (hvalue : value < 128 ^ (fuel + 1)) (hacc : acc < 2 ^ shift)
    (hsum : acc + value * 2 ^ shift < 2 ^ 32) :
    ∃ r', readVarintLoop (fuel + 1) r acc shift = (acc + value * 2 ^ shift, r') ∧
      r'.Ahead rest ∧ r'.bitPos = r.bitPos + (BitWriter.varintBits fuel value).length := by
  induction fuel generalizing r value acc shift with
  | zero =>
    have hsmall : value < 128 := by simpa using hvalue
    rw [BitWriter.varintBits, Nat.mod_eq_of_lt hsmall] at h ⊢
    obtain ⟨r', hread, hrest, hpos⟩ := h.readBits (show value < 2 ^ 8 by omega)
    refine ⟨r', ?_, hrest, by rw [hpos, toBits_length]⟩
    simp only [BitReader.readVarintLoop, hread, Nat.mod_eq_of_lt hsmall, hsmall, if_true,
      merge_group hacc hsum]
  | succ fuel ih =>
    by_cases hlarge : 128 ≤ value
    · rw [BitWriter.varintBits, if_pos hlarge] at h ⊢
      rw [List.append_assoc] at h
      obtain ⟨r₁, hread, hnext, hpos₁⟩ := h.readBits (show value % 128 + 128 < 2 ^ 8 by omega)
      have hsplit : value * 2 ^ shift =
          value % 128 * 2 ^ shift + value / 128 * 2 ^ (shift + 7) := by
        have hdiv := Nat.mod_add_div value 128
        calc value * 2 ^ shift = (value % 128 + 128 * (value / 128)) * 2 ^ shift := by rw [hdiv]
          _ = value % 128 * 2 ^ shift + value / 128 * 2 ^ (shift + 7) := by ring
      have hgroup : acc + value % 128 * 2 ^ shift < 2 ^ (shift + 7) := by
        have hle : value % 128 + 1 ≤ 128 := Nat.mod_lt _ (by omega)
        calc acc + value % 128 * 2 ^ shift < (value % 128 + 1) * 2 ^ shift := by
              rw [Nat.add_mul]
              omega
          _ ≤ 128 * 2 ^ shift := Nat.mul_le_mul_right _ hle
          _ = 2 ^ (shift + 7) := by ring
      have hmod : (value % 128 + 128) % 128 = value % 128 := by omega
      obtain ⟨r₂, hloop, hrest, hpos₂⟩ := ih (acc + value % 128 * 2 ^ shift) (shift + 7) hnext
        (Nat.div_lt_of_lt_mul (by rw [Nat.pow_succ, Nat.mul_comm] at hvalue; exact hvalue))
        hgroup (by omega)
      refine ⟨r₂, ?_, hrest, by rw [hpos₂, hpos₁, List.length_append, toBits_length]; omega⟩
      rw [BitReader.readVarintLoop, hread]
      simp only [hmod, merge_group (v := value % 128) hacc (by omega),
        show ¬ value % 128 + 128 < 128 by omega, if_false, hloop]
      rw [hsplit, Nat.add_assoc]
    · have hsmall : value < 128 := by omega
      rw [BitWriter.varintBits, if_neg hlarge, Nat.mod_eq_of_lt hsmall] at h ⊢
      obtain ⟨r', hread, hrest, hpos⟩ := h.readBits (show value < 2 ^ 8 by omega)
      refine ⟨r', ?_, hrest, by rw [hpos, toBits_length]⟩
      rw [BitReader.readVarintLoop, hread]
      simp only [Nat.mod_eq_of_lt hsmall, hsmall, if_true, merge_group hacc hsum]

theorem Ahead.readVarint {r : BitReader} {value : Nat} {rest : List Bool}
    (h : r.Ahead (BitWriter.varintBits 4 value ++ rest)) (hvalue : value < 2 ^ 32) :
    ∃ r', r.readVarint = (value, r') ∧ r'.Ahead rest ∧
      r'.bitPos = r.bitPos + (BitWriter.varintBits 4 value).length := by
  obtain ⟨r', hread, hrest⟩ := Ahead.readVarintLoop 0 0 h (by omega) (by omega)
    (by omega)
  exact ⟨r', by simpa [BitReader.readVarint] using hread, hrest⟩

theorem Ahead.readString {r : BitReader} {value : List UInt8} {rest : List Bool}
    (h : r.Ahead (BitWriter.stringBits value ++ rest)) (hvalue : value.length ≤ 1023) :
    ∃ r', r.readString = (value, r') ∧ r'.Ahead rest ∧
      r'.bitPos = r.bitPos + (BitWriter.stringBits value).length := by
  rw [BitWriter.stringBits, List.take_of_length_le hvalue] at h ⊢
  rw [List.append_assoc] at h
  obtain ⟨r₁, hlen, hnext, hpos₁⟩ := h.readVarint (by omega)
  obtain ⟨r₂, hdata, hrest, hpos₂⟩ := hnext.readByteLoop
  refine ⟨r₂, ?_, hrest, by rw [hpos₂, hpos₁, List.length_append, bytesBits_length]; omega⟩
  simp only [BitReader.readString, hlen, hdata, if_neg (Nat.not_lt.mpr hvalue)]

/-- A value within its range comes back from its offset to the minimum. -/
theorem Ahead.readRanged {r : BitReader} {value min max : Int} {rest : List Bool}
    (h : r.Ahead (toBits (BitWriter.bitsRequired min max) (value - min).toNat ++ rest))
    (hmin : min ≤ value) (hbits : (value - min).toNat < 2 ^ BitWriter.bitsRequired min max)
    (hwide : value - min < 2 ^ 31) :
    ∃ r', r.readRanged min max = (value, r') ∧ r'.Ahead rest ∧
      r'.bitPos = r.bitPos + BitWriter.bitsRequired min max := by
  obtain ⟨r', hread, hrest, hpos⟩ := h.readBits hbits
  refine ⟨r', ?_, hrest, hpos⟩
  rw [BitReader.readRanged, hread]
  refine Prod.ext ?_ rfl
  simp only [toI32, show (value - min).toNat < 2 ^ 31 by omega, if_true]
  omega

end BitReader
end Morton.Proto
