import Morton.Base.Bits

/-! `BitWriter` and `BitReader`: the LSB-first bit stream every packet is built
with. Buffers are memories `Nat → UInt8`, so a stray write past the capacity
would be visible; `u32` sums that the source lets wrap wrap here too. -/
namespace Morton.Proto
open Bits

structure BitWriter where
  buffer : Nat → UInt8
  capacityBits : Nat
  bitPos : Nat := 0
  accumulator : Nat := 0
  pendingBits : Nat := 0
  flushedBytes : Nat := 0
  overflow : Bool := false

/-- One byte store through the caller's pointer. -/
def store (memory : Nat → UInt8) (index : Nat) (byte : UInt8) : Nat → UInt8 :=
  fun i => if i = index then byte else memory i

namespace BitWriter

def new (buffer : Nat → UInt8) (capacity : Nat) : BitWriter :=
  { buffer, capacityBits := capacity * 8 % 2 ^ 32 }

/-- The `while (pending_bits_ >= 8)` loop of `write_bits`. -/
def flushPending : Nat → BitWriter → BitWriter
  | 0, w => w
  | fuel+1, w =>
    if 8 ≤ w.pendingBits then
      flushPending fuel
        { w with
          buffer := store w.buffer w.flushedBytes (UInt8.ofNat w.accumulator)
          flushedBytes := w.flushedBytes + 1
          accumulator := w.accumulator >>> 8
          pendingBits := w.pendingBits - 8 }
    else w

@[irreducible] def writeBits (w : BitWriter) (value bits : Nat) : BitWriter :=
  if bits = 0 then w
  else if w.capacityBits < (w.bitPos + bits) % 2 ^ 32 then { w with overflow := true }
  else
    -- The argument is a `u32`; narrower fields are masked to their width.
    let value := if bits < 32 then value &&& (2 ^ bits - 1) else value % 2 ^ 32
    flushPending (w.pendingBits + bits)
      { w with
        accumulator := w.accumulator ||| value <<< w.pendingBits
        pendingBits := w.pendingBits + bits
        bitPos := w.bitPos + bits }

def writeBool (w : BitWriter) (value : Bool) : BitWriter := w.writeBits (if value then 1 else 0) 1
def writeU8 (w : BitWriter) (value : Nat) : BitWriter := w.writeBits value 8
def writeU16 (w : BitWriter) (value : Nat) : BitWriter := w.writeBits value 16
def writeU32 (w : BitWriter) (value : Nat) : BitWriter := w.writeBits value 32

def writeU64 (w : BitWriter) (value : Nat) : BitWriter :=
  (w.writeBits (value % 2 ^ 32) 32).writeBits (value / 2 ^ 32) 32

/-- Number of halvings until the range is exhausted; at least one bit. -/
def bitLength : Nat → Nat → Nat
  | 0, _ => 0
  | fuel+1, range => if 0 < range then bitLength fuel (range / 2) + 1 else 0

def bitsRequired (min max : Int) : Nat :=
  let bits := bitLength 32 ((max - min) % 2 ^ 32).toNat
  if bits = 0 then 1 else bits

def writeRanged (w : BitWriter) (value min max : Int) : BitWriter :=
  let bits := bitsRequired min max
  let value := if value < min then min else value
  let value := if max < value then max else value
  w.writeBits ((value - min) % 2 ^ 32).toNat bits

/-- A `u32` leaves through at most five 7-bit groups. -/
def writeVarintLoop : Nat → BitWriter → Nat → BitWriter
  | 0, w, value => w.writeBits (value % 128) 8
  | fuel+1, w, value =>
    if 128 ≤ value then writeVarintLoop fuel (w.writeBits (value % 128 + 128) 8) (value / 128)
    else w.writeBits (value % 128) 8

def writeVarint (w : BitWriter) (value : Nat) : BitWriter := writeVarintLoop 4 w value

def writeString (w : BitWriter) (value : List UInt8) : BitWriter :=
  let len := if 1023 < value.length then 1023 else value.length
  (value.take len).foldl (fun w b => w.writeU8 b.toNat) (w.writeVarint len)

/-- `memcpy` of `data` to `memory + offset`. -/
def copyBytes (memory : Nat → UInt8) (offset : Nat) (data : List UInt8) : Nat → UInt8 :=
  fun i => if offset ≤ i ∧ i < offset + data.length then data.getD (i - offset) 0 else memory i

@[irreducible] def writeBytes (w : BitWriter) (data : List UInt8) : BitWriter :=
  if w.pendingBits ≠ 0 then data.foldl (fun w b => w.writeU8 b.toNat) w
  else if w.capacityBits < w.bitPos + data.length * 8 then { w with overflow := true }
  else
    { w with
      buffer := copyBytes w.buffer w.flushedBytes data
      flushedBytes := w.flushedBytes + data.length
      bitPos := w.bitPos + data.length * 8 }

def align (w : BitWriter) : BitWriter :=
  let rem := w.bitPos % 8
  if rem ≠ 0 then w.writeBits 0 (8 - rem) else w

/-- Materialises the trailing partial byte and returns the length. -/
def bytesWritten (w : BitWriter) : Nat × BitWriter :=
  if 0 < w.pendingBits then
    (w.flushedBytes + 1,
      { w with buffer := store w.buffer w.flushedBytes (UInt8.ofNat w.accumulator) })
  else (w.flushedBytes, w)

def bitsRemaining (w : BitWriter) : Nat := (w.capacityBits + 2 ^ 32 - w.bitPos) % 2 ^ 32

/-- The finished packet: the first `bytes_written()` bytes of the buffer. -/
def bytes (w : BitWriter) : List UInt8 :=
  (List.range w.bytesWritten.1).map w.bytesWritten.2.buffer

end BitWriter

structure BitReader where
  buffer : Nat → UInt8
  capacityBits : Nat
  bitPos : Nat := 0
  overflow : Bool := false

namespace BitReader

def new (buffer : Nat → UInt8) (size : Nat) : BitReader :=
  { buffer, capacityBits := size * 8 % 2 ^ 32 }

/-- A byte string as the memory a pointer to it shows. -/
def view (data : List UInt8) : Nat → UInt8 := fun i => data.getD i 0

def ofBytes (data : List UInt8) : BitReader := new (view data) data.length

def readLoop : Nat → BitReader → Nat → Nat → Nat → Nat × BitReader
  | 0, r, result, _, _ => (result, r)
  | fuel+1, r, result, written, remaining =>
    if remaining = 0 then (result, r)
    else
      let byteIndex := r.bitPos / 8
      let bitOffset := r.bitPos % 8
      let availInByte := 8 - bitOffset
      let take := if remaining < availInByte then remaining else availInByte
      let chunk := (r.buffer byteIndex).toNat >>> bitOffset &&& (2 ^ take - 1)
      readLoop fuel { r with bitPos := r.bitPos + take } (result ||| chunk <<< written)
        (written + take) (remaining - take)

@[irreducible] def readBits (r : BitReader) (bits : Nat) : Nat × BitReader :=
  if bits = 0 then (0, r)
  else if r.capacityBits < (r.bitPos + bits) % 2 ^ 32 then (0, { r with overflow := true })
  else readLoop bits r 0 0 bits

def readBool (r : BitReader) : Bool × BitReader :=
  let (value, r) := r.readBits 1
  (value != 0, r)

def readU8 (r : BitReader) : Nat × BitReader := r.readBits 8
def readU16 (r : BitReader) : Nat × BitReader := r.readBits 16
def readU32 (r : BitReader) : Nat × BitReader := r.readBits 32

def readU64 (r : BitReader) : Nat × BitReader :=
  let (low, r) := r.readBits 32
  let (high, r) := r.readBits 32
  (low ||| high <<< 32, r)

/-- `static_cast<i32>` of a `u32` -/
def toI32 (value : Nat) : Int := if value < 2 ^ 31 then value else value - 2 ^ 32

/-- The sum is exact: past the ends of an `i32` the source leaves it open. -/
def readRanged (r : BitReader) (min max : Int) : Int × BitReader :=
  let (value, r) := r.readBits (BitWriter.bitsRequired min max)
  (toI32 value + min, r)

def readVarintLoop : Nat → BitReader → Nat → Nat → Nat × BitReader
  | 0, r, result, _ => (result, r)
  | fuel+1, r, result, shift =>
    let (byte, r) := r.readBits 8
    -- `result` is a `u32`: bits shifted past the top are lost.
    let result := (result ||| (byte % 128) <<< shift) % 2 ^ 32
    if byte < 128 then (result, r) else readVarintLoop fuel r result (shift + 7)

def readVarint (r : BitReader) : Nat × BitReader := readVarintLoop 5 r 0 0

def readByteLoop : Nat → BitReader → List UInt8 × BitReader
  | 0, r => ([], r)
  | n+1, r =>
    let (byte, r) := r.readU8
    let (rest, r) := readByteLoop n r
    (UInt8.ofNat byte :: rest, r)

def readString (r : BitReader) : List UInt8 × BitReader :=
  let (len, r) := r.readVarint
  if 1023 < len then ([], { r with overflow := true }) else readByteLoop len r

/-- Fills a zero-initialised destination of `count` bytes. -/
@[irreducible] def readBytes (r : BitReader) (count : Nat) : List UInt8 × BitReader :=
  if r.bitPos % 8 ≠ 0 then readByteLoop count r
  else if r.capacityBits < r.bitPos + count * 8 then
    (List.replicate count 0, { r with overflow := true })
  else
    ((List.range count).map fun i => r.buffer (r.bitPos / 8 + i),
      { r with bitPos := r.bitPos + count * 8 })

def align (r : BitReader) : BitReader :=
  let rem := r.bitPos % 8
  if rem ≠ 0 then (r.readBits (8 - rem)).2 else r

def bytesRead (r : BitReader) : Nat := (r.bitPos + 7) / 8

end BitReader
end Morton.Proto
