import Mathlib.Data.List.Basic
import Mathlib.Data.Nat.Bitwise
import Mathlib.Tactic.Ring

/-! Numbers as fixed-width bit lists, least significant bit first, and byte
strings as the concatenation of their bytes. Nothing here is about a format. -/
namespace Morton.Bits

/-- The low `n` bits of `v`, least significant first. -/
def toBits : Nat → Nat → List Bool
  | 0, _ => []
  | n+1, v => decide (v % 2 = 1) :: toBits n (v / 2)

def ofBits : List Bool → Nat
  | [] => 0
  | b :: bs => b.toNat + 2 * ofBits bs

@[simp] theorem toBits_length (n v : Nat) : (toBits n v).length = n := by
  induction n generalizing v with
  | zero => rfl
  | succ n ih => simp [toBits, ih]

theorem ofBits_toBits (n v : Nat) : ofBits (toBits n v) = v % 2 ^ n := by
  induction n generalizing v with
  | zero => simp [toBits, ofBits, Nat.mod_one]
  | succ n ih =>
    rw [toBits, ofBits, ih, Nat.pow_succ', Nat.mod_mul]
    rcases Nat.mod_two_eq_zero_or_one v with h | h <;> simp [h]

theorem toBits_mod (n v : Nat) : toBits n (v % 2 ^ n) = toBits n v := by
  induction n generalizing v with
  | zero => rfl
  | succ n ih =>
    have hlow : v % 2 ^ (n+1) % 2 = v % 2 := by
      rw [Nat.pow_succ', Nat.mod_mul_right_mod]
    have hhigh : v % 2 ^ (n+1) / 2 = v / 2 % 2 ^ n := by
      rw [Nat.pow_succ', Nat.mod_mul_right_div_self]
    simp only [toBits, hlow, hhigh, ih]

/-- A field of `m+n` bits is its low `m` bits followed by the rest. -/
theorem toBits_add (m n v : Nat) : toBits (m+n) v = toBits m v ++ toBits n (v / 2 ^ m) := by
  induction m generalizing v with
  | zero => simp [toBits]
  | succ m ih =>
    rw [show m+1+n = (m+n)+1 by omega, toBits, toBits, ih, Nat.div_div_eq_div_mul,
      ← Nat.pow_succ', List.cons_append]

/-- Placing `v` above `m` low bits of `a` writes `a` first, then `v`. -/
theorem toBits_pack (m n a v : Nat) (h : a < 2 ^ m) :
    toBits (m+n) (a ||| v <<< m) = toBits m a ++ toBits n v := by
  have hsum : a ||| v <<< m = 2 ^ m * v + a := by
    rw [Nat.two_pow_add_eq_or_of_lt h, Nat.lor_comm, Nat.shiftLeft_eq, Nat.mul_comm]
  have hpos : 0 < 2 ^ m := Nat.two_pow_pos m
  rw [hsum, toBits_add, ← toBits_mod m, Nat.mul_add_mod, Nat.mod_eq_of_lt h,
    Nat.mul_add_div hpos, Nat.div_eq_of_lt h, Nat.add_zero]

theorem ofBits_append (xs ys : List Bool) :
    ofBits (xs ++ ys) = ofBits xs + 2 ^ xs.length * ofBits ys := by
  induction xs with
  | nil => simp [ofBits]
  | cons x xs ih =>
    simp only [List.cons_append, ofBits, ih, List.length_cons, Nat.pow_succ']
    ring

theorem ofBits_lt (xs : List Bool) : ofBits xs < 2 ^ xs.length := by
  induction xs with
  | nil => simp [ofBits]
  | cons x xs ih =>
    rw [ofBits, List.length_cons, Nat.pow_succ']
    cases x <;> simp <;> omega

/-- The bits of a byte string. -/
def bytesBits (bytes : List UInt8) : List Bool :=
  bytes.flatMap fun b => toBits 8 b.toNat

@[simp] theorem bytesBits_nil : bytesBits [] = [] := rfl

@[simp] theorem bytesBits_cons (b : UInt8) (bs : List UInt8) :
    bytesBits (b :: bs) = toBits 8 b.toNat ++ bytesBits bs := rfl

@[simp] theorem bytesBits_append (xs ys : List UInt8) :
    bytesBits (xs ++ ys) = bytesBits xs ++ bytesBits ys := by
  simp [bytesBits]

@[simp] theorem bytesBits_length (bytes : List UInt8) :
    (bytesBits bytes).length = 8 * bytes.length := by
  induction bytes with
  | nil => rfl
  | cons b bs ih => simp only [bytesBits_cons, List.length_append, toBits_length, ih,
      List.length_cons]; omega

/-- Bit `i` of a memory: bit `i % 8` of byte `i / 8`. -/
def bitAt (memory : Nat → UInt8) (i : Nat) : Bool :=
  (memory (i / 8)).toNat.testBit (i % 8)

/-- The `n` bits of a memory from position `pos` on. -/
def slice (memory : Nat → UInt8) (pos n : Nat) : List Bool :=
  (List.range n).map fun k => bitAt memory (pos+k)

@[simp] theorem slice_length (memory : Nat → UInt8) (pos n : Nat) :
    (slice memory pos n).length = n := by
  simp [slice]

theorem slice_add (memory : Nat → UInt8) (pos m n : Nat) :
    slice memory pos (m+n) = slice memory pos m ++ slice memory (pos+m) n := by
  simp [slice, List.range_add, Function.comp_def, Nat.add_assoc]

theorem toBits_eq_map (n v : Nat) : toBits n v = (List.range n).map v.testBit := by
  induction n generalizing v with
  | zero => rfl
  | succ n ih =>
    rw [toBits, ih, List.range_succ_eq_map, List.map_cons, List.map_map]
    have htail : (v / 2).testBit = v.testBit ∘ Nat.succ := by
      funext i
      simp [Nat.testBit_succ]
    rw [htail, Nat.testBit_zero]

/-- The part of one byte that starts at bit `o` and has `n` bits. -/
theorem slice_in_byte (memory : Nat → UInt8) (pos n : Nat) (h : pos % 8 + n ≤ 8) :
    slice memory pos n = toBits n ((memory (pos / 8)).toNat >>> (pos % 8)) := by
  rw [toBits_eq_map, slice]
  refine List.map_congr_left fun k hk => ?_
  have hk : k < n := List.mem_range.mp hk
  rw [bitAt, Nat.testBit_shiftRight, show (pos+k) / 8 = pos / 8 by omega,
    show (pos+k) % 8 = pos % 8 + k by omega]

theorem slice_bytes (memory : Nat → UInt8) (k n : Nat) :
    slice memory (8*k) (8*n) = bytesBits ((List.range n).map fun i => memory (k+i)) := by
  induction n with
  | zero => rfl
  | succ n ih =>
    have hbyte := slice_in_byte memory (8*k+8*n) 8 (by omega)
    have hoff : (8*k+8*n) % 8 = 0 := by omega
    have hidx : (8*k+8*n) / 8 = k+n := by omega
    rw [hoff, hidx, Nat.shiftRight_zero] at hbyte
    rw [show 8*(n+1) = 8*n+8 by omega, slice_add, ih, hbyte, List.range_succ, List.map_append,
      bytesBits_append]
    simp [bytesBits]

theorem bytesBits_inj {xs ys : List UInt8} (h : bytesBits xs = bytesBits ys) : xs = ys := by
  induction xs generalizing ys with
  | nil =>
    cases ys with
    | nil => rfl
    | cons y ys =>
      have hlen := congrArg List.length h
      rw [bytesBits_length, bytesBits_length, List.length_cons, List.length_nil] at hlen
      omega
  | cons x xs ih =>
    cases ys with
    | nil =>
      have hlen := congrArg List.length h
      rw [bytesBits_length, bytesBits_length, List.length_cons, List.length_nil] at hlen
      omega
    | cons y ys =>
      rw [bytesBits_cons, bytesBits_cons] at h
      obtain ⟨hhead, htail⟩ := List.append_inj h (by simp)
      have hx := congrArg ofBits hhead
      rw [ofBits_toBits, ofBits_toBits, Nat.mod_eq_of_lt x.toNat_lt, Nat.mod_eq_of_lt y.toNat_lt]
        at hx
      rw [UInt8.toNat_inj.mp hx, ih htail]

end Morton.Bits
