import Mathlib.Algebra.Order.Field.Rat
import Mathlib.Algebra.Order.Floor.Semiring
import Mathlib.Data.Rat.Floor
import Mathlib.Tactic.FieldSimp
import Mathlib.Tactic.Linarith
import Mathlib.Tactic.Positivity
import Mathlib.Tactic.Ring
import Morton.Proto.Messages

/-! `Quantizer`: values of an interval as numbers of a fixed width, in exact arithmetic. Every
number is the code of the value it stands for. -/
namespace Morton.Proto

def clampf (v lo hi : ℚ) : ℚ := if v < lo then lo else if hi < v then hi else v

structure Quantizer where
  min : ℚ
  max : ℚ
  bits : Nat

namespace Quantizer

def levels (q : Quantizer) : Nat := if 32 ≤ q.bits then 2 ^ 32 - 1 else 2 ^ q.bits - 1

/-- The cast to `u32` drops the fraction. -/
def encode (q : Quantizer) (value : ℚ) : Nat :=
  let clamped := clampf value q.min q.max
  let normalized := (clamped - q.min) / (q.max - q.min)
  ⌊normalized * q.levels + 1 / 2⌋₊

def decode (q : Quantizer) (quantized : Nat) : ℚ :=
  let normalized := (quantized : ℚ) / q.levels
  q.min + normalized * (q.max - q.min)

/-- A value as both sides see it. -/
def snap (q : Quantizer) (value : ℚ) : ℚ := q.decode (q.encode value)

theorem clampf_mem {v lo hi : ℚ} (h : lo ≤ hi) : lo ≤ clampf v lo hi ∧ clampf v lo hi ≤ hi := by
  unfold clampf
  split_ifs with hlow hhigh
  · exact ⟨le_rfl, h⟩
  · exact ⟨h, le_rfl⟩
  · exact ⟨not_lt.mp hlow, not_lt.mp hhigh⟩

theorem clampf_of_mem {v lo hi : ℚ} (hlow : lo ≤ v) (hhigh : v ≤ hi) : clampf v lo hi = v := by
  rw [clampf, if_neg (not_lt.mpr hlow), if_neg (not_lt.mpr hhigh)]

theorem clampf_clampf {v lo hi : ℚ} (h : lo ≤ hi) :
    clampf (clampf v lo hi) lo hi = clampf v lo hi :=
  clampf_of_mem (clampf_mem h).1 (clampf_mem h).2

theorem clampf_mono {v w lo hi : ℚ} (h : lo ≤ hi) (hvw : v ≤ w) :
    clampf v lo hi ≤ clampf w lo hi := by
  unfold clampf
  split_ifs <;> linarith

variable {q : Quantizer}

theorem levels_of_bits (hbits : q.bits ≤ 31) : q.levels = 2 ^ q.bits - 1 := by
  rw [levels, if_neg (by omega)]

theorem levels_pos (hlow : 1 ≤ q.bits) (hbits : q.bits ≤ 31) : 0 < q.levels := by
  rw [levels_of_bits hbits]
  have := Nat.pow_le_pow_right (show 0 < 2 by decide) hlow
  omega

theorem encode_clampf (h : q.min < q.max) (value : ℚ) :
    q.encode (clampf value q.min q.max) = q.encode value := by
  simp only [encode, clampf_clampf h.le]

theorem encode_le (h : q.min < q.max) (value : ℚ) : q.encode value ≤ q.levels := by
  have hwidth : 0 < q.max - q.min := by linarith
  obtain ⟨-, hhigh⟩ := clampf_mem (v := value) h.le
  have hnormal : (clampf value q.min q.max - q.min) / (q.max - q.min) ≤ 1 := by
    rw [div_le_one hwidth]
    linarith
  have hlevels : (0 : ℚ) ≤ q.levels := Nat.cast_nonneg _
  apply Nat.lt_succ_iff.mp
  apply Nat.floor_lt' (Nat.succ_ne_zero _) |>.mpr
  push_cast
  nlinarith

theorem encode_lt (h : q.min < q.max) (hbits : q.bits ≤ 31) (value : ℚ) :
    q.encode value < 2 ^ q.bits := by
  have hle := encode_le h value
  have hpos : 0 < 2 ^ q.bits := Nat.two_pow_pos q.bits
  rw [levels_of_bits hbits] at hle
  omega

/-- Encoding the value of a code gives the code back. -/
theorem encode_decode (h : q.min < q.max) {quantized : Nat} (hlevels : quantized ≤ q.levels)
    (hpos : 0 < q.levels) : q.encode (q.decode quantized) = quantized := by
  have hwidth : 0 < q.max - q.min := by linarith
  have hpos : (0 : ℚ) < q.levels := Nat.cast_pos.mpr hpos
  have hle : (quantized : ℚ) / q.levels ≤ 1 := by
    rw [div_le_one hpos]
    exact_mod_cast hlevels
  have hnonneg : (0 : ℚ) ≤ quantized / q.levels := by positivity
  have hclamp : clampf (q.decode quantized) q.min q.max = q.decode quantized := by
    apply clampf_of_mem
    · have := mul_nonneg hnonneg hwidth.le
      simp only [decode]
      linarith
    · have := mul_le_mul_of_nonneg_right hle hwidth.le
      simp only [decode]
      linarith
  have hnormal : (q.decode quantized - q.min) / (q.max - q.min) * q.levels = quantized := by
    simp only [decode]
    field_simp
    ring
  simp only [encode, hclamp, hnormal]
  apply Nat.floor_eq_iff (by positivity) |>.mpr
  constructor <;> linarith

/-- Quantizing twice is quantizing once. -/
theorem encode_decode_encode (h : q.min < q.max) (hpos : 0 < q.levels) (value : ℚ) :
    q.encode (q.decode (q.encode value)) = q.encode value :=
  encode_decode h (encode_le h value) hpos

theorem encode_mono (h : q.min < q.max) : Monotone q.encode := by
  intro v w hvw
  have hwidth : 0 < q.max - q.min := by linarith
  have hclamp := clampf_mono h.le hvw
  have hnormal : (clampf v q.min q.max - q.min) / (q.max - q.min) ≤
      (clampf w q.min q.max - q.min) / (q.max - q.min) := by
    apply div_le_div_of_nonneg_right _ hwidth.le
    linarith
  have hlevels : (0 : ℚ) ≤ q.levels := Nat.cast_nonneg _
  apply Nat.floor_le_floor
  have := mul_le_mul_of_nonneg_right hnormal hlevels
  linarith

/-- A code stands for a value within half a step. -/
theorem snap_near (h : q.min < q.max) (hpos : 0 < q.levels) (value : ℚ) :
    |q.snap value - clampf value q.min q.max| ≤ (q.max - q.min) / q.levels / 2 := by
  have hwidth : 0 < q.max - q.min := by linarith
  have hlevels : (0 : ℚ) < q.levels := Nat.cast_pos.mpr hpos
  obtain ⟨hlow, -⟩ := clampf_mem (v := value) h.le
  have hstep : 0 < (q.max - q.min) / q.levels := div_pos hwidth hlevels
  have hscaled : 0 ≤ (clampf value q.min q.max - q.min) / (q.max - q.min) * q.levels :=
    mul_nonneg (div_nonneg (by linarith) hwidth.le) hlevels.le
  have hbelow := Nat.floor_le (add_nonneg hscaled (show (0 : ℚ) ≤ 1 / 2 by norm_num))
  have habove := Nat.lt_floor_add_one
    ((clampf value q.min q.max - q.min) / (q.max - q.min) * q.levels + 1 / 2)
  -- the error of the code, in steps
  have herror : q.snap value - clampf value q.min q.max =
      ((q.encode value : ℚ) - (clampf value q.min q.max - q.min) / (q.max - q.min) * q.levels) *
        ((q.max - q.min) / q.levels) := by
    simp only [snap, decode]
    field_simp
    ring
  have hhalf : |(q.encode value : ℚ) -
      (clampf value q.min q.max - q.min) / (q.max - q.min) * q.levels| ≤ 1 / 2 := by
    rw [abs_le]
    unfold encode
    constructor
    · linarith
    · linarith
  calc |q.snap value - clampf value q.min q.max|
      _ ≤ 1 / 2 * ((q.max - q.min) / q.levels) := by
        rw [herror, abs_mul, abs_of_pos hstep]
        exact mul_le_mul_of_nonneg_right hhalf hstep.le
      _ = (q.max - q.min) / q.levels / 2 := by ring

theorem snap_snap (h : q.min < q.max) (hpos : 0 < q.levels) (value : ℚ) :
    q.snap (q.snap value) = q.snap value := by
  simp only [snap, encode_decode_encode h hpos]

/-- Clamping before quantizing changes nothing. -/
theorem snap_clampf (h : q.min < q.max) (value : ℚ) :
    q.snap (clampf value q.min q.max) = q.snap value := by
  simp only [snap, encode_clampf h]

end Quantizer

def inputAxisQuantizer : Quantizer := { min := -1, max := 1, bits := kAxisBits }

theorem inputAxisQuantizer_levels : inputAxisQuantizer.levels = 255 := rfl

/-- `quantize_input` on the axes. -/
def quantizeInput (axes : ℚ × ℚ) : ℚ × ℚ :=
  (inputAxisQuantizer.snap (clampf axes.1 (-1) 1), inputAxisQuantizer.snap (clampf axes.2 (-1) 1))

/-- The axes of a command as exact numbers. -/
def AxisQuantizer.exact : AxisQuantizer (ℚ × ℚ) where
  encode axes := (inputAxisQuantizer.encode axes.1, inputAxisQuantizer.encode axes.2)
  decode codes := (inputAxisQuantizer.decode codes.1, inputAxisQuantizer.decode codes.2)
  encode_lt axes := by
    have hrange : inputAxisQuantizer.min < inputAxisQuantizer.max := by
      norm_num [inputAxisQuantizer]
    have hx := Quantizer.encode_le hrange axes.1
    have hy := Quantizer.encode_le hrange axes.2
    rw [inputAxisQuantizer_levels] at hx hy
    unfold kAxisBits
    dsimp only
    omega

end Morton.Proto
