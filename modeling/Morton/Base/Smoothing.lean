import Mathlib.Algebra.Order.Field.Basic
import Mathlib.Tactic.Linarith

/-! Exponential smoothing: a step from the target towards the sample. It stays between bounds
that hold for both. -/
namespace Morton.Smoothing
variable {K : Type*} [Field K] [LinearOrder K] [IsStrictOrderedRing K]

def smooth (rate target sample : K) : K := target + (sample - target) * rate

/-- The first sample is taken as it is. -/
def blend (started : Bool) (rate target sample : K) : K :=
  if started then smooth rate target sample else sample

variable {rate target sample low high : K}

theorem le_smooth (hnonneg : 0 ≤ rate) (hle : rate ≤ 1) (htarget : low ≤ target)
    (hsample : low ≤ sample) : low ≤ smooth rate target sample := by
  have htoward := mul_le_mul_of_nonneg_right (sub_le_sub_right hsample target) hnonneg
  have hkept := mul_nonneg (sub_nonneg.mpr htarget) (sub_nonneg.mpr hle)
  unfold smooth
  linarith

theorem smooth_le (hnonneg : 0 ≤ rate) (hle : rate ≤ 1) (htarget : target ≤ high)
    (hsample : sample ≤ high) : smooth rate target sample ≤ high := by
  have htoward := mul_le_mul_of_nonneg_right (sub_le_sub_right hsample target) hnonneg
  have hkept := mul_nonneg (sub_nonneg.mpr htarget) (sub_nonneg.mpr hle)
  unfold smooth
  linarith

theorem blend_mem (started : Bool) (hnonneg : 0 ≤ rate) (hle : rate ≤ 1)
    (htarget : low ≤ target ∧ target ≤ high) (hsample : low ≤ sample ∧ sample ≤ high) :
    low ≤ blend started rate target sample ∧ blend started rate target sample ≤ high := by
  cases started with
  | false => exact hsample
  | true =>
    exact ⟨le_smooth hnonneg hle htarget.1 hsample.1, smooth_le hnonneg hle htarget.2 hsample.2⟩

end Morton.Smoothing
