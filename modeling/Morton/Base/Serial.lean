import Mathlib.Data.Nat.ModEq
import Mathlib.Tactic.Ring

/-! Serial numbers: positions of an unbounded run seen modulo `2*half`, and slots
of a ring seen modulo its size. Positions that are close are told apart. -/
namespace Morton.Serial

/-- Circular comparison of two numbers below `2*half`. -/
def after (half a b : Nat) : Bool :=
  (decide (b < a) && decide (a - b ≤ half)) || (decide (a < b) && decide (half < b - a))

/-- Two positions less than one lap apart have different residues. -/
theorem eq_of_mod_eq {m p q : Nat} (h : p % m = q % m) (hp : p < q + m) (hq : q < p + m) :
    p = q := by
  rcases Nat.le_total p q with hle | hle
  · have := (Nat.modEq_iff_dvd' hle).mp h
    have := Nat.eq_zero_of_dvd_of_lt this (by omega)
    omega
  · have := (Nat.modEq_iff_dvd' hle).mp h.symm
    have := Nat.eq_zero_of_dvd_of_lt this (by omega)
    omega

/-- A step of less than one lap wraps at most once. -/
theorem mod_step {m p q : Nat} (hle : q ≤ p) (hlt : p < q + m) :
    (p % m = q % m + (p - q) ∧ q % m + (p - q) < m) ∨ p % m + m = q % m + (p - q) := by
  obtain ⟨d, rfl⟩ := Nat.exists_eq_add_of_le hle
  have hq := Nat.mod_lt q (show 0 < m by omega)
  have hsum : (q + d) % m = (q % m + d) % m := by simp [Nat.add_mod]
  rw [hsum, Nat.add_sub_cancel_left]
  by_cases hwrap : q % m + d < m
  · exact Or.inl ⟨Nat.mod_eq_of_lt hwrap, hwrap⟩
  · refine Or.inr ?_
    rw [Nat.mod_eq_sub_mod (by omega), Nat.mod_eq_of_lt (by omega)]
    omega

/-- Wrapping subtraction of residues gives the distance of positions. -/
theorem sub_mod {m p q : Nat} (hle : q ≤ p) (hlt : p < q + m) :
    (p % m + m - q % m) % m = p - q := by
  have hq := Nat.mod_lt q (show 0 < m by omega)
  rcases mod_step hle hlt with ⟨h, _⟩ | h
  · rw [show p % m + m - q % m = (p - q) + m by omega, Nat.add_mod_right,
      Nat.mod_eq_of_lt (by omega)]
  · rw [show p % m + m - q % m = p - q by omega, Nat.mod_eq_of_lt (by omega)]

/-- Circular comparison orders positions less than half a lap apart. -/
theorem after_mod (half : Nat) {p q : Nat} (hp : p < q + half) (hq : q < p + half) :
    after half (p % (2*half)) (q % (2*half)) = decide (q < p) := by
  have hpm := Nat.mod_lt p (show 0 < 2*half by omega)
  have hqm := Nat.mod_lt q (show 0 < 2*half by omega)
  rw [after, Bool.eq_iff_iff]
  simp only [Bool.or_eq_true, Bool.and_eq_true, decide_eq_true_eq]
  rcases Nat.le_total q p with hle | hle
  · rcases mod_step hle (show p < q + 2*half by omega) with ⟨h, _⟩ | h <;> omega
  · rcases mod_step hle (show q < p + 2*half by omega) with ⟨h, _⟩ | h <;> omega

/-- The newest of the first `count` positions with residue `s`. -/
def newest (m count s : Nat) : Option Nat :=
  if s < count then some (count - 1 - (count - 1 - s) % m) else none

theorem newest_eq_some_iff {m count s p : Nat} (hs : s < m) :
    newest m count s = some p ↔ p < count ∧ count ≤ p + m ∧ p % m = s := by
  have hm : 0 < m := Nat.zero_lt_of_lt hs
  have hsome : s < count → count - 1 - (count - 1 - s) % m < count ∧
      count ≤ count - 1 - (count - 1 - s) % m + m ∧
      (count - 1 - (count - 1 - s) % m) % m = s := by
    intro hlt
    have hdiv := Nat.mod_add_div (count - 1 - s) m
    have hrest := Nat.mod_lt (count - 1 - s) hm
    have hsplit : count - 1 - (count - 1 - s) % m = s + m * ((count - 1 - s) / m) := by omega
    refine ⟨by omega, by omega, ?_⟩
    rw [hsplit, Nat.add_mul_mod_self_left, Nat.mod_eq_of_lt hs]
  unfold newest
  constructor
  · intro h
    split at h
    next hlt =>
      obtain rfl := Option.some.inj h
      exact hsome hlt
    next => cases h
  · intro h
    obtain ⟨hp, hnear, hmod⟩ := h
    have hle : s ≤ p := hmod ▸ Nat.mod_le p m
    obtain ⟨hp', hnear', hmod'⟩ := hsome (by omega)
    rw [if_pos (by omega), Option.some.injEq]
    exact eq_of_mod_eq (hmod'.trans hmod.symm) (by omega) (by omega)

/-- Positions shifted by `m`; those below `m` stand for nothing. -/
theorem filterMap_range'_sub (m n q : Nat) :
    (List.range' q n).filterMap (fun i => if i < m then none else some (i - m)) =
      List.range' (q - m) (q + n - m - (q - m)) := by
  induction n generalizing q with
  | zero => simp
  | succ n ih =>
    rw [List.range'_succ, List.filterMap_cons, ih]
    by_cases hlt : q < m
    · have hsame : q + 1 - m = q - m := by omega
      have hcount : q + 1 + n = q + (n + 1) := by omega
      simp only [if_pos hlt, hsame, hcount]
    · have hnext : q + 1 - m = (q - m) + 1 := by omega
      have hcount : q + (n + 1) - m - (q - m) = (q + 1 + n - m - (q + 1 - m)) + 1 := by omega
      simp only [if_neg hlt, hnext, hcount, List.range'_succ]

end Morton.Serial
