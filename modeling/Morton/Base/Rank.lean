import Mathlib.Algebra.Order.Floor.Semiring
import Mathlib.Data.List.Sort
import Mathlib.Data.Rat.Floor
import Morton.Base.CountingSort

/-! Ranks in a list of numbers: how many are below each number, and which one has a given rank,
also where the rank asked for is a fraction. -/
namespace Morton.Rank

def below (l : List Nat) (i : Nat) : Nat := l.countP fun x => decide (x < i)

@[simp] theorem below_zero (l : List Nat) : below l 0 = 0 := by
  simp [below]

theorem below_succ (l : List Nat) (i : Nat) : below l (i + 1) = below l i + l.count i :=
  CountingSort.countP_lt_succ l i

theorem below_mono (l : List Nat) {i j : Nat} (h : i ≤ j) : below l i ≤ below l j := by
  apply List.countP_mono_left
  intro x _ hx
  simp only [decide_eq_true_eq] at hx ⊢
  omega

theorem below_all {l : List Nat} {n : Nat} (h : ∀ x ∈ l, x < n) : below l n = l.length := by
  apply List.countP_eq_length.mpr
  simpa using h

/-- In an ascending list the numbers below `i` stand first. -/
theorem lt_iff_lt_below {l : List Nat} (h : l.Pairwise (· ≤ ·)) {n x : Nat}
    (hx : l[n]? = some x) (i : Nat) : x < i ↔ n < below l i := by
  induction l generalizing n with
  | nil => cases hx
  | cons a l ih =>
    obtain ⟨hfirst, hrest⟩ := List.pairwise_cons.mp h
    unfold below at ih ⊢
    rw [List.countP_cons]
    by_cases ha : a < i
    · rw [if_pos (decide_eq_true ha)]
      cases n with
      | zero =>
        obtain rfl := Option.some.inj hx
        simp [ha]
      | succ n =>
        rw [ih hrest hx]
        omega
    · have hnone : l.countP (fun x => decide (x < i)) = 0 := by
        apply List.countP_eq_zero.mpr
        intro b hb
        have := hfirst b hb
        simp only [decide_eq_true_eq]
        omega
      have hle : a ≤ x := by
        cases n with
        | zero => exact Nat.le_of_eq (Option.some.inj hx)
        | succ n => exact hfirst x (List.mem_of_getElem? hx)
      simp [hnone, ha]
      omega

/-- The number at place `n` of an ascending list is the one whose ranks contain `n`. -/
theorem getElem?_of_below {l : List Nat} (h : l.Pairwise (· ≤ ·)) {n i : Nat}
    (hlow : below l i ≤ n) (hhigh : n < below l (i + 1)) : l[n]? = some i := by
  have hlt : n < l.length := Nat.lt_of_lt_of_le hhigh List.countP_le_length
  obtain ⟨x, hx⟩ : ∃ x, l[n]? = some x := ⟨_, List.getElem?_eq_getElem hlt⟩
  have hafter := lt_iff_lt_below h hx i
  have hupto := lt_iff_lt_below h hx (i + 1)
  rw [hx]
  congr 1
  omega

/-- The number in whose ranks a target falls, possibly a fraction. -/
def Holds (l : List Nat) (target : ℚ) (i : Nat) : Prop :=
  (below l i : ℚ) < target ∧ target ≤ below l (i + 1)

theorem Holds.mono {l : List Nat} {t t' : ℚ} {i j : Nat} (hi : Holds l t i) (hj : Holds l t' j)
    (h : t ≤ t') : i ≤ j := by
  by_contra hlt
  have hranks := below_mono l (show j + 1 ≤ i by omega)
  have hcast : (below l (j + 1) : ℚ) ≤ below l i := Nat.cast_le.mpr hranks
  exact absurd (hi.1.trans_le (h.trans hj.2)) (not_lt.mpr hcast)

/-- The target rounded up is the rank of that number. -/
theorem Holds.getElem? {l : List Nat} (h : l.Pairwise (· ≤ ·)) {target : ℚ} {i : Nat}
    (hi : Holds l target i) : l[⌈target⌉₊ - 1]? = some i := by
  have hlow : below l i < ⌈target⌉₊ := Nat.lt_ceil.mpr hi.1
  have hhigh : ⌈target⌉₊ ≤ below l (i + 1) := Nat.ceil_le.mpr hi.2
  exact getElem?_of_below h (by omega) (by omega)

end Morton.Rank
