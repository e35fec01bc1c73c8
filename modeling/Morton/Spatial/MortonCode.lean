import Mathlib.Data.Nat.Bitwise
import Mathlib.Data.Set.Function

/-! Z-order codes of grid cells: the bits of the coordinates interleaved. -/
namespace Morton.Spatial

def spreadBits (value : Nat) : Nat :=
  let x := value
  let x := (x ||| x <<< 8) &&& 0x00ff00ff
  let x := (x ||| x <<< 4) &&& 0x0f0f0f0f
  let x := (x ||| x <<< 2) &&& 0x33333333
  (x ||| x <<< 1) &&& 0x55555555

def compactBits (value : Nat) : Nat :=
  let x := value &&& 0x55555555
  let x := (x ||| x >>> 1) &&& 0x33333333
  let x := (x ||| x >>> 2) &&& 0x0f0f0f0f
  let x := (x ||| x >>> 4) &&& 0x00ff00ff
  let x := (x ||| x >>> 8) &&& 0x0000ffff
  x % 2 ^ 16

def mortonEncode (cellX cellY : Nat) : Nat := spreadBits cellX ||| spreadBits cellY <<< 1

def mortonDecode (code : Nat) : Nat × Nat := (compactBits code, compactBits (code >>> 1))

/-- Bits in groups of `size`, with gaps of the same size between them: what the bit at each of the
32 positions is, given the sequence of bits. -/
def Groups (size : Nat) (bits : Nat → Bool) (x : Nat) : Prop :=
  ∀ j < 32, x.testBit j =
    (decide (j % (2 * size) < size) && bits (j / (2 * size) * size + j % size))

section
variable (size mask : Nat) (hsize : size = 1 ∨ size = 2 ∨ size = 4 ∨ size = 8)
  {bits : Nat → Bool} {x : Nat}
include hsize

/-- A step of `spreadBits` halves the groups. -/
theorem Groups.spread (hx : Groups (2 * size) bits x)
    (hmask : ∀ j < 32, mask.testBit j = decide (j % (2 * size) < size)) :
    Groups size bits ((x ||| x <<< size) &&& mask) := by
  intro j hj
  rw [Nat.testBit_and, Nat.testBit_or, Nat.testBit_shiftLeft, hmask j hj, hx j hj]
  by_cases hgroup : j % (2 * size) < size
  · by_cases hlow : j % (2 * (2 * size)) < 2 * size
    · -- the bit stays; nothing is shifted onto it
      have hnone : (decide (size ≤ j) && x.testBit (j - size)) = false := by
        by_cases hle : size ≤ j
        · have hgap : ¬ (j - size) % (2 * (2 * size)) < 2 * size := by
            obtain rfl | rfl | rfl | rfl := hsize <;> omega
          rw [hx (j - size) (by omega), decide_eq_false hgap, Bool.false_and, Bool.and_false]
        · rw [decide_eq_false hle, Bool.false_and]
      have hplace : j / (2 * (2 * size)) * (2 * size) + j % (2 * size) =
          j / (2 * size) * size + j % size := by
        obtain rfl | rfl | rfl | rfl := hsize <;> omega
      rw [hnone, hplace, decide_eq_true hgroup, decide_eq_true hlow]
      simp
    · -- the bit comes from the upper half of its group
      have hle : size ≤ j := by
        obtain rfl | rfl | rfl | rfl := hsize <;> omega
      have hupper : (j - size) % (2 * (2 * size)) < 2 * size := by
        obtain rfl | rfl | rfl | rfl := hsize <;> omega
      have hplace : (j - size) / (2 * (2 * size)) * (2 * size) + (j - size) % (2 * size) =
          j / (2 * size) * size + j % size := by
        obtain rfl | rfl | rfl | rfl := hsize <;> omega
      rw [hx (j - size) (by omega), hplace, decide_eq_true hgroup, decide_eq_false hlow,
        decide_eq_true hupper, decide_eq_true hle]
      simp
  · rw [decide_eq_false hgroup, Bool.and_false, Bool.false_and]

/-- A step of `compactBits` doubles the groups. -/
theorem Groups.compact (hx : Groups size bits x)
    (hmask : ∀ j < 32, mask.testBit j = decide (j % (2 * (2 * size)) < 2 * size)) :
    Groups (2 * size) bits ((x ||| x >>> size) &&& mask) := by
  intro j hj
  rw [Nat.testBit_and, Nat.testBit_or, Nat.testBit_shiftRight, hmask j hj, hx j hj]
  by_cases hgroup : j % (2 * (2 * size)) < 2 * size
  · have hnext : size + j < 32 := by
      obtain rfl | rfl | rfl | rfl := hsize <;> omega
    rw [hx (size + j) hnext]
    by_cases hlow : j % (2 * size) < size
    · -- the bit stays; nothing is shifted onto it
      have hgap : ¬ (size + j) % (2 * size) < size := by
        obtain rfl | rfl | rfl | rfl := hsize <;> omega
      have hplace : j / (2 * size) * size + j % size =
          j / (2 * (2 * size)) * (2 * size) + j % (2 * size) := by
        obtain rfl | rfl | rfl | rfl := hsize <;> omega
      rw [hplace, decide_eq_true hgroup, decide_eq_true hlow, decide_eq_false hgap]
      simp
    · -- the bit comes from the group above
      have hupper : (size + j) % (2 * size) < size := by
        obtain rfl | rfl | rfl | rfl := hsize <;> omega
      have hplace : (size + j) / (2 * size) * size + (size + j) % size =
          j / (2 * (2 * size)) * (2 * size) + j % (2 * size) := by
        obtain rfl | rfl | rfl | rfl := hsize <;> omega
      rw [hplace, decide_eq_true hgroup, decide_eq_false hlow, decide_eq_true hupper]
      simp
  · rw [decide_eq_false hgroup, Bool.and_false, Bool.false_and]

end

theorem testBit_high {value k j : Nat} (h : value < 2 ^ k) (hj : k ≤ j) :
    value.testBit j = false :=
  Nat.testBit_lt_two_pow (h.trans_le (Nat.pow_le_pow_right (by omega) hj))

theorem spreadBits_lt (value : Nat) : spreadBits value < 2 ^ 31 :=
  Nat.lt_of_le_of_lt Nat.and_le_right (by decide)

theorem groups_together {value : Nat} (h : value < 2 ^ 16) : Groups 16 value.testBit value := by
  intro j hj
  by_cases hlow : j < 16
  · have hgroup : j % (2 * 16) < 16 := by omega
    have hplace : j / (2 * 16) * 16 + j % 16 = j := by omega
    rw [decide_eq_true hgroup, hplace, Bool.true_and]
  · have hgap : ¬ j % (2 * 16) < 16 := by omega
    rw [testBit_high h (by omega), decide_eq_false hgap, Bool.false_and]

/-- Bit `i` of a 16-bit value goes to position `2 * i`. -/
theorem testBit_spreadBits {value : Nat} (h : value < 2 ^ 16) (j : Nat) :
    (spreadBits value).testBit j = (decide (j % 2 = 0) && value.testBit (j / 2)) := by
  by_cases hj : j < 32
  · have h8 := (groups_together h).spread 8 0x00ff00ff (by decide) (by decide)
    have h4 := h8.spread 4 0x0f0f0f0f (by decide) (by decide)
    have h2 := h4.spread 2 0x33333333 (by decide) (by decide)
    have h1 := h2.spread 1 0x55555555 (by decide) (by decide)
    have hplace : j / (2 * 1) * 1 + j % 1 = j / 2 := by omega
    rw [spreadBits, h1 j hj, hplace]
    simp
  · rw [testBit_high (spreadBits_lt value) (by omega), testBit_high h (by omega : 16 ≤ j / 2),
      Bool.and_false]

theorem compactBits_lt (value : Nat) : compactBits value < 2 ^ 16 :=
  Nat.mod_lt _ (by decide)

theorem groups_alternate (value : Nat) :
    Groups 1 (fun i => value.testBit (2 * i)) (value &&& 0x55555555) := by
  intro j hj
  have hmask : ∀ j < 32, Nat.testBit 0x55555555 j = decide (j % (2 * 1) < 1) := by decide
  rw [Nat.testBit_and, hmask j hj, Bool.and_comm]
  by_cases heven : j % (2 * 1) < 1
  · have hplace : 2 * (j / (2 * 1) * 1 + j % 1) = j := by omega
    dsimp only
    rw [hplace]
  · rw [decide_eq_false heven, Bool.false_and, Bool.false_and]

/-- Position `2 * i` of a code comes back as bit `i`. -/
theorem testBit_compactBits (value : Nat) {i : Nat} (hi : i < 16) :
    (compactBits value).testBit i = value.testBit (2 * i) := by
  have h2 := (groups_alternate value).compact 1 0x33333333 (by decide) (by decide)
  have h4 := h2.compact 2 0x0f0f0f0f (by decide) (by decide)
  have h8 := h4.compact 4 0x00ff00ff (by decide) (by decide)
  have h16 := h8.compact 8 0x0000ffff (by decide) (by decide)
  have hgroup : i % (2 * (2 * 8)) < 2 * 8 := by omega
  have hplace : i / (2 * (2 * 8)) * (2 * 8) + i % (2 * 8) = i := by omega
  rw [compactBits, Nat.testBit_mod_two_pow, decide_eq_true hi, Bool.true_and, h16 i (by omega),
    decide_eq_true hgroup, hplace, Bool.true_and]

/-- A code below `4 ^ k` has coordinates below `2 ^ k`. -/
theorem compactBits_lt_two_pow {k value : Nat} (h : value < 4 ^ k) : compactBits value < 2 ^ k := by
  have hcode : value < 2 ^ (2 * k) := by rwa [Nat.pow_mul]
  apply Nat.lt_pow_two_of_testBit
  intro i hi
  by_cases hlow : i < 16
  · rw [testBit_compactBits value hlow]
    exact testBit_high hcode (by omega)
  · exact testBit_high (compactBits_lt value) (by omega)

section
variable {x y : Nat} (hx : x < 2 ^ 16) (hy : y < 2 ^ 16)
include hx hy

/-- Even positions hold the bits of `x`, odd ones those of `y`. -/
theorem testBit_mortonEncode (j : Nat) :
    (mortonEncode x y).testBit j = if j % 2 = 0 then x.testBit (j / 2) else y.testBit (j / 2) := by
  rw [mortonEncode, Nat.testBit_or, Nat.testBit_shiftLeft, testBit_spreadBits hx,
    testBit_spreadBits hy]
  by_cases heven : j % 2 = 0
  · have hodd : decide ((j - 1) % 2 = 0) = decide (j = 0) := by
      rw [decide_eq_decide]
      omega
    rw [if_pos heven, hodd]
    cases j with
    | zero => simp
    | succ j => simp [heven]
  · have hhalf : (j - 1) / 2 = j / 2 := by omega
    rw [if_neg heven, hhalf]
    simp [heven, show 1 ≤ j by omega, show (j - 1) % 2 = 0 by omega]

theorem mortonEncode_inj {x' y' : Nat} (hx' : x' < 2 ^ 16) (hy' : y' < 2 ^ 16)
    (h : mortonEncode x y = mortonEncode x' y') : x = x' ∧ y = y' := by
  constructor
  · refine Nat.eq_of_testBit_eq fun i => ?_
    have hbit := congrArg (fun code => code.testBit (2 * i)) h
    simpa [testBit_mortonEncode hx hy, testBit_mortonEncode hx' hy'] using hbit
  · refine Nat.eq_of_testBit_eq fun i => ?_
    have hbit := congrArg (fun code => code.testBit (2 * i + 1)) h
    have hhalf : (2 * i + 1) / 2 = i := by omega
    simpa [testBit_mortonEncode hx hy, testBit_mortonEncode hx' hy', hhalf] using hbit

theorem mortonDecode_mortonEncode : mortonDecode (mortonEncode x y) = (x, y) := by
  have hx' : compactBits (mortonEncode x y) = x := by
    apply Nat.eq_of_testBit_eq
    intro i
    by_cases hi : i < 16
    · rw [testBit_compactBits _ hi, testBit_mortonEncode hx hy]
      simp
    · rw [testBit_high (compactBits_lt _) (by omega), testBit_high hx (by omega)]
  have hy' : compactBits (mortonEncode x y >>> 1) = y := by
    apply Nat.eq_of_testBit_eq
    intro i
    by_cases hi : i < 16
    · rw [testBit_compactBits _ hi, Nat.testBit_shiftRight, testBit_mortonEncode hx hy,
        if_neg (by omega), show (1 + 2 * i) / 2 = i by omega]
    · rw [testBit_high (compactBits_lt _) (by omega), testBit_high hy (by omega)]
  rw [mortonDecode, hx', hy']

end

theorem mortonEncode_mortonDecode {code : Nat} (h : code < 2 ^ 32) :
    mortonEncode (mortonDecode code).1 (mortonDecode code).2 = code := by
  apply Nat.eq_of_testBit_eq
  intro j
  rw [mortonDecode, testBit_mortonEncode (compactBits_lt _) (compactBits_lt _)]
  by_cases hj : j < 32
  · split
    · rw [testBit_compactBits _ (by omega), show 2 * (j / 2) = j by omega]
    · rw [testBit_compactBits _ (by omega), Nat.testBit_shiftRight,
        show 1 + 2 * (j / 2) = j by omega]
  · rw [testBit_high h (by omega), testBit_high (compactBits_lt _) (by omega),
      testBit_high (compactBits_lt _) (by omega), ite_self]

/-- The codes of a square of `2 ^ k` cells a side stay below its number of cells. -/
theorem mortonEncode_lt {k x y : Nat} (hk : k ≤ 16) (hx : x < 2 ^ k) (hy : y < 2 ^ k) :
    mortonEncode x y < 2 ^ k * 2 ^ k := by
  have hle : 2 ^ k ≤ 2 ^ 16 := Nat.pow_le_pow_right (by omega) hk
  rw [← Nat.pow_add]
  refine Nat.lt_pow_two_of_testBit _ fun i hi => ?_
  rw [testBit_mortonEncode (hx.trans_le hle) (hy.trans_le hle)]
  split
  · exact testBit_high hx (by omega)
  · exact testBit_high hy (by omega)

/-- The codes of a square of `2 ^ k` cells a side are exactly the numbers below its number of
cells, one for each cell, and decoding finds the cell again. -/
theorem mortonEncode_tiles (k : Nat) (hk : k ≤ 16) :
    Set.BijOn (fun cell : Nat × Nat => mortonEncode cell.1 cell.2)
      {cell | cell.1 < 2 ^ k ∧ cell.2 < 2 ^ k} {code | code < 4 ^ k} ∧
    (∀ x y i, x < 2 ^ k → y < 2 ^ k →
      (mortonEncode x y).testBit (2 * i) = x.testBit i ∧
      (mortonEncode x y).testBit (2 * i + 1) = y.testBit i) ∧
    (∀ x y, x < 2 ^ 16 → y < 2 ^ 16 → mortonDecode (mortonEncode x y) = (x, y)) ∧
    ∀ code < 2 ^ 32, (mortonDecode code).1 < 2 ^ 16 ∧ (mortonDecode code).2 < 2 ^ 16 ∧
      mortonEncode (mortonDecode code).1 (mortonDecode code).2 = code := by
  have hside : 2 ^ k ≤ 2 ^ 16 := Nat.pow_le_pow_right (by omega) hk
  have hcodes : 4 ^ k ≤ 2 ^ 32 := Nat.pow_le_pow_right (n := 4) (by omega) hk
  have hsquare : 4 ^ k = 2 ^ k * 2 ^ k := by
    rw [← Nat.mul_pow]
  have hinv : Set.InvOn mortonDecode (fun cell : Nat × Nat => mortonEncode cell.1 cell.2)
      {cell | cell.1 < 2 ^ k ∧ cell.2 < 2 ^ k} {code | code < 4 ^ k} := by
    constructor
    · intro cell hcell
      exact mortonDecode_mortonEncode (hcell.1.trans_le hside) (hcell.2.trans_le hside)
    · intro code hcode
      exact mortonEncode_mortonDecode (hcode.trans_le hcodes)
  have hbij := hinv.bijOn
    (fun cell hcell => by
      show mortonEncode cell.1 cell.2 < 4 ^ k
      rw [hsquare]
      exact mortonEncode_lt hk hcell.1 hcell.2)
    (fun code hcode => ⟨compactBits_lt_two_pow hcode, compactBits_lt_two_pow
      (Nat.lt_of_le_of_lt (Nat.shiftRight_le code 1) hcode)⟩)
  refine ⟨hbij, ?_, fun x y => mortonDecode_mortonEncode, ?_⟩
  · intro x y i hx hy
    rw [testBit_mortonEncode (hx.trans_le hside) (hy.trans_le hside),
      testBit_mortonEncode (hx.trans_le hside) (hy.trans_le hside), if_pos (by omega),
      if_neg (by omega), show 2 * i / 2 = i by omega, show (2 * i + 1) / 2 = i by omega]
    exact ⟨rfl, rfl⟩
  · intro code hcode
    exact ⟨compactBits_lt _, compactBits_lt _, mortonEncode_mortonDecode hcode⟩

theorem mortonEncode_tiles_fine :
    Set.BijOn (fun cell : Nat × Nat => mortonEncode cell.1 cell.2)
      {cell | cell.1 < 2 ^ 16 ∧ cell.2 < 2 ^ 16} {code | code < 4 ^ 16} ∧
    mortonDecode (mortonEncode 0x89ab 0xf003) = (0x89ab, 0xf003) :=
  ⟨(mortonEncode_tiles 16 (by decide)).1,
    (mortonEncode_tiles 16 (by decide)).2.2.1 0x89ab 0xf003 (by decide) (by decide)⟩

end Morton.Spatial
