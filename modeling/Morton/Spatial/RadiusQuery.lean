import Morton.Spatial.Grid

/-! What a radius query visits, against all positions within the radius. A coordinate past the
range of the cast falls into the first cell of its axis, so a circle that reaches over it is
cut off. -/
namespace Morton.Spatial
open CountingSort Sim
namespace SpatialGrid

/-- The codes at which a query reads `cell_start_`, in order. -/
def queryCodes (g : SpatialGrid) (center : Vec2 ℚ) (radius : ℚ) : List Nat :=
  (upTo (g.cellXOf (center.y - radius)) (g.cellXOf (center.y + radius))).flatMap fun y =>
    (upTo (g.cellXOf (center.x - radius)) (g.cellXOf (center.x + radius))).map fun x =>
      spreadBits y <<< 1 ||| spreadBits x

theorem queryRadius_eq {g : SpatialGrid} (hcells : g.cellsPerAxis ≠ 0) (center : Vec2 ℚ)
    (radius : ℚ) : g.queryRadius center radius = (g.queryCodes center radius).flatMap g.bucket := by
  rw [queryRadius, if_neg hcells, queryCodes, List.flatMap_assoc]
  simp only [List.flatMap_map]

/-- A query of a grid over the positions it was built from. -/
structure Matches (g : SpatialGrid) (positions : List (Vec2 ℚ)) (center : Vec2 ℚ) (radius : ℚ) :
    Prop where
  once : (g.queryRadius center radius).Nodup
  reads : g.queryRadius center radius = (g.queryCodes center radius).flatMap g.bucket
  /-- `cell_start_` has one entry more than there are cells. -/
  starts : ∀ code ∈ g.queryCodes center radius, code + 1 < g.cellCount + 1
  sorted : ∀ code ∈ g.queryCodes center radius, g.cellStart (code + 1) ≤ g.count
  complete : ∀ i p, positions[i]? = some p → distanceSq p center ≤ radius * radius →
    i ∈ g.queryRadius center radius

/-- The coordinate falls into the first cell of its axis. -/
def First (g : SpatialGrid) (x : ℚ) : Prop :=
  g.cellsPerAxis = 1 ∨ x * g.invCellSize < 1 ∨ g.Overflows x

instance (g : SpatialGrid) (x : ℚ) : Decidable (g.First x) :=
  inferInstanceAs (Decidable (_ ∨ _))

/-- The cells between the borders of a circle on one axis contain that of a coordinate. -/
def Spans (g : SpatialGrid) (low high x : ℚ) : Prop :=
  ¬ g.Overflows high ∨ (g.First low ∧ g.First x)

instance (g : SpatialGrid) (low high x : ℚ) : Decidable (g.Spans low high x) :=
  inferInstanceAs (Decidable (_ ∨ _))

@[simp] theorem build_queryCodes (g : SpatialGrid) (positions : List (Vec2 ℚ)) :
    (g.build positions).queryCodes = g.queryCodes := by
  unfold queryCodes
  rw [build_cellXOf]

theorem configure_cellSize_pos {worldSize : ℚ} {cellsPerAxis : Nat} {g : SpatialGrid}
    (h : configure worldSize cellsPerAxis = some g) (hsize : 0 < worldSize) : 0 < g.cellSize := by
  unfold configure at h
  split at h
  · cases h
  next hok =>
    obtain rfl := Option.some.inj h
    have hcells : (0 : ℚ) < cellsPerAxis := by
      apply Nat.cast_pos.mpr
      omega
    exact div_pos hsize hcells

theorem configure_invCellSize {worldSize : ℚ} {cellsPerAxis : Nat} {g : SpatialGrid}
    (h : configure worldSize cellsPerAxis = some g) : g.invCellSize = 1 / g.cellSize := by
  unfold configure at h
  split at h
  · cases h
  · obtain rfl := Option.some.inj h
    rfl

theorem configure_inv_pos {worldSize : ℚ} {cellsPerAxis : Nat} {g : SpatialGrid}
    (h : configure worldSize cellsPerAxis = some g) (hsize : 0 < worldSize) :
    0 < g.invCellSize := by
  rw [configure_invCellSize h]
  exact one_div_pos.mpr (configure_cellSize_pos h hsize)

section
variable {g : SpatialGrid} (h : g.Tiled)
include h

theorem Tiled.first_iff {x : ℚ} : g.cellXOf x = 0 ↔ g.First x := by
  have hpos := h.pos
  have hone : g.cellsPerAxis ≤ 1 ↔ g.cellsPerAxis = 1 := by omega
  rw [cellXOf_eq_zero_iff, truncate_nonpos_iff, hone]
  rfl

/-- On one axis, what is between the borders is visited unless the upper border overflows. -/
theorem Tiled.spans_iff (hinv : 0 ≤ g.invCellSize) {low high x : ℚ} (hlow : low ≤ x)
    (hhigh : x ≤ high) :
    (g.cellXOf low ≤ g.cellXOf x ∧ g.cellXOf x ≤ g.cellXOf high) ↔ g.Spans low high x := by
  rw [Spans, ← h.first_iff, ← h.first_iff]
  by_cases hover : g.Overflows high
  · rw [cellXOf_of_overflows hover]
    simp only [hover, not_true, false_or]
    omega
  · have hx : ¬ g.Overflows x := fun hx =>
      hover (hx.trans (mul_le_mul_of_nonneg_right hhigh hinv))
    simp only [hover, not_false_eq_true, true_or, iff_true]
    exact ⟨cellXOf_mono hinv hx hlow, cellXOf_mono hinv hover hhigh⟩

theorem Tiled.covers_iff (hinv : 0 ≤ g.invCellSize) {center p : Vec2 ℚ} {radius : ℚ}
    (hradius : 0 ≤ radius) (hnear : distanceSq p center ≤ radius * radius) :
    g.Covers center radius p ↔
      g.Spans (center.x - radius) (center.x + radius) p.x ∧
        g.Spans (center.y - radius) (center.y + radius) p.y := by
  obtain ⟨⟨hleft, hright⟩, hbottom, htop⟩ := between_of_near hradius hnear
  rw [← h.spans_iff hinv hleft hright, ← h.spans_iff hinv hbottom htop, and_assoc]
  rfl

theorem Tiled.queryCodes_lt {center : Vec2 ℚ} {radius : ℚ} {code : Nat}
    (hcode : code ∈ g.queryCodes center radius) : code < g.cellCount := by
  rw [queryCodes, List.mem_flatMap] at hcode
  obtain ⟨y, hy, hcode⟩ := hcode
  obtain ⟨x, hx, rfl⟩ := List.mem_map.mp hcode
  rw [Nat.lor_comm]
  apply h.code_lt
  · exact (mem_upTo.mp hx).2.trans_lt (h.cellXOf_lt _)
  · exact (mem_upTo.mp hy).2.trans_lt (h.cellXOf_lt _)

/-- The last entry of `cell_start_` is the number of entities, and no other is larger. -/
theorem Tiled.cellStart_le (positions : List (Vec2 ℚ)) {code : Nat} (hcode : code ≤ g.cellCount) :
    (g.build positions).cellStart code ≤ (g.build positions).count := by
  rw [build, if_neg (Nat.ne_of_gt h.pos)]
  dsimp only
  rw [accumulate_tally, if_pos hcode, ← List.length_map (f := g.cellOf)]
  exact List.countP_le_length

end

/-- A query visits every index at most once and reads inside both arrays. It misses an index
within the radius exactly when, on one of the axes, the upper border of the circle is past the
range of the cast and the lower border or the position is not in the first cell. -/
theorem queryRadius_matches_iff {worldSize : ℚ} {cellsPerAxis : Nat} {g : SpatialGrid}
    (hconfigure : configure worldSize cellsPerAxis = some g) (hsize : 0 < worldSize)
    (positions : List (Vec2 ℚ)) (center : Vec2 ℚ) {radius : ℚ} (hradius : 0 ≤ radius) :
    (g.build positions).Matches positions center radius ↔
      ∀ p ∈ positions, distanceSq p center ≤ radius * radius →
        g.Spans (center.x - radius) (center.x + radius) p.x ∧
          g.Spans (center.y - radius) (center.y + radius) p.y := by
  have htiled := configure_tiled hconfigure
  have hinv := (configure_inv_pos hconfigure hsize).le
  constructor
  · intro hmatches p hp hnear
    obtain ⟨i, hi⟩ := List.getElem?_of_mem hp
    obtain ⟨q, hq, hcovers⟩ := htiled.mem_queryRadius.mp (hmatches.complete i p hi hnear)
    obtain rfl := Option.some.inj (hi.symm.trans hq)
    exact (htiled.covers_iff hinv hradius hnear).mp hcovers
  · intro hspans
    have hcodes : ∀ code ∈ (g.build positions).queryCodes center radius, code < g.cellCount := by
      intro code hcode
      rw [build_queryCodes] at hcode
      exact htiled.queryCodes_lt hcode
    have hcount : (g.build positions).cellCount = g.cellCount := by
      rw [cellCount, build_cellsPerAxis, cellCount]
    constructor
    case once => exact htiled.queryRadius_nodup positions center radius
    case reads =>
      apply queryRadius_eq
      rw [build_cellsPerAxis]
      exact Nat.ne_of_gt htiled.pos
    case starts =>
      intro code hcode
      rw [hcount]
      exact Nat.succ_lt_succ (hcodes code hcode)
    case sorted =>
      intro code hcode
      exact htiled.cellStart_le positions (hcodes code hcode)
    case complete =>
      intro i p hi hnear
      apply htiled.mem_queryRadius.mpr
      exact ⟨p, hi, (htiled.covers_iff hinv hradius hnear).mpr
        (hspans p (List.mem_of_getElem? hi) hnear)⟩

/-- Four cells on a world of size 2. -/
def quarters : SpatialGrid :=
  { worldSize := 2, cellSize := 2 / 2, cellsPerAxis := 2, invCellSize := 1 / (2 / 2) }

/-- A circle around the origin finds what is at its border, in the cell after the first. -/
theorem queryRadius_matches_iff_border :
    (quarters.build [⟨3 / 2, 0⟩]).Matches [⟨3 / 2, 0⟩] ⟨0, 0⟩ (3 / 2) := by
  have hconfigure : configure 2 2 = some quarters := rfl
  apply (queryRadius_matches_iff hconfigure (by norm_num) [⟨3 / 2, 0⟩] ⟨0, 0⟩ (by norm_num)).mpr
  decide +kernel

/-- A circle of 2^31 cells around the origin does not find it. -/
theorem wide_circle_misses :
    configure 2 2 = some quarters ∧ distanceSq ⟨3 / 2, 0⟩ ⟨0, 0⟩ ≤ (2 ^ 31 * 2 ^ 31 : ℚ) ∧
      ¬ (quarters.build [⟨3 / 2, 0⟩]).Matches [⟨3 / 2, 0⟩] ⟨0, 0⟩ (2 ^ 31) := by
  have hnear : distanceSq ⟨3 / 2, 0⟩ ⟨0, 0⟩ ≤ (2 ^ 31 * 2 ^ 31 : ℚ) := by
    norm_num [distanceSq]
  refine ⟨rfl, hnear, ?_⟩
  intro hmatches
  have htiled : quarters.Tiled := ⟨1, by norm_num, rfl⟩
  obtain ⟨p, hp, hcovers⟩ := htiled.mem_queryRadius.mp (hmatches.complete 0 ⟨3 / 2, 0⟩ rfl hnear)
  obtain rfl := Option.some.inj hp
  revert hcovers
  decide +kernel

end SpatialGrid
end Morton.Spatial
