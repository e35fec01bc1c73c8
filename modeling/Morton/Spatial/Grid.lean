import Mathlib.Algebra.Order.Field.Rat
import Mathlib.Data.List.Nodup
import Mathlib.Data.Rat.Floor
import Mathlib.Tactic.Linarith
import Mathlib.Tactic.NormNum
import Morton.Base.CountingSort
import Morton.Sim.World
import Morton.Spatial.MortonCode

/-! The uniform grid over the square world: buckets by Z-order code, radius queries and the
walk over neighbouring pairs. Coordinates are rationals. -/
namespace Morton.Spatial
open CountingSort Sim

def distanceSq (a b : Vec2 ℚ) : ℚ := (a.x - b.x) * (a.x - b.x) + (a.y - b.y) * (a.y - b.y)

structure SpatialGrid where
  worldSize : ℚ := 0
  cellSize : ℚ := 0
  invCellSize : ℚ := 0
  cellsPerAxis : Nat := 0
  /-- `cell_start_[0 .. cells]` and `sorted_[0 .. count)`. -/
  cellStart : Nat → Nat := fun _ => 0
  sorted : Nat → Nat := fun _ => 0
  count : Nat := 0

/-- The integer part is an `i32`. -/
def InRange (q : ℚ) : Prop := -2 ^ 31 - 1 < q ∧ q < 2 ^ 31

instance (q : ℚ) : Decidable (InRange q) := inferInstanceAs (Decidable (_ ∧ _))

/-- `static_cast<i32>`: towards zero. Out of range the language leaves the result open; this is
the one of the x86 instruction. -/
def truncate (q : ℚ) : Int := if InRange q then q.num.tdiv q.den else -2 ^ 31

namespace SpatialGrid

/-- `none` is a failed check. -/
def configure (worldSize : ℚ) (cellsPerAxis : Nat) : Option SpatialGrid :=
  if cellsPerAxis = 0 ∨ cellsPerAxis &&& (cellsPerAxis - 1) ≠ 0 ∨ 1024 < cellsPerAxis then none
  else
    let cellSize := worldSize / cellsPerAxis
    some { worldSize, cellSize, cellsPerAxis, invCellSize := 1 / cellSize }

def cellCount (g : SpatialGrid) : Nat := g.cellsPerAxis * g.cellsPerAxis

def cellXOf (g : SpatialGrid) (x : ℚ) : Nat :=
  let cell := truncate (x * g.invCellSize)
  let cell := if cell < 0 then 0 else cell
  let cell := if (g.cellsPerAxis : Int) ≤ cell then (g.cellsPerAxis : Int) - 1 else cell
  cell.toNat

def cellOf (g : SpatialGrid) (position : Vec2 ℚ) : Nat :=
  mortonEncode (g.cellXOf position.x) (g.cellXOf position.y)

/-- Buckets the positions; indices refer back into the caller's arrays. -/
def build (g : SpatialGrid) (positions : List (Vec2 ℚ)) : SpatialGrid :=
  if g.cellsPerAxis = 0 then g
  else
    let codes := positions.map g.cellOf
    let start := accumulate g.cellCount (tally codes)
    { g with cellStart := start, sorted := (scatter start codes).2, count := positions.length }

/-- The entities of one cell. -/
def bucket (g : SpatialGrid) (code : Nat) : List Nat :=
  slice g.sorted (g.cellStart code) (g.cellStart (code + 1))

def peakCellOccupancy (g : SpatialGrid) : Nat :=
  (List.range g.cellCount).foldl
    (fun peak c => max peak (g.cellStart (c + 1) - g.cellStart c)) 0

/-- `for (u16 i = first; i <= last; ++i)`. -/
def upTo (first last : Nat) : List Nat := List.range' first (last + 1 - first)

/-- The indices the callback is invoked on, in order. -/
def queryRadius (g : SpatialGrid) (center : Vec2 ℚ) (radius : ℚ) : List Nat :=
  if g.cellsPerAxis = 0 then []
  else
    (upTo (g.cellXOf (center.y - radius)) (g.cellXOf (center.y + radius))).flatMap fun y =>
      (upTo (g.cellXOf (center.x - radius)) (g.cellXOf (center.x + radius))).flatMap fun x =>
        g.bucket (spreadBits y <<< 1 ||| spreadBits x)

/-- Pairs of one bucket, the earlier entry first. -/
def innerPairs : List Nat → List (Nat × Nat)
  | [] => []
  | a :: rest => rest.map (fun b => (a, b)) ++ innerPairs rest

def kOffsets : List (Int × Int) := [(1, 0), (-1, 1), (0, 1), (1, 1)]

/-- The pairs the walk looks at from one cell. -/
def cellPairs (g : SpatialGrid) (x y : Nat) : List (Nat × Nat) :=
  let here := g.bucket (mortonEncode x y)
  if here.isEmpty then []
  else
    innerPairs here ++ kOffsets.flatMap fun (dx, dy) =>
      let nx : Int := x + dx
      let ny : Int := y + dy
      if nx < 0 ∨ ny < 0 ∨ (g.cellsPerAxis : Int) ≤ nx ∨ (g.cellsPerAxis : Int) ≤ ny then []
      else here.flatMap fun a => (g.bucket (mortonEncode nx.toNat ny.toNat)).map fun b => (a, b)

/-- All pairs the walk looks at, cell by cell. -/
def nearbyPairs (g : SpatialGrid) : List (Nat × Nat) :=
  (List.range g.cellsPerAxis).flatMap fun y =>
    (List.range g.cellsPerAxis).flatMap fun x => g.cellPairs x y

/-- The callback `fn` acts on a state in which it may move the positions; each pair is
measured where the calls before have left it. -/
def forEachPair {σ : Type} (g : SpatialGrid) (positions : σ → List (Vec2 ℚ)) (radius : ℚ)
    (fn : σ → Nat → Nat → σ) (s : σ) : σ :=
  g.nearbyPairs.foldl
    (fun s (a, b) =>
      match (positions s)[a]?, (positions s)[b]? with
      | some p, some q => if distanceSq p q ≤ radius * radius then fn s a b else s
      | _, _ => s) s

/-- What every call of the callback keeps. -/
theorem forEachPair_keeps {σ : Type} {P : σ → Prop} (g : SpatialGrid)
    (positions : σ → List (Vec2 ℚ)) (radius : ℚ) {fn : σ → Nat → Nat → σ}
    (hfn : ∀ s a b, P s → P (fn s a b)) {s : σ} (hs : P s) :
    P (g.forEachPair positions radius fn s) := by
  unfold forEachPair
  induction g.nearbyPairs generalizing s with
  | nil => exact hs
  | cons pair pairs ih =>
    rw [List.foldl_cons]
    apply ih
    dsimp only
    split
    · split
      · exact hfn s _ _ hs
      · exact hs
    · exact hs

/-- What `configure` leaves: a power of two of cells a side, at most 1024. -/
def Tiled (g : SpatialGrid) : Prop := ∃ k ≤ 10, g.cellsPerAxis = 2 ^ k

theorem power_of_two : ∀ n ≤ 1024, n ≠ 0 → n &&& (n - 1) = 0 → ∃ k ≤ 10, n = 2 ^ k := by
  decide +kernel

theorem configure_tiled {worldSize : ℚ} {cellsPerAxis : Nat} {g : SpatialGrid}
    (h : configure worldSize cellsPerAxis = some g) : g.Tiled := by
  unfold configure at h
  split at h
  · cases h
  next hok =>
    simp only [not_or, ne_eq, Classical.not_not, not_lt] at hok
    obtain ⟨hpos, hpower, hle⟩ := hok
    obtain rfl := Option.some.inj h
    exact power_of_two cellsPerAxis hle hpos hpower

section
variable {g : SpatialGrid} (h : g.Tiled)
include h

theorem Tiled.pos : 0 < g.cellsPerAxis := by
  obtain ⟨k, -, hk⟩ := h
  rw [hk]
  exact Nat.two_pow_pos k

theorem Tiled.lt {x : Nat} (hx : x < g.cellsPerAxis) : x < 2 ^ 16 := by
  obtain ⟨k, hk, hcells⟩ := h
  rw [hcells] at hx
  exact hx.trans_le (Nat.pow_le_pow_right (by omega) (by omega))

theorem Tiled.cellXOf_lt (x : ℚ) : g.cellXOf x < g.cellsPerAxis := by
  have hpos := h.pos
  unfold cellXOf
  dsimp only
  split
  · omega
  · omega

theorem Tiled.code_lt {x y : Nat} (hx : x < g.cellsPerAxis) (hy : y < g.cellsPerAxis) :
    mortonEncode x y < g.cellCount := by
  obtain ⟨k, hk, hcells⟩ := h
  rw [hcells] at hx hy
  rw [cellCount, hcells]
  exact mortonEncode_lt (by omega) hx hy

theorem Tiled.codes_lt (positions : List (Vec2 ℚ)) :
    ∀ c ∈ positions.map g.cellOf, c < g.cellCount := by
  intro c hc
  obtain ⟨p, -, rfl⟩ := List.mem_map.mp hc
  exact h.code_lt (h.cellXOf_lt p.x) (h.cellXOf_lt p.y)

theorem Tiled.bucket_build (positions : List (Vec2 ℚ)) {code : Nat} (hcode : code < g.cellCount) :
    (g.build positions).bucket code = indices (positions.map g.cellOf) code := by
  have hsorted := slice_sorted (positions.map g.cellOf) hcode (h.codes_lt positions)
  rw [bucket, build, if_neg (Nat.ne_of_gt h.pos)]
  exact hsorted

/-- An entity is in the bucket of the cell its position was in when the grid was built. -/
theorem Tiled.mem_bucket {positions : List (Vec2 ℚ)} {x y i : Nat} (hx : x < g.cellsPerAxis)
    (hy : y < g.cellsPerAxis) :
    i ∈ (g.build positions).bucket (mortonEncode x y) ↔
      ∃ p, positions[i]? = some p ∧ g.cellXOf p.x = x ∧ g.cellXOf p.y = y := by
  rw [h.bucket_build positions (h.code_lt hx hy), mem_indices, List.getElem?_map,
    Option.map_eq_some_iff]
  constructor
  · rintro ⟨p, hp, hcode⟩
    exact ⟨p, hp, mortonEncode_inj (h.lt (h.cellXOf_lt p.x)) (h.lt (h.cellXOf_lt p.y)) (h.lt hx)
      (h.lt hy) hcode⟩
  · rintro ⟨p, hp, rfl, rfl⟩
    exact ⟨p, hp, rfl⟩

end

theorem mem_upTo {first last i : Nat} : i ∈ upTo first last ↔ first ≤ i ∧ i ≤ last := by
  rw [upTo, List.mem_range'_1]
  omega

@[simp] theorem build_cellXOf (g : SpatialGrid) (positions : List (Vec2 ℚ)) :
    (g.build positions).cellXOf = g.cellXOf := by
  unfold build
  split
  · rfl
  · rfl

@[simp] theorem build_cellsPerAxis (g : SpatialGrid) (positions : List (Vec2 ℚ)) :
    (g.build positions).cellsPerAxis = g.cellsPerAxis := by
  unfold build
  split
  · rfl
  · rfl

/-- The cell lies in the rectangle of cells that the circle overlaps. -/
def Covers (g : SpatialGrid) (center : Vec2 ℚ) (radius : ℚ) (p : Vec2 ℚ) : Prop :=
  g.cellXOf (center.x - radius) ≤ g.cellXOf p.x ∧ g.cellXOf p.x ≤ g.cellXOf (center.x + radius) ∧
    g.cellXOf (center.y - radius) ≤ g.cellXOf p.y ∧ g.cellXOf p.y ≤ g.cellXOf (center.y + radius)

instance (g : SpatialGrid) (center : Vec2 ℚ) (radius : ℚ) (p : Vec2 ℚ) :
    Decidable (g.Covers center radius p) :=
  inferInstanceAs (Decidable (_ ∧ _))

/-- The coordinate is past the range of the cast. -/
def Overflows (g : SpatialGrid) (x : ℚ) : Prop := 2 ^ 31 ≤ x * g.invCellSize

instance (g : SpatialGrid) (x : ℚ) : Decidable (g.Overflows x) :=
  inferInstanceAs (Decidable (_ ≤ _))

theorem truncate_eq {q : ℚ} (h : InRange q) :
    truncate q = if 0 ≤ q then ⌊q⌋ else -⌊-q⌋ := by
  rw [truncate, if_pos h, Rat.floor_def', Rat.floor_def', Rat.num_neg_eq_neg_num,
    Rat.den_neg_eq_den]
  split
  next hq => rw [Int.tdiv_eq_ediv_of_nonneg (Rat.num_nonneg.mpr hq)]
  next hq =>
    have hneg : 0 ≤ -q.num := by
      have := Rat.num_neg.mpr (not_le.mp hq)
      omega
    rw [← Int.tdiv_eq_ediv_of_nonneg hneg, Int.neg_tdiv, neg_neg]

theorem truncate_mono {a b : ℚ} (ha : InRange a) (hb : InRange b) (hab : a ≤ b) :
    truncate a ≤ truncate b := by
  rw [truncate_eq ha, truncate_eq hb]
  by_cases hpos : 0 ≤ a
  · rw [if_pos hpos, if_pos (hpos.trans hab)]
    exact Int.floor_le_floor hab
  · have hle : -⌊-a⌋ ≤ 0 := by
      have : 0 ≤ ⌊-a⌋ := Int.floor_nonneg.mpr (by linarith [not_le.mp hpos])
      omega
    rw [if_neg hpos]
    split
    next hb => exact hle.trans (Int.floor_nonneg.mpr hb)
    next hb => exact neg_le_neg (Int.floor_le_floor (neg_le_neg hab))

theorem truncate_nonpos_iff {q : ℚ} : truncate q ≤ 0 ↔ q < 1 ∨ 2 ^ 31 ≤ q := by
  by_cases h : InRange q
  · have hhigh : ¬ 2 ^ 31 ≤ q := not_le.mpr h.2
    rw [truncate_eq h, or_iff_left hhigh]
    split
    next hpos =>
      rw [← Int.lt_add_one_iff, Int.floor_lt]
      norm_num
    next hneg =>
      have : 0 ≤ ⌊-q⌋ := Int.floor_nonneg.mpr (by linarith [not_le.mp hneg])
      exact ⟨fun _ => by linarith [not_le.mp hneg], fun _ => by omega⟩
  · rw [truncate, if_neg h]
    have hout : q < 1 ∨ 2 ^ 31 ≤ q := by
      rw [InRange, not_and_or, not_lt, not_lt] at h
      cases h with
      | inl h => exact Or.inl (by linarith)
      | inr h => exact Or.inr h
    exact ⟨fun _ => hout, fun _ => by norm_num⟩

theorem cellXOf_eq_zero_iff {g : SpatialGrid} {x : ℚ} :
    g.cellXOf x = 0 ↔ g.cellsPerAxis ≤ 1 ∨ truncate (x * g.invCellSize) ≤ 0 := by
  unfold cellXOf
  dsimp only
  split_ifs <;> omega

theorem cellXOf_of_overflows {g : SpatialGrid} {x : ℚ} (h : g.Overflows x) : g.cellXOf x = 0 :=
  cellXOf_eq_zero_iff.mpr (Or.inr (truncate_nonpos_iff.mpr (Or.inr h)))

/-- Up to the range of the cast, cells are in the order of the coordinates. -/
theorem cellXOf_mono {g : SpatialGrid} (hinv : 0 ≤ g.invCellSize) {a b : ℚ}
    (hb : ¬ g.Overflows b) (hab : a ≤ b) : g.cellXOf a ≤ g.cellXOf b := by
  have hscaled := mul_le_mul_of_nonneg_right hab hinv
  have hhigh := not_le.mp hb
  by_cases hlow : -2 ^ 31 - 1 < a * g.invCellSize
  · have hcell := truncate_mono ⟨hlow, hscaled.trans_lt hhigh⟩ ⟨hlow.trans_le hscaled, hhigh⟩ hscaled
    unfold cellXOf
    dsimp only
    generalize truncate (a * g.invCellSize) = i at hcell
    generalize truncate (b * g.invCellSize) = j at hcell
    apply Int.toNat_le_toNat
    split_ifs <;> omega
  · have hzero : g.cellXOf a = 0 := by
      apply cellXOf_eq_zero_iff.mpr
      exact Or.inr (truncate_nonpos_iff.mpr (Or.inl (by linarith [not_lt.mp hlow])))
    rw [hzero]
    exact Nat.zero_le _

/-- A distance on the plane bounds the distances on the axes. -/
theorem abs_le_of_near {p q : Vec2 ℚ} {radius : ℚ} (hradius : 0 ≤ radius)
    (hnear : distanceSq p q ≤ radius * radius) : |p.x - q.x| ≤ radius ∧ |p.y - q.y| ≤ radius := by
  unfold distanceSq at hnear
  constructor
  · apply abs_le_of_sq_le_sq _ hradius
    have := mul_self_nonneg (p.y - q.y)
    rw [pow_two, pow_two]
    linarith
  · apply abs_le_of_sq_le_sq _ hradius
    have := mul_self_nonneg (p.x - q.x)
    rw [pow_two, pow_two]
    linarith

/-- A point within the radius lies between the borders of the circle. -/
theorem between_of_near {center p : Vec2 ℚ} {radius : ℚ} (hradius : 0 ≤ radius)
    (hnear : distanceSq p center ≤ radius * radius) :
    (center.x - radius ≤ p.x ∧ p.x ≤ center.x + radius) ∧
      center.y - radius ≤ p.y ∧ p.y ≤ center.y + radius := by
  obtain ⟨hx, hy⟩ := abs_le_of_near hradius hnear
  rw [abs_le] at hx hy
  constructor
  · constructor
    · linarith [hx.1]
    · linarith [hx.2]
  · constructor
    · linarith [hy.1]
    · linarith [hy.2]

/-- A point within the radius is in a cell of the rectangle. -/
theorem covers_of_near {g : SpatialGrid} (hinv : 0 ≤ g.invCellSize) {center p : Vec2 ℚ}
    {radius : ℚ} (hradius : 0 ≤ radius) (hright : ¬ g.Overflows (center.x + radius))
    (htop : ¬ g.Overflows (center.y + radius)) (hnear : distanceSq p center ≤ radius * radius) :
    g.Covers center radius p := by
  obtain ⟨⟨hleft, hpx⟩, hbottom, hpy⟩ := between_of_near hradius hnear
  have hoverx : ¬ g.Overflows p.x := fun h => hright (h.trans (mul_le_mul_of_nonneg_right hpx hinv))
  have hovery : ¬ g.Overflows p.y := fun h => htop (h.trans (mul_le_mul_of_nonneg_right hpy hinv))
  exact ⟨cellXOf_mono hinv hoverx hleft, cellXOf_mono hinv hright hpx,
    cellXOf_mono hinv hovery hbottom, cellXOf_mono hinv htop hpy⟩

/-- A query visits the entities that were built in the cells of its rectangle. -/
theorem Tiled.mem_queryRadius {g : SpatialGrid} (h : g.Tiled) {positions : List (Vec2 ℚ)}
    {center : Vec2 ℚ} {radius : ℚ} {i : Nat} :
    i ∈ (g.build positions).queryRadius center radius ↔
      ∃ p, positions[i]? = some p ∧ g.Covers center radius p := by
  rw [queryRadius, build_cellsPerAxis, if_neg (Nat.ne_of_gt h.pos), build_cellXOf]
  simp only [List.mem_flatMap, mem_upTo]
  constructor
  · rintro ⟨y, ⟨hy, hy'⟩, x, ⟨hx, hx'⟩, hi⟩
    rw [Nat.lor_comm] at hi
    obtain ⟨p, hp, rfl, rfl⟩ := (h.mem_bucket (hx'.trans_lt (h.cellXOf_lt _))
      (hy'.trans_lt (h.cellXOf_lt _))).mp hi
    exact ⟨p, hp, hx, hx', hy, hy'⟩
  · rintro ⟨p, hp, hx, hx', hy, hy'⟩
    refine ⟨g.cellXOf p.y, ⟨hy, hy'⟩, g.cellXOf p.x, ⟨hx, hx'⟩, ?_⟩
    rw [Nat.lor_comm]
    exact (h.mem_bucket (h.cellXOf_lt _) (h.cellXOf_lt _)).mpr ⟨p, hp, rfl, rfl⟩

/-- Pieces without repetition make a list without repetition when an entry tells its piece. -/
theorem nodup_flatMap_of_unique {α β : Type} (Of : β → α → Prop)
    (hunique : ∀ {b a a'}, Of b a → Of b a' → a = a') {l : List α} (hl : l.Nodup)
    {f : α → List β} (hf : ∀ a ∈ l, (f a).Nodup) (hof : ∀ a ∈ l, ∀ b ∈ f a, Of b a) :
    (l.flatMap f).Nodup := by
  apply List.nodup_flatMap.mpr
  constructor
  · exact hf
  · apply List.Pairwise.imp_of_mem _ hl
    intro a a' ha ha' hne b hb hb'
    exact hne (hunique (hof a ha b hb) (hof a' ha' b hb'))

/-- Entity `i` was built in the cell. -/
def InCell (g : SpatialGrid) (positions : List (Vec2 ℚ)) (i x y : Nat) : Prop :=
  ∃ p, positions[i]? = some p ∧ g.cellXOf p.x = x ∧ g.cellXOf p.y = y

theorem InCell.unique {g : SpatialGrid} {positions : List (Vec2 ℚ)} {i x y x' y' : Nat}
    (h : g.InCell positions i x y) (h' : g.InCell positions i x' y') : x = x' ∧ y = y' := by
  obtain ⟨p, hp, hx, hy⟩ := h
  obtain ⟨p', hp', hx', hy'⟩ := h'
  obtain rfl := Option.some.inj (hp.symm.trans hp')
  exact ⟨hx.symm.trans hx', hy.symm.trans hy'⟩

theorem Tiled.bucket_ascending {g : SpatialGrid} (h : g.Tiled) (positions : List (Vec2 ℚ))
    {x y : Nat} (hx : x < g.cellsPerAxis) (hy : y < g.cellsPerAxis) :
    ((g.build positions).bucket (mortonEncode x y)).Pairwise (· < ·) := by
  rw [h.bucket_build positions (h.code_lt hx hy)]
  exact List.pairwise_lt_range.filter _

/-- No entity is visited twice. -/
theorem Tiled.queryRadius_nodup {g : SpatialGrid} (h : g.Tiled) (positions : List (Vec2 ℚ))
    (center : Vec2 ℚ) (radius : ℚ) : ((g.build positions).queryRadius center radius).Nodup := by
  rw [queryRadius, build_cellsPerAxis, if_neg (Nat.ne_of_gt h.pos), build_cellXOf]
  have hcell : ∀ {c b i}, i ∈ upTo c (g.cellXOf b) → i < g.cellsPerAxis :=
    fun hi => (mem_upTo.mp hi).2.trans_lt (h.cellXOf_lt _)
  simp only [Nat.lor_comm (spreadBits _ <<< 1)]
  apply nodup_flatMap_of_unique fun i y => ∃ x, g.InCell positions i x y
  case hunique =>
    intro i y y' hi hi'
    obtain ⟨x, hi⟩ := hi
    obtain ⟨x', hi'⟩ := hi'
    exact (hi.unique hi').2
  case hl => exact List.nodup_range' 1
  case hf =>
    intro y hy
    apply nodup_flatMap_of_unique fun i x => g.InCell positions i x y
    case hunique => exact fun hi hi' => (hi.unique hi').1
    case hl => exact List.nodup_range' 1
    case hf => exact fun x hx => (h.bucket_ascending positions (hcell hx) (hcell hy)).imp Nat.ne_of_lt
    case hof => exact fun x hx i hi => (h.mem_bucket (hcell hx) (hcell hy)).mp hi
  case hof =>
    intro y hy i hi
    obtain ⟨x, hx, hi⟩ := List.mem_flatMap.mp hi
    exact ⟨x, (h.mem_bucket (hcell hx) (hcell hy)).mp hi⟩

theorem Tiled.builds {g : SpatialGrid} (h : g.Tiled) (earlier : List (List (Vec2 ℚ))) :
    (earlier.foldl build g).Tiled := by
  induction earlier generalizing g with
  | nil => exact h
  | cons positions earlier ih =>
    apply ih
    unfold Tiled
    rwa [build_cellsPerAxis]

/-- Building is a stable bucketing, whatever was built before: the starts ascend from `0` to the
number of entities, `sorted` holds every entity once, and the part of a cell lists the entities
in it in the order of their indices. -/
theorem build_buckets {worldSize : ℚ} {cellsPerAxis : Nat} {fresh : SpatialGrid}
    (h : configure worldSize cellsPerAxis = some fresh) (earlier : List (List (Vec2 ℚ)))
    (positions : List (Vec2 ℚ)) :
    let g := (earlier.foldl build fresh).build positions
    g.cellStart 0 = 0 ∧ g.cellStart g.cellCount = positions.length ∧
    (∀ c c', c ≤ c' → c' ≤ g.cellCount → g.cellStart c ≤ g.cellStart c') ∧
    g.count = positions.length ∧ (slice g.sorted 0 g.count).Perm (List.range positions.length) ∧
    ∀ code < g.cellCount,
      (slice g.sorted (g.cellStart code) (g.cellStart (code + 1))).Pairwise (· < ·) ∧
      ∀ i, i ∈ slice g.sorted (g.cellStart code) (g.cellStart (code + 1)) ↔
        ∃ p, positions[i]? = some p ∧ g.cellOf p = code := by
  have htiled := (configure_tiled h).builds earlier
  generalize earlier.foldl build fresh = g at htiled
  have hcodes := htiled.codes_lt positions
  have hpos := Nat.ne_of_gt htiled.pos
  have hcount : (g.build positions).cellCount = g.cellCount := by
    rw [cellCount, build_cellsPerAxis, ← cellCount]
  have hcell : (g.build positions).cellOf = g.cellOf := by
    funext p
    rw [cellOf, build_cellXOf, ← cellOf]
  have hstart : (g.build positions).cellStart =
      accumulate g.cellCount (tally (positions.map g.cellOf)) := by
    rw [build, if_neg hpos]
  have hsize : (g.build positions).count = positions.length := by
    rw [build, if_neg hpos]
  intro built
  rw [hcount, hcell, hstart, hsize]
  refine ⟨start_zero _ _, ?_, fun c c' => start_mono _, rfl, ?_, ?_⟩
  · rw [start_last hcodes, List.length_map]
  · have hperm := sorted_perm hcodes
    rw [List.length_map] at hperm
    rwa [show built.sorted = _ by rw [show built = g.build positions from rfl, build, if_neg hpos]]
  · intro code hcode
    have hbucket := htiled.bucket_build positions hcode
    rw [bucket, hstart] at hbucket
    rw [hbucket]
    constructor
    · exact List.pairwise_lt_range.filter _
    · intro i
      rw [mem_indices, List.getElem?_map, Option.map_eq_some_iff]

theorem build_buckets_four :
    ∃ fresh, configure 8 4 = some fresh ∧
      let g := ([[⟨5, 1⟩]].foldl build fresh).build [⟨7, 7⟩, ⟨1, 1⟩, ⟨7, 7⟩]
      (slice g.sorted 0 g.count).Perm (List.range 3) := by
  have h : configure 8 4 = some _ := if_neg (by decide)
  exact ⟨_, h, (build_buckets h [[⟨5, 1⟩]] [⟨7, 7⟩, ⟨1, 1⟩, ⟨7, 7⟩]).2.2.2.2.1⟩

end SpatialGrid
end Morton.Spatial
