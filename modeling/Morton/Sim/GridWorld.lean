import Morton.Proto.Quantizer
import Morton.Sim.WorldRuns
import Morton.Spatial.Grid

/-! The world with its grid: a step integrates, builds the grid, then lets collisions move
positions once more. Square roots and the tie-breaking direction are parameters. -/
namespace Morton.Sim
open Spatial
open Proto (clampf)

structure WorldParams where
  size : ℚ := 2048
  playerRadius : ℚ := 8

/-- `std::sqrt`, and the unit vector at the angle of a tie-breaking hash. -/
structure CollisionMath where
  length : Vec2 ℚ → ℚ
  tieAxis : UInt32 → Vec2 ℚ

instance : Add (Vec2 ℚ) := ⟨fun a b => ⟨a.x + b.x, a.y + b.y⟩⟩

instance : Sub (Vec2 ℚ) := ⟨fun a b => ⟨a.x - b.x, a.y - b.y⟩⟩

instance : HMul (Vec2 ℚ) ℚ (Vec2 ℚ) := ⟨fun a s => ⟨a.x * s, a.y * s⟩⟩

section
variable (math : CollisionMath) (params : WorldParams)

/-- One call of the collision callback: the positions and the number of pairs. -/
def separate (ids : List Nat) (s : List (Vec2 ℚ) × Nat) (a b : Nat) : List (Vec2 ℚ) × Nat :=
  match s.1[a]?, s.1[b]? with
  | some p, some q =>
    let diameter := params.playerRadius * 2
    let delta := q - p
    let distance := math.length delta
    let (axis, distance) :=
      if distance < 1e-4 then
        (math.tieAxis (hashU32
          (UInt32.ofNat (ids.getD a 0) ^^^ UInt32.ofNat (ids.getD b 0) <<< 16)), 0)
      else (delta * (1 / distance), distance)
    let overlap := diameter - distance
    if overlap ≤ 0 then s
    else
      let correction := axis * (overlap * 0.5)
      ((s.1.modify a fun p => p - correction).modify b fun q => q + correction, s.2 + 1)
  | _, _ => s

def resolveCollisions (g : SpatialGrid) (ids : List Nat) (positions : List (Vec2 ℚ)) :
    List (Vec2 ℚ) × Nat :=
  let (moved, pairs) := g.forEachPair Prod.fst (params.playerRadius * 2)
    (separate math params ids) (positions, 0)
  let low := params.playerRadius
  let high := params.size - params.playerRadius
  (moved.map fun p => ⟨clampf p.x low high, clampf p.y low high⟩, pairs)

theorem separate_length (ids : List Nat) (s : List (Vec2 ℚ) × Nat) (a b : Nat) :
    (separate math params ids s a b).1.length = s.1.length := by
  unfold separate
  split
  · dsimp only
    split_ifs <;> simp only [List.length_modify]
  · rfl

theorem resolveCollisions_length (g : SpatialGrid) (ids : List Nat) (positions : List (Vec2 ℚ)) :
    (resolveCollisions math params g ids positions).1.length = positions.length := by
  have hkeeps : ∀ (s : List (Vec2 ℚ) × Nat) (a b : Nat), s.1.length = positions.length →
      (separate math params ids s a b).1.length = positions.length := fun s a b hs =>
    (separate_length math params ids s a b).trans hs
  rw [resolveCollisions, List.length_map]
  exact g.forEachPair_keeps Prod.fst (params.playerRadius * 2) hkeeps rfl

end

/-- A world and its grid. -/
structure GridWorld (A : Type) where
  params : WorldParams
  grid : SpatialGrid
  tiled : grid.Tiled
  world : World ℚ A := {}

namespace GridWorld
variable {A : Type}

/-- `none` is a failed check. -/
def configure (params : WorldParams) (cellsPerAxis : Nat) : Option (GridWorld A) :=
  match h : SpatialGrid.configure params.size cellsPerAxis with
  | none => none
  | some grid =>
    if grid.cellSize < params.playerRadius * 2 then none
    else some { params, grid, tiled := SpatialGrid.configure_tiled h }

variable (math : CollisionMath) (physics : Physics (MoveState ℚ) A) (drifterAxes : UInt32 → A)

/-- The floating-point part of a tick with collisions over this grid. -/
def simulation (w : GridWorld A) : Simulation ℚ A :=
  { physics with
    drifterAxes
    resolveCollisions := fun ids positions =>
      let grid := w.grid.build positions
      let (moved, pairs) := Sim.resolveCollisions math w.params grid ids positions
      (moved, pairs, grid.peakCellOccupancy)
    resolve_length := fun ids positions =>
      resolveCollisions_length math w.params (w.grid.build positions) ids positions }

/-- The world between integration and collisions. -/
def integrate (w : GridWorld A) (order : List Nat) : World ℚ A :=
  let sim := w.simulation math physics drifterAxes
  World.driveDrifters sim (World.applyInputs sim
    { w.world with stats := { w.world.stats with inputsApplied := 0, inputsStarved := 0 } } order)

/-- `World::step`: the grid that is left holds the positions before the collisions. -/
def step (w : GridWorld A) (order : List Nat) : GridWorld A where
  params := w.params
  grid := w.grid.build (w.integrate math physics drifterAxes order).entities.position
  tiled := by
    rw [SpatialGrid.Tiled, SpatialGrid.build_cellsPerAxis]
    exact w.tiled
  world := World.step (w.simulation math physics drifterAxes) w.world order

/-- The key of an entity that the query visits: its id and index, within the radius. -/
def gatherKey (w : GridWorld A) (eye : Vec2 ℚ) (aoiRadius : ℚ) (index : Nat) :
    Option (Nat × Nat) :=
  match w.world.entities.position[index]?, w.world.entities.id[index]? with
  | some position, some id =>
    if aoiRadius * aoiRadius < distanceSq position eye then none else some (id, index)
  | _, _ => none

/-- The keys `encode` gathers. -/
def gather (w : GridWorld A) (eye : Vec2 ℚ) (aoiRadius : ℚ) : List (Nat × Nat) :=
  (w.grid.queryRadius eye aoiRadius).filterMap (w.gatherKey eye aoiRadius)

theorem gatherKey_eq_some_iff {w : GridWorld A} {eye : Vec2 ℚ} {aoiRadius : ℚ} {index : Nat}
    {key : Nat × Nat} :
    w.gatherKey eye aoiRadius index = some key ↔ key.2 = index ∧
      ∃ position, w.world.entities.position[index]? = some position ∧
        w.world.entities.id[index]? = some key.1 ∧
        distanceSq position eye ≤ aoiRadius * aoiRadius := by
  unfold gatherKey
  constructor
  · intro h
    split at h
    next position id hposition hid =>
      split at h
      · cases h
      next hnear =>
        cases h
        exact ⟨rfl, position, hposition, hid, not_lt.mp hnear⟩
    · cases h
  · rintro ⟨rfl, position, hposition, hid, hnear⟩
    simp only [hposition, hid, if_neg (not_lt.mpr hnear)]

/-- Where the viewer is; without it `encode` returns 0. -/
def eye (w : GridWorld A) (viewer : Nat) : Option (Vec2 ℚ) :=
  w.world.entities.cell w.world.entities.position viewer

theorem settled_step (w : GridWorld A) (order : List Nat) :
    World.Settled w.world (w.step math physics drifterAxes order).world :=
  World.settled_step _ w.world order

/-- A step leaves the positions that collisions make of the ones the grid was built with. -/
theorem step_position (w : GridWorld A) (order : List Nat) :
    let before := (w.integrate math physics drifterAxes order).entities
    (w.step math physics drifterAxes order).world.entities.position =
      (Sim.resolveCollisions math w.params (w.grid.build before.position) before.id
        before.position).1 :=
  rfl

end GridWorld
end Morton.Sim
