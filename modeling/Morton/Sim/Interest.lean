import Morton.Sim.GridWorld

/-! What a viewer is shown: the entities `encode` gathers through the grid against those
that are within the radius. The grid is older than the positions. -/
namespace Morton.Sim
open Spatial
namespace GridWorld
variable {A : Type}

/-- The ids of all entities within the radius. -/
def relevant (w : GridWorld A) (eye : Vec2 ℚ) (aoiRadius : ℚ) : List Nat :=
  (w.world.entities.id.zip w.world.entities.position).filterMap fun (id, position) =>
    if distanceSq position eye ≤ aoiRadius * aoiRadius then some id else none

section
variable {w : GridWorld A} {eye : Vec2 ℚ} {aoiRadius : ℚ}

theorem mem_gather {id i : Nat} :
    (id, i) ∈ w.gather eye aoiRadius ↔ i ∈ w.grid.queryRadius eye aoiRadius ∧
      ∃ position, w.world.entities.position[i]? = some position ∧
        w.world.entities.id[i]? = some id ∧ distanceSq position eye ≤ aoiRadius * aoiRadius := by
  rw [gather, List.mem_filterMap]
  constructor
  · intro h
    obtain ⟨j, hj, hkey⟩ := h
    obtain ⟨rfl, hfound⟩ := gatherKey_eq_some_iff.mp hkey
    exact ⟨hj, hfound⟩
  · intro h
    obtain ⟨hi, hfound⟩ := h
    exact ⟨i, hi, gatherKey_eq_some_iff.mpr ⟨rfl, hfound⟩⟩

theorem mem_relevant {id : Nat} :
    id ∈ w.relevant eye aoiRadius ↔ ∃ (i : Nat) (position : Vec2 ℚ),
      w.world.entities.position[i]? = some position ∧ w.world.entities.id[i]? = some id ∧
        distanceSq position eye ≤ aoiRadius * aoiRadius := by
  rw [relevant, List.mem_filterMap]
  constructor
  · rintro ⟨⟨id', position⟩, hmem, hout⟩
    obtain ⟨i, hi⟩ := List.getElem?_of_mem hmem
    obtain ⟨hid, hposition⟩ := List.getElem?_zip_eq_some.mp hi
    dsimp only at hout
    split at hout
    next hnear =>
      cases hout
      exact ⟨i, position, hposition, hid, hnear⟩
    · cases hout
  · rintro ⟨i, position, hposition, hid, hnear⟩
    exact ⟨(id, position),
      List.mem_of_getElem? (List.getElem?_zip_eq_some.mpr ⟨hid, hposition⟩), if_pos hnear⟩

end

variable (math : CollisionMath) (physics : Physics (MoveState ℚ) A) (drifterAxes : UInt32 → A)

section
variable (w : GridWorld A) (order : List Nat)

theorem before_length :
    (w.integrate math physics drifterAxes order).entities.position.length =
      (w.step math physics drifterAxes order).world.entities.position.length := by
  rw [step_position]
  exact (resolveCollisions_length _ _ _ _ _).symm

/-- What a query of the grid finds after a step. -/
theorem mem_query_step {eye : Vec2 ℚ} {aoiRadius : ℚ} {i : Nat} :
    i ∈ (w.step math physics drifterAxes order).grid.queryRadius eye aoiRadius ↔
      ∃ before, (w.integrate math physics drifterAxes order).entities.position[i]? = some before ∧
        w.grid.Covers eye aoiRadius before :=
  w.tiled.mem_queryRadius

/-- A step leaves a viewer what is within the radius of it exactly when every entity there
was, before the collisions, in one of the cells that the query visits. -/
theorem gathered_iff_covered (hstore : w.world.entities.WF) (eye : Vec2 ℚ) (aoiRadius : ℚ) :
    let before := (w.integrate math physics drifterAxes order).entities.position
    let after := w.step math physics drifterAxes order
    (∀ id, id ∈ (after.gather eye aoiRadius).map Prod.fst ↔ id ∈ after.relevant eye aoiRadius) ↔
      ∀ (i : Nat) (p q : Vec2 ℚ), before[i]? = some p → after.world.entities.position[i]? = some q →
        distanceSq q eye ≤ aoiRadius * aoiRadius → w.grid.Covers eye aoiRadius p := by
  intro before after
  have hwf : after.world.entities.WF := (w.settled_step math physics drifterAxes order).store hstore
  have hlength : before.length = after.world.entities.position.length :=
    w.before_length math physics drifterAxes order
  constructor
  · intro h i p q hp hq hnear
    have hi : i < after.world.entities.id.length := by
      have := (List.getElem?_eq_some_iff.mp hq).1
      rwa [hwf.position] at this
    have hid := List.getElem?_eq_getElem hi
    obtain ⟨⟨id, j⟩, hj, heq⟩ := List.mem_map.mp ((h _).mpr (mem_relevant.mpr ⟨i, q, hq, hid, hnear⟩))
    obtain ⟨hquery, q', -, hid', -⟩ := mem_gather.mp hj
    -- an id stands at one index only
    have hsame : j = i := by
      have hfind := (hwf.index _ j).mpr hid'
      dsimp only at heq
      rw [heq, (hwf.index _ i).mpr hid] at hfind
      exact (Option.some.inj hfind).symm
    obtain ⟨p', hp', hcovers⟩ := (w.mem_query_step math physics drifterAxes order).mp hquery
    rw [hsame] at hp'
    exact Option.some.inj (hp'.symm.trans hp) ▸ hcovers
  · intro h id
    constructor
    · intro hgathered
      obtain ⟨⟨id, i⟩, hi, rfl⟩ := List.mem_map.mp hgathered
      exact mem_relevant.mpr ⟨i, (mem_gather.mp hi).2⟩
    · intro hrelevant
      obtain ⟨i, q, hq, hid, hnear⟩ := mem_relevant.mp hrelevant
      have hi : i < before.length := by
        rw [hlength]
        exact (List.getElem?_eq_some_iff.mp hq).1
      have hp := List.getElem?_eq_getElem hi
      have hquery := (w.mem_query_step math physics drifterAxes order).mpr
        ⟨_, hp, h i _ q hp hq hnear⟩
      exact List.mem_map.mpr ⟨(id, i), mem_gather.mpr ⟨hquery, q, hq, hid, hnear⟩, rfl⟩

end

/-- Nothing moves by itself. -/
def idle : Physics (MoveState ℚ) Unit where
  stepMovement s _ := s
  quantizeInput := id
  decode _ := ⟨⟨0, 0⟩, ⟨0, 0⟩⟩
  initial := ⟨⟨0, 0⟩, ⟨0, 0⟩⟩
  centered := ()

/-- Distances along the axes, where the square root is exact. -/
def onAxis : CollisionMath where
  length v := |v.x| + |v.y|
  tieAxis _ := ⟨1, 0⟩

/-- Players at these places of a world of two by two cells. -/
def gathering (places : List (Vec2 ℚ)) : GridWorld Unit where
  params := {}
  grid := (SpatialGrid.configure 2048 2).getD {}
  tiled := ⟨1, by decide, by decide +kernel⟩
  world := places.foldl (fun w place => (w.spawnPlayer () (w.nextEntity + 1) place).2) {}

theorem gathering_rowed (places : List (Vec2 ℚ)) : (gathering places).world.Rowed := by
  have hfold : ∀ (places : List (Vec2 ℚ)) (w : World ℚ Unit), w.Rowed →
      (places.foldl (fun w place => (w.spawnPlayer () (w.nextEntity + 1) place).2) w).Rowed := by
    intro places
    induction places with
    | nil => exact fun w h => h
    | cons place places ih =>
      intro w h
      have hrightful : w.Rightful (.spawnPlayer (w.nextEntity + 1) place) :=
        Nat.succ_ne_zero w.nextEntity
      exact ih _ (World.rowed_act ((gathering []).simulation onAxis idle fun _ => ()) h hrightful)
  exact hfold places {} World.rowed_empty

/-- Players 2 and 3 collide next to the border between two cells and stay in theirs; 4 is
too far away in the cell of player 1, and 5 in another one. -/
def borderers : GridWorld Unit :=
  gathering [⟨763.5, 100⟩, ⟨1023, 100⟩, ⟨1029, 100⟩, ⟨100, 900⟩, ⟨1500, 900⟩]

theorem gathered_iff_covered_borderers :
    let after := borderers.step onAxis idle (fun _ => ()) []
    after.eye 2 = some ⟨1018, 100⟩ ∧ after.relevant ⟨763.5, 100⟩ 260 = [1, 2] ∧
      ∀ id, id ∈ (after.gather ⟨763.5, 100⟩ 260).map Prod.fst ↔
        id ∈ after.relevant ⟨763.5, 100⟩ 260 := by
  refine ⟨by decide +kernel, by decide +kernel, (gathered_iff_covered onAxis idle (fun _ => ())
    borderers [] (gathering_rowed _).store ⟨763.5, 100⟩ 260).mpr fun i p q hp hq => ?_⟩
  have hcovers : ∀ pq ∈ (borderers.integrate onAxis idle (fun _ => ()) []).entities.position.zip
      (borderers.step onAxis idle (fun _ => ()) []).world.entities.position,
      distanceSq pq.2 ⟨763.5, 100⟩ ≤ 260 * 260 → borderers.grid.Covers ⟨763.5, 100⟩ 260 pq.1 := by
    decide +kernel
  exact hcovers (p, q) (List.mem_of_getElem? (List.getElem?_zip_eq_some.mpr ⟨hp, hq⟩))

/-- Players 2 and 3 collide next to the border between two cells, and player 2 is pushed
over it, to a distance of 257.5 from player 1. Its bucket is on the other side. -/
theorem pushed_over_border :
    let after := (gathering [⟨763.5, 100⟩, ⟨1025, 100⟩, ⟨1033, 100⟩]).step onAxis idle
      (fun _ => ()) []
    (after.eye 1 = some ⟨763.5, 100⟩ ∧ after.eye 2 = some ⟨1021, 100⟩) ∧
      after.relevant ⟨763.5, 100⟩ 260 = [1, 2] ∧
      (after.gather ⟨763.5, 100⟩ 260).map Prod.fst = [1] := by
  decide +kernel

/-- An entity whose cell the collisions did not change is found. -/
theorem covers_of_same_cell {g : SpatialGrid} (hinv : 0 ≤ g.invCellSize) {eye p q : Vec2 ℚ}
    {aoiRadius : ℚ} (hradius : 0 ≤ aoiRadius) (hright : ¬ g.Overflows (eye.x + aoiRadius))
    (htop : ¬ g.Overflows (eye.y + aoiRadius))
    (hx : g.cellXOf p.x = g.cellXOf q.x) (hy : g.cellXOf p.y = g.cellXOf q.y)
    (hnear : distanceSq q eye ≤ aoiRadius * aoiRadius) : g.Covers eye aoiRadius p := by
  have hcovers := SpatialGrid.covers_of_near hinv hradius hright htop hnear
  rw [SpatialGrid.Covers, ← hx, ← hy] at hcovers
  exact hcovers

end GridWorld
end Morton.Sim
