import Morton.Base.Run
import Morton.Proto.BitStream
import Morton.Spatial.Grid

/-! The grid of authority regions, and the handoffs of a player that walks over it. A player
leaves a region only once it is more than the margin past the border. -/
namespace Morton.Sim
open Proto Spatial

def kInvalidRegion : Nat := 0xffffffff

structure RegionMap where
  worldSize : ℚ := 2048
  regionsPerAxis : Nat := 2
  margin : ℚ := 48

structure Bounds where
  minX : ℚ
  minY : ℚ
  maxX : ℚ
  maxY : ℚ

namespace RegionMap

def regionSize (m : RegionMap) : ℚ := m.worldSize / m.regionsPerAxis

def axisIndex (m : RegionMap) (value : ℚ) : Nat :=
  let index := truncate (value / m.regionSize)
  let index := if index < 0 then 0 else index
  let index :=
    if BitReader.toI32 m.regionsPerAxis ≤ index then BitReader.toI32 m.regionsPerAxis - 1
    else index
  (index % 2 ^ 32).toNat

def regionOf (m : RegionMap) (x y : ℚ) : Nat :=
  (m.axisIndex y * m.regionsPerAxis + m.axisIndex x) % 2 ^ 32

def boundsOf (m : RegionMap) (region : Nat) : Bounds :=
  let size := m.regionSize
  let cx := region % m.regionsPerAxis
  let cy := region / m.regionsPerAxis
  { minX := cx * size, minY := cy * size, maxX := cx * size + size, maxY := cy * size + size }

/-- The region to hand the player to, `kInvalidRegion` when it should stay. -/
def handoffTarget (m : RegionMap) (currentRegion : Nat) (x y : ℚ) : Nat :=
  let raw := m.regionOf x y
  if raw = currentRegion then kInvalidRegion
  else
    let bounds := m.boundsOf currentRegion
    if (x < bounds.minX - m.margin ∨ bounds.maxX + m.margin < x) ∨
        (y < bounds.minY - m.margin ∨ bounds.maxY + m.margin < y) then raw
    else kInvalidRegion

structure Handoff where
  source : Nat
  target : Nat
  position : Vec2 ℚ
  deriving DecidableEq

/-- The current region after a check. -/
def check (m : RegionMap) (currentRegion : Nat) (position : Vec2 ℚ) : Nat :=
  let target := m.handoffTarget currentRegion position.x position.y
  if target = kInvalidRegion then currentRegion else target

/-- The handoff of a check, if there is one. -/
def handoff (m : RegionMap) (currentRegion : Nat) (position : Vec2 ℚ) : Option Handoff :=
  let target := m.handoffTarget currentRegion position.x position.y
  if target = kInvalidRegion then none else some { source := currentRegion, target, position }

/-- The handoffs along a path. -/
def handoffs (m : RegionMap) (start : Nat) (path : List (Vec2 ℚ)) : List Handoff :=
  Run.log m.check m.handoff start path

def Inside (m : RegionMap) (p : Vec2 ℚ) : Prop :=
  (0 ≤ p.x ∧ p.x ≤ m.worldSize) ∧ 0 ≤ p.y ∧ p.y ≤ m.worldSize

/-- The position lies in the rectangle of the region. -/
def Contains (m : RegionMap) (region : Nat) (p : Vec2 ℚ) : Prop :=
  ((m.boundsOf region).minX ≤ p.x ∧ p.x ≤ (m.boundsOf region).maxX) ∧
    (m.boundsOf region).minY ≤ p.y ∧ p.y ≤ (m.boundsOf region).maxY

/-- More than the margin apart on an axis. -/
def Apart (m : RegionMap) (p q : Vec2 ℚ) : Prop := m.margin < |p.x - q.x| ∨ m.margin < |p.y - q.y|

/-- Regions of a size, few enough for their numbers to be `u32`. -/
structure Numbered (m : RegionMap) : Prop where
  size : 0 < m.worldSize
  regions : 1 ≤ m.regionsPerAxis
  numbers : m.regionsPerAxis ≤ 65536

variable {m : RegionMap}

theorem Numbered.regionSize_pos (h : m.Numbered) : 0 < m.regionSize :=
  div_pos h.size (Nat.cast_pos.mpr h.regions)

/-- The index of an axis: below the number of regions, and of the part that has the value. -/
theorem Numbered.axisIndex_spec (h : m.Numbered) {value : ℚ} (hlow : 0 ≤ value)
    (hhigh : value ≤ m.worldSize) :
    m.axisIndex value < m.regionsPerAxis ∧ m.axisIndex value * m.regionSize ≤ value ∧
      value ≤ m.axisIndex value * m.regionSize + m.regionSize := by
  have hsize := h.regionSize_pos
  have hregions := h.regions
  have hnumbers := h.numbers
  have hcount : (0 : ℚ) < m.regionsPerAxis := Nat.cast_pos.mpr hregions
  have hworld : m.worldSize = m.regionsPerAxis * m.regionSize := by
    rw [regionSize, mul_div_cancel₀ _ hcount.ne']
  have hquotient : 0 ≤ value / m.regionSize := div_nonneg hlow hsize.le
  have hle : value / m.regionSize ≤ m.regionsPerAxis := by
    rw [div_le_iff₀ hsize, ← hworld]
    exact hhigh
  have hbound : (m.regionsPerAxis : ℚ) ≤ 65536 := by exact_mod_cast hnumbers
  have hrange : InRange (value / m.regionSize) := by
    constructor
    · linarith
    · linarith
  have hfloor : 0 ≤ ⌊value / m.regionSize⌋ := Int.floor_nonneg.mpr hquotient
  have hi32 : BitReader.toI32 m.regionsPerAxis = m.regionsPerAxis := if_pos (by omega)
  have hbelow := Int.floor_le (value / m.regionSize)
  have habove := Int.lt_floor_add_one (value / m.regionSize)
  rw [le_div_iff₀ hsize] at hbelow
  rw [div_lt_iff₀ hsize] at habove
  unfold axisIndex
  dsimp only
  rw [SpatialGrid.truncate_eq hrange, if_pos hquotient, if_neg (not_lt.mpr hfloor), hi32]
  split
  next hlast =>
    -- only the border of the world has this quotient
    have hcast : (m.regionsPerAxis : ℚ) ≤ ⌊value / m.regionSize⌋ := by exact_mod_cast hlast
    have hend : value = m.worldSize := by
      apply le_antisymm hhigh
      rw [hworld]
      exact (mul_le_mul_of_nonneg_right hcast hsize.le).trans hbelow
    have hindex : (((m.regionsPerAxis : Int) - 1) % 2 ^ 32).toNat = m.regionsPerAxis - 1 := by
      omega
    rw [hindex, Nat.cast_sub hregions, hend, hworld]
    push_cast
    refine ⟨by omega, ?_, ?_⟩
    · linarith
    · linarith
  next hinner =>
    have hindex : ((⌊value / m.regionSize⌋ % 2 ^ 32).toNat : Int) = ⌊value / m.regionSize⌋ := by
      omega
    have hcast : (((⌊value / m.regionSize⌋ % 2 ^ 32).toNat : Nat) : ℚ) =
        ⌊value / m.regionSize⌋ := by exact_mod_cast hindex
    rw [hcast]
    refine ⟨by omega, hbelow, ?_⟩
    linarith

/-- The number of the region of a position, taken apart again. -/
theorem Numbered.regionOf_split (h : m.Numbered) {p : Vec2 ℚ} (hp : m.Inside p) :
    m.regionOf p.x p.y % m.regionsPerAxis = m.axisIndex p.x ∧
      m.regionOf p.x p.y / m.regionsPerAxis = m.axisIndex p.y := by
  have hx := (h.axisIndex_spec hp.1.1 hp.1.2).1
  have hy := (h.axisIndex_spec hp.2.1 hp.2.2).1
  have hregions := h.regions
  have hnumber : m.axisIndex p.y * m.regionsPerAxis + m.axisIndex p.x < 2 ^ 32 := by
    have hrow : (m.axisIndex p.y + 1) * m.regionsPerAxis ≤ 65536 * 65536 :=
      Nat.mul_le_mul (by have := h.numbers; omega) h.numbers
    rw [Nat.add_mul, Nat.one_mul] at hrow
    omega
  rw [regionOf, Nat.mod_eq_of_lt hnumber]
  constructor
  · rw [Nat.mul_comm, Nat.mul_add_mod, Nat.mod_eq_of_lt hx]
  · rw [Nat.mul_comm, Nat.mul_add_div (by omega), Nat.div_eq_of_lt hx, Nat.add_zero]

theorem Numbered.contains_regionOf (h : m.Numbered) {p : Vec2 ℚ} (hp : m.Inside p) :
    m.Contains (m.regionOf p.x p.y) p := by
  obtain ⟨hcx, hcy⟩ := h.regionOf_split hp
  unfold Contains boundsOf
  dsimp only
  rw [hcx, hcy]
  exact ⟨(h.axisIndex_spec hp.1.1 hp.1.2).2, (h.axisIndex_spec hp.2.1 hp.2.2).2⟩

/-- What a check that hands off has found. -/
theorem handoff_spec {current : Nat} {p : Vec2 ℚ} {made : Handoff}
    (h : m.handoff current p = some made) :
    made.source = current ∧ made.position = p ∧ made.target = m.regionOf p.x p.y ∧
      made.target ≠ current ∧ m.check current p = made.target ∧
      ((p.x < (m.boundsOf current).minX - m.margin ∨
          (m.boundsOf current).maxX + m.margin < p.x) ∨
        p.y < (m.boundsOf current).minY - m.margin ∨
          (m.boundsOf current).maxY + m.margin < p.y) := by
  unfold handoff at h
  dsimp only at h
  split at h
  · cases h
  next hmoved =>
    have hcheck : m.check current p = m.handoffTarget current p.x p.y := if_neg hmoved
    cases h
    refine ⟨rfl, rfl, ?_⟩
    rw [hcheck]
    dsimp only
    unfold handoffTarget at hmoved ⊢
    dsimp only at hmoved ⊢
    split at hmoved
    · exact absurd rfl hmoved
    next hother =>
      rw [if_neg hother]
      split at hmoved
      next hpast =>
        rw [if_pos hpast]
        exact ⟨rfl, hother, rfl, hpast⟩
      · exact absurd rfl hmoved

theorem handoff_none {current : Nat} {p : Vec2 ℚ} (h : m.handoff current p = none) :
    m.check current p = current := by
  unfold handoff at h
  unfold check
  dsimp only at h ⊢
  split at h
  next hstays => rw [if_pos hstays]
  · cases h

/-- Whoever has left a rectangle by more than the margin is that far from all of it. -/
theorem apart_of_past {current : Nat} {p q : Vec2 ℚ} (hp : m.Contains current p)
    (hpast : (q.x < (m.boundsOf current).minX - m.margin ∨
        (m.boundsOf current).maxX + m.margin < q.x) ∨
      q.y < (m.boundsOf current).minY - m.margin ∨
        (m.boundsOf current).maxY + m.margin < q.y) : m.Apart p q := by
  obtain ⟨hx, hy⟩ := hp
  cases hpast with
  | inl hpast =>
    left
    rw [lt_abs]
    cases hpast with
    | inl hleft =>
      left
      linarith [hx.1]
    | inr hright =>
      right
      linarith [hx.2]
  | inr hpast =>
    right
    rw [lt_abs]
    cases hpast with
    | inl hbelow =>
      left
      linarith [hy.1]
    | inr habove =>
      right
      linarith [hy.2]

/-- After a handoff the next one is made more than the margin away. -/
theorem Numbered.chain_of_last (h : m.Numbered) {path : List (Vec2 ℚ)}
    (hpath : ∀ p ∈ path, m.Inside p) {last : Handoff} (hlast : m.Contains last.target last.position) :
    (last :: m.handoffs last.target path).IsChain (fun a b => m.Apart a.position b.position) := by
  unfold handoffs
  induction path generalizing last with
  | nil => exact List.isChain_singleton last
  | cons p path ih =>
    have hrest : ∀ q ∈ path, m.Inside q := fun q hq => hpath q (List.mem_cons_of_mem _ hq)
    rw [Run.log]
    cases hmade : m.handoff last.target p with
    | none =>
      rw [handoff_none hmade]
      exact ih hrest hlast
    | some made =>
      obtain ⟨-, hposition, htarget, -, hcheck, hpast⟩ := handoff_spec hmade
      have hcontains : m.Contains made.target made.position := by
        rw [htarget, hposition]
        exact h.contains_regionOf (hpath p List.mem_cons_self)
      rw [hcheck]
      apply List.IsChain.cons_cons
      · rw [hposition]
        exact apart_of_past hlast hpast
      · exact ih hrest hcontains

/-- Every handoff goes to the region that has the position, and not to where the player was;
two in a row are made more than the margin apart. -/
theorem handoffs_apart (hsize : 0 < m.worldSize) (hregions : 1 ≤ m.regionsPerAxis)
    (hnumbers : m.regionsPerAxis ≤ 65536) (start : Nat) {path : List (Vec2 ℚ)}
    (hpath : ∀ p ∈ path, m.Inside p) :
    (∀ made ∈ m.handoffs start path, made.target = m.regionOf made.position.x made.position.y ∧
      m.Contains made.target made.position ∧ made.target ≠ made.source) ∧
    (m.handoffs start path).IsChain (fun a b => m.Apart a.position b.position) := by
  have h : m.Numbered := ⟨hsize, hregions, hnumbers⟩
  unfold handoffs
  induction path generalizing start with
  | nil =>
    constructor
    · intro made hmade
      cases hmade
    · exact List.isChain_nil
  | cons p path ih =>
    have hrest : ∀ q ∈ path, m.Inside q := fun q hq => hpath q (List.mem_cons_of_mem _ hq)
    rw [Run.log]
    cases hmade : m.handoff start p with
    | none => exact ih (m.check start p) hrest
    | some made =>
      obtain ⟨hsource, hposition, htarget, hother, hcheck, -⟩ := handoff_spec hmade
      have hcontains : m.Contains made.target made.position := by
        rw [htarget, hposition]
        exact h.contains_regionOf (hpath p List.mem_cons_self)
      constructor
      · intro other hmem
        cases hmem with
        | head =>
          rw [hsource, hposition]
          rw [hposition] at hcontains
          exact ⟨htarget, hcontains, hother⟩
        | tail _ hmem => exact (ih (m.check start p) hrest).1 other hmem
      · rw [hcheck]
        exact h.chain_of_last hrest hcontains

/-- Over the border, and back before the margin and past it. -/
def stroll : List (Vec2 ℚ) := [⟨1000, 100⟩, ⟨1090, 100⟩, ⟨1000, 100⟩, ⟨960, 100⟩]

theorem handoffs_apart_stroll :
    (∀ made ∈ ({} : RegionMap).handoffs 0 stroll,
      made.target = ({} : RegionMap).regionOf made.position.x made.position.y ∧
        ({} : RegionMap).Contains made.target made.position ∧ made.target ≠ made.source) ∧
    (({} : RegionMap).handoffs 0 stroll).IsChain
      (fun a b => ({} : RegionMap).Apart a.position b.position) := by
  apply handoffs_apart
  case hsize => norm_num
  case hregions => decide
  case hnumbers => decide
  case hpath =>
    intro p hp
    simp only [stroll, List.mem_cons, List.not_mem_nil, or_false] at hp
    rcases hp with rfl | rfl | rfl | rfl <;> norm_num [Inside]

/-- More regions than `u32` has numbers. -/
def crammed : RegionMap := { worldSize := 65537, regionsPerAxis := 65537 }

/-- Two handoffs one unit apart. The number of the region has wrapped around, so its bounds
are those of another one. -/
theorem crammed_ping_pong :
    (∀ p ∈ [(⟨100.5, 65536.5⟩ : Vec2 ℚ), ⟨101.5, 65536.5⟩], crammed.Inside p) ∧
    crammed.handoffs 0 [⟨100.5, 65536.5⟩, ⟨101.5, 65536.5⟩] =
      [{ source := 0, target := 65636, position := ⟨100.5, 65536.5⟩ },
        { source := 65636, target := 65637, position := ⟨101.5, 65536.5⟩ }] ∧
    ¬ crammed.Contains 65636 ⟨100.5, 65536.5⟩ ∧
    ¬ crammed.Apart ⟨100.5, 65536.5⟩ ⟨101.5, 65536.5⟩ := by
  refine ⟨?_, by decide +kernel, ?_, ?_⟩
  · intro p hp
    simp only [List.mem_cons, List.not_mem_nil, or_false] at hp
    rcases hp with rfl | rfl <;> norm_num [Inside, crammed]
  · norm_num [Contains, boundsOf, regionSize, crammed]
  · norm_num [Apart, crammed]

end RegionMap
end Morton.Sim
