import Morton.Spatial.RadiusQuery

/-! The walk over the pairs of a cell and of the cells after it, against all pairs within the
radius. -/
namespace Morton.Spatial
open CountingSort Sim
namespace SpatialGrid

/-- The two positions are within the radius of each other. -/
def Near (positions : List (Vec2 ℚ)) (radius : ℚ) (a b : Nat) : Prop :=
  ∃ p q, positions[a]? = some p ∧ positions[b]? = some q ∧ distanceSq p q ≤ radius * radius

theorem distanceSq_comm (p q : Vec2 ℚ) : distanceSq p q = distanceSq q p := by
  unfold distanceSq
  ring

theorem Near.symm {positions : List (Vec2 ℚ)} {radius : ℚ} {a b : Nat}
    (h : Near positions radius a b) : Near positions radius b a := by
  obtain ⟨p, q, hp, hq, hnear⟩ := h
  rw [distanceSq_comm] at hnear
  exact ⟨q, p, hq, hp, hnear⟩

/-- The check before a call. -/
def near (positions : List (Vec2 ℚ)) (radius : ℚ) (pair : Nat × Nat) : Bool :=
  match positions[pair.1]?, positions[pair.2]? with
  | some p, some q => decide (distanceSq p q ≤ radius * radius)
  | _, _ => false

theorem near_iff {positions : List (Vec2 ℚ)} {radius : ℚ} {a b : Nat} :
    near positions radius (a, b) = true ↔ Near positions radius a b := by
  unfold near Near
  dsimp only
  split
  next p q hp hq =>
    rw [decide_eq_true_iff]
    constructor
    · intro hnear
      exact ⟨p, q, hp, hq, hnear⟩
    · intro h
      obtain ⟨p', q', hp', hq', hnear⟩ := h
      obtain rfl := Option.some.inj (hp.symm.trans hp')
      obtain rfl := Option.some.inj (hq.symm.trans hq')
      exact hnear
  next hnone =>
    constructor
    · intro h
      cases h
    · intro h
      obtain ⟨p, q, hp, hq, -⟩ := h
      exact absurd hq (hnone p q hp)

/-- The pairs the callback is invoked on while nothing moves, in order. -/
def calls (g : SpatialGrid) (positions : List (Vec2 ℚ)) (radius : ℚ) : List (Nat × Nat) :=
  g.nearbyPairs.filter (near positions radius)

/-- A callback that does not move the positions is invoked on these pairs. -/
theorem forEachPair_eq_calls {σ : Type} (g : SpatialGrid) {positions : List (Vec2 ℚ)}
    (radius : ℚ) {view : σ → List (Vec2 ℚ)} {fn : σ → Nat → Nat → σ}
    (hstill : ∀ s a b, view s = positions → view (fn s a b) = positions) {s : σ}
    (hs : view s = positions) :
    g.forEachPair view radius fn s =
      (g.calls positions radius).foldl (fun s (a, b) => fn s a b) s := by
  unfold forEachPair calls
  induction g.nearbyPairs generalizing s with
  | nil => rfl
  | cons pair pairs ih =>
    have hcheck : (match (view s)[pair.1]?, (view s)[pair.2]? with
        | some p, some q => if distanceSq p q ≤ radius * radius then fn s pair.1 pair.2 else s
        | _, _ => s) = if near positions radius pair then fn s pair.1 pair.2 else s := by
      rw [hs, near]
      split
      · simp
      · rfl
    rw [List.foldl_cons, List.filter_cons]
    refine (congrArg (fun t => List.foldl _ t pairs) hcheck).trans ?_
    by_cases hnear : near positions radius pair
    · rw [if_pos hnear, if_pos hnear]
      exact ih (hstill s pair.1 pair.2 hs)
    · rw [if_neg hnear, if_neg hnear]
      exact ih hs

theorem mem_innerPairs {entries : List Nat} (hentries : entries.Pairwise (· < ·)) {a b : Nat} :
    (a, b) ∈ innerPairs entries ↔ a ∈ entries ∧ b ∈ entries ∧ a < b := by
  induction entries with
  | nil => simp [innerPairs]
  | cons first rest ih =>
    obtain ⟨hfirst, hrest⟩ := List.pairwise_cons.mp hentries
    rw [innerPairs, List.mem_append, ih hrest, List.mem_map, List.mem_cons, List.mem_cons]
    constructor
    · intro h
      cases h with
      | inl h =>
        obtain ⟨b', hb, heq⟩ := h
        cases heq
        exact ⟨Or.inl rfl, Or.inr hb, hfirst b hb⟩
      | inr h => exact ⟨Or.inr h.1, Or.inr h.2.1, h.2.2⟩
    · intro h
      obtain ⟨ha, hb, hlt⟩ := h
      cases ha with
      | inl ha =>
        subst ha
        have hb' : b ∈ rest := hb.resolve_left (by omega)
        exact Or.inl ⟨b, hb', rfl⟩
      | inr ha =>
        have hne : b ≠ first := by
          have := hfirst a ha
          omega
        exact Or.inr ⟨ha, hb.resolve_left hne, hlt⟩

theorem innerPairs_nodup {entries : List Nat} (hentries : entries.Pairwise (· < ·)) :
    (innerPairs entries).Nodup := by
  induction entries with
  | nil => simp [innerPairs]
  | cons first rest ih =>
    obtain ⟨hfirst, hrest⟩ := List.pairwise_cons.mp hentries
    have hnodup : rest.Nodup := hrest.imp Nat.ne_of_lt
    rw [innerPairs]
    apply List.Nodup.append
    · exact hnodup.map fun b b' h => congrArg Prod.snd h
    · exact ih hrest
    · intro pair hpair hpair'
      obtain ⟨b, hb, rfl⟩ := List.mem_map.mp hpair
      have hmem := (mem_innerPairs hrest).mp hpair'
      exact Nat.lt_irrefl first (hfirst first hmem.1)

/-- The pairs with the neighbour at one of the offsets. -/
def offsetPairs (g : SpatialGrid) (x y : Nat) (offset : Int × Int) : List (Nat × Nat) :=
  if (x + offset.1 : Int) < 0 ∨ (y + offset.2 : Int) < 0 ∨
      (g.cellsPerAxis : Int) ≤ x + offset.1 ∨ (g.cellsPerAxis : Int) ≤ y + offset.2 then []
  else
    (g.bucket (mortonEncode x y)).flatMap fun a =>
      (g.bucket (mortonEncode (x + offset.1 : Int).toNat (y + offset.2 : Int).toNat)).map
        fun b => (a, b)

/-- An empty cell has no pairs, so skipping it changes nothing. -/
theorem cellPairs_eq (g : SpatialGrid) (x y : Nat) :
    g.cellPairs x y =
      innerPairs (g.bucket (mortonEncode x y)) ++ kOffsets.flatMap (g.offsetPairs x y) := by
  unfold cellPairs offsetPairs
  by_cases hempty : g.bucket (mortonEncode x y) = []
  · simp [hempty, innerPairs]
  · simp [hempty]

/-- The second entity was built in the cell at the offset from the first one's. -/
def AtOffset (g : SpatialGrid) (positions : List (Vec2 ℚ)) (x y : Nat) (pair : Nat × Nat)
    (offset : Int × Int) : Prop :=
  ∃ x' y' : Nat, (x' : Int) = x + offset.1 ∧ (y' : Int) = y + offset.2 ∧
    g.InCell positions pair.2 x' y'

theorem AtOffset.unique {g : SpatialGrid} {positions : List (Vec2 ℚ)} {x y : Nat}
    {pair : Nat × Nat} {offset offset' : Int × Int} (h : g.AtOffset positions x y pair offset)
    (h' : g.AtOffset positions x y pair offset') : offset = offset' := by
  obtain ⟨m, n, hm, hn, hcell⟩ := h
  obtain ⟨m', n', hm', hn', hcell'⟩ := h'
  obtain ⟨rfl, rfl⟩ := hcell.unique hcell'
  apply Prod.ext
  · omega
  · omega

/-- From the cell of the first entity the walk comes to the second one. -/
def Precedes (x y x' y' a b : Nat) : Prop :=
  (x' = x ∧ y' = y ∧ a < b) ∨ ((x' : Int) - x, (y' : Int) - y) ∈ kOffsets

instance (x y x' y' a b : Nat) : Decidable (Precedes x y x' y' a b) :=
  inferInstanceAs (Decidable (_ ∨ _))

section
variable {g : SpatialGrid} (h : g.Tiled) {positions : List (Vec2 ℚ)} {x y : Nat}
include h

theorem Tiled.mem_offsetPairs (hx : x < g.cellsPerAxis) (hy : y < g.cellsPerAxis)
    {offset : Int × Int} {a b : Nat} :
    (a, b) ∈ (g.build positions).offsetPairs x y offset ↔
      g.InCell positions a x y ∧ g.AtOffset positions x y (a, b) offset := by
  unfold offsetPairs
  rw [build_cellsPerAxis]
  split
  next hout =>
    constructor
    · intro hmem
      cases hmem
    · intro hcells
      obtain ⟨-, x', y', hx', hy', p, -, rfl, rfl⟩ := hcells
      have := h.cellXOf_lt p.x
      have := h.cellXOf_lt p.y
      omega
  next hin =>
    simp only [not_or, not_lt, not_le] at hin
    obtain ⟨hx0, hy0, hxlt, hylt⟩ := hin
    have hneighbor : ∀ {i}, i ∈ (g.build positions).bucket
        (mortonEncode (x + offset.1 : Int).toNat (y + offset.2 : Int).toNat) ↔
          g.InCell positions i (x + offset.1 : Int).toNat (y + offset.2 : Int).toNat :=
      h.mem_bucket (by omega) (by omega)
    rw [List.mem_flatMap]
    constructor
    · intro hmem
      obtain ⟨a', ha, hb⟩ := hmem
      obtain ⟨b', hb, heq⟩ := List.mem_map.mp hb
      cases heq
      exact ⟨(h.mem_bucket hx hy).mp ha, _, _, Int.toNat_of_nonneg hx0, Int.toNat_of_nonneg hy0,
        hneighbor.mp hb⟩
    · intro hcells
      obtain ⟨ha, x', y', hx', hy', hb⟩ := hcells
      obtain rfl : x' = (x + offset.1 : Int).toNat := by omega
      obtain rfl : y' = (y + offset.2 : Int).toNat := by omega
      exact ⟨a, (h.mem_bucket hx hy).mpr ha, List.mem_map.mpr ⟨b, hneighbor.mpr hb, rfl⟩⟩

theorem Tiled.offsetPairs_nodup (hx : x < g.cellsPerAxis) (hy : y < g.cellsPerAxis)
    (offset : Int × Int) : ((g.build positions).offsetPairs x y offset).Nodup := by
  unfold offsetPairs
  rw [build_cellsPerAxis]
  split
  · exact List.nodup_nil
  next hin =>
    simp only [not_or, not_lt, not_le] at hin
    obtain ⟨hx0, hy0, hxlt, hylt⟩ := hin
    apply nodup_flatMap_of_unique fun pair a => pair.1 = a
    case hunique => exact fun ha ha' => ha.symm.trans ha'
    case hl => exact (h.bucket_ascending positions hx hy).imp Nat.ne_of_lt
    case hf =>
      intro a _
      have hnodup : ((g.build positions).bucket (mortonEncode (x + offset.1 : Int).toNat
          (y + offset.2 : Int).toNat)).Nodup :=
        (h.bucket_ascending positions (by omega) (by omega)).imp Nat.ne_of_lt
      exact hnodup.map fun b b' heq => congrArg Prod.snd heq
    case hof =>
      intro a _ pair hpair
      obtain ⟨b, -, rfl⟩ := List.mem_map.mp hpair
      rfl

theorem Tiled.mem_cellPairs (hx : x < g.cellsPerAxis) (hy : y < g.cellsPerAxis) {a b : Nat} :
    (a, b) ∈ (g.build positions).cellPairs x y ↔
      g.InCell positions a x y ∧ ((g.InCell positions b x y ∧ a < b) ∨
        ∃ offset ∈ kOffsets, g.AtOffset positions x y (a, b) offset) := by
  have hcell : ∀ {i}, i ∈ (g.build positions).bucket (mortonEncode x y) ↔
      g.InCell positions i x y := h.mem_bucket hx hy
  rw [cellPairs_eq, List.mem_append, mem_innerPairs (h.bucket_ascending positions hx hy), hcell,
    hcell, List.mem_flatMap]
  simp only [h.mem_offsetPairs hx hy]
  tauto

theorem Tiled.cellPairs_nodup (hx : x < g.cellsPerAxis) (hy : y < g.cellsPerAxis) :
    ((g.build positions).cellPairs x y).Nodup := by
  rw [cellPairs_eq]
  apply List.Nodup.append
  · exact innerPairs_nodup (h.bucket_ascending positions hx hy)
  · apply nodup_flatMap_of_unique (g.AtOffset positions x y)
    case hunique => exact AtOffset.unique
    case hl => decide
    case hf => exact fun offset _ => h.offsetPairs_nodup hx hy offset
    case hof => exact fun offset _ pair hpair => ((h.mem_offsetPairs hx hy).mp hpair).2
  · intro pair hinner houter
    obtain ⟨offset, hoffset, hpair⟩ := List.mem_flatMap.mp houter
    have hat := ((h.mem_offsetPairs hx hy).mp hpair).2
    have hmem := (mem_innerPairs (h.bucket_ascending positions hx hy)).mp hinner
    have hhere : g.AtOffset positions x y pair (0, 0) :=
      ⟨x, y, by simp, by simp, (h.mem_bucket hx hy).mp hmem.2.1⟩
    rw [← hhere.unique hat] at hoffset
    revert hoffset
    decide

theorem Tiled.mem_nearbyPairs {a b : Nat} {p q : Vec2 ℚ} (hp : positions[a]? = some p)
    (hq : positions[b]? = some q) :
    (a, b) ∈ (g.build positions).nearbyPairs ↔
      Precedes (g.cellXOf p.x) (g.cellXOf p.y) (g.cellXOf q.x) (g.cellXOf q.y) a b := by
  have ha : g.InCell positions a (g.cellXOf p.x) (g.cellXOf p.y) := ⟨p, hp, rfl, rfl⟩
  have hb : g.InCell positions b (g.cellXOf q.x) (g.cellXOf q.y) := ⟨q, hq, rfl, rfl⟩
  unfold nearbyPairs Precedes
  rw [build_cellsPerAxis]
  constructor
  · intro hmem
    obtain ⟨y, hy, hmem⟩ := List.mem_flatMap.mp hmem
    obtain ⟨x, hx, hmem⟩ := List.mem_flatMap.mp hmem
    obtain ⟨ha', hb'⟩ := (h.mem_cellPairs (List.mem_range.mp hx) (List.mem_range.mp hy)).mp hmem
    obtain ⟨rfl, rfl⟩ := ha'.unique ha
    cases hb' with
    | inl hb' => exact Or.inl ⟨(hb.unique hb'.1).1, (hb.unique hb'.1).2, hb'.2⟩
    | inr hb' =>
      obtain ⟨offset, hoffset, x', y', hx', hy', hb'⟩ := hb'
      obtain ⟨rfl, rfl⟩ := hb'.unique hb
      have hdifference : ((g.cellXOf q.x : Int) - g.cellXOf p.x,
          (g.cellXOf q.y : Int) - g.cellXOf p.y) = offset := by
        apply Prod.ext
        · omega
        · omega
      rw [hdifference]
      exact Or.inr hoffset
  · intro hprecedes
    apply List.mem_flatMap.mpr
    refine ⟨g.cellXOf p.y, List.mem_range.mpr (h.cellXOf_lt _), List.mem_flatMap.mpr
      ⟨g.cellXOf p.x, List.mem_range.mpr (h.cellXOf_lt _), ?_⟩⟩
    apply (h.mem_cellPairs (h.cellXOf_lt _) (h.cellXOf_lt _)).mpr
    refine ⟨ha, ?_⟩
    cases hprecedes with
    | inl hsame =>
      rw [hsame.1, hsame.2.1] at hb
      exact Or.inl ⟨hb, hsame.2.2⟩
    | inr hoffset => exact Or.inr ⟨_, hoffset, _, _, by simp, by simp, hb⟩

theorem Tiled.nearbyPairs_nodup : (g.build positions).nearbyPairs.Nodup := by
  unfold nearbyPairs
  rw [build_cellsPerAxis]
  apply nodup_flatMap_of_unique fun pair y => ∃ x, g.InCell positions pair.1 x y
  case hunique =>
    intro pair y y' hi hi'
    obtain ⟨x, hi⟩ := hi
    obtain ⟨x', hi'⟩ := hi'
    exact (hi.unique hi').2
  case hl => exact List.nodup_range
  case hf =>
    intro y hy
    apply nodup_flatMap_of_unique fun pair x => g.InCell positions pair.1 x y
    case hunique => exact fun hi hi' => (hi.unique hi').1
    case hl => exact List.nodup_range
    case hf => exact fun x hx => h.cellPairs_nodup (List.mem_range.mp hx) (List.mem_range.mp hy)
    case hof =>
      intro x hx pair hpair
      exact ((h.mem_cellPairs (List.mem_range.mp hx) (List.mem_range.mp hy)).mp hpair).1
  case hof =>
    intro y hy pair hpair
    obtain ⟨x, hx, hpair⟩ := List.mem_flatMap.mp hpair
    exact ⟨x, ((h.mem_cellPairs (List.mem_range.mp hx) (List.mem_range.mp hy)).mp hpair).1⟩

end

theorem truncate_le_succ {a b : ℚ} (ha : InRange a) (hb : InRange b) (h : b ≤ a + 1) :
    truncate b ≤ truncate a + 1 := by
  rw [truncate_eq ha, truncate_eq hb]
  by_cases hapos : 0 ≤ a
  · have hfloor : 0 ≤ ⌊a⌋ := Int.floor_nonneg.mpr hapos
    rw [if_pos hapos]
    split
    next hbpos =>
      rw [← Int.floor_add_one]
      exact Int.floor_le_floor h
    next hbneg =>
      have : 0 ≤ ⌊-b⌋ := Int.floor_nonneg.mpr (by linarith [not_le.mp hbneg])
      omega
  · rw [if_neg hapos]
    split
    next hbpos =>
      have hlow : ⌊b⌋ < 1 := Int.floor_lt.mpr (by norm_num; linarith [not_le.mp hapos])
      have hhigh : ⌊-a⌋ < 2 := Int.floor_lt.mpr (by norm_num; linarith)
      omega
    next hbneg =>
      have hfloor : ⌊-a⌋ ≤ ⌊-b⌋ + 1 := by
        rw [← Int.floor_add_one]
        exact Int.floor_le_floor (by linarith)
      omega

/-- One cell size further is at most one cell further. -/
theorem cellXOf_le_succ {g : SpatialGrid} {a b : ℚ}
    (hstep : b * g.invCellSize ≤ a * g.invCellSize + 1) (hover : g.Overflows a → g.Overflows b) :
    g.cellXOf b ≤ g.cellXOf a + 1 := by
  by_cases hb : g.Overflows b
  · rw [cellXOf_of_overflows hb]
    exact Nat.zero_le _
  · have hahigh := not_le.mp (mt hover hb)
    have hbhigh := not_le.mp hb
    by_cases hlow : -2 ^ 31 - 1 < a * g.invCellSize ∧ -2 ^ 31 - 1 < b * g.invCellSize
    · have hcell := truncate_le_succ ⟨hlow.1, hahigh⟩ ⟨hlow.2, hbhigh⟩ hstep
      unfold cellXOf
      dsimp only
      generalize truncate (a * g.invCellSize) = i at hcell
      generalize truncate (b * g.invCellSize) = j at hcell
      split_ifs <;> omega
    · have hfirst : b * g.invCellSize < 1 := by
        rw [not_and_or, not_lt, not_lt] at hlow
        cases hlow with
        | inl hlow => linarith
        | inr hlow => linarith
      rw [cellXOf_eq_zero_iff.mpr (Or.inr (truncate_nonpos_iff.mpr (Or.inl hfirst)))]
      exact Nat.zero_le _

/-- In the last cell size before the range of the cast ends, coordinates are in the last cell. -/
theorem Tiled.cellXOf_last {g : SpatialGrid} (h : g.Tiled) {a : ℚ} (ha : ¬ g.Overflows a)
    (hlast : 2 ^ 31 - 1 ≤ a * g.invCellSize) : g.cellXOf a = g.cellsPerAxis - 1 := by
  have hrange : InRange (a * g.invCellSize) := ⟨by linarith, not_le.mp ha⟩
  have hpos := h.pos
  have hcells := h.lt (Nat.sub_lt hpos Nat.one_pos)
  have hfloor : 2 ^ 31 - 1 ≤ truncate (a * g.invCellSize) := by
    rw [truncate_eq hrange, if_pos (by linarith)]
    exact Int.le_floor.mpr (by norm_num; linarith)
  unfold cellXOf
  dsimp only
  generalize truncate (a * g.invCellSize) = i at hfloor
  split_ifs <;> omega

theorem Precedes.adjacent {x y x' y' a b : Nat} (h : Precedes x y x' y' a b) :
    (x ≤ x' + 1 ∧ x' ≤ x + 1) ∧ y ≤ y' + 1 ∧ y' ≤ y + 1 := by
  simp only [Precedes, kOffsets, List.mem_cons, Prod.mk.injEq, List.not_mem_nil, or_false] at h
  omega

/-- Of two cells side by side, the walk comes from exactly one to the other. -/
theorem precedes_iff_not {x y x' y' a b : Nat} (hab : a ≠ b) (hx : x ≤ x' + 1 ∧ x' ≤ x + 1)
    (hy : y ≤ y' + 1 ∧ y' ≤ y + 1) :
    Precedes x y x' y' a b ↔ ¬ Precedes x' y' x y b a := by
  simp only [Precedes, kOffsets, List.mem_cons, Prod.mk.injEq, List.not_mem_nil, or_false]
  omega

/-- Each two entities within the radius are called on once, in one order, and no others. -/
structure Exact (positions : List (Vec2 ℚ)) (radius : ℚ) (calls : List (Nat × Nat)) : Prop where
  once : ∀ i j, i ≠ j → Near positions radius i j → calls.count (i, j) + calls.count (j, i) = 1
  only : ∀ i j, (i, j) ∈ calls → i ≠ j ∧ Near positions radius i j

/-- On each axis the range of the cast ends before both positions or after both. -/
def Together (g : SpatialGrid) (p q : Vec2 ℚ) : Prop :=
  (g.Overflows p.x ↔ g.Overflows q.x) ∧ (g.Overflows p.y ↔ g.Overflows q.y)

/-- Coordinates at most a cell size apart are at most one apart on the scale of the cells. -/
theorem within_a_cell {g : SpatialGrid} {radius : ℚ} (hinv : g.invCellSize = 1 / g.cellSize)
    (hsize : 0 < g.cellSize) (hcell : radius ≤ g.cellSize) {a b : ℚ} (habs : |a - b| ≤ radius) :
    a * g.invCellSize ≤ b * g.invCellSize + 1 ∧ b * g.invCellSize ≤ a * g.invCellSize + 1 := by
  rw [abs_le] at habs
  have hone : g.cellSize * g.invCellSize = 1 := by
    rw [hinv]
    exact mul_one_div_cancel hsize.ne'
  have hpos : 0 ≤ g.invCellSize := by
    rw [hinv]
    exact (one_div_pos.mpr hsize).le
  have hab : (a - b) * g.invCellSize ≤ g.cellSize * g.invCellSize :=
    mul_le_mul_of_nonneg_right (by linarith [habs.2]) hpos
  have hba : (b - a) * g.invCellSize ≤ g.cellSize * g.invCellSize :=
    mul_le_mul_of_nonneg_right (by linarith [habs.1]) hpos
  rw [hone, sub_mul] at hab hba
  constructor
  · linarith
  · linarith

section
variable {g : SpatialGrid} (h : g.Tiled) {positions : List (Vec2 ℚ)} {radius : ℚ}
include h

theorem Tiled.count_calls {i j : Nat} {p q : Vec2 ℚ} (hp : positions[i]? = some p)
    (hq : positions[j]? = some q) (hnear : Near positions radius i j) :
    ((g.build positions).calls positions radius).count (i, j) =
      if Precedes (g.cellXOf p.x) (g.cellXOf p.y) (g.cellXOf q.x) (g.cellXOf q.y) i j
        then 1 else 0 := by
  have hnodup : ((g.build positions).calls positions radius).Nodup := h.nearbyPairs_nodup.filter _
  rw [hnodup.count]
  unfold calls
  simp only [List.mem_filter, near_iff, hnear, and_true, h.mem_nearbyPairs hp hq]

theorem Tiled.calls_only {i j : Nat} (hcall : (i, j) ∈ (g.build positions).calls positions radius) :
    i ≠ j ∧ Near positions radius i j := by
  obtain ⟨hpair, hnear⟩ := List.mem_filter.mp hcall
  have hnear := near_iff.mp hnear
  refine ⟨?_, hnear⟩
  intro heq
  subst heq
  obtain ⟨p, -, hp, -, -⟩ := hnear
  have hprecedes := (h.mem_nearbyPairs hp hp).mp hpair
  simp [Precedes, kOffsets] at hprecedes

/-- A pair that is called once has its cells side by side on both axes. -/
theorem Tiled.adjacent_of_once {i j : Nat} {p q : Vec2 ℚ} (hi : positions[i]? = some p)
    (hj : positions[j]? = some q) (hpair : Near positions radius i j)
    (honce : ((g.build positions).calls positions radius).count (i, j) +
      ((g.build positions).calls positions radius).count (j, i) = 1) :
    (g.cellXOf p.x ≤ g.cellXOf q.x + 1 ∧ g.cellXOf q.x ≤ g.cellXOf p.x + 1) ∧
      g.cellXOf p.y ≤ g.cellXOf q.y + 1 ∧ g.cellXOf q.y ≤ g.cellXOf p.y + 1 := by
  rw [h.count_calls hi hj hpair, h.count_calls hj hi hpair.symm] at honce
  split at honce
  next hprecedes => exact hprecedes.adjacent
  next =>
    split at honce
    next hprecedes =>
      obtain ⟨hx, hy⟩ := hprecedes.adjacent
      exact ⟨hx.symm, hy.symm⟩
    · omega

theorem Tiled.cut_apart {a b : ℚ} (hcells : 2 < g.cellsPerAxis) (ha : ¬ g.Overflows a)
    (hb : g.Overflows b) (hba : b * g.invCellSize ≤ a * g.invCellSize + 1) :
    g.cellXOf b + 1 < g.cellXOf a := by
  have hlimit : 2 ^ 31 ≤ b * g.invCellSize := hb
  rw [cellXOf_of_overflows hb, h.cellXOf_last ha (by linarith)]
  omega

/-- Coordinates a cell size apart are in cells side by side unless the range of the cast ends
between them. -/
theorem Tiled.side_by_side_iff {a b : ℚ} (hab : a * g.invCellSize ≤ b * g.invCellSize + 1)
    (hba : b * g.invCellSize ≤ a * g.invCellSize + 1) :
    (g.cellXOf a ≤ g.cellXOf b + 1 ∧ g.cellXOf b ≤ g.cellXOf a + 1) ↔
      (g.cellsPerAxis ≤ 2 ∨ (g.Overflows a ↔ g.Overflows b)) := by
  constructor
  · intro hside
    by_contra hcut
    rw [not_or, not_le] at hcut
    obtain ⟨hcells, hcut⟩ := hcut
    by_cases ha : g.Overflows a
    · have hb : ¬ g.Overflows b := fun hb => hcut (iff_of_true ha hb)
      have := h.cut_apart hcells hb ha hab
      omega
    · have hb : g.Overflows b := by
        by_contra hb
        exact hcut (iff_of_false ha hb)
      have := h.cut_apart hcells ha hb hba
      omega
  · intro hcut
    cases hcut with
    | inl hcells =>
      have := h.cellXOf_lt a
      have := h.cellXOf_lt b
      omega
    | inr hover =>
      constructor
      · exact cellXOf_le_succ hab hover.mpr
      · exact cellXOf_le_succ hba hover.mp

/-- The walk is exact unless the range of the cast ends between two positions that are within
the radius of each other, on more than two cells an axis. -/
theorem Tiled.calls_exact_iff (hinv : g.invCellSize = 1 / g.cellSize) (hsize : 0 < g.cellSize)
    (hradius : 0 ≤ radius) (hcell : radius ≤ g.cellSize) :
    Exact positions radius ((g.build positions).calls positions radius) ↔
      g.cellsPerAxis ≤ 2 ∨ ∀ p ∈ positions, ∀ q ∈ positions,
        distanceSq p q ≤ radius * radius → g.Together p q := by
  have hstep {a b : ℚ} (habs : |a - b| ≤ radius) := within_a_cell hinv hsize hcell habs
  constructor
  · intro hexact
    by_contra hcut
    rw [not_or] at hcut
    obtain ⟨hcells, hcut⟩ := hcut
    apply hcut
    intro p hp q hq hnear
    obtain ⟨i, hi⟩ := List.getElem?_of_mem hp
    obtain ⟨j, hj⟩ := List.getElem?_of_mem hq
    by_cases hij : i = j
    · subst hij
      obtain rfl := Option.some.inj (hi.symm.trans hj)
      exact ⟨Iff.rfl, Iff.rfl⟩
    · obtain ⟨hx, hy⟩ := abs_le_of_near hradius hnear
      have hpair : Near positions radius i j := ⟨p, q, hi, hj, hnear⟩
      have hside := h.adjacent_of_once hi hj hpair (hexact.once i j hij hpair)
      have htogetherx := (h.side_by_side_iff (hstep hx).1 (hstep hx).2).mp hside.1
      have htogethery := (h.side_by_side_iff (hstep hy).1 (hstep hy).2).mp hside.2
      exact ⟨htogetherx.resolve_left hcells, htogethery.resolve_left hcells⟩
  · intro htogether
    constructor
    case once =>
      intro i j hij hpair
      obtain ⟨p, q, hi, hj, hnear⟩ := hpair
      obtain ⟨hx, hy⟩ := abs_le_of_near hradius hnear
      have hpair : Near positions radius i j := ⟨p, q, hi, hj, hnear⟩
      have hboth : g.cellsPerAxis ≤ 2 ∨ g.Together p q := htogether.imp_right fun htogether =>
        htogether p (List.mem_of_getElem? hi) q (List.mem_of_getElem? hj) hnear
      have hsidex := (h.side_by_side_iff (hstep hx).1 (hstep hx).2).mpr (hboth.imp_right And.left)
      have hsidey := (h.side_by_side_iff (hstep hy).1 (hstep hy).2).mpr (hboth.imp_right And.right)
      have hone := precedes_iff_not hij hsidex hsidey
      rw [h.count_calls hi hj hpair, h.count_calls hj hi hpair.symm]
      split
      next hprecedes => rw [if_neg (hone.mp hprecedes)]
      next hprecedes => rw [if_pos (Classical.not_not.mp (mt hone.mpr hprecedes))]
    case only => exact fun i j => h.calls_only

end

/-- A number of 24 significant bits, as every coordinate is. -/
def IsSingle (v : ℚ) : Prop := ∃ m e : ℤ, |m| < 2 ^ 24 ∧ v = m * 2 ^ e

/-- Two such numbers differ by a part in 2^24 at least. -/
theorem IsSingle.gap {a b : ℚ} (ha : IsSingle a) (hb : IsSingle b) (hab : a < b) :
    a < 2 ^ 24 * (b - a) := by
  obtain ⟨m, e, hm, rfl⟩ := ha
  obtain ⟨n, f, hn, rfl⟩ := hb
  -- both are multiples of the smaller power of two, and one of them a small one
  obtain ⟨k, A, B, hA, hB, hsmall⟩ : ∃ (k A B : ℤ), (m * 2 ^ e : ℚ) = A * 2 ^ k ∧
      (n * 2 ^ f : ℚ) = B * 2 ^ k ∧ (A < 2 ^ 24 ∨ B < 2 ^ 24) := by
    have htwo : (2 : ℚ) ≠ 0 := by norm_num
    have hscale : ∀ (c i j : ℤ), j ≤ i → (c * 2 ^ i : ℚ) = (c * 2 ^ (i - j).toNat : ℤ) * 2 ^ j := by
      intro c i j hij
      have hpow : (2 : ℚ) ^ i = 2 ^ (i - j).toNat * 2 ^ j := by
        rw [← zpow_natCast, Int.toNat_of_nonneg (by omega), ← zpow_add₀ htwo, sub_add_cancel]
      rw [hpow]
      push_cast
      ring
    cases le_total e f with
    | inl hle => exact ⟨e, m, _, rfl, hscale n f e hle, Or.inl (abs_lt.mp hm).2⟩
    | inr hle => exact ⟨f, _, n, hscale m e f hle, rfl, Or.inr (abs_lt.mp hn).2⟩
  have hpos : (0 : ℚ) < 2 ^ k := zpow_pos (by norm_num) k
  rw [hA, hB] at hab ⊢
  have hlt : A < B := by exact_mod_cast lt_of_mul_lt_mul_right hab hpos.le
  have hfirst : A < 2 ^ 24 := by omega
  have hfirst' : (A : ℚ) < 2 ^ 24 := by exact_mod_cast hfirst
  have hstep : (A : ℚ) + 1 ≤ B := by exact_mod_cast hlt
  calc (A : ℚ) * 2 ^ k < 2 ^ 24 * 2 ^ k := mul_lt_mul_of_pos_right hfirst' hpos
    _ ≤ 2 ^ 24 * (B * 2 ^ k - A * 2 ^ k) := by nlinarith

/-- The range of the cast never ends between two of them that are a cell apart. -/
theorem IsSingle.overflows_iff {g : SpatialGrid} {radius : ℚ}
    (hinv : g.invCellSize = 1 / g.cellSize) (hsize : 0 < g.cellSize) (hcell : radius ≤ g.cellSize)
    {a b : ℚ} (ha : IsSingle a) (hb : IsSingle b) (habs : |a - b| ≤ radius) :
    g.Overflows a ↔ g.Overflows b := by
  have hscale : ∀ x, g.Overflows x ↔ 2 ^ 31 * g.cellSize ≤ x := by
    intro x
    rw [Overflows, hinv, mul_one_div, le_div_iff₀ hsize]
  have hcut : ∀ {a b : ℚ}, IsSingle a → IsSingle b → b - a ≤ g.cellSize → g.Overflows b →
      g.Overflows a := by
    intro a b ha hb hstep hover
    by_contra hno
    rw [hscale] at hover hno
    have hgap := ha.gap hb (by linarith)
    linarith
  rw [abs_le] at habs
  exact ⟨hcut hb ha (by linarith), hcut ha hb (by linarith)⟩

section
variable {worldSize : ℚ} {cellsPerAxis : Nat} {g : SpatialGrid}
  (hconfigure : configure worldSize cellsPerAxis = some g) (hsize : 0 < worldSize)
  (positions : List (Vec2 ℚ)) {radius : ℚ} (hradius : 0 ≤ radius) (hcell : radius ≤ g.cellSize)
include hconfigure hsize hradius hcell

/-- A callback that leaves the positions where the grid was built is invoked on each pair
within the radius once and on no other. -/
theorem forEachPair_exact (hsingle : ∀ p ∈ positions, IsSingle p.x ∧ IsSingle p.y)
    {σ : Type} {view : σ → List (Vec2 ℚ)} {fn : σ → Nat → Nat → σ}
    (hstill : ∀ s a b, view s = positions → view (fn s a b) = positions) {s : σ}
    (hs : view s = positions) :
    (g.build positions).forEachPair view radius fn s =
        ((g.build positions).calls positions radius).foldl (fun s (a, b) => fn s a b) s ∧
      Exact positions radius ((g.build positions).calls positions radius) := by
  have hinv := configure_invCellSize hconfigure
  have hpos := configure_cellSize_pos hconfigure hsize
  constructor
  · exact forEachPair_eq_calls _ radius hstill hs
  · refine ((configure_tiled hconfigure).calls_exact_iff hinv hpos hradius hcell).mpr
      (Or.inr fun p hp q hq hnear => ?_)
    obtain ⟨hx, hy⟩ := abs_le_of_near hradius hnear
    obtain ⟨hpx, hpy⟩ := hsingle p hp
    obtain ⟨hqx, hqy⟩ := hsingle q hq
    exact ⟨hpx.overflows_iff hinv hpos hcell hqx hx, hpy.overflows_iff hinv hpos hcell hqy hy⟩

end

/-- Sixteen cells on a world of size 4. -/
def sixteenths : SpatialGrid :=
  { worldSize := 4, cellSize := 4 / 4, cellsPerAxis := 4, invCellSize := 1 / (4 / 4) }

/-- Records the calls. -/
def record (log : List (Nat × Nat)) (a b : Nat) : List (Nat × Nat) := log ++ [(a, b)]

/-- Two neighbours in the world, one left of it, and two in one place beyond the range of the
cast, next to the last number within it. -/
def row : List (Vec2 ℚ) :=
  [⟨1 / 2, 1 / 2⟩, ⟨3 / 2, 1 / 2⟩, ⟨-1 / 2, 1 / 2⟩, ⟨2 ^ 31, 0⟩, ⟨2 ^ 31 - 128, 0⟩, ⟨2 ^ 31, 0⟩]

theorem row_single {p : Vec2 ℚ} (hp : p ∈ row) : IsSingle p.x ∧ IsSingle p.y := by
  have hhalf : ∀ m : ℤ, |m| < 2 ^ 24 → IsSingle (m / 2) := fun m hm => ⟨m, -1, hm, by
    rw [zpow_neg_one]
    ring⟩
  simp only [row, List.mem_cons, List.not_mem_nil, or_false] at hp
  obtain rfl | rfl | rfl | rfl | rfl | rfl := hp
  · exact ⟨hhalf 1 (by decide), hhalf 1 (by decide)⟩
  · exact ⟨hhalf 3 (by decide), hhalf 1 (by decide)⟩
  · exact ⟨hhalf (-1) (by decide), hhalf 1 (by decide)⟩
  · exact ⟨⟨1, 31, by decide, by norm_num⟩, ⟨0, 0, by decide, by norm_num⟩⟩
  · exact ⟨⟨2 ^ 24 - 1, 7, by decide, by norm_num⟩, ⟨0, 0, by decide, by norm_num⟩⟩
  · exact ⟨⟨1, 31, by decide, by norm_num⟩, ⟨0, 0, by decide, by norm_num⟩⟩

theorem forEachPair_exact_row :
    let calls := (sixteenths.build row).calls row 1
    (sixteenths.build row).forEachPair (fun _ => row) 1 record [] =
        calls.foldl (fun s (a, b) => record s a b) [] ∧
      calls.count (0, 2) + calls.count (2, 0) = 1 ∧ calls.count (3, 5) + calls.count (5, 3) = 1 ∧
      (4, 3) ∉ calls := by
  intro calls
  have hconfigure : configure 4 4 = some sixteenths := rfl
  obtain ⟨hwalk, hexact⟩ := @forEachPair_exact 4 4 sixteenths hconfigure (by norm_num) row 1
    zero_le_one (by norm_num [sixteenths]) (fun _ => row_single) _ (fun _ => row) record
    (fun _ _ _ _ => rfl) [] rfl
  refine ⟨hwalk, hexact.once 0 2 (by decide) (near_iff.mp (by decide +kernel)),
    hexact.once 3 5 (by decide) (near_iff.mp (by decide +kernel)), fun hcall => ?_⟩
  have hfar : near row 1 (4, 3) = false := by decide +kernel
  rw [near_iff.mpr (hexact.only 4 3 hcall).2] at hfar
  cases hfar

end SpatialGrid
end Morton.Spatial
