import Mathlib.Algebra.BigOperators.Group.List.Basic
import Morton.Sim.Motion

/-! What collisions do to a crowd. Two that overlap are pushed apart by equal and opposite
amounts, so the centre of mass stays until the walls, and nobody is flung further than one
radius for every neighbour in the grid. -/
namespace Morton.Sim
open Spatial
open Proto (clampf)

/-- The sum of one coordinate over all positions. -/
def total (along : Vec2 ℚ → ℚ) (positions : List (Vec2 ℚ)) : ℚ := (positions.map along).sum

theorem total_modify {along : Vec2 ℚ → ℚ} {move : Vec2 ℚ → Vec2 ℚ} {d : ℚ}
    (hmove : ∀ p, along (move p) = along p + d) {positions : List (Vec2 ℚ)} {i : Nat}
    (hi : i < positions.length) :
    total along (positions.modify i move) = total along positions + d := by
  induction positions generalizing i with
  | nil => cases hi
  | cons p positions ih =>
    cases i with
    | zero =>
      simp only [total, List.modify_zero_cons, List.map_cons, List.sum_cons, hmove]
      ring
    | succ i =>
      have hrest := ih (Nat.lt_of_succ_lt_succ hi)
      simp only [total, List.modify_succ_cons, List.map_cons, List.sum_cons] at hrest ⊢
      rw [hrest]
      ring

/-- Two moves that cancel out. -/
theorem total_exchange {along : Vec2 ℚ → ℚ} {back forth : Vec2 ℚ → Vec2 ℚ} {d : ℚ}
    (hback : ∀ p, along (back p) = along p - d) (hforth : ∀ p, along (forth p) = along p + d)
    {positions : List (Vec2 ℚ)} {a b : Nat} (ha : a < positions.length)
    (hb : b < positions.length) :
    total along ((positions.modify a back).modify b forth) = total along positions := by
  rw [total_modify hforth (by rwa [List.length_modify]),
    total_modify (d := -d) (fun p => by rw [hback, sub_eq_add_neg]) ha]
  ring

section
variable (math : CollisionMath) (params : WorldParams)

/-- The positions when all pairs have been separated, before the walls. -/
def separated (g : SpatialGrid) (ids : List Nat) (positions : List (Vec2 ℚ)) : List (Vec2 ℚ) :=
  (g.forEachPair Prod.fst (params.playerRadius * 2) (separate math params ids) (positions, 0)).1

theorem resolveCollisions_separated (g : SpatialGrid) (ids : List Nat)
    (positions : List (Vec2 ℚ)) :
    (resolveCollisions math params g ids positions).1 =
      (separated math params g ids positions).map fun p =>
        ⟨clampf p.x params.playerRadius (params.size - params.playerRadius),
          clampf p.y params.playerRadius (params.size - params.playerRadius)⟩ := rfl

/-- The half of the overlap that a pair is pushed by, along their axis. -/
theorem separate_cases (ids : List Nat) (s : List (Vec2 ℚ) × Nat) (a b : Nat) :
    (separate math params ids s a b).1 = s.1 ∨
      ∃ p q axis distance, s.1[a]? = some p ∧ s.1[b]? = some q ∧
        (∃ hash, axis = math.tieAxis hash ∧ distance = 0 ∨
          ¬ math.length (q - p) < 1e-4 ∧ axis = (q - p) * (1 / math.length (q - p)) ∧
            distance = math.length (q - p)) ∧
        distance < params.playerRadius * 2 ∧
        (separate math params ids s a b).1 =
          (s.1.modify a fun p => p - axis * ((params.playerRadius * 2 - distance) * 0.5)).modify b
            fun q => q + axis * ((params.playerRadius * 2 - distance) * 0.5) := by
  unfold separate
  split
  next p q hp hq =>
    dsimp only
    by_cases hclose : math.length (q - p) < 1e-4
    · rw [if_pos hclose]
      dsimp only
      split
      · exact Or.inl rfl
      next hover =>
        exact Or.inr ⟨p, q, _, 0, hp, hq, ⟨_, Or.inl ⟨rfl, rfl⟩⟩, by linarith, rfl⟩
    · rw [if_neg hclose]
      dsimp only
      split
      · exact Or.inl rfl
      next hover =>
        exact Or.inr ⟨p, q, _, _, hp, hq, ⟨0, Or.inr ⟨hclose, rfl, rfl⟩⟩, by linarith, rfl⟩
  · exact Or.inl rfl

theorem separate_total (ids : List Nat) (s : List (Vec2 ℚ) × Nat) (a b : Nat) :
    total Vec2.x (separate math params ids s a b).1 = total Vec2.x s.1 ∧
      total Vec2.y (separate math params ids s a b).1 = total Vec2.y s.1 := by
  rcases separate_cases math params ids s a b with
    hsame | ⟨p, q, axis, distance, hp, hq, -, -, heq⟩
  · rw [hsame]
    exact ⟨rfl, rfl⟩
  · rw [heq]
    have ha := (List.getElem?_eq_some_iff.mp hp).1
    have hb := (List.getElem?_eq_some_iff.mp hq).1
    exact ⟨total_exchange (fun _ => rfl) (fun _ => rfl) ha hb,
      total_exchange (fun _ => rfl) (fun _ => rfl) ha hb⟩

theorem separated_total (g : SpatialGrid) (ids : List Nat) (positions : List (Vec2 ℚ)) :
    total Vec2.x (separated math params g ids positions) = total Vec2.x positions ∧
      total Vec2.y (separated math params g ids positions) = total Vec2.y positions := by
  have hkeeps : ∀ (s : List (Vec2 ℚ) × Nat) (a b : Nat),
      (total Vec2.x s.1 = total Vec2.x positions ∧ total Vec2.y s.1 = total Vec2.y positions) →
      total Vec2.x (separate math params ids s a b).1 = total Vec2.x positions ∧
        total Vec2.y (separate math params ids s a b).1 = total Vec2.y positions := by
    intro s a b h
    obtain ⟨hx, hy⟩ := separate_total math params ids s a b
    exact ⟨hx.trans h.1, hy.trans h.2⟩
  exact g.forEachPair_keeps Prod.fst (params.playerRadius * 2) hkeeps ⟨rfl, rfl⟩

end

/-- A vector is not longer than its length, and a tie breaks along one that is not longer than a
unit. -/
structure CollisionMath.Sound (math : CollisionMath) : Prop where
  nonneg : ∀ v, 0 ≤ math.length v
  length : ∀ v, v.lengthSq ≤ math.length v * math.length v
  tieAxis : ∀ hash, (math.tieAxis hash).lengthSq ≤ 1

/-- No further apart than this. -/
def Within (d : ℚ) (p q : Vec2 ℚ) : Prop := 0 ≤ d ∧ distanceSq q p ≤ d * d

theorem Within.refl {d : ℚ} (hd : 0 ≤ d) (p : Vec2 ℚ) : Within d p p := by
  refine ⟨hd, ?_⟩
  rw [distanceSq, sub_self, sub_self, mul_zero, add_zero]
  exact mul_self_nonneg d

/-- The triangle inequality, with the lengths squared. -/
theorem Within.trans {d e : ℚ} {p q r : Vec2 ℚ} (h : Within d p q) (h' : Within e q r) :
    Within (d + e) p r := by
  obtain ⟨hd, hpq⟩ := h
  obtain ⟨he, hqr⟩ := h'
  refine ⟨add_nonneg hd he, ?_⟩
  unfold distanceSq at hpq hqr ⊢
  have hx : r.x - p.x = (q.x - p.x) + (r.x - q.x) := by ring
  have hy : r.y - p.y = (q.y - p.y) + (r.y - q.y) := by ring
  rw [hx, hy]
  generalize q.x - p.x = ux at *
  generalize q.y - p.y = uy at *
  generalize r.x - q.x = vx at *
  generalize r.y - q.y = vy at *
  have hdot : ux * vx + uy * vy ≤ d * e := by
    refine le_of_abs_le (abs_le_of_sq_le_sq ?_ (mul_nonneg hd he))
    calc (ux * vx + uy * vy) ^ 2
        = (ux * ux + uy * uy) * (vx * vx + vy * vy) - (ux * vy - uy * vx) ^ 2 := by ring
      _ ≤ (ux * ux + uy * uy) * (vx * vx + vy * vy) := sub_le_self _ (sq_nonneg _)
      _ ≤ d * d * (e * e) := mul_le_mul hpq hqr
          (add_nonneg (mul_self_nonneg vx) (mul_self_nonneg vy)) (mul_self_nonneg d)
      _ = (d * e) ^ 2 := by ring
  have hsquare : (ux + vx) * (ux + vx) + (uy + vy) * (uy + vy) =
      ux * ux + uy * uy + (vx * vx + vy * vy) + 2 * (ux * vx + uy * vy) := by ring
  have hbound : (d + e) * (d + e) = d * d + e * e + 2 * (d * e) := by ring
  rw [hsquare, hbound]
  linarith

/-- The walls bring nobody further from where they were inside. -/
theorem clampf_near {low high p : ℚ} (hlow : low ≤ p) (hhigh : p ≤ high) (q : ℚ) :
    (clampf q low high - p) * (clampf q low high - p) ≤ (q - p) * (q - p) := by
  rw [← abs_le_iff_mul_self_le]
  unfold clampf
  split_ifs
  · rw [abs_of_nonpos (by linarith), abs_of_nonpos (by linarith)]
    linarith
  · rw [abs_of_nonneg (by linarith), abs_of_nonneg (by linarith)]
    linarith
  · exact le_rfl

section
variable {math : CollisionMath} {params : WorldParams}

/-- Half of an overlap is at most a radius. -/
theorem push_le {axis : Vec2 ℚ} {distance : ℚ} (haxis : axis.lengthSq ≤ 1) (hnonneg : 0 ≤ distance)
    (hover : distance < params.playerRadius * 2) :
    (axis * ((params.playerRadius * 2 - distance) * 0.5)).lengthSq ≤
      params.playerRadius * params.playerRadius := by
  have hpush : 0 ≤ (params.playerRadius * 2 - distance) * 0.5 := by linarith
  have hle : (params.playerRadius * 2 - distance) * 0.5 ≤ params.playerRadius := by linarith
  generalize (params.playerRadius * 2 - distance) * 0.5 = half at *
  calc (axis * half).lengthSq
      = axis.lengthSq * (half * half) := by
        change axis.x * half * (axis.x * half) + axis.y * half * (axis.y * half) =
          (axis.x * axis.x + axis.y * axis.y) * (half * half)
        ring
    _ ≤ 1 * (half * half) := mul_le_mul_of_nonneg_right haxis (mul_self_nonneg half)
    _ = half * half := one_mul _
    _ ≤ params.playerRadius * params.playerRadius := mul_self_le_mul_self hpush hle

/-- A vector over its length is not longer than a unit. -/
theorem axis_le (hmath : math.Sound) {v : Vec2 ℚ} (hlong : 0 < math.length v) :
    (v * (1 / math.length v)).lengthSq ≤ 1 := by
  have hsquare : (v * (1 / math.length v)).lengthSq =
      v.lengthSq / (math.length v * math.length v) := by
    change v.x * (1 / math.length v) * (v.x * (1 / math.length v)) +
        v.y * (1 / math.length v) * (v.y * (1 / math.length v)) =
      (v.x * v.x + v.y * v.y) / (math.length v * math.length v)
    field_simp
  rw [hsquare, div_le_one (mul_pos hlong hlong)]
  exact hmath.length v

/-- One call of the callback moves its two, each by a radius at most. -/
theorem separate_moves (hmath : math.Sound) (hradius : 0 ≤ params.playerRadius) (ids : List Nat)
    (s : List (Vec2 ℚ) × Nat) (a b : Nat) {i : Nat} {p : Vec2 ℚ} (hp : s.1[i]? = some p) :
    ∃ p', (separate math params ids s a b).1[i]? = some p' ∧
      Within (if i = a ∨ i = b then params.playerRadius else 0) p p' := by
  have hsmall : 0 ≤ if i = a ∨ i = b then params.playerRadius else 0 := by
    split
    · exact hradius
    · exact le_rfl
  rcases separate_cases math params ids s a b with
    hsame | ⟨pa, pb, axis, distance, -, -, ⟨hash, haxis⟩, hover, heq⟩
  · rw [hsame]
    exact ⟨p, hp, Within.refl hsmall p⟩
  · have hbounds : 0 ≤ distance ∧ axis.lengthSq ≤ 1 := by
      rcases haxis with ⟨rfl, rfl⟩ | ⟨hfar, rfl, rfl⟩
      · exact ⟨le_refl 0, hmath.tieAxis hash⟩
      · have hlong : 0 < math.length (pb - pa) := by linarith
        exact ⟨hlong.le, axis_le hmath hlong⟩
    have hpushed := push_le hbounds.2 hbounds.1 hover
    generalize hpush : axis * ((params.playerRadius * 2 - distance) * 0.5) = push at hpushed
    rw [heq, hpush, List.getElem?_modify, List.getElem?_modify, hp]
    refine ⟨_, rfl, ?_⟩
    have hback : Within params.playerRadius p (p - push) := by
      refine ⟨hradius, le_of_eq_of_le ?_ hpushed⟩
      change (p.x - push.x - p.x) * (p.x - push.x - p.x) +
        (p.y - push.y - p.y) * (p.y - push.y - p.y) = push.x * push.x + push.y * push.y
      ring
    have hforth : Within params.playerRadius p (p + push) := by
      refine ⟨hradius, le_of_eq_of_le ?_ hpushed⟩
      change (p.x + push.x - p.x) * (p.x + push.x - p.x) +
        (p.y + push.y - p.y) * (p.y + push.y - p.y) = push.x * push.x + push.y * push.y
      ring
    have hboth : p - push + push = p := by
      show (⟨p.x - push.x + push.x, p.y - push.y + push.y⟩ : Vec2 ℚ) = p
      rw [sub_add_cancel, sub_add_cancel]
    by_cases ha : a = i
    · by_cases hb : b = i
      · simpa only [ha, hb, if_true, true_or, hboth] using Within.refl hradius p
      · simpa only [ha, hb, if_true, if_false, true_or] using hback
    · by_cases hb : b = i
      · simpa only [ha, hb, if_true, if_false, or_true] using hforth
      · simpa only [ha, hb, Ne.symm ha, Ne.symm hb, if_false, or_false] using Within.refl le_rfl p

/-- How many of the pairs an entity is in. -/
def neighbours (pairs : List (Nat × Nat)) (i : Nat) : Nat :=
  pairs.countP fun pair => decide (i = pair.1 ∨ i = pair.2)

theorem neighbours_snoc (pairs : List (Nat × Nat)) (a b i : Nat) :
    neighbours (pairs ++ [(a, b)]) i = neighbours pairs i + if i = a ∨ i = b then 1 else 0 := by
  simp [neighbours, List.countP_append, List.countP_singleton]

/-- What every element of a fold keeps, in terms of the elements so far. -/
theorem foldl_along {α β : Type*} {P : List α → β → Prop} {f : β → α → β}
    (hstep : ∀ done b a, P done b → P (done ++ [a]) (f b a)) {b : β} (h : P [] b) (l : List α) :
    P l (l.foldl f b) := by
  induction l using List.reverseRecOn with
  | nil => exact h
  | append_singleton l a ih =>
    rw [List.foldl_append]
    exact hstep l (l.foldl f b) a ih

/-- What every pair of the walk keeps, called or not, in terms of the pairs so far. -/
theorem forEachPair_along {σ : Type} {P : List (Nat × Nat) → σ → Prop} (g : SpatialGrid)
    (positions : σ → List (Vec2 ℚ)) (radius : ℚ) {fn : σ → Nat → Nat → σ}
    (hfn : ∀ done s a b, P done s → P (done ++ [(a, b)]) (fn s a b))
    (hskip : ∀ done s a b, P done s → P (done ++ [(a, b)]) s) {s : σ} (hs : P [] s) :
    P g.nearbyPairs (g.forEachPair positions radius fn s) := by
  unfold SpatialGrid.forEachPair
  refine foldl_along (fun done s pair h => ?_) hs g.nearbyPairs
  dsimp only
  split
  · split
    · exact hfn done s _ _ h
    · exact hskip done s _ _ h
  · exact hskip done s _ _ h

/-- Nobody is moved further than a radius for every pair. -/
theorem separated_moves (hmath : math.Sound) (hradius : 0 ≤ params.playerRadius)
    (g : SpatialGrid) (ids : List Nat) {positions : List (Vec2 ℚ)} {i : Nat} {p : Vec2 ℚ}
    (hp : positions[i]? = some p) :
    ∃ p', (separated math params g ids positions)[i]? = some p' ∧
      Within (neighbours g.nearbyPairs i * params.playerRadius) p p' := by
  have hmore : ∀ (done : List (Nat × Nat)) (a b : Nat),
      (neighbours (done ++ [(a, b)]) i : ℚ) * params.playerRadius =
        neighbours done i * params.playerRadius +
          if i = a ∨ i = b then params.playerRadius else 0 := by
    intro done a b
    rw [neighbours_snoc]
    split
    · push_cast
      ring
    · push_cast
      ring
  refine forEachPair_along (P := fun done (s : List (Vec2 ℚ) × Nat) => ∃ p', s.1[i]? = some p' ∧
    Within (neighbours done i * params.playerRadius) p p') g Prod.fst (params.playerRadius * 2)
    (fun done s a b h => ?_) (fun done s a b h => ?_) ⟨p, hp, ?_⟩
  · obtain ⟨q, hq, hnear⟩ := h
    obtain ⟨p', hp', hmoved⟩ := separate_moves hmath hradius ids s a b hq
    exact ⟨p', hp', hmore done a b ▸ hnear.trans hmoved⟩
  · obtain ⟨q, hq, hnear⟩ := h
    refine ⟨q, hq, hmore done a b ▸ hnear.trans (Within.refl ?_ q)⟩
    split
    · exact hradius
    · exact le_rfl
  · simpa [neighbours] using Within.refl le_rfl p

end

namespace GridWorld
variable {math : CollisionMath} {params : MotionParams}

/-- In a tick of any world, the pushes of the pair walk leave the centre of mass where it was,
then the walls clamp what they give, and nobody who was inside has moved further than a radius for
each pair of neighbours in the grid. -/
theorem collisions_conserve (hmath : math.Sound) (w : GridWorld (ℚ × ℚ))
    (hparams : w.params = params.toWorldParams) (physics : Physics (MoveState ℚ) (ℚ × ℚ))
    (drifterAxes : UInt32 → ℚ × ℚ) (order : List Nat) :
    let before := (w.integrate math physics drifterAxes order).entities
    let grid := w.grid.build before.position
    let moved := separated math w.params grid before.id before.position
    let after := (w.step math physics drifterAxes order).world.entities.position
    after = moved.map (fun p =>
      ⟨clampf p.x params.playerRadius (params.size - params.playerRadius),
        clampf p.y params.playerRadius (params.size - params.playerRadius)⟩) ∧
    total Vec2.x moved = total Vec2.x before.position ∧
    total Vec2.y moved = total Vec2.y before.position ∧
    ∀ i p, before.position[i]? = some p → Inside params p →
      ∃ p', after[i]? = some p' ∧
        Within (neighbours grid.nearbyPairs i * params.playerRadius) p p' := by
  intro before grid moved after
  have hafter : after = moved.map fun p =>
      ⟨clampf p.x params.playerRadius (params.size - params.playerRadius),
        clampf p.y params.playerRadius (params.size - params.playerRadius)⟩ := by
    have hstep := w.step_position math physics drifterAxes order
    dsimp only at hstep
    rw [resolveCollisions_separated] at hstep
    rw [← show w.params.playerRadius = params.playerRadius by rw [hparams],
      ← show w.params.size = params.size by rw [hparams]]
    exact hstep
  obtain ⟨hx, hy⟩ := separated_total math w.params grid before.id before.position
  refine ⟨hafter, hx, hy, fun i p hp hinside => ?_⟩
  have hradius : 0 ≤ w.params.playerRadius := by
    rw [hparams]
    exact params.radius_nonneg
  obtain ⟨q, hq, hnonneg, hnear⟩ := separated_moves hmath hradius grid before.id hp
  rw [hparams] at hnonneg hnear
  refine ⟨_, by rw [hafter, List.getElem?_map, hq]; rfl, hnonneg, le_trans ?_ hnear⟩
  exact add_le_add (clampf_near hinside.1.1 hinside.1.2 q.x) (clampf_near hinside.2.1 hinside.2.2 q.y)

theorem rootAbove_nonneg (x : ℚ) : 0 ≤ rootAbove x := by
  unfold rootAbove
  dsimp only
  split <;> positivity

theorem cornerMath_sound : cornerMath.Sound where
  nonneg v := rootAbove_nonneg v.lengthSq
  length v := le_rootAbove (add_nonneg (mul_self_nonneg v.x) (mul_self_nonneg v.y))
  tieAxis _ := by norm_num [cornerMath, Vec2.lengthSq]

/-- A world of one cell. -/
def narrowWorld : GridWorld (ℚ × ℚ) :=
  (configure MotionParams.usual.toWorldParams 1).get (by decide +kernel)

/-- The player and the drifter of `cornered` in it. -/
def narrow : GridWorld (ℚ × ℚ) :=
  Run.run (act cornerMath rootAbove .usual fun _ => (0, 0)) narrowWorld cornered

/-- They are pushed apart along the wall, and the corner holds the player back. -/
theorem collisions_conserve_cornered :
    let before := (narrow.integrate cornerMath (.exact rootAbove .usual) (fun _ => (0, 0))
      [7, 8]).entities
    let moved := separated cornerMath narrow.params (narrow.grid.build before.position) before.id
      before.position
    let after := (narrow.step cornerMath (.exact rootAbove .usual) (fun _ => (0, 0))
      [7, 8]).world.entities
    before.position = [⟨8, 2040⟩, ⟨8, 30578 / 15⟩] ∧
      after.position = [⟨8, 2040⟩, ⟨8, 30469 / 15⟩] ∧
      total Vec2.y moved = 2040 + 30578 / 15 ∧
      ∃ p', after.position[1]? = some p' ∧ Within 8 ⟨8, 30578 / 15⟩ p' := by
  have hconfigure : configure MotionParams.usual.toWorldParams 1 = some narrowWorld :=
    (Option.some_get _).symm
  have hparams : narrow.params = MotionParams.usual.toWorldParams :=
    (params_run cornerMath _ narrowWorld cornered).trans (configure_fields hconfigure).1
  obtain ⟨hafter, -, hy, hnear⟩ := collisions_conserve cornerMath_sound narrow hparams
    (.exact rootAbove .usual) (fun _ => (0, 0)) [7, 8]
  intro before moved after
  have hbefore : before.position = [⟨8, 2040⟩, ⟨8, 30578 / 15⟩] := by decide +kernel
  have hid : before.id = [1, 5] := by decide +kernel
  have hmoved : moved = [⟨8, 30709 / 15⟩, ⟨8, 30469 / 15⟩] := by
    dsimp only [moved]
    rw [hbefore, hid]
    decide +kernel
  have hone : neighbours (narrow.grid.build before.position).nearbyPairs 1 = 1 := by
    rw [hbefore]
    decide +kernel
  refine ⟨hbefore, ?_, ?_, ?_⟩
  · refine hafter.trans ((congrArg _ hmoved).trans ?_)
    decide +kernel
  · refine hy.trans ((congrArg _ hbefore).trans ?_)
    decide +kernel
  · obtain ⟨p', hp', hwithin⟩ := hnear 1 ⟨8, 30578 / 15⟩ (by rw [hbefore]; rfl) (by
      norm_num [Inside, MotionParams.usual])
    refine ⟨p', hp', ?_⟩
    rw [hone] at hwithin
    simpa [MotionParams.usual] using hwithin

end GridWorld
end Morton.Sim
