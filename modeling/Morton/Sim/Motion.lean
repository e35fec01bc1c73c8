import Mathlib.Tactic.FieldSimp
import Mathlib.Tactic.Linarith
import Mathlib.Tactic.NormNum
import Mathlib.Tactic.Positivity
import Mathlib.Tactic.Ring
import Morton.Sim.QuantizedInput
import Morton.Sim.ViewerFrames

/-! Movement in exact arithmetic; the square root is a parameter. After a tick everyone is
inside the walls and no faster than a sprint, and the wire says where within half a quantum. -/
namespace Morton.Sim
open Proto Spatial

/-- The tuning that movement reads; all of it is fixed at build time. -/
structure MotionParams extends WorldParams where
  acceleration : ℚ := 1600
  maxSpeed : ℚ := 320
  friction : ℚ := 6
  tickRate : Nat := 30
  size_pos : 0 < size := by decide +kernel
  radius_nonneg : 0 ≤ playerRadius := by decide +kernel
  room : playerRadius ≤ size - playerRadius := by decide +kernel
  speed_pos : 0 < maxSpeed := by decide +kernel

/-- The defaults of `WorldParams`. -/
def MotionParams.usual : MotionParams := {}

def MotionParams.tickDt (params : MotionParams) : ℚ := 1 / params.tickRate

/-- `Vec2::length_sq`. -/
def Vec2.lengthSq (v : Vec2 ℚ) : ℚ := v.x * v.x + v.y * v.y

def Vec2.clamped (sqrt : ℚ → ℚ) (v : Vec2 ℚ) (maxLen : ℚ) : Vec2 ℚ :=
  let lenSq := v.lengthSq
  if lenSq ≤ maxLen * maxLen then v
  else
    let len := sqrt lenSq
    ⟨v.x / len * maxLen, v.y / len * maxLen⟩

/-- One axis at the walls. -/
def confine (low high position velocity : ℚ) : ℚ × ℚ :=
  if position < low then (low, if velocity < 0 then 0 else velocity)
  else if high < position then (high, if 0 < velocity then 0 else velocity)
  else (position, velocity)

section
variable (sqrt : ℚ → ℚ) (params : MotionParams)

def sprintSpeed (sprint : Bool) : ℚ := params.maxSpeed * if sprint then 3 / 2 else 1

def stepMovement (state : MoveState ℚ) (input : MoveInput (ℚ × ℚ)) : MoveState ℚ :=
  let dt := params.tickDt
  let direction : Vec2 ℚ := ⟨input.axes.1, input.axes.2⟩
  let magnitudeSq := direction.lengthSq
  let direction := if 1 < magnitudeSq then direction * (1 / sqrt magnitudeSq) else direction
  let acceleration := params.acceleration * if input.sprint then 8 / 5 else 1
  let velocity := state.velocity + direction * (acceleration * dt)
  let damping := 1 / (1 + params.friction * dt)
  let velocity := (velocity * damping).clamped sqrt (sprintSpeed params input.sprint)
  let position := state.position + velocity * dt
  let low := params.playerRadius
  let high := params.size - params.playerRadius
  let x := confine low high position.x velocity.x
  let y := confine low high position.y velocity.y
  ⟨⟨x.1, y.1⟩, ⟨x.2, y.2⟩⟩

end

/-- Wire resolution for replicated state. -/
structure ReplicationQuantizers where
  position : Quantizer
  velocity : Quantizer

/-- `ReplicationQuantizers::from`. -/
def ReplicationQuantizers.ofParams (params : MotionParams) : ReplicationQuantizers where
  position := { min := 0, max := params.size, bits := 16 }
  velocity := { min := -params.maxSpeed * 2, max := params.maxSpeed * 2, bits := kVelocityBits }

namespace ReplicationQuantizers

/-- `encode` on one gathered entity. -/
def encode (q : ReplicationQuantizers) (id : Nat) (position velocity : Vec2 ℚ)
    (kind : EntityKind) : EntityWireState where
  id := id
  px := q.position.encode position.x % 2 ^ 16
  py := q.position.encode position.y % 2 ^ 16
  vx := q.velocity.encode velocity.x % 2 ^ 16
  vy := q.velocity.encode velocity.y % 2 ^ 16
  kind :=
    match kind with
    | .player => 0
    | .drifter => 1

def decode (q : ReplicationQuantizers) (state : EntityWireState) : MoveState ℚ where
  position := ⟨q.position.decode state.px, q.position.decode state.py⟩
  velocity := ⟨q.velocity.decode state.vx, q.velocity.decode state.vy⟩

end ReplicationQuantizers

/-- Movement as both sides compute it. -/
def Physics.exact (sqrt : ℚ → ℚ) (params : MotionParams) : Physics (MoveState ℚ) (ℚ × ℚ) where
  stepMovement := Sim.stepMovement sqrt params
  quantizeInput := Proto.quantizeInput
  decode := (ReplicationQuantizers.ofParams params).decode
  initial := ⟨⟨0, 0⟩, ⟨0, 0⟩⟩
  centered := (0, 0)

/-- Between the walls. -/
def Inside (params : MotionParams) (p : Vec2 ℚ) : Prop :=
  (params.playerRadius ≤ p.x ∧ p.x ≤ params.size - params.playerRadius) ∧
    params.playerRadius ≤ p.y ∧ p.y ≤ params.size - params.playerRadius

/-- No faster than a sprint. -/
def Paced (params : MotionParams) (v : Vec2 ℚ) : Prop :=
  v.lengthSq ≤ sprintSpeed params true * sprintSpeed params true

section
variable {sqrt : ℚ → ℚ} {params : MotionParams}

theorem confine_mem {low high : ℚ} (h : low ≤ high) (position velocity : ℚ) :
    low ≤ (confine low high position velocity).1 ∧ (confine low high position velocity).1 ≤ high := by
  have hposition : (confine low high position velocity).1 = clampf position low high := by
    unfold confine clampf
    split
    · rfl
    · split <;> rfl
  rw [hposition]
  exact Quantizer.clampf_mem h

/-- A wall only ever stops. -/
theorem confine_slower (low high position velocity : ℚ) :
    (confine low high position velocity).2 * (confine low high position velocity).2 ≤
      velocity * velocity := by
  have hnonneg := mul_self_nonneg velocity
  unfold confine
  split_ifs <;> simp only [mul_zero, le_refl, hnonneg]

theorem clamped_lengthSq (hsqrt : ∀ x, 0 ≤ x → x ≤ sqrt x * sqrt x) (v : Vec2 ℚ) (maxLen : ℚ) :
    (v.clamped sqrt maxLen).lengthSq ≤ maxLen * maxLen := by
  unfold Vec2.clamped
  dsimp only
  split
  next hshort => exact hshort
  next hlong =>
    have hpos : 0 < v.lengthSq := (mul_self_nonneg maxLen).trans_lt (not_le.mp hlong)
    have hroot := hsqrt v.lengthSq hpos.le
    generalize sqrt v.lengthSq = len at hroot
    have hlen : 0 < len * len := hpos.trans_le hroot
    have hne : len ≠ 0 := fun hzero => by simp [hzero] at hlen
    calc (⟨v.x / len * maxLen, v.y / len * maxLen⟩ : Vec2 ℚ).lengthSq
        = v.lengthSq / (len * len) * (maxLen * maxLen) := by
          simp only [Vec2.lengthSq]
          field_simp
      _ ≤ 1 * (maxLen * maxLen) := by
          apply mul_le_mul_of_nonneg_right _ (mul_self_nonneg maxLen)
          rwa [div_le_one hlen]
      _ = maxLen * maxLen := one_mul _

theorem sprintSpeed_le (sprint : Bool) :
    sprintSpeed params sprint * sprintSpeed params sprint ≤
      sprintSpeed params true * sprintSpeed params true := by
  have hpos := params.speed_pos
  cases sprint with
  | true => exact le_rfl
  | false =>
    simp only [sprintSpeed, if_true, Bool.false_eq_true, if_false]
    nlinarith

theorem stepMovement_inside (state : MoveState ℚ) (input : MoveInput (ℚ × ℚ)) :
    Inside params (stepMovement sqrt params state input).position :=
  ⟨confine_mem params.room _ _, confine_mem params.room _ _⟩

theorem stepMovement_paced (hsqrt : ∀ x, 0 ≤ x → x ≤ sqrt x * sqrt x) (state : MoveState ℚ)
    (input : MoveInput (ℚ × ℚ)) : Paced params (stepMovement sqrt params state input).velocity := by
  have hlimit := @sprintSpeed_le params input.sprint
  unfold stepMovement
  dsimp only
  generalize hdirection : (_ : Vec2 ℚ) * (1 / (1 + params.friction * params.tickDt)) = pushed
  have hclamped := clamped_lengthSq hsqrt pushed (sprintSpeed params input.sprint)
  generalize pushed.clamped sqrt (sprintSpeed params input.sprint) = velocity at hclamped
  have hx := confine_slower params.playerRadius (params.size - params.playerRadius)
    (state.position + velocity * params.tickDt).x velocity.x
  have hy := confine_slower params.playerRadius (params.size - params.playerRadius)
    (state.position + velocity * params.tickDt).y velocity.y
  exact (add_le_add hx hy).trans (hclamped.trans hlimit)

end
theorem EntityStore.mem_swapPop {α : Type} {xs : List α} {index : Nat} {x : α}
    (h : x ∈ EntityStore.swapPop xs index) : x ∈ xs := by
  obtain ⟨j, hj⟩ := List.mem_iff_getElem?.mp h
  rw [EntityStore.swapPop_getElem?] at hj
  split at hj
  · split at hj
    · exact List.mem_of_getElem? hj
    · exact List.mem_of_getElem? hj
  · cases hj

namespace World
variable {F A : Type} (sim : Simulation F A) {P : Vec2 F → Prop}

/-- What movement makes of every velocity, a tick keeps. -/
theorem velocity_applyInput (hmoved : ∀ state input, P (sim.stepMovement state input).velocity)
    {w : World F A} (h : ∀ v ∈ w.entities.velocity, P v) (client : Nat) :
    ∀ v ∈ (applyInput sim w client).entities.velocity, P v := by
  unfold applyInput
  split
  · exact h
  · split
    · exact h
    · split
      · intro v hv
        cases List.mem_or_eq_of_mem_set hv with
        | inl hold => exact h v hold
        | inr hnew => exact hnew ▸ hmoved _ _
      · exact h

theorem velocity_driveDrifter (hmoved : ∀ state input, P (sim.stepMovement state input).velocity)
    {s : EntityStore F} (h : ∀ v ∈ s.velocity, P v) (epoch : UInt32) (index : Nat) :
    ∀ v ∈ (driveDrifter sim epoch s index).velocity, P v := by
  unfold driveDrifter
  split
  · intro v hv
    cases List.mem_or_eq_of_mem_set hv with
    | inl hold => exact h v hold
    | inr hnew => exact hnew ▸ hmoved _ _
  · exact h

theorem velocity_step (hmoved : ∀ state input, P (sim.stepMovement state input).velocity)
    {w : World F A} (h : ∀ v ∈ w.entities.velocity, P v) (order : List Nat) :
    ∀ v ∈ (step sim w order).entities.velocity, P v := by
  have hinputs := List.foldlRecOn order (applyInput sim)
    (motive := fun w : World F A => ∀ v ∈ w.entities.velocity, P v)
    (b := { w with stats := { w.stats with inputsApplied := 0, inputsStarved := 0 } }) h
    fun w hw client _ => velocity_applyInput sim hmoved hw client
  exact List.foldlRecOn _ (driveDrifter sim _)
    (motive := fun s : EntityStore F => ∀ v ∈ s.velocity, P v) hinputs
    fun s hs index _ => velocity_driveDrifter sim hmoved hs _ index

/-- Every entity that is taken over comes with such a velocity. -/
def Brings (P : Vec2 F → Prop) : WorldAction F A → Prop
  | .adoptEntity _ _ _ velocity _ => P velocity
  | _ => True

theorem velocity_act [Zero F] (hmoved : ∀ state input, P (sim.stepMovement state input).velocity)
    (hrest : P ⟨0, 0⟩) {w : World F A} (h : ∀ v ∈ w.entities.velocity, P v)
    {action : WorldAction F A} (hbrings : Brings P action) :
    ∀ v ∈ (w.act sim action).entities.velocity, P v := by
  -- a new row is at rest
  have hadd : ∀ v ∈ w.entities.velocity ++ [⟨0, 0⟩], P v := by
    intro v hv
    cases List.mem_append.mp hv with
    | inl hold => exact h v hold
    | inr hnew => exact List.mem_singleton.mp hnew ▸ hrest
  cases action with
  | spawnPlayer client position => exact hadd
  | spawnDrifter position => exact hadd
  | despawn entity =>
    simp only [act, World.despawn]
    split
    · exact h
    next index hfind =>
      intro v hv
      rw [EntityStore.remove_of_find hfind] at hv
      exact h v (EntityStore.mem_swapPop hv)
  | adoptEntity entity client position velocity sequence =>
    intro v hv
    simp only [act, World.adoptEntity] at hv
    split at hv
    all_goals
      cases List.mem_or_eq_of_mem_set hv with
      | inl hold => first | exact hadd v hold | exact h v hold
      | inr hnew => exact hnew ▸ hbrings
  | queueInput client input =>
    rw [act, (w.entities_queueInput sim.quantizeInput client input).1]
    exact h
  | step order => exact velocity_step sim hmoved h order

end World

/-- What is shown of an entity is within half a quantum of what it does. -/
structure ShownNear (params : MotionParams) (shown actual : MoveState ℚ) : Prop where
  x : |shown.position.x - actual.position.x| ≤ params.size / 65535 / 2
  y : |shown.position.y - actual.position.y| ≤ params.size / 65535 / 2
  vx : |shown.velocity.x - actual.velocity.x| ≤ params.maxSpeed * 4 / 4095 / 2
  vy : |shown.velocity.y - actual.velocity.y| ≤ params.maxSpeed * 4 / 4095 / 2

namespace ReplicationQuantizers
variable {params : MotionParams}

theorem position_range : (ofParams params).position.min < (ofParams params).position.max :=
  params.size_pos

theorem velocity_range : (ofParams params).velocity.min < (ofParams params).velocity.max := by
  have hpos := params.speed_pos
  change -params.maxSpeed * 2 < params.maxSpeed * 2
  linarith

theorem velocity_lt (value : ℚ) : (ofParams params).velocity.encode value < 2 ^ kVelocityBits :=
  (Quantizer.agrees velocity_range (show 1 ≤ 12 by decide) (show 12 ≤ 31 by decide)).range value

theorem encode_fits {id : Nat} (hid : id < 2 ^ 32) (position velocity : Vec2 ℚ)
    (kind : EntityKind) : ((ofParams params).encode id position velocity kind).Fits where
  id := hid
  px := Nat.mod_lt _ (by decide)
  py := Nat.mod_lt _ (by decide)
  vx := (Nat.mod_le _ _).trans_lt (velocity_lt velocity.x)
  vy := (Nat.mod_le _ _).trans_lt (velocity_lt velocity.y)
  kind := by
    cases kind with
    | player => exact show 0 < 2 ^ kKindBits by decide
    | drifter => exact show 1 < 2 ^ kKindBits by decide

/-- A coordinate in range is shown within half a quantum. -/
theorem decode_near {q : Quantizer} (hrange : q.min < q.max) (hlow : 1 ≤ q.bits)
    (hbits : q.bits ≤ 16) {value : ℚ} (hmin : q.min ≤ value) (hmax : value ≤ q.max) :
    |q.decode (q.encode value % 2 ^ 16) - value| ≤ (q.max - q.min) / (2 ^ q.bits - 1) / 2 := by
  have hagrees := Quantizer.agrees hrange hlow (hbits.trans (by decide))
  have hlt : q.encode value < 2 ^ 16 :=
    (hagrees.range value).trans_le (Nat.pow_le_pow_right (by decide) hbits)
  have hnear := hagrees.near value
  rwa [Quantizer.clampf_of_mem hmin hmax, Quantizer.snap, ← Nat.mod_eq_of_lt hlt] at hnear

/-- A sprint is well within the range of the wire. -/
theorem paced_range {v : Vec2 ℚ} (h : Paced params v) :
    (-params.maxSpeed * 2 ≤ v.x ∧ v.x ≤ params.maxSpeed * 2) ∧
      -params.maxSpeed * 2 ≤ v.y ∧ v.y ≤ params.maxSpeed * 2 := by
  have hpos := params.speed_pos
  simp only [Paced, Vec2.lengthSq, sprintSpeed, if_true] at h
  refine ⟨⟨?_, ?_⟩, ?_, ?_⟩ <;> nlinarith [mul_self_nonneg v.x, mul_self_nonneg v.y]

theorem encode_shown {position velocity : Vec2 ℚ} (hinside : Inside params position)
    (hpaced : Paced params velocity) (id : Nat) (kind : EntityKind) :
    ShownNear params ((ofParams params).decode ((ofParams params).encode id position velocity kind))
      ⟨position, velocity⟩ := by
  have hradius := params.radius_nonneg
  obtain ⟨hvx, hvy⟩ := paced_range hpaced
  have hposition : ∀ value, params.playerRadius ≤ value →
      value ≤ params.size - params.playerRadius →
      |(ofParams params).position.decode ((ofParams params).position.encode value % 2 ^ 16) -
        value| ≤ params.size / 65535 / 2 := by
    intro value hlow hhigh
    have hnear := decode_near (@position_range params) (show 1 ≤ 16 by decide)
      (show 16 ≤ 16 by decide) (show (0 : ℚ) ≤ value by linarith) (show value ≤ params.size by linarith)
    have hquantum : ((ofParams params).position.max - (ofParams params).position.min) /
        (2 ^ (ofParams params).position.bits - 1) / 2 = params.size / 65535 / 2 := by
      norm_num [ofParams]
    rwa [hquantum] at hnear
  have hvelocity : ∀ value, -params.maxSpeed * 2 ≤ value → value ≤ params.maxSpeed * 2 →
      |(ofParams params).velocity.decode ((ofParams params).velocity.encode value % 2 ^ 16) -
        value| ≤ params.maxSpeed * 4 / 4095 / 2 := by
    intro value hlow hhigh
    have hnear := decode_near (@velocity_range params) (show 1 ≤ 12 by decide)
      (show 12 ≤ 16 by decide) hlow hhigh
    have hquantum : ((ofParams params).velocity.max - (ofParams params).velocity.min) /
        (2 ^ (ofParams params).velocity.bits - 1) / 2 = params.maxSpeed * 4 / 4095 / 2 := by
      norm_num [ofParams, kVelocityBits]
      ring
    rwa [hquantum] at hnear
  exact ⟨hposition _ hinside.1.1 hinside.1.2, hposition _ hinside.2.1 hinside.2.2,
    hvelocity _ hvx.1 hvx.2, hvelocity _ hvy.1 hvy.2⟩

end ReplicationQuantizers

/-- The lens of these quantizers. -/
def Lens.exact (sqrt : ℚ → ℚ) (params : MotionParams) (aoiRadius : ℚ) : Lens ℚ where
  state := (ReplicationQuantizers.ofParams params).encode
  closeness state eye :=
    let decoded := ((ReplicationQuantizers.ofParams params).decode state).position
    1 - clampf (sqrt (distanceSq decoded eye) / aoiRadius) 0 1
  id _ _ _ _ := rfl
  fits _ position velocity kind hid := ReplicationQuantizers.encode_fits hid position velocity kind
  near state eye := by
    obtain ⟨hlow, hhigh⟩ := Quantizer.clampf_mem (zero_le_one' ℚ)
      (v := sqrt (distanceSq ((ReplicationQuantizers.ofParams params).decode state).position eye) /
        aoiRadius)
    exact ⟨sub_nonneg.mpr hhigh, sub_le_self 1 hlow⟩

namespace GridWorld
variable (math : CollisionMath) (sqrt : ℚ → ℚ) (params : MotionParams)
  (drifterAxes : UInt32 → ℚ × ℚ)

/-- A call on a world with its grid. -/
def act (w : GridWorld (ℚ × ℚ)) : WorldAction ℚ (ℚ × ℚ) → GridWorld (ℚ × ℚ)
  | .step order => w.step math (.exact sqrt params) drifterAxes order
  | action =>
    { w with world := w.world.act (w.simulation math (.exact sqrt params) drifterAxes) action }

theorem act_world (w : GridWorld (ℚ × ℚ)) (action : WorldAction ℚ (ℚ × ℚ)) :
    (w.act math sqrt params drifterAxes action).world =
      w.world.act (w.simulation math (.exact sqrt params) drifterAxes) action := by
  cases action with
  | _ => rfl

theorem act_params (w : GridWorld (ℚ × ℚ)) (action : WorldAction ℚ (ℚ × ℚ)) :
    (w.act math sqrt params drifterAxes action).params = w.params := by
  cases action with
  | _ => rfl

variable {sqrt} {params}

theorem paced_run (hsqrt : ∀ x, 0 ≤ x → x ≤ sqrt x * sqrt x) {w : GridWorld (ℚ × ℚ)}
    (h : ∀ v ∈ w.world.entities.velocity, Paced params v) {actions : List (WorldAction ℚ (ℚ × ℚ))}
    (hbrings : ∀ action ∈ actions, World.Brings (Paced params) action) :
    ∀ v ∈ (Run.run (act math sqrt params drifterAxes) w actions).world.entities.velocity,
      Paced params v := by
  have hrest : Paced params ⟨0, 0⟩ := by
    have := mul_self_nonneg (sprintSpeed params true)
    simpa [Paced, Vec2.lengthSq] using this
  have hok : Run.Along (act math sqrt params drifterAxes)
      (fun _ action => World.Brings (Paced params) action) w actions :=
    Run.along_of_forall w hbrings
  apply Run.invariant (fun w : GridWorld (ℚ × ℚ) => ∀ v ∈ w.world.entities.velocity, Paced params v)
    _ h hok
  intro w action hbrings hw
  rw [act_world]
  exact World.velocity_act (w.simulation math (.exact sqrt params) drifterAxes)
    (fun state input => stepMovement_paced hsqrt state input) hrest hw hbrings

theorem params_run (w : GridWorld (ℚ × ℚ)) (actions : List (WorldAction ℚ (ℚ × ℚ))) :
    (Run.run (act math sqrt params drifterAxes) w actions).params = w.params :=
  Run.invariant_always (fun w' : GridWorld (ℚ × ℚ) => w'.params = w.params)
    (fun w' action h => (w'.act_params math sqrt params drifterAxes action).trans h) rfl actions

theorem configure_fields {params : WorldParams} {cellsPerAxis : Nat} {w : GridWorld (ℚ × ℚ)}
    (h : configure params cellsPerAxis = some w) : w.params = params ∧ w.world = {} := by
  unfold configure at h
  split at h
  · cases h
  · split at h
    · cases h
    · cases h
      exact ⟨rfl, rfl⟩

/-- Collisions end at the walls. -/
theorem step_inside {w : GridWorld (ℚ × ℚ)} (hparams : w.params = params.toWorldParams)
    (physics : Physics (MoveState ℚ) (ℚ × ℚ)) (order : List Nat) :
    ∀ p ∈ (w.step math physics drifterAxes order).world.entities.position, Inside params p := by
  intro p hp
  rw [step_position, resolveCollisions, hparams] at hp
  obtain ⟨q, -, rfl⟩ := List.mem_map.mp hp
  exact ⟨Quantizer.clampf_mem params.room, Quantizer.clampf_mem params.room⟩

/-- After a tick, whatever was spawned, adopted, queued and stepped before it, everyone is inside
the walls and no faster than a sprint, and every state that is in a viewer's sight decodes to
within half a quantum of where its entity is and how it moves. -/
theorem bounded_run (hsqrt : ∀ x, 0 ≤ x → x ≤ sqrt x * sqrt x) {cellsPerAxis : Nat}
    {w : GridWorld (ℚ × ℚ)} (hconfigure : configure params.toWorldParams cellsPerAxis = some w)
    {actions : List (WorldAction ℚ (ℚ × ℚ))}
    (hbrings : ∀ action ∈ actions, World.Brings (Paced params) action) (order : List Nat)
    (viewer : Nat) (aoiRadius : ℚ) :
    let after := (Run.run (act math sqrt params drifterAxes) w actions).step math
      (.exact sqrt params) drifterAxes order
    (∀ p ∈ after.world.entities.position, Inside params p) ∧
    (∀ v ∈ after.world.entities.velocity, Paced params v) ∧
    ∀ c ∈ (after.scene (.exact sqrt params aoiRadius) viewer aoiRadius).current,
      ∃ (index : Nat) (position velocity : Vec2 ℚ), after.world.entities.id[index]? = some c.id ∧
        after.world.entities.position[index]? = some position ∧
        after.world.entities.velocity[index]? = some velocity ∧
        ShownNear params ((ReplicationQuantizers.ofParams params).decode c) ⟨position, velocity⟩ := by
  intro after
  obtain ⟨hparams, hempty⟩ := configure_fields hconfigure
  have hinside : ∀ p ∈ after.world.entities.position, Inside params p :=
    step_inside math drifterAxes ((params_run math drifterAxes w actions).trans hparams) _ order
  have hpaced : ∀ v ∈ after.world.entities.velocity, Paced params v := by
    have hstart : ∀ v ∈ w.world.entities.velocity, Paced params v := by
      rw [hempty]
      intro v hv
      cases hv
    have hall : ∀ action ∈ actions ++ [.step order], World.Brings (Paced params) action := by
      intro action haction
      cases List.mem_append.mp haction with
      | inl hearlier => exact hbrings action hearlier
      | inr hlast => exact List.mem_singleton.mp hlast ▸ trivial
    have hrun := paced_run math drifterAxes hsqrt hstart hall
    rw [Run.run_append] at hrun
    exact hrun
  refine ⟨hinside, hpaced, fun c hc => ?_⟩
  cases heye : after.eye viewer with
  | none =>
    rw [Scene.mem_current] at hc
    simp [scene, heye] at hc
  | some eye =>
    obtain ⟨id, index, hgather, hstate⟩ := (mem_current (.exact sqrt params aoiRadius) heye).mp hc
    obtain ⟨-, position, hposition, hid, -⟩ := mem_gather.mp hgather
    have hcid := wireState_id hstate
    unfold wireState at hstate
    split at hstate
    next position' velocity kind hposition' hvelocity hkind =>
      obtain rfl : position' = position := Option.some.inj (hposition'.symm.trans hposition)
      refine ⟨index, position', velocity, hcid ▸ hid, hposition', hvelocity, ?_⟩
      rw [← Option.some.inj hstate]
      exact ReplicationQuantizers.encode_shown (hinside _ (List.mem_of_getElem? hposition'))
        (hpaced _ (List.mem_of_getElem? hvelocity)) id kind
    · cases hstate

/-- The square root of a fraction, exact where it is one and else the next fraction above it. -/
def rootAbove (x : ℚ) : ℚ :=
  let squared := x.num.toNat * x.den
  let root := Nat.sqrt squared
  if root * root = squared then root / x.den else (root + 1) / x.den

theorem le_rootAbove {x : ℚ} (h : 0 ≤ x) : x ≤ rootAbove x * rootAbove x := by
  have hden : (0 : ℚ) < x.den := Nat.cast_pos.mpr x.den_pos
  have hnum : ((x.num.toNat : ℕ) : ℚ) = x.num := by
    exact_mod_cast Int.toNat_of_nonneg (Rat.num_nonneg.mpr h)
  have hx : x * (x.den * x.den) = ((x.num.toNat * x.den : ℕ) : ℚ) := by
    rw [Nat.cast_mul, hnum, ← mul_assoc, Rat.mul_den_eq_num]
  have hover : ∀ root : ℚ, ((x.num.toNat * x.den : ℕ) : ℚ) ≤ root * root →
      x ≤ root / x.den * (root / x.den) := by
    intro root hroot
    rw [div_mul_div_comm, le_div_iff₀ (mul_pos hden hden), hx]
    exact hroot
  unfold rootAbove
  dsimp only
  split
  next hexact =>
    apply hover
    exact_mod_cast hexact.ge
  next =>
    apply hover
    exact_mod_cast (Nat.lt_succ_sqrt (x.num.toNat * x.den)).le

/-- A player sprints into the corner, next to a drifter taken over at full speed. -/
def cornered : List (WorldAction ℚ (ℚ × ℚ)) :=
  [.spawnPlayer 7 ⟨9, 2039⟩, .adoptEntity 5 8 ⟨12, 2030⟩ ⟨-288, 384⟩ 3,
    .queueInput 7 { sequence := 1, axes := (-1, 1), sprint := true }]

def cornerMath : CollisionMath where
  length v := rootAbove v.lengthSq
  tieAxis _ := ⟨1, 0⟩

/-- A world of four by four cells. -/
def tiledWorld : GridWorld (ℚ × ℚ) :=
  (configure MotionParams.usual.toWorldParams 4).get (by decide +kernel)

theorem bounded_run_cornered :
    let after := (Run.run (act cornerMath rootAbove .usual fun _ => (0, 0)) tiledWorld cornered).step
      cornerMath (.exact rootAbove .usual) (fun _ => (0, 0)) [7, 8]
    (∀ p ∈ after.world.entities.position, Inside .usual p) ∧
      ∀ v ∈ after.world.entities.velocity, Paced .usual v := by
  have hconfigure : configure MotionParams.usual.toWorldParams 4 = some tiledWorld :=
    (Option.some_get _).symm
  have hbrings : ∀ action ∈ cornered, World.Brings (Paced .usual) action := by
    simp only [cornered, List.forall_mem_cons, World.Brings]
    norm_num [Paced, Vec2.lengthSq, sprintSpeed, MotionParams.usual]
  have hrun := bounded_run cornerMath (fun _ => (0, 0)) (fun _ => le_rootAbove) hconfigure hbrings
    [7, 8] 1 400
  exact ⟨hrun.1, hrun.2.1⟩

end GridWorld

end Morton.Sim
