import Mathlib.Algebra.Order.Archimedean.Basic
import Mathlib.Data.Rat.Cast.Order
import Mathlib.Tactic.Linarith
import Mathlib.Tactic.NormNum
import Mathlib.Tactic.Ring
import Morton.Base.Samples
import Morton.Base.Run
import Morton.Sim.Mirror
import Morton.Sim.Motion

/-! What a view draws: everyone else between two snapshots, the local player where it is
predicted plus a correction that fades. Arithmetic is exact; lengths are a parameter. -/
namespace Morton.Sim
open Proto Net Keyed LowerBound Samples

/-- The part of `ClientViewConfig` that only drawing reads. -/
structure RenderConfig where
  interpolationDelayTicks : ℚ := 2
  correctionSmoothing : ℚ := 1 / 4
  correctionSnapDistance : ℚ := 120

structure RenderEntity where
  id : Nat := 0
  position : Vec2 ℚ := ⟨0, 0⟩
  velocity : Vec2 ℚ := ⟨0, 0⟩
  kind : Nat := 0
  isLocal : Bool := false

structure Drawn where
  renderTick : ℚ := 0
  renderClockStarted : Bool := false
  render : List RenderEntity := []

def kRenderClockSnapTicks : ℚ := 10

def kRenderClockCatchupRate : ℚ := 8 / 100

def lerp (a b : Vec2 ℚ) (t : ℚ) : Vec2 ℚ := ⟨a.x + (b.x - a.x) * t, a.y + (b.y - a.y) * t⟩

/-- The arithmetic of a view that draws. -/
def Display.exact (length : Vec2 ℚ → ℚ) (config : RenderConfig) :
    Display (MoveState ℚ) ℚ (Vec2 ℚ) Drawn where
  zero := 0
  greater a b := decide (b < a)
  distance replayed previous := length (replayed.position - previous.position)
  accumulate sum error := sum + error
  mean sum samples := sum / samples
  correctionSnapDistance := config.correctionSnapDistance
  noOffset := ⟨0, 0⟩
  retire previous replayed offset := previous.position - replayed.position + offset
  blank := {}
  stopped drawn := { drawn with renderClockStarted := false }

theorem Vec2.zero_scale (s : ℚ) : (⟨0, 0⟩ : Vec2 ℚ) * s = ⟨0, 0⟩ :=
  congrArg₂ Vec2.mk (zero_mul s) (zero_mul s)

theorem Vec2.scale_one (v : Vec2 ℚ) : v * (1 : ℚ) = v :=
  congrArg₂ Vec2.mk (mul_one v.x) (mul_one v.y)

theorem Vec2.scale_scale (v : Vec2 ℚ) (a b : ℚ) : v * a * b = v * (a * b) :=
  congrArg₂ Vec2.mk (mul_assoc v.x a b) (mul_assoc v.y a b)

theorem Vec2.add_none (v : Vec2 ℚ) : v + ⟨0, 0⟩ = v :=
  congrArg₂ Vec2.mk (add_zero v.x) (add_zero v.y)

/-- What is taken off the position goes into the correction. -/
theorem Vec2.add_retired (previous replayed offset : Vec2 ℚ) :
    replayed + (previous - replayed + offset) = previous + offset := by
  refine congrArg₂ Vec2.mk ?_ ?_
  · exact (add_assoc _ _ _).symm.trans (congrArg (· + offset.x) (add_sub_cancel replayed.x previous.x))
  · exact (add_assoc _ _ _).symm.trans (congrArg (· + offset.y) (add_sub_cancel replayed.y previous.y))

/-- A snapshot is refused, or reconciled over a view that has recorded it. -/
theorem Mirror.applySnapshot_cases {S A R O D : Type} (physics : Physics S A)
    (display : Display S R O D) (m : Mirror S A R O D) (data : Nat → UInt8) (size : Nat) :
    (m.applySnapshot physics display data size).1 = m.refuse ∨
      ∃ snapshot, (m.applySnapshot physics display data size).1 =
        m.accept physics display snapshot := by
  cases haccepted : (m.applySnapshot physics display data size).2 with
  | false => exact Or.inl (m.applySnapshot_refused physics display haccepted)
  | true =>
    right
    unfold Mirror.applySnapshot at haccepted ⊢
    cases hpeek : peekSnapshotHeader data size with
    | none => simp [hpeek] at haccepted
    | some header =>
      obtain ⟨tick, baselineTick, full⟩ := header
      simp only [hpeek] at haccepted ⊢
      generalize (if full then none else m.view.baselines.get baselineTick) = baseline at haccepted ⊢
      split at haccepted
      · cases haccepted
      next hhave =>
        rw [if_neg hhave]
        cases hdecode : decodeSnapshot data size baseline with
        | none => simp [hdecode] at haccepted
        | some snapshot => exact ⟨snapshot, rfl⟩

/-- A view that draws. -/
abbrev Screen (A : Type) := Mirror (MoveState ℚ) A ℚ (Vec2 ℚ) Drawn

namespace Screen
variable {A : Type} (physics : Physics (MoveState ℚ) A) (length : Vec2 ℚ → ℚ)
  (config : RenderConfig) (tickRate : Nat)

def renderPosition (m : Screen A) : Vec2 ℚ := m.view.predicted.position + m.correctionOffset

/-- The local player when no frame shows it. -/
def avatar (m : Screen A) : RenderEntity :=
  { id := m.view.localEntity
    position := m.renderPosition
    velocity := m.view.predicted.velocity
    isLocal := true }

/-- How far the render clock is from one frame to the next. -/
def alpha (renderTick : ℚ) (older newer : Nat) : ℚ :=
  let span : ℚ := newer - older
  if 0 < span then clampf ((renderTick - older) / span) 0 1 else 0

/-- One round of the loop over the older frame. -/
def drawState (m : Screen A) (alpha : ℚ) (newer : List EntityWireState)
    (state : EntityWireState) : RenderEntity :=
  let isLocal := state.id == m.view.localEntity
  let source := physics.decode state
  let entity :=
    match findState newer state.id with
    | some future =>
      let target := physics.decode future
      MoveState.mk (lerp source.position target.position alpha)
        (lerp source.velocity target.velocity alpha)
    | none => source
  let entity := if isLocal then ⟨m.renderPosition, m.view.predicted.velocity⟩ else entity
  { id := state.id, position := entity.position, velocity := entity.velocity, kind := state.kind
    isLocal }

/-- The tick of a frame on the render clock. -/
def frameTime (frame : Nat × List EntityWireState) : ℚ := frame.1

def rebuildRenderList (m : Screen A) : List RenderEntity :=
  match around frameTime m.drawn.renderTick m.view.frames with
  | none => if m.view.localEntity ≠ kInvalidEntity then [m.avatar] else []
  | some (older, newer) =>
    let render :=
      older.2.map (m.drawState physics (alpha m.drawn.renderTick older.1 newer.1) newer.2)
    let hasLocal := render.any RenderEntity.isLocal
    if !hasLocal && decide (m.view.localEntity ≠ kInvalidEntity) then render ++ [m.avatar]
    else render

/-- What the render clock follows. -/
def target (m : Screen A) : ℚ := m.view.latestTick - config.interpolationDelayTicks

/-- `advance` on the clock. -/
def tickClock (m : Screen A) (dtSeconds : ℚ) : Drawn :=
  let target := m.target config
  if !m.drawn.renderClockStarted then
    { m.drawn with renderTick := target, renderClockStarted := true }
  else
    let renderTick := m.drawn.renderTick + dtSeconds * tickRate
    let drift := target - renderTick
    { m.drawn with
      renderTick := if kRenderClockSnapTicks < |drift| then target
        else renderTick + drift * kRenderClockCatchupRate }

/-- What is left of a correction after one `advance`. -/
def fade (offset : Vec2 ℚ) : Vec2 ℚ :=
  let offset := offset * (1 - clampf config.correctionSmoothing 0 1)
  if offset.lengthSq < 1 / 10000 then ⟨0, 0⟩ else offset

def advance (m : Screen A) (dtSeconds : ℚ) : Screen A :=
  let m : Screen A := { m with correctionOffset := fade config m.correctionOffset }
  let m : Screen A :=
    if m.view.hasSnapshot then { m with drawn := m.tickClock config tickRate dtSeconds } else m
  { m with drawn := { m.drawn with render := m.rebuildRenderList physics } }

end Screen

/-- The calls a view takes. -/
inductive ScreenCall (A : Type)
  | configure (config : ClientViewConfig)
  | reset
  | setLocalEntity (entity : Nat)
  | adoptMigratedState (entity : Nat) (position velocity : Vec2 ℚ)
  | pushInput (axes : A) (sprint : Bool) (clientTick : Nat)
  | applySnapshot (data : Nat → UInt8) (size : Nat)
  | advance (dtSeconds : ℚ)

namespace Screen
variable {A : Type} (physics : Physics (MoveState ℚ) A) (length : Vec2 ℚ → ℚ)
  (config : RenderConfig) (tickRate : Nat)

/-- A call with what `advance` computes. -/
def computed (m : Screen A) : ScreenCall A → MirrorCall (MoveState ℚ) A (Vec2 ℚ) Drawn
  | .configure config => .configure config
  | .reset => .reset
  | .setLocalEntity entity => .setLocalEntity entity
  | .adoptMigratedState entity position velocity => .adoptMigratedState entity ⟨position, velocity⟩
  | .pushInput axes sprint clientTick => .pushInput axes sprint clientTick
  | .applySnapshot data size => .applySnapshot data size
  | .advance dtSeconds =>
    let after := m.advance physics config tickRate dtSeconds
    .advance after.correctionOffset after.drawn

def step (m : Screen A) (call : ScreenCall A) : Screen A :=
  Mirror.step physics (.exact length config) m (m.computed physics config tickRate call)

def start (viewConfig : ClientViewConfig) : Screen A :=
  Mirror.start physics (.exact length config) viewConfig

/-- `advance` leaves everything else as it was. -/
theorem step_advance (m : Screen A) (dtSeconds : ℚ) :
    m.step physics length config tickRate (.advance dtSeconds) =
      m.advance physics config tickRate dtSeconds := by
  unfold step computed Mirror.step advance
  dsimp only
  split <;> rfl

theorem advance_view (m : Screen A) (dtSeconds : ℚ) :
    (m.advance physics config tickRate dtSeconds).view = m.view := by
  unfold advance
  dsimp only
  split <;> rfl

/-- The list is drawn from what the call leaves. -/
theorem advance_render (m : Screen A) (dtSeconds : ℚ) :
    (m.advance physics config tickRate dtSeconds).drawn.render =
      (m.advance physics config tickRate dtSeconds).rebuildRenderList physics := by
  unfold advance
  dsimp only
  split <;> rfl

theorem ordered_run (viewConfig : ClientViewConfig) (calls : List (ScreenCall A)) :
    (Run.run (step physics length config tickRate) (start physics length config viewConfig)
      calls).view.Ordered := by
  have hstart : (start (A := A) physics length config viewConfig).view.Ordered :=
    ClientView.ordered_empty (fun _ => rfl) rfl
  exact Run.invariant_always (fun m : Screen A => m.view.Ordered)
    (fun m call h => Mirror.ordered_step physics (.exact length config) m _ h) hstart calls

/-- Where something seen in two frames is drawn at a time between them. -/
structure Between (t : ℚ) (older newer : Nat × List EntityWireState) (source : EntityWireState)
    (e : RenderEntity) : Prop where
  /-- What the newer frame does not show stands still. -/
  gone : lookup EntityWireState.id newer.2 source.id = none →
    (⟨e.position, e.velocity⟩ : MoveState ℚ) = physics.decode source
  seen : ∀ future, lookup EntityWireState.id newer.2 source.id = some future →
    ∃ part : ℚ, 0 ≤ part ∧ part ≤ 1 ∧
      (frameTime older ≤ t → t < frameTime newer →
        frameTime older + part * (frameTime newer - frameTime older) = t) ∧
      e.position = lerp (physics.decode source).position (physics.decode future).position part ∧
      e.velocity = lerp (physics.decode source).velocity (physics.decode future).velocity part

/-- The local player is drawn once, where it is predicted and corrected to be, and everyone in
the older frame is drawn once, on the way to the newer one. -/
structure Depicts (m : Screen A) (older newer : Nat × List EntityWireState) : Prop where
  once : (m.drawn.render.map RenderEntity.id).Nodup
  isLocal : ∀ e ∈ m.drawn.render, e.isLocal = true ↔ e.id = m.view.localEntity
  avatar : ∀ e ∈ m.drawn.render, e.isLocal = true →
    e.position = m.renderPosition ∧ e.velocity = m.view.predicted.velocity
  present : m.view.localEntity ≠ kInvalidEntity → ∃ e ∈ m.drawn.render, e.isLocal = true
  everyone : ∀ state ∈ older.2, ∃ e ∈ m.drawn.render, e.id = state.id ∧ e.kind = state.kind
  others : ∀ e ∈ m.drawn.render, e.isLocal = false →
    ∃ source ∈ older.2, source.id = e.id ∧ source.kind = e.kind ∧
      Between physics m.drawn.renderTick older newer source e

theorem alpha_mem (t : ℚ) (older newer : Nat) : 0 ≤ alpha t older newer ∧ alpha t older newer ≤ 1 := by
  unfold alpha clampf
  dsimp only
  split_ifs <;> constructor <;> linarith

/-- Between the two frames nothing is clamped. -/
theorem alpha_between {t : ℚ} {older newer : Nat} (hlow : (older : ℚ) ≤ t) (hhigh : t < newer) :
    (older : ℚ) + alpha t older newer * (newer - older) = t := by
  have hspan : (0 : ℚ) < newer - older := by linarith
  have hnonneg : 0 ≤ (t - older) / ((newer : ℚ) - older) := div_nonneg (by linarith) hspan.le
  have hle : (t - older) / ((newer : ℚ) - older) ≤ 1 := by
    rw [div_le_one hspan]
    linarith
  unfold alpha clampf
  dsimp only
  rw [if_pos hspan, if_neg (not_lt.mpr hnonneg), if_neg (not_lt.mpr hle),
    div_mul_cancel₀ _ hspan.ne']
  ring

section drawState
variable {physics} {m : Screen A} {t : ℚ} {older newer : Nat × List EntityWireState}

theorem drawState_isLocal (part : ℚ) (states : List EntityWireState) (state : EntityWireState) :
    (m.drawState physics part states state).isLocal = (state.id == m.view.localEntity) := rfl

theorem drawState_avatar {part : ℚ} {states : List EntityWireState} {state : EntityWireState}
    (h : (m.drawState physics part states state).isLocal = true) :
    (m.drawState physics part states state).position = m.renderPosition ∧
      (m.drawState physics part states state).velocity = m.view.predicted.velocity := by
  rw [drawState_isLocal] at h
  simp only [drawState, h, if_true, and_self]

theorem drawState_between (hnewer : Increasing EntityWireState.id newer.2)
    {state : EntityWireState}
    (h : (m.drawState physics (alpha t older.1 newer.1) newer.2 state).isLocal = false) :
    Between physics t older newer state
      (m.drawState physics (alpha t older.1 newer.1) newer.2 state) := by
  rw [drawState_isLocal] at h
  have hfind : findState newer.2 state.id = lookup EntityWireState.id newer.2 state.id :=
    find_lowerBound hnewer state.id
  constructor
  case gone =>
    intro hgone
    simp only [drawState, h, hfind, hgone, Bool.false_eq_true, if_false]
  case seen =>
    intro future hseen
    obtain ⟨hnonneg, hle⟩ := alpha_mem t older.1 newer.1
    refine ⟨alpha t older.1 newer.1, hnonneg, hle, alpha_between, ?_⟩
    simp only [drawState, h, hfind, hseen, Bool.false_eq_true, if_false, and_self]

end drawState

theorem rebuild_depicts {m : Screen A} (hordered : m.view.Ordered)
    {older newer : Nat × List EntityWireState}
    (haround : around frameTime m.drawn.renderTick m.view.frames = some (older, newer))
    (hbracket : Brackets frameTime m.drawn.renderTick m.view.frames older newer)
    (hrender : m.drawn.render = m.rebuildRenderList physics) : Depicts physics m older newer := by
  have hold := hordered.frames older hbracket.older_mem
  have hnew := hordered.frames newer hbracket.newer_mem
  generalize hdraw :
    m.drawState physics (alpha m.drawn.renderTick older.1 newer.1) newer.2 = draw
  have hid : ∀ state, (draw state).id = state.id := by
    intro state
    rw [← hdraw]
    rfl
  have hkind : ∀ state, (draw state).kind = state.kind := by
    intro state
    rw [← hdraw]
    rfl
  have hlocal : ∀ state, (draw state).isLocal = (state.id == m.view.localEntity) := by
    intro state
    rw [← hdraw]
    rfl
  have hids : (older.2.map draw).map RenderEntity.id = older.2.map EntityWireState.id := by
    rw [List.map_map]
    exact List.map_congr_left fun state _ => hid state
  have hnodup : ((older.2.map draw).map RenderEntity.id).Nodup := by
    rw [hids, List.Nodup, List.pairwise_map]
    exact hold.imp fun hlt => Nat.ne_of_lt hlt
  have hlist : m.drawn.render =
      if !((older.2.map draw).any RenderEntity.isLocal) &&
          decide (m.view.localEntity ≠ kInvalidEntity) then older.2.map draw ++ [m.avatar]
      else older.2.map draw := by
    rw [hrender, rebuildRenderList, haround]
    simp only [hdraw]
  -- whether the avatar is appended or not, these are what is drawn
  have hmem : ∀ e ∈ m.drawn.render, e ∈ older.2.map draw ∨ e = m.avatar := by
    intro e he
    rw [hlist] at he
    split at he
    · simpa using he
    · exact Or.inl he
  have hkeep : ∀ e ∈ older.2.map draw, e ∈ m.drawn.render := by
    intro e he
    rw [hlist]
    split
    · exact List.mem_append_left _ he
    · exact he
  constructor
  case once =>
    rw [hlist]
    split
    next hadd =>
      rw [Bool.and_eq_true, Bool.not_eq_true', List.any_eq_false] at hadd
      rw [List.map_append, List.nodup_append]
      refine ⟨hnodup, List.nodup_singleton _, ?_⟩
      intro id hdrawn id' hmine
      rw [List.mem_map] at hdrawn
      obtain ⟨e, he, rfl⟩ := hdrawn
      obtain ⟨state, -, rfl⟩ := List.mem_map.mp he
      rw [List.map_singleton, List.mem_singleton] at hmine
      have hother := hadd.1 _ he
      rw [hlocal] at hother
      rw [hmine, hid]
      simpa [Screen.avatar] using hother
    next => exact hnodup
  case isLocal =>
    intro e he
    cases hmem e he with
    | inl hdrawn =>
      obtain ⟨state, -, rfl⟩ := List.mem_map.mp hdrawn
      rw [hlocal, hid, beq_iff_eq]
    | inr hmine =>
      rw [hmine]
      exact iff_of_true rfl rfl
  case avatar =>
    intro e he hmine
    cases hmem e he with
    | inl hdrawn =>
      obtain ⟨state, -, rfl⟩ := List.mem_map.mp hdrawn
      rw [← hdraw] at hmine ⊢
      exact drawState_avatar hmine
    | inr heq =>
      rw [heq]
      exact ⟨rfl, rfl⟩
  case present =>
    intro hvalid
    rw [hlist]
    split
    · exact ⟨m.avatar, List.mem_append_right _ List.mem_cons_self, rfl⟩
    next hadd =>
      rw [decide_eq_true hvalid, Bool.and_true, Bool.not_eq_true', Bool.not_eq_false,
        List.any_eq_true] at hadd
      exact hadd
  case everyone =>
    intro state hstate
    exact ⟨draw state, hkeep _ (List.mem_map_of_mem hstate), hid state, hkind state⟩
  case others =>
    intro e he hother
    cases hmem e he with
    | inl hdrawn =>
      obtain ⟨state, hstate, rfl⟩ := List.mem_map.mp hdrawn
      refine ⟨state, hstate, (hid state).symm, (hkind state).symm, ?_⟩
      rw [← hdraw] at hother ⊢
      exact drawState_between hnew hother
    | inr hmine =>
      rw [hmine] at hother
      cases hother

/-- The render clock never falls far from where it should be. -/
theorem tickClock_near (m : Screen A) (dtSeconds : ℚ) :
    (m.tickClock config tickRate dtSeconds).renderClockStarted = true ∧
    |m.target config - (m.tickClock config tickRate dtSeconds).renderTick| ≤
      kRenderClockSnapTicks * (1 - kRenderClockCatchupRate) := by
  unfold tickClock
  dsimp only
  have hroom : (0 : ℚ) ≤ kRenderClockSnapTicks * (1 - kRenderClockCatchupRate) := by
    norm_num [kRenderClockSnapTicks, kRenderClockCatchupRate]
  cases hstarted : m.drawn.renderClockStarted with
  | false =>
    refine ⟨rfl, ?_⟩
    simpa using hroom
  | true =>
    simp only [Bool.not_true, Bool.false_eq_true, if_false, true_and]
    generalize hdrift : m.target config - (m.drawn.renderTick + dtSeconds * tickRate) = drift
    split
    · simpa using hroom
    next hnear =>
      have hleft : m.target config -
          (m.drawn.renderTick + dtSeconds * tickRate + drift * kRenderClockCatchupRate) =
          drift * (1 - kRenderClockCatchupRate) := by
        rw [← hdrift]
        ring
      have hrate : (0 : ℚ) ≤ 1 - kRenderClockCatchupRate := by norm_num [kRenderClockCatchupRate]
      rw [hleft, abs_mul, abs_of_nonneg hrate]
      exact mul_le_mul_of_nonneg_right (not_lt.mp hnear) hrate


theorem advance_clock (m : Screen A) (dtSeconds : ℚ) (h : m.view.hasSnapshot = true) :
    let after := m.advance physics config tickRate dtSeconds
    after.drawn.renderClockStarted = true ∧
      |after.target config - after.drawn.renderTick| ≤
        kRenderClockSnapTicks * (1 - kRenderClockCatchupRate) := by
  unfold advance
  simp only [h, if_true]
  exact tickClock_near config tickRate
    { m with correctionOffset := fade config m.correctionOffset } dtSeconds

theorem times_increasing {v : ClientView (MoveState ℚ) A} (h : v.Ordered) :
    v.frames.Pairwise fun a b => frameTime a < frameTime b :=
  h.ticks.imp fun hlt => Nat.cast_lt.mpr hlt

/-- In every run, what is drawn after an `advance` is the local player where it is predicted, and
everyone else on the way between the two frames around the render clock, which stays within a
few ticks of the newest snapshot. -/
theorem draws_world (viewConfig : ClientViewConfig) (calls : List (ScreenCall A)) (dtSeconds : ℚ) :
    let m := Run.run (step physics length config tickRate) (start physics length config viewConfig)
      (calls ++ [.advance dtSeconds])
    (m.view.frames = [] →
      m.drawn.render = if m.view.localEntity ≠ kInvalidEntity then [m.avatar] else []) ∧
    (m.view.frames ≠ [] → ∃ older newer,
      Brackets frameTime m.drawn.renderTick m.view.frames older newer ∧
        Depicts physics m older newer) ∧
    (m.view.hasSnapshot = true → m.drawn.renderClockStarted = true ∧
      |m.target config - m.drawn.renderTick| ≤
        kRenderClockSnapTicks * (1 - kRenderClockCatchupRate)) := by
  intro m
  have hordered := ordered_run physics length config tickRate viewConfig (calls ++ [.advance dtSeconds])
  have hlast : m = (Run.run (step physics length config tickRate)
      (start physics length config viewConfig) calls).advance physics config tickRate dtSeconds := by
    simp only [m, Run.run_append, Run.run_cons, Run.run_nil, step_advance]
  have hrender : m.drawn.render = m.rebuildRenderList physics := by
    rw [hlast]
    exact advance_render physics config tickRate _ dtSeconds
  have htimes := times_increasing hordered
  refine ⟨fun hempty => ?_, fun hsome => ?_, fun hsnapshot => ?_⟩
  · rw [hrender, rebuildRenderList, (around_none (htimes : m.view.frames.Pairwise _)).mpr hempty]
  · cases haround : around frameTime m.drawn.renderTick m.view.frames with
    | none => exact absurd ((around_none htimes).mp haround) hsome
    | some pair =>
      obtain ⟨older, newer⟩ := pair
      have hbracket := around_brackets htimes haround
      exact ⟨older, newer, hbracket, rebuild_depicts physics hordered haround hbracket hrender⟩
  · rw [hlast] at hsnapshot ⊢
    rw [advance_view] at hsnapshot
    exact advance_clock physics config tickRate _ dtSeconds hsnapshot

end Screen

/-- Calls that bring nothing from the server. -/
def ScreenCall.quiet {A : Type} : ScreenCall A → Bool
  | .pushInput _ _ _ => true
  | .advance _ => true
  | _ => false

def ScreenCall.isAdvance {A : Type} : ScreenCall A → Bool
  | .advance _ => true
  | _ => false

namespace Screen
variable {A : Type} (physics : Physics (MoveState ℚ) A) (length : Vec2 ℚ → ℚ)
  (config : RenderConfig) (tickRate : Nat)

/-- The part of a correction that one `advance` leaves. -/
def keep : ℚ := 1 - clampf config.correctionSmoothing 0 1

/-- A correction after some calls of `advance`: gone, or so much smaller. -/
def Faded (offset : Vec2 ℚ) (advances : Nat) (now : Vec2 ℚ) : Prop :=
  now = ⟨0, 0⟩ ∨ now = offset * keep config ^ advances ∧
    (0 < advances → 1 / 10000 ≤ (offset * keep config ^ advances).lengthSq)

theorem faded_advance {offset now : Vec2 ℚ} {advances : Nat} (h : Faded config offset advances now) :
    Faded config offset (advances + 1) (fade config now) := by
  have hfade : fade config now =
      if (now * keep config).lengthSq < 1 / 10000 then ⟨0, 0⟩ else now * keep config := rfl
  rw [hfade]
  cases h with
  | inl hgone =>
    left
    rw [hgone, Vec2.zero_scale, if_pos]
    norm_num [Vec2.lengthSq]
  | inr hleft =>
    obtain ⟨hnow, -⟩ := hleft
    have hmul : now * keep config = offset * keep config ^ (advances + 1) := by
      rw [hnow, pow_succ, Vec2.scale_scale]
    rw [hmul]
    split
    next => exact Or.inl rfl
    next hlarge => exact Or.inr ⟨rfl, fun _ => not_lt.mp hlarge⟩

theorem faded_step {m : Screen A} {offset : Vec2 ℚ} {advances : Nat} {call : ScreenCall A}
    (hquiet : call.quiet = true) (h : Faded config offset advances m.correctionOffset) :
    Faded config offset (advances + if call.isAdvance then 1 else 0)
      (m.step physics length config tickRate call).correctionOffset := by
  cases call with
  | pushInput axes sprint clientTick => exact h
  | advance dtSeconds =>
    have hoffset : (m.advance physics config tickRate dtSeconds).correctionOffset =
        fade config m.correctionOffset := by
      unfold advance
      dsimp only
      split <;> rfl
    rw [step_advance, hoffset]
    exact faded_advance config h
  | _ => cases hquiet

theorem faded_run {m : Screen A} {offset : Vec2 ℚ} {advances : Nat} {calls : List (ScreenCall A)}
    (hquiet : ∀ call ∈ calls, call.quiet = true)
    (h : Faded config offset advances m.correctionOffset) :
    Faded config offset (advances + calls.countP ScreenCall.isAdvance)
      (Run.run (step physics length config tickRate) m calls).correctionOffset := by
  induction calls generalizing m advances with
  | nil => exact h
  | cons call calls ih =>
    have hstep := faded_step physics length config tickRate (hquiet call List.mem_cons_self) h
    have hrest := ih (fun later hlater => hquiet later (List.mem_cons_of_mem call hlater)) hstep
    rw [Run.run_cons, List.countP_cons, Nat.add_comm (List.countP _ _), ← Nat.add_assoc]
    exact hrest

/-- A snapshot leaves the player where it was drawn, or snaps because the error is too large to
hide; either way nothing else of the correction survives. -/
theorem reconcile_offset (m : Screen A) (snapshot : DecodedSnapshot) :
    let after : Screen A := Mirror.reconcile physics (.exact length config) m snapshot
    after.renderPosition = m.renderPosition ∨
      config.correctionSnapDistance <
          length (after.view.predicted.position - m.view.predicted.position) ∧
        after.correctionOffset = ⟨0, 0⟩ := by
  intro after
  have hafter : after = Mirror.reconcile physics (.exact length config) m snapshot := rfl
  unfold Mirror.reconcile at hafter
  split at hafter
  · generalize hview : m.view.reconcile physics snapshot = view at hafter
    simp only [Display.exact, decide_eq_true_eq] at hafter
    by_cases hsnap : config.correctionSnapDistance <
        length (view.predicted.position - m.view.predicted.position)
    · rw [hafter]
      exact Or.inr ⟨hsnap, if_pos hsnap⟩
    · left
      rw [hafter]
      simp only [renderPosition, if_neg hsnap]
      exact Vec2.add_retired _ _ _
  · rw [hafter]
    exact Or.inl rfl

theorem applySnapshot_offset (m : Screen A) (data : Nat → UInt8) (size : Nat) :
    let after : Screen A := (Mirror.applySnapshot physics (.exact length config) m data size).1
    after.renderPosition = m.renderPosition ∨
      config.correctionSnapDistance <
          length (after.view.predicted.position - m.view.predicted.position) ∧
        after.correctionOffset = ⟨0, 0⟩ := by
  intro after
  have hafter : after = (Mirror.applySnapshot physics (.exact length config) m data size).1 := rfl
  obtain hrefused | ⟨snapshot, haccepted⟩ :=
    Mirror.applySnapshot_cases physics (.exact length config) m data size
  · rw [hafter, hrefused]
    exact Or.inl rfl
  · rw [hafter, haccepted]
    exact reconcile_offset physics length config _ snapshot

theorem keep_mem : 0 ≤ keep config ∧ keep config ≤ 1 := by
  have hsmoothing := Quantizer.clampf_mem (v := config.correctionSmoothing) zero_le_one
  unfold keep
  constructor
  · linarith
  · linarith

/-- Any correction is too small to draw after enough calls of `advance`. -/
theorem keep_fades (hsmoothing : 0 < config.correctionSmoothing) (offset : Vec2 ℚ) :
    ∃ n, 0 < n ∧ ∀ k, n ≤ k → (offset * keep config ^ k).lengthSq < 1 / 10000 := by
  obtain ⟨hnonneg, hle⟩ := keep_mem config
  have hlt : keep config < 1 := by
    unfold keep clampf
    split_ifs <;> linarith
  have hlength : 0 ≤ offset.lengthSq := add_nonneg (mul_self_nonneg _) (mul_self_nonneg _)
  have hgap : 0 < 1 / (10000 * (offset.lengthSq + 1)) := by positivity
  obtain ⟨n, hn⟩ := exists_pow_lt_of_lt_one hgap hlt
  refine ⟨n + 1, Nat.succ_pos n, fun k hk => ?_⟩
  have hpow : keep config ^ k ≤ keep config ^ n := pow_le_pow_of_le_one hnonneg hle (by omega)
  have hsquare : keep config ^ k * keep config ^ k ≤ keep config ^ k :=
    mul_le_of_le_one_left (pow_nonneg hnonneg k) (pow_le_one₀ hnonneg hle)
  calc (offset * keep config ^ k).lengthSq
      = offset.lengthSq * (keep config ^ k * keep config ^ k) := by
        change offset.x * keep config ^ k * (offset.x * keep config ^ k) +
            offset.y * keep config ^ k * (offset.y * keep config ^ k) =
          (offset.x * offset.x + offset.y * offset.y) * (keep config ^ k * keep config ^ k)
        ring
    _ ≤ offset.lengthSq * (1 / (10000 * (offset.lengthSq + 1))) :=
        mul_le_mul_of_nonneg_left (hsquare.trans (hpow.trans hn.le)) hlength
    _ < 1 / 10000 := by
        rw [mul_one_div, div_lt_div_iff₀ (by positivity) (by norm_num)]
        linarith

/-- Calls that bring nothing from the server leave so much of a correction. -/
theorem correction_run (m : Screen A) {calls : List (ScreenCall A)}
    (hquiet : ∀ call ∈ calls, call.quiet = true) :
    Faded config m.correctionOffset (calls.countP ScreenCall.isAdvance)
      (Run.run (step physics length config tickRate) m calls).correctionOffset := by
  have hstart : Faded config m.correctionOffset 0 m.correctionOffset := by
    refine Or.inr ⟨?_, fun h => absurd h (lt_irrefl 0)⟩
    rw [pow_zero, Vec2.scale_one]
  have hrun := faded_run physics length config tickRate hquiet hstart
  rwa [Nat.zero_add] at hrun

theorem renderPosition_of_none {m : Screen A} (h : m.correctionOffset = ⟨0, 0⟩) :
    m.renderPosition = m.view.predicted.position := by
  rw [renderPosition, h, Vec2.add_none]

/-- A correction that is too small to draw is gone. -/
theorem Faded.gone {config : RenderConfig} {offset now : Vec2 ℚ} {advances : Nat}
    (h : Faded config offset advances now) (hadvanced : 0 < advances)
    (hsmall : (offset * keep config ^ advances).lengthSq < 1 / 10000) : now = ⟨0, 0⟩ := by
  cases h with
  | inl hzero => exact hzero
  | inr hleft => exact absurd hsmall (not_lt.mpr (hleft.2 hadvanced))

/-- The player is not moved by what the server says, unless the error is too large to hide. The
difference is retired by the calls of `advance` that follow, whatever is pushed between them, and
after so many of them the player is drawn exactly where it is predicted. -/
theorem correction_fades (m : Screen A) (data : Nat → UInt8) (size : Nat) :
    let after : Screen A := m.step physics length config tickRate (.applySnapshot data size)
    (after.renderPosition = m.renderPosition ∨
      config.correctionSnapDistance <
          length (after.view.predicted.position - m.view.predicted.position) ∧
        after.renderPosition = after.view.predicted.position) ∧
    (∀ calls : List (ScreenCall A), (∀ call ∈ calls, call.quiet = true) →
      let last := Run.run (step physics length config tickRate) after calls
      let advances := calls.countP ScreenCall.isAdvance
      let left := after.correctionOffset * keep config ^ advances
      (last.renderPosition = last.view.predicted.position ∨
        last.renderPosition = last.view.predicted.position + left) ∧
      (0 < advances → left.lengthSq < 1 / 10000 →
        last.renderPosition = last.view.predicted.position)) ∧
    (0 < config.correctionSmoothing → ∃ n, ∀ calls : List (ScreenCall A),
      (∀ call ∈ calls, call.quiet = true) → n ≤ calls.countP ScreenCall.isAdvance →
      let last := Run.run (step physics length config tickRate) after calls
      last.renderPosition = last.view.predicted.position) := by
  intro after
  refine ⟨?_, fun calls hquiet => ?_, fun hsmoothing => ?_⟩
  · obtain hsame | ⟨hsnap, hzero⟩ := applySnapshot_offset physics length config m data size
    · exact Or.inl hsame
    · exact Or.inr ⟨hsnap, renderPosition_of_none hzero⟩
  · intro last advances left
    have hfaded : Faded config after.correctionOffset advances last.correctionOffset :=
      correction_run physics length config tickRate after hquiet
    refine ⟨?_, fun hadvanced hsmall => renderPosition_of_none (hfaded.gone hadvanced hsmall)⟩
    cases hfaded with
    | inl hzero => exact Or.inl (renderPosition_of_none hzero)
    | inr hleft =>
      right
      rw [renderPosition, hleft.1]
  · obtain ⟨n, hpos, hsmall⟩ := keep_fades config hsmoothing after.correctionOffset
    refine ⟨n, fun calls hquiet hcount => ?_⟩
    have hfaded := correction_run physics length config tickRate after hquiet
    exact renderPosition_of_none (hfaded.gone (hpos.trans_le hcount) (hsmall _ hcount))

/-- Lengths by a square root that is never too small. -/
def norm (v : Vec2 ℚ) : ℚ := GridWorld.rootAbove v.lengthSq

/-- A view with the defaults of its configuration. -/
abbrev usualStep : Screen (ℚ × ℚ) → ScreenCall (ℚ × ℚ) → Screen (ℚ × ℚ) :=
  step (.exact GridWorld.rootAbove .usual) norm {} 30

/-- A player that was handed over and runs. -/
def running : Screen (ℚ × ℚ) :=
  Run.run usualStep (start (.exact GridWorld.rootAbove .usual) norm {} {})
    [.adoptMigratedState 1 ⟨200, 300⟩ ⟨0, 0⟩, .pushInput (1, 0) true 4]

/-- A full snapshot that has it ten units away. -/
def farther : List UInt8 :=
  (writeRecords ((writeSnapshotHeader (BitWriter.new (fun _ => 0) 100) 4 none 0 1 []).writeU16 1) 0
    [({ id := 1, px := 6700, py := 9500, vx := 2048, vy := 2048 }, none)]).bytes

/-- The snapshot does not move it, and half a second later nothing is left of the difference. -/
theorem correction_fades_running :
    let after := usualStep running (.applySnapshot (BitReader.view farther) farther.length)
    let last := Run.run usualStep after
      (.pushInput (0, 1) true 5 :: List.replicate 30 (.advance (1 / 60)))
    after.view.hasSnapshot = true ∧ after.correctionOffset.x ≠ 0 ∧
      after.renderPosition = running.renderPosition ∧
      last.renderPosition = last.view.predicted.position := by
  intro after last
  obtain ⟨hdrawn, hretired, -⟩ := correction_fades (.exact GridWorld.rootAbove .usual) norm {} 30
    running (BitReader.view farther) farther.length
  have hquiet : ∀ call ∈ (.pushInput (0, 1) true 5 :: List.replicate 30 (.advance (1 / 60)) :
      List (ScreenCall (ℚ × ℚ))), call.quiet = true := by
    intro call hcall
    cases List.mem_cons.mp hcall with
    | inl heq => rw [heq, ScreenCall.quiet]
    | inr hmem => rw [List.eq_of_mem_replicate hmem, ScreenCall.quiet]
  refine ⟨by decide +kernel, by decide +kernel, ?_, (hretired _ hquiet).2 (by decide) ?_⟩
  · refine hdrawn.resolve_right fun hsnap => absurd hsnap.1 ?_
    decide +kernel
  · have hkeep : keep {} = 3 / 4 := by norm_num [keep, clampf]
    have hcount : (ScreenCall.pushInput (0, 1) true 5 ::
        List.replicate 30 (.advance (1 / 60)) : List (ScreenCall (ℚ × ℚ))).countP
          ScreenCall.isAdvance = 30 := by decide
    rw [hcount, hkeep]
    decide +kernel

end Screen
end Morton.Sim
