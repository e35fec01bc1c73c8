import Morton.Proto.Fairness
import Morton.Sim.Interest

/-! The viewer's own entity in its frames: what the grid finds of it, and what the
selection makes of that. -/
namespace Morton.Sim
open Proto Keyed Spatial ReplicationState

/-- The quantizers, and how close an entity with this wire state is to the viewer. -/
structure Lens (K : Type) [Zero K] [One K] [LE K] where
  state : Nat → Vec2 ℚ → Vec2 ℚ → EntityKind → EntityWireState
  closeness : EntityWireState → Vec2 ℚ → K
  id : ∀ id position velocity kind, (state id position velocity kind).id = id
  fits : ∀ id position velocity kind, id < 2 ^ 32 → (state id position velocity kind).Fits
  near : ∀ s eye, 0 ≤ closeness s eye ∧ closeness s eye ≤ 1

namespace GridWorld
variable {A K : Type}

/-- The wire state of the entity at an index. -/
def wireState [Zero K] [One K] [LE K] (lens : Lens K) (w : GridWorld A) (id index : Nat) :
    Option EntityWireState :=
  match w.world.entities.position[index]?, w.world.entities.velocity[index]?,
    w.world.entities.kind[index]? with
  | some position, some velocity, some kind => some (lens.state id position velocity kind)
  | _, _, _ => none

/-- What `encode` reads of the world. -/
def scene [Zero K] [One K] [LE K] (lens : Lens K) (w : GridWorld A) (viewer : Nat)
    (aoiRadius : ℚ) : Scene K where
  tick := w.world.tick
  hasViewer := (w.eye viewer).isSome
  seen :=
    match w.eye viewer with
    | none => []
    | some eye => (w.gather eye aoiRadius).filterMap fun (id, index) =>
      (w.wireState lens id index).map fun state => ⟨state, lens.closeness state eye⟩

theorem wireState_id [Zero K] [One K] [LE K] {lens : Lens K} {w : GridWorld A} {id index : Nat}
    {c : EntityWireState} (h : w.wireState lens id index = some c) : c.id = id := by
  unfold wireState at h
  split at h
  · rw [← Option.some.inj h, lens.id]
  · cases h

/-- In a store whose arrays have one length every entity has a wire state. -/
theorem exists_wireState [Zero K] [One K] [LE K] (lens : Lens K) {w : GridWorld A}
    (hstore : w.world.entities.WF) (id : Nat) {index : Nat} (h : index < w.world.entities.size) :
    ∃ c, w.wireState lens id index = some c := by
  have hposition : index < w.world.entities.position.length := hstore.position ▸ h
  have hvelocity : index < w.world.entities.velocity.length := hstore.velocity ▸ h
  have hkind : index < w.world.entities.kind.length := hstore.kind ▸ h
  simp [wireState, List.getElem?_eq_getElem hposition, List.getElem?_eq_getElem hvelocity,
    List.getElem?_eq_getElem hkind]

section
variable [Zero K] [One K] [LE K] (lens : Lens K) {w : GridWorld A} {viewer : Nat} {aoiRadius : ℚ}

/-- The states in view are those of the entities that were gathered. -/
theorem mem_current {eye : Vec2 ℚ} (heye : w.eye viewer = some eye) {c : EntityWireState} :
    c ∈ (w.scene lens viewer aoiRadius).current ↔
      ∃ id index, (id, index) ∈ w.gather eye aoiRadius ∧ w.wireState lens id index = some c := by
  rw [Scene.mem_current]
  simp only [scene, heye, List.mem_filterMap, Option.map_eq_some_iff]
  constructor
  · rintro ⟨y, ⟨⟨id, index⟩, hmem, state, hstate, rfl⟩, rfl⟩
    exact ⟨id, index, hmem, hstate⟩
  · rintro ⟨id, index, hmem, hstate⟩
    exact ⟨_, ⟨(id, index), hmem, c, hstate, rfl⟩, rfl⟩

theorem closeness_scene {x : Seen K} (h : x ∈ (w.scene lens viewer aoiRadius).seen) :
    0 ≤ x.closeness ∧ x.closeness ≤ 1 := by
  cases heye : w.eye viewer with
  | none =>
    simp only [scene, heye] at h
    cases h
  | some eye =>
    simp only [scene, heye] at h
    obtain ⟨⟨id, index⟩, -, hout⟩ := List.mem_filterMap.mp h
    obtain ⟨state, -, rfl⟩ := Option.map_eq_some_iff.mp hout
    exact lens.near state eye

end

variable (math : CollisionMath) (physics : Physics (MoveState ℚ) A) (drifterAxes : UInt32 → A)

/-- After a step the keys are gathered once each. -/
theorem gather_nodup (w : GridWorld A) (order : List Nat) (hstore : w.world.entities.WF)
    (eye : Vec2 ℚ) (aoiRadius : ℚ) :
    (((w.step math physics drifterAxes order).gather eye aoiRadius).map Prod.fst).Nodup := by
  have hwf := (w.settled_step math physics drifterAxes order).store hstore
  have hquery := w.tiled.queryRadius_nodup
    (w.integrate math physics drifterAxes order).entities.position eye aoiRadius
  rw [List.Nodup, List.pairwise_map, gather, List.pairwise_filterMap]
  refine List.Pairwise.imp (fun {i j} hij a ha b hb => ?_) hquery
  have hat : ∀ {index : Nat} {a : Nat × Nat},
      (w.step math physics drifterAxes order).gatherKey eye aoiRadius index = some a →
      (w.step math physics drifterAxes order).world.entities.find a.1 = some index := by
    intro index a ha
    obtain ⟨-, position, -, hid, -⟩ := gatherKey_eq_some_iff.mp ha
    exact (hwf.index _ _).mpr hid
  intro heq
  have hi := hat ha
  rw [heq, hat hb] at hi
  exact hij (Option.some.inj hi).symm

/-- The scene of a world right after a step. -/
theorem scene_wf [Zero K] [One K] [LE K] (lens : Lens K) (w : GridWorld A) (order : List Nat)
    (hstore : w.world.entities.WF) (hids : ∀ id ∈ w.world.entities.id, id < 2 ^ 32)
    (viewer : Nat) (aoiRadius : ℚ) :
    ((w.step math physics drifterAxes order).scene lens viewer aoiRadius).WF := by
  have hsettled := w.settled_step math physics drifterAxes order
  refine ⟨Nat.mod_lt _ (by decide), ?_, fun y hy => ?_⟩
  · cases heye : (w.step math physics drifterAxes order).eye viewer with
    | none => simp [scene, heye]
    | some eye =>
      have hnodup := w.gather_nodup math physics drifterAxes order hstore eye aoiRadius
      rw [List.Nodup, List.pairwise_map] at hnodup
      simp only [scene, heye]
      rw [List.Nodup, List.pairwise_map, List.pairwise_filterMap]
      refine hnodup.imp fun {a b} hab x hx y hy => ?_
      obtain ⟨state, hstate, rfl⟩ := Option.map_eq_some_iff.mp hx
      obtain ⟨state', hstate', rfl⟩ := Option.map_eq_some_iff.mp hy
      rw [wireState_id hstate, wireState_id hstate']
      exact hab
  · cases heye : (w.step math physics drifterAxes order).eye viewer with
    | none =>
      simp only [scene, heye] at hy
      cases hy
    | some eye =>
      simp only [scene, heye] at hy
      obtain ⟨⟨id, index⟩, hmem, hout⟩ := List.mem_filterMap.mp hy
      obtain ⟨state, hstate, rfl⟩ := Option.map_eq_some_iff.mp hout
      obtain ⟨-, position, -, hid, -⟩ := mem_gather.mp hmem
      have hlt : id < 2 ^ 32 := hids id (hsettled.id ▸ List.mem_of_getElem? hid)
      unfold wireState at hstate
      split at hstate
      · rw [← Option.some.inj hstate]
        exact lens.fits id _ _ _ hlt
      · cases hstate

/-- A tick of the server, and the encode for the viewer that follows it. -/
structure Look (A K : Type) [Aging.Exact K] where
  w : GridWorld A
  order : List Nat
  store : w.world.entities.WF
  ids : ∀ id ∈ w.world.entities.id, id < 2 ^ 32
  lens : Lens K
  nth : NthElement K
  lastInputSequence : Nat
  out : Nat → UInt8
  capacity : Nat

inductive LookAction (A K : Type) [Aging.Exact K]
  | encode (look : Look A K)
  | acknowledge (tick : Nat)

section
variable [Aging.Exact K] (viewer : Nat) (aoiRadius : ℚ)

namespace Look
variable (look : Look A K)

/-- The world that is encoded. -/
def after : GridWorld A := look.w.step math physics drifterAxes look.order

/-- The tick after this one, with the same arguments. -/
def next : Look A K where
  w := look.after math physics drifterAxes
  order := look.order
  store := (look.w.settled_step math physics drifterAxes look.order).store look.store
  ids := (look.w.settled_step math physics drifterAxes look.order).id ▸ look.ids
  lens := look.lens
  nth := look.nth
  lastInputSequence := look.lastInputSequence
  out := look.out
  capacity := look.capacity

def call : EncodeCall K where
  nth := look.nth
  scene := (look.after math physics drifterAxes).scene look.lens viewer aoiRadius
  wf := scene_wf math physics drifterAxes look.lens look.w look.order look.store look.ids viewer
    aoiRadius
  lastInputSequence := look.lastInputSequence
  out := look.out
  capacity := look.capacity

/-- The viewer's own current state is one of these. -/
def Shows (states : List EntityWireState) : Prop :=
  ∃ index, (look.after math physics drifterAxes).world.entities.find viewer = some index ∧
    ∃ c ∈ states, (look.after math physics drifterAxes).wireState look.lens viewer index = some c

/-- Before the collisions the viewer was in one of the cells around its current place. -/
def Covered : Prop :=
  ∃ index, (look.after math physics drifterAxes).world.entities.find viewer = some index ∧
    ∃ before, (look.w.integrate math physics drifterAxes
        look.order).entities.position[index]? = some before ∧
      ∃ eye, (look.after math physics drifterAxes).eye viewer = some eye ∧
        look.w.grid.Covers eye aoiRadius before

end Look

def LookAction.call : LookAction A K → ViewerAction K
  | .encode look => .encode (look.call math physics drifterAxes viewer aoiRadius)
  | .acknowledge tick => .acknowledge tick

end

section
variable [Aging.Exact K] {viewer : Nat} {aoiRadius : ℚ} {look : Look A K}

/-- The viewer is gathered exactly when it is covered. -/
theorem Look.gathered_iff {index : Nat} {eye : Vec2 ℚ}
    (hfind : (look.after math physics drifterAxes).world.entities.find viewer = some index)
    (heye : (look.after math physics drifterAxes).eye viewer = some eye) :
    (viewer, index) ∈ (look.after math physics drifterAxes).gather eye aoiRadius ↔
      look.Covered math physics drifterAxes viewer aoiRadius := by
  have hwf := (look.w.settled_step math physics drifterAxes look.order).store look.store
  have hid := (hwf.index viewer index).mp hfind
  have hposition : (look.after math physics drifterAxes).world.entities.position[index]? =
      some eye := by
    rw [GridWorld.eye, EntityStore.cell, hfind] at heye
    exact heye
  have hnear : distanceSq eye eye ≤ aoiRadius * aoiRadius := by
    have hzero : distanceSq eye eye = 0 := by simp [distanceSq]
    rw [hzero]
    exact mul_self_nonneg aoiRadius
  rw [mem_gather]
  constructor
  · rintro ⟨hquery, -⟩
    obtain ⟨before, hbefore, hcovers⟩ :=
      (look.w.mem_query_step math physics drifterAxes look.order).mp hquery
    exact ⟨index, hfind, before, hbefore, eye, heye, hcovers⟩
  · rintro ⟨j, hj, before, hbefore, eye', heye', hcovers⟩
    obtain rfl := Option.some.inj (hj.symm.trans hfind)
    obtain rfl := Option.some.inj (heye'.symm.trans heye)
    exact ⟨(look.w.mem_query_step math physics drifterAxes look.order).mpr
      ⟨before, hbefore, hcovers⟩, _, hposition, hid, hnear⟩

/-- A frame has an entity of the viewer's id only when the viewer was gathered. -/
theorem Look.covered_of_shows {s : ReplicationState K}
    (hsent : (look.after math physics drifterAxes).eye viewer ≠ none)
    (hshows : look.Shows math physics drifterAxes viewer
      (stored viewer (s, look.call math physics drifterAxes viewer aoiRadius))) :
    look.Covered math physics drifterAxes viewer aoiRadius := by
  obtain ⟨index, hfind, c, hc, hstate⟩ := hshows
  obtain ⟨eye, heye⟩ := Option.ne_none_iff_exists'.mp hsent
  obtain ⟨i, row, hrow, hout⟩ := mem_frameStates.mp hc
  obtain ⟨hget, hprevious⟩ := rowsOver_getElem?.mp hrow
  have hkey : row.1.id = viewer := by
    rw [← wireState_id hstate]
    split at hout
    · rw [hout]
    · rw [hprevious] at hout
      exact (lookup_key hout).symm
  obtain ⟨id, index', hgathered, hstate'⟩ := (mem_current look.lens heye).mp
    (List.mem_of_getElem? hget)
  obtain rfl : id = viewer := (wireState_id hstate').symm.trans hkey
  have hwf := (look.w.settled_step math physics drifterAxes look.order).store look.store
  obtain ⟨-, -, -, hid, -⟩ := mem_gather.mp hgathered
  have hsame : (look.after math physics drifterAxes).world.entities.find id = some index' :=
    (hwf.index id index').mpr hid
  exact (look.gathered_iff math physics drifterAxes hsame heye).mp hgathered

/-- In every run of encodes for one viewer the frame of each successful encode has the viewer
as it is exactly when the query around it visits the cell it was in before the collisions. -/
theorem viewer_stored_iff {config : InterestConfig K}
    (hfalloff : config.distancePriorityFalloff = 1) (actions : List (LookAction A K)) :
    let xs := encodes viewer (ReplicationState.configure config)
      (actions.map (LookAction.call math physics drifterAxes viewer aoiRadius))
    (∀ x ∈ xs, 2 ≤ room viewer x) → (∀ x ∈ xs, (contenders viewer x).length ≤ 5000) →
    ∀ x ∈ xs, ∃ look, .encode look ∈ actions ∧
      x.2 = look.call math physics drifterAxes viewer aoiRadius ∧
      (x.2.apply viewer x.1).1.history =
        x.1.history.store (look.after math physics drifterAxes).world.tick (stored viewer x) ∧
      (look.Shows math physics drifterAxes viewer (stored viewer x) ↔
        look.Covered math physics drifterAxes viewer aoiRadius) := by
  intro xs hroom hcount x hx
  have hlook : ∀ y ∈ xs, ∃ look, .encode look ∈ actions ∧
      y.2 = look.call math physics drifterAxes viewer aoiRadius := by
    intro y hy
    obtain ⟨action, haction, heq⟩ := List.mem_map.mp (mem_encodes hy)
    cases action with
    | encode look => exact ⟨look, haction, (ViewerAction.encode.inj heq).symm⟩
    | acknowledge tick => cases heq
  have hnear : ∀ y ∈ xs, ∀ z ∈ y.2.scene.seen, 0 ≤ z.closeness ∧ z.closeness ≤ 1 := by
    intro y hy z hz
    obtain ⟨look, -, heq⟩ := hlook y hy
    rw [heq] at hz
    exact closeness_scene look.lens hz
  obtain ⟨look, hmem, heq⟩ := hlook x hx
  obtain ⟨t, ht⟩ := List.getElem?_of_mem hx
  obtain ⟨hcredited, -, hsent, -⟩ := encodes_at (credited_configure config)
    (actions.map (LookAction.call math physics drifterAxes viewer aoiRadius)) ht
  obtain ⟨hviewer, hhistory⟩ := encode_stored hcredited.toOrdered hsent
  obtain ⟨s, call⟩ := x
  obtain rfl : call = look.call math physics drifterAxes viewer aoiRadius := heq
  have heye : (look.after math physics drifterAxes).eye viewer ≠ none :=
    Option.isSome_iff_ne_none.mp hviewer
  refine ⟨look, hmem, rfl, hhistory,
    look.covered_of_shows math physics drifterAxes heye, fun hcovered => ?_⟩
  have hcovers := hcovered
  obtain ⟨index, hfind, -⟩ := hcovers
  obtain ⟨eye, heye⟩ := Option.ne_none_iff_exists'.mp heye
  have hgathered := (look.gathered_iff math physics drifterAxes hfind heye).mpr hcovered
  have hwf := (look.w.settled_step math physics drifterAxes look.order).store look.store
  obtain ⟨-, position, hposition, -⟩ := mem_gather.mp hgathered
  obtain ⟨c, hc⟩ := exists_wireState look.lens hwf viewer (hwf.position ▸
    (List.getElem?_eq_some_iff.mp hposition).1)
  have hcurrent := (mem_current look.lens heye).mpr ⟨viewer, index, hgathered, hc⟩
  exact ⟨index, hfind, c, viewer_in_frame hfalloff hnear hroom hcount hx hcurrent
    (wireState_id hc), hc⟩

end

def positionQuantizer : Quantizer := { min := 0, max := 2048, bits := 16 }

def velocityQuantizer : Quantizer := { min := -640, max := 640, bits := kVelocityBits }

/-- The wire states of a default world, with everything as close as can be. -/
def exactLens : Lens ℚ where
  state id position velocity kind :=
    { id
      px := positionQuantizer.encode position.x
      py := positionQuantizer.encode position.y
      vx := velocityQuantizer.encode velocity.x
      vy := velocityQuantizer.encode velocity.y
      kind := match kind with | .player => 0 | .drifter => 1 }
  closeness _ _ := 1
  id _ _ _ _ := rfl
  fits id position velocity kind h := by
    have hposition : positionQuantizer.min < positionQuantizer.max := by decide
    have hvelocity : velocityQuantizer.min < velocityQuantizer.max := by decide
    refine ⟨h, Quantizer.encode_lt hposition (by decide) _, Quantizer.encode_lt hposition
      (by decide) _, Quantizer.encode_lt hvelocity (by decide) _, Quantizer.encode_lt hvelocity
      (by decide) _, ?_⟩
    cases kind with
    | player => exact show 0 < 2 ^ kKindBits by decide
    | drifter => exact show 1 < 2 ^ kKindBits by decide
  near _ _ := ⟨by norm_num, le_rfl⟩

/-- Players at these places, and player 1 about to be sent the world. -/
def watching (places : List (Vec2 ℚ))
    (h : ∀ id ∈ (gathering places).world.entities.id, id < 2 ^ 32) : Look Unit ℚ where
  w := gathering places
  order := []
  store := (gathering_rowed places).store
  ids := h
  lens := exactLens
  nth := .sorting ℚ
  lastInputSequence := 0
  out := fun _ => 0
  capacity := 100

/-- The successful encodes of a run with this one. -/
def watched (look : Look Unit ℚ) (aoiRadius : ℚ) : List (ReplicationState ℚ × EncodeCall ℚ) :=
  encodes 1 (ReplicationState.configure interest)
    ([.encode look].map (LookAction.call onAxis idle (fun _ => ()) 1 aoiRadius))

/-- Three ticks of players who push each other aside around player 1. -/
def jostling : List (Look Unit ℚ) :=
  let first := { watching [⟨1010, 100⟩, ⟨1002, 100⟩, ⟨1024, 100⟩, ⟨980, 100⟩, ⟨1200, 100⟩]
    (by decide +kernel) with capacity := 46 }
  let next := fun look : Look Unit ℚ => look.next onAxis idle fun _ => ()
  [first, next first, next (next first)]

/-- All five are in view, and the packet is too small for them. -/
theorem jostling_cramped {look : Look Unit ℚ} (h : look ∈ jostling) :
    (look.call onAxis idle (fun _ => ()) 1 260).Cramped ∧
      (look.call onAxis idle (fun _ => ()) 1 260).scene.seen.length = 5 := by
  have hview : (look.call onAxis idle (fun _ => ()) 1 260).scene.hasViewer = true ∧
      (look.call onAxis idle (fun _ => ()) 1 260).scene.seen.length = 5 ∧ look.capacity = 46 := by
    simp only [jostling, List.mem_cons, List.not_mem_nil, or_false] at h
    obtain rfl | rfl | rfl := h <;> decide +kernel
  obtain ⟨hviewer, hseen, hcapacity⟩ := hview
  refine ⟨⟨hviewer, ?_, ?_, ?_⟩, hseen⟩
  · exact hcapacity.trans_le (by decide)
  · exact (show 2 ≤ steadyRoom interest 46 by decide).trans_eq (by rw [← hcapacity]; rfl)
  · rw [hseen]
    exact (show fits (8 * 46) < 5 by decide).trans_eq' (by rw [← hcapacity]; rfl)

theorem jostling_covered {look : Look Unit ℚ} (h : look ∈ jostling) :
    look.Covered onAxis idle (fun _ => ()) 1 260 := by
  simp only [jostling, List.mem_cons, List.not_mem_nil, or_false] at h
  obtain rfl | rfl | rfl := h
  · exact ⟨0, by decide +kernel, ⟨1010, 100⟩, by decide +kernel, ⟨1011, 100⟩, by decide +kernel,
      by decide +kernel⟩
  · exact ⟨0, by decide +kernel, ⟨1011, 100⟩, by decide +kernel, ⟨4047 / 4, 100⟩,
      by decide +kernel, by decide +kernel⟩
  · exact ⟨0, by decide +kernel, ⟨4047 / 4, 100⟩, by decide +kernel, ⟨16191 / 16, 100⟩,
      by decide +kernel, by decide +kernel⟩

/-- Pushed around in a crowd that no packet has room for, with credits that grow, the viewer is
in every frame. -/
theorem viewer_stored_iff_jostled :
    let xs := encodes 1 (ReplicationState.configure interest)
      ((jostling.map .encode).map (LookAction.call onAxis idle (fun _ => ()) 1 260))
    xs.length = 3 ∧ (∀ x ∈ xs, (chosen 1 x).length < (contenders 1 x).length) ∧
      ∀ x ∈ xs, ∃ look ∈ jostling, x.2 = look.call onAxis idle (fun _ => ()) 1 260 ∧
        look.Shows onAxis idle (fun _ => ()) 1 (stored 1 x) := by
  intro xs
  have hnew : (ReplicationState.configure interest).Unacked := ⟨rfl, rfl⟩
  have hmap : (jostling.map .encode).map (LookAction.call onAxis idle (fun _ => ()) 1 260) =
      (jostling.map fun look => look.call onAxis idle (fun _ => ()) 1 260).map .encode := by
    rw [List.map_map, List.map_map]
    rfl
  obtain ⟨hcalls, hall⟩ := hnew.encodes 1 fun call hcall => by
    obtain ⟨look, hlook, rfl⟩ := List.mem_map.mp hcall
    exact (jostling_cramped hlook).1
  rw [← hmap] at hcalls hall
  have hlength : xs.length = 3 := by
    rw [← List.length_map Prod.snd, hcalls]
    rfl
  have hcount : ∀ x ∈ xs, (contenders 1 x).length ≤ 5000 := by
    intro x hx
    have hmem : x.2 ∈ jostling.map (fun look => look.call onAxis idle (fun _ => ()) 1 260) :=
      hcalls ▸ List.mem_map_of_mem hx
    obtain ⟨look, hlook, heq⟩ := List.mem_map.mp hmem
    rw [((hall x hx).1.contended (hall x hx).2 1).1, ← heq, (jostling_cramped hlook).2]
    decide
  refine ⟨hlength, fun x hx => ?_, fun x hx => ?_⟩
  · obtain ⟨hsame, hless⟩ := (hall x hx).1.contended (hall x hx).2 1
    exact hsame ▸ hless
  · have hfalloff : interest.distancePriorityFalloff = 1 := rfl
    obtain ⟨look, hlook, heq, -, hiff⟩ := viewer_stored_iff onAxis idle (fun _ => ()) hfalloff
      (jostling.map .encode) (fun y hy => ((hall y hy).1.encode (hall y hy).2 1).2.2) hcount x hx
    obtain ⟨look', hlook', hsame⟩ := List.mem_map.mp hlook
    obtain rfl := LookAction.encode.inj hsame
    exact ⟨look', hlook', heq, hiff.mpr (jostling_covered hlook')⟩

def crowded : Look Unit ℚ := watching [⟨1023, 100⟩, ⟨1015, 100⟩] (by decide +kernel)

/-- With a radius of 1 a player pushed over the border between two cells is not in the frame
of its own packet, which has room for six. -/
theorem viewer_pushed_out :
    (crowded.w.integrate onAxis idle (fun _ => ()) []).entities.position[0]? =
        some ⟨1023, 100⟩ ∧
      (crowded.after onAxis idle fun _ => ()).eye 1 = some ⟨1027, 100⟩ ∧
      (watched crowded 1).map (fun x => (room 1 x, (contenders 1 x).length)) = [(6, 0)] ∧
      ∀ x ∈ watched crowded 1, ¬ crowded.Shows onAxis idle (fun _ => ()) 1 (stored 1 x) := by
  refine ⟨by decide +kernel, by decide +kernel, by decide +kernel, fun x hx hshows => ?_⟩
  have hempty : ∀ x ∈ watched crowded 1, stored 1 x = [] := by decide +kernel
  obtain ⟨index, hfind, c, hc, hstate⟩ := hshows
  rw [hempty x hx] at hc
  cases hc

end GridWorld
end Morton.Sim
