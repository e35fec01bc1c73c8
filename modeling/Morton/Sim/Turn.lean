import Morton.Sim.WorldRuns

/-! One player's turn in a tick: the command its entity is moved with, and what the turns of
the other players and the rest of the tick leave of it. -/
namespace Morton.Sim
namespace World
variable {F A : Type} (sim : Simulation F A)

/-- The command the next tick integrates for a client, and whether it was waiting. -/
def integrates (w : World F A) (client : Nat) : Option (MoveInput A × Bool) :=
  (w.players.lookup client).map fun slot =>
    let (input, waited, _) := slot.next sim.centered w.tick
    (input, waited)

/-- Between `w` and `w'` the client had its turn, and nothing else touched its row. -/
structure Turned (w w' : World F A) (client : Nat) (slot : PlayerSlot A) : Prop where
  after : w'.players.lookup client = some (slot.next sim.centered w.tick).2.2
  sequence : w'.entities.sequenceOf slot.entity =
    some (slot.next sim.centered w.tick).2.2.lastAppliedSequence
  moved : ∃ state : MoveState F,
    w.entities.cell w.entities.position slot.entity = some state.position ∧
    w.entities.cell w.entities.velocity slot.entity = some state.velocity ∧
    let state' := sim.stepMovement state (slot.next sim.centered w.tick).1
    w'.entities.cell w'.entities.position slot.entity = some state'.position ∧
    w'.entities.cell w'.entities.velocity slot.entity = some state'.velocity

theorem Rowed.turned {w : World F A} (h : w.Rowed) {client : Nat} {slot : PlayerSlot A}
    (hslot : w.players.lookup client = some slot) :
    Turned sim w (applyInput sim w client) client slot := by
  obtain ⟨i, position, velocity, hfind, hposition, hvelocity⟩ := h.find_slot hslot
  rw [applyInput_some sim hslot hfind hposition hvelocity]
  have hcell : ∀ {α : Type} (xs : List α), xs.length = w.entities.size → ∀ x,
      w.entities.cell (xs.set i x) slot.entity = some x := by
    intro α xs hlength x
    rw [EntityStore.cell_set h.store hlength hfind, if_pos rfl]
  refine ⟨(Table.lookup_insert _ _ _ _).trans (if_pos rfl), hcell _ h.store.sequence _,
    ⟨position, velocity⟩, ?_, ?_, hcell _ h.store.position _, hcell _ h.store.velocity _⟩
  · rw [EntityStore.cell, hfind, Option.bind_some, hposition]
  · rw [EntityStore.cell, hfind, Option.bind_some, hvelocity]

/-- The turn of another client changes nothing here. -/
theorem Rowed.turned_after {w w' : World F A} (h' : w'.Rowed) {client other : Nat}
    (hne : client ≠ other) {slot : PlayerSlot A} (hturned : Turned sim w w' client slot) :
    Turned sim w (applyInput sim w' other) client slot := by
  cases hother : w'.players.lookup other with
  | none => rwa [applyInput_none sim hother]
  | some slot' =>
    obtain ⟨i, position, velocity, hfind, hposition, hvelocity⟩ := h'.find_slot hother
    have hsame := (slot.next_frame sim.centered w.tick).1
    obtain ⟨j, _, _, hrow, -, -⟩ := h'.find_slot hturned.after
    rw [hsame] at hrow
    have hij : slot.entity ≠ slot'.entity := by
      intro heq
      apply h'.rows_ne hne hturned.after hother (hsame ▸ hrow) hfind
      rw [heq, hfind] at hrow
      exact (Option.some.inj hrow).symm
    have hcell : ∀ {α : Type} (xs : List α), xs.length = w'.entities.size → ∀ x,
        w'.entities.cell (xs.set i x) slot.entity = w'.entities.cell xs slot.entity := by
      intro α xs hlength x
      rw [EntityStore.cell_set h'.store hlength hfind, if_neg hij]
    rw [applyInput_some sim hother hfind hposition hvelocity]
    obtain ⟨state, hstate, hspeed, hmoved, hslowed⟩ := hturned.moved
    refine ⟨(Table.lookup_insert _ _ _ _).trans ((if_neg hne).trans hturned.after), ?_,
      state, hstate, hspeed, ?_, ?_⟩
    · exact (hcell _ h'.store.sequence _).trans hturned.sequence
    · exact (hcell _ h'.store.position _).trans hmoved
    · exact (hcell _ h'.store.velocity _).trans hslowed

/-- A whole round of turns gives a client exactly one. -/
theorem Rowed.turned_round {w : World F A} (h : w.Rowed) {client : Nat} {slot : PlayerSlot A}
    (hslot : w.players.lookup client = some slot) {order : List Nat} (horder : w.Iterated order) :
    Turned sim w (applyInputs sim w order) client slot := by
  have hmem : client ∈ order :=
    (horder.2 client).mpr (Finmap.mem_iff.mpr ⟨slot, hslot⟩)
  -- bring the client to the front; the others follow it
  rw [h.applyInputs_perm sim (List.perm_cons_erase hmem)]
  have hothers : ∀ other ∈ order.erase client, client ≠ other := by
    intro other hother heq
    subst heq
    exact absurd hother horder.1.not_mem_erase
  have hfirst := h.turned sim hslot
  have hrowed := h.settled (settled_applyInput sim w client)
  change Turned sim w (applyInputs sim (applyInput sim w client) (order.erase client)) client slot
  generalize applyInput sim w client = w' at hfirst hrowed
  generalize order.erase client = others at hothers
  induction others generalizing w' with
  | nil => exact hfirst
  | cons other others ih =>
    apply ih
    · exact hrowed.turned_after sim (hothers other List.mem_cons_self) hfirst
    · exact hrowed.settled (settled_applyInput sim w' other)
    · exact fun next hnext => hothers next (List.mem_cons_of_mem _ hnext)

/-- After a whole tick: the slot has moved on, and its entity carries the slot's sequence. -/
theorem Rowed.turned_step {w : World F A} (h : w.Rowed) {client : Nat} {slot : PlayerSlot A}
    (hslot : w.players.lookup client = some slot) {order : List Nat} (horder : w.Iterated order) :
    (step sim w order).players.lookup client = some (slot.next sim.centered w.tick).2.2 ∧
    (step sim w order).entities.sequenceOf slot.entity =
      some (slot.next sim.centered w.tick).2.2.lastAppliedSequence := by
  have hreset : Rowed
      { w with stats := { w.stats with inputsApplied := 0, inputsStarved := 0 } } :=
    h.settled (settled_moved (EntityStore.Moved.refl _) rfl rfl)
  have hround := hreset.turned_round sim hslot horder
  constructor
  · exact hround.after
  · exact (congrFun (moved_foldl_driveDrifter sim _ _ _).sequenceOf slot.entity).trans
      hround.sequence

theorem tick_step (w : World F A) (order : List Nat) :
    (step sim w order).tick = (w.tick + 1) % 2 ^ 32 := by
  have hkeep : ∀ w : World F A, (applyInputs sim w order).tick = w.tick := by
    intro w
    induction order generalizing w with
    | nil => rfl
    | cons client order ih =>
      apply (ih _).trans
      cases applyInput_cases sim w client with
      | inl hsame => rw [hsame]
      | inr hmoved =>
        obtain ⟨slot, i, stats, -, -, position, velocity, heq⟩ := hmoved
        rw [heq]
  simp only [step, driveDrifters, hkeep]

end World
end Morton.Sim
