import Morton.Base.Run
import Morton.Sim.WorldSpec

/-! Worlds under any sequence of operations: rows and slots stay matched, and the order in
which a tick meets the players does not show. -/
namespace Morton.Sim

/-- The seven columns of one entity. -/
structure EntityRow (F : Type) where
  id : Option Nat
  position : Option (Vec2 F)
  velocity : Option (Vec2 F)
  kind : Option EntityKind
  owner : Option Nat
  lastInputSequence : Option Nat
  aiSeed : Option UInt32

namespace EntityStore
variable {F : Type}

def row (s : EntityStore F) (entity : Nat) : EntityRow F :=
  { id := s.cell s.id entity
    position := s.cell s.position entity
    velocity := s.cell s.velocity entity
    kind := s.cell s.kind entity
    owner := s.cell s.owner entity
    lastInputSequence := s.cell s.lastInputSequence entity
    aiSeed := s.cell s.aiSeed entity }

theorem row_remove {s : EntityStore F} (h : s.WF) {entity other : Nat} (hne : other ≠ entity) :
    (s.remove entity).1.row other = s.row other := by
  cases hfind : s.find entity with
  | none =>
    have hlookup : s.indexOf.lookup entity = none := hfind
    simp only [remove, hlookup]
  | some i =>
    have hcell : ∀ {α : Type} (xs : List α), xs.length = s.size →
        (s.remove entity).1.cell (swapPop xs i) other = s.cell xs other := by
      intro α xs hlength
      rw [cell_remove h hlength hfind, if_neg hne]
    have hrow := remove_of_find hfind
    simp only [row, congrArg EntityStore.id hrow, congrArg EntityStore.position hrow,
      congrArg EntityStore.velocity hrow, congrArg EntityStore.kind hrow,
      congrArg EntityStore.owner hrow, congrArg EntityStore.lastInputSequence hrow,
      congrArg EntityStore.aiSeed hrow, hcell _ rfl, hcell _ h.position, hcell _ h.velocity,
      hcell _ h.kind, hcell _ h.owner, hcell _ h.sequence, hcell _ h.seed]

/-- No id stands in two rows. -/
theorem WF.nodup {s : EntityStore F} (h : s.WF) : s.id.Nodup := by
  rw [List.nodup_iff_injective_getElem]
  intro i j heq
  have hi := (h.index _ _).mpr (List.getElem?_eq_getElem i.isLt)
  have hj := (h.index _ _).mpr (List.getElem?_eq_getElem j.isLt)
  dsimp only at heq
  rw [heq, hj] at hi
  exact Fin.ext (Option.some.inj hi).symm

end EntityStore

/-- A call on a world; a tick comes with the order in which it meets the players. -/
inductive WorldAction (F A : Type)
  | spawnPlayer (client : Nat) (position : Vec2 F)
  | spawnDrifter (position : Vec2 F)
  | despawn (entity : Nat)
  | adoptEntity (entity client : Nat) (position velocity : Vec2 F) (lastInputSequence : Nat)
  | queueInput (client : Nat) (input : MoveInput A)
  | step (order : List Nat)

/-- Everything that is moved goes one step to the right. -/
def Simulation.marching : Simulation Int Unit :=
  { stepMovement := fun s _ => ⟨⟨s.position.x + 1, s.position.y⟩, s.velocity⟩
    quantizeInput := id
    decode := fun _ => ⟨⟨0, 0⟩, ⟨0, 0⟩⟩
    initial := ⟨⟨0, 0⟩, ⟨0, 0⟩⟩
    centered := ()
    drifterAxes := fun _ => ()
    resolveCollisions := fun _ positions => (positions, 0, 0)
    resolve_length := fun _ _ => rfl }

namespace World
variable {F A : Type}

/-- The entity that the slot of a client names. -/
def entityOf (w : World F A) (client : Nat) : Option Nat :=
  (w.players.lookup client).map PlayerSlot.entity

/-- Every slot names an entity of its own client, and the next id is free. -/
structure Rowed (w : World F A) : Prop where
  store : w.entities.WF
  fresh : ∀ entity ∈ w.entities.id, entity < w.nextEntity
  unowned : w.entityOf 0 = none
  slot : ∀ client entity, w.entityOf client = some entity →
    w.entities.ownerOf entity = some client

/-- Every owned entity is the one its client's slot names. -/
def Owned (w : World F A) : Prop :=
  ∀ entity client, w.entities.ownerOf entity = some client → client ≠ 0 →
    w.entityOf client = some entity

theorem rowed_empty : ({} : World F A).Rowed where
  store := Good.empty.store
  fresh entity hmem := by cases hmem
  unowned := rfl
  slot client entity hentity := by
    simp [entityOf] at hentity

theorem owned_empty : ({} : World F A).Owned := by
  intro entity client howner
  simp [EntityStore.ownerOf, EntityStore.cell, EntityStore.find] at howner

/-- Whatever leaves owners, ids and named entities alone. -/
theorem Rowed.same {w w' : World F A} (h : w.Rowed) (hstore : w'.entities.WF)
    (hid : w'.entities.id = w.entities.id) (hnext : w'.nextEntity = w.nextEntity)
    (howner : w'.entities.ownerOf = w.entities.ownerOf) (hentity : w'.entityOf = w.entityOf) :
    w'.Rowed where
  store := hstore
  fresh := by
    rw [hid, hnext]
    exact h.fresh
  unowned := by rw [hentity, h.unowned]
  slot := by
    rw [hentity, howner]
    exact h.slot

theorem Owned.same {w w' : World F A} (h : w.Owned)
    (howner : w'.entities.ownerOf = w.entities.ownerOf) (hentity : w'.entityOf = w.entityOf) :
    w'.Owned := by
  unfold Owned
  rw [howner, hentity]
  exact h

/-- A row is written for an entity, and for a client a slot that names it. -/
structure Seats (w w' : World F A) (entity client : Nat) : Prop where
  store : w'.entities.WF
  ids : ∀ e ∈ w'.entities.id, e ∈ w.entities.id ∨ e = entity
  next : w.nextEntity ≤ w'.nextEntity
  room : entity < w'.nextEntity
  owner : ∀ e, w'.entities.ownerOf e =
    if e = entity then some client else w.entities.ownerOf e
  named : ∀ c, w'.entityOf c = if c = client then some entity else w.entityOf c

theorem Rowed.seats {w w' : World F A} (h : w.Rowed) {entity client : Nat}
    (hseats : Seats w w' entity client) (hclient : client ≠ 0)
    (hfree : ∀ owner, w.entities.ownerOf entity = some owner → owner = 0 ∨ owner = client) :
    w'.Rowed where
  store := hseats.store
  fresh e hmem := by
    cases hseats.ids e hmem with
    | inl hold => exact Nat.lt_of_lt_of_le (h.fresh e hold) hseats.next
    | inr heq => exact heq ▸ hseats.room
  unowned := by rw [hseats.named, if_neg hclient.symm, h.unowned]
  slot c e hnamed := by
    rw [hseats.named] at hnamed
    rw [hseats.owner]
    by_cases hc : c = client
    · rw [if_pos hc, Option.some.injEq] at hnamed
      rw [if_pos hnamed.symm, hc]
    · rw [if_neg hc] at hnamed
      have howner := h.slot c e hnamed
      by_cases he : e = entity
      · -- an entity of another client is never seated
        cases hfree c (he ▸ howner) with
        | inl hzero =>
          rw [hzero, h.unowned] at hnamed
          cases hnamed
        | inr hown => exact absurd hown hc
      · rw [if_neg he, howner]

theorem Owned.seats {w w' : World F A} (h : w.Owned) {entity client : Nat}
    (hseats : Seats w w' entity client)
    (hsingle : ∀ e, w.entityOf client = some e → e = entity) : w'.Owned := by
  intro e c howner hc
  rw [hseats.owner] at howner
  rw [hseats.named]
  by_cases he : e = entity
  · rw [if_pos he, Option.some.injEq] at howner
    rw [if_pos howner.symm, he]
  · rw [if_neg he] at howner
    have hnamed := h e c howner hc
    by_cases heq : c = client
    · exact absurd (hsingle e (heq ▸ hnamed)) he
    · rw [if_neg heq, hnamed]

theorem Rowed.find_fresh {w : World F A} (h : w.Rowed) :
    w.entities.find w.nextEntity = none :=
  h.store.find_fresh h.fresh

section
variable [Zero F]

theorem seats_spawnPlayer {w : World F A} (h : w.Rowed) (centered : A) (client : Nat)
    (position : Vec2 F) :
    Seats w (w.spawnPlayer centered client position).2 w.nextEntity client := by
  refine ⟨h.store.add h.find_fresh _ _ _, fun e hmem => ?_, Nat.le_succ _, Nat.lt_succ_self _,
    fun e => ownerOf_add h.store _ e _ _ _, fun c => ?_⟩
  · simpa using List.mem_append.mp hmem
  · simp only [entityOf, World.spawnPlayer, Table.lookup_insert]
    split
    · rfl
    · rfl

/-- An absent entity is appended, one that is there is rewritten in place. -/
theorem seats_adoptEntity {w : World F A} (h : w.Rowed) (centered : A) (entity client : Nat)
    (position velocity : Vec2 F) (sequence : Nat) :
    Seats w (w.adoptEntity centered entity client position velocity sequence) entity client := by
  have hnamed : ∀ c, (w.adoptEntity centered entity client position velocity sequence).entityOf c =
      if c = client then some entity else w.entityOf c := by
    intro c
    simp only [entityOf, World.adoptEntity, Table.lookup_insert]
    split
    · rfl
    · rfl
  -- whatever store the row is in, the four writes keep it well formed
  have hwrite : ∀ {s : EntityStore F} {i : Nat}, s.WF → s.find entity = some i →
      ({ s with
        position := s.position.set i position
        velocity := s.velocity.set i velocity
        owner := s.owner.set i client
        lastInputSequence := s.lastInputSequence.set i sequence } : EntityStore F).WF ∧
      ∀ e, s.cell (s.owner.set i client) e = if e = entity then some client else s.ownerOf e := by
    intro s i hs hfind
    constructor
    · exact ⟨List.length_set.trans hs.position, List.length_set.trans hs.velocity, hs.kind,
        List.length_set.trans hs.owner, List.length_set.trans hs.sequence, hs.seed, hs.index⟩
    · exact fun e => EntityStore.cell_set hs hs.owner hfind e client
  cases hfind : w.entities.find entity with
  | none =>
    have hadded := h.store.add hfind .player position client
    have hat : (w.entities.add entity .player position client).find entity =
        some w.entities.size := by
      rw [EntityStore.find_add, if_pos rfl]
    obtain ⟨hwf, howner⟩ := hwrite hadded hat
    have hworld : (w.adoptEntity centered entity client position velocity sequence).nextEntity =
        max w.nextEntity (entity + 1) := by
      simp only [World.adoptEntity, hfind]
    refine ⟨?_, fun e hmem => ?_, ?_, ?_, fun e => ?_, hnamed⟩
    · simpa only [World.adoptEntity, hfind] using hwf
    · simp only [World.adoptEntity, hfind] at hmem
      simpa using List.mem_append.mp hmem
    · rw [hworld]
      exact Nat.le_max_left _ _
    · rw [hworld]
      exact Nat.lt_of_lt_of_le (Nat.lt_succ_self _) (Nat.le_max_right _ _)
    · simp only [World.adoptEntity, hfind]
      refine (howner e).trans ?_
      rw [ownerOf_add h.store]
      split
      · rfl
      · rfl
  | some i =>
    obtain ⟨hwf, howner⟩ := hwrite h.store hfind
    have hmem := (h.store.mem_id_iff entity).mpr (Option.isSome_iff_exists.mpr ⟨i, hfind⟩)
    refine ⟨?_, fun e hmem => ?_, ?_, ?_, fun e => ?_, hnamed⟩
    · simpa only [World.adoptEntity, hfind] using hwf
    · simp only [World.adoptEntity, hfind] at hmem
      exact Or.inl hmem
    · simp only [World.adoptEntity, hfind]
      exact Nat.le_refl _
    · simp only [World.adoptEntity, hfind]
      exact h.fresh entity hmem
    · simp only [World.adoptEntity, hfind]
      exact howner e

theorem Rowed.spawnDrifter {w : World F A} (h : w.Rowed) (position : Vec2 F) :
    (w.spawnDrifter position).2.Rowed := by
  refine ⟨h.store.add h.find_fresh _ _ _, fun e hmem => ?_, h.unowned, fun c e hnamed => ?_⟩
  · cases List.mem_append.mp hmem with
    | inl hold => exact Nat.lt_succ_of_lt (h.fresh e hold)
    | inr hnew => exact List.mem_singleton.mp hnew ▸ Nat.lt_succ_self _
  · have howner := h.slot c e hnamed
    have hne : e ≠ w.nextEntity := by
      rintro rfl
      rw [EntityStore.ownerOf, EntityStore.cell, h.find_fresh] at howner
      cases howner
    simp only [World.spawnDrifter, ownerOf_add h.store, if_neg hne, howner]

theorem Owned.spawnDrifter {w : World F A} (h : w.Owned) (hstore : w.entities.WF)
    (position : Vec2 F) : (w.spawnDrifter position).2.Owned := by
  intro e c howner hc
  simp only [World.spawnDrifter, ownerOf_add hstore] at howner
  split at howner
  · exact absurd (Option.some.inj howner).symm hc
  · exact h e c howner hc

end

/-- A despawn takes the row and the slot of its owner. -/
theorem entityOf_despawn {w : World F A} (h : w.Rowed) {entity client : Nat}
    (howner : w.entities.ownerOf entity = some client) (c : Nat) :
    (w.despawn entity).entityOf c = if c = client then none else w.entityOf c := by
  rw [despawn_of_owner howner]
  by_cases hzero : client = 0
  · rw [if_neg (not_not.mpr hzero)]
    split
    · rename_i hc
      rw [hc, hzero]
      exact h.unowned
    · rfl
  · rw [if_pos hzero]
    simp only [entityOf, Table.lookup_erase]
    split
    · rfl
    · rfl

theorem ownerOf_despawn {w : World F A} (hstore : w.entities.WF) {entity client : Nat}
    (howner : w.entities.ownerOf entity = some client) (e : Nat) :
    (w.despawn entity).entities.ownerOf e =
      if e = entity then none else w.entities.ownerOf e := by
  obtain ⟨i, hfind, -⟩ := Option.bind_eq_some_iff.mp howner
  rw [despawn_of_owner howner, EntityStore.ownerOf,
    congrArg EntityStore.owner (EntityStore.remove_of_find hfind)]
  exact EntityStore.cell_remove hstore hstore.owner hfind e

theorem despawn_absent {w : World F A} (hstore : w.entities.WF) {entity : Nat}
    (h : w.entities.ownerOf entity = none) : w.despawn entity = w := by
  cases hfind : w.entities.find entity with
  | none => simp only [World.despawn, hfind]
  | some i =>
    have hlt := hstore.find_lt hfind
    rw [← hstore.owner] at hlt
    rw [EntityStore.ownerOf, EntityStore.cell, hfind, Option.bind_some,
      List.getElem?_eq_getElem hlt] at h
    cases h

theorem Rowed.despawn {w : World F A} (h : w.Rowed) (entity : Nat) : (w.despawn entity).Rowed := by
  cases howner : w.entities.ownerOf entity with
  | none => rwa [despawn_absent h.store howner]
  | some client =>
    have hworld := despawn_of_owner howner
    refine ⟨?_, fun e hmem => ?_, ?_, fun c e hnamed => ?_⟩
    · rw [hworld]
      exact h.store.remove entity
    · rw [hworld] at hmem ⊢
      obtain ⟨i, hfind, -⟩ := Option.bind_eq_some_iff.mp howner
      have hsome := ((h.store.remove entity).mem_id_iff e).mp hmem
      have hstays : (w.entities.find e).isSome = true := by
        rw [EntityStore.find_remove h.store hfind] at hsome
        split at hsome
        · cases hsome
        · split at hsome
          · rw [‹w.entities.find e = _›]
            rfl
          · exact hsome
      exact h.fresh e ((h.store.mem_id_iff e).mpr hstays)
    · rw [entityOf_despawn h howner, h.unowned, ite_self]
    · rw [entityOf_despawn h howner] at hnamed
      rw [ownerOf_despawn h.store howner]
      split at hnamed
      · cases hnamed
      · rename_i hc
        have hown := h.slot c e hnamed
        by_cases he : e = entity
        · rw [he, howner, Option.some.injEq] at hown
          exact absurd hown.symm hc
        · rw [if_neg he, hown]

theorem Owned.despawn {w : World F A} (h : w.Owned) (hrowed : w.Rowed) (entity : Nat) :
    (w.despawn entity).Owned := by
  cases howner : w.entities.ownerOf entity with
  | none => rwa [despawn_absent hrowed.store howner]
  | some client =>
    intro e c hown hc
    rw [ownerOf_despawn hrowed.store howner] at hown
    rw [entityOf_despawn hrowed howner]
    split at hown
    · cases hown
    · rename_i he
      have hnamed := h e c hown hc
      by_cases heq : c = client
      · -- the owner's slot names the entity that leaves
        have hleaves := h entity client howner (heq ▸ hc)
        rw [← heq, hnamed, Option.some.injEq] at hleaves
        exact absurd hleaves he
      · rw [if_neg heq, hnamed]

theorem entityOf_queueInput (w : World F A) (quantize : A → A) (client : Nat)
    (input : MoveInput A) : (w.queueInput quantize client input).entityOf = w.entityOf := by
  funext c
  cases hslot : w.players.lookup client with
  | none => simp only [World.queueInput, hslot]
  | some slot =>
    simp only [entityOf, World.queueInput, hslot, Table.lookup_insert]
    split
    · rename_i hc
      rw [hc, hslot]
      simp only [Option.map_some, (slot.receive_frame quantize input).1]
    · rfl

theorem entities_queueInput (w : World F A) (quantize : A → A) (client : Nat)
    (input : MoveInput A) : (w.queueInput quantize client input).entities = w.entities ∧
      (w.queueInput quantize client input).nextEntity = w.nextEntity := by
  unfold queueInput
  split
  · exact ⟨rfl, rfl⟩
  · exact ⟨rfl, rfl⟩

/-- The store and the slots agree, and a despawn takes one row only. -/
structure Consistent (w : World F A) : Prop where
  store : w.entities.WF
  nodup : w.entities.id.Nodup
  slot : ∀ client slot, w.players.lookup client = some slot →
    slot.entity ∈ w.entities.id ∧ w.entities.ownerOf slot.entity = some client
  owned : ∀ entity client, w.entities.ownerOf entity = some client → client ≠ 0 →
    ∃ slot, w.players.lookup client = some slot ∧ slot.entity = entity
  despawn : ∀ entity other, other ≠ entity →
    (w.despawn entity).entities.row other = w.entities.row other

theorem Rowed.consistent {w : World F A} (h : w.Rowed) (howned : w.Owned) : w.Consistent where
  store := h.store
  nodup := h.store.nodup
  slot client slot hslot := by
    have howner := h.slot client slot.entity (by simp [entityOf, hslot])
    obtain ⟨i, hfind, -⟩ := Option.bind_eq_some_iff.mp howner
    exact ⟨(h.store.mem_id_iff _).mpr (by simp [hfind]), howner⟩
  owned entity client howner hclient :=
    Option.map_eq_some_iff.mp (howned entity client howner hclient)
  despawn entity other hne := by
    cases howner : w.entities.ownerOf entity with
    | none => rw [despawn_absent h.store howner]
    | some client =>
      rw [despawn_of_owner howner]
      exact EntityStore.row_remove h.store hne

variable (sim : Simulation F A)

/-- From `w` to `w'` rows and slots stay matched: only contents have changed. -/
structure Settled (w w' : World F A) : Prop where
  store : w.entities.WF → w'.entities.WF
  id : w'.entities.id = w.entities.id
  next : w'.nextEntity = w.nextEntity
  owner : w'.entities.ownerOf = w.entities.ownerOf
  named : w'.entityOf = w.entityOf

theorem Settled.refl (w : World F A) : Settled w w := ⟨fun h => h, rfl, rfl, rfl, rfl⟩

theorem Settled.trans {w w' w'' : World F A} (h : Settled w w') (h' : Settled w' w'') :
    Settled w w'' :=
  ⟨fun hstore => h'.store (h.store hstore), h'.id.trans h.id, h'.next.trans h.next,
    h'.owner.trans h.owner, h'.named.trans h.named⟩

theorem Rowed.settled {w w' : World F A} (h : w.Rowed) (hsettled : Settled w w') : w'.Rowed :=
  h.same (hsettled.store h.store) hsettled.id hsettled.next hsettled.owner hsettled.named

theorem Owned.settled {w w' : World F A} (h : w.Owned) (hsettled : Settled w w') : w'.Owned :=
  h.same hsettled.owner hsettled.named

theorem settled_queueInput (w : World F A) (quantize : A → A) (client : Nat)
    (input : MoveInput A) : Settled w (w.queueInput quantize client input) := by
  obtain ⟨hentities, hnext⟩ := w.entities_queueInput quantize client input
  refine ⟨?_, ?_, hnext, ?_, w.entityOf_queueInput quantize client input⟩
  · rw [hentities]
    exact id
  · rw [hentities]
  · rw [hentities]

theorem settled_applyInput (w : World F A) (client : Nat) :
    Settled w (applyInput sim w client) := by
  cases applyInput_cases sim w client with
  | inl hsame =>
    rw [hsame]
    exact .refl w
  | inr hmoved =>
    obtain ⟨slot, i, stats, hslot, -, position, velocity, heq⟩ := hmoved
    rw [heq]
    refine ⟨fun h => ?_, rfl, rfl, rfl, ?_⟩
    · exact ⟨List.length_set.trans h.position, List.length_set.trans h.velocity, h.kind, h.owner,
        List.length_set.trans h.sequence, h.seed, h.index⟩
    · funext c
      simp only [entityOf, Table.lookup_insert]
      split
      · rename_i hc
        rw [hc, hslot]
        simp only [Option.map_some, (slot.next_frame sim.centered w.tick).1]
      · rfl

theorem settled_applyInputs (w : World F A) (order : List Nat) :
    Settled w (applyInputs sim w order) := by
  induction order generalizing w with
  | nil => exact .refl w
  | cons client order ih => exact (settled_applyInput sim w client).trans (ih _)

theorem settled_moved {w w' : World F A} (h : EntityStore.Moved w.entities w'.entities)
    (hplayers : w'.players = w.players) (hnext : w'.nextEntity = w.nextEntity) : Settled w w' := by
  refine ⟨fun hstore => h.wf hstore, h.id, hnext, h.ownerOf, ?_⟩
  funext c
  rw [entityOf, hplayers, entityOf]

theorem settled_step (w : World F A) (order : List Nat) : Settled w (step sim w order) := by
  have hreset : Settled w
      { w with stats := { w.stats with inputsApplied := 0, inputsStarved := 0 } } :=
    settled_moved (EntityStore.Moved.refl _) rfl rfl
  refine (hreset.trans (settled_applyInputs sim _ order)).trans ?_
  refine (settled_moved (moved_foldl_driveDrifter sim _ _ _) rfl rfl :
    Settled _ (driveDrifters sim _)).trans ?_
  exact settled_moved ⟨rfl, rfl, rfl, rfl, rfl, rfl, sim.resolve_length _ _, rfl⟩ rfl rfl

/-- A slot's row is there, with its position and its velocity. -/
theorem Rowed.find_slot {w : World F A} (h : w.Rowed) {client : Nat} {slot : PlayerSlot A}
    (hslot : w.players.lookup client = some slot) :
    ∃ i position velocity, w.entities.find slot.entity = some i ∧
      w.entities.position[i]? = some position ∧ w.entities.velocity[i]? = some velocity := by
  have howner := h.slot client slot.entity (by simp [entityOf, hslot])
  obtain ⟨i, hfind, -⟩ := Option.bind_eq_some_iff.mp howner
  have hlt := h.store.find_lt hfind
  exact ⟨i, _, _, hfind, List.getElem?_eq_getElem (by rw [h.store.position]; exact hlt),
    List.getElem?_eq_getElem (by rw [h.store.velocity]; exact hlt)⟩

/-- Different clients have different rows. -/
theorem Rowed.rows_ne {w : World F A} (h : w.Rowed) {client client' : Nat} (hne : client ≠ client')
    {slot slot' : PlayerSlot A} (hslot : w.players.lookup client = some slot)
    (hslot' : w.players.lookup client' = some slot') {i j : Nat}
    (hi : w.entities.find slot.entity = some i) (hj : w.entities.find slot'.entity = some j) :
    i ≠ j := by
  intro heq
  have hentity := h.store.find_inj hi (heq ▸ hj)
  have howner := h.slot client slot.entity (by simp [entityOf, hslot])
  have howner' := h.slot client' slot'.entity (by simp [entityOf, hslot'])
  rw [hentity, howner'] at howner
  exact hne (Option.some.inj howner).symm

theorem applyInput_none {w : World F A} {client : Nat} (h : w.players.lookup client = none) :
    applyInput sim w client = w := by
  simp only [applyInput, h]

theorem lookup_applyInput_of_ne (w : World F A) {client other : Nat} (hne : other ≠ client) :
    (applyInput sim w client).players.lookup other = w.players.lookup other := by
  cases applyInput_cases sim w client with
  | inl hsame => rw [hsame]
  | inr hmoved =>
    obtain ⟨slot, i, stats, -, -, position, velocity, heq⟩ := hmoved
    rw [heq]
    exact (Table.lookup_insert _ _ _ _).trans (if_neg hne)

/-- What a tick does to a client whose row is there. -/
def advance (w : World F A) (client : Nat) (slot : PlayerSlot A) (i : Nat)
    (position velocity : Vec2 F) : World F A :=
  let (input, waited, slot') := slot.next sim.centered w.tick
  let state := sim.stepMovement ⟨position, velocity⟩ input
  { w with
    players := w.players.insert client slot'
    stats :=
      { w.stats with
        inputsApplied := w.stats.inputsApplied + if waited then 1 else 0
        inputsStarved := w.stats.inputsStarved + if waited then 0 else 1 }
    entities :=
      { w.entities with
        position := w.entities.position.set i state.position
        velocity := w.entities.velocity.set i state.velocity
        lastInputSequence := w.entities.lastInputSequence.set i slot'.lastAppliedSequence } }

theorem applyInput_some {w : World F A} {client i : Nat} {slot : PlayerSlot A}
    {position velocity : Vec2 F} (hslot : w.players.lookup client = some slot)
    (hfind : w.entities.find slot.entity = some i)
    (hposition : w.entities.position[i]? = some position)
    (hvelocity : w.entities.velocity[i]? = some velocity) :
    applyInput sim w client = advance sim w client slot i position velocity := by
  simp only [applyInput, hslot, hfind, hposition, hvelocity, advance]

/-- After one client's turn the row of another is as before. -/
theorem applyInput_advance {w : World F A} {client client' i j : Nat} {slot slot' : PlayerSlot A}
    (hne : client' ≠ client) (hij : i ≠ j) {position velocity : Vec2 F} (p v : Vec2 F)
    (hslot' : w.players.lookup client' = some slot')
    (hfind' : w.entities.find slot'.entity = some j)
    (hposition' : w.entities.position[j]? = some position)
    (hvelocity' : w.entities.velocity[j]? = some velocity) :
    applyInput sim (advance sim w client slot i p v) client' =
      advance sim (advance sim w client slot i p v) client' slot' j position velocity := by
  apply applyInput_some
  · exact (Table.lookup_insert _ _ _ _).trans ((if_neg hne).trans hslot')
  · exact hfind'
  · exact (List.getElem?_set_ne hij).trans hposition'
  · exact (List.getElem?_set_ne hij).trans hvelocity'

theorem advance_comm (w : World F A) {client client' i j : Nat} (hne : client' ≠ client)
    (hij : i ≠ j) (slot slot' : PlayerSlot A) (p v p' v' : Vec2 F) :
    advance sim (advance sim w client slot i p v) client' slot' j p' v' =
      advance sim (advance sim w client' slot' j p' v') client slot i p v := by
  simp only [advance]
  congr 1
  · simp only [List.set_comm _ _ hij]
  · rw [Finmap.insert_insert_of_ne _ hne]
  · congr 1
    · exact Nat.add_right_comm _ _ _
    · exact Nat.add_right_comm _ _ _

/-- The work of a tick for two clients, in either order. -/
theorem Rowed.applyInput_comm {w : World F A} (h : w.Rowed) (client client' : Nat) :
    applyInput sim (applyInput sim w client) client' =
      applyInput sim (applyInput sim w client') client := by
  by_cases hne : client = client'
  · rw [hne]
  cases hslot : w.players.lookup client with
  | none =>
    rw [applyInput_none sim hslot,
      applyInput_none sim ((lookup_applyInput_of_ne sim w hne).trans hslot)]
  | some slot =>
    cases hslot' : w.players.lookup client' with
    | none =>
      rw [applyInput_none sim hslot',
        applyInput_none sim ((lookup_applyInput_of_ne sim w (Ne.symm hne)).trans hslot')]
    | some slot' =>
      obtain ⟨i, p, v, hfind, hposition, hvelocity⟩ := h.find_slot hslot
      obtain ⟨j, p', v', hfind', hposition', hvelocity'⟩ := h.find_slot hslot'
      have hij := h.rows_ne hne hslot hslot' hfind hfind'
      rw [applyInput_some sim hslot hfind hposition hvelocity,
        applyInput_some sim hslot' hfind' hposition' hvelocity',
        applyInput_advance sim (Ne.symm hne) hij p v hslot' hfind' hposition' hvelocity',
        applyInput_advance sim hne (Ne.symm hij) p' v' hslot hfind hposition hvelocity,
        advance_comm sim w (Ne.symm hne) hij]

/-- The order in which a tick meets the clients does not show. -/
theorem Rowed.applyInputs_perm {w : World F A} (h : w.Rowed) {order order' : List Nat}
    (hperm : order.Perm order') : applyInputs sim w order = applyInputs sim w order' := by
  induction hperm generalizing w with
  | nil => rfl
  | cons client _ ih => exact ih (h.settled (settled_applyInput sim w client))
  | swap client client' order =>
    simp only [applyInputs, List.foldl_cons, h.applyInput_comm sim client' client]
  | trans _ _ ih ih' => exact (ih h).trans (ih' h)

/-- The lists in which a hash map with these keys can be iterated. -/
def Iterated (w : World F A) (order : List Nat) : Prop :=
  order.Nodup ∧ ∀ client, client ∈ order ↔ client ∈ w.players

theorem Iterated.perm {w : World F A} {order order' : List Nat} (h : w.Iterated order)
    (h' : w.Iterated order') : order.Perm order' :=
  (List.perm_ext_iff_of_nodup h.1 h'.1).mpr fun client => (h.2 client).trans (h'.2 client).symm

theorem iterated_of_keys {w : World F A} {order : List Nat} (hnodup : order.Nodup)
    (hkeys : order.toFinset = w.players.keys) : w.Iterated order := by
  refine ⟨hnodup, fun client => ?_⟩
  rw [← Finmap.mem_keys, ← hkeys, List.mem_toFinset]

theorem Rowed.step_iterated {w : World F A} (h : w.Rowed) {order order' : List Nat}
    (horder : w.Iterated order) (horder' : w.Iterated order') :
    step sim w order = step sim w order' := by
  have hreset : Rowed
      { w with stats := { w.stats with inputsApplied := 0, inputsStarved := 0 } } :=
    h.settled (settled_moved (EntityStore.Moved.refl _) rfl rfl)
  simp only [step, hreset.applyInputs_perm sim (horder.perm horder')]

variable [Zero F]

def act (w : World F A) : WorldAction F A → World F A
  | .spawnPlayer client position => (w.spawnPlayer sim.centered client position).2
  | .spawnDrifter position => (w.spawnDrifter position).2
  | .despawn entity => w.despawn entity
  | .adoptEntity entity client position velocity lastInputSequence =>
    w.adoptEntity sim.centered entity client position velocity lastInputSequence
  | .queueInput client input => w.queueInput sim.quantizeInput client input
  | .step order => step sim w order

/-- No entity that is owned by one client is adopted for another; client 0 is nobody. -/
def Rightful (w : World F A) : WorldAction F A → Prop
  | .spawnPlayer client _ => client ≠ 0
  | .adoptEntity entity client _ _ _ =>
    client ≠ 0 ∧ ∀ owner, w.entities.ownerOf entity = some owner → owner = 0 ∨ owner = client
  | _ => True

/-- A client is given an entity only if it has no other. -/
def Single (w : World F A) : WorldAction F A → Prop
  | .spawnPlayer client _ => w.entityOf client = none
  | .adoptEntity entity client _ _ _ => ∀ e, w.entityOf client = some e → e = entity
  | _ => True

theorem rowed_act {w : World F A} (h : w.Rowed) {action : WorldAction F A}
    (hrightful : w.Rightful action) : (w.act sim action).Rowed := by
  cases action with
  | spawnPlayer client position =>
    apply h.seats (seats_spawnPlayer h sim.centered client position) hrightful
    intro owner howner
    rw [EntityStore.ownerOf, EntityStore.cell, h.find_fresh] at howner
    cases howner
  | spawnDrifter position => exact h.spawnDrifter position
  | despawn entity => exact h.despawn entity
  | adoptEntity entity client position velocity sequence =>
    exact h.seats (seats_adoptEntity h sim.centered entity client position velocity sequence)
      hrightful.1 hrightful.2
  | queueInput client input => exact h.settled (w.settled_queueInput _ client input)
  | step order => exact h.settled (settled_step sim w order)

theorem owned_act {w : World F A} (h : w.Owned) (hrowed : w.Rowed) {action : WorldAction F A}
    (hsingle : w.Single action) : (w.act sim action).Owned := by
  cases action with
  | spawnPlayer client position =>
    apply h.seats (seats_spawnPlayer hrowed sim.centered client position)
    intro e hnamed
    cases hsingle.symm.trans hnamed
  | spawnDrifter position => exact h.spawnDrifter hrowed.store position
  | despawn entity => exact h.despawn hrowed entity
  | adoptEntity entity client position velocity sequence =>
    exact h.seats (seats_adoptEntity hrowed sim.centered entity client position velocity sequence)
      hsingle
  | queueInput client input => exact h.settled (w.settled_queueInput _ client input)
  | step order => exact h.settled (settled_step sim w order)

/-- Whatever is spawned, despawned, adopted, queued and stepped, as long as no client gets a
second entity or another client's. -/
theorem store_consistent {actions : List (WorldAction F A)}
    (h : Run.Along (act sim) (fun w action => w.Rightful action ∧ w.Single action) {} actions) :
    (Run.run (act sim) ({} : World F A) actions).Consistent := by
  have hinv := Run.invariant (fun w : World F A => w.Rowed ∧ w.Owned)
    (fun _ _ hok h => ⟨rowed_act sim h.1 hok.1, owned_act sim h.2 h.1 hok.2⟩)
    ⟨rowed_empty, owned_empty⟩ h
  exact hinv.1.consistent hinv.2

/-- A client joins, leaves, and comes back in the body of a drifter. -/
def rebirth : List (WorldAction Int Unit) :=
  [.spawnPlayer 7 ⟨0, 0⟩, .spawnDrifter ⟨1, 1⟩, .step [7], .despawn 1,
    .adoptEntity 2 7 ⟨2, 2⟩ ⟨0, 0⟩ 9, .queueInput 7 { sequence := 10, axes := () }, .step [7]]

instance decidableRightful (w : World F A) (action : WorldAction F A) :
    Decidable (w.Rightful action) :=
  match action with
  | .spawnPlayer _ _ => inferInstanceAs (Decidable (_ ≠ _))
  | .adoptEntity entity _ _ _ _ =>
    inferInstanceAs (Decidable (_ ∧ ∀ owner ∈ w.entities.ownerOf entity, _ ∨ _))
  | .spawnDrifter _ | .despawn _ | .queueInput _ _ | .step _ => isTrue trivial

instance decidableSingle (w : World F A) (action : WorldAction F A) :
    Decidable (w.Single action) :=
  match action with
  | .spawnPlayer _ _ => inferInstanceAs (Decidable (_ = _))
  | .adoptEntity _ owner _ _ _ =>
    inferInstanceAs (Decidable (∀ e ∈ w.entityOf owner, _ = _))
  | .spawnDrifter _ | .despawn _ | .queueInput _ _ | .step _ => isTrue trivial

theorem store_consistent_rebirth :
    (Run.run (act .marching) ({} : World Int Unit) rebirth).entityOf 7 = some 2 ∧
    (Run.run (act .marching) ({} : World Int Unit) rebirth).Consistent :=
  ⟨by decide +kernel, store_consistent .marching (by decide +kernel)⟩

/-- One call, with `next_entity_` as wide as it is: 32 bits. -/
def actU32 (w : World F A) (action : WorldAction F A) : World F A :=
  let next := w.act sim action
  { next with nextEntity := next.nextEntity % 2 ^ 32 }

/-- All entity ids stay below the largest one. -/
def Numbered (w : World F A) : WorldAction F A → Prop
  | .spawnPlayer _ _ => w.nextEntity < 2 ^ 32 - 1
  | .spawnDrifter _ => w.nextEntity < 2 ^ 32 - 1
  | .adoptEntity entity _ _ _ _ => entity < 2 ^ 32 - 1
  | _ => True

instance decidableNumbered (w : World F A) (action : WorldAction F A) :
    Decidable (w.Numbered action) :=
  match action with
  | .spawnPlayer _ _ => inferInstanceAs (Decidable (_ < _))
  | .spawnDrifter _ => inferInstanceAs (Decidable (_ < _))
  | .adoptEntity _ _ _ _ _ => inferInstanceAs (Decidable (_ < _))
  | .despawn _ | .queueInput _ _ | .step _ => isTrue trivial

/-- The calls that number no entity leave the counter alone. -/
theorem nextEntity_act {w : World F A} {action : WorldAction F A} (h : w.nextEntity < 2 ^ 32)
    (hnumbered : w.Numbered action) : (w.act sim action).nextEntity < 2 ^ 32 := by
  cases action with
  | spawnPlayer client position => exact Nat.add_lt_of_lt_sub hnumbered
  | spawnDrifter position => exact Nat.add_lt_of_lt_sub hnumbered
  | despawn entity =>
    simp only [act, World.despawn]
    split
    · exact h
    · exact h
  | adoptEntity entity client position velocity sequence =>
    have hentity : entity + 1 < 2 ^ 32 := Nat.add_lt_of_lt_sub hnumbered
    simp only [act, World.adoptEntity]
    split
    · exact Nat.max_lt.mpr ⟨h, hentity⟩
    · exact h
  | queueInput client input =>
    rw [act, (w.settled_queueInput sim.quantizeInput client input).next]
    exact h
  | step order =>
    rw [act, (settled_step sim w order).next]
    exact h

/-- Below the largest id the counter does not overflow. -/
theorem actU32_eq {w : World F A} {action : WorldAction F A} (h : w.nextEntity < 2 ^ 32)
    (hnumbered : w.Numbered action) : w.actU32 sim action = w.act sim action := by
  rw [actU32, Nat.mod_eq_of_lt (nextEntity_act sim h hnumbered)]

/-- What a run keeps in which no client gets another's entity and no id is the largest one. -/
structure Orderly (w : World F A) : Prop where
  rowed : w.Rowed
  next : w.nextEntity < 2 ^ 32

def Lawful (w : World F A) (action : WorldAction F A) : Prop :=
  w.Rightful action ∧ w.Numbered action

theorem orderly_act {w : World F A} (h : w.Orderly) {action : WorldAction F A}
    (hlawful : w.Lawful action) : (w.actU32 sim action).Orderly := by
  rw [actU32_eq sim h.next hlawful.2]
  exact ⟨rowed_act sim h.rowed hlawful.1, nextEntity_act sim h.next hlawful.2⟩

/-- The order of a tick is one in which the players can be met. -/
def Enumerates (w : World F A) : WorldAction F A → Prop
  | .step order => w.Iterated order
  | _ => True

/-- The same call, but for the order in which a tick meets the players. -/
inductive Alike : WorldAction F A → WorldAction F A → Prop
  | same (action : WorldAction F A) : Alike action action
  | step (order order' : List Nat) : Alike (.step order) (.step order')

theorem run_alike {actions actions' : List (WorldAction F A)}
    (halike : List.Forall₂ Alike actions actions') {w : World F A} (h : w.Orderly)
    (hlawful : Run.Along (actU32 sim) Lawful w actions)
    (horder : Run.Along (actU32 sim) Enumerates w actions)
    (horder' : Run.Along (actU32 sim) Enumerates w actions') :
    Run.run (actU32 sim) w actions = Run.run (actU32 sim) w actions' := by
  induction halike generalizing w with
  | nil => rfl
  | cons hfirst _ ih =>
    have hnext := orderly_act sim h hlawful.1
    cases hfirst with
    | same action => exact ih hnext hlawful.2 horder.2 horder'.2
    | step order order' =>
      have hsame := h.rowed.step_iterated sim horder.1 horder'.1
      simp only [Run.run_cons, actU32, act] at hnext ⊢
      rw [← hsame]
      refine ih hnext hlawful.2 horder.2 ?_
      have hrest := horder'.2
      simp only [actU32, act, ← hsame] at hrest
      exact hrest

/-- A tick gives the same world in whatever order the map of the players is iterated, and so
do any number of ticks between other calls, each with an order of its own. -/
theorem order_irrelevant {history : List (WorldAction F A)}
    (hhistory : Run.Along (actU32 sim) Lawful {} history) :
    let w := Run.run (actU32 sim) ({} : World F A) history
    (∀ order order', w.Iterated order → w.Iterated order' →
      step sim w order = step sim w order') ∧
    ∀ actions actions', List.Forall₂ Alike actions actions' →
      Run.Along (actU32 sim) Lawful w actions → Run.Along (actU32 sim) Enumerates w actions →
      Run.Along (actU32 sim) Enumerates w actions' →
      Run.run (actU32 sim) w actions = Run.run (actU32 sim) w actions' := by
  have h := Run.invariant Orderly (fun _ _ hok h => orderly_act sim h hok)
    ⟨rowed_empty, show 1 < 2 ^ 32 by decide⟩ hhistory
  exact ⟨fun order order' => h.rowed.step_iterated sim,
    fun actions actions' halike => run_alike sim halike h⟩

instance decidableLawful (w : World F A) (action : WorldAction F A) :
    Decidable (w.Lawful action) :=
  inferInstanceAs (Decidable (_ ∧ _))

/-- Two players at one place; one of them has sent a command. -/
def meeting : List (WorldAction Int Unit) :=
  [.spawnPlayer 7 ⟨0, 0⟩, .spawnPlayer 8 ⟨0, 0⟩, .queueInput 8 { sequence := 1, axes := () }]

/-- They are met in either order, also in ticks before and after a third player joins. -/
theorem order_irrelevant_meeting :
    let w := Run.run (actU32 .marching) ({} : World Int Unit) meeting
    w.entityOf 8 = some 2 ∧ step .marching w [7, 8] = step .marching w [8, 7] ∧
      Run.run (actU32 .marching) w [.step [7, 8], .spawnPlayer 9 ⟨1, 0⟩, .step [9, 8, 7]] =
        Run.run (actU32 .marching) w [.step [8, 7], .spawnPlayer 9 ⟨1, 0⟩, .step [7, 8, 9]] := by
  have hhistory : Run.Along (actU32 .marching) Lawful ({} : World Int Unit) meeting := by
    decide +kernel
  have h := order_irrelevant .marching hhistory
  refine ⟨by decide +kernel, h.1 _ _ ?_ ?_, h.2 _ _ ?_ (by decide +kernel)
    ⟨?_, trivial, ?_, trivial⟩ ⟨?_, trivial, ?_, trivial⟩⟩
  · exact iterated_of_keys (by decide) (by decide +kernel)
  · exact iterated_of_keys (by decide) (by decide +kernel)
  · exact .cons (.step _ _) (.cons (.same _) (.cons (.step _ _) .nil))
  all_goals exact iterated_of_keys (by decide) (by decide +kernel)

/-- The largest id is adopted, and the counter begins again. -/
def overflown : List (WorldAction Int Unit) :=
  [.spawnPlayer 7 ⟨0, 0⟩, .adoptEntity 4294967295 8 ⟨1, 0⟩ ⟨0, 0⟩ 0, .spawnPlayer 9 ⟨2, 0⟩,
    .spawnPlayer 10 ⟨3, 0⟩, .queueInput 7 { sequence := 5, axes := () }]

/-- Players 7 and 10 then share an entity, which keeps the sequence of the one that was met
last. -/
theorem order_shows_after_overflow :
    Run.Along (actU32 .marching) Rightful ({} : World Int Unit) overflown ∧
    let w := Run.run (actU32 .marching) ({} : World Int Unit) overflown
    w.Iterated [7, 8, 9, 10] ∧ w.Iterated [10, 9, 8, 7] ∧
      step .marching w [7, 8, 9, 10] ≠ step .marching w [10, 9, 8, 7] := by
  refine ⟨by decide +kernel, iterated_of_keys (by decide) (by decide +kernel),
    iterated_of_keys (by decide) (by decide +kernel), fun hsame => ?_⟩
  have hsequences := congrArg (fun w => w.entities.lastInputSequence) hsame
  revert hsequences
  decide +kernel

end World
end Morton.Sim
