import Morton.Sim.World

/-! What the world keeps true: the parallel arrays stay in step with `index_of`, each
player owns one entity, and the sequence stored with an entity is the one its slot
applied last. -/
namespace Morton.Sim
namespace EntityStore
variable {F α : Type}

/-- Seven arrays of one length, and `index_of` the inverse of the id array. -/
structure WF (s : EntityStore F) : Prop where
  position : s.position.length = s.size
  velocity : s.velocity.length = s.size
  kind : s.kind.length = s.size
  owner : s.owner.length = s.size
  sequence : s.lastInputSequence.length = s.size
  seed : s.aiSeed.length = s.size
  index : ∀ entity i, s.find entity = some i ↔ s.id[i]? = some entity

/-- The value an array holds for an entity. -/
def cell (s : EntityStore F) (xs : List α) (entity : Nat) : Option α :=
  (s.find entity).bind fun i => xs[i]?

def ownerOf (s : EntityStore F) (entity : Nat) : Option Nat := s.cell s.owner entity

def sequenceOf (s : EntityStore F) (entity : Nat) : Option Nat := s.cell s.lastInputSequence entity

theorem WF.find_lt {s : EntityStore F} (h : s.WF) {entity i : Nat} (hfind : s.find entity = some i) :
    i < s.size :=
  (List.getElem?_eq_some_iff.mp ((h.index entity i).mp hfind)).1

theorem WF.find_inj {s : EntityStore F} (h : s.WF) {e e' i : Nat} (he : s.find e = some i)
    (he' : s.find e' = some i) : e = e' := by
  have := ((h.index e i).mp he).symm.trans ((h.index e' i).mp he')
  simpa using this

theorem WF.mem_id_iff {s : EntityStore F} (h : s.WF) (entity : Nat) :
    entity ∈ s.id ↔ (s.find entity).isSome = true := by
  rw [List.mem_iff_getElem?, Option.isSome_iff_exists]
  exact exists_congr fun i => (h.index entity i).symm

/-- An id above all those of the store is free. -/
theorem WF.find_fresh {s : EntityStore F} (h : s.WF) {next : Nat} (hfresh : ∀ e ∈ s.id, e < next) :
    s.find next = none := by
  cases hfind : s.find next with
  | none => rfl
  | some i =>
    have hmem := (h.mem_id_iff next).mpr (Option.isSome_iff_exists.mpr ⟨i, hfind⟩)
    exact absurd (hfresh next hmem) (Nat.lt_irrefl next)

theorem find_add [Zero F] (s : EntityStore F) (entity e : Nat) (kind : EntityKind)
    (start : Vec2 F) (client : Nat) :
    (s.add entity kind start client).find e = if e = entity then some s.size else s.find e :=
  Table.lookup_insert s.indexOf entity e s.size

/-- Appending a value to an array and the entity to the store. -/
theorem cell_add [Zero F] {s : EntityStore F} (h : s.WF) {xs : List α} (hlen : xs.length = s.size)
    {entity : Nat} (e : Nat) (kind : EntityKind) (start : Vec2 F) (client : Nat) (x : α) :
    (s.add entity kind start client).cell (xs ++ [x]) e =
      if e = entity then some x else s.cell xs e := by
  rw [cell, find_add]
  split
  · rw [Option.bind_some, ← hlen, List.getElem?_concat_length]
  · rw [cell]
    cases hfind : s.find e with
    | none => rfl
    | some i =>
      rw [Option.bind_some, Option.bind_some,
        List.getElem?_append_left (hlen ▸ h.find_lt hfind)]

theorem WF.add [Zero F] {s : EntityStore F} (h : s.WF) {entity : Nat} (hnew : s.find entity = none)
    (kind : EntityKind) (start : Vec2 F) (client : Nat) : (s.add entity kind start client).WF := by
  have hsize : (s.add entity kind start client).size = s.size + 1 := List.length_append
  refine ⟨?_, ?_, ?_, ?_, ?_, ?_, fun e i => ?_⟩
  · rw [hsize, ← h.position]; exact List.length_append
  · rw [hsize, ← h.velocity]; exact List.length_append
  · rw [hsize, ← h.kind]; exact List.length_append
  · rw [hsize, ← h.owner]; exact List.length_append
  · rw [hsize, ← h.sequence]; exact List.length_append
  · rw [hsize, ← h.seed]; exact List.length_append
  · rw [find_add]
    change _ ↔ (s.id ++ [entity])[i]? = some e
    by_cases hlt : i < s.size
    · rw [List.getElem?_append_left hlt, ← h.index]
      split
      · subst e
        rw [hnew]
        constructor
        · intro heq
          cases heq
          exact absurd hlt (Nat.lt_irrefl _)
        · intro heq
          cases heq
      · exact Iff.rfl
    · have hout : s.find e ≠ some i := fun heq => hlt (h.find_lt heq)
      rw [List.getElem?_append_right (Nat.le_of_not_lt hlt), List.getElem?_singleton]
      have hsz : i - s.id.length = 0 ↔ i = s.size := by
        rw [size] at hlt ⊢
        omega
      by_cases he : e = entity
      · by_cases hi : i = s.size
        · simp [he, hi, size]
        · simp [hsz, he, hi, Ne.symm hi]
      · simp [hsz, he, hout, Ne.symm he]

/-- Writing one array leaves the index alone. -/
theorem cell_set {s : EntityStore F} (h : s.WF) {xs : List α} (hlen : xs.length = s.size)
    {entity i : Nat} (hfind : s.find entity = some i) (e : Nat) (x : α) :
    s.cell (xs.set i x) e = if e = entity then some x else s.cell xs e := by
  rw [cell, cell]
  split
  · subst e
    rw [hfind, Option.bind_some, List.getElem?_set_self (hlen ▸ h.find_lt hfind)]
  · rename_i hne
    cases hother : s.find e with
    | none => rfl
    | some j =>
      have hij : i ≠ j := fun heq => hne (h.find_inj (heq ▸ hother) hfind)
      rw [Option.bind_some, Option.bind_some, List.getElem?_set_ne hij]

theorem swapPop_length (xs : List α) (i : Nat) : (swapPop xs i).length = xs.length - 1 := by
  unfold swapPop
  split
  · rename_i hlast
    rw [List.getLast?_eq_none_iff.mp hlast]
    rfl
  · rw [List.length_dropLast, List.length_set]

/-- After the swap the last element stands at `i`, the others where they were. -/
theorem swapPop_getElem? (xs : List α) (i j : Nat) :
    (swapPop xs i)[j]? =
      if j + 1 < xs.length then (if j = i then xs[xs.length - 1]? else xs[j]?) else none := by
  unfold swapPop
  split
  · rename_i hlast
    rw [List.getLast?_eq_none_iff.mp hlast]
    simp
  · rename_i x hlast
    rw [List.getLast?_eq_getElem?] at hlast
    rw [List.dropLast_eq_take, List.length_set, List.getElem?_take]
    by_cases hj : j < xs.length - 1
    · rw [if_pos hj, if_pos (by omega)]
      by_cases hij : j = i
      · rw [if_pos hij, hij, List.getElem?_set_self (by omega), hlast]
      · rw [if_neg hij, List.getElem?_set_ne (Ne.symm hij)]
    · rw [if_neg hj, if_neg (by omega)]

theorem remove_of_find {s : EntityStore F} {entity i : Nat} (hfind : s.find entity = some i) :
    (s.remove entity).1 =
      { id := swapPop s.id i
        position := swapPop s.position i
        velocity := swapPop s.velocity i
        kind := swapPop s.kind i
        owner := swapPop s.owner i
        lastInputSequence := swapPop s.lastInputSequence i
        aiSeed := swapPop s.aiSeed i
        indexOf := (if i = s.size - 1 then s.indexOf else
          match s.id[s.size - 1]? with
          | none => s.indexOf
          | some id => s.indexOf.insert id i).erase entity } := by
  have hlookup : s.indexOf.lookup entity = some i := hfind
  unfold remove
  generalize s.indexOf.lookup entity = found at hlookup
  subst hlookup
  rfl

/-- The index table after a removal. -/
theorem find_remove {s : EntityStore F} (h : s.WF) {entity i : Nat}
    (hfind : s.find entity = some i) (e : Nat) :
    (s.remove entity).1.find e =
      if e = entity then none
      else if s.find e = some (s.size - 1) then some i else s.find e := by
  have hlt := h.find_lt hfind
  have hlast : s.id[s.size - 1]? = some (s.id.get ⟨s.size - 1, by unfold size at *; omega⟩) :=
    List.getElem?_eq_getElem _
  generalize s.id.get ⟨s.size - 1, _⟩ = final at hlast
  have hfinal := (h.index final (s.size - 1)).mpr hlast
  rw [remove_of_find hfind, find, Table.lookup_erase, hlast]
  by_cases he : e = entity
  · rw [if_pos he, if_pos he]
  rw [if_neg he, if_neg he]
  by_cases hi : i = s.size - 1
  · rw [if_pos hi, if_neg fun heq => he (h.find_inj heq (hi ▸ hfind))]
    rfl
  rw [if_neg hi, Table.lookup_insert]
  by_cases hf : e = final
  · rw [if_pos hf, hf, if_pos hfinal]
  · rw [if_neg hf, if_neg fun heq => hf (h.find_inj heq hfinal)]
    rfl

/-- Other entities keep their cells when one is removed. -/
theorem cell_remove {s : EntityStore F} (h : s.WF) {xs : List α} (hlen : xs.length = s.size)
    {entity i : Nat} (hfind : s.find entity = some i) (e : Nat) :
    (s.remove entity).1.cell (swapPop xs i) e = if e = entity then none else s.cell xs e := by
  rw [cell, find_remove h hfind, cell]
  by_cases he : e = entity
  · rw [if_pos he, if_pos he]
    rfl
  · rw [if_neg he, if_neg he]
    have hi := h.find_lt hfind
    by_cases hlast : s.find e = some (s.size - 1)
    · have hne : i ≠ s.size - 1 := fun heq => he (h.find_inj hlast (heq ▸ hfind))
      rw [if_pos hlast, hlast, Option.bind_some, Option.bind_some, swapPop_getElem?,
        if_pos (by omega), if_pos rfl, hlen]
    · rw [if_neg hlast]
      cases hother : s.find e with
      | none => rfl
      | some j =>
        have hj := h.find_lt hother
        have hji : j ≠ i := fun heq => he (h.find_inj (heq ▸ hother) hfind)
        have hjl : j ≠ s.size - 1 := fun heq => hlast (heq ▸ hother)
        rw [Option.bind_some, Option.bind_some, swapPop_getElem?, if_pos (by omega), if_neg hji]

theorem WF.remove {s : EntityStore F} (h : s.WF) (entity : Nat) : (s.remove entity).1.WF := by
  cases hfind : s.find entity with
  | none =>
    unfold find at hfind
    simpa only [EntityStore.remove, hfind] using h
  | some i =>
    have hrow := remove_of_find hfind
    have hid : (s.remove entity).1.id = swapPop s.id i := congrArg EntityStore.id hrow
    have hsize : (s.remove entity).1.size = s.size - 1 := by
      rw [size, hid, swapPop_length]
      rfl
    refine ⟨?_, ?_, ?_, ?_, ?_, ?_, fun e j => ?_⟩
    · rw [hsize, ← h.position, congrArg EntityStore.position hrow, swapPop_length]
    · rw [hsize, ← h.velocity, congrArg EntityStore.velocity hrow, swapPop_length]
    · rw [hsize, ← h.kind, congrArg EntityStore.kind hrow, swapPop_length]
    · rw [hsize, ← h.owner, congrArg EntityStore.owner hrow, swapPop_length]
    · rw [hsize, ← h.sequence, congrArg EntityStore.lastInputSequence hrow, swapPop_length]
    · rw [hsize, ← h.seed, congrArg EntityStore.aiSeed hrow, swapPop_length]
    · have hi := h.find_lt hfind
      have hlen : s.id.length = s.size := rfl
      rw [find_remove h hfind, hid, swapPop_getElem?, hlen]
      by_cases he : e = entity
      · subst e
        have hat : ∀ k, s.id[k]? = some entity → k = i := fun k hk =>
          Option.some.inj (((h.index entity k).mpr hk).symm.trans hfind)
        rw [if_pos rfl]
        refine ⟨fun heq => ?_, fun heq => ?_⟩
        · cases heq
        split at heq
        · split at heq
          · have := hat _ heq
            omega
          · exact absurd (hat j heq) ‹_›
        · cases heq
      rw [if_neg he]
      by_cases hlast : s.find e = some (s.size - 1)
      · have hne : i ≠ s.size - 1 := fun heq => he (h.find_inj hlast (heq ▸ hfind))
        rw [if_pos hlast]
        refine ⟨fun heq => ?_, fun heq => ?_⟩
        · cases heq
          rw [if_pos (by omega), if_pos rfl]
          exact (h.index e _).mp hlast
        · split at heq
          · split at heq
            · exact congrArg some (Eq.symm ‹_›)
            · have := hlast.symm.trans ((h.index e j).mpr heq)
              cases this
              omega
          · cases heq
      · rw [if_neg hlast]
        refine ⟨fun heq => ?_, fun heq => ?_⟩
        · have hj := h.find_lt heq
          have hjl : j ≠ s.size - 1 := fun hjl => hlast (hjl ▸ heq)
          have hji : j ≠ i := fun hji => he (h.find_inj (hji ▸ heq) hfind)
          rw [if_pos (by omega), if_neg hji]
          exact (h.index e j).mp heq
        · split at heq
          · split at heq
            · exact absurd ((h.index e _).mpr heq) hlast
            · exact (h.index e j).mpr heq
          · cases heq

/-- `s'` is `s` with other positions and velocities. -/
structure Moved (s s' : EntityStore F) : Prop where
  id : s'.id = s.id
  kind : s'.kind = s.kind
  owner : s'.owner = s.owner
  sequence : s'.lastInputSequence = s.lastInputSequence
  seed : s'.aiSeed = s.aiSeed
  index : s'.indexOf = s.indexOf
  position : s'.position.length = s.position.length
  velocity : s'.velocity.length = s.velocity.length

theorem Moved.refl (s : EntityStore F) : Moved s s := ⟨rfl, rfl, rfl, rfl, rfl, rfl, rfl, rfl⟩

theorem Moved.trans {s t u : EntityStore F} (h : Moved s t) (h' : Moved t u) : Moved s u :=
  ⟨h'.id.trans h.id, h'.kind.trans h.kind, h'.owner.trans h.owner, h'.sequence.trans h.sequence,
    h'.seed.trans h.seed, h'.index.trans h.index, h'.position.trans h.position,
    h'.velocity.trans h.velocity⟩

theorem Moved.find {s s' : EntityStore F} (h : Moved s s') : s'.find = s.find := by
  funext entity
  rw [EntityStore.find, h.index, EntityStore.find]

theorem Moved.wf {s s' : EntityStore F} (h : Moved s s') (hs : s.WF) : s'.WF := by
  have hsize : s'.size = s.size := congrArg List.length h.id
  refine ⟨?_, ?_, ?_, ?_, ?_, ?_, ?_⟩
  · rw [h.position, hs.position, hsize]
  · rw [h.velocity, hs.velocity, hsize]
  · rw [h.kind, hs.kind, hsize]
  · rw [h.owner, hs.owner, hsize]
  · rw [h.sequence, hs.sequence, hsize]
  · rw [h.seed, hs.seed, hsize]
  · rw [h.find, h.id]
    exact hs.index

theorem Moved.ownerOf {s s' : EntityStore F} (h : Moved s s') : s'.ownerOf = s.ownerOf := by
  funext entity
  rw [EntityStore.ownerOf, EntityStore.ownerOf, cell, cell, h.find, h.owner]

theorem Moved.sequenceOf {s s' : EntityStore F} (h : Moved s s') :
    s'.sequenceOf = s.sequenceOf := by
  funext entity
  rw [EntityStore.sequenceOf, EntityStore.sequenceOf, cell, cell, h.find, h.sequence]

end EntityStore

namespace PlayerSlot
variable {A : Type}

/-- The sequence of the newest command in the slot, waiting or applied. -/
def newest (slot : PlayerSlot A) : Nat :=
  (slot.pending.getLast?.map MoveInput.sequence).getD slot.lastAppliedSequence

theorem newest_receive (quantize : A → A) (slot : PlayerSlot A) (input : MoveInput A)
    (h : slot.newest = slot.highestReceivedSequence) :
    (slot.receive quantize input).newest = (slot.receive quantize input).highestReceivedSequence := by
  unfold receive
  split
  · exact h
  · simp [newest]

theorem receive_highest (quantize : A → A) (slot : PlayerSlot A) (input : MoveInput A) :
    (slot.receive quantize input).highestReceivedSequence =
      max slot.highestReceivedSequence input.sequence := by
  unfold receive
  split
  · exact (Nat.max_eq_left (by tauto)).symm
  · change input.sequence = _
    omega

theorem receive_frame (quantize : A → A) (slot : PlayerSlot A) (input : MoveInput A) :
    (slot.receive quantize input).entity = slot.entity ∧
    (slot.receive quantize input).lastAppliedSequence = slot.lastAppliedSequence := by
  unfold receive
  split <;> exact ⟨rfl, rfl⟩

theorem newest_next (centered : A) (tick : Nat) (slot : PlayerSlot A) :
    (slot.next centered tick).2.2.newest = slot.newest := by
  unfold next
  split
  · rename_i input pending hpending
    rw [newest, newest, hpending]
    cases pending with
    | nil => rfl
    | cons b rest => rw [List.getLast?_cons_cons, List.getLast?_cons, Option.map_some,
        Option.getD_some, Option.getD_some]
  · split <;> rfl

theorem next_frame (centered : A) (tick : Nat) (slot : PlayerSlot A) :
    (slot.next centered tick).2.2.entity = slot.entity ∧
    (slot.next centered tick).2.2.highestReceivedSequence = slot.highestReceivedSequence := by
  unfold next
  split
  · exact ⟨rfl, rfl⟩
  · split <;> exact ⟨rfl, rfl⟩

end PlayerSlot

namespace World
variable {F A : Type}

/-- The entity of a client and the highest sequence received from it. -/
def seat (w : World F A) (client : Nat) : Option (Nat × Nat) :=
  (w.players.lookup client).map fun slot => (slot.entity, slot.highestReceivedSequence)

structure Good (w : World F A) : Prop where
  store : w.entities.WF
  fresh : ∀ entity ∈ w.entities.id, entity < w.nextEntity
  unowned : w.players.lookup 0 = none
  slot : ∀ client slot, w.players.lookup client = some slot →
    w.entities.ownerOf slot.entity = some client ∧
    w.entities.sequenceOf slot.entity = some slot.lastAppliedSequence ∧
    slot.newest = slot.highestReceivedSequence
  owned : ∀ entity client, w.entities.ownerOf entity = some client → client ≠ 0 →
    ∃ slot, w.players.lookup client = some slot ∧ slot.entity = entity

theorem Good.find_fresh {w : World F A} (h : w.Good) : w.entities.find w.nextEntity = none :=
  h.store.find_fresh h.fresh

theorem Good.empty : ({} : World F A).Good := by
  refine ⟨⟨rfl, rfl, rfl, rfl, rfl, rfl, ?_⟩, ?_, rfl, ?_, ?_⟩
  · intro entity i
    simp [EntityStore.find]
  · intro entity hmem
    cases hmem
  · intro client slot hslot
    simp at hslot
  · intro entity client howner
    simp [EntityStore.ownerOf, EntityStore.cell, EntityStore.find] at howner

/-- The owner and the sequence of every entity after one was added. -/
theorem ownerOf_add [Zero F] {s : EntityStore F} (h : s.WF) (entity e : Nat) (kind : EntityKind)
    (start : Vec2 F) (client : Nat) : (s.add entity kind start client).ownerOf e =
      if e = entity then some client else s.ownerOf e :=
  EntityStore.cell_add h h.owner e kind start client client

theorem sequenceOf_add [Zero F] {s : EntityStore F} (h : s.WF) (entity e : Nat)
    (kind : EntityKind) (start : Vec2 F) (client : Nat) :
    (s.add entity kind start client).sequenceOf e = if e = entity then some 0 else s.sequenceOf e :=
  EntityStore.cell_add h h.sequence e kind start client 0

/-- A slot's entity is in the store, so it is not the next one to be numbered. -/
theorem Good.entity_ne_next {w : World F A} (h : w.Good) {client : Nat} {slot : PlayerSlot A}
    (hslot : w.players.lookup client = some slot) : slot.entity ≠ w.nextEntity := by
  intro heq
  have howner := (h.slot client slot hslot).1
  rw [EntityStore.ownerOf, EntityStore.cell, heq, h.find_fresh] at howner
  cases howner

theorem Good.fresh_add [Zero F] {w : World F A} (h : w.Good) (kind : EntityKind)
    (position : Vec2 F) (client : Nat) :
    ∀ entity ∈ (w.entities.add w.nextEntity kind position client).id, entity < w.nextEntity + 1 := by
  intro entity hmem
  rcases List.mem_append.mp hmem with hmem | hmem
  · exact Nat.lt_succ_of_lt (h.fresh entity hmem)
  · rw [List.mem_singleton.mp hmem]
    exact Nat.lt_succ_self _

theorem Good.spawnDrifter [Zero F] {w : World F A} (h : w.Good) (position : Vec2 F) :
    (w.spawnDrifter position).2.Good := by
  refine ⟨h.store.add h.find_fresh _ _ _, h.fresh_add _ _ _, h.unowned,
    fun client slot hslot => ?_, fun entity client howner hclient => ?_⟩
  · have hne := h.entity_ne_next hslot
    simp only [World.spawnDrifter, ownerOf_add h.store, sequenceOf_add h.store, if_neg hne]
    exact h.slot client slot hslot
  · simp only [World.spawnDrifter, ownerOf_add h.store] at howner
    split at howner
    · exact absurd (Option.some.inj howner).symm hclient
    · exact h.owned entity client howner hclient

theorem Good.spawnPlayer [Zero F] {w : World F A} (h : w.Good) (centered : A) {client : Nat}
    (hclient : client ≠ 0) (hnew : w.players.lookup client = none) (position : Vec2 F) :
    (w.spawnPlayer centered client position).2.Good := by
  refine ⟨h.store.add h.find_fresh _ _ _, h.fresh_add _ _ _,
    (Table.lookup_insert _ _ _ _).trans ((if_neg hclient.symm).trans h.unowned),
    fun c slot hslot => ?_, fun entity c howner hc => ?_⟩
  · simp only [World.spawnPlayer, Table.lookup_insert] at hslot
    simp only [World.spawnPlayer, ownerOf_add h.store, sequenceOf_add h.store]
    split at hslot
    · cases hslot
      rw [if_pos rfl, if_pos rfl, ‹c = client›]
      exact ⟨rfl, rfl, rfl⟩
    · have hne := h.entity_ne_next hslot
      rw [if_neg hne, if_neg hne]
      exact h.slot c slot hslot
  · simp only [World.spawnPlayer, ownerOf_add h.store] at howner
    simp only [World.spawnPlayer, Table.lookup_insert]
    split at howner
    · cases howner
      exact ⟨_, if_pos rfl, Eq.symm ‹_›⟩
    · obtain ⟨slot, hslot, hentity⟩ := h.owned entity c howner hc
      have hne : c ≠ client := by
        rintro rfl
        rw [hnew] at hslot
        cases hslot
      exact ⟨slot, (if_neg hne).trans hslot, hentity⟩

/-- Adopting an entity its client already owns rewrites the entity and the slot. -/
theorem Good.adoptEntity [Zero F] {w : World F A} (h : w.Good) (centered : A)
    {entity client : Nat} (hclient : client ≠ 0)
    (howner : w.entities.ownerOf entity = some client) (position velocity : Vec2 F)
    (sequence : Nat) :
    (w.adoptEntity centered entity client position velocity sequence).Good := by
  obtain ⟨i, hfind, -⟩ := Option.bind_eq_some_iff.mp howner
  have hstore : (w.adoptEntity centered entity client position velocity sequence).entities =
      { w.entities with
        position := w.entities.position.set i position
        velocity := w.entities.velocity.set i velocity
        owner := w.entities.owner.set i client
        lastInputSequence := w.entities.lastInputSequence.set i sequence } := by
    simp only [World.adoptEntity, hfind]
  have hnext : (w.adoptEntity centered entity client position velocity sequence).nextEntity =
      w.nextEntity := by
    simp only [World.adoptEntity, hfind]
  have howners : ∀ e, (w.adoptEntity centered entity client position velocity
      sequence).entities.ownerOf e = w.entities.ownerOf e := by
    intro e
    rw [hstore]
    refine (EntityStore.cell_set h.store h.store.owner hfind e client).trans ?_
    split
    · rw [‹e = entity›, howner]
    · rfl
  have hsequences : ∀ e, (w.adoptEntity centered entity client position velocity
      sequence).entities.sequenceOf e =
        if e = entity then some sequence else w.entities.sequenceOf e := by
    intro e
    rw [hstore]
    exact EntityStore.cell_set h.store h.store.sequence hfind e sequence
  refine ⟨?_, ?_, (Table.lookup_insert _ _ _ _).trans ((if_neg hclient.symm).trans h.unowned),
    fun c slot hslot => ?_, fun e c hown hc => ?_⟩
  · rw [hstore]
    refine ⟨?_, ?_, h.store.kind, ?_, ?_, h.store.seed, h.store.index⟩
    · exact List.length_set.trans h.store.position
    · exact List.length_set.trans h.store.velocity
    · exact List.length_set.trans h.store.owner
    · exact List.length_set.trans h.store.sequence
  · rw [hstore, hnext]
    exact h.fresh
  · rw [howners, hsequences]
    simp only [World.adoptEntity, Table.lookup_insert] at hslot
    split at hslot
    · cases hslot
      rw [if_pos rfl, howner, ‹c = client›]
      exact ⟨rfl, rfl, rfl⟩
    · have hne : slot.entity ≠ entity := by
        rintro rfl
        have := howner.symm.trans (h.slot c slot hslot).1
        exact absurd (Option.some.inj this).symm ‹_›
      rw [if_neg hne]
      exact h.slot c slot hslot
  · rw [howners] at hown
    simp only [World.adoptEntity, Table.lookup_insert]
    split
    · refine ⟨_, rfl, ?_⟩
      obtain ⟨slot, hslot, hentity⟩ := h.owned e c hown hc
      obtain ⟨slot', hslot', hentity'⟩ := h.owned entity client howner (‹c = client› ▸ hc)
      rw [‹c = client›, hslot', Option.some.injEq] at hslot
      exact hentity'.symm.trans (hslot ▸ hentity)
    · exact h.owned e c hown hc

theorem despawn_of_owner {w : World F A} {entity client : Nat}
    (howner : w.entities.ownerOf entity = some client) :
    w.despawn entity =
      { w with
        entities := (w.entities.remove entity).1
        players := if client ≠ 0 then w.players.erase client else w.players } := by
  obtain ⟨i, hfind, hget⟩ := Option.bind_eq_some_iff.mp howner
  have hclient : w.entities.owner.getD i 0 = client := by
    rw [List.getD_eq_getElem?_getD, hget, Option.getD_some]
  simp only [World.despawn, hfind, hclient]

/-- The table loses the owner's slot only; no slot has client 0. -/
theorem Good.players_despawn {w : World F A} (h : w.Good) {entity client : Nat}
    (howner : w.entities.ownerOf entity = some client) (c : Nat) :
    (w.despawn entity).players.lookup c = if c = client then none else w.players.lookup c := by
  rw [despawn_of_owner howner]
  by_cases hzero : client = 0
  · rw [if_neg (not_not.mpr hzero)]
    split
    · rw [‹c = client›, hzero, h.unowned]
    · rfl
  · rw [if_pos hzero, Table.lookup_erase]

theorem Good.despawn {w : World F A} (h : w.Good) (entity : Nat) : (w.despawn entity).Good := by
  cases hfind : w.entities.find entity with
  | none => simpa only [World.despawn, hfind] using h
  | some i =>
    obtain ⟨client, howner⟩ : ∃ client, w.entities.ownerOf entity = some client := by
      have hlt := h.store.find_lt hfind
      rw [← h.store.owner] at hlt
      exact ⟨_, by rw [EntityStore.ownerOf, EntityStore.cell, hfind, Option.bind_some,
        List.getElem?_eq_getElem hlt]⟩
    have hworld := despawn_of_owner howner
    have hlookup := h.players_despawn howner
    have hrow := EntityStore.remove_of_find hfind
    have howners : ∀ e, (w.entities.remove entity).1.ownerOf e =
        if e = entity then none else w.entities.ownerOf e := by
      intro e
      rw [EntityStore.ownerOf, congrArg EntityStore.owner hrow]
      exact EntityStore.cell_remove h.store h.store.owner hfind e
    have hsequences : ∀ e, (w.entities.remove entity).1.sequenceOf e =
        if e = entity then none else w.entities.sequenceOf e := by
      intro e
      rw [EntityStore.sequenceOf, congrArg EntityStore.lastInputSequence hrow]
      exact EntityStore.cell_remove h.store h.store.sequence hfind e
    refine ⟨?_, ?_, ?_, fun c slot hslot => ?_, fun e c hown hc => ?_⟩
    · rw [hworld]
      exact h.store.remove entity
    · rw [hworld]
      intro e hmem
      have hsome := ((h.store.remove entity).mem_id_iff e).mp hmem
      rw [EntityStore.find_remove h.store hfind] at hsome
      split at hsome
      · cases hsome
      · refine h.fresh e ((h.store.mem_id_iff e).mpr ?_)
        split at hsome
        · rw [‹w.entities.find e = _›]
          rfl
        · exact hsome
    · rw [hlookup, h.unowned, ite_self]
    · rw [hlookup] at hslot
      split at hslot
      · cases hslot
      · have hslots := h.slot c slot hslot
        have hne : slot.entity ≠ entity := by
          rintro rfl
          exact absurd (Option.some.inj (hslots.1.symm.trans howner)) ‹_›
        rw [hworld]
        simp only [howners, hsequences, if_neg hne]
        exact hslots
    · rw [hworld] at hown
      simp only [howners] at hown
      split at hown
      · cases hown
      · obtain ⟨slot, hslot, hentity⟩ := h.owned e c hown hc
        have hne : c ≠ client := by
          rintro rfl
          obtain ⟨slot', hslot', hentity'⟩ := h.owned entity c howner hc
          rw [hslot, Option.some.injEq] at hslot'
          exact absurd (hentity.symm.trans (hslot' ▸ hentity')) ‹_›
        exact ⟨slot, (hlookup c).trans ((if_neg hne).trans hslot), hentity⟩

theorem Good.queueInput {w : World F A} (h : w.Good) (quantize : A → A) (client : Nat)
    (input : MoveInput A) : (w.queueInput quantize client input).Good := by
  cases hslot : w.players.lookup client with
  | none => simpa only [World.queueInput, hslot] using h
  | some slot =>
    have hframe := slot.receive_frame quantize input
    have hclient : client ≠ 0 := by
      rintro rfl
      rw [h.unowned] at hslot
      cases hslot
    simp only [World.queueInput, hslot]
    refine ⟨h.store, h.fresh, ?_, fun c slot' hslot' => ?_, fun e c hown hc => ?_⟩
    · rw [Table.lookup_insert, if_neg hclient.symm, h.unowned]
    · rw [Table.lookup_insert] at hslot'
      split at hslot'
      · cases hslot'
        obtain ⟨howner, hsequence, hnewest⟩ := h.slot client slot hslot
        rw [hframe.1, hframe.2, ‹c = client›]
        exact ⟨howner, hsequence, slot.newest_receive quantize input hnewest⟩
      · exact h.slot c slot' hslot'
    · obtain ⟨slot', hslot', hentity⟩ := h.owned e c hown hc
      rw [Table.lookup_insert]
      split
      · rw [‹c = client›, hslot, Option.some.injEq] at hslot'
        exact ⟨_, rfl, hframe.1.trans (hslot' ▸ hentity)⟩
      · exact ⟨slot', hslot', hentity⟩

theorem seat_queueInput (w : World F A) (quantize : A → A) (client : Nat) (input : MoveInput A)
    (c : Nat) : (w.queueInput quantize client input).seat c =
      if c = client then (w.seat c).map fun seat => (seat.1, max seat.2 input.sequence)
      else w.seat c := by
  unfold seat
  cases hslot : w.players.lookup client with
  | none =>
    simp only [World.queueInput, hslot]
    split
    · rw [‹c = client›, hslot]
      rfl
    · rfl
  | some slot =>
    simp only [World.queueInput, hslot, Table.lookup_insert]
    split
    · rw [‹c = client›, hslot]
      simp only [Option.map_some, PlayerSlot.receive_highest, (slot.receive_frame quantize input).1]
    · rfl

variable (sim : Simulation F A)

/-- A tick's work for one client leaves the world as it was or advances its slot. -/
theorem applyInput_cases (w : World F A) (client : Nat) :
    applyInput sim w client = w ∨
    ∃ slot i stats, w.players.lookup client = some slot ∧ w.entities.find slot.entity = some i ∧
      ∃ position velocity, applyInput sim w client =
        { w with
          players := w.players.insert client (slot.next sim.centered w.tick).2.2
          stats
          entities :=
            { w.entities with
              position := w.entities.position.set i position
              velocity := w.entities.velocity.set i velocity
              lastInputSequence := w.entities.lastInputSequence.set i
                (slot.next sim.centered w.tick).2.2.lastAppliedSequence } } := by
  unfold applyInput
  split
  · exact Or.inl rfl
  · rename_i slot hslot
    split
    · exact Or.inl rfl
    · rename_i i hfind
      split
      · exact Or.inr ⟨slot, i, _, hslot, hfind, _, _, rfl⟩
      · exact Or.inl rfl

theorem Good.applyInput {w : World F A} (h : w.Good) (client : Nat) :
    (applyInput sim w client).Good ∧ ∀ c, (World.applyInput sim w client).seat c = w.seat c := by
  rcases applyInput_cases sim w client with heq | ⟨slot, i, stats, hslot, hfind, position, velocity, heq⟩
  · rw [heq]
    exact ⟨h, fun _ => rfl⟩
  · rw [heq]
    have hframe := slot.next_frame sim.centered w.tick
    have hnewest := slot.newest_next sim.centered w.tick
    generalize (slot.next sim.centered w.tick).2.2 = slot' at hframe hnewest
    obtain ⟨howner, hsequence, hslotNewest⟩ := h.slot client slot hslot
    have hclient : client ≠ 0 := by
      rintro rfl
      rw [h.unowned] at hslot
      cases hslot
    have hsequences : ∀ e, w.entities.cell
        (w.entities.lastInputSequence.set i slot'.lastAppliedSequence) e =
        if e = slot.entity then some slot'.lastAppliedSequence else w.entities.sequenceOf e :=
      fun e => EntityStore.cell_set h.store h.store.sequence hfind e _
    refine ⟨⟨?_, h.fresh, ?_, fun c other hother => ?_, fun e c hown hc => ?_⟩, fun c => ?_⟩
    · exact ⟨List.length_set.trans h.store.position, List.length_set.trans h.store.velocity,
        h.store.kind, h.store.owner, List.length_set.trans h.store.sequence, h.store.seed,
        h.store.index⟩
    · exact (Table.lookup_insert _ _ _ _).trans ((if_neg hclient.symm).trans h.unowned)
    · change _ ∧ w.entities.cell _ other.entity = _ ∧ _
      rw [hsequences]
      rw [Table.lookup_insert] at hother
      split at hother
      · cases hother
        rw [hframe.1, hframe.2, hnewest, if_pos rfl, ‹c = client›]
        exact ⟨howner, rfl, hslotNewest⟩
      · obtain ⟨howner', hsequence', hnewest'⟩ := h.slot c other hother
        have hne : other.entity ≠ slot.entity := by
          intro hentity
          rw [hentity, howner, Option.some.injEq] at howner'
          exact absurd howner'.symm ‹_›
        rw [if_neg hne]
        exact ⟨howner', hsequence', hnewest'⟩
    · obtain ⟨other, hother, hentity⟩ := h.owned e c hown hc
      rw [Table.lookup_insert]
      split
      · rw [‹c = client›, hslot, Option.some.injEq] at hother
        exact ⟨slot', rfl, hframe.1.trans (hother ▸ hentity)⟩
      · exact ⟨other, hother, hentity⟩
    · unfold seat
      rw [Table.lookup_insert]
      split
      · rw [‹c = client›, hslot, Option.map_some, Option.map_some, hframe.1, hframe.2]
      · rfl

theorem Good.applyInputs {w : World F A} (h : w.Good) (order : List Nat) :
    (applyInputs sim w order).Good ∧ ∀ c, (World.applyInputs sim w order).seat c = w.seat c := by
  induction order generalizing w with
  | nil => exact ⟨h, fun _ => rfl⟩
  | cons client order ih =>
    obtain ⟨hgood, hseat⟩ := h.applyInput sim client
    obtain ⟨hgood', hseat'⟩ := ih hgood
    exact ⟨hgood', fun c => (hseat' c).trans (hseat c)⟩

theorem moved_driveDrifter (epoch : UInt32) (s : EntityStore F) (i : Nat) :
    EntityStore.Moved s (driveDrifter sim epoch s i) := by
  unfold driveDrifter
  split
  · exact ⟨rfl, rfl, rfl, rfl, rfl, rfl, List.length_set, List.length_set⟩
  · exact EntityStore.Moved.refl s

theorem moved_foldl_driveDrifter (epoch : UInt32) (s : EntityStore F) (order : List Nat) :
    EntityStore.Moved s (order.foldl (driveDrifter sim epoch) s) := by
  induction order generalizing s with
  | nil => exact EntityStore.Moved.refl s
  | cons i order ih => exact (moved_driveDrifter sim epoch s i).trans (ih _)

/-- Moving entities keeps the world good. -/
theorem Good.moved {w w' : World F A} (h : w.Good)
    (hmoved : EntityStore.Moved w.entities w'.entities) (hplayers : w'.players = w.players)
    (hnext : w'.nextEntity = w.nextEntity) : w'.Good := by
  refine ⟨hmoved.wf h.store, ?_, ?_, ?_, ?_⟩
  · rw [hmoved.id, hnext]
    exact h.fresh
  · rw [hplayers]
    exact h.unowned
  · rw [hplayers, hmoved.ownerOf, hmoved.sequenceOf]
    exact h.slot
  · rw [hplayers, hmoved.ownerOf]
    exact h.owned

theorem Good.driveDrifters {w : World F A} (h : w.Good) : (driveDrifters sim w).Good :=
  h.moved (moved_foldl_driveDrifter sim _ _ _) rfl rfl

theorem Good.step {w : World F A} (h : w.Good) (order : List Nat) :
    (step sim w order).Good ∧ ∀ c, (World.step sim w order).seat c = w.seat c := by
  have hreset : ({ w with stats := { w.stats with inputsApplied := 0, inputsStarved := 0 } } :
      World F A).Good := h.moved (EntityStore.Moved.refl _) rfl rfl
  obtain ⟨hgood, hseat⟩ := hreset.applyInputs sim order
  have hdriven := hgood.driveDrifters sim
  refine ⟨hdriven.moved ?_ rfl rfl, hseat⟩
  exact ⟨rfl, rfl, rfl, rfl, rfl, rfl, sim.resolve_length _ _, rfl⟩

end World
end Morton.Sim
