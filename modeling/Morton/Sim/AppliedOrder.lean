import Morton.Sim.Turn

/-! Commands are applied once and in order: what a slot keeps of the commands it receives,
and what a log of the commands taken from it shows after any calls on the world. -/
namespace Morton.Sim
namespace PlayerSlot
variable {A : Type}

/-- The queue is in order, above what was applied, up to what was received, and bounded. -/
structure Queued (slot : PlayerSlot A) : Prop where
  increasing : slot.pending.Pairwise fun a b => a.sequence < b.sequence
  above : ∀ input ∈ slot.pending, slot.lastAppliedSequence < input.sequence
  received : ∀ input ∈ slot.pending, input.sequence ≤ slot.highestReceivedSequence
  room : slot.pending.length ≤ kMaxQueuedInputs
  applied : slot.lastAppliedSequence ≤ slot.highestReceivedSequence

/-- What is accepted is newer than all before it, and takes the place of the oldest. -/
theorem Queued.receive {slot : PlayerSlot A} (h : slot.Queued) (quantize : A → A)
    {input : MoveInput A} (hsequence : input.sequence ≠ 0) :
    (slot.receive quantize input).Queued := by
  unfold PlayerSlot.receive
  split
  · exact ⟨h.increasing, h.above, h.received, h.room, h.applied⟩
  · rename_i hnew
    have hhighest : slot.highestReceivedSequence < input.sequence := by omega
    have hkept : ∀ rest : List (MoveInput A), rest.Sublist slot.pending →
        rest.length < kMaxQueuedInputs →
        ({ slot with
          highestReceivedSequence := input.sequence
          pending := rest ++ [{ input with axes := quantize input.axes }] } :
            PlayerSlot A).Queued := by
      intro rest hsub hroom
      refine ⟨?_, ?_, ?_, ?_, ?_⟩
      · apply List.pairwise_append.mpr
        refine ⟨h.increasing.sublist hsub, List.pairwise_singleton _ _, fun a ha b hb => ?_⟩
        rw [List.mem_singleton.mp hb]
        exact Nat.lt_of_le_of_lt (h.received a (hsub.subset ha)) hhighest
      · intro a ha
        cases List.mem_append.mp ha with
        | inl hold => exact h.above a (hsub.subset hold)
        | inr hlast =>
          rw [List.mem_singleton.mp hlast]
          exact Nat.lt_of_le_of_lt h.applied hhighest
      · intro a ha
        cases List.mem_append.mp ha with
        | inl hold => exact Nat.le_of_lt (Nat.lt_of_le_of_lt (h.received a (hsub.subset hold)) hhighest)
        | inr hlast => rw [List.mem_singleton.mp hlast]
      · rw [List.length_append]
        exact hroom
      · exact Nat.le_of_lt (Nat.lt_of_le_of_lt h.applied hhighest)
    have hroom := h.room
    by_cases hfull : slot.pending.length ≥ kMaxQueuedInputs
    · simp only [if_pos hfull]
      apply hkept
      · exact List.tail_sublist _
      · rw [List.length_tail, Nat.le_antisymm hroom hfull]
        decide
    · simp only [if_neg hfull]
      apply hkept
      · exact List.Sublist.refl _
      · exact Nat.lt_of_not_le hfull

theorem Queued.next {slot : PlayerSlot A} (h : slot.Queued) (centered : A) (tick : Nat) :
    (slot.next centered tick).2.2.Queued := by
  unfold PlayerSlot.next
  split
  · rename_i input pending hpending
    obtain ⟨hincreasing, habove, hreceived, hroom, happlied⟩ := h
    rw [hpending] at hincreasing habove hreceived hroom
    obtain ⟨hfirst, hrest⟩ := List.pairwise_cons.mp hincreasing
    refine ⟨hrest, hfirst, ?_, ?_, hreceived input List.mem_cons_self⟩
    · exact fun a ha => hreceived a (List.mem_cons_of_mem _ ha)
    · exact Nat.le_of_succ_le hroom
  · split
    · exact h
    · exact h

/-- The sequence of the command a tick takes from the queue, if one is waiting. -/
def taken (centered : A) (tick : Nat) (slot : PlayerSlot A) : Option Nat :=
  let (input, waited, _) := slot.next centered tick
  if waited then some input.sequence else none

theorem lastApplied_next (centered : A) (tick : Nat) (slot : PlayerSlot A) :
    (slot.next centered tick).2.2.lastAppliedSequence =
      (slot.taken centered tick).getD slot.lastAppliedSequence := by
  unfold taken PlayerSlot.next
  split
  · rfl
  · split
    · rfl
    · rfl

theorem Queued.taken_gt {slot : PlayerSlot A} (h : slot.Queued) {centered : A}
    {tick sequence : Nat} (htaken : slot.taken centered tick = some sequence) :
    slot.lastAppliedSequence < sequence := by
  cases hpending : slot.pending with
  | nil =>
    simp only [taken, PlayerSlot.next, hpending] at htaken
    split at htaken
    · cases htaken
    · cases htaken
  | cons input pending =>
    simp only [taken, PlayerSlot.next, hpending] at htaken
    rw [← Option.some.inj htaken]
    apply h.above
    rw [hpending]
    exact List.mem_cons_self

end PlayerSlot

namespace World
variable {F A : Type}

theorem Rowed.entity_ne_next {w : World F A} (h : w.Rowed) {client entity : Nat}
    (hentity : w.entityOf client = some entity) : entity ≠ w.nextEntity := by
  intro heq
  have howner := h.slot client entity hentity
  rw [heq, EntityStore.ownerOf, EntityStore.cell, h.find_fresh] at howner
  cases howner

theorem sequenceOf_despawn {w : World F A} (h : w.Rowed) {entity e : Nat} (hne : e ≠ entity) :
    (w.despawn entity).entities.sequenceOf e = w.entities.sequenceOf e := by
  cases howner : w.entities.ownerOf entity with
  | none => rw [despawn_absent h.store howner]
  | some client =>
    obtain ⟨i, hfind, -⟩ := Option.bind_eq_some_iff.mp howner
    rw [despawn_of_owner howner, EntityStore.sequenceOf,
      congrArg EntityStore.lastInputSequence (EntityStore.remove_of_find hfind)]
    exact (EntityStore.cell_remove h.store h.store.sequence hfind e).trans (if_neg hne)

variable [Zero F] (sim : Simulation F A)

/-- The sequence that a call takes from the client's queue; only a tick takes one. -/
def takes (client : Nat) (w : World F A) : WorldAction F A → Option Nat
  | .step _ => (w.players.lookup client).bind (PlayerSlot.taken sim.centered w.tick)
  | _ => none

/-- The call leaves the client's slot in place and gives it no command without a number. -/
def Spares (client : Nat) (w : World F A) : WorldAction F A → Prop
  | .spawnPlayer c _ => c ≠ client
  | .adoptEntity _ c _ _ _ => c ≠ client
  | .despawn entity => w.entities.ownerOf entity ≠ some client
  | .queueInput c input => c = client → input.sequence ≠ 0
  | .spawnDrifter _ | .step _ => True

/-- The call makes a slot for the client, whose first command comes after `seed`. -/
def Creates (client seed : Nat) : WorldAction F A → Prop
  | .spawnPlayer c _ => c = client ∧ seed = 0
  | .adoptEntity _ c _ _ sequence => c = client ∧ seed = sequence
  | _ => False

/-- A well kept slot, whose entity carries the sequence applied last. -/
def Kept (w : World F A) (slot : PlayerSlot A) : Prop :=
  slot.Queued ∧ w.entities.sequenceOf slot.entity = some slot.lastAppliedSequence

theorem sequenceOf_adoptEntity {w : World F A} (h : w.Rowed) (centered : A)
    (entity client : Nat) (position velocity : Vec2 F) (sequence e : Nat) :
    (w.adoptEntity centered entity client position velocity sequence).entities.sequenceOf e =
      if e = entity then some sequence else w.entities.sequenceOf e := by
  cases hfind : w.entities.find entity with
  | none =>
    have hadded := h.store.add hfind .player position client
    have hat : (w.entities.add entity .player position client).find entity =
        some w.entities.size := by
      rw [EntityStore.find_add, if_pos rfl]
    simp only [World.adoptEntity, hfind]
    apply (EntityStore.cell_set hadded hadded.sequence hat e sequence).trans
    by_cases he : e = entity
    · rw [if_pos he, if_pos he]
    · rw [if_neg he, if_neg he]
      exact (sequenceOf_add h.store _ _ _ _ _).trans (if_neg he)
  | some i =>
    simp only [World.adoptEntity, hfind]
    exact EntityStore.cell_set h.store h.store.sequence hfind e sequence

/-- A new slot is empty, and its entity carries the seed. -/
theorem Rowed.kept_of_creates {w : World F A} (h : w.Rowed) {client seed : Nat}
    {create : WorldAction F A} (hcreates : Creates client seed create) :
    ∃ slot, (w.act sim create).players.lookup client = some slot ∧
      (w.act sim create).Kept slot ∧ slot.lastAppliedSequence = seed := by
  cases create with
  | spawnPlayer c position =>
    obtain ⟨rfl, rfl⟩ := hcreates
    refine ⟨_, (Table.lookup_insert _ _ _ _).trans (if_pos rfl), ⟨⟨?_, ?_, ?_, ?_, ?_⟩, ?_⟩, rfl⟩
    · exact List.Pairwise.nil
    · simp
    · simp
    · simp
    · exact Nat.le_refl _
    · exact (sequenceOf_add h.store _ _ _ _ _).trans (if_pos rfl)
  | adoptEntity entity c position velocity sequence =>
    obtain ⟨rfl, rfl⟩ := hcreates
    refine ⟨_, (Table.lookup_insert _ _ _ _).trans (if_pos rfl), ⟨⟨?_, ?_, ?_, ?_, ?_⟩, ?_⟩, rfl⟩
    · exact List.Pairwise.nil
    · simp
    · simp
    · simp
    · exact Nat.le_refl _
    · exact (sequenceOf_adoptEntity h _ _ _ _ _ _ _).trans (if_pos rfl)
  | spawnDrifter position => cases hcreates
  | despawn entity => cases hcreates
  | queueInput c input => cases hcreates
  | step order => cases hcreates

/-- Calls about other players leave the slot and its entity's sequence alone. -/
theorem Rowed.untouched {w : World F A} (h : w.Rowed) {client : Nat} {slot : PlayerSlot A}
    (hslot : w.players.lookup client = some slot) {action : WorldAction F A}
    (hrightful : w.Rightful action) (hspares : w.Spares client action)
    (hqueue : ∀ input, action ≠ .queueInput client input) (hstep : ∀ order, action ≠ .step order) :
    (w.act sim action).players.lookup client = some slot ∧
    (w.act sim action).entities.sequenceOf slot.entity = w.entities.sequenceOf slot.entity := by
  have hentity : w.entityOf client = some slot.entity := by
    rw [entityOf, hslot, Option.map_some]
  have howner := h.slot client slot.entity hentity
  cases action with
  | spawnPlayer c position =>
    constructor
    · exact (Table.lookup_insert _ _ _ _).trans ((if_neg (Ne.symm hspares)).trans hslot)
    · exact (sequenceOf_add h.store _ _ _ _ _).trans (if_neg (h.entity_ne_next hentity))
  | spawnDrifter position =>
    constructor
    · exact hslot
    · exact (sequenceOf_add h.store _ _ _ _ _).trans (if_neg (h.entity_ne_next hentity))
  | despawn entity =>
    have hne : slot.entity ≠ entity := by
      intro heq
      exact hspares (heq ▸ howner)
    refine ⟨?_, sequenceOf_despawn h hne⟩
    change (w.despawn entity).players.lookup client = some slot
    cases hother : w.entities.ownerOf entity with
    | none => rw [despawn_absent h.store hother, hslot]
    | some other =>
      have hclient : client ≠ other := by
        intro heq
        exact hspares (heq ▸ hother)
      rw [despawn_of_owner hother]
      by_cases hzero : other = 0
      · rw [if_neg (not_not.mpr hzero), hslot]
      · rw [if_pos hzero, Table.lookup_erase, if_neg hclient, hslot]
  | adoptEntity entity c position velocity sequence =>
    have hne : slot.entity ≠ entity := by
      intro heq
      cases hrightful.2 client (heq ▸ howner) with
      | inl hzero =>
        rw [hzero, h.unowned] at hentity
        cases hentity
      | inr hown => exact hspares hown.symm
    constructor
    · exact (Table.lookup_insert _ _ _ _).trans ((if_neg (Ne.symm hspares)).trans hslot)
    · exact (sequenceOf_adoptEntity h _ _ _ _ _ _ _).trans (if_neg hne)
  | queueInput c input =>
    have hne : client ≠ c := by
      intro heq
      subst heq
      exact hqueue input rfl
    change (w.queueInput _ c input).players.lookup client = some slot ∧
      (w.queueInput _ c input).entities.sequenceOf slot.entity = _
    rw [(w.entities_queueInput _ c input).1]
    refine ⟨?_, rfl⟩
    unfold World.queueInput
    split
    · exact hslot
    · rw [Table.lookup_insert, if_neg hne, hslot]
  | step order => exact absurd rfl (hstep order)

/-- One call: the slot stays well kept, and moves on to the sequence taken, if any. -/
theorem Rowed.kept_act {w : World F A} (h : w.Rowed) {client : Nat} {slot : PlayerSlot A}
    (hslot : w.players.lookup client = some slot) (hkept : w.Kept slot)
    {action : WorldAction F A} (hrightful : w.Rightful action) (henumerates : w.Enumerates action)
    (hspares : w.Spares client action) :
    ∃ slot', (w.act sim action).players.lookup client = some slot' ∧
      (w.act sim action).Kept slot' ∧
      slot'.lastAppliedSequence =
        (w.takes sim client action).getD slot.lastAppliedSequence := by
  obtain ⟨hqueued, hsequence⟩ := hkept
  by_cases hqueue : ∃ input, action = .queueInput client input
  · obtain ⟨input, rfl⟩ := hqueue
    have hframe := slot.receive_frame sim.quantizeInput input
    refine ⟨slot.receive sim.quantizeInput input, ?_,
      ⟨hqueued.receive sim.quantizeInput (hspares rfl), ?_⟩, hframe.2⟩
    · simp only [act, World.queueInput, hslot]
      exact (Table.lookup_insert _ _ _ _).trans (if_pos rfl)
    · rw [hframe.1, hframe.2, act, (w.entities_queueInput _ client input).1, hsequence]
  by_cases hstep : ∃ order, action = .step order
  · obtain ⟨order, rfl⟩ := hstep
    obtain ⟨hafter, hcarried⟩ := h.turned_step sim hslot henumerates
    refine ⟨_, hafter, ⟨hqueued.next sim.centered w.tick, ?_⟩, ?_⟩
    · rw [(slot.next_frame sim.centered w.tick).1]
      exact hcarried
    · rw [takes, hslot, Option.bind_some, PlayerSlot.lastApplied_next]
  · obtain ⟨hafter, hcarried⟩ := h.untouched sim hslot hrightful hspares
      (fun input heq => hqueue ⟨input, heq⟩) (fun order heq => hstep ⟨order, heq⟩)
    refine ⟨slot, hafter, ⟨hqueued, hcarried.trans hsequence⟩, ?_⟩
    have hnone : w.takes sim client action = none := by
      cases action with
      | step order => exact absurd ⟨order, rfl⟩ hstep
      | spawnPlayer c position => rfl
      | spawnDrifter position => rfl
      | despawn entity => rfl
      | adoptEntity entity c position velocity sequence => rfl
      | queueInput c input => rfl
    rw [hnone, Option.getD_none]

/-- A call that leaves the client's slot in place, in an order a tick can take. -/
def Fed (client : Nat) (w : World F A) (action : WorldAction F A) : Prop :=
  w.Rightful action ∧ w.Enumerates action ∧ w.Spares client action

/-- From a well kept slot on, what is taken increases, above what was applied before. -/
theorem Rowed.log_increasing {w : World F A} (h : w.Rowed) {client : Nat} {slot : PlayerSlot A}
    (hslot : w.players.lookup client = some slot) (hkept : w.Kept slot)
    {actions : List (WorldAction F A)} (hactions : Run.Along (act sim) (Fed client) w actions) :
    (slot.lastAppliedSequence :: Run.log (act sim) (takes sim client) w actions).Pairwise
      (· < ·) := by
  induction actions generalizing w slot with
  | nil => exact List.pairwise_singleton _ _
  | cons action actions ih =>
    obtain ⟨⟨hrightful, henumerates, hspares⟩, hrest⟩ := hactions
    obtain ⟨slot', hslot', hkept', hmoved⟩ :=
      h.kept_act sim hslot hkept hrightful henumerates hspares
    have hlater := ih (rowed_act sim h hrightful) hslot' hkept' hrest
    cases htakes : w.takes sim client action with
    | none =>
      rw [htakes, Option.getD_none] at hmoved
      rw [Run.log, htakes, Option.toList_none, List.nil_append, ← hmoved]
      exact hlater
    | some sequence =>
      rw [htakes, Option.getD_some] at hmoved
      rw [hmoved] at hlater
      rw [Run.log, htakes, Option.toList_some, List.singleton_append]
      have hgt : slot.lastAppliedSequence < sequence := by
        cases action with
        | step order =>
          rw [takes, hslot, Option.bind_some] at htakes
          exact hkept.1.taken_gt htakes
        | _ => cases htakes
      apply List.pairwise_cons.mpr
      refine ⟨fun n hn => ?_, hlater⟩
      cases hn with
      | head => exact hgt
      | tail _ hn => exact Nat.lt_trans hgt ((List.pairwise_cons.mp hlater).1 n hn)

/-- The slot is well kept after any such calls. -/
theorem Rowed.kept_run {w : World F A} (h : w.Rowed) {client : Nat} {slot : PlayerSlot A}
    (hslot : w.players.lookup client = some slot) (hkept : w.Kept slot)
    {actions : List (WorldAction F A)} (hactions : Run.Along (act sim) (Fed client) w actions) :
    ∃ slot', (Run.run (act sim) w actions).players.lookup client = some slot' ∧
      (Run.run (act sim) w actions).Kept slot' := by
  have hend := Run.invariant (fun w : World F A => w.Rowed ∧
    ∃ slot, w.players.lookup client = some slot ∧ w.Kept slot) (fun w action hok hinv => by
      obtain ⟨hrowed, slot, hslot, hkept⟩ := hinv
      obtain ⟨slot', hslot', hkept', -⟩ :=
        hrowed.kept_act sim hslot hkept hok.1 hok.2.1 hok.2.2
      exact ⟨rowed_act sim hrowed hok.1, slot', hslot', hkept'⟩) ⟨h, slot, hslot, hkept⟩ hactions
  exact hend.2

instance decidableEnumerates (w : World F A) (action : WorldAction F A) :
    Decidable (w.Enumerates action) :=
  match action with
  | .step order => decidable_of_iff (order.Nodup ∧ order.toFinset = w.players.keys) (by
      refine and_congr_right fun _ => ?_
      simp only [Finset.ext_iff, List.mem_toFinset, Finmap.mem_keys])
  | .spawnPlayer _ _ | .spawnDrifter _ | .despawn _ | .adoptEntity _ _ _ _ _
  | .queueInput _ _ => isTrue trivial

instance decidableSpares (client : Nat) (w : World F A) (action : WorldAction F A) :
    Decidable (w.Spares client action) :=
  match action with
  | .spawnPlayer _ _ | .adoptEntity _ _ _ _ _ | .despawn _ => inferInstanceAs (Decidable (_ ≠ _))
  | .queueInput _ _ => inferInstanceAs (Decidable (_ = _ → _ ≠ _))
  | .spawnDrifter _ | .step _ => isTrue trivial

instance decidableFed (client : Nat) (w : World F A) (action : WorldAction F A) :
    Decidable (w.Fed client action) :=
  inferInstanceAs (Decidable (_ ∧ _ ∧ _))

/-- A player comes over with command 40 applied; 42 arrives twice, 41 too late, then 50. -/
def arrivals : List (WorldAction Int Unit) :=
  [.queueInput 7 { sequence := 42, axes := () }, .queueInput 7 { sequence := 42, axes := () },
    .step [7], .queueInput 7 { sequence := 41, axes := () }, .step [7],
    .queueInput 7 { sequence := 50, axes := () }, .step [7]]

end World
end Morton.Sim
