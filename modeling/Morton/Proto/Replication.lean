import Morton.Proto.SnapshotCodec

/-! What `ReplicationState::encode` does: the merge finds every baseline state, the
packet decodes over its baseline, and the result is the frame that was stored. -/
namespace Morton.Proto
open Bits Keyed Net

theorem lookup_cons_ne {key : EntityWireState → Nat} {s : EntityWireState}
    {states : List EntityWireState} {k : Nat} (h : key s ≠ k) :
    lookup key (s :: states) k = lookup key states k := by
  rw [lookup, List.find?_cons, show (key s == k) = false from beq_eq_false_iff_ne.mpr h]
  rfl

theorem lookup_cons_self {key : EntityWireState → Nat} (s : EntityWireState)
    (states : List EntityWireState) : lookup key (s :: states) (key s) = some s := by
  simp [lookup]

/-- One merge over two increasing lists finds every baseline state and every id that
is gone. -/
theorem mergeBaseline_spec (fuel : Nat) {base current : List EntityWireState}
    (hfuel : base.length + current.length ≤ fuel)
    (hbase : Increasing EntityWireState.id base)
    (hcurrent : Increasing EntityWireState.id current) :
    mergeBaseline fuel base current =
      (current.map fun c => lookup EntityWireState.id base c.id,
        (base.filter fun b => (lookup EntityWireState.id current b.id).isNone).map
          EntityWireState.id) := by
  induction fuel generalizing base current with
  | zero =>
    have h₁ : base = [] := List.eq_nil_of_length_eq_zero (by omega)
    have h₂ : current = [] := List.eq_nil_of_length_eq_zero (by omega)
    subst h₁ h₂
    rfl
  | succ fuel ih =>
    cases base with
    | nil => simp [mergeBaseline, lookup]
    | cons old base =>
      cases current with
      | nil => simp [mergeBaseline, lookup]
      | cons new current =>
        simp only [List.length_cons] at hfuel
        have hlater : ∀ b ∈ base, old.id < b.id := fun b hb => List.rel_of_pairwise_cons hbase hb
        have hlater' : ∀ c ∈ current, new.id < c.id :=
          fun c hc => List.rel_of_pairwise_cons hcurrent hc
        rw [mergeBaseline]
        by_cases hlt : old.id < new.id
        · rw [if_pos hlt, ih (by simp only [List.length_cons]; omega) hbase.of_cons hcurrent]
          have hgone : lookup EntityWireState.id (new :: current) old.id = none := by
            rw [lookup_eq_none_iff]
            intro c hc
            rcases List.mem_cons.mp hc with rfl | hc
            · exact Nat.ne_of_gt hlt
            · exact Nat.ne_of_gt (hlt.trans (hlater' c hc))
          refine Prod.ext ?_ ?_ <;> dsimp only
          · refine List.map_congr_left fun c hc => ?_
            have hne : old.id ≠ c.id := by
              rcases List.mem_cons.mp hc with rfl | hc
              · exact Nat.ne_of_lt hlt
              · exact Nat.ne_of_lt (hlt.trans (hlater' c hc))
            rw [lookup_cons_ne hne]
          · rw [List.filter_cons_of_pos (by rw [hgone]; rfl), List.map_cons]
        · rw [if_neg hlt]
          by_cases hgt : new.id < old.id
          · rw [if_pos hgt, ih (by simp only [List.length_cons]; omega) hbase hcurrent.of_cons]
            have habsent : ∀ b ∈ old :: base, new.id ≠ b.id := by
              intro b hb
              rcases List.mem_cons.mp hb with rfl | hb
              · exact Nat.ne_of_lt hgt
              · exact Nat.ne_of_lt (hgt.trans (hlater b hb))
            refine Prod.ext ?_ (congrArg (List.map EntityWireState.id)
              (List.filter_congr fun b hb => ?_))
            · have hnone : lookup EntityWireState.id (old :: base) new.id = none :=
                lookup_eq_none_iff.mpr fun b hb => (habsent b hb).symm
              simp only [List.map_cons, hnone]
            · rw [lookup_cons_ne (habsent b hb)]
          · have heq : old.id = new.id := by omega
            rw [if_neg hgt, ih (by omega) hbase.of_cons hcurrent.of_cons]
            refine Prod.ext ?_ ?_
            · simp only [List.map_cons]
              rw [← heq, lookup_cons_self]
              refine congrArg _ (List.map_congr_left fun c hc => ?_)
              rw [lookup_cons_ne (Nat.ne_of_lt (heq ▸ hlater' c hc))]
            · have hkept : lookup EntityWireState.id (new :: current) old.id = some new := by
                rw [heq, lookup_cons_self]
              rw [List.filter_cons_of_neg (by rw [hkept]; simp)]
              refine congrArg (List.map EntityWireState.id) (List.filter_congr fun b hb => ?_)
              rw [lookup_cons_ne (Nat.ne_of_lt (heq ▸ hlater b hb))]

/-- Every current entity with its state in the baseline. -/
def rowsOver (base current : List EntityWireState) :
    List (EntityWireState × Option EntityWireState) :=
  current.map fun c => (c, lookup EntityWireState.id base c.id)

/-- The ids of the baseline that are gone. -/
def removedIds (base current : List EntityWireState) : List Nat :=
  (base.filter fun b => (lookup EntityWireState.id current b.id).isNone).map EntityWireState.id

section
variable {base current : List EntityWireState} {selected : List Nat}

theorem mem_frameStates {rows : List (EntityWireState × Option EntityWireState)}
    {a : EntityWireState} :
    a ∈ ReplicationState.frameStates rows selected ↔
      ∃ i row, rows[i]? = some row ∧ (if i ∈ selected then row.1 = a else row.2 = some a) := by
  rw [ReplicationState.frameStates, List.mem_filterMap]
  constructor
  · rintro ⟨⟨row, i⟩, hmem, hout⟩
    refine ⟨i, row, List.mem_zipIdx_iff_getElem?.mp hmem, ?_⟩
    dsimp only at hout
    split at hout
    next hi => rw [if_pos hi, Option.some.inj hout]
    next hi => rw [if_neg hi, hout]
  · rintro ⟨i, row, hrow, hout⟩
    refine ⟨(row, i), List.mem_zipIdx_iff_getElem?.mpr hrow, ?_⟩
    dsimp only
    split at hout
    next hi => rw [if_pos hi, hout]
    next hi => rw [if_neg hi, hout]

theorem rowsOver_getElem? {i : Nat} {row : EntityWireState × Option EntityWireState} :
    (rowsOver base current)[i]? = some row ↔
      current[i]? = some row.1 ∧ row.2 = lookup EntityWireState.id base row.1.id := by
  obtain ⟨c, p⟩ := row
  rw [rowsOver, List.getElem?_map, Option.map_eq_some_iff]
  constructor
  · rintro ⟨d, hd, heq⟩
    obtain ⟨rfl, rfl⟩ := Prod.mk.inj heq
    exact ⟨hd, rfl⟩
  · rintro ⟨hc, hp⟩
    exact ⟨c, hc, Prod.ext rfl hp.symm⟩

/-- The stored frame is in id order. -/
theorem increasing_frameStates (hcurrent : Increasing EntityWireState.id current)
    (selected : List Nat) :
    Increasing EntityWireState.id
      (ReplicationState.frameStates (rowsOver base current) selected) := by
  have hrows : (rowsOver base current).Pairwise fun a b => a.1.id < b.1.id :=
    List.pairwise_map.mpr hcurrent
  have hindexed : (rowsOver base current).zipIdx.Pairwise fun a b => a.1.1.id < b.1.1.id := by
    have := List.zipIdx_map_fst 0 (rowsOver base current)
    rw [← this, List.pairwise_map] at hrows
    exact hrows
  -- either way an entry has the id of its row
  have hkeep : ∀ x ∈ (rowsOver base current).zipIdx, ∀ a : EntityWireState,
      (if x.2 ∈ selected then some x.1.1 else x.1.2) = some a → a.id = x.1.1.id := by
    intro x hx a ha
    obtain ⟨-, hprev⟩ := rowsOver_getElem?.mp (List.mem_zipIdx_iff_getElem?.mp hx)
    split at ha
    · rw [← Option.some.inj ha]
    · rw [hprev] at ha
      exact lookup_key ha
  refine List.pairwise_filterMap.mpr (hindexed.imp_of_mem fun {x y} hx hy hxy a ha b hb => ?_)
  rw [hkeep x hx a ha, hkeep y hy b hb]
  exact hxy

/-- The current states of the selected entities. -/
def sentStates (base current : List EntityWireState) (selected : List Nat) :
    List (EntityWireState × Option EntityWireState) :=
  selected.filterMap fun index => (rowsOver base current)[index]?

theorem mem_sentStates {row : EntityWireState × Option EntityWireState} :
    row ∈ sentStates base current selected ↔
      ∃ i ∈ selected, current[i]? = some row.1 ∧
        row.2 = lookup EntityWireState.id base row.1.id := by
  simp only [sentStates, List.mem_filterMap, rowsOver_getElem?]

/-- In an increasing list an id stands at one index only. -/
theorem index_unique (hcurrent : Increasing EntityWireState.id current) {i j : Nat}
    {a b : EntityWireState} (hi : current[i]? = some a) (hj : current[j]? = some b)
    (hid : a.id = b.id) : i = j := by
  obtain ⟨hi', rfl⟩ := List.getElem?_eq_some_iff.mp hi
  obtain ⟨hj', rfl⟩ := List.getElem?_eq_some_iff.mp hj
  have hpair := List.pairwise_iff_getElem.mp hcurrent
  rcases Nat.lt_trichotomy i j with hlt | heq | hgt
  · exact absurd hid (Nat.ne_of_lt (hpair i j hi' hj' hlt))
  · exact heq
  · exact absurd hid (Nat.ne_of_gt (hpair j i hj' hi' hgt))

theorem sentStates_distinct (hcurrent : Increasing EntityWireState.id current)
    (hselected : selected.Nodup) :
    ((sentStates base current selected).map fun row => row.1.id).Nodup := by
  rw [List.Nodup, List.pairwise_map, sentStates, List.pairwise_filterMap]
  refine hselected.imp fun {i j} hij a ha b hb hid => ?_
  exact hij (index_unique hcurrent (rowsOver_getElem?.mp ha).1 (rowsOver_getElem?.mp hb).1 hid)

theorem sentStates_length (hin : ∀ i ∈ selected, i < current.length) :
    (sentStates base current selected).length = selected.length := by
  induction selected with
  | nil => rfl
  | cons i selected ih =>
    have hi : i < (rowsOver base current).length := by
      rw [rowsOver, List.length_map]
      exact hin i (by simp)
    unfold sentStates at ih ⊢
    rw [List.filterMap_cons, List.getElem?_eq_getElem hi, List.length_cons, List.length_cons,
      ih fun j hj => hin j (List.mem_cons_of_mem i hj)]

/-- An entity of the baseline survives the removals iff some current entity has its id. -/
theorem survives_iff {b : EntityWireState} (hb : b ∈ base) :
    (!(removedIds base current).contains b.id) = true ↔ ∃ c ∈ current, c.id = b.id := by
  have hgone : b.id ∈ removedIds base current ↔ ∀ c ∈ current, c.id ≠ b.id := by
    rw [← (lookup_eq_none_iff : lookup EntityWireState.id current b.id = none ↔ _), removedIds,
      List.mem_map]
    constructor
    · rintro ⟨d, hd, hid⟩
      rw [← hid]
      exact Option.isNone_iff_eq_none.mp (List.mem_filter.mp hd).2
    · intro hnone
      exact ⟨b, List.mem_filter.mpr ⟨hb, Option.isNone_iff_eq_none.mpr hnone⟩, rfl⟩
  rw [Bool.not_eq_true', ← Bool.not_eq_true, List.contains_iff_mem, hgone]
  simp only [ne_eq, not_forall, Classical.not_not, exists_prop]

/-- The rows sent can be read over what is left of the baseline. -/
theorem sentStates_rowsOver (hbase : Increasing EntityWireState.id base)
    (hcurrent : Increasing EntityWireState.id current) (hselected : selected.Nodup)
    (hfits : ∀ c ∈ current, c.Fits)
    (hkind : ∀ b ∈ base, ∀ c ∈ current, b.id = c.id → b.kind = c.kind) :
    RowsOver (base.filter fun state => !(removedIds base current).contains state.id)
      (sentStates base current selected) where
  fits row hrow := by
    obtain ⟨i, -, hget, -⟩ := mem_sentStates.mp hrow
    exact hfits _ (List.mem_of_getElem? hget)
  base row hrow previous hprevious := by
    obtain ⟨i, -, hget, hprev⟩ := mem_sentStates.mp hrow
    have hmem := List.mem_of_getElem? hget
    rw [hprev] at hprevious
    obtain ⟨hb, hid⟩ := (lookup_eq_some_iff hbase).mp hprevious
    refine ⟨?_, hkind previous hb row.1 hmem hid⟩
    rw [lookup_filter hbase, hprevious, Option.filter_some,
      if_pos ((survives_iff hb).mpr ⟨row.1, hmem, hid.symm⟩)]
  distinct := sentStates_distinct hcurrent hselected

/-- A stored entity is a current one or one of the baseline. -/
theorem mem_of_mem_frameStates (hbase : Increasing EntityWireState.id base)
    {a : EntityWireState}
    (h : a ∈ ReplicationState.frameStates (rowsOver base current) selected) :
    a ∈ current ∨ a ∈ base := by
  obtain ⟨i, row, hrow, hout⟩ := mem_frameStates.mp h
  obtain ⟨hget, hprev⟩ := rowsOver_getElem?.mp hrow
  split at hout
  · exact Or.inl (hout ▸ List.mem_of_getElem? hget)
  · rw [hprev] at hout
    exact Or.inr ((lookup_eq_some_iff hbase).mp hout).1

/-- Applying the packet to the baseline gives the stored frame. -/
theorem applied_eq_frameStates (hbase : Increasing EntityWireState.id base)
    (hcurrent : Increasing EntityWireState.id current) (hselected : selected.Nodup) :
    ((sentStates base current selected).map Prod.fst).foldl (upsert EntityWireState.id)
      (base.filter fun state => !(removedIds base current).contains state.id) =
      ReplicationState.frameStates (rowsOver base current) selected := by
  have hkept := increasing_filter hbase fun state => !(removedIds base current).contains state.id
  have hnodup : (((sentStates base current selected).map Prod.fst).map
      EntityWireState.id).Nodup := by
    rw [List.map_map]
    exact sentStates_distinct hcurrent hselected
  have hstays : ∀ b ∈ base, (!(removedIds base current).contains b.id) = true ↔
      ∃ c ∈ current, c.id = b.id := fun b hb => survives_iff hb
  refine ext_mem (increasing_upserts hkept _) (increasing_frameStates hcurrent selected)
    fun a => ?_
  rw [mem_upserts hkept hnodup, mem_frameStates]
  constructor
  · rintro (hsent | ⟨hbase', hunsent⟩)
    · obtain ⟨row, hrow, rfl⟩ := List.mem_map.mp hsent
      obtain ⟨i, hi, hget, hprev⟩ := mem_sentStates.mp hrow
      exact ⟨i, row, rowsOver_getElem?.mpr ⟨hget, hprev⟩, by rw [if_pos hi]⟩
    · obtain ⟨hmem, hkeep⟩ := List.mem_filter.mp hbase'
      obtain ⟨c, hc, hid⟩ := (hstays a hmem).mp hkeep
      obtain ⟨i, hi⟩ := List.getElem?_of_mem hc
      have hnot : i ∉ selected := fun hsel => hunsent c
        (List.mem_map.mpr ⟨(c, lookup EntityWireState.id base c.id),
          mem_sentStates.mpr ⟨i, hsel, hi, rfl⟩, rfl⟩) hid.symm
      refine ⟨i, (c, lookup EntityWireState.id base c.id), rowsOver_getElem?.mpr ⟨hi, rfl⟩, ?_⟩
      rw [if_neg hnot]
      exact (lookup_eq_some_iff hbase).mpr ⟨hmem, hid.symm⟩
  · rintro ⟨i, row, hrow, hout⟩
    obtain ⟨hget, hprev⟩ := rowsOver_getElem?.mp hrow
    split at hout
    next hi =>
      exact Or.inl (List.mem_map.mpr ⟨row, mem_sentStates.mpr ⟨i, hi, hget, hprev⟩, hout⟩)
    next hi =>
      rw [hprev] at hout
      obtain ⟨hmem, hid⟩ := (lookup_eq_some_iff hbase).mp hout
      refine Or.inr ⟨List.mem_filter.mpr
        ⟨hmem, (hstays a hmem).mpr ⟨row.1, List.mem_of_getElem? hget, hid.symm⟩⟩, ?_⟩
      intro c hc heq
      obtain ⟨row', hrow', rfl⟩ := List.mem_map.mp hc
      obtain ⟨j, hj, hget', -⟩ := mem_sentStates.mp hrow'
      exact hi (index_unique hcurrent hget hget' (hid.symm.trans heq) ▸ hj)

end

namespace SnapshotHistory
variable {h : SnapshotHistory} {t tick : Nat} {states : List EntityWireState}
  {frame : SnapshotFrame}

theorem get_some (hget : h.get t = some frame) : frame.valid = true ∧ frame.tick = t := by
  unfold get at hget
  split at hget
  · cases hget
  · dsimp only at hget
    split at hget
    · cases hget
    next hok =>
      obtain rfl := Option.some.inj hget
      simpa using hok

/-- A store shows its own frame and at most hides others. -/
theorem get_store (hget : (h.store tick states).get t = some frame) :
    (t = tick ∧ frame = { tick, valid := true, states }) ∨ h.get t = some frame := by
  obtain ⟨-, htick⟩ := get_some hget
  unfold store at hget
  split at hget
  · exact Or.inr hget
  next hcap =>
    unfold get at hget
    rw [if_neg hcap] at hget
    dsimp only at hget
    by_cases hslot : t % h.capacity = tick % h.capacity
    · rw [setSlot, if_pos hslot] at hget
      split at hget
      · cases hget
      · obtain rfl := Option.some.inj hget
        exact Or.inl ⟨htick.symm, rfl⟩
    · rw [setSlot, if_neg hslot] at hget
      refine Or.inr ?_
      unfold get
      rw [if_neg hcap]
      exact hget

theorem get_store_self (hcap : h.capacity ≠ 0) :
    (h.store tick states).get tick = some { tick, valid := true, states } := by
  simp [store, get, hcap, setSlot]

/-- A store hides no frame of another slot. -/
theorem get_store_of_ne (hslot : t % h.capacity ≠ tick % h.capacity) :
    (h.store tick states).get t = h.get t := by
  unfold store
  split
  · rfl
  · simp only [get, setSlot, if_neg hslot]

theorem get_configure {capacity : Nat} : (configure capacity).get t = none := by
  unfold get configure
  split <;> simp

theorem store_capacity : (h.store tick states).capacity = h.capacity := by
  unfold store
  split <;> rfl

theorem get_reset : h.reset.get t = none := by
  unfold get reset
  split <;> simp

end SnapshotHistory

/-- What the world promises of a scene: ids are distinct and every field fits. -/
structure Scene.WF {R : Type} (scene : Scene R) : Prop where
  tick : scene.tick < 2 ^ 32
  distinct : (scene.seen.map fun s => s.state.id).Nodup
  fits : ∀ s ∈ scene.seen, s.state.Fits

instance Scene.decidableWF {R : Type} (scene : Scene R) : Decidable scene.WF :=
  decidable_of_iff (scene.tick < 2 ^ 32 ∧ (scene.seen.map fun s => s.state.id).Nodup ∧
      ∀ s ∈ scene.seen, s.state.Fits)
    ⟨fun ⟨htick, hdistinct, hfits⟩ => ⟨htick, hdistinct, hfits⟩,
      fun h => ⟨h.tick, h.distinct, h.fits⟩⟩

/-- `scratch_current_`. -/
def Scene.current {R : Type} (scene : Scene R) : List EntityWireState :=
  (scene.seen.mergeSort fun a b => decide (a.state.id ≤ b.state.id)).map Seen.state

theorem Scene.WF.increasing {R : Type} {scene : Scene R} (h : scene.WF) :
    Increasing EntityWireState.id scene.current := by
  have hsorted : (scene.seen.mergeSort fun a b => decide (a.state.id ≤ b.state.id)).Pairwise
      fun a b => decide (a.state.id ≤ b.state.id) = true := List.pairwise_mergeSort
    (fun a b c hab hbc => by simp only [decide_eq_true_eq] at *; omega)
    (fun a b => by simp only [Bool.or_eq_true, decide_eq_true_eq]; omega) scene.seen
  have hperm := List.mergeSort_perm scene.seen fun a b => decide (a.state.id ≤ b.state.id)
  have hnodup := ((hperm.map fun s => s.state.id).nodup_iff).mpr h.distinct
  rw [List.Nodup, List.pairwise_map] at hnodup
  refine List.pairwise_map.mpr ((hsorted.and hnodup).imp fun {a b} hab => ?_)
  simp only [decide_eq_true_eq] at hab
  omega

theorem Scene.mem_current {R : Type} {scene : Scene R} {a : EntityWireState} :
    a ∈ scene.current ↔ ∃ s ∈ scene.seen, s.state = a := by
  simp [Scene.current]

namespace ReplicationState
variable {R : Type}

theorem candidatePriorities_length [Add R] [Mul R] [OfScientific R] (config : InterestConfig R) (viewer : Nat)
    (rows : List (Seen R × Option EntityWireState)) (priority : List (Nat × R)) :
    (candidatePriorities config viewer rows priority).length = rows.length := by
  induction rows generalizing priority with
  | nil => rfl
  | cons row rows ih =>
    obtain ⟨current, previous⟩ := row
    simp only [candidatePriorities, List.length_cons, ih]

theorem candidates_increasing (priorities : List (Option R)) :
    Increasing Prod.fst (candidates priorities) := by
  have hindex : priorities.zipIdx.Pairwise fun a b => a.2 < b.2 := by
    have h := List.pairwise_lt_range' (s := 0) (n := priorities.length)
    rw [← List.zipIdx_map_snd 0 priorities, List.pairwise_map] at h
    exact h
  refine List.pairwise_filterMap.mpr (hindex.imp fun {x y} hxy a ha b hb => ?_)
  obtain ⟨p, -, rfl⟩ := Option.map_eq_some_iff.mp ha
  obtain ⟨q, -, rfl⟩ := Option.map_eq_some_iff.mp hb
  exact hxy

theorem candidates_index (priorities : List (Option R)) :
    ((candidates priorities).map Prod.fst).Nodup ∧
      ∀ c ∈ candidates priorities, c.1 < priorities.length := by
  constructor
  · rw [List.Nodup, List.pairwise_map]
    exact (candidates_increasing priorities).imp Nat.ne_of_lt
  · intro c hc
    obtain ⟨x, hx, hout⟩ := List.mem_filterMap.mp hc
    obtain ⟨p, -, rfl⟩ := Option.map_eq_some_iff.mp hout
    exact (List.getElem?_eq_some_iff.mp (List.mem_zipIdx_iff_getElem?.mp hx)).1

/-- Whatever the order inside the parts, the selection is a set of candidates. -/
theorem select_subset [LT R] (nth : NthElement R) (cs : List (Nat × R)) (n : Nat)
    (hcs : (cs.map Prod.fst).Nodup) :
    (select nth cs n).Nodup ∧ ∀ i ∈ select nth cs n, i ∈ cs.map Prod.fst := by
  unfold select
  split
  · exact ⟨hcs, fun i hi => hi⟩
  · have hperm := (nth.perm cs n).map Prod.fst
    have hsub : (((nth.apply cs n).take n).map Prod.fst).Sublist
        ((nth.apply cs n).map Prod.fst) := (List.take_sublist _ _).map _
    have hsort := List.mergeSort_perm (((nth.apply cs n).take n).map Prod.fst)
      fun a b => decide (a ≤ b)
    refine ⟨hsort.nodup_iff.mpr ((hperm.nodup_iff.mpr hcs).sublist hsub), fun i hi => ?_⟩
    exact hperm.mem_iff.mp (hsub.mem (hsort.mem_iff.mp hi))

theorem acknowledge_history (s : ReplicationState R) (tick : Nat) :
    (s.acknowledge tick).history = s.history := by
  unfold acknowledge
  split <;> rfl

end ReplicationState

/-- Sorting by descending priority is one implementation of `std::nth_element`. -/
def NthElement.sorting (R : Type) [LinearOrder R] : NthElement R where
  apply candidates _ := candidates.mergeSort fun a b => decide (b.2 ≤ a.2)
  perm candidates _ := List.mergeSort_perm _ _
  top candidates n a ha b hb := by
    have hsorted : (candidates.mergeSort fun a b => decide (b.2 ≤ a.2)).Pairwise
        fun a b => decide (b.2 ≤ a.2) = true := List.pairwise_mergeSort
      (fun a b c hab hbc => by simp only [decide_eq_true_eq] at *; exact hbc.trans hab)
      (fun a b => by simpa using le_total b.2 a.2) candidates
    rw [← List.take_append_drop n (candidates.mergeSort _), List.pairwise_append] at hsorted
    simpa using hsorted.2.2 a ha b hb

theorem varintBits_length_ge (fuel value : Nat) :
    8 ≤ (BitWriter.varintBits fuel value).length := by
  cases fuel with
  | zero => simp [BitWriter.varintBits]
  | succ fuel =>
    rw [BitWriter.varintBits]
    split <;> simp

theorem removedBits_length (removed : List Nat) (previousId : Nat) :
    8 * removed.length ≤ (removedBits previousId removed).length := by
  induction removed generalizing previousId with
  | nil => simp
  | cons id removed ih =>
    have h₁ := ih id
    have h₂ := varintBits_length_ge 4 ((id + 2 ^ 32 - previousId) % 2 ^ 32)
    rw [removedBits, List.length_append, List.length_cons, idBits]
    omega

theorem recordsBits_length (rows : List (EntityWireState × Option EntityWireState))
    (previousId : Nat) : 8 * rows.length ≤ (recordsBits previousId rows).length := by
  induction rows generalizing previousId with
  | nil => simp
  | cons row rows ih =>
    have h₁ := ih row.1.id
    have h₂ := varintBits_length_ge 4 ((row.1.id + 2 ^ 32 - previousId) % 2 ^ 32)
    rw [recordsBits, List.length_append, List.length_append, List.length_cons, idBits]
    omega

/-- A packet built without overflow in a datagram-sized buffer shows its bits, and
every count in it fits its field. -/
theorem written_isSnapshot (out : Nat → UInt8) {budget : Nat} (hbudget : budget ≤ 65535)
    (tick : Nat) (baseTick : Option Nat) (lastInputSequence viewer : Nat) (removed : List Nat)
    (rows : List (EntityWireState × Option EntityWireState))
    (hclean : (writeRecords ((writeSnapshotHeader (BitWriter.new out budget) tick baseTick
      lastInputSequence viewer removed).writeU16 (rows.length % 65536)) 0 rows).overflow = false) :
    IsSnapshot (writeRecords ((writeSnapshotHeader (BitWriter.new out budget) tick baseTick
      lastInputSequence viewer removed).writeU16 (rows.length % 65536)) 0 rows).bytes
      (snapshotBits tick baseTick lastInputSequence viewer removed rows) ∧
    removed.length ≤ 65535 ∧ rows.length < 65536 := by
  have hemits := ((writeSnapshotHeader_takes tick baseTick lastInputSequence viewer removed).comp
    ((BitWriter.writeU16_takes (rows.length % 65536)).comp (writeRecords_takes rows 0))).1
  have hcap : (BitWriter.new out budget).capacityBits = 8 * budget := by
    simp only [BitWriter.new]
    omega
  obtain ⟨hwf, hcapacity, -, hcontent⟩ := hemits (BitWriter.new out budget)
    (BitWriter.new_wf out budget) (Or.inr (by omega))
  obtain ⟨-, hcontent⟩ := hcontent hclean
  dsimp only at hwf hcapacity hcontent
  have hempty : (BitWriter.new out budget).content = [] := by
    simp [BitWriter.content, BitWriter.new, toBits]
  rw [hempty, List.nil_append, List.append_assoc, List.append_assoc] at hcontent
  have hlen := hwf.content_length
  have hfits := hwf.fits
  rw [hcontent] at hlen
  simp only [List.length_append] at hlen
  have hremoved := removedBits_length removed 0
  have hrows := recordsBits_length rows 0
  obtain ⟨pad, hbits, hsize⟩ := hwf.bytes_bits
  refine ⟨⟨⟨pad, by rw [hbits, hcontent]; rfl⟩, by omega⟩, by omega, ?_⟩
  rw [toBits_length] at hlen
  omega

namespace ReplicationState
variable {R : Type}

/-- The states of the baseline an encode at `tick` works against. -/
def baseStates (s : ReplicationState R) (tick : Nat) : List EntityWireState :=
  ((s.usableBaseline tick).map SnapshotFrame.states).getD []

/-- What the frames of a history satisfy when every scene they come from does: id
order, fields that fit, and one kind for each id. -/
structure FrameOk (kindOf : Nat → Nat) (frame : SnapshotFrame) : Prop where
  tick : frame.tick < 2 ^ 32
  increasing : Increasing EntityWireState.id frame.states
  fits : ∀ a ∈ frame.states, a.Fits
  kind : ∀ a ∈ frame.states, a.kind = kindOf a.id

theorem usableBaseline_get {s : ReplicationState R} {tick : Nat} {frame : SnapshotFrame}
    (h : s.usableBaseline tick = some frame) : s.history.get s.lastAckedTick = some frame := by
  unfold usableBaseline baseline at h
  split at h
  · cases h
  · split at h
    · exact h
    · cases h

/-- The ids of the baseline that are out of view. -/
def removed (s : ReplicationState R) (scene : Scene R) : List Nat :=
  (mergeBaseline ((s.baseStates scene.tick).length + scene.current.length)
    (s.baseStates scene.tick) scene.current).2

theorem removed_eq {s : ReplicationState R} {scene : Scene R} (hscene : scene.WF)
    (hbase : Increasing EntityWireState.id (s.baseStates scene.tick)) :
    s.removed scene = removedIds (s.baseStates scene.tick) scene.current := by
  rw [removed, mergeBaseline_spec _ le_rfl hbase hscene.increasing]
  rfl

/-- The writer after the header and the removals. -/
def headerWriter (s : ReplicationState R) (scene : Scene R) (viewer lastInputSequence : Nat)
    (out : Nat → UInt8) (capacity : Nat) : BitWriter :=
  writeSnapshotHeader (BitWriter.new out (min capacity s.config.maxSnapshotBytes)) scene.tick
    ((s.usableBaseline scene.tick).map SnapshotFrame.tick) lastInputSequence viewer
    (s.removed scene)

/-- The packet an encode builds around a selection. -/
def packetWriter (s : ReplicationState R) (scene : Scene R) (viewer lastInputSequence : Nat)
    (out : Nat → UInt8) (capacity : Nat) (selected : List Nat) : BitWriter :=
  writeRecords ((s.headerWriter scene viewer lastInputSequence out capacity).writeU16
    (selected.length % 65536)) 0 (sentStates (s.baseStates scene.tick) scene.current selected)

/-- What the baseline an encode works against has to satisfy. -/
structure BaseOk (s : ReplicationState R) (scene : Scene R) : Prop where
  tick : ∀ frame, s.usableBaseline scene.tick = some frame → frame.tick < 2 ^ 32
  increasing : Increasing EntityWireState.id (s.baseStates scene.tick)
  ids : ∀ b ∈ s.baseStates scene.tick, b.id < 2 ^ 32
  kind : ∀ b ∈ s.baseStates scene.tick, ∀ c ∈ scene.current, b.id = c.id → b.kind = c.kind

/-- A packet that was built decodes, over the baseline it names, to the frame around the
selection. -/
theorem packet_decodes (s : ReplicationState R) {scene : Scene R} (hscene : scene.WF)
    (hbase : s.BaseOk scene) {viewer lastInputSequence : Nat} (hviewer : viewer < 2 ^ 32)
    (hinput : lastInputSequence < 2 ^ 32) (out : Nat → UInt8) {capacity : Nat}
    (hcapacity : min capacity s.config.maxSnapshotBytes ≤ 65535) {selected : List Nat}
    (hselected : selected.Nodup) (hin : ∀ i ∈ selected, i < scene.current.length)
    (hclean : (s.packetWriter scene viewer lastInputSequence out capacity selected).overflow =
      false) :
    let bytes := (s.packetWriter scene viewer lastInputSequence out capacity selected).bytes
    peekSnapshotHeader (BitReader.view bytes) bytes.length = some
      (scene.tick, ((s.usableBaseline scene.tick).map SnapshotFrame.tick).getD 0,
        (s.usableBaseline scene.tick).isNone) ∧
    decodeSnapshot (BitReader.view bytes) bytes.length (s.usableBaseline scene.tick) = some
      { tick := scene.tick
        baselineTick := ((s.usableBaseline scene.tick).map SnapshotFrame.tick).getD 0
        full := (s.usableBaseline scene.tick).isNone
        lastInputSequence, viewer
        removed := removedIds (s.baseStates scene.tick) scene.current
        states := frameStates (rowsOver (s.baseStates scene.tick) scene.current) selected } := by
  intro bytes
  have hcurrent := hscene.increasing
  have hlen : (sentStates (s.baseStates scene.tick) scene.current selected).length =
      selected.length := sentStates_length hin
  have hpacket := hclean
  unfold packetWriter headerWriter at hpacket
  rw [← hlen] at hpacket
  obtain ⟨hwritten, hremoved, hcount⟩ := written_isSnapshot out hcapacity scene.tick _
    lastInputSequence viewer _ _ hpacket
  rw [hlen] at hwritten
  have hbytes : IsSnapshot bytes _ := hwritten
  rw [removed_eq hscene hbase.increasing] at hbytes hremoved
  have hids : ∀ id ∈ removedIds (s.baseStates scene.tick) scene.current, id < 2 ^ 32 := by
    intro id hid
    obtain ⟨b, hb, rfl⟩ := List.mem_map.mp hid
    exact hbase.ids b (List.mem_of_mem_filter hb)
  have hfits : ∀ c ∈ scene.current, c.Fits := by
    intro c hc
    obtain ⟨x, hx, rfl⟩ := Scene.mem_current.mp hc
    exact hscene.fits x hx
  have hrows := sentStates_rowsOver hbase.increasing hcurrent hselected hfits hbase.kind
  constructor
  · have hpeek := peekSnapshotHeader_encoded hbytes hscene.tick
      (by simpa using hbase.tick) hinput hviewer
    rw [Option.isNone_map] at hpeek
    exact hpeek
  · rw [← applied_eq_frameStates hbase.increasing hcurrent hselected]
    exact decodeSnapshot_encoded hbytes hscene.tick (fun frame hf =>
      ⟨(SnapshotHistory.get_some (usableBaseline_get hf)).1, hbase.tick frame hf⟩) hinput hviewer
      hremoved hids hcount hbase.increasing hrows

/-- Each entity in view, in id order, with its baseline state. -/
def rows (s : ReplicationState R) (scene : Scene R) : List (Seen R × Option EntityWireState) :=
  (scene.seen.mergeSort fun a b => decide (a.state.id ≤ b.state.id)).map fun x =>
    (x, lookup EntityWireState.id (s.baseStates scene.tick) x.state.id)

theorem rows_length (s : ReplicationState R) (scene : Scene R) :
    (s.rows scene).length = scene.current.length := by
  simp [rows, Scene.current]

theorem current_eq_rows (s : ReplicationState R) (scene : Scene R) :
    scene.current = (s.rows scene).map fun row => row.1.state := by
  rw [rows, List.map_map, Scene.current]
  rfl

section
variable [Add R] [Mul R] [OfScientific R]

/-- The priorities of the entities in view, by the cursor over the carried credits. -/
def priorities (s : ReplicationState R) (scene : Scene R) (viewer : Nat) : List (Option R) :=
  candidatePriorities s.config viewer (s.rows scene) s.priority

theorem priorities_length (s : ReplicationState R) (scene : Scene R) (viewer : Nat) :
    (s.priorities scene viewer).length = scene.current.length := by
  rw [priorities, candidatePriorities_length, rows_length]

/-- The indices an encode selects. -/
def selection [LT R] (nth : NthElement R) (s : ReplicationState R) (scene : Scene R)
    (viewer lastInputSequence : Nat) (out : Nat → UInt8) (capacity : Nat) : List Nat :=
  select nth (candidates (s.priorities scene viewer))
    (fits (s.headerWriter scene viewer lastInputSequence out capacity).bitsRemaining)

theorem selection_index [LT R] (nth : NthElement R) (s : ReplicationState R) (scene : Scene R)
    (viewer lastInputSequence : Nat) (out : Nat → UInt8) (capacity : Nat) :
    (s.selection nth scene viewer lastInputSequence out capacity).Nodup ∧
      ∀ i ∈ s.selection nth scene viewer lastInputSequence out capacity,
        i < scene.current.length := by
  obtain ⟨hnodup, hindex⟩ := candidates_index (s.priorities scene viewer)
  obtain ⟨hselected, hsubset⟩ := select_subset nth (candidates (s.priorities scene viewer))
    (fits (s.headerWriter scene viewer lastInputSequence out capacity).bitsRemaining) hnodup
  refine ⟨hselected, fun i hi => ?_⟩
  obtain ⟨c, hc, rfl⟩ := List.mem_map.mp (hsubset i hi)
  rw [← s.priorities_length scene viewer]
  exact hindex c hc

end

variable [Add R] [Mul R] [Neg R] [LT R] [DecidableLT R] [OfScientific R]

/-- The encode over the plain baseline lookup. -/
theorem encode_eq (nth : NthElement R) (s : ReplicationState R) {scene : Scene R}
    (hscene : scene.WF) (hbase : Increasing EntityWireState.id (s.baseStates scene.tick))
    (viewer lastInputSequence : Nat) (out : Nat → UInt8) (capacity : Nat) :
    let selected := s.selection nth scene viewer lastInputSequence out capacity
    s.encode nth scene viewer lastInputSequence out capacity =
      if scene.hasViewer = false ∨
          (s.headerWriter scene viewer lastInputSequence out capacity).overflow = true ∨
          (s.packetWriter scene viewer lastInputSequence out capacity selected).overflow = true then
        (s, none)
      else
        ({ s with
            history := s.history.store scene.tick
              (frameStates (rowsOver (s.baseStates scene.tick) scene.current) selected)
            priority := nextPriority scene.current (s.priorities scene viewer) selected },
          some (s.packetWriter scene viewer lastInputSequence out capacity selected).bytes) := by
  intro selected
  have hmerge : mergeBaseline ((s.baseStates scene.tick).length + scene.current.length)
      (s.baseStates scene.tick) scene.current =
      (scene.current.map fun c => lookup EntityWireState.id (s.baseStates scene.tick) c.id,
        s.removed scene) :=
    Prod.ext (by rw [mergeBaseline_spec _ le_rfl hbase hscene.increasing]) rfl
  have hrows : scene.current.zip (scene.current.map fun c =>
      lookup EntityWireState.id (s.baseStates scene.tick) c.id) =
      rowsOver (s.baseStates scene.tick) scene.current := by
    rw [rowsOver, List.map_prod_left_eq_zip]
  have hseen : (scene.seen.mergeSort fun a b => decide (a.state.id ≤ b.state.id)).zip
      (scene.current.map fun c => lookup EntityWireState.id (s.baseStates scene.tick) c.id) =
      s.rows scene := by
    rw [rows, List.map_prod_left_eq_zip, Scene.current, List.map_map]
    rfl
  generalize (scene.current.map fun c =>
    lookup EntityWireState.id (s.baseStates scene.tick) c.id) = previous at hmerge hrows hseen
  unfold baseStates Scene.current at hmerge
  cases hviewer : scene.hasViewer with
  | false => simp [encode, hviewer]
  | true =>
    unfold encode
    rw [hviewer, if_neg (by simp)]
    simp only [hmerge, hseen]
    unfold Scene.current at hrows
    rw [hrows]
    by_cases hheader :
        (s.headerWriter scene viewer lastInputSequence out capacity).overflow = true
    · rw [if_pos (Or.inr (Or.inl hheader))]
      exact if_pos hheader
    · by_cases hpacket :
          (s.packetWriter scene viewer lastInputSequence out capacity selected).overflow = true
      · rw [if_pos (Or.inr (Or.inr hpacket))]
        exact (if_neg hheader).trans (if_pos hpacket)
      · rw [if_neg (not_or.mpr ⟨Bool.true_eq_false.mp, not_or.mpr ⟨hheader, hpacket⟩⟩)]
        exact (if_neg hheader).trans (if_neg hpacket)

/-- A failed encode changes nothing; a successful one sends a set of entities and
stores their frame. -/
theorem encode_cases (nth : NthElement R) (s : ReplicationState R) {scene : Scene R}
    (hscene : scene.WF) (hbase : Increasing EntityWireState.id (s.baseStates scene.tick))
    (viewer lastInputSequence : Nat) (out : Nat → UInt8) (capacity : Nat) :
    s.encode nth scene viewer lastInputSequence out capacity = (s, none) ∨
    ∃ selected priority, selected.Nodup ∧ (∀ i ∈ selected, i < scene.current.length) ∧
      (s.packetWriter scene viewer lastInputSequence out capacity selected).overflow = false ∧
      s.encode nth scene viewer lastInputSequence out capacity =
        ({ s with
            history := s.history.store scene.tick
              (frameStates (rowsOver (s.baseStates scene.tick) scene.current) selected)
            priority := priority },
          some (s.packetWriter scene viewer lastInputSequence out capacity selected).bytes) := by
  have heq := encode_eq nth s hscene hbase viewer lastInputSequence out capacity
  obtain ⟨hnodup, hindex⟩ := s.selection_index nth scene viewer lastInputSequence out capacity
  dsimp only at heq
  generalize s.selection nth scene viewer lastInputSequence out capacity = selected
    at heq hnodup hindex
  split at heq
  · exact Or.inl heq
  next hdone =>
    have hclean : (s.packetWriter scene viewer lastInputSequence out capacity selected).overflow =
        false := by
      simp only [not_or, Bool.not_eq_true] at hdone
      exact hdone.2.2
    exact Or.inr ⟨selected, _, hnodup, hindex, hclean, heq⟩

/-- The packet of a successful encode decodes, over the baseline it names, to the
frame that was stored. -/
theorem encode_spec (nth : NthElement R) (s : ReplicationState R) {scene : Scene R}
    (hscene : scene.WF) {kindOf : Nat → Nat}
    (hkinds : ∀ a ∈ scene.seen, a.state.kind = kindOf a.state.id)
    (hframes : ∀ t frame, s.history.get t = some frame → FrameOk kindOf frame)
    {viewer lastInputSequence : Nat} (hviewer : viewer < 2 ^ 32)
    (hinput : lastInputSequence < 2 ^ 32) (out : Nat → UInt8) {capacity : Nat}
    (hcapacity : capacity ≤ 65535) :
    s.encode nth scene viewer lastInputSequence out capacity = (s, none) ∨
    ∃ bytes states priority decoded,
      s.encode nth scene viewer lastInputSequence out capacity =
        ({ s with history := s.history.store scene.tick states, priority }, some bytes) ∧
      FrameOk kindOf { tick := scene.tick, valid := true, states } ∧
      peekSnapshotHeader (BitReader.view bytes) bytes.length = some
        (scene.tick, ((s.usableBaseline scene.tick).map SnapshotFrame.tick).getD 0,
          (s.usableBaseline scene.tick).isNone) ∧
      decodeSnapshot (BitReader.view bytes) bytes.length (s.usableBaseline scene.tick) =
        some decoded ∧ decoded.tick = scene.tick ∧ decoded.states = states := by
  have hvalid : ∀ frame ∈ s.usableBaseline scene.tick,
      frame.valid = true ∧ FrameOk kindOf frame := fun frame hframe =>
    ⟨(SnapshotHistory.get_some (usableBaseline_get hframe)).1,
      hframes _ frame (usableBaseline_get hframe)⟩
  have hbase : Increasing EntityWireState.id (s.baseStates scene.tick) ∧
      ∀ a ∈ s.baseStates scene.tick, a.Fits ∧ a.kind = kindOf a.id := by
    unfold baseStates
    cases hb : s.usableBaseline scene.tick with
    | none => exact ⟨List.Pairwise.nil, by simp⟩
    | some frame =>
      have hok := (hvalid frame hb).2
      exact ⟨hok.increasing, fun a ha => ⟨hok.fits a ha, hok.kind a ha⟩⟩
  obtain ⟨hinc, hbaseOk⟩ := hbase
  have hcur : ∀ a ∈ scene.current, a.Fits ∧ a.kind = kindOf a.id := by
    intro a ha
    obtain ⟨x, hx, rfl⟩ := Scene.mem_current.mp ha
    exact ⟨hscene.fits x hx, hkinds x hx⟩
  rcases encode_cases nth s hscene hinc viewer lastInputSequence out capacity with
    hfail | ⟨selected, priority, hselected, hin, hclean, heq⟩
  · exact Or.inl hfail
  · have hall : ∀ a ∈ frameStates (rowsOver (s.baseStates scene.tick) scene.current) selected,
        a.Fits ∧ a.kind = kindOf a.id := by
      intro a ha
      rcases mem_of_mem_frameStates hinc ha with ha | ha
      · exact hcur a ha
      · exact hbaseOk a ha
    have hok : s.BaseOk scene := ⟨fun frame hf => (hvalid frame hf).2.tick, hinc,
      fun b hb => (hbaseOk b hb).1.id,
      fun b hb c hc hid => by rw [(hbaseOk b hb).2, (hcur c hc).2, hid]⟩
    obtain ⟨hpeek, hdecode⟩ := s.packet_decodes hscene hok hviewer hinput out (by omega)
      hselected hin hclean
    exact Or.inr ⟨_, _, priority, _, heq, ⟨hscene.tick,
      increasing_frameStates hscene.increasing selected, fun a ha => (hall a ha).1,
      fun a ha => (hall a ha).2⟩, hpeek, hdecode, rfl, rfl⟩

end ReplicationState
end Morton.Proto
