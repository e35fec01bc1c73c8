import Mathlib.Data.Finset.Card
import Morton.Proto.Fairness

/-! What one packet takes off the entities the baseline does not have as they are: the
selected ones, as many as fit. With none left the stored frame is what is in view. -/
namespace Morton.Proto
open Bits Keyed Net

theorem EntityWireState.sameStateAs_self (a : EntityWireState) : a.sameStateAs a = true := by
  simp [sameStateAs]

namespace ReplicationState
variable {R : Type}

/-- The entities in view that the baseline does not have as they are, by index. -/
def stale (base current : List EntityWireState) : Finset Nat :=
  (Finset.range current.length).filter fun i =>
    (current[i]?).any fun c => !(lookup EntityWireState.id base c.id).any c.sameStateAs

section
variable {base current : List EntityWireState} {selected : List Nat}

theorem mem_stale {i : Nat} : i ∈ stale base current ↔
    ∃ c, current[i]? = some c ∧
      (lookup EntityWireState.id base c.id).any c.sameStateAs = false := by
  rw [stale, Finset.mem_filter, Finset.mem_range]
  constructor
  · rintro ⟨hi, hany⟩
    rw [List.getElem?_eq_getElem hi, Option.any_some, Bool.not_eq_true'] at hany
    exact ⟨current[i], List.getElem?_eq_getElem hi, hany⟩
  · rintro ⟨c, hc, hchanged⟩
    obtain ⟨hi, -⟩ := List.getElem?_eq_some_iff.mp hc
    refine ⟨hi, ?_⟩
    rw [hc, Option.any_some, hchanged]
    rfl

theorem stale_card_le : (stale base current).card ≤ current.length := by
  have hsub : stale base current ⊆ Finset.range current.length := Finset.filter_subset _ _
  have hcard := Finset.card_le_card hsub
  rwa [Finset.card_range] at hcard

/-- The stored frame has the new state of what was sent, the old one of the rest. -/
theorem lookup_frameStates (hcurrent : Increasing EntityWireState.id current) {i : Nat}
    {c : EntityWireState} (hc : current[i]? = some c) :
    lookup EntityWireState.id (frameStates (rowsOver base current) selected) c.id =
      if i ∈ selected then some c else lookup EntityWireState.id base c.id := by
  have hrow : (rowsOver base current)[i]? = some (c, lookup EntityWireState.id base c.id) :=
    rowsOver_getElem?.mpr ⟨hc, rfl⟩
  -- an entry of the frame with this id comes from this row
  have hone : ∀ a, a.id = c.id → (a ∈ frameStates (rowsOver base current) selected ↔
      if i ∈ selected then c = a else lookup EntityWireState.id base c.id = some a) := by
    intro a hid
    rw [mem_frameStates]
    constructor
    · rintro ⟨j, row, hrow', hout⟩
      obtain ⟨hget, hprev⟩ := rowsOver_getElem?.mp hrow'
      have hsame : row.1.id = a.id := by
        split at hout
        · rw [hout]
        · rw [hprev] at hout
          exact (lookup_key hout).symm
      obtain rfl := index_unique hcurrent hget hc (hsame.trans hid)
      rw [hrow, Option.some.injEq] at hrow'
      rwa [← hrow'] at hout
    · intro hout
      exact ⟨i, _, hrow, hout⟩
  apply Option.ext
  intro a
  rw [lookup_eq_some_iff (increasing_frameStates hcurrent selected)]
  constructor
  · rintro ⟨hmem, hid⟩
    have hout := (hone a hid).mp hmem
    split at hout
    next hi => rw [if_pos hi, hout]
    next hi => rw [if_neg hi, hout]
  · intro hout
    have hid : a.id = c.id := by
      split at hout
      · rw [← Option.some.inj hout]
      · exact lookup_key hout
    refine ⟨(hone a hid).mpr ?_, hid⟩
    split at hout
    next hi => rw [if_pos hi, Option.some.inj hout]
    next hi => rw [if_neg hi, hout]

/-- What was sent is no longer stale. -/
theorem stale_frameStates (hcurrent : Increasing EntityWireState.id current) :
    stale (frameStates (rowsOver base current) selected) current =
      stale base current \ selected.toFinset := by
  ext i
  rw [Finset.mem_sdiff, List.mem_toFinset, mem_stale, mem_stale]
  constructor
  · rintro ⟨c, hc, hchanged⟩
    rw [lookup_frameStates hcurrent hc] at hchanged
    split at hchanged
    · rw [Option.any_some, c.sameStateAs_self] at hchanged
      cases hchanged
    next hi => exact ⟨⟨c, hc, hchanged⟩, hi⟩
  · rintro ⟨⟨c, hc, hchanged⟩, hi⟩
    refine ⟨c, hc, ?_⟩
    rwa [lookup_frameStates hcurrent hc, if_neg hi]

/-- A stored frame has nothing that is out of view. -/
theorem id_of_mem_frameStates {a : EntityWireState}
    (h : a ∈ frameStates (rowsOver base current) selected) : ∃ c ∈ current, c.id = a.id := by
  obtain ⟨i, row, hrow, hout⟩ := mem_frameStates.mp h
  obtain ⟨hget, hprev⟩ := rowsOver_getElem?.mp hrow
  refine ⟨row.1, List.mem_of_getElem? hget, ?_⟩
  split at hout
  · rw [hout]
  · rw [hprev] at hout
    exact (lookup_key hout).symm

/-- States of entities in view with nothing stale among them are what is in view. -/
theorem eq_current_of_stale {states : List EntityWireState}
    (hstates : Increasing EntityWireState.id states)
    (hcurrent : Increasing EntityWireState.id current)
    (hids : ∀ a ∈ states, ∃ c ∈ current, c.id = a.id) (h : stale states current = ∅) :
    states = current := by
  have hheld : ∀ c ∈ current, lookup EntityWireState.id states c.id = some c := by
    intro c hc
    obtain ⟨i, hi⟩ := List.getElem?_of_mem hc
    have hfresh : i ∉ stale states current := by
      rw [h]
      exact Finset.notMem_empty i
    cases hlookup : lookup EntityWireState.id states c.id with
    | none =>
      refine absurd (mem_stale.mpr ⟨c, hi, ?_⟩) hfresh
      rw [hlookup]
      rfl
    | some b =>
      cases hsame : c.sameStateAs b with
      | false =>
        refine absurd (mem_stale.mpr ⟨c, hi, ?_⟩) hfresh
        rw [hlookup]
        exact hsame
      | true => rw [EntityWireState.eq_of_sameStateAs (lookup_key hlookup) hsame]
  refine ext_mem hstates hcurrent fun a => ⟨fun ha => ?_, fun ha => ?_⟩
  · obtain ⟨c, hc, hid⟩ := hids a ha
    have hsame := ((lookup_eq_some_iff hstates).mpr ⟨ha, rfl⟩).symm.trans (hid ▸ hheld c hc)
    rwa [Option.some.inj hsame]
  · exact ((lookup_eq_some_iff hstates).mp (hheld a ha)).1

end

theorem rows_lookup {s : ReplicationState R} {scene : Scene R}
    {row : Seen R × Option EntityWireState} (h : row ∈ s.rows scene) :
    row.2 = lookup EntityWireState.id (s.baseStates scene.tick) row.1.state.id := by
  obtain ⟨x, -, rfl⟩ := List.mem_map.mp h
  rfl

theorem select_length [LT R] (nth : NthElement R) (cs : List (Nat × R)) (n : Nat) :
    (select nth cs n).length = min n cs.length := by
  unfold select
  split
  next h => rw [List.length_map, Nat.min_eq_right h]
  next h =>
    rw [List.length_mergeSort, List.length_map, List.length_take, (nth.perm cs n).length_eq]

section
variable [Add R] [Mul R] [OfScientific R]

variable (s : ReplicationState R) (scene : Scene R) (viewer : Nat)

/-- The candidates are the stale entities. -/
theorem mem_candidates_iff_stale {i : Nat} :
    i ∈ (candidates (s.priorities scene viewer)).map Prod.fst ↔
      i ∈ stale (s.baseStates scene.tick) scene.current := by
  have hsome := congrArg (fun flags => flags[i]?)
    (candidatePriorities_isSome s.config viewer (s.rows scene) s.priority)
  simp only [List.getElem?_map] at hsome
  rw [mem_stale, current_eq_rows s scene, List.mem_map, List.getElem?_map]
  constructor
  · rintro ⟨⟨j, p⟩, hmem, rfl⟩
    rw [mem_candidates, priorities] at hmem
    rw [hmem] at hsome
    obtain ⟨row, hrow, hchanged⟩ := Option.map_eq_some_iff.mp hsome.symm
    refine ⟨row.1.state, by rw [hrow]; rfl, ?_⟩
    rw [Option.isSome_some, Bool.not_eq_true'] at hchanged
    rwa [← rows_lookup (List.mem_of_getElem? hrow)]
  · rintro ⟨c, hc, hchanged⟩
    obtain ⟨row, hrow, rfl⟩ := Option.map_eq_some_iff.mp hc
    rw [hrow, Option.map_some, rows_lookup (List.mem_of_getElem? hrow), hchanged] at hsome
    obtain ⟨p, hp, hpsome⟩ := Option.map_eq_some_iff.mp hsome
    obtain ⟨value, rfl⟩ := Option.isSome_iff_exists.mp hpsome
    exact ⟨(i, value), mem_candidates.mpr hp, rfl⟩

theorem candidates_length : (candidates (s.priorities scene viewer)).length =
    (stale (s.baseStates scene.tick) scene.current).card := by
  have heq : ((candidates (s.priorities scene viewer)).map Prod.fst).toFinset =
      stale (s.baseStates scene.tick) scene.current := by
    ext i
    rw [List.mem_toFinset, mem_candidates_iff_stale]
  rw [← heq, List.toFinset_card_of_nodup (candidates_index _).1, List.length_map]

/-- The states of the frame an encode stores. -/
def sentFrame [LT R] (nth : NthElement R) (s : ReplicationState R) (scene : Scene R)
    (viewer lastInputSequence : Nat) (out : Nat → UInt8) (capacity : Nat) : List EntityWireState :=
  frameStates (rowsOver (s.baseStates scene.tick) scene.current)
    (s.selection nth scene viewer lastInputSequence out capacity)

/-- A packet takes as many stale entities along as fit. -/
theorem stale_sentFrame [LT R] (nth : NthElement R) (hscene : scene.WF) (lastInputSequence : Nat)
    (out : Nat → UInt8) (capacity : Nat) :
    (stale (sentFrame nth s scene viewer lastInputSequence out capacity) scene.current).card =
      (stale (s.baseStates scene.tick) scene.current).card -
        fits (s.headerWriter scene viewer lastInputSequence out capacity).bitsRemaining := by
  obtain ⟨hnodup, hcandidate⟩ := select_subset nth (candidates (s.priorities scene viewer))
    (fits (s.headerWriter scene viewer lastInputSequence out capacity).bitsRemaining)
    (candidates_index _).1
  have hlength := select_length nth (candidates (s.priorities scene viewer))
    (fits (s.headerWriter scene viewer lastInputSequence out capacity).bitsRemaining)
  rw [sentFrame]
  change (s.selection nth scene viewer lastInputSequence out capacity).Nodup at hnodup
  change ∀ i ∈ s.selection nth scene viewer lastInputSequence out capacity, _ at hcandidate
  change (s.selection nth scene viewer lastInputSequence out capacity).length = _ at hlength
  generalize s.selection nth scene viewer lastInputSequence out capacity = selected
    at hnodup hcandidate hlength ⊢
  have hsub : selected.toFinset ⊆ stale (s.baseStates scene.tick) scene.current := by
    intro i hi
    exact (s.mem_candidates_iff_stale scene viewer).mp (hcandidate i (List.mem_toFinset.mp hi))
  rw [stale_frameStates hscene.increasing, Finset.card_sdiff_of_subset hsub,
    List.toFinset_card_of_nodup hnodup, hlength, candidates_length]
  omega

end

end ReplicationState
end Morton.Proto
