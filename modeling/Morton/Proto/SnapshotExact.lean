import Morton.Proto.Selection

/-! The snapshot codec is exact: what `decode_snapshot` makes of a packet over the baseline
of the encoder is the frame the encoder stored, entity by entity. -/
namespace Morton.Proto
open Keyed Net

section
variable {base current : List EntityWireState} {selected : List Nat}

/-- A selected entity stands in the frame as it is now, any other as the baseline has it,
if it does. -/
theorem lookup_frameStates (hcurrent : Increasing EntityWireState.id current) {i : Nat} {c : EntityWireState}
    (hi : current[i]? = some c) :
    lookup EntityWireState.id
        (ReplicationState.frameStates (rowsOver base current) selected) c.id =
      if i ∈ selected then some c else lookup EntityWireState.id base c.id := by
  have hframe : Increasing EntityWireState.id
      (ReplicationState.frameStates (rowsOver base current) selected) :=
    increasing_frameStates hcurrent selected
  refine Option.ext fun a => ?_
  rw [lookup_eq_some_iff hframe, mem_frameStates]
  have hrow : ∀ j row, (rowsOver base current)[j]? = some row → row.1.id = c.id →
      j = i ∧ row = (c, lookup EntityWireState.id base c.id) := by
    intro j row hj hid
    obtain ⟨hget, hprevious⟩ := rowsOver_getElem?.mp hj
    obtain rfl := index_unique hcurrent hget hi hid
    have hc : row.1 = c := Option.some.inj (hget.symm.trans hi)
    exact ⟨rfl, Prod.ext hc (hc ▸ hprevious)⟩
  constructor
  · rintro ⟨⟨j, row, hj, hout⟩, hid⟩
    have hkey : row.1.id = c.id := by
      split at hout
      · rw [hout, hid]
      · rw [(rowsOver_getElem?.mp hj).2] at hout
        rw [← hid, ← lookup_key hout]
    obtain ⟨rfl, rfl⟩ := hrow j row hj hkey
    split at hout
    next h => exact (if_pos h).trans (congrArg some hout)
    next h => exact (if_neg h).trans hout
  · intro h
    refine ⟨⟨i, (c, lookup EntityWireState.id base c.id), rowsOver_getElem?.mpr ⟨hi, rfl⟩, ?_⟩, ?_⟩
    · split at h
      next hsel => rw [if_pos hsel, Option.some.inj h]
      next hsel => rw [if_neg hsel, h]
    · split at h
      · rw [Option.some.inj h]
      · exact lookup_key h

/-- Nothing else stands in the frame. -/
theorem lookup_frameStates_none {id : Nat} (h : ∀ c ∈ current, c.id ≠ id) :
    lookup EntityWireState.id
      (ReplicationState.frameStates (rowsOver base current) selected) id = none := by
  rw [lookup_eq_none_iff]
  intro a ha hid
  obtain ⟨i, row, hrow, hout⟩ := mem_frameStates.mp ha
  obtain ⟨hget, hprevious⟩ := rowsOver_getElem?.mp hrow
  refine h row.1 (List.mem_of_getElem? hget) ?_
  split at hout
  · rw [hout, hid]
  · rw [hprevious] at hout
    rw [← hid, ← lookup_key hout]

end

/-- A full snapshot is decoded without the baseline. -/
theorem decodeSnapshot_full {data : Nat → UInt8} {size : Nat} {snapshot : DecodedSnapshot}
    (h : decodeSnapshot data size none = some snapshot) (given : Option SnapshotFrame) :
    decodeSnapshot data size given = some snapshot := by
  unfold decodeSnapshot at h ⊢
  dsimp only at h ⊢
  cases hfull : (BitReader.new data size).readU32.2.readBool.1 with
  | false =>
    rw [hfull] at h
    simp at h
  | true =>
    rw [hfull] at h
    simpa using h

namespace ReplicationState
variable {R : Type} [Add R] [Mul R] [Neg R] [LT R] [DecidableLT R] [OfScientific R]

omit [Add R] [Mul R] [Neg R] [LT R] [DecidableLT R] [OfScientific R] in
/-- Before the first acknowledgement there is no baseline. -/
theorem baseOk_configure (config : InterestConfig R) (scene : Scene R) :
    (configure config).BaseOk scene := by
  have hnone : (configure config).usableBaseline scene.tick = none := by
    simp [usableBaseline, baseline, configure]
  have hstates : (configure config).baseStates scene.tick = [] := by
    rw [baseStates, hnone]
    rfl
  refine ⟨by simp [hnone], ?_, by simp [hstates], by simp [hstates]⟩
  rw [hstates]
  exact List.Pairwise.nil

/-- What the viewer was shown at tick 4. -/
def shown : SnapshotFrame :=
  { tick := 4, valid := true, states := [{ id := 1, px := 9 }, { id := 2, px := 4 }, { id := 3 }] }

/-- The viewer has acknowledged it. -/
def showing : ReplicationState ℚ :=
  let s := configure (R := ℚ) { distancePriorityFalloff := 1 }
  { s with history := s.history.store 4 shown.states, lastAckedTick := 4, hasAcked := true }

/-- The viewer and entity 2 have moved, 3 has gone and 4 has come. -/
def changed : Scene ℚ :=
  { tick := 5, hasViewer := true
    seen := [⟨{ id := 1, px := 12 }, 1⟩, ⟨{ id := 2, px := 5 }, 1⟩, ⟨{ id := 4 }, 1⟩] }

theorem changed_wf : changed.WF := by decide

theorem changed_sorted : (changed.seen.mergeSort fun a b => decide (a.state.id ≤ b.state.id)) =
    changed.seen :=
  List.mergeSort_of_pairwise (by simp [changed])

theorem changed_current : changed.current =
    [{ id := 1, px := 12 }, { id := 2, px := 5 }, { id := 4 }] := by
  rw [Scene.current, changed_sorted]
  rfl

theorem showing_baseOk : showing.BaseOk changed where
  tick frame hframe := by
    obtain rfl : shown = frame := Option.some.inj hframe
    decide
  increasing := by decide
  ids := by decide
  kind := by
    rw [changed_current]
    decide

/-- There is room for the viewer only. -/
theorem changed_selection : showing.selection (.sorting ℚ) changed 1 7 (fun _ => 0) 35 = [0] := by
  have hcandidates : candidates (showing.priorities changed 1) =
      [(0, 1000001.01), (1, 1.01), (2, 1.01)] := by
    simp only [priorities, rows, changed_sorted]
    decide +kernel
  have hroom : fits (showing.headerWriter changed 1 7 (fun _ => 0) 35).bitsRemaining = 1 := by
    simp only [headerWriter, removed, changed_current]
    decide +kernel
  have hsorted : ([(0, 1000001.01), (1, 1.01), (2, 1.01)] : List (Nat × ℚ)).mergeSort
      (fun a b => decide (b.2 ≤ a.2)) = [(0, 1000001.01), (1, 1.01), (2, 1.01)] :=
    List.mergeSort_of_pairwise (by norm_num)
  rw [selection, hcandidates, hroom, select, if_neg (by decide)]
  change ((((List.mergeSort _ _).take 1).map Prod.fst).mergeSort _) = _
  rw [hsorted]
  exact List.mergeSort_singleton _

end ReplicationState
end Morton.Proto
