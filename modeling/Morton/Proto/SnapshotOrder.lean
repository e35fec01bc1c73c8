import Morton.Base.LowerBound
import Morton.Proto.Snapshot

/-! `decode_snapshot` keeps states in id order whatever it reads, so its binary searches, and
those of whoever looks up an entity later, find what they look for. -/
namespace Morton.Proto
open LowerBound Keyed

/-- `SnapshotFrame::find`; `none` is the null pointer. -/
def SnapshotFrame.find (frame : SnapshotFrame) (id : Nat) : Option EntityWireState :=
  frame.states[lowerBound (fun state => decide (state.id < id)) frame.states]?.filter
    fun state => state.id == id

theorem SnapshotFrame.find_eq {frame : SnapshotFrame}
    (h : Increasing EntityWireState.id frame.states) (id : Nat) :
    frame.find id = lookup EntityWireState.id frame.states id :=
  find_lowerBound h id

/-- The update loop with its binary searches and its vector writes as they are. -/
def searchRecords : Nat → BitReader → Nat → List EntityWireState →
    Option (List EntityWireState × BitReader)
  | 0, r, _, states => some (states, r)
  | count+1, r, previousId, states =>
    let (id, r) := readEntityId r previousId
    let (isNew, r) := r.readBool
    if r.overflow then none
    else
      let place := lowerBound (fun state => decide (state.id < id)) states
      let existing := states[place]?.filter fun state => state.id == id
      let state := existing.getD { id }
      if !isNew && existing.isNone then none
      else
        let (state, r) := if isNew then readNew r state else readChange r state
        if r.overflow then none
        else
          searchRecords count r id
            (if existing.isSome then states.set place state
              else states.take place ++ state :: states.drop place)

theorem readNew_id (r : BitReader) (state : EntityWireState) : (readNew r state).1.id = state.id :=
  rfl

theorem readPosition_id (r : BitReader) (state : EntityWireState) :
    (readPosition r state).1.id = state.id := by
  rw [readPosition]
  dsimp only
  split <;> rfl

theorem readChange_id (r : BitReader) (state : EntityWireState) :
    (readChange r state).1.id = state.id := by
  have hposition : (if r.readBool.1 then readPosition r.readBool.2 state
      else (state, r.readBool.2)).1.id = state.id := by
    split
    · exact readPosition_id _ state
    · rfl
  unfold readChange
  dsimp only
  generalize (if r.readBool.1 then readPosition r.readBool.2 state
    else (state, r.readBool.2)) = moved at hposition ⊢
  split <;> exact hposition

/-- A record is read for the entity it names. -/
theorem record_id (r : BitReader) (isNew : Bool) (id : Nat) {existing : Option EntityWireState}
    (h : ∀ state ∈ existing, state.id = id) :
    (if isNew then readNew r (existing.getD { id }) else readChange r (existing.getD { id })).1.id =
      id := by
  have hstate : (existing.getD { id }).id = id := by
    cases existing with
    | none => rfl
    | some state => exact h state rfl
  cases isNew with
  | true => exact (readNew_id r _).trans hstate
  | false => exact (readChange_id r _).trans hstate

/-- Ids may repeat or fall: each record is put where its id belongs. -/
theorem readRecords_increasing {count previousId : Nat} {r r' : BitReader}
    {states states' : List EntityWireState} (hstates : Increasing EntityWireState.id states)
    (h : readRecords count r previousId states = some (states', r')) :
    Increasing EntityWireState.id states' := by
  induction count generalizing r previousId states with
  | zero =>
    simp only [readRecords, Option.some.injEq, Prod.mk.injEq] at h
    exact h.1 ▸ hstates
  | succ count ih =>
    simp only [readRecords] at h
    generalize (readEntityId r previousId) = first at h
    generalize (if first.2.readBool.1 then _ else _ : EntityWireState × BitReader) = second at h
    split at h
    · cases h
    · split at h
      · cases h
      · split at h
        · cases h
        · exact ih (increasing_upsert hstates _) h

/-- On states in id order every search of the loop finds its entity. -/
theorem searchRecords_eq {states : List EntityWireState}
    (h : Increasing EntityWireState.id states) (count previousId : Nat) (r : BitReader) :
    searchRecords count r previousId states = readRecords count r previousId states := by
  induction count generalizing r previousId states with
  | zero => rfl
  | succ count ih =>
    simp only [searchRecords, readRecords]
    generalize (readEntityId r previousId) = first
    obtain ⟨id, r⟩ := first
    dsimp only
    rw [← getElem?_lowerBound h id]
    have hfound : ∀ state ∈ states[lowerBound (fun state => decide (state.id < id)) states]?.filter
        (fun state => state.id == id), state.id = id := by
      intro state hstate
      simpa using (Option.mem_filter_iff.mp hstate).2
    have hid := record_id r.readBool.2 r.readBool.1 id hfound
    generalize (if r.readBool.1 then _ else _ : EntityWireState × BitReader) = second at hid ⊢
    obtain ⟨state, r'⟩ := second
    dsimp only at hid ⊢
    subst hid
    rw [set_lowerBound h state]
    split
    · rfl
    · split
      · rfl
      · split
        · rfl
        · exact ih (increasing_upsert h state) _ _

theorem decodeBody_increasing {r : BitReader} {baseStates states : List EntityWireState}
    {removed : List Nat} (hbase : Increasing EntityWireState.id baseStates)
    (h : decodeBody r baseStates = some (states, removed)) :
    Increasing EntityWireState.id states := by
  unfold decodeBody at h
  dsimp only at h
  split at h
  · cases h
  · split at h
    · cases h
    · split at h
      · cases h
      · obtain ⟨result, hrecords, heq⟩ := Option.map_eq_some_iff.mp h
        cases heq
        exact readRecords_increasing (increasing_filter hbase _) hrecords

theorem decodeSnapshot_increasing {data : Nat → UInt8} {size : Nat} {baseline : Option SnapshotFrame}
    {snapshot : DecodedSnapshot}
    (hbase : ∀ frame ∈ baseline, Increasing EntityWireState.id frame.states)
    (h : decodeSnapshot data size baseline = some snapshot) :
    Increasing EntityWireState.id snapshot.states := by
  have hbaseStates : ∀ full : Bool, Increasing EntityWireState.id
      (if full then [] else (baseline.map SnapshotFrame.states).getD []) := by
    intro full
    cases full with
    | true => exact List.Pairwise.nil
    | false =>
      cases hbaseline : baseline with
      | none => exact List.Pairwise.nil
      | some frame => exact hbase frame hbaseline
  unfold decodeSnapshot at h
  dsimp only at h
  generalize (if (BitReader.new data size).readU32.2.readBool.1 then
    (0, (BitReader.new data size).readU32.2.readBool.2)
    else (BitReader.new data size).readU32.2.readBool.2.readU32) = rest at h
  split at h
  · cases h
  · split at h
    · cases h
    · obtain ⟨result, hbody, heq⟩ := Option.map_eq_some_iff.mp h
      cases heq
      exact decodeBody_increasing (hbaseStates _) hbody

end Morton.Proto
