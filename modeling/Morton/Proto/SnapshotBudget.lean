import Morton.Proto.Replication

/-! The byte budget of a snapshot: the number of records is fixed by a worst case for one
record, so that once the header and the count fit, no record overflows the writer. -/
namespace Morton.Proto
open Bits Keyed Net

theorem idBits_length_le (id previous : Nat) : (idBits id previous).length ≤ 40 := by
  rw [idBits, BitWriter.varintBits_length, BitWriter.varintBytes]
  split_ifs <;> omega

theorem deltaBits_length (delta : Int) : (deltaBits delta).length = 12 := by
  rw [deltaBits, toBits_length, deltaWidth]

theorem velocityBits_length (current : EntityWireState) : (velocityBits current).length = 24 := by
  rw [velocityBits, List.length_append, toBits_length, toBits_length, kVelocityBits]

/-- The short form of a position is shorter than two absolute coordinates. -/
theorem positionBits_length_le (current previous : EntityWireState) :
    (positionBits current previous).length ≤ 33 := by
  unfold positionBits
  split
  · simp only [List.length_cons, List.length_append, deltaBits_length]
    omega
  · simp only [List.length_cons, List.length_append, toBits_length]
    omega

theorem changeBits_length_le (current : EntityWireState) (previous : Option EntityWireState) :
    (changeBits current previous).length ≤ 61 := by
  cases previous with
  | none =>
    simp only [changeBits, List.length_cons, List.length_append, toBits_length,
      velocityBits_length, kKindBits]
    omega
  | some previous =>
    have hposition := positionBits_length_le current previous
    have hflagged : ∀ (flag : Bool) (bits : List Bool),
        (if flag then bits else []).length ≤ bits.length := by
      intro flag bits
      cases flag with
      | true => exact Nat.le_refl _
      | false => exact Nat.zero_le _
    have hmoved := hflagged (current.px != previous.px || current.py != previous.py)
      (positionBits current previous)
    have hturned := hflagged (current.vx != previous.vx || current.vy != previous.vy)
      (velocityBits current)
    rw [velocityBits_length] at hturned
    simp only [changeBits, List.length_cons, List.length_append]
    omega

/-- No record is longer than the worst case. -/
theorem recordsBits_length_le (rows : List (EntityWireState × Option EntityWireState))
    (previousId : Nat) :
    (recordsBits previousId rows).length ≤ kWorstCaseEntityBits * rows.length := by
  induction rows generalizing previousId with
  | nil => exact Nat.zero_le _
  | cons row rows ih =>
    have hrest := ih row.1.id
    have hid := idBits_length_le row.1.id previousId
    have hchange := changeBits_length_le row.1 row.2
    have hworst : kWorstCaseEntityBits = 101 := rfl
    rw [recordsBits, List.length_append, List.length_append, List.length_cons, Nat.mul_succ]
    omega

namespace ReplicationState
variable {R : Type}

/-- The records that fit, with their count, fit. -/
theorem fits_le {available : Nat} (h : kUpdateCountBits ≤ available) :
    kUpdateCountBits + kWorstCaseEntityBits * fits available ≤ available := by
  unfold fits
  split
  · exact h
  · have := Nat.mul_div_le (available - kUpdateCountBits) kWorstCaseEntityBits
    omega

theorem select_length_le [LT R] (nth : NthElement R) (cs : List (Nat × R)) (n : Nat) :
    (select nth cs n).length ≤ n := by
  unfold select
  split
  · rwa [List.length_map]
  · rw [List.length_mergeSort, List.length_map]
    exact List.length_take_le _ _

/-- What stands in a packet before the record count. -/
def headBits (s : ReplicationState R) (scene : Scene R) (viewer lastInputSequence : Nat) :
    List Bool :=
  headerBits scene.tick ((s.usableBaseline scene.tick).map SnapshotFrame.tick)
      lastInputSequence viewer ++
    (BitWriter.varintBits 4 ((s.removed scene).length % 2 ^ 32) ++
      removedBits 0 (s.removed scene))

/-- The most bytes a packet may have. -/
def budget (s : ReplicationState R) (capacity : Nat) : Nat :=
  min capacity s.config.maxSnapshotBytes

/-- The writer after the count and the records. -/
def bodyWriter (w : BitWriter) (count : Nat)
    (rows : List (EntityWireState × Option EntityWireState)) : BitWriter :=
  writeRecords (w.writeU16 (count % 65536)) 0 rows

/-- Where the head ends, when it fits. -/
theorem headerWriter_spec (s : ReplicationState R) (scene : Scene R)
    (viewer lastInputSequence : Nat) (out : Nat → UInt8) {capacity : Nat}
    (hbudget : s.budget capacity < 2 ^ 29 - 4) :
    let w := s.headerWriter scene viewer lastInputSequence out capacity
    let bits := s.headBits scene viewer lastInputSequence
    (w.overflow = false ↔ bits.length ≤ 8 * s.budget capacity) ∧
    (w.overflow = false → w.WF ∧ w.capacityBits = 8 * s.budget capacity ∧
      w.bitPos = bits.length ∧ w.bitsRemaining = 8 * s.budget capacity - bits.length) := by
  intro w bits
  have htakes := writeSnapshotHeader_takes scene.tick
    ((s.usableBaseline scene.tick).map SnapshotFrame.tick) lastInputSequence viewer
    (s.removed scene)
  have hnew := BitWriter.new_wf out (s.budget capacity)
  have hcap : (BitWriter.new out (s.budget capacity)).capacityBits = 8 * s.budget capacity := by
    simp only [BitWriter.new]
    omega
  have hstart : (BitWriter.new out (s.budget capacity)).bitPos = 0 := rfl
  have hiff := htakes.clean_iff hnew rfl (Or.inr (by omega))
  rw [hcap, hstart, Nat.zero_add] at hiff
  refine ⟨hiff, fun hclean => ?_⟩
  have hfits := hiff.mp hclean
  obtain ⟨hwf, -, hsame, hpos⟩ := htakes.position hnew rfl (by rw [hstart, hcap]; omega)
  rw [hstart, Nat.zero_add] at hpos
  rw [hcap] at hsame
  refine ⟨hwf, hsame, hpos, ?_⟩
  change (w.capacityBits + 2 ^ 32 - w.bitPos) % 2 ^ 32 = _
  rw [show w.capacityBits = _ from hsame, show w.bitPos = _ from hpos]
  change bits.length ≤ _ at hfits
  change (8 * s.budget capacity + 2 ^ 32 - bits.length) % 2 ^ 32 = _
  omega

/-- With no more rows than fit, only the count can overflow. -/
theorem bodyWriter_spec {w : BitWriter} (hw : w.WF) (hclean : w.overflow = false)
    (hroom : w.capacityBits + 32 < 2 ^ 32) (count : Nat)
    {rows : List (EntityWireState × Option EntityWireState)}
    (hrows : rows.length ≤ fits w.bitsRemaining) :
    ((bodyWriter w count rows).overflow = false ↔
      w.bitPos + kUpdateCountBits ≤ w.capacityBits) ∧
    8 * (bodyWriter w count rows).bytes.length ≤ w.capacityBits + 7 := by
  have htakes : BitWriter.Takes (fun w => bodyWriter w count rows) _ :=
    (BitWriter.writeU16_takes (count % 65536)).comp (writeRecords_takes rows 0)
  have hiff := htakes.clean_iff hw hclean (Or.inr hroom)
  rw [List.length_append, toBits_length] at hiff
  have hlength := recordsBits_length_le rows 0
  have hfits := hw.fits
  have hremaining : w.bitsRemaining = w.capacityBits - w.bitPos := by
    rw [BitWriter.bitsRemaining]
    omega
  have hcount : kUpdateCountBits = 16 := rfl
  constructor
  · rw [hiff]
    constructor
    · intro h
      omega
    · intro h
      have hselected := fits_le (show kUpdateCountBits ≤ w.bitsRemaining by omega)
      have hmul := Nat.mul_le_mul_left kWorstCaseEntityBits hrows
      omega
  · obtain ⟨hwf, hsame, -, -⟩ := htakes.1 w hw (Or.inr hroom)
    obtain ⟨-, -, hbytes⟩ := hwf.bytes_bits
    have hend := hwf.fits
    dsimp only at hsame hbytes hend
    omega

/-- The most bits in front of the record count when nothing is removed. -/
def kSteadyHeadBits : Nat := 145

/-- How many records a packet without removals has room for. -/
def steadyRoom (config : InterestConfig R) (capacity : Nat) : Nat :=
  fits (8 * min capacity config.maxSnapshotBytes - kSteadyHeadBits)

theorem fits_mono {a b : Nat} (h : a ≤ b) : fits a ≤ fits b := by
  unfold fits
  split
  · exact Nat.zero_le _
  · rw [if_neg (by omega)]
    exact Nat.div_le_div_right (by omega)

theorem varintBits_length_le (value : Nat) : (BitWriter.varintBits 4 value).length ≤ 40 := by
  rw [BitWriter.varintBits_length, BitWriter.varintBytes]
  split_ifs <;> omega

theorem headerBits_length_le (tick : Nat) (baseTick : Option Nat) (lastInputSequence viewer : Nat) :
    (headerBits tick baseTick lastInputSequence viewer).length ≤ 137 := by
  have hviewer := varintBits_length_le viewer
  cases baseTick with
  | none =>
    simp only [headerBits, List.length_append, List.length_cons, toBits_length, List.length_nil]
    omega
  | some baseTick =>
    simp only [headerBits, List.length_append, List.length_cons, toBits_length]
    omega

/-- A baseline of entities in view loses none of them. -/
theorem removedIds_eq_nil {base current : List EntityWireState}
    (h : ∀ b ∈ base, ∃ c ∈ current, c.id = b.id) : removedIds base current = [] := by
  rw [removedIds, List.map_eq_nil_iff, List.filter_eq_nil_iff]
  intro b hb hgone
  obtain ⟨c, hc, hid⟩ := h b hb
  exact (lookup_eq_none_iff.mp (Option.isNone_iff_eq_none.mp hgone)) c hc hid

variable [Add R] [Mul R] [Neg R] [LT R] [DecidableLT R] [OfScientific R]

/-- What an encode is, by how far its writer gets. -/
structure Budgeted (nth : NthElement R) (s : ReplicationState R) (scene : Scene R)
    (viewer lastInputSequence : Nat) (out : Nat → UInt8) (capacity : Nat) : Prop where
  bounded : ∀ bytes ∈ (s.encode nth scene viewer lastInputSequence out capacity).2,
    bytes.length ≤ s.budget capacity
  empty_iff : (s.encode nth scene viewer lastInputSequence out capacity).2 = none ↔
    scene.hasViewer = false ∨
      8 * s.budget capacity <
        (s.headBits scene viewer lastInputSequence).length + kUpdateCountBits
  unchanged : (s.encode nth scene viewer lastInputSequence out capacity).2 = none →
    (s.encode nth scene viewer lastInputSequence out capacity).1 = s

/-- The two places where an encode gives up, and what it gives otherwise. -/
theorem encode_shape (nth : NthElement R) (s : ReplicationState R) {scene : Scene R}
    (hviewer : scene.hasViewer = true) (viewer lastInputSequence : Nat) (out : Nat → UInt8)
    (capacity : Nat) :
    let w := s.headerWriter scene viewer lastInputSequence out capacity
    ∃ (count : Nat) (rows : List (EntityWireState × Option EntityWireState))
      (s' : ReplicationState R), rows.length ≤ fits w.bitsRemaining ∧
      s.encode nth scene viewer lastInputSequence out capacity =
        if w.overflow = true ∨ (bodyWriter w count rows).overflow = true then (s, none)
        else (s', some (bodyWriter w count rows).bytes) := by
  intro w
  let seen := scene.seen.mergeSort fun a b => decide (a.state.id ≤ b.state.id)
  let previous := (mergeBaseline ((s.baseStates scene.tick).length + scene.current.length)
    (s.baseStates scene.tick) scene.current).1
  let priorities := candidatePriorities s.config viewer (seen.zip previous) s.priority
  let selected := select nth (candidates priorities) (fits w.bitsRemaining)
  let rows := scene.current.zip previous
  refine ⟨selected.length, selected.filterMap fun index => rows[index]?,
    { s with
      history := s.history.store scene.tick (frameStates rows selected)
      priority := nextPriority scene.current priorities selected }, ?_, ?_⟩
  · exact (List.length_filterMap_le _ _).trans (select_length_le nth _ _)
  · unfold encode
    rw [hviewer, if_neg (by decide)]
    by_cases hhead : w.overflow = true
    · rw [if_pos (Or.inl hhead)]
      exact if_pos hhead
    · by_cases hbody : (bodyWriter w selected.length
          (selected.filterMap fun index => rows[index]?)).overflow = true
      · rw [if_pos (Or.inr hbody)]
        exact (if_neg hhead).trans (if_pos hbody)
      · rw [if_neg (not_or.mpr ⟨hhead, hbody⟩)]
        exact (if_neg hhead).trans (if_neg hbody)

/-- An encode that gives nothing, for one of the two reasons. -/
theorem Budgeted.of_none {nth : NthElement R} {s : ReplicationState R} {scene : Scene R}
    {viewer lastInputSequence : Nat} {out : Nat → UInt8} {capacity : Nat}
    (hnone : s.encode nth scene viewer lastInputSequence out capacity = (s, none))
    (hwhy : scene.hasViewer = false ∨ 8 * s.budget capacity <
      (s.headBits scene viewer lastInputSequence).length + kUpdateCountBits) :
    s.Budgeted nth scene viewer lastInputSequence out capacity := by
  constructor
  · rw [hnone]
    intro bytes hbytes
    cases hbytes
  · rw [hnone]
    exact iff_of_true rfl hwhy
  · rw [hnone]
    exact fun _ => rfl

/-- For every scene, history and configuration: an encode stays in its budget, gives nothing
only if the viewer is gone or what precedes the records does not fit, and then changes
nothing. -/
theorem encode_budgeted (nth : NthElement R) (s : ReplicationState R) (scene : Scene R)
    (viewer lastInputSequence : Nat) (out : Nat → UInt8) {capacity : Nat}
    (hbudget : s.budget capacity < 2 ^ 29 - 4) :
    s.Budgeted nth scene viewer lastInputSequence out capacity := by
  cases hviewer : scene.hasViewer with
  | false =>
    apply Budgeted.of_none
    · simp [encode, hviewer]
    · exact Or.inl hviewer
  | true =>
    obtain ⟨hhead, hplace⟩ := s.headerWriter_spec scene viewer lastInputSequence out hbudget
    obtain ⟨count, rows, s', hrows, hencode⟩ :=
      s.encode_shape nth hviewer viewer lastInputSequence out capacity
    generalize s.headerWriter scene viewer lastInputSequence out capacity = w
      at hhead hplace hrows hencode
    by_cases hoverflow : w.overflow = true
    · -- the head alone is too long
      apply Budgeted.of_none
      · rw [hencode, if_pos (Or.inl hoverflow)]
      · have hlong : ¬ w.overflow = false := by simp [hoverflow]
        rw [hhead] at hlong
        right
        omega
    · have hclean : w.overflow = false := by simpa using hoverflow
      obtain ⟨hwf, hcap, hpos, -⟩ := hplace hclean
      obtain ⟨hbody, hsize⟩ := bodyWriter_spec hwf hclean (by omega) count hrows
      rw [hpos, hcap] at hbody
      by_cases hfull : (bodyWriter w count rows).overflow = true
      · -- the records fit, so it is the count that does not
        apply Budgeted.of_none
        · rw [hencode, if_pos (Or.inr hfull)]
        · have hlong : ¬ (bodyWriter w count rows).overflow = false := by simp [hfull]
          rw [hbody] at hlong
          right
          omega
      · rw [if_neg (not_or.mpr ⟨hoverflow, hfull⟩)] at hencode
        have hshort := hbody.mp (by simpa using hfull)
        constructor
        · rw [hencode]
          intro bytes hbytes
          obtain rfl := Option.some.inj hbytes
          omega
        · rw [hencode]
          apply iff_of_false
          · simp
          · simp only [hviewer, Bool.true_eq_false, false_or]
            omega
        · rw [hencode]
          intro hnone
          cases hnone

/-- Over a baseline of entities in view a packet is built, with the steady room. -/
theorem encode_steady (nth : NthElement R) {s : ReplicationState R} {scene : Scene R}
    (hscene : scene.WF) (hviewer : scene.hasViewer = true)
    (hbase : Increasing EntityWireState.id (s.baseStates scene.tick))
    (hids : ∀ b ∈ s.baseStates scene.tick, ∃ c ∈ scene.current, c.id = b.id)
    (viewer lastInputSequence : Nat) (out : Nat → UInt8) {capacity : Nat}
    (hcapacity : capacity ≤ 65535) (hroom : 0 < steadyRoom s.config capacity) :
    (s.encode nth scene viewer lastInputSequence out capacity).2.isSome = true ∧
      steadyRoom s.config capacity ≤
        fits (s.headerWriter scene viewer lastInputSequence out capacity).bitsRemaining := by
  have hbudget : s.budget capacity < 2 ^ 29 - 4 := by
    have hmin := Nat.min_le_left capacity s.config.maxSnapshotBytes
    unfold budget
    omega
  have hhead : (s.headBits scene viewer lastInputSequence).length ≤ kSteadyHeadBits := by
    have hheader := headerBits_length_le scene.tick
      ((s.usableBaseline scene.tick).map SnapshotFrame.tick) lastInputSequence viewer
    have hnone : (BitWriter.varintBits 4 (0 % 2 ^ 32)).length = 8 := by
      rw [BitWriter.varintBits_length]
      rfl
    rw [headBits, removed_eq hscene hbase, removedIds_eq_nil hids, List.length_append,
      List.length_append, List.length_nil, hnone, removedBits, List.length_nil, kSteadyHeadBits]
    omega
  have hfits : kUpdateCountBits <
      8 * min capacity s.config.maxSnapshotBytes - kSteadyHeadBits := by
    by_contra hsmall
    rw [steadyRoom, fits, if_pos (not_lt.mp hsmall)] at hroom
    exact absurd hroom (Nat.lt_irrefl 0)
  have hcount : kUpdateCountBits = 16 := rfl
  have hmost : s.budget capacity = min capacity s.config.maxSnapshotBytes := rfl
  constructor
  · rw [← Option.ne_none_iff_isSome, Ne,
      (s.encode_budgeted nth scene viewer lastInputSequence out hbudget).empty_iff, hviewer]
    simp only [Bool.true_eq_false, false_or]
    omega
  · obtain ⟨hclean, hplace⟩ := s.headerWriter_spec scene viewer lastInputSequence out hbudget
    obtain ⟨-, -, -, hremaining⟩ := hplace (hclean.mpr (by omega))
    rw [hremaining]
    apply fits_mono
    omega

/-- A viewer alone in the world. -/
def loneViewer : Scene ℚ :=
  { tick := 1, hasViewer := true
    seen := [{ state := { id := 7, px := 5, py := 5 }, closeness := 1 }] }

/-- Its first snapshot needs 97 bits before the records: 13 bytes carry them, 12 do not. -/
theorem encode_budgeted_lone :
    let s : ReplicationState ℚ := configure { distancePriorityFalloff := 1 }
    (s.headBits loneViewer 7 0).length + kUpdateCountBits = 97 ∧
    (s.encode (NthElement.sorting ℚ) loneViewer 7 0 (fun _ => 0) 13).2 ≠ none ∧
    s.encode (NthElement.sorting ℚ) loneViewer 7 0 (fun _ => 0) 12 = (s, none) := by
  intro s
  have hsmall : s.budget 12 < 2 ^ 29 - 4 := by decide
  have hlarge : s.budget 13 < 2 ^ 29 - 4 := by decide
  have hno := s.encode_budgeted (NthElement.sorting ℚ) loneViewer 7 0 (fun _ => 0) hsmall
  have hyes := s.encode_budgeted (NthElement.sorting ℚ) loneViewer 7 0 (fun _ => 0) hlarge
  have hnone := hno.empty_iff.mpr (by decide +kernel)
  refine ⟨by decide +kernel, ?_, Prod.ext (hno.unchanged hnone) hnone⟩
  rw [ne_eq, hyes.empty_iff]
  decide +kernel

/-- With a buffer of 2^29 bytes the capacity in bits is 0 modulo 2^32: nothing is sent. -/
theorem huge_budget_refused :
    ¬ (configure { maxSnapshotBytes := 2 ^ 29, distancePriorityFalloff := 1 } :
      ReplicationState ℚ).Budgeted (NthElement.sorting ℚ) loneViewer 7 0 (fun _ => 0) (2 ^ 29) := by
  intro h
  have hwhy := h.empty_iff.mp (by decide +kernel)
  revert hwhy
  decide +kernel

end ReplicationState
end Morton.Proto
