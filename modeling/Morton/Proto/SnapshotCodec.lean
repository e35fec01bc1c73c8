import Morton.Proto.Snapshot
import Morton.Proto.BitStreamRoom

/-! The bits of a snapshot and the round trip: what `encode` writes for a set of rows,
`decode_snapshot` reads back over the same baseline. -/
namespace Morton.Proto
open Bits

/-- The fields are in the range the wire has room for. -/
structure EntityWireState.Fits (s : EntityWireState) : Prop where
  id : s.id < 2 ^ 32
  px : s.px < 65536
  py : s.py < 65536
  vx : s.vx < 2 ^ kVelocityBits
  vy : s.vy < 2 ^ kVelocityBits
  kind : s.kind < 2 ^ kKindBits

instance EntityWireState.decidableFits (s : EntityWireState) : Decidable s.Fits :=
  decidable_of_iff (s.id < 2 ^ 32 ∧ s.px < 65536 ∧ s.py < 65536 ∧ s.vx < 2 ^ kVelocityBits ∧
      s.vy < 2 ^ kVelocityBits ∧ s.kind < 2 ^ kKindBits)
    ⟨fun ⟨hid, hpx, hpy, hvx, hvy, hkind⟩ => ⟨hid, hpx, hpy, hvx, hvy, hkind⟩,
      fun h => ⟨h.id, h.px, h.py, h.vx, h.vy, h.kind⟩⟩

def idBits (id previous : Nat) : List Bool :=
  BitWriter.varintBits 4 ((id + 2 ^ 32 - previous) % 2 ^ 32)

def smallDelta (current previous : EntityWireState) : Bool :=
  let dx : Int := current.px - previous.px
  let dy : Int := current.py - previous.py
  decide (kSmallDeltaMin ≤ dx) && decide (dx ≤ kSmallDeltaMax) &&
    decide (kSmallDeltaMin ≤ dy) && decide (dy ≤ kSmallDeltaMax)

def deltaBits (delta : Int) : List Bool :=
  toBits (BitWriter.bitsRequired kSmallDeltaMin kSmallDeltaMax) (delta - kSmallDeltaMin).toNat

def positionBits (current previous : EntityWireState) : List Bool :=
  smallDelta current previous ::
    if smallDelta current previous then
      deltaBits (current.px - previous.px) ++ deltaBits (current.py - previous.py)
    else toBits 16 current.px ++ toBits 16 current.py

def velocityBits (current : EntityWireState) : List Bool :=
  toBits kVelocityBits current.vx ++ toBits kVelocityBits current.vy

def changeBits (current : EntityWireState) : Option EntityWireState → List Bool
  | none => true :: (toBits 16 current.px ++ (toBits 16 current.py ++
      (velocityBits current ++ toBits kKindBits current.kind)))
  | some previous =>
    let positionChanged := current.px != previous.px || current.py != previous.py
    let velocityChanged := current.vx != previous.vx || current.vy != previous.vy
    false :: positionChanged :: ((if positionChanged then positionBits current previous else []) ++
      velocityChanged :: if velocityChanged then velocityBits current else [])

def recordsBits (previousId : Nat) :
    List (EntityWireState × Option EntityWireState) → List Bool
  | [] => []
  | (current, previous) :: rest =>
    idBits current.id previousId ++ (changeBits current previous ++ recordsBits current.id rest)

def removedBits (previousId : Nat) : List Nat → List Bool
  | [] => []
  | id :: rest => idBits id previousId ++ removedBits id rest

def headerBits (tick : Nat) (baseTick : Option Nat) (lastInputSequence viewer : Nat) :
    List Bool :=
  toBits 32 tick ++ baseTick.isNone :: ((match baseTick with
    | some baseTick => toBits 32 baseTick
    | none => []) ++ (toBits 32 lastInputSequence ++ BitWriter.varintBits 4 viewer))

section Writing

theorem writeEntityId_takes (id previous : Nat) :
    BitWriter.Takes (fun w => writeEntityId w id previous) (idBits id previous) :=
  BitWriter.writeVarint_takes _

theorem deltaWidth : BitWriter.bitsRequired kSmallDeltaMin kSmallDeltaMax = 12 := by decide

theorem writeDelta_takes {delta : Int} (hmin : kSmallDeltaMin ≤ delta)
    (hmax : delta ≤ kSmallDeltaMax) :
    BitWriter.Takes (fun w => w.writeRanged delta kSmallDeltaMin kSmallDeltaMax)
      (deltaBits delta) :=
  BitWriter.writeRanged_takes hmin hmax (by decide) (by decide)

theorem smallDelta_bounds {current previous : EntityWireState}
    (h : smallDelta current previous = true) :
    (kSmallDeltaMin ≤ (current.px : Int) - previous.px ∧
      (current.px : Int) - previous.px ≤ kSmallDeltaMax) ∧
    kSmallDeltaMin ≤ (current.py : Int) - previous.py ∧
      (current.py : Int) - previous.py ≤ kSmallDeltaMax := by
  simpa [smallDelta, and_assoc] using h

theorem writePosition_takes (current previous : EntityWireState) :
    BitWriter.Takes (fun w => writePosition w current previous) (positionBits current previous) := by
  unfold positionBits
  cases hsmall : smallDelta current previous with
  | true =>
    obtain ⟨hx, hy⟩ := smallDelta_bounds hsmall
    have h := (BitWriter.writeBool_takes true).comp
      ((writeDelta_takes hx.1 hx.2).comp (writeDelta_takes hy.1 hy.2))
    have heq : (fun w => writePosition w current previous) = fun w =>
        ((w.writeBool true).writeRanged (current.px - previous.px) kSmallDeltaMin
          kSmallDeltaMax).writeRanged (current.py - previous.py) kSmallDeltaMin kSmallDeltaMax := by
      funext w
      unfold smallDelta at hsmall
      simp only [writePosition, hsmall, if_true]
    rw [heq]
    exact h
  | false =>
    have h := (BitWriter.writeBool_takes false).comp
      ((BitWriter.writeU16_takes current.px).comp (BitWriter.writeU16_takes current.py))
    have heq : (fun w => writePosition w current previous) = fun w =>
        ((w.writeBool false).writeU16 current.px).writeU16 current.py := by
      funext w
      unfold smallDelta at hsmall
      simp only [writePosition, hsmall, Bool.false_eq_true, if_false]
    rw [heq]
    exact h

theorem writeVelocity_takes (current : EntityWireState) :
    BitWriter.Takes
      (fun w => (w.writeBits current.vx kVelocityBits).writeBits current.vy kVelocityBits)
      (velocityBits current) :=
  (BitWriter.writeBits_takes _ _ (by decide)).comp (BitWriter.writeBits_takes _ _ (by decide))

/-- A field written only under a flag. -/
theorem takes_ite {f : BitWriter → BitWriter} {bits : List Bool} (h : BitWriter.Takes f bits)
    (flag : Bool) : BitWriter.Takes (fun w => if flag then f w else w) (if flag then bits else []) := by
  cases flag with
  | true => exact h
  | false => exact BitWriter.takes_id

theorem writeChange_takes (current : EntityWireState) (previous : Option EntityWireState) :
    BitWriter.Takes (fun w => writeChange w current previous) (changeBits current previous) := by
  cases previous with
  | none =>
    have h := (BitWriter.writeBool_takes true).comp ((BitWriter.writeU16_takes current.px).comp
      ((BitWriter.writeU16_takes current.py).comp ((writeVelocity_takes current).comp
        (BitWriter.writeBits_takes current.kind kKindBits (by decide)))))
    exact h
  | some previous =>
    have h := (BitWriter.writeBool_takes false).comp
      ((BitWriter.writeBool_takes (current.px != previous.px || current.py != previous.py)).comp
        ((takes_ite (writePosition_takes current previous)
          (current.px != previous.px || current.py != previous.py)).comp
          ((BitWriter.writeBool_takes (current.vx != previous.vx || current.vy != previous.vy)).comp
            (takes_ite (writeVelocity_takes current)
              (current.vx != previous.vx || current.vy != previous.vy)))))
    exact h

theorem writeRecords_takes (rows : List (EntityWireState × Option EntityWireState))
    (previousId : Nat) :
    BitWriter.Takes (fun w => writeRecords w previousId rows) (recordsBits previousId rows) := by
  induction rows generalizing previousId with
  | nil => exact BitWriter.takes_id
  | cons row rows ih =>
    exact (writeEntityId_takes row.1.id previousId).comp
      ((writeChange_takes row.1 row.2).comp (ih row.1.id))

theorem writeRemoved_takes (removed : List Nat) (previousId : Nat) :
    BitWriter.Takes (fun w => writeRemoved w previousId removed)
      (removedBits previousId removed) := by
  induction removed generalizing previousId with
  | nil => exact BitWriter.takes_id
  | cons id removed ih => exact (writeEntityId_takes id previousId).comp (ih id)

theorem writeSnapshotHeader_takes (tick : Nat) (baseTick : Option Nat)
    (lastInputSequence viewer : Nat) (removed : List Nat) :
    BitWriter.Takes
      (fun w => writeSnapshotHeader w tick baseTick lastInputSequence viewer removed)
      (headerBits tick baseTick lastInputSequence viewer ++
        (BitWriter.varintBits 4 (removed.length % 2 ^ 32) ++ removedBits 0 removed)) := by
  have htail := (BitWriter.writeVarint_takes (removed.length % 2 ^ 32)).comp
    (writeRemoved_takes removed 0)
  have hinput := (BitWriter.writeU32_takes lastInputSequence).comp
    (BitWriter.writeVarint_takes viewer)
  cases baseTick with
  | none =>
    have h := ((BitWriter.writeU32_takes tick).comp
      ((BitWriter.writeBool_takes true).comp hinput)).comp htail
    exact h
  | some baseTick =>
    have h := ((BitWriter.writeU32_takes tick).comp ((BitWriter.writeBool_takes false).comp
      ((BitWriter.writeU32_takes baseTick).comp hinput))).comp htail
    exact h

end Writing

section Reading

theorem readEntityId_ahead {r : BitReader} {id previous : Nat} {rest : List Bool}
    (h : r.Ahead (idBits id previous ++ rest)) (hid : id < 2 ^ 32) (hprev : previous < 2 ^ 32) :
    ∃ r', readEntityId r previous = (id, r') ∧ r'.Ahead rest := by
  obtain ⟨r', hread, hrest, -⟩ := h.readVarint (Nat.mod_lt _ (by decide))
  refine ⟨r', ?_, hrest⟩
  rw [readEntityId, hread]
  refine Prod.ext ?_ rfl
  simp only
  omega

theorem readNew_ahead {r : BitReader} {current : EntityWireState} (state : EntityWireState)
    {rest : List Bool}
    (h : r.Ahead (toBits 16 current.px ++ (toBits 16 current.py ++
      (velocityBits current ++ toBits kKindBits current.kind)) ++ rest)) (hfits : current.Fits)
    (hid : state.id = current.id) :
    ∃ r', readNew r state = (current, r') ∧ r'.Ahead rest := by
  simp only [velocityBits, List.append_assoc] at h
  obtain ⟨r₁, e₁, h₁, -⟩ := h.readU16 hfits.px
  obtain ⟨r₂, e₂, h₂, -⟩ := h₁.readU16 hfits.py
  obtain ⟨r₃, e₃, h₃, -⟩ := h₂.readBits hfits.vx
  obtain ⟨r₄, e₄, h₄, -⟩ := h₃.readBits hfits.vy
  obtain ⟨r₅, e₅, h₅, -⟩ := h₄.readBits hfits.kind
  refine ⟨r₅, ?_, h₅⟩
  simp only [readNew, e₁, e₂, e₃, e₄, e₅, hid]

theorem readDelta_ahead {r : BitReader} {delta : Int} {rest : List Bool}
    (h : r.Ahead (deltaBits delta ++ rest)) (hmin : kSmallDeltaMin ≤ delta)
    (hmax : delta ≤ kSmallDeltaMax) :
    ∃ r', r.readRanged kSmallDeltaMin kSmallDeltaMax = (delta, r') ∧ r'.Ahead rest := by
  have hwidth : (delta - kSmallDeltaMin).toNat <
      2 ^ BitWriter.bitsRequired kSmallDeltaMin kSmallDeltaMax := by
    rw [deltaWidth]
    unfold kSmallDeltaMin kSmallDeltaMax at *
    omega
  obtain ⟨r', hread, hrest, -⟩ := h.readRanged hmin hwidth
    (by unfold kSmallDeltaMin kSmallDeltaMax at *; omega)
  exact ⟨r', hread, hrest⟩

theorem addDelta_sub {current previous : Nat} (h : current < 65536) :
    addDelta previous ((current : Int) - previous) = current := by
  unfold addDelta
  omega

theorem readPosition_ahead {r : BitReader} {current previous : EntityWireState}
    {rest : List Bool} (h : r.Ahead (positionBits current previous ++ rest))
    (hfits : current.Fits) :
    ∃ r', readPosition r previous = ({ previous with px := current.px, py := current.py }, r') ∧
      r'.Ahead rest := by
  unfold positionBits at h
  cases hsmall : smallDelta current previous with
  | true =>
    obtain ⟨hx, hy⟩ := smallDelta_bounds hsmall
    rw [hsmall, if_pos rfl, List.cons_append, List.append_assoc] at h
    obtain ⟨r₁, e₁, h₁, -⟩ := h.readBool
    obtain ⟨r₂, e₂, h₂⟩ := readDelta_ahead h₁ hx.1 hx.2
    obtain ⟨r₃, e₃, h₃⟩ := readDelta_ahead h₂ hy.1 hy.2
    refine ⟨r₃, ?_, h₃⟩
    simp only [readPosition, e₁, e₂, e₃, if_true, addDelta_sub hfits.px, addDelta_sub hfits.py]
  | false =>
    rw [hsmall, if_neg (by decide), List.cons_append, List.append_assoc] at h
    obtain ⟨r₁, e₁, h₁, -⟩ := h.readBool
    obtain ⟨r₂, e₂, h₂, -⟩ := h₁.readU16 hfits.px
    obtain ⟨r₃, e₃, h₃, -⟩ := h₂.readU16 hfits.py
    refine ⟨r₃, ?_, h₃⟩
    simp only [readPosition, e₁, e₂, e₃, Bool.false_eq_true, if_false]

/-- A changed record over the state it was written against gives the new state;
the kind is not sent and has to be the same. -/
theorem readChange_ahead {r : BitReader} {current previous : EntityWireState}
    {rest : List Bool}
    (h : r.Ahead ((current.px != previous.px || current.py != previous.py) ::
      ((if current.px != previous.px || current.py != previous.py
        then positionBits current previous else []) ++
      (current.vx != previous.vx || current.vy != previous.vy) ::
        if current.vx != previous.vx || current.vy != previous.vy
        then velocityBits current else []) ++ rest))
    (hfits : current.Fits) (hid : previous.id = current.id) (hkind : previous.kind = current.kind) :
    ∃ r', readChange r previous = (current, r') ∧ r'.Ahead rest := by
  rw [List.cons_append, List.append_assoc, List.cons_append] at h
  obtain ⟨r₁, e₁, h₁, -⟩ := h.readBool
  have hposition : ∃ r₂, (if (current.px != previous.px || current.py != previous.py) = true
      then readPosition r₁ previous else (previous, r₁)) =
        ({ previous with px := current.px, py := current.py }, r₂) ∧
      r₂.Ahead ((current.vx != previous.vx || current.vy != previous.vy) ::
        ((if current.vx != previous.vx || current.vy != previous.vy
        then velocityBits current else []) ++ rest)) := by
    cases hmoved : (current.px != previous.px || current.py != previous.py) with
    | true =>
      rw [hmoved, if_pos rfl] at h₁
      rw [if_pos rfl]
      exact readPosition_ahead h₁ hfits
    | false =>
      rw [hmoved, if_neg (by decide), List.nil_append] at h₁
      simp only [Bool.or_eq_false_iff, bne_eq_false_iff_eq] at hmoved
      exact ⟨r₁, by rw [if_neg (by decide), hmoved.1, hmoved.2], h₁⟩
  obtain ⟨r₂, e₂, h₂⟩ := hposition
  obtain ⟨r₃, e₃, h₃, -⟩ := h₂.readBool
  cases hturned : (current.vx != previous.vx || current.vy != previous.vy) with
  | true =>
    rw [hturned, if_pos rfl, velocityBits, List.append_assoc] at h₃
    obtain ⟨r₄, e₄, h₄, -⟩ := h₃.readBits hfits.vx
    obtain ⟨r₅, e₅, h₅, -⟩ := h₄.readBits hfits.vy
    refine ⟨r₅, ?_, h₅⟩
    simp only [readChange, e₁, e₂, e₃, hturned, if_true, e₄, e₅, hid, hkind]
  | false =>
    rw [hturned, if_neg (by decide), List.nil_append] at h₃
    refine ⟨r₃, ?_, h₃⟩
    simp only [readChange, e₁, e₂, e₃, hturned, Bool.false_eq_true, if_false, hid, hkind]
    simp only [Bool.or_eq_false_iff, bne_eq_false_iff_eq] at hturned
    rw [← hturned.1, ← hturned.2]

theorem readRemoved_ahead {r : BitReader} {removed : List Nat} {previousId : Nat}
    {rest : List Bool} (h : r.Ahead (removedBits previousId removed ++ rest))
    (hids : ∀ id ∈ removed, id < 2 ^ 32) (hprev : previousId < 2 ^ 32) :
    ∃ r', readRemoved removed.length r previousId = (removed, r') ∧ r'.Ahead rest := by
  induction removed generalizing r previousId with
  | nil => exact ⟨r, rfl, h⟩
  | cons id removed ih =>
    rw [removedBits, List.append_assoc] at h
    have hid := hids id (by simp)
    obtain ⟨r₁, e₁, h₁⟩ := readEntityId_ahead h hid hprev
    obtain ⟨r₂, e₂, h₂⟩ := ih h₁ (fun x hx => hids x (List.mem_cons_of_mem id hx)) hid
    refine ⟨r₂, ?_, h₂⟩
    simp only [List.length_cons, readRemoved, e₁, e₂]

/-- The rows a record list was written from, against the states it is read over. -/
structure RowsOver (states : List EntityWireState)
    (rows : List (EntityWireState × Option EntityWireState)) : Prop where
  fits : ∀ row ∈ rows, row.1.Fits
  base : ∀ row ∈ rows, ∀ previous ∈ row.2,
    Keyed.lookup EntityWireState.id states row.1.id = some previous ∧ previous.kind = row.1.kind
  distinct : (rows.map fun row => row.1.id).Nodup

/-- The update loop puts every row of the packet in its place. -/
theorem readRecords_ahead {rows : List (EntityWireState × Option EntityWireState)}
    {states : List EntityWireState} {r : BitReader} {previousId : Nat} {rest : List Bool}
    (h : r.Ahead (recordsBits previousId rows ++ rest)) (hprev : previousId < 2 ^ 32)
    (hstates : Keyed.Increasing EntityWireState.id states) (hrows : RowsOver states rows) :
    ∃ r', readRecords rows.length r previousId states =
      some ((rows.map Prod.fst).foldl (Keyed.upsert EntityWireState.id) states, r') := by
  induction rows generalizing r previousId states with
  | nil => exact ⟨r, rfl⟩
  | cons row rows ih =>
    obtain ⟨current, previous⟩ := row
    rw [recordsBits, List.append_assoc, List.append_assoc] at h
    have hfits := hrows.fits (current, previous) (by simp)
    have hdistinct := hrows.distinct
    rw [List.map_cons, List.nodup_cons] at hdistinct
    obtain ⟨r₁, e₁, h₁⟩ := readEntityId_ahead h hfits.id hprev
    have hrecord : ∃ isNew r₂ r₃, r₁.readBool = (isNew, r₂) ∧ r₂.overflow = false ∧
        (isNew = false → (Keyed.lookup EntityWireState.id states current.id).isNone = false) ∧
        (if isNew = true then
          readNew r₂ ((Keyed.lookup EntityWireState.id states current.id).getD { id := current.id })
        else readChange r₂
          ((Keyed.lookup EntityWireState.id states current.id).getD { id := current.id })) =
          (current, r₃) ∧ r₃.Ahead (recordsBits current.id rows ++ rest) := by
      cases previous with
      | none =>
        rw [changeBits, List.cons_append] at h₁
        obtain ⟨r₂, e₂, h₂, -⟩ := h₁.readBool
        obtain ⟨r₃, e₃, h₃⟩ := readNew_ahead
          ((Keyed.lookup EntityWireState.id states current.id).getD { id := current.id })
          h₂ hfits (by
            cases hfound : Keyed.lookup EntityWireState.id states current.id with
            | none => rfl
            | some found => exact Keyed.lookup_key hfound)
        exact ⟨true, r₂, r₃, e₂, h₂.clean, by simp, by rw [if_pos rfl, e₃], h₃⟩
      | some previous =>
        obtain ⟨hlookup, hkind⟩ := hrows.base (current, some previous) (by simp) previous rfl
        rw [changeBits, List.cons_append] at h₁
        obtain ⟨r₂, e₂, h₂, -⟩ := h₁.readBool
        obtain ⟨r₃, e₃, h₃⟩ := readChange_ahead h₂ hfits (Keyed.lookup_key hlookup) hkind
        refine ⟨false, r₂, r₃, e₂, h₂.clean, by simp [hlookup], ?_, h₃⟩
        rw [if_neg (by decide), hlookup, Option.getD_some, e₃]
    obtain ⟨isNew, r₂, r₃, e₂, hclean, hknown, e₃, h₃⟩ := hrecord
    obtain ⟨r₄, e₄⟩ := ih h₃ hfits.id (Keyed.increasing_upsert hstates current) {
      fits := fun row hrow => hrows.fits row (List.mem_cons_of_mem _ hrow)
      base := fun row hrow p hp => by
        have hne : row.1.id ≠ current.id := fun heq =>
          hdistinct.1 (heq ▸ List.mem_map_of_mem (f := fun row => row.1.id) hrow)
        rw [Keyed.lookup_upsert hstates, if_neg hne]
        exact hrows.base row (List.mem_cons_of_mem _ hrow) p hp
      distinct := hdistinct.2 }
    refine ⟨r₄, ?_⟩
    have hgo : (!isNew && (Keyed.lookup EntityWireState.id states current.id).isNone) = false := by
      cases isNew with
      | true => rfl
      | false => exact hknown rfl
    simp only [List.length_cons, readRecords, e₁, e₂, hclean, Keyed.head_above hstates, hgo, e₃, h₃.clean,
      Bool.false_eq_true, if_false, e₄, List.map_cons, List.foldl_cons]

/-- The whole packet. -/
def snapshotBits (tick : Nat) (baseTick : Option Nat) (lastInputSequence viewer : Nat)
    (removed : List Nat) (rows : List (EntityWireState × Option EntityWireState)) : List Bool :=
  headerBits tick baseTick lastInputSequence viewer ++
    (BitWriter.varintBits 4 (removed.length % 2 ^ 32) ++ (removedBits 0 removed ++
      (toBits 16 (rows.length % 65536) ++ recordsBits 0 rows)))

theorem decodeBody_ahead {r : BitReader} {removed : List Nat}
    {rows : List (EntityWireState × Option EntityWireState)} {baseStates : List EntityWireState}
    (h : r.Ahead (BitWriter.varintBits 4 (removed.length % 2 ^ 32) ++ (removedBits 0 removed ++
      (toBits 16 (rows.length % 65536) ++ recordsBits 0 rows))))
    (hremoved : removed.length ≤ 65535) (hids : ∀ id ∈ removed, id < 2 ^ 32)
    (hcount : rows.length < 65536) (hbase : Keyed.Increasing EntityWireState.id baseStates)
    (hrows : RowsOver (baseStates.filter fun state => !removed.contains state.id) rows) :
    decodeBody r baseStates = some
      ((rows.map Prod.fst).foldl (Keyed.upsert EntityWireState.id)
        (baseStates.filter fun state => !removed.contains state.id), removed) := by
  rw [Nat.mod_eq_of_lt (show removed.length < 2 ^ 32 by omega), Nat.mod_eq_of_lt hcount] at h
  obtain ⟨r₁, e₁, h₁, -⟩ := h.readVarint (by omega)
  obtain ⟨r₂, e₂, h₂⟩ := readRemoved_ahead h₁ hids (by decide)
  obtain ⟨r₃, e₃, h₃, -⟩ := h₂.readU16 hcount
  rw [← List.append_nil (recordsBits 0 rows)] at h₃
  obtain ⟨r₄, e₄⟩ := readRecords_ahead h₃ (by decide) (Keyed.increasing_filter hbase _) hrows
  have hok : ¬(r₁.overflow = true ∨ 65535 < removed.length) := by
    rw [h₁.clean]
    simpa using hremoved
  simp only [decodeBody, e₁, if_neg hok, e₂, h₂.clean, e₃, h₃.clean, Bool.false_eq_true, if_false,
    e₄, Option.map_some]

/-- The bytes show their reader the bits of the packet. -/
def IsSnapshot (bytes : List UInt8) (bits : List Bool) : Prop :=
  (∃ pad, bytesBits bytes = bits ++ pad) ∧ 8 * bytes.length < 2 ^ 32

variable {bytes : List UInt8} {tick lastInputSequence viewer : Nat} {baseTick : Option Nat}
  {removed : List Nat} {rows : List (EntityWireState × Option EntityWireState)}

theorem readHeader_ahead {r : BitReader} {rest : List Bool}
    (h : r.Ahead (headerBits tick baseTick lastInputSequence viewer ++ rest))
    (htick : tick < 2 ^ 32) (hbaseTick : ∀ t ∈ baseTick, t < 2 ^ 32)
    (hinput : lastInputSequence < 2 ^ 32) (hviewer : viewer < 2 ^ 32) :
    ∃ r₁ r₂ r₃ r₄ r₅, r.readU32 = (tick, r₁) ∧ r₁.readBool = (baseTick.isNone, r₂) ∧
      (if baseTick.isNone = true then (0, r₂) else r₂.readU32) = (baseTick.getD 0, r₃) ∧
      r₃.overflow = false ∧ r₃.readU32 = (lastInputSequence, r₄) ∧
      r₄.readVarint = (viewer, r₅) ∧ r₅.Ahead rest := by
  simp only [headerBits, List.append_assoc, List.cons_append] at h
  obtain ⟨r₁, e₁, h₁, -⟩ := h.readU32 htick
  obtain ⟨r₂, e₂, h₂, -⟩ := h₁.readBool
  have hbase : ∃ r₃, (if baseTick.isNone = true then (0, r₂) else r₂.readU32) =
      (baseTick.getD 0, r₃) ∧ r₃.Ahead (toBits 32 lastInputSequence ++
        (BitWriter.varintBits 4 viewer ++ rest)) := by
    cases baseTick with
    | none => exact ⟨r₂, rfl, h₂⟩
    | some t =>
      obtain ⟨r₃, e₃, h₃, -⟩ := h₂.readU32 (hbaseTick t rfl)
      exact ⟨r₃, by rw [if_neg (by simp), e₃, Option.getD_some], h₃⟩
  obtain ⟨r₃, e₃, h₃⟩ := hbase
  obtain ⟨r₄, e₄, h₄, -⟩ := h₃.readU32 hinput
  obtain ⟨r₅, e₅, h₅, -⟩ := h₄.readVarint hviewer
  exact ⟨r₁, r₂, r₃, r₄, r₅, e₁, e₂, e₃, h₃.clean, e₄, e₅, h₅⟩

theorem peekSnapshotHeader_encoded
    (h : IsSnapshot bytes (snapshotBits tick baseTick lastInputSequence viewer removed rows))
    (htick : tick < 2 ^ 32) (hbaseTick : ∀ t ∈ baseTick, t < 2 ^ 32)
    (hinput : lastInputSequence < 2 ^ 32) (hviewer : viewer < 2 ^ 32) :
    peekSnapshotHeader (BitReader.view bytes) bytes.length =
      some (tick, baseTick.getD 0, baseTick.isNone) := by
  obtain ⟨⟨pad, hbits⟩, hlen⟩ := h
  obtain ⟨r₁, r₂, r₃, _, _, e₁, e₂, e₃, hclean, -⟩ := readHeader_ahead
    (BitReader.ofBytes_ahead hbits hlen) htick hbaseTick hinput hviewer
  rw [BitReader.ofBytes] at e₁
  simp only [peekSnapshotHeader, e₁, e₂, e₃, hclean, Bool.false_eq_true, if_false]

/-- `decode_snapshot` on an encoded packet over the baseline it names. -/
theorem decodeSnapshot_encoded {base : Option SnapshotFrame}
    (h : IsSnapshot bytes (snapshotBits tick (base.map SnapshotFrame.tick) lastInputSequence viewer
      removed rows))
    (htick : tick < 2 ^ 32) (hvalid : ∀ frame ∈ base, frame.valid = true ∧ frame.tick < 2 ^ 32)
    (hinput : lastInputSequence < 2 ^ 32) (hviewer : viewer < 2 ^ 32)
    (hremoved : removed.length ≤ 65535) (hids : ∀ id ∈ removed, id < 2 ^ 32)
    (hcount : rows.length < 65536)
    (hbase : Keyed.Increasing EntityWireState.id ((base.map SnapshotFrame.states).getD []))
    (hrows : RowsOver (((base.map SnapshotFrame.states).getD []).filter
      fun state => !removed.contains state.id) rows) :
    decodeSnapshot (BitReader.view bytes) bytes.length base = some
      { tick, baselineTick := (base.map SnapshotFrame.tick).getD 0, full := base.isNone
        lastInputSequence, viewer, removed
        states := (rows.map Prod.fst).foldl (Keyed.upsert EntityWireState.id)
          (((base.map SnapshotFrame.states).getD []).filter
            fun state => !removed.contains state.id) } := by
  obtain ⟨⟨pad, hbits⟩, hlen⟩ := h
  obtain ⟨r₁, r₂, r₃, r₄, r₅, e₁, e₂, e₃, -, e₄, e₅, h₅⟩ := readHeader_ahead
    (BitReader.ofBytes_ahead hbits hlen) htick (by simpa using fun frame hf => (hvalid frame hf).2)
    hinput hviewer
  rw [BitReader.ofBytes] at e₁
  have hbody := decodeBody_ahead h₅ hremoved hids hcount hbase hrows
  cases base with
  | none =>
    simp only [Option.map_none, Option.isNone_none, Option.getD_none] at e₂ e₃ hbody
    simp only [decodeSnapshot, e₁, e₂, e₃, e₄, e₅, h₅.clean, hbody, Bool.false_eq_true, if_false,
      Bool.not_true, Bool.false_and, if_true, Option.map_some]
    rfl
  | some frame =>
    obtain ⟨hv, -⟩ := hvalid frame rfl
    simp only [Option.map_some, Option.isNone_some, Option.getD_some, Bool.false_eq_true,
      if_false] at e₂ e₃ hbody
    simp only [decodeSnapshot, e₁, e₂, e₃, e₄, e₅, h₅.clean, hbody, Bool.false_eq_true, if_false,
      Bool.not_false, Bool.true_and, Option.map_some, Option.all_some, hv, Bool.not_true,
      Option.getD_some, bne_self_eq_false, Bool.or_self]
    rfl

end Reading

end Morton.Proto
