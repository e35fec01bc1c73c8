import Morton.Net.ReliabilitySpec

/-! `read_packet` takes note of the sequence and of the acks before it looks at the
body. What a rejected packet leaves behind, and when. -/
namespace Morton.Net
open Proto

/-- A value in the slot of a sequence that `insert` took. -/
theorem SequenceBuffer.contains_insert {α : Type} [Inhabited α] {capacity : Nat}
    {b b' : SequenceBuffer α capacity} {s : Nat} (h : b.insert s = some b') (v : α) :
    (b'.write s v).contains s = true := by
  unfold insert at h
  split at h
  · cases h
  · obtain rfl := Option.some.inj h
    simp [write, contains, setSlot_self]

namespace ReliableEndpoint

/-- The first fields of a packet, and the reader behind them. -/
def packetHeader (data : Nat → UInt8) (size : Nat) : Nat × Nat × Nat × BitReader :=
  let (sequence, r) := (BitReader.new data size).readU16
  let (ack, r) := r.readU16
  let (ackBits, r) := r.readU32
  (sequence, ack, ackBits, r)

/-- The header is whole, and its sequence is neither in the window nor too old for it. -/
def IsNew (e : ReliableEndpoint) (data : Nat → UInt8) (size : Nat) : Prop :=
  let (sequence, _, _, r) := packetHeader data size
  r.overflow = false ∧ e.received.contains sequence = false ∧
    (e.received.insert sequence).isSome = true

/-- The reader behind `count` message records, if all of them are well formed. -/
def skipMessages : Nat → BitReader → Option BitReader
  | 0, r => some r
  | count+1, r =>
    match readMessage r with
    | (none, _) => none
    | (some _, r) => skipMessages count r

/-- At most eight well-formed messages, and a payload that ends inside the packet. -/
def bodyOk (r : BitReader) (size : Nat) : Bool :=
  let (messageCount, r) := r.readU8
  decide (messageCount ≤ kMaxReliablePerPacket) &&
    match skipMessages messageCount r with
    | none => false
    | some r =>
      let (unreliableSize, r) := r.readU16
      !r.overflow && decide (r.bytesRead + unreliableSize ≤ size)

def WellFormed (data : Nat → UInt8) (size : Nat) : Prop :=
  let (_, _, _, r) := packetHeader data size
  bodyOk r size = true

/-- Everything acknowledgement and delivery depend on is as before. -/
structure DeliveryKept (e e' : ReliableEndpoint) : Prop where
  received : e'.received = e.received
  highest : e'.highestReceived = e.highestReceived
  any : e'.hasReceived = e.hasReceived
  unacked : e'.unacked = e.unacked
  buffer : e'.reorderBuffer = e.reorderBuffer
  expected : e'.expectedMessageId = e.expectedMessageId

theorem DeliveryKept.refl (e : ReliableEndpoint) : DeliveryKept e e :=
  ⟨rfl, rfl, rfl, rfl, rfl, rfl⟩

/-- Whether the message loop succeeds, and where it ends, depends on the bytes alone. -/
theorem readMessages_skip (expected count : Nat) (r : BitReader) (buffer : List ReliableMessage) :
    (readMessages expected count r buffer).1 = (skipMessages count r).isSome ∧
      ∀ r' ∈ skipMessages count r, (readMessages expected count r buffer).2.1 = r' := by
  induction count generalizing r buffer with
  | zero => simp [readMessages, skipMessages]
  | succ count ih =>
    rcases hread : readMessage r with ⟨_ | m, r₁⟩
    · simp [readMessages, skipMessages, hread]
    · simp only [readMessages, skipMessages, hread]
      exact ih r₁ (bufferMessage expected buffer m)

theorem readBody_accepts (e : ReliableEndpoint) (r : BitReader) (size : Nat) :
    (e.readBody r size).2.isSome = bodyOk r size := by
  obtain ⟨hok, hend⟩ := readMessages_skip e.expectedMessageId r.readU8.1 r.readU8.2 e.reorderBuffer
  simp only [readBody, bodyOk]
  by_cases hcount : kMaxReliablePerPacket < r.readU8.1
  · simp [hcount]
  · rw [if_neg hcount, decide_eq_true (by omega), Bool.true_and]
    cases hskip : skipMessages r.readU8.1 r.readU8.2 with
    | none => simp [hok, hskip]
    | some r' =>
      have hreader := hend r' hskip
      simp only [hok, hskip, hreader, Option.isSome_some, Bool.not_true, Bool.false_eq_true,
        if_false]
      cases hover : r'.readU16.2.overflow with
      | true => simp
      | false =>
        by_cases hsize : size < r'.readU16.2.bytesRead + r'.readU16.1
        · simp [hsize]
        · simp [hsize, Nat.le_of_not_lt hsize]

/-- The body fills the reorder buffer and delivers from it. -/
theorem readBody_frame (e : ReliableEndpoint) (r : BitReader) (size : Nat) :
    ∃ buffer expected, (e.readBody r size).1 =
      { e with reorderBuffer := buffer, expectedMessageId := expected } := by
  simp only [readBody]
  split
  · exact ⟨_, _, rfl⟩
  · split
    · exact ⟨_, _, rfl⟩
    · split
      · exact ⟨_, _, rfl⟩
      · split
        · exact ⟨_, _, rfl⟩
        · obtain ⟨buffer, expected, heq⟩ := deliverLoop_frame
            (readMessages e.expectedMessageId r.readU8.1 r.readU8.2 e.reorderBuffer).2.2.length
            { e with reorderBuffer :=
              (readMessages e.expectedMessageId r.readU8.1 r.readU8.2 e.reorderBuffer).2.2 } []
          exact ⟨buffer, expected, heq⟩

/-- A packet that is not new is refused at once; a new one is noted whatever follows. -/
theorem readPacket_cases (e : ReliableEndpoint) (data : Nat → UInt8) (size nowUs : Nat) :
    (¬ e.IsNew data size ∧ e.readPacket data size nowUs = (e, none)) ∨
    (e.IsNew data size ∧
      ((e.readPacket data size nowUs).2.isSome = true ↔ WellFormed data size) ∧
      (e.readPacket data size nowUs).1.received.contains (packetHeader data size).1 = true) := by
  unfold readPacket IsNew WellFormed packetHeader
  dsimp only
  generalize (BitReader.new data size).readU16 = first
  generalize first.2.readU16 = second
  generalize second.2.readU32 = third
  cases hover : third.2.overflow with
  | true => simp
  | false =>
    cases hseen : e.received.contains first.1 with
    | true => simp
    | false =>
      cases hinsert : e.received.insert first.1 with
      | none => simp
      | some received =>
        refine Or.inr ⟨by simp, ?_⟩
        simp only [Bool.false_eq_true, if_false]
        obtain ⟨stats, highest, hnote, -⟩ := e.noteReceived_frame
          (received.write first.1 { recvTimeUs := nowUs, size }) first.1
        obtain ⟨sent, unacked, stats', hacks, -⟩ := (e.noteReceived
          (received.write first.1 { recvTimeUs := nowUs, size }) first.1).processAcks_frame
            second.1 third.1
        rw [hacks, hnote]
        refine ⟨by rw [readBody_accepts], ?_⟩
        obtain ⟨buffer, expected, hbody⟩ := readBody_frame { e with
          received := received.write first.1 { recvTimeUs := nowUs, size }
          stats := stats', highestReceived := highest, hasReceived := true, sent, unacked }
          third.2 size
        rw [hbody]
        exact SequenceBuffer.contains_insert hinsert _

/-- A rejected packet leaves the delivery state alone exactly when it is not a new packet
with a malformed body. -/
theorem rejected_kept_iff (e : ReliableEndpoint) (data : Nat → UInt8) (size nowUs : Nat) :
    ((e.readPacket data size nowUs).2 = none → DeliveryKept e (e.readPacket data size nowUs).1) ↔
      (e.IsNew data size → WellFormed data size) := by
  rcases e.readPacket_cases data size nowUs with ⟨hold, heq⟩ | ⟨hnew, hok, hnoted⟩
  · rw [heq]
    exact ⟨fun _ h => absurd h hold, fun _ _ => DeliveryKept.refl e⟩
  · constructor
    · intro hkept _
      by_contra hbad
      have hnone : (e.readPacket data size nowUs).2 = none := by
        rw [← hok] at hbad
        simpa using hbad
      have hbefore : e.received.contains (packetHeader data size).1 = false := hnew.2.1
      rw [(hkept hnone).received, hbefore] at hnoted
      cases hnoted
    · intro hgood hnone
      have hsome := hok.mpr (hgood hnew)
      rw [hnone] at hsome
      cases hsome

/-- Sequence 5, one message of 600 bytes announced. -/
def oversized : List UInt8 := [5, 0, 0, 0, 0, 0, 0, 0, 1, 0, 0, 0, 88, 2]

/-- An oversized message is refused, and the next packet acknowledges the packet that
announced it. -/
theorem refused_and_acknowledged :
    let read := ({} : ReliableEndpoint).readPacket (BitReader.view oversized) oversized.length 0
    read.2 = none ∧ ¬ DeliveryKept {} read.1 ∧
      (read.1.writePacket (fun _ => 0) 1200 [] 0).2 =
        some [0, 0, 5, 0, 0, 0, 0, 0, 0, 0, 0] := by
  refine ⟨by decide +kernel, fun h => ?_, by decide +kernel⟩
  have hany := h.any
  revert hany
  decide +kernel

end ReliableEndpoint
end Morton.Net
