import Morton.Net.ReliabilitySpec
import Morton.Proto.Scan

/-! `read_packet` with the indices it reads: whatever the bytes are, it stays inside the
datagram, and so does the payload view it hands out. -/
namespace Morton.Net
open Proto Traced

namespace PacketScan
open ReliableEndpoint Scan

def message : Scan (Option ReliableMessage) := do
  let id ← u16
  let channel ← u8
  let payloadSize ← u16
  let failed ← overflowed
  bif decide (kMaxReliableMessageSize < payloadSize) || failed then pure none
  else do
    let payload ← bytes payloadSize
    let failed ← overflowed
    pure (bif failed then none else some { id, channel := UInt8.ofNat channel, payload })

/-- One round of the message loop. -/
def takeMessage (expected : Nat) (buffer : List ReliableMessage) :
    Scan (Option (List ReliableMessage)) := do
  let next ← message
  pure (next.map (bufferMessage expected buffer))

/-- The payload view of `size` bytes at `offset`; null when there are none. -/
def payloadView (offset size : Nat) : PayloadView := if 0 < size then { offset, size } else {}

def body (e : ReliableEndpoint) (size : Nat) :
    Scan (ReliableEndpoint × Option (PayloadView × List ReliableMessage)) := do
  let messageCount ← u8
  bif decide (kMaxReliablePerPacket < messageCount) then pure (e, none)
  else do
    let read ← rounds (takeMessage e.expectedMessageId) messageCount e.reorderBuffer
    let e := { e with reorderBuffer := read.2 }
    bif !read.1 then pure (e, none)
    else do
      let unreliableSize ← u16
      let failed ← overflowed
      let consumed ← look BitReader.bytesRead
      pure (bif failed || decide (size < consumed + unreliableSize) then (e, none)
        else (e.deliverInOrder.1,
          some (payloadView consumed unreliableSize, e.deliverInOrder.2)))

def packet (e : ReliableEndpoint) (size nowUs : Nat) :
    Scan (ReliableEndpoint × Option (PayloadView × List ReliableMessage)) := do
  let sequence ← u16
  let ack ← u16
  let ackBits ← u32
  let failed ← overflowed
  bif failed || e.received.contains sequence then pure (e, none)
  else (e.received.insert sequence).elim (pure (e, none)) fun received =>
    body ((e.noteReceived (received.write sequence { recvTimeUs := nowUs, size })
      sequence).processAcks ack ackBits) size

section Erasure

@[simp] theorem eval_message (r : BitReader) : message.eval r = readMessage r := by
  simp only [message, eval_bind, eval_u16, eval_u8, eval_overflowed, eval_cond, eval_bytes,
    eval_pure]
  simp only [readMessage, Bool.cond_eq_ite, Bool.or_eq_true, decide_eq_true_eq]
  split
  · rfl
  · split <;> simp

theorem eval_messages (expected count : Nat) (r : BitReader) (buffer : List ReliableMessage) :
    (rounds (takeMessage expected) count buffer).eval r =
      (((readMessages expected count r buffer).1, (readMessages expected count r buffer).2.2),
        (readMessages expected count r buffer).2.1) := by
  induction count generalizing r buffer with
  | zero => simp [readMessages]
  | succ count ih =>
    have hround : (takeMessage expected buffer).eval r =
        ((readMessage r).1.map (bufferMessage expected buffer), (readMessage r).2) := by
      simp only [takeMessage, eval_bind, eval_message, eval_pure]
    rcases hread : readMessage r with ⟨_ | m, r₁⟩
    · rw [hread] at hround
      rw [eval_rounds_none hround, readMessages, hread]
    · rw [hread] at hround
      rw [eval_rounds_some hround, ih, readMessages, hread]

theorem eval_body (e : ReliableEndpoint) (size : Nat) (r : BitReader) :
    ((body e size).eval r).1 = e.readBody r size := by
  simp only [body, eval_bind, eval_u8, eval_cond, eval_pure, eval_messages, eval_u16,
    eval_overflowed, eval_look]
  simp only [readBody, Bool.cond_eq_ite, Bool.or_eq_true, decide_eq_true_eq, Bool.not_eq_true']
  split
  · rfl
  · split
    · rfl
    · split
      next h =>
        rcases h with h | h
        · simp [h]
        · simp [h]
      next h =>
        rw [not_or] at h
        simp [h.1, h.2, payloadView]

theorem eval_packet (e : ReliableEndpoint) (data : Nat → UInt8) (size nowUs : Nat) :
    ((packet e size nowUs).eval (BitReader.new data size)).1 = e.readPacket data size nowUs := by
  simp only [packet, eval_bind, eval_u16, eval_u32, eval_overflowed, eval_cond, eval_pure]
  simp only [readPacket]
  cases (BitReader.new data size).readU16.2.readU16.2.readU32.2.overflow with
  | true => rfl
  | false =>
    cases e.received.contains (BitReader.new data size).readU16.1 with
    | true => rfl
    | false =>
      cases e.received.insert (BitReader.new data size).readU16.1 with
      | none => rfl
      | some received => exact eval_body _ size _

end Erasure

/-- The payload view of an accepted packet ends inside the datagram. -/
def ViewInside (size : Nat)
    (out : ReliableEndpoint × Option (PayloadView × List ReliableMessage)) : Prop :=
  ∀ read ∈ out.2, read.1.offset + read.1.size ≤ size

theorem viewInside_none {size : Nat} (e : ReliableEndpoint) : ViewInside size (e, none) :=
  fun _ h => (nomatch h)

section Bounds
variable {size : Nat} (hsize : size < 2 ^ 28)
include hsize

theorem within_message : Within (Inside size) (· < size) message fun _ => True := by
  refine (within_u16 hsize).andThen fun id => (within_u8 hsize).andThen fun channel => ?_
  refine (within_u16 hsize).andThen fun payloadSize => within_overflowed.andThen fun failed => ?_
  refine within_cond (fun _ => within_pure trivial) fun _ => ?_
  exact (within_bytes hsize payloadSize).andThen fun _ =>
    within_overflowed.andThen fun _ => within_pure trivial

theorem within_messages (expected count : Nat) (buffer : List ReliableMessage) :
    Within (Inside size) (· < size) (rounds (takeMessage expected) count buffer) fun _ => True :=
  within_rounds (fun _ => True) (fun _ _ =>
    (within_message hsize).andThen fun _ => within_pure fun _ _ => trivial) count trivial

theorem within_packetBody (e : ReliableEndpoint) :
    Within (Inside size) (· < size) (body e size) (ViewInside size) := by
  refine (within_u8 hsize).andThen fun messageCount =>
    within_cond (fun _ => within_pure (viewInside_none e)) fun _ => ?_
  refine (within_messages hsize e.expectedMessageId messageCount e.reorderBuffer).andThen
    fun read => within_cond (fun _ => within_pure (viewInside_none _)) fun _ => ?_
  refine (within_u16 hsize).andThen fun unreliableSize => within_overflowed.andThen fun failed => ?_
  refine (within_look _).andThen fun consumed => within_pure ?_
  cases hok : failed || decide (size < consumed + unreliableSize) with
  | true => exact viewInside_none _
  | false =>
    rw [Bool.or_eq_false_iff, decide_eq_false_iff_not] at hok
    intro out hout
    obtain rfl := Option.some.inj hout
    unfold payloadView
    split
    · exact Nat.le_of_not_lt hok.2
    · exact Nat.zero_le size

/-- Whatever the datagram holds, reading it stays inside it. -/
theorem within_packet (e : ReliableEndpoint) (nowUs : Nat) :
    Within (Inside size) (· < size) (packet e size nowUs) (ViewInside size) := by
  refine (within_u16 hsize).andThen fun sequence => (within_u16 hsize).andThen fun ack => ?_
  refine (within_u32 hsize).andThen fun ackBits => within_overflowed.andThen fun failed => ?_
  refine within_cond (fun _ => within_pure (viewInside_none e)) fun _ => ?_
  cases e.received.insert sequence with
  | none => exact within_pure (viewInside_none e)
  | some received => exact within_packetBody hsize _

end Bounds
end PacketScan
end Morton.Net
