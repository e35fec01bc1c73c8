import Morton.Base.Run
import Morton.Net.Rejection

/-! One endpoint under any sequence of calls, whatever bytes it is given to read. -/
namespace Morton.Net
open Proto

theorem readByteLoop_length (n : Nat) (r : BitReader) : (r.readByteLoop n).1.length = n := by
  induction n generalizing r with
  | zero => rfl
  | succ n ih => simp [BitReader.readByteLoop, ih]

theorem readBytes_length (r : BitReader) (count : Nat) : (r.readBytes count).1.length = count := by
  rw [BitReader.readBytes]
  split
  · exact readByteLoop_length count r
  · split <;> simp

namespace ReliableEndpoint

/-- Every message waiting in the reorder buffer has a legal size. -/
def Buffered (e : ReliableEndpoint) : Prop :=
  ∀ m ∈ e.reorderBuffer, m.payload.length ≤ kMaxReliableMessageSize

theorem deliverLoop_mem (fuel : Nat) (e : ReliableEndpoint) (out : List ReliableMessage) :
    (∀ m ∈ (deliverLoop fuel e out).2, m ∈ out ∨ m ∈ e.reorderBuffer) ∧
      (deliverLoop fuel e out).1.reorderBuffer.Sublist e.reorderBuffer := by
  induction fuel generalizing e out with
  | zero => exact ⟨fun _ hm => Or.inl hm, List.Sublist.refl _⟩
  | succ fuel ih =>
    rw [deliverLoop]
    cases hfind : e.reorderBuffer.find? fun m => m.id == e.expectedMessageId with
    | none => exact ⟨fun _ hm => Or.inl hm, List.Sublist.refl _⟩
    | some message =>
      have hsub : (e.reorderBuffer.eraseP fun m => m.id == e.expectedMessageId).Sublist
          e.reorderBuffer := List.eraseP_sublist
      obtain ⟨hmem, hrest⟩ := ih { e with
        reorderBuffer := e.reorderBuffer.eraseP fun m => m.id == e.expectedMessageId
        expectedMessageId := (e.expectedMessageId + 1) % 65536 } (out ++ [message])
      refine ⟨fun m hm => ?_, hrest.trans hsub⟩
      rcases hmem m hm with hout | hbuffer
      · rcases List.mem_append.mp hout with hout | hnew
        · exact Or.inl hout
        · rw [List.mem_singleton.mp hnew]
          exact Or.inr (List.mem_of_find?_eq_some hfind)
      · exact Or.inr (hsub.mem hbuffer)

/-- One round for each entry of the buffer is enough: the loop ends at a gap. -/
theorem deliverLoop_ends (fuel : Nat) (e : ReliableEndpoint) (out : List ReliableMessage)
    (hfuel : e.reorderBuffer.length ≤ fuel) :
    (deliverLoop fuel e out).1.reorderBuffer.find?
      (fun m => m.id == (deliverLoop fuel e out).1.expectedMessageId) = none := by
  induction fuel generalizing e out with
  | zero => simp [deliverLoop, List.eq_nil_of_length_eq_zero (Nat.le_zero.mp hfuel)]
  | succ fuel ih =>
    rw [deliverLoop]
    cases hfind : e.reorderBuffer.find? fun m => m.id == e.expectedMessageId with
    | none => exact hfind
    | some message =>
      refine ih _ _ ?_
      have hmem := List.mem_of_find?_eq_some hfind
      have hlen := List.length_eraseP_of_mem hmem (List.find?_some hfind)
      dsimp only
      omega

theorem bufferMessage_small {expected : Nat} {buffer : List ReliableMessage}
    {message : ReliableMessage}
    (h : ∀ m ∈ buffer, m.payload.length ≤ kMaxReliableMessageSize)
    (hm : message.payload.length ≤ kMaxReliableMessageSize) :
    ∀ m ∈ bufferMessage expected buffer message, m.payload.length ≤ kMaxReliableMessageSize := by
  unfold bufferMessage
  dsimp only
  split
  · exact h
  · split
    · exact h
    · intro m hmem
      rcases List.mem_append.mp hmem with hold | hnew
      · exact h m hold
      · rw [List.mem_singleton.mp hnew]
        exact hm

/-- What one packet lets through, and what it leaves in the buffer, has a legal size. -/
theorem readMessage_small (r : BitReader) :
    ∀ m ∈ (readMessage r).1, m.payload.length ≤ kMaxReliableMessageSize := by
  intro m hm
  simp only [readMessage] at hm
  split at hm
  · cases hm
  next hok =>
    split at hm
    · cases hm
    · obtain rfl := Option.some.inj hm
      dsimp only
      rw [readBytes_length]
      omega

theorem readMessages_small (expected count : Nat) (r : BitReader) {buffer : List ReliableMessage}
    (h : ∀ m ∈ buffer, m.payload.length ≤ kMaxReliableMessageSize) :
    ∀ m ∈ (readMessages expected count r buffer).2.2,
      m.payload.length ≤ kMaxReliableMessageSize := by
  induction count generalizing r buffer with
  | zero => exact h
  | succ count ih =>
    have hmessage := readMessage_small r
    rw [readMessages]
    rcases hread : readMessage r with ⟨_ | m, r₁⟩
    · exact h
    · rw [hread] at hmessage
      exact ih r₁ (bufferMessage_small h (hmessage m rfl))

theorem readBody_small {e : ReliableEndpoint} (h : e.Buffered) (r : BitReader) (size : Nat) :
    (e.readBody r size).1.Buffered ∧ ∀ read ∈ (e.readBody r size).2,
      ∀ m ∈ read.2, m.payload.length ≤ kMaxReliableMessageSize := by
  have hread := readMessages_small e.expectedMessageId r.readU8.1 r.readU8.2 h
  simp only [readBody]
  split
  · exact ⟨h, by simp⟩
  · split
    · exact ⟨hread, by simp⟩
    · split
      · exact ⟨hread, by simp⟩
      · split
        · exact ⟨hread, by simp⟩
        · obtain ⟨hmem, hsub⟩ := deliverLoop_mem
            (readMessages e.expectedMessageId r.readU8.1 r.readU8.2 e.reorderBuffer).2.2.length
            { e with reorderBuffer :=
              (readMessages e.expectedMessageId r.readU8.1 r.readU8.2 e.reorderBuffer).2.2 } []
          refine ⟨fun m hm => hread m (hsub.mem hm), fun read hout m hm => ?_⟩
          obtain rfl := Option.some.inj hout
          rcases hmem m hm with hnone | hbuffer
          · cases hnone
          · exact hread m hbuffer

/-- Fields in range, the newest packet of the sent window is the last one built, and the
reorder buffer holds legal messages. -/
structure Ready (e : ReliableEndpoint) : Prop where
  sound : e.Sound
  window : e.sent.hasLatest = true → e.sent.latest = sub16 e.sequence 1
  buffered : e.Buffered

theorem ready_new : ({} : ReliableEndpoint).Ready :=
  ⟨sound_new, by simp, by simp [Buffered]⟩

theorem insert_latest {b b' : SequenceBuffer SentPacket kAckWindowSize} {s : Nat}
    (h : b.insert s = some b') (hnewest : b.hasLatest = true → sequenceGreater16 s b.latest = true) :
    b'.hasLatest = true ∧ b'.latest = s := by
  unfold SequenceBuffer.insert at h
  split at h
  · cases h
  · obtain rfl := Option.some.inj h
    cases hlatest : b.hasLatest with
    | false => simp
    | true => simp [hnewest hlatest]

theorem Ready.newest {e : ReliableEndpoint} (h : e.Ready) (hlatest : e.sent.hasLatest = true) :
    sequenceGreater16 e.sequence e.sent.latest = true ∧
      sequenceGreater16 e.sent.latest e.sequence = false := by
  have hseq := h.sound.sequence
  have hnext := h.window hlatest
  unfold sub16 at hnext
  simp only [sequenceGreater16, Serial.after, Bool.or_eq_true, Bool.and_eq_true,
    decide_eq_true_eq, Bool.or_eq_false_iff, Bool.and_eq_false_iff, decide_eq_false_iff_not]
  omega

/-- The next sequence always enters the window. -/
theorem Ready.insert {e : ReliableEndpoint} (h : e.Ready) :
    (e.sent.insert e.sequence).isSome = true := by
  unfold SequenceBuffer.insert
  cases hlatest : e.sent.hasLatest with
  | false => simp
  | true => simp [(h.newest hlatest).2]

/-- Acknowledgements write into the window and do not move it. -/
theorem processAcks_window (e : ReliableEndpoint) (ack bits : Nat) :
    (e.processAcks ack bits).sent.latest = e.sent.latest ∧
      (e.processAcks ack bits).sent.hasLatest = e.sent.hasLatest := by
  unfold processAcks
  generalize ackedSequences ack bits = acked
  induction acked generalizing e with
  | nil => exact ⟨rfl, rfl⟩
  | cons s acked ih =>
    have hone : (e.onPacketAcked s).sent.latest = e.sent.latest ∧
        (e.onPacketAcked s).sent.hasLatest = e.sent.hasLatest := by
      unfold onPacketAcked
      split
      · exact ⟨rfl, rfl⟩
      · split <;> exact ⟨rfl, rfl⟩
    obtain ⟨hlatest, hany⟩ := ih (e.onPacketAcked s)
    exact ⟨hlatest.trans hone.1, hany.trans hone.2⟩

inductive EndpointAction
  | queue (channel : UInt8) (data : List UInt8)
  | write (out : Nat → UInt8) (capacity : Nat) (unreliable : List UInt8) (nowUs : Nat)
  | read (data : List UInt8) (nowUs : Nat)
  | update
  | reset

def act (e : ReliableEndpoint) : EndpointAction → ReliableEndpoint
  | .queue channel data => e.queueReliable channel data
  | .write out capacity unreliable nowUs => (e.writePacket out capacity unreliable nowUs).1
  | .read data nowUs => (e.readPacket (BitReader.view data) data.length nowUs).1
  | .update => e.update
  | .reset => {}

theorem ready_queue {e : ReliableEndpoint} (h : e.Ready) (channel : UInt8) (data : List UInt8) :
    (e.queueReliable channel data).Ready := by
  rcases e.queueReliable_cases channel data with heq | ⟨hsize, heq⟩
  · rw [heq]
    exact h
  · rw [heq]
    refine ⟨⟨h.sound.sequence, Nat.mod_lt _ (by decide), h.sound.highest, fun m hm => ?_⟩, h.window,
      h.buffered⟩
    rcases List.mem_append.mp hm with hold | hnew
    · exact h.sound.queue m hold
    · rw [List.mem_singleton.mp hnew]
      exact ⟨h.sound.nextId, hsize⟩

theorem ready_write {e : ReliableEndpoint} (h : e.Ready) (out : Nat → UInt8) (capacity : Nat)
    (unreliable : List UInt8) (nowUs : Nat) :
    (e.writePacket out capacity unreliable nowUs).1.Ready := by
  have hseq := h.sound.sequence
  rcases e.writePacket_cases out capacity unreliable nowUs with
    ⟨hnone, -⟩ | ⟨sent, count, record, stats, packet, hsent, -, -, -, heq, -⟩
  · have hsome := h.insert
    rw [hnone] at hsome
    cases hsome
  · rw [heq]
    obtain ⟨hany, hlatest⟩ := insert_latest hsent fun hlatest => (h.newest hlatest).1
    refine ⟨⟨Nat.mod_lt _ (by decide), h.sound.nextId, h.sound.highest, fun m hm => ?_⟩, fun _ => ?_,
      h.buffered⟩
    · rcases List.mem_append.mp hm with hsentNow | hrest
      · obtain ⟨m', hm', rfl⟩ := List.mem_map.mp hsentNow
        exact h.sound.queue m' (List.mem_of_mem_take hm')
      · exact h.sound.queue m (List.mem_of_mem_drop hrest)
    · simp only [SequenceBuffer.write, hlatest, sub16]
      omega

theorem ready_read {e : ReliableEndpoint} (h : e.Ready) (data : Nat → UInt8) (size nowUs : Nat) :
    (e.readPacket data size nowUs).1.Ready ∧ ∀ read ∈ (e.readPacket data size nowUs).2,
      ∀ m ∈ read.2, m.payload.length ≤ kMaxReliableMessageSize := by
  unfold readPacket
  dsimp only
  have hsequence : (BitReader.new data size).readU16.1 < 65536 :=
    BitReader.readBits_lt _ 16
  generalize (BitReader.new data size).readU16 = first at hsequence ⊢
  split
  · exact ⟨h, by simp⟩
  · split
    · exact ⟨h, by simp⟩
    · split
      · exact ⟨h, by simp⟩
      next received hinsert =>
        obtain ⟨stats, highest, hnote, hhighest⟩ := e.noteReceived_frame
          (received.write first.1 { recvTimeUs := nowUs, size }) first.1
        obtain ⟨sent, unacked, stats', hacks, hsub⟩ := (e.noteReceived
          (received.write first.1 { recvTimeUs := nowUs, size }) first.1).processAcks_frame
            first.2.readU16.1 first.2.readU16.2.readU32.1
        have hwindow := (e.noteReceived (received.write first.1 { recvTimeUs := nowUs, size })
          first.1).processAcks_window first.2.readU16.1 first.2.readU16.2.readU32.1
        rw [hacks, hnote] at hwindow ⊢
        rw [hnote] at hsub
        obtain ⟨hlatest, hany⟩ := hwindow
        dsimp only at hlatest hany hsub
        have hsmall := fun e' (he' : Buffered e') => readBody_small he' first.2.readU16.2.readU32.2 size
        obtain ⟨hbuffered, hout⟩ := hsmall { e with
          received := received.write first.1 { recvTimeUs := nowUs, size }
          stats := stats', highestReceived := highest, hasReceived := true, sent, unacked } h.buffered
        obtain ⟨buffer, expected, hbody⟩ := readBody_frame { e with
          received := received.write first.1 { recvTimeUs := nowUs, size }
          stats := stats', highestReceived := highest, hasReceived := true, sent, unacked }
          first.2.readU16.2.readU32.2 size
        refine ⟨⟨?_, ?_, hbuffered⟩, hout⟩
        · rw [hbody]
          refine ⟨h.sound.sequence, h.sound.nextId, ?_, fun m hm => h.sound.queue m (hsub.mem hm)⟩
          have hold := h.sound.highest
          dsimp only
          rw [hhighest]
          split <;> assumption
        · rw [hbody]
          dsimp only
          rw [hlatest, hany]
          exact h.window

theorem ready_act (e : ReliableEndpoint) (action : EndpointAction) (h : e.Ready) :
    (e.act action).Ready := by
  cases action with
  | queue channel data => exact ready_queue h channel data
  | write out capacity unreliable nowUs => exact ready_write h out capacity unreliable nowUs
  | read data nowUs => exact (ready_read h _ _ nowUs).1
  | update =>
    obtain ⟨stats, cursor, heq⟩ := e.update_frame
    rw [act, heq]
    exact ⟨⟨h.sound.sequence, h.sound.nextId, h.sound.highest, h.sound.queue⟩, h.window, h.buffered⟩
  | reset => exact ready_new

/-- Every endpoint that ever was is ready. -/
theorem ready_run (actions : List EndpointAction) : (Run.run act {} actions).Ready :=
  Run.invariant_always Ready ready_act ready_new actions

end ReliableEndpoint
end Morton.Net
