import Morton.Net.PacketCodec

/-! One lemma for each endpoint operation: what it may change and what it leaves
alone. Proofs about runs of two endpoints cite these and unfold nothing. -/
namespace Morton.Net
open Proto Bits

namespace ReliableEndpoint

/-- What the deque of an endpoint and its counters satisfy in every run. -/
structure Sound (e : ReliableEndpoint) : Prop where
  sequence : e.sequence < 65536
  nextId : e.nextMessageId < 65536
  highest : e.highestReceived < 65536
  queue : ∀ m ∈ e.unacked, m.id < 65536 ∧ m.payload.length ≤ kMaxReliableMessageSize

theorem sound_new : ({} : ReliableEndpoint).Sound :=
  ⟨by decide, by decide, by decide, by simp⟩

theorem queueReliable_cases (e : ReliableEndpoint) (channel : UInt8) (data : List UInt8) :
    e.queueReliable channel data = e ∨
    data.length ≤ kMaxReliableMessageSize ∧ e.queueReliable channel data =
      { e with
        nextMessageId := (e.nextMessageId + 1) % 65536
        unacked := e.unacked ++ [{ id := e.nextMessageId, channel, payload := data }] } := by
  rw [queueReliable]
  split
  next => exact Or.inl rfl
  next h => exact Or.inr ⟨by omega, rfl⟩

theorem ackBits_testBit (e : ReliableEndpoint) (i : Nat) :
    e.ackBits.testBit i = true ↔ i < 32 ∧ e.hasReceived = true ∧
      e.received.contains (sub16 e.highestReceived (i + 1)) = true := by
  have key : ∀ (n : Nat), ((List.range n).foldl (fun bits i =>
      if e.received.contains (sub16 e.highestReceived (i + 1)) then bits ||| 1 <<< i else bits)
      0).testBit i = true ↔
      i < n ∧ e.received.contains (sub16 e.highestReceived (i + 1)) = true := by
    intro n
    induction n with
    | zero => simp
    | succ n ih =>
      rw [List.range_succ, List.foldl_append, List.foldl_cons, List.foldl_nil]
      split
      next hn =>
        rw [Nat.testBit_or, Bool.or_eq_true, ih, Nat.shiftLeft_eq, Nat.one_mul,
          Nat.testBit_two_pow, decide_eq_true_eq]
        constructor
        · rintro (⟨h₁, h₂⟩ | rfl)
          · exact ⟨by omega, h₂⟩
          · exact ⟨by omega, hn⟩
        · rintro ⟨h₁, h₂⟩
          by_cases hi : n = i
          · exact Or.inr hi
          · exact Or.inl ⟨by omega, h₂⟩
      next hn =>
        rw [ih]
        constructor
        · rintro ⟨h₁, h₂⟩
          exact ⟨by omega, h₂⟩
        · rintro ⟨h₁, h₂⟩
          refine ⟨?_, h₂⟩
          have : i ≠ n := by rintro rfl; exact hn h₂
          omega
  rw [ackBits]
  cases h : e.hasReceived with
  | false => simp
  | true => simpa using key 32

theorem ackBits_lt (e : ReliableEndpoint) : e.ackBits < 2 ^ 32 := by
  refine Nat.lt_pow_two_of_testBit _ fun i hi => ?_
  rw [← Bool.not_eq_true, ackBits_testBit]
  omega

theorem includeCount_le (remaining size : Nat) (queue : List ReliableMessage) :
    includeCount remaining size queue ≤ kMaxReliablePerPacket := by
  refine (List.takeWhile_sublist _).length_le.trans ?_
  rw [List.length_take]
  exact Nat.min_le_left _ _

theorem outgoing_fits {e : ReliableEndpoint} (he : e.Sound) {count : Nat}
    (hcount : count ≤ kMaxReliablePerPacket) (unreliable : List UInt8) :
    (e.outgoing (e.unacked.take count) unreliable).Fits where
  sequence := he.sequence
  ack := by
    dsimp only [outgoing]
    split
    · exact he.highest
    · omega
  ackBits := e.ackBits_lt
  count := by
    dsimp only [outgoing]
    rw [List.length_take]
    omega
  messages m hm := he.queue m (List.mem_of_mem_take hm)

/-- `write_packet` consumes a sequence, records the packet, and touches nothing of
the receiving half; a packet it returns carries a prefix of the deque. -/
theorem writePacket_cases (e : ReliableEndpoint) (out : Nat → UInt8) (capacity : Nat)
    (unreliable : List UInt8) (nowUs : Nat) :
    (e.sent.insert e.sequence = none ∧
      e.writePacket out capacity unreliable nowUs =
        ({ e with sequence := (e.sequence + 1) % 65536 }, none)) ∨
    ∃ sent count record stats packet, e.sent.insert e.sequence = some sent ∧
      count ≤ kMaxReliablePerPacket ∧ record.acked = false ∧
      record.messageIds = (e.unacked.take count).map (·.id) ∧
      e.writePacket out capacity unreliable nowUs =
        ({ e with
            sequence := (e.sequence + 1) % 65536
            sent := sent.write e.sequence record
            unacked := (e.unacked.take count).map markSent ++ e.unacked.drop count
            stats := stats }, packet) ∧
      ∀ bytes, packet = some bytes → e.Sound →
        (e.outgoing (e.unacked.take count) unreliable).Encodes bytes := by
  cases hinsert : e.sent.insert e.sequence with
  | none => exact Or.inl ⟨rfl, by simp only [writePacket, hinsert]⟩
  | some sent =>
    refine Or.inr ?_
    generalize hcount : includeCount (e.writeHeader (BitWriter.new out capacity)).bitsRemaining
      unreliable.length e.unacked = count
    have hle : count ≤ kMaxReliablePerPacket := hcount ▸ includeCount_le _ _ _
    generalize hwriter : writeBody (e.unacked.take count) unreliable
      (e.writeHeader (BitWriter.new out capacity)) = writer
    let stats : NetworkStats := { e.stats with
      reliableRetransmits := e.stats.reliableRetransmits +
        (e.unacked.take count).countP fun m => decide (0 < m.sends) }
    let record : SentPacket :=
      { sendTimeUs := nowUs, messageIds := (e.unacked.take count).map (·.id) }
    cases hover : writer.overflow with
    | true =>
      refine ⟨sent, count, record, stats, none, rfl, hle, rfl, rfl, ?_, by simp⟩
      simp only [writePacket, hinsert, hcount, hwriter, hover, if_true]
      rfl
    | false =>
      refine ⟨sent, count, { record with size := writer.bytes.length },
        { stats with packetsSent := stats.packetsSent + 1 }, some writer.bytes, rfl, hle, rfl, rfl,
        ?_, ?_⟩
      · simp only [writePacket, hinsert, hcount, hwriter, hover, Bool.false_eq_true, if_false]
        rfl
      · rintro bytes hbytes he
        obtain rfl := Option.some.inj hbytes
        rw [← hwriter]
        exact writeBody_encodes e _ _ _ _ (outgoing_fits he hle unreliable) (by rw [hwriter, hover])

theorem eraseMessages_sublist (ids : List Nat) (queue : List ReliableMessage) :
    (ids.foldl eraseMessage queue).Sublist queue := by
  induction ids generalizing queue with
  | nil => exact List.Sublist.refl queue
  | cons id ids ih => exact (ih _).trans List.eraseP_sublist

/-- An acknowledgement touches the sent window and the deque, and only removes
from the deque. -/
theorem onPacketAcked_frame (e : ReliableEndpoint) (s : Nat) :
    ∃ sent unacked stats, e.onPacketAcked s = { e with sent, unacked, stats } ∧
      unacked.Sublist e.unacked := by
  unfold onPacketAcked
  split
  next => exact ⟨_, _, _, rfl, List.Sublist.refl _⟩
  next record _ =>
    split
    · exact ⟨_, _, _, rfl, List.Sublist.refl _⟩
    · exact ⟨_, _, _, rfl, eraseMessages_sublist _ _⟩

theorem processAcks_frame (e : ReliableEndpoint) (ack bits : Nat) :
    ∃ sent unacked stats, e.processAcks ack bits = { e with sent, unacked, stats } ∧
      unacked.Sublist e.unacked := by
  unfold processAcks
  generalize ackedSequences ack bits = acked
  induction acked generalizing e with
  | nil => exact ⟨_, _, _, rfl, List.Sublist.refl _⟩
  | cons s acked ih =>
    obtain ⟨sent, unacked, stats, heq, hsub⟩ := e.onPacketAcked_frame s
    obtain ⟨sent', unacked', stats', heq', hsub'⟩ := ih (e.onPacketAcked s)
    rw [heq] at heq' hsub'
    rw [List.foldl_cons, heq]
    exact ⟨sent', unacked', stats', heq', hsub'.trans hsub⟩

theorem noteReceived_frame (e : ReliableEndpoint)
    (received : SequenceBuffer ReceivedPacket kAckWindowSize) (s : Nat) :
    ∃ stats highest, e.noteReceived received s =
      { e with received, stats, highestReceived := highest, hasReceived := true } ∧
      highest = if e.hasReceived = true ∧ sequenceGreater16 s e.highestReceived = false
        then e.highestReceived else s := by
  unfold noteReceived
  cases hfirst : e.hasReceived with
  | false => exact ⟨_, _, rfl, by simp⟩
  | true =>
    cases hnew : sequenceGreater16 s e.highestReceived with
    | false => simp [hnew]
    | true => simp [hnew]

theorem deliverLoop_frame (fuel : Nat) (e : ReliableEndpoint) (out : List ReliableMessage) :
    ∃ buffer expected, (deliverLoop fuel e out).1 =
      { e with reorderBuffer := buffer, expectedMessageId := expected } := by
  induction fuel generalizing e out with
  | zero => exact ⟨_, _, rfl⟩
  | succ fuel ih =>
    rw [deliverLoop]
    split
    next => exact ⟨_, _, rfl⟩
    next m _ =>
      obtain ⟨buffer, expected, heq⟩ := ih { e with
        reorderBuffer := e.reorderBuffer.eraseP fun m => m.id == e.expectedMessageId
        expectedMessageId := (e.expectedMessageId + 1) % 65536 } (out ++ [m])
      exact ⟨buffer, expected, heq⟩

theorem lossLoop_frame (horizonEnd fuel : Nat) (e : ReliableEndpoint) :
    ∃ stats cursor, lossLoop horizonEnd fuel e = { e with stats, lossCursor := cursor } := by
  induction fuel generalizing e with
  | zero => exact ⟨_, _, rfl⟩
  | succ fuel ih =>
    rw [lossLoop]
    split
    next =>
      exact (ih _).elim fun stats h => h.elim fun cursor heq => ⟨stats, cursor, heq⟩
    next => exact ⟨_, _, rfl⟩

/-- `update` moves the loss cursor and counts; it touches nothing else. -/
theorem update_frame (e : ReliableEndpoint) :
    ∃ stats cursor, e.update = { e with stats, lossCursor := cursor, hasLossCursor := true } := by
  obtain ⟨stats, cursor, heq⟩ := lossLoop_frame (sub16 e.sequence kLossHorizon) 32768
    (if e.hasLossCursor then e
      else { e with lossCursor := sub16 e.sequence kLossHorizon, hasLossCursor := true })
  refine ⟨stats, cursor, heq.trans ?_⟩
  split
  next h => rw [← h]
  next => rfl

/-- A packet is refused and changes nothing, or it enters the window, its acks are
processed, and what follows touches only the reorder buffer. -/
theorem absorb_cases (e : ReliableEndpoint) (p : Packet) (size nowUs : Nat) :
    e.absorb p size nowUs = (e, none) ∨
    ∃ received value stats highest buffer expected out,
      e.received.insert p.sequence = some received ∧
      highest = (if e.hasReceived = true ∧ sequenceGreater16 p.sequence e.highestReceived = false
        then e.highestReceived else p.sequence) ∧
      e.absorb p size nowUs =
        ({ ReliableEndpoint.processAcks { e with
            received := received.write p.sequence value
            stats := stats
            highestReceived := highest
            hasReceived := true } p.ack p.ackBits with
            reorderBuffer := buffer
            expectedMessageId := expected }, some out) := by
  unfold absorb
  split
  · exact Or.inl rfl
  · cases hinsert : e.received.insert p.sequence with
    | none => exact Or.inl rfl
    | some received =>
      obtain ⟨stats, highest, hnote, hhighest⟩ := e.noteReceived_frame
        (received.write p.sequence { recvTimeUs := nowUs, size }) p.sequence
      have hloop := fun x : ReliableEndpoint =>
        deliverLoop_frame x.reorderBuffer.length x []
      dsimp only
      rw [hnote]
      obtain ⟨buffer, expected, heq⟩ := hloop (takeIn (ReliableEndpoint.processAcks
        { e with
          received := received.write p.sequence { recvTimeUs := nowUs, size }
          stats := stats
          highestReceived := highest
          hasReceived := true } p.ack p.ackBits) (p.messages.map ReliableMessage.onWire))
      exact Or.inr ⟨received, _, stats, highest, buffer, expected, _, rfl, hhighest,
        Prod.ext heq rfl⟩

/-- What a packet does to the sending half of its reader. -/
structure SendingKept (e e' : ReliableEndpoint) : Prop where
  sequence : e'.sequence = e.sequence
  nextId : e'.nextMessageId = e.nextMessageId
  queue : e'.unacked.Sublist e.unacked
  highest : e.highestReceived < 65536 → e'.highestReceived < 65536

theorem SendingKept.refl (e : ReliableEndpoint) : SendingKept e e :=
  ⟨rfl, rfl, List.Sublist.refl _, id⟩

theorem SendingKept.sound {e e' : ReliableEndpoint} (h : SendingKept e e') (he : e.Sound) :
    e'.Sound where
  sequence := h.sequence ▸ he.sequence
  nextId := h.nextId ▸ he.nextId
  highest := h.highest he.highest
  queue m hm := he.queue m (h.queue.mem hm)

theorem absorb_sending (e : ReliableEndpoint) {p : Packet} (hp : p.sequence < 65536)
    (size nowUs : Nat) : SendingKept e (e.absorb p size nowUs).1 := by
  rcases e.absorb_cases p size nowUs with heq | ⟨received, value, stats, highest, _, _, _, -,
    hhighest, heq⟩
  · rw [heq]
    exact SendingKept.refl e
  · obtain ⟨_, _, _, hacks, hsub⟩ := ReliableEndpoint.processAcks_frame { e with
      received := received.write p.sequence value
      stats := stats
      highestReceived := highest
      hasReceived := true } p.ack p.ackBits
    rw [heq, hacks]
    refine ⟨rfl, rfl, hsub, fun h => ?_⟩
    dsimp only
    rw [hhighest]
    split <;> omega

/-- The list of messages a sender accepted, numbered modulo `2^16`. -/
def Numbered (accepted : List ReliableMessage) : Prop :=
  ∀ k m, accepted[k]? = some m → m.id = k % 65536

/-- The receiving half after `count` of the accepted messages were delivered. -/
structure Awaits (accepted : List ReliableMessage) (count : Nat) (e : ReliableEndpoint) :
    Prop where
  expected : e.expectedMessageId = count % 65536
  entries : ∀ m ∈ e.reorderBuffer, ∃ k, count ≤ k ∧ accepted[k]? = some m
  distinct : (e.reorderBuffer.map ReliableMessage.id).Nodup

section
variable {accepted : List ReliableMessage} (hnum : Numbered accepted)
  (hshort : accepted.length < 32768)
include hnum hshort

/-- While fewer than `2^15` messages were accepted, ids and indices agree. -/
theorem Numbered.index_eq {k : Nat} {m : ReliableMessage} (h : accepted[k]? = some m) :
    m.id = k ∧ k < 32768 := by
  obtain ⟨hk, -⟩ := List.getElem?_eq_some_iff.mp h
  refine ⟨?_, by omega⟩
  rw [hnum k m h, Nat.mod_eq_of_lt (by omega)]

theorem bufferMessage_awaits {count k : Nat} {e : ReliableEndpoint} {m : ReliableMessage}
    (h : Awaits accepted count e) (hcount : count ≤ accepted.length)
    (hm : accepted[k]? = some m) :
    Awaits accepted count
      { e with reorderBuffer := bufferMessage e.expectedMessageId e.reorderBuffer m } := by
  obtain ⟨hid, hk⟩ := hnum.index_eq hshort hm
  have hexp : e.expectedMessageId = count := by
    rw [h.expected, Nat.mod_eq_of_lt (by omega)]
  have hold : (!sequenceGreater16 m.id e.expectedMessageId && m.id != e.expectedMessageId)
      = decide (k < count) := by
    have horder := Serial.after_mod 32768 (p := k) (q := count) (by omega) (by omega)
    rw [Nat.mod_eq_of_lt (by omega), Nat.mod_eq_of_lt (by omega)] at horder
    rw [hid, hexp, sequenceGreater16, horder, Bool.eq_iff_iff]
    simp only [Bool.and_eq_true, Bool.not_eq_true', decide_eq_false_iff_not, bne_iff_ne,
      decide_eq_true_eq]
    omega
  unfold bufferMessage
  simp only [hold]
  split
  next => exact ⟨h.expected, h.entries, h.distinct⟩
  next hnew =>
    rw [decide_eq_true_eq] at hnew
    split
    next => exact ⟨h.expected, h.entries, h.distinct⟩
    next hfresh =>
      refine ⟨h.expected, fun x hx => ?_, ?_⟩
      · rcases List.mem_append.mp hx with hx | hx
        · exact h.entries x hx
        · rw [List.mem_singleton.mp hx]
          exact ⟨k, by omega, hm⟩
      · have hnot : m.id ∉ e.reorderBuffer.map ReliableMessage.id := by
          rintro hmem
          obtain ⟨x, hx, hxid⟩ := List.mem_map.mp hmem
          exact hfresh (List.any_eq_true.mpr ⟨x, hx, beq_iff_eq.mpr hxid⟩)
        rw [List.map_append, List.map_singleton]
        exact List.nodup_append.mpr ⟨h.distinct, by simp, by simpa using hnot⟩

/-- Taking in a packet keeps the buffer within what was accepted. -/
theorem takeIn_awaits {count : Nat} {e : ReliableEndpoint} (h : Awaits accepted count e)
    (hcount : count ≤ accepted.length) (messages : List ReliableMessage)
    (hms : ∀ m ∈ messages, ∃ k : Nat, accepted[k]? = some m) :
    Awaits accepted count (e.takeIn messages) := by
  unfold takeIn
  induction messages generalizing e with
  | nil => exact h
  | cons m messages ih =>
    obtain ⟨k, hk⟩ := hms m (by simp)
    exact ih (bufferMessage_awaits hnum hshort h hcount hk)
      fun x hx => hms x (List.mem_cons_of_mem m hx)

omit hnum hshort in
theorem id_ne_of_mem_eraseP {buffer : List ReliableMessage}
    (h : (buffer.map ReliableMessage.id).Nodup) {x : ReliableMessage} {id : Nat}
    (hx : x ∈ buffer.eraseP fun m => m.id == id) : x.id ≠ id := by
  induction buffer with
  | nil => cases hx
  | cons m buffer ih =>
    rw [List.map_cons, List.nodup_cons] at h
    rw [List.eraseP_cons] at hx
    cases hm : m.id == id with
    | true =>
      rw [hm, cond_true] at hx
      rintro rfl
      exact h.1 (beq_iff_eq.mp hm ▸ List.mem_map_of_mem hx)
    | false =>
      rw [hm, cond_false] at hx
      rcases List.mem_cons.mp hx with rfl | hx
      · exact beq_eq_false_iff_ne.mp hm
      · exact ih h.2 hx

/-- The delivery loop hands over the next accepted messages and keeps the rest. -/
theorem deliverLoop_awaits (fuel : Nat) {count : Nat} {e : ReliableEndpoint}
    (h : Awaits accepted count e) (hcount : count ≤ accepted.length)
    (out : List ReliableMessage) :
    ∃ n e', deliverLoop fuel e out = (e', out ++ (accepted.drop count).take n) ∧
      count + n ≤ accepted.length ∧ Awaits accepted (count + n) e' := by
  induction fuel generalizing count e out with
  | zero => exact ⟨0, e, by simp [deliverLoop], by omega, h⟩
  | succ fuel ih =>
    cases hfind : e.reorderBuffer.find? fun m => m.id == e.expectedMessageId with
    | none => exact ⟨0, e, by simp [deliverLoop, hfind], by omega, h⟩
    | some m =>
      have hmem := List.mem_of_find?_eq_some hfind
      have hid := List.find?_some hfind
      rw [beq_iff_eq, h.expected] at hid
      obtain ⟨k, hk, hm⟩ := h.entries m hmem
      obtain ⟨hmk, hlt⟩ := hnum.index_eq hshort hm
      have hk' : k = count := by
        rw [Nat.mod_eq_of_lt (by omega)] at hid
        omega
      subst hk'
      obtain ⟨hin, hget⟩ := List.getElem?_eq_some_iff.mp hm
      have hnext : Awaits accepted (k+1) { e with
          reorderBuffer := e.reorderBuffer.eraseP fun m => m.id == e.expectedMessageId
          expectedMessageId := (e.expectedMessageId + 1) % 65536 } := by
        refine ⟨by simp [h.expected], fun x hx => ?_, ?_⟩
        · obtain ⟨j, hj, hxj⟩ := h.entries x (List.eraseP_sublist.mem hx)
          refine ⟨j, ?_, hxj⟩
          by_contra hge
          have hne := id_ne_of_mem_eraseP h.distinct hx
          rw [h.expected, hnum j x hxj] at hne
          exact hne (by rw [show j = k by omega])
        · exact h.distinct.sublist (List.eraseP_sublist.map _)
      obtain ⟨n, e', heq, hle, haw⟩ := ih hnext (by omega) (out ++ [m])
      rw [show k + 1 + n = k + (n+1) by omega] at hle haw
      refine ⟨n+1, e', ?_, hle, haw⟩
      rw [deliverLoop, hfind, List.drop_eq_getElem_cons hin, List.take_succ_cons, hget]
      simpa using heq

theorem deliverInOrder_awaits {count : Nat} {e : ReliableEndpoint}
    (h : Awaits accepted count e) (hcount : count ≤ accepted.length) :
    ∃ n e', e.deliverInOrder = (e', (accepted.drop count).take n) ∧
      count + n ≤ accepted.length ∧ Awaits accepted (count + n) e' := by
  simpa [deliverInOrder] using
    deliverLoop_awaits hnum hshort e.reorderBuffer.length h hcount []

omit hnum hshort in
theorem Awaits.acknowledge {count : Nat} {e : ReliableEndpoint} (h : Awaits accepted count e)
    (received : SequenceBuffer ReceivedPacket kAckWindowSize) (s ack bits : Nat) :
    Awaits accepted count ((e.noteReceived received s).processAcks ack bits) := by
  obtain ⟨_, _, hnote, -⟩ := e.noteReceived_frame received s
  obtain ⟨_, _, _, hacks, -⟩ := (e.noteReceived received s).processAcks_frame ack bits
  rw [hacks, hnote]
  exact ⟨h.expected, h.entries, h.distinct⟩

/-- A packet that carries accepted messages delivers the next of them, in order. -/
theorem absorb_awaits {count : Nat} {e : ReliableEndpoint} (h : Awaits accepted count e)
    (hcount : count ≤ accepted.length) {p : Packet}
    (hms : ∀ m ∈ p.messages, ∃ k : Nat, accepted[k]? = some m.onWire) (size nowUs : Nat) :
    (∃ e', e.absorb p size nowUs = (e', none) ∧ Awaits accepted count e') ∨
    ∃ e' n, e.absorb p size nowUs = (e', some ((accepted.drop count).take n)) ∧
      count + n ≤ accepted.length ∧ Awaits accepted (count + n) e' := by
  unfold absorb
  split
  · exact Or.inl ⟨e, rfl, h⟩
  · split
    · exact Or.inl ⟨e, rfl, h⟩
    next received _ =>
      have htake := takeIn_awaits hnum hshort
        (h.acknowledge (received.write p.sequence { recvTimeUs := nowUs, size }) p.sequence
          p.ack p.ackBits) hcount (p.messages.map ReliableMessage.onWire)
        (by simpa using hms)
      obtain ⟨n, e', hdeliver, hle, haw⟩ := deliverInOrder_awaits hnum hshort htake hcount
      exact Or.inr ⟨e', n, by simp only [hdeliver], hle, haw⟩

end

end ReliableEndpoint
end Morton.Net
