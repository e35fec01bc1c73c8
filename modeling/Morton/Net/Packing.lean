import Mathlib.Data.Nat.Find
import Morton.Net.EndpointRuns
import Morton.Proto.BitStreamRoom

/-! How many reliable messages `write_packet` takes along. Its first loop weighs every
message against the whole room beside the payload; the packet needs room for their sum. -/
namespace Morton.Net
open Proto Bits

/-- Bytes of a packet with these messages and an unreliable payload of this size. -/
def packedSize (unreliableSize : Nat) (messages : List ReliableMessage) : Nat :=
  11 + unreliableSize + (messages.map fun m => 5 + m.payload.length).sum

/-- The longest prefix of at most eight messages that fits beside the payload. -/
def longestFit (capacity unreliableSize : Nat) (queue : List ReliableMessage) : Nat :=
  Nat.findGreatest (fun k => packedSize unreliableSize (queue.take k) ≤ capacity)
    (min kMaxReliablePerPacket queue.length)

/-- How many of the first eight messages fit one by one, each with a byte to spare. -/
def singlyFit (capacity unreliableSize : Nat) (queue : List ReliableMessage) : Nat :=
  ((queue.take kMaxReliablePerPacket).takeWhile fun m =>
    decide (packedSize unreliableSize [m] + 1 ≤ capacity)).length

theorem takeWhile_congr {α : Type*} {p q : α → Bool} {xs : List α} (h : ∀ x ∈ xs, p x = q x) :
    xs.takeWhile p = xs.takeWhile q := by
  induction xs with
  | nil => rfl
  | cons x xs ih =>
    rw [List.takeWhile_cons, List.takeWhile_cons, h x (by simp),
      ih fun y hy => h y (List.mem_cons_of_mem x hy)]

theorem singlyFit_le (capacity unreliableSize : Nat) (queue : List ReliableMessage) :
    singlyFit capacity unreliableSize queue ≤ min kMaxReliablePerPacket queue.length := by
  have h := (List.takeWhile_sublist (fun m : ReliableMessage =>
    decide (packedSize unreliableSize [m] + 1 ≤ capacity))
    (l := queue.take kMaxReliablePerPacket)).length_le
  rwa [List.length_take] at h

/-- Both counts look at the sizes of the messages only. -/
theorem singlyFit_congr (capacity unreliableSize : Nat) {queue queue' : List ReliableMessage}
    (h : queue'.map ReliableMessage.payload = queue.map ReliableMessage.payload) :
    singlyFit capacity unreliableSize queue' = singlyFit capacity unreliableSize queue := by
  have key : ∀ xs : List ReliableMessage, singlyFit capacity unreliableSize xs =
      (((xs.map ReliableMessage.payload).take kMaxReliablePerPacket).takeWhile fun payload =>
        decide (11 + unreliableSize + (5 + payload.length) + 1 ≤ capacity)).length := by
    intro xs
    rw [← List.map_take, List.takeWhile_map, List.length_map]
    rfl
  rw [key, key, h]

theorem packedSize_congr (unreliableSize : Nat) {messages messages' : List ReliableMessage}
    (h : messages'.map ReliableMessage.payload = messages.map ReliableMessage.payload) :
    packedSize unreliableSize messages' = packedSize unreliableSize messages := by
  have key : ∀ xs : List ReliableMessage, packedSize unreliableSize xs =
      11 + unreliableSize + ((xs.map ReliableMessage.payload).map fun p => 5 + p.length).sum := by
    intro xs
    rw [List.map_map]
    rfl
  rw [key, key, h]

/-- A prefix that fits, and none longer that does, is the longest. -/
theorem longestFit_fits {capacity unreliableSize : Nat} (hroom : 11 + unreliableSize ≤ capacity)
    (queue : List ReliableMessage) :
    packedSize unreliableSize (queue.take (longestFit capacity unreliableSize queue)) ≤ capacity :=
  Nat.findGreatest_spec (P := fun k => packedSize unreliableSize (queue.take k) ≤ capacity)
    (Nat.zero_le _) (by simpa [packedSize] using hroom)

namespace ReliableEndpoint

theorem writeMessage_takes (m : ReliableMessage) :
    BitWriter.Takes (fun w => writeMessage w m) (messageBits m) :=
  (BitWriter.writeU16_takes m.id).comp ((BitWriter.writeU8_takes m.channel.toNat).comp
    ((BitWriter.writeU16_takes (m.payload.length % 65536)).comp
      (BitWriter.writeBytes_takes m.payload)))

theorem writeHeader_takes (e : ReliableEndpoint) :
    BitWriter.Takes e.writeHeader (toBits 16 e.sequence ++
      (toBits 16 (if e.hasReceived then e.highestReceived else 0) ++ toBits 32 e.ackBits)) :=
  (BitWriter.writeU16_takes e.sequence).comp
    ((BitWriter.writeU16_takes (if e.hasReceived then e.highestReceived else 0)).comp
      (BitWriter.writeU32_takes e.ackBits))

theorem writeBody_takes (messages : List ReliableMessage) (unreliable : List UInt8) :
    BitWriter.Takes (writeBody messages unreliable)
      (toBits 8 (messages.length % 256) ++ (messages.flatMap messageBits ++
        (toBits 16 (unreliable.length % 65536) ++ bytesBits unreliable))) := by
  have hprefix := (BitWriter.writeU8_takes (messages.length % 256)).comp
    ((BitWriter.Takes.foldl writeMessage_takes messages).comp
      (BitWriter.writeU16_takes (unreliable.length % 65536)))
  by_cases hpos : 0 < unreliable.length
  · have h := hprefix.comp (BitWriter.writeBytes_takes unreliable)
    simp only [List.append_assoc] at h
    have heq : writeBody messages unreliable = fun w =>
        ((messages.foldl writeMessage (w.writeU8 (messages.length % 256))).writeU16
          (unreliable.length % 65536)).writeBytes unreliable := by
      funext w
      simp only [writeBody, if_pos hpos]
    rw [heq]
    exact h
  · have hnil : unreliable = [] := List.eq_nil_of_length_eq_zero (by omega)
    subst hnil
    have heq : writeBody messages [] = fun w =>
        (messages.foldl writeMessage (w.writeU8 (messages.length % 256))).writeU16
          (([] : List UInt8).length % 65536) := by
      funext w
      simp [writeBody]
    rw [heq]
    simpa [bytesBits] using hprefix

theorem messagesBits_sum (messages : List ReliableMessage) :
    (messages.flatMap messageBits).length =
      8 * (messages.map fun m => 5 + m.payload.length).sum := by
  induction messages with
  | nil => rfl
  | cons m messages ih =>
    rw [List.flatMap_cons, List.length_append, ih, messageBits_length, List.map_cons,
      List.sum_cons]
    omega

section
variable {e : ReliableEndpoint} {capacity : Nat} {unreliable : List UInt8}
  (hcapacity : capacity + 512 ≤ 2 ^ 29) (hroom : 11 + unreliable.length ≤ capacity)
include hcapacity hroom

/-- The header leaves the capacity less its eight bytes. -/
theorem writeHeader_room (e : ReliableEndpoint) (out : Nat → UInt8) :
    (e.writeHeader (BitWriter.new out capacity)).WF ∧
    (e.writeHeader (BitWriter.new out capacity)).overflow = false ∧
    (e.writeHeader (BitWriter.new out capacity)).capacityBits = 8 * capacity ∧
    (e.writeHeader (BitWriter.new out capacity)).bitPos = 64 ∧
    (e.writeHeader (BitWriter.new out capacity)).bitsRemaining = 8 * capacity - 64 := by
  have hcap : (BitWriter.new out capacity).capacityBits = 8 * capacity := by
    simp only [BitWriter.new]
    omega
  obtain ⟨hwf, hclean, hbits, hpos⟩ := e.writeHeader_takes.position
    (BitWriter.new_wf out capacity) rfl (by
      simp only [List.length_append, toBits_length, hcap]
      simp only [BitWriter.new]
      omega)
  rw [hcap] at hbits
  have h64 : (e.writeHeader (BitWriter.new out capacity)).bitPos = 64 := by
    rw [hpos]
    simp [BitWriter.new]
  refine ⟨hwf, hclean, hbits, h64, ?_⟩
  rw [BitWriter.bitsRemaining, hbits, h64]
  omega

theorem includeCount_eq (out : Nat → UInt8) (he : e.Sound) :
    includeCount (e.writeHeader (BitWriter.new out capacity)).bitsRemaining unreliable.length
      e.unacked = singlyFit capacity unreliable.length e.unacked := by
  obtain ⟨-, -, -, -, hremaining⟩ := writeHeader_room hcapacity hroom e out
  rw [hremaining, includeCount, singlyFit]
  refine congrArg List.length (takeWhile_congr fun m hm => ?_)
  have hsize := (he.queue m (List.mem_of_mem_take hm)).2
  unfold kMaxReliableMessageSize at hsize
  simp only [packedSize, List.map_cons, List.map_nil, List.sum_cons, List.sum_nil]
  rw [decide_eq_decide]
  omega

/-- The packet is built exactly when the prefix it counted fits as a whole. -/
theorem writePacket_built (he : e.Sound) {sent : SequenceBuffer SentPacket kAckWindowSize}
    (hsent : e.sent.insert e.sequence = some sent) (out : Nat → UInt8) (nowUs : Nat) :
    let count := singlyFit capacity unreliable.length e.unacked
    (e.writePacket out capacity unreliable nowUs).1.unacked =
      (e.unacked.take count).map markSent ++ e.unacked.drop count ∧
    if packedSize unreliable.length (e.unacked.take count) ≤ capacity then
      ∃ packet, (e.writePacket out capacity unreliable nowUs).2 = some packet ∧
        packet.length = packedSize unreliable.length (e.unacked.take count) ∧
        packetMessages packet = (e.unacked.take count).map ReliableMessage.onWire
    else (e.writePacket out capacity unreliable nowUs).2 = none := by
  obtain ⟨hwf, hclean, hcap, hpos, -⟩ := writeHeader_room hcapacity hroom e out
  have hcount := includeCount_eq hcapacity hroom out he
  dsimp only
  generalize hn : singlyFit capacity unreliable.length e.unacked = count at hcount ⊢
  have hle : count ≤ kMaxReliablePerPacket := by
    have := singlyFit_le capacity unreliable.length e.unacked
    omega
  have hlength : (toBits 8 ((e.unacked.take count).length % 256) ++
      ((e.unacked.take count).flatMap messageBits ++
        (toBits 16 (unreliable.length % 65536) ++ bytesBits unreliable))).length + 64 =
      8 * packedSize unreliable.length (e.unacked.take count) := by
    simp only [List.length_append, toBits_length, bytesBits_length, messagesBits_sum, packedSize]
    omega
  have htakes := writeBody_takes (e.unacked.take count) unreliable
  have hfits := outgoing_fits he hle unreliable
  have hroom' : (e.writeHeader (BitWriter.new out capacity)).Room
      (toBits 8 ((e.unacked.take count).length % 256) ++
        ((e.unacked.take count).flatMap messageBits ++
          (toBits 16 (unreliable.length % 65536) ++ bytesBits unreliable))).length := by
    refine Or.inr ?_
    rw [hcap]
    omega
  have hbuilt := htakes.clean_iff hwf hclean hroom'
  rw [hpos, hcap, Nat.add_comm, hlength] at hbuilt
  have hencodes := writeBody_encodes e (e.unacked.take count) unreliable out capacity hfits
  generalize hwriter : writeBody (e.unacked.take count) unreliable
    (e.writeHeader (BitWriter.new out capacity)) = writer at hbuilt hencodes
  cases hover : writer.overflow with
  | true =>
    rw [hover] at hbuilt
    have hfull : ¬ packedSize unreliable.length (e.unacked.take count) ≤ capacity := fun h =>
      absurd (hbuilt.mpr (by omega)) (by simp)
    rw [if_neg hfull]
    simp only [writePacket, hsent, hcount, hwriter, hover, if_true, and_self]
  | false =>
    have hsize := hbuilt.mp hover
    simp only [writePacket, hsent, hcount, hwriter, hover, Bool.false_eq_true, if_false]
    refine ⟨trivial, ?_⟩
    rw [if_pos (by omega)]
    obtain ⟨hwf', -, -, hpos'⟩ := htakes.position hwf hclean (by omega)
    rw [hwriter] at hwf' hpos'
    refine ⟨writer.bytes, rfl, ?_, packetMessages_encoded hfits (hencodes hover)⟩
    have := BitWriter.bytes_length_of_aligned hwf' (by omega)
    omega

/-- A prefix that was counted and does not fit is counted again the next time. -/
theorem blocked_again (he : e.Ready) (out : Nat → UInt8) (nowUs : Nat)
    (hfull : capacity < packedSize unreliable.length
      (e.unacked.take (singlyFit capacity unreliable.length e.unacked))) :
    let next := (e.writePacket out capacity unreliable nowUs).1
    (e.writePacket out capacity unreliable nowUs).2 = none ∧ next.Ready ∧
      capacity < packedSize unreliable.length
        (next.unacked.take (singlyFit capacity unreliable.length next.unacked)) := by
  obtain ⟨sent, hsent⟩ := Option.isSome_iff_exists.mp he.insert
  obtain ⟨hqueue, hbuilt⟩ := writePacket_built hcapacity hroom he.sound hsent out nowUs
  rw [if_neg (by omega)] at hbuilt
  refine ⟨hbuilt, ready_write he out capacity unreliable nowUs, ?_⟩
  have hpayload : (e.writePacket out capacity unreliable nowUs).1.unacked.map
      ReliableMessage.payload = e.unacked.map ReliableMessage.payload := by
    rw [hqueue, List.map_append, List.map_map, ← List.take_append_drop
      (singlyFit capacity unreliable.length e.unacked) (e.unacked.map ReliableMessage.payload),
      List.map_take, List.map_drop]
    rfl
  rw [singlyFit_congr capacity unreliable.length hpayload]
  rwa [packedSize_congr unreliable.length]
  rw [List.map_take, List.map_take, hpayload]

/-- What the caller relies on: a packet within the capacity, with as many of the oldest
messages as fit beside the payload. -/
def Packs (e : ReliableEndpoint) (out : Nat → UInt8) (capacity : Nat) (unreliable : List UInt8)
    (nowUs : Nat) : Prop :=
  ∃ packet, (e.writePacket out capacity unreliable nowUs).2 = some packet ∧
    0 < packet.length ∧ packet.length ≤ capacity ∧
    packetMessages packet =
      (e.unacked.take (longestFit capacity unreliable.length e.unacked)).map ReliableMessage.onWire

/-- The packet is what the caller relies on exactly when the sent window takes its
sequence and the messages that fit one by one are the ones that fit together. -/
theorem packs_iff (he : e.Sound) (out : Nat → UInt8) (nowUs : Nat) :
    e.Packs out capacity unreliable nowUs ↔
      (e.sent.insert e.sequence).isSome = true ∧
        singlyFit capacity unreliable.length e.unacked =
          longestFit capacity unreliable.length e.unacked := by
  cases hsent : e.sent.insert e.sequence with
  | none => simp [Packs, writePacket, hsent]
  | some sent =>
    obtain ⟨-, hbuilt⟩ := writePacket_built hcapacity hroom he hsent out nowUs
    have hsingly := singlyFit_le capacity unreliable.length e.unacked
    have hlongest : longestFit capacity unreliable.length e.unacked ≤
        min kMaxReliablePerPacket e.unacked.length := Nat.findGreatest_le _
    have hfits := longestFit_fits hroom e.unacked
    constructor
    · rintro ⟨packet, hpacket, -, -, hmessages⟩
      rw [hpacket] at hbuilt
      split at hbuilt
      · obtain ⟨packet', heq, -, hmessages'⟩ := hbuilt
        obtain rfl := Option.some.inj heq
        have hlen := congrArg List.length (hmessages'.symm.trans hmessages)
        simp only [List.length_map, List.length_take] at hlen
        exact ⟨rfl, by omega⟩
      · cases hbuilt
    · rintro ⟨-, heq⟩
      rw [heq, if_pos hfits] at hbuilt
      obtain ⟨packet, hpacket, hlen, hmessages⟩ := hbuilt
      refine ⟨packet, hpacket, ?_, by omega, hmessages⟩
      rw [hlen, packedSize]
      omega

end

/-- Four messages, the first two of them sent once already. -/
def crowded : ReliableEndpoint :=
  Run.run act {} [.queue 1 (List.replicate 40 7), .queue 2 (List.replicate 30 8),
    .write (fun _ => 0) 128 [] 0, .queue 1 (List.replicate 200 9), .queue 1 [10]]

/-- The first two go again beside a payload; the third is too large and holds the fourth up. -/
theorem packs_iff_crowded :
    crowded.unacked.map (fun m => m.payload.length) = [40, 30, 200, 1] ∧
      longestFit 128 8 crowded.unacked = 2 ∧
      crowded.Packs (fun _ => 0) 128 [1, 2, 3, 4, 5, 6, 7, 8] 0 := by
  refine ⟨by decide +kernel, by decide +kernel, ?_⟩
  refine (packs_iff (by decide) (by decide) (ready_run _).sound (fun _ => 0) 0).mpr ?_
  exact ⟨by decide +kernel, by decide +kernel⟩

/-- The endpoint after `n` packets with no payload, none of them answered. -/
def flushed (e : ReliableEndpoint) (capacity : Nat) : Nat → ReliableEndpoint
  | 0 => e
  | n+1 => ((e.flushed capacity n).writePacket (fun _ => 0) capacity [] 0).1

theorem blocked_forever {e : ReliableEndpoint} {capacity : Nat} (hcapacity : capacity + 512 ≤ 2 ^ 29)
    (hroom : 11 ≤ capacity) (he : e.Ready)
    (hfull : capacity < packedSize 0 (e.unacked.take (singlyFit capacity 0 e.unacked))) (n : Nat) :
    ((e.flushed capacity n).writePacket (fun _ => 0) capacity [] 0).2 = none := by
  have hempty : 11 + ([] : List UInt8).length ≤ capacity := hroom
  have hall : (e.flushed capacity n).Ready ∧
      capacity < packedSize 0 ((e.flushed capacity n).unacked.take
        (singlyFit capacity 0 (e.flushed capacity n).unacked)) := by
    induction n with
    | zero => exact ⟨he, hfull⟩
    | succ n ih =>
      exact (blocked_again hcapacity hempty ih.1 (fun _ => 0) 0 ih.2).2
  exact (blocked_again hcapacity hempty hall.1 (fun _ => 0) 0 hall.2).1

/-- Three messages queued on a new endpoint. -/
def backlog (payload : List UInt8) : ReliableEndpoint :=
  Run.run act {} [.queue 0 payload, .queue 0 payload, .queue 0 payload]

theorem backlog_ready (payload : List UInt8) : (backlog payload).Ready := ready_run _

theorem backlog_unacked {payload : List UInt8} (hpos : payload.length ≠ 0)
    (hsize : payload.length ≤ kMaxReliableMessageSize) : (backlog payload).unacked =
      [{ id := 0, payload := payload }, { id := 1, payload := payload },
        { id := 2, payload := payload }] := by
  have htaken : ¬ (payload.length = 0 ∨ kMaxReliableMessageSize < payload.length) := by
    omega
  simp only [backlog, Run.run, List.foldl, act, queueReliable, if_neg htaken]
  rfl

/-- What the first loop lets through and the packet does not hold. -/
theorem backlog_full {payload : List UInt8} (hsize : payload.length = 512) :
    1187 < packedSize 0
      ((backlog payload).unacked.take (singlyFit 1187 0 (backlog payload).unacked)) := by
  have hbound : payload.length ≤ kMaxReliableMessageSize := by
    unfold kMaxReliableMessageSize
    omega
  have hqueue := backlog_unacked (show payload.length ≠ 0 by omega) hbound
  have hcount : singlyFit 1187 0 (backlog payload).unacked = 3 := by
    simp [hqueue, singlyFit, packedSize, hsize, kMaxReliablePerPacket]
  rw [hcount, hqueue]
  simp [packedSize, hsize]

/-- Three messages of 512 bytes block every later packet of the connection. -/
theorem backlog_blocks :
    ¬ (backlog (List.replicate 512 0)).Packs (fun _ => 0) 1187 [] 0 ∧
      ∀ n, (((backlog (List.replicate 512 0)).flushed 1187 n).writePacket
        (fun _ => 0) 1187 [] 0).2 = none := by
  have hblocked := blocked_forever (show 1187 + 512 ≤ 2 ^ 29 by decide) (by decide)
    (backlog_ready (List.replicate 512 0)) (backlog_full List.length_replicate)
  refine ⟨?_, hblocked⟩
  intro h
  obtain ⟨packet, hpacket, -⟩ := h
  have hnone := hblocked 0
  simp only [flushed] at hnone
  rw [hnone] at hpacket
  cases hpacket

end ReliableEndpoint
end Morton.Net
