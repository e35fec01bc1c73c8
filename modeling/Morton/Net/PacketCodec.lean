import Morton.Net.Reliability
import Morton.Proto.BitStreamSpec

/-! The reliability packet as a value: what `write_packet` puts on the wire and
what `read_packet` does with it. Later modules argue about `Packet` only. -/
namespace Morton.Net
open Proto Bits

/-- The fields of one packet body, in wire order. -/
structure Packet where
  sequence : Nat
  ack : Nat
  ackBits : Nat
  messages : List ReliableMessage
  unreliable : List UInt8

/-- A message as the peer decodes it: `sends` stays at home. -/
def ReliableMessage.onWire (m : ReliableMessage) : ReliableMessage := { m with sends := 0 }

def messageBits (m : ReliableMessage) : List Bool :=
  toBits 16 m.id ++ (toBits 8 m.channel.toNat ++
    (toBits 16 (m.payload.length % 65536) ++ bytesBits m.payload))

/-- Everything before the bytes of the unreliable payload. -/
def Packet.prefixBits (p : Packet) : List Bool :=
  toBits 16 p.sequence ++ (toBits 16 p.ack ++ (toBits 32 p.ackBits ++
    (toBits 8 (p.messages.length % 256) ++ (p.messages.flatMap messageBits ++
      toBits 16 (p.unreliable.length % 65536)))))

def Packet.bits (p : Packet) : List Bool := p.prefixBits ++ bytesBits p.unreliable

/-- What the wire can carry without loss. -/
structure Packet.Fits (p : Packet) : Prop where
  sequence : p.sequence < 65536
  ack : p.ack < 65536
  ackBits : p.ackBits < 2 ^ 32
  count : p.messages.length ≤ kMaxReliablePerPacket
  messages : ∀ m ∈ p.messages, m.id < 65536 ∧ m.payload.length ≤ kMaxReliableMessageSize

/-- The byte string `packet` is an encoding of `p`. -/
def Packet.Encodes (p : Packet) (packet : List UInt8) : Prop :=
  (∃ pad, bytesBits packet = p.bits ++ pad) ∧ 8 * packet.length < 2 ^ 32

theorem messageBits_length (m : ReliableMessage) :
    (messageBits m).length = 40 + 8 * m.payload.length := by
  simp only [messageBits, List.length_append, toBits_length, bytesBits_length]
  omega

theorem messagesBits_length (ms : List ReliableMessage)
    (h : ∀ m ∈ ms, m.payload.length ≤ kMaxReliableMessageSize) :
    (ms.flatMap messageBits).length ≤ 4136 * ms.length ∧
      (ms.flatMap messageBits).length % 8 = 0 := by
  induction ms with
  | nil => simp
  | cons m ms ih =>
    obtain ⟨hle, hmod⟩ := ih fun x hx => h x (List.mem_cons_of_mem m hx)
    have hm := h m (by simp)
    rw [List.flatMap_cons, List.length_append, messageBits_length, List.length_cons]
    unfold kMaxReliableMessageSize at hm
    omega

theorem Packet.Fits.prefix_length {p : Packet} (h : p.Fits) :
    p.prefixBits.length < 2 ^ 20 ∧ p.prefixBits.length % 8 = 0 := by
  obtain ⟨hle, hmod⟩ := messagesBits_length p.messages fun m hm => (h.messages m hm).2
  have hcount := h.count
  unfold kMaxReliablePerPacket at hcount
  simp only [Packet.prefixBits, List.length_append, toBits_length]
  omega

namespace ReliableEndpoint

theorem writeMessage_emits (m : ReliableMessage) :
    BitWriter.Emits (fun w => writeMessage w m) (messageBits m) := by
  have h := (BitWriter.writeU16_emits m.id).comp ((BitWriter.writeU8_emits m.channel.toNat).comp
    ((BitWriter.writeU16_emits (m.payload.length % 65536)).comp
      (BitWriter.writeBytes_emits m.payload)))
  exact h

/-- The packet the endpoint builds around `messages` and `unreliable`. -/
def outgoing (e : ReliableEndpoint) (messages : List ReliableMessage) (unreliable : List UInt8) :
    Packet where
  sequence := e.sequence
  ack := if e.hasReceived then e.highestReceived else 0
  ackBits := e.ackBits
  messages := messages
  unreliable := unreliable

/-- `write_packet` up to the bytes of the unreliable payload. -/
def writePrefix (e : ReliableEndpoint) (messages : List ReliableMessage)
    (unreliable : List UInt8) (w : BitWriter) : BitWriter :=
  (messages.foldl writeMessage ((e.writeHeader w).writeU8 (messages.length % 256))).writeU16
    (unreliable.length % 65536)

theorem writePrefix_emits (e : ReliableEndpoint) (messages : List ReliableMessage)
    (unreliable : List UInt8) :
    BitWriter.Emits (e.writePrefix messages unreliable)
      (e.outgoing messages unreliable).prefixBits := by
  have h := (BitWriter.writeU16_emits e.sequence).comp
    ((BitWriter.writeU16_emits (if e.hasReceived then e.highestReceived else 0)).comp
      ((BitWriter.writeU32_emits e.ackBits).comp
        ((BitWriter.writeU8_emits (messages.length % 256)).comp
          ((BitWriter.Emits.foldl writeMessage_emits messages).comp
            (BitWriter.writeU16_emits (unreliable.length % 65536))))))
  exact h

theorem writeBody_eq (e : ReliableEndpoint) (messages : List ReliableMessage)
    (unreliable : List UInt8) (w : BitWriter) :
    writeBody messages unreliable (e.writeHeader w) =
      if 0 < unreliable.length then (e.writePrefix messages unreliable w).writeBytes unreliable
      else e.writePrefix messages unreliable w := rfl

/-- A packet that was built without overflow encodes what went into it. -/
theorem writeBody_encodes (e : ReliableEndpoint) (messages : List ReliableMessage)
    (unreliable : List UInt8) (out : Nat → UInt8) (capacity : Nat)
    (hfits : (e.outgoing messages unreliable).Fits)
    (hclean : (writeBody messages unreliable
      (e.writeHeader (BitWriter.new out capacity))).overflow = false) :
    (e.outgoing messages unreliable).Encodes
      (writeBody messages unreliable (e.writeHeader (BitWriter.new out capacity))).bytes := by
  obtain ⟨hlen, haligned⟩ := hfits.prefix_length
  obtain ⟨hwf, hcap, -, hprefix⟩ := e.writePrefix_emits messages unreliable
    (BitWriter.new out capacity) (BitWriter.new_wf out capacity) (Or.inl (by
      simp only [BitWriter.new]
      omega))
  rw [writeBody_eq] at hclean ⊢
  have hmax : (BitWriter.new out capacity).capacityBits + 8 ≤ 2 ^ 32 := by
    simp only [BitWriter.new]
    omega
  have finish : ∀ w : BitWriter, w.WF → w.content = (e.outgoing messages unreliable).bits →
      w.capacityBits = (BitWriter.new out capacity).capacityBits →
      (e.outgoing messages unreliable).Encodes w.bytes := by
    intro w hw hcontent hwcap
    obtain ⟨pad, hbits, hsize⟩ := hw.bytes_bits
    refine ⟨⟨pad, by rw [hbits, hcontent]⟩, ?_⟩
    have := hw.fits
    omega
  split at hclean
  next hpos =>
    obtain ⟨-, hcontent⟩ := hprefix (BitWriter.writeBytes_clean hclean)
    have hbitPos : (e.writePrefix messages unreliable (BitWriter.new out capacity)).bitPos % 8 = 0 := by
      rw [← hwf.content_length, hcontent]
      simpa [BitWriter.content, BitWriter.new, toBits] using haligned
    obtain ⟨hwf', hcap', -, hbytes⟩ := BitWriter.writeBytes_aligned hwf hbitPos unreliable
    obtain ⟨-, hcontent'⟩ := hbytes hclean
    rw [if_pos hpos]
    refine finish _ hwf' ?_ (hcap'.trans hcap)
    rw [hcontent', hcontent]
    simp [BitWriter.content, BitWriter.new, toBits, Packet.bits, outgoing]
  next hpos =>
    obtain ⟨-, hcontent⟩ := hprefix hclean
    have hnil : unreliable = [] := List.eq_nil_of_length_eq_zero (by omega)
    rw [if_neg hpos]
    refine finish _ hwf ?_ hcap
    rw [hcontent]
    simp [BitWriter.content, BitWriter.new, toBits, Packet.bits, outgoing, hnil]

theorem readMessage_ahead {r : BitReader} {m : ReliableMessage} {rest : List Bool}
    (h : r.Ahead (messageBits m ++ rest)) (hid : m.id < 65536)
    (hsize : m.payload.length ≤ kMaxReliableMessageSize) :
    ∃ r', readMessage r = (some m.onWire, r') ∧ r'.Ahead rest ∧
      r'.bitPos = r.bitPos + (messageBits m).length := by
  have hsmall : m.payload.length < 65536 := by
    unfold kMaxReliableMessageSize at hsize
    omega
  simp only [messageBits, List.append_assoc, Nat.mod_eq_of_lt hsmall] at h
  obtain ⟨r₁, e₁, h₁, p₁⟩ := h.readU16 hid
  obtain ⟨r₂, e₂, h₂, p₂⟩ := h₁.readU8 m.channel.toNat_lt
  obtain ⟨r₃, e₃, h₃, p₃⟩ := h₂.readU16 hsmall
  obtain ⟨r₄, e₄, h₄, p₄⟩ := h₃.readBytes
  refine ⟨r₄, ?_, h₄, by rw [messageBits_length]; omega⟩
  have hok : ¬(kMaxReliableMessageSize < m.payload.length ∨ r₃.overflow = true) := by
    rw [h₃.clean]
    simpa using hsize
  simp only [readMessage, e₁, e₂, e₃, if_neg hok, e₄, h₄.clean, Bool.false_eq_true, if_false,
    UInt8.ofNat_toNat, ReliableMessage.onWire]

/-- Buffers the messages of a packet in turn. -/
def takeIn (e : ReliableEndpoint) (messages : List ReliableMessage) : ReliableEndpoint :=
  { e with reorderBuffer := messages.foldl (bufferMessage e.expectedMessageId) e.reorderBuffer }

/-- The message loop takes in exactly the messages of the packet. -/
theorem readMessages_ahead {ms : List ReliableMessage} {r : BitReader} {rest : List Bool}
    (h : r.Ahead (ms.flatMap messageBits ++ rest))
    (hms : ∀ m ∈ ms, m.id < 65536 ∧ m.payload.length ≤ kMaxReliableMessageSize)
    (expected : Nat) (buffer : List ReliableMessage) :
    ∃ r', readMessages expected ms.length r buffer =
        (true, r', (ms.map ReliableMessage.onWire).foldl (bufferMessage expected) buffer) ∧
      r'.Ahead rest ∧ r'.bitPos = r.bitPos + (ms.flatMap messageBits).length := by
  induction ms generalizing r buffer with
  | nil => exact ⟨r, rfl, by simpa using h, by simp⟩
  | cons m ms ih =>
    rw [List.flatMap_cons, List.append_assoc] at h
    obtain ⟨hid, hsize⟩ := hms m (by simp)
    obtain ⟨r₁, e₁, h₁, p₁⟩ := readMessage_ahead h hid hsize
    obtain ⟨r₂, e₂, h₂, p₂⟩ := ih h₁ (fun x hx => hms x (List.mem_cons_of_mem m hx))
      (bufferMessage expected buffer m.onWire)
    refine ⟨r₂, ?_, h₂, ?_⟩
    · rw [List.length_cons, readMessages, e₁]
      exact e₂
    · rw [List.flatMap_cons, List.length_append, p₂, p₁, Nat.add_assoc]

/-- The receiving half of one packet, decoded. -/
def absorb (e : ReliableEndpoint) (p : Packet) (size nowUs : Nat) :
    ReliableEndpoint × Option (List ReliableMessage) :=
  if e.received.contains p.sequence then (e, none)
  else
    match e.received.insert p.sequence with
    | none => (e, none)
    | some received =>
      let received := received.write p.sequence { recvTimeUs := nowUs, size }
      let e := ((e.noteReceived received p.sequence).processAcks p.ack p.ackBits).takeIn
        (p.messages.map ReliableMessage.onWire)
      (e.deliverInOrder.1, some e.deliverInOrder.2)

theorem readBody_ahead {r : BitReader} {p : Packet} {size : Nat} (hfits : p.Fits)
    (h : r.Ahead (toBits 8 (p.messages.length % 256) ++ (p.messages.flatMap messageBits ++
      (toBits 16 (p.unreliable.length % 65536) ++ bytesBits p.unreliable))))
    (hpos : r.bitPos = 64) (hsize : p.bits.length ≤ 8 * size) (e : ReliableEndpoint) :
    ∃ view, e.readBody r size =
      ((e.takeIn (p.messages.map ReliableMessage.onWire)).deliverInOrder.1,
        some (view, (e.takeIn (p.messages.map ReliableMessage.onWire)).deliverInOrder.2)) := by
  have hcount := hfits.count
  have h8 : p.messages.length < 256 := by
    unfold kMaxReliablePerPacket at hcount
    omega
  have hmod := (messagesBits_length p.messages fun m hm => (hfits.messages m hm).2).2
  have hbits : p.bits.length = 88 + (p.messages.flatMap messageBits).length +
      8 * p.unreliable.length := by
    simp only [Packet.bits, Packet.prefixBits, List.length_append, toBits_length,
      bytesBits_length]
    omega
  rw [Nat.mod_eq_of_lt h8] at h
  obtain ⟨r₁, e₁, h₁, p₁⟩ := h.readU8 h8
  obtain ⟨r₂, e₂, h₂, p₂⟩ := readMessages_ahead h₁ hfits.messages e.expectedMessageId
    e.reorderBuffer
  obtain ⟨r₃, e₃, h₃, p₃⟩ := h₂.readU16 (Nat.mod_lt _ (by omega))
  have hroom : ¬ size < r₃.bytesRead + p.unreliable.length % 65536 := by
    have := Nat.mod_le p.unreliable.length 65536
    rw [BitReader.bytesRead]
    omega
  simp only [readBody, e₁, e₂, e₃, if_neg (show ¬ kMaxReliablePerPacket < p.messages.length by omega),
    Bool.not_true, Bool.false_eq_true, if_false, h₃.clean, if_neg hroom]
  exact ⟨_, rfl⟩

/-- Reading the bytes of a packet is absorbing the packet. -/
theorem readPacket_encoded {p : Packet} {packet : List UInt8} (hfits : p.Fits)
    (henc : p.Encodes packet) (e : ReliableEndpoint) (nowUs : Nat) :
    (e.readPacket (BitReader.view packet) packet.length nowUs).1 =
      (e.absorb p packet.length nowUs).1 ∧
    (e.readPacket (BitReader.view packet) packet.length nowUs).2.map Prod.snd =
      (e.absorb p packet.length nowUs).2 := by
  obtain ⟨⟨pad, hbits⟩, hlen⟩ := henc
  have h := BitReader.ofBytes_ahead hbits hlen
  have hsize := congrArg List.length hbits
  rw [bytesBits_length, List.length_append] at hsize
  simp only [Packet.bits, Packet.prefixBits, List.append_assoc] at h
  obtain ⟨r₁, e₁, h₁, p₁⟩ := h.readU16 hfits.sequence
  obtain ⟨r₂, e₂, h₂, p₂⟩ := h₁.readU16 hfits.ack
  obtain ⟨r₃, e₃, h₃, p₃⟩ := h₂.readU32 hfits.ackBits
  have h64 : r₃.bitPos = 64 := by
    rw [p₃, p₂, p₁]
    rfl
  rw [BitReader.ofBytes] at e₁
  simp only [readPacket, e₁, e₂, e₃, h₃.clean, Bool.false_eq_true, if_false, absorb]
  split
  · exact ⟨rfl, rfl⟩
  · cases e.received.insert p.sequence with
    | none => exact ⟨rfl, rfl⟩
    | some received =>
      have hroom : p.bits.length ≤ 8 * packet.length := by omega
      obtain ⟨view, hbody⟩ := readBody_ahead hfits h₃ h64 hroom
        ((e.noteReceived (received.write p.sequence
          { recvTimeUs := nowUs, size := packet.length }) p.sequence).processAcks p.ack p.ackBits)
      simp [hbody]

/-- The message records that follow one another, up to the first malformed one. -/
def decodeMessages : Nat → BitReader → List ReliableMessage
  | 0, _ => []
  | count+1, r =>
    match readMessage r with
    | (none, _) => []
    | (some message, r) => message :: decodeMessages count r

/-- The reliable messages a packet carries. -/
def packetMessages (packet : List UInt8) : List ReliableMessage :=
  let (_, r) := (BitReader.ofBytes packet).readU16
  let (_, r) := r.readU16
  let (_, r) := r.readU32
  let (messageCount, r) := r.readU8
  decodeMessages messageCount r

theorem decodeMessages_ahead {ms : List ReliableMessage} {r : BitReader} {rest : List Bool}
    (h : r.Ahead (ms.flatMap messageBits ++ rest))
    (hms : ∀ m ∈ ms, m.id < 65536 ∧ m.payload.length ≤ kMaxReliableMessageSize) :
    decodeMessages ms.length r = ms.map ReliableMessage.onWire := by
  induction ms generalizing r with
  | nil => rfl
  | cons m ms ih =>
    rw [List.flatMap_cons, List.append_assoc] at h
    obtain ⟨hid, hsize⟩ := hms m (by simp)
    obtain ⟨r₁, e₁, h₁, -⟩ := readMessage_ahead h hid hsize
    rw [List.length_cons, decodeMessages, e₁, List.map_cons,
      ← ih h₁ fun x hx => hms x (List.mem_cons_of_mem m hx)]

theorem packetMessages_encoded {p : Packet} {packet : List UInt8} (hfits : p.Fits)
    (henc : p.Encodes packet) :
    packetMessages packet = p.messages.map ReliableMessage.onWire := by
  obtain ⟨⟨pad, hbits⟩, hlen⟩ := henc
  have h := BitReader.ofBytes_ahead hbits hlen
  have hcount := hfits.count
  have h8 : p.messages.length < 256 := by
    unfold kMaxReliablePerPacket at hcount
    omega
  simp only [Packet.bits, Packet.prefixBits, List.append_assoc, Nat.mod_eq_of_lt h8] at h
  obtain ⟨r₁, e₁, h₁, -⟩ := h.readU16 hfits.sequence
  obtain ⟨r₂, e₂, h₂, -⟩ := h₁.readU16 hfits.ack
  obtain ⟨r₃, e₃, h₃, -⟩ := h₂.readU32 hfits.ackBits
  obtain ⟨r₄, e₄, h₄, -⟩ := h₃.readU8 h8
  simp only [packetMessages, e₁, e₂, e₃, e₄]
  exact decodeMessages_ahead h₄ hfits.messages

end ReliableEndpoint
end Morton.Net
