import Morton.Proto.Messages
import Morton.Sim.World

/-! Handoff tickets and their wire form: the fields, padded to a byte, and a checksum
over them. Coordinates are the 32-bit patterns of the floats. -/
namespace Morton.Cluster
open Proto Bits Sim

def kMigrationVersion : Nat := 1

def kMigrationTicketBytes : Nat := 512

structure MigrationTicket where
  token : Nat := 0
  playerId : Bytes := []
  fromShard : Bytes := []
  toShard : Bytes := []
  region : Nat := 0
  tick : Nat := 0
  position : Vec2 UInt32 := ⟨0, 0⟩
  velocity : Vec2 UInt32 := ⟨0, 0⟩
  lastInputSequence : Nat := 0
  issuedMs : Nat := 0
  deriving DecidableEq

def checksum (data : Bytes) : UInt32 :=
  data.foldl (fun hash b => (hash ^^^ b.toUInt32) * 16777619) 2166136261

def writeTicket (ticket : MigrationTicket) (w : BitWriter) : BitWriter :=
  let w := w.writeVarint kMigrationVersion
  let w := w.writeU64 ticket.token
  let w := w.writeString ticket.playerId
  let w := w.writeString ticket.fromShard
  let w := w.writeString ticket.toShard
  let w := w.writeVarint ticket.region
  let w := w.writeU32 ticket.tick
  let w := w.writeU32 ticket.position.x.toNat
  let w := w.writeU32 ticket.position.y.toNat
  let w := w.writeU32 ticket.velocity.x.toNat
  let w := w.writeU32 ticket.velocity.y.toNat
  let w := w.writeVarint ticket.lastInputSequence
  w.writeU64 ticket.issuedMs

/-- The empty string reports that the ticket does not fit. -/
def encodeMigrationTicket (ticket : MigrationTicket) : Bytes :=
  let w := (writeTicket ticket (BitWriter.new (fun _ => 0) kMigrationTicketBytes)).align
  if w.overflow then []
  else
    let sum := checksum w.bytes
    let w := w.bytesWritten.2.writeU32 sum.toNat
    if w.overflow then [] else w.bytes

def readTicket (r : BitReader) : MigrationTicket × BitReader :=
  let (token, r) := r.readU64
  let (playerId, r) := r.readString
  let (fromShard, r) := r.readString
  let (toShard, r) := r.readString
  let (region, r) := r.readVarint
  let (tick, r) := r.readU32
  let (px, r) := r.readU32
  let (py, r) := r.readU32
  let (vx, r) := r.readU32
  let (vy, r) := r.readU32
  let (lastInputSequence, r) := r.readVarint
  let (issuedMs, r) := r.readU64
  ({ token, playerId, fromShard, toShard, region, tick
     position := ⟨UInt32.ofNat px, UInt32.ofNat py⟩
     velocity := ⟨UInt32.ofNat vx, UInt32.ofNat vy⟩
     lastInputSequence, issuedMs }, r)

/-- Four bytes, low one first. -/
def littleEndian (data : Bytes) : Nat :=
  (data.getD 0 0).toNat ||| (data.getD 1 0).toNat <<< 8 ||| (data.getD 2 0).toNat <<< 16 |||
    (data.getD 3 0).toNat <<< 24

/-- `none` is `return false`. -/
def decodeMigrationTicket (blob : Bytes) : Option MigrationTicket :=
  if blob.length < 5 ∨ kMigrationTicketBytes < blob.length then none
  else
    let body := blob.take (blob.length - 4)
    let expected := littleEndian (blob.drop (blob.length - 4))
    if (checksum body).toNat ≠ expected then none
    else
      let (version, r) := (BitReader.ofBytes body).readVarint
      if version ≠ kMigrationVersion then none
      else
        let (ticket, r) := readTicket r
        if r.overflow ∨ ticket.playerId = [] then none else some ticket

/-- The ranges of the fields' types in the source. -/
structure MigrationTicket.InRange (ticket : MigrationTicket) : Prop where
  token : ticket.token < 2 ^ 64
  region : ticket.region < 2 ^ 32
  tick : ticket.tick < 2 ^ 32
  sequence : ticket.lastInputSequence < 2 ^ 32
  issued : ticket.issuedMs < 2 ^ 64

/-- The bits of a ticket after its version. -/
def ticketBits (ticket : MigrationTicket) : List Bool :=
  toBits 64 ticket.token ++ (BitWriter.stringBits ticket.playerId ++
    (BitWriter.stringBits ticket.fromShard ++ (BitWriter.stringBits ticket.toShard ++
    (BitWriter.varintBits 4 ticket.region ++ (toBits 32 ticket.tick ++
    (toBits 32 ticket.position.x.toNat ++ (toBits 32 ticket.position.y.toNat ++
    (toBits 32 ticket.velocity.x.toNat ++ (toBits 32 ticket.velocity.y.toNat ++
    (BitWriter.varintBits 4 ticket.lastInputSequence ++ toBits 64 ticket.issuedMs))))))))))

theorem writeTicket_emits (ticket : MigrationTicket) :
    BitWriter.Emits (writeTicket ticket)
      (BitWriter.varintBits 4 kMigrationVersion ++ ticketBits ticket) :=
  (BitWriter.writeVarint_emits _).comp <|
  (BitWriter.writeU64_emits _).comp <|
  (BitWriter.writeString_emits _).comp <|
  (BitWriter.writeString_emits _).comp <|
  (BitWriter.writeString_emits _).comp <|
  (BitWriter.writeVarint_emits _).comp <|
  (BitWriter.writeU32_emits _).comp <|
  (BitWriter.writeU32_emits _).comp <|
  (BitWriter.writeU32_emits _).comp <|
  (BitWriter.writeU32_emits _).comp <|
  (BitWriter.writeU32_emits _).comp <|
  (BitWriter.writeVarint_emits _).comp <|
  BitWriter.writeU64_emits _

theorem readTicket_ahead {ticket : MigrationTicket} {r : BitReader} {rest : List Bool}
    (h : r.Ahead (ticketBits ticket ++ rest)) (hrange : ticket.InRange)
    (hplayer : ticket.playerId.length ≤ 1023) (hfrom : ticket.fromShard.length ≤ 1023)
    (hto : ticket.toShard.length ≤ 1023) :
    ∃ r', readTicket r = (ticket, r') ∧ r'.Ahead rest := by
  simp only [ticketBits, List.append_assoc] at h
  obtain ⟨r₁, e₁, h, -⟩ := h.readU64 hrange.token
  obtain ⟨r₂, e₂, h, -⟩ := h.readString hplayer
  obtain ⟨r₃, e₃, h, -⟩ := h.readString hfrom
  obtain ⟨r₄, e₄, h, -⟩ := h.readString hto
  obtain ⟨r₅, e₅, h, -⟩ := h.readVarint hrange.region
  obtain ⟨r₆, e₆, h, -⟩ := h.readU32 hrange.tick
  obtain ⟨r₇, e₇, h, -⟩ := h.readU32 ticket.position.x.toNat_lt
  obtain ⟨r₈, e₈, h, -⟩ := h.readU32 ticket.position.y.toNat_lt
  obtain ⟨r₉, e₉, h, -⟩ := h.readU32 ticket.velocity.x.toNat_lt
  obtain ⟨s₁, f₁, h, -⟩ := h.readU32 ticket.velocity.y.toNat_lt
  obtain ⟨s₂, f₂, h, -⟩ := h.readVarint hrange.sequence
  obtain ⟨s₃, f₃, h, -⟩ := h.readU64 hrange.issued
  refine ⟨s₃, ?_, h⟩
  simp only [readTicket, e₁, e₂, e₃, e₄, e₅, e₆, e₇, e₈, e₉, f₁, f₂, f₃, UInt32.ofNat_toNat]

/-- The bytes `write_u32` leaves at a byte boundary. -/
def littleEndianBytes (value : Nat) : Bytes :=
  [UInt8.ofNat value, UInt8.ofNat (value / 2 ^ 8), UInt8.ofNat (value / 2 ^ 16),
    UInt8.ofNat (value / 2 ^ 24)]

theorem bytesBits_littleEndianBytes (value : Nat) :
    bytesBits (littleEndianBytes value) = toBits 32 value := by
  rw [show (32 : Nat) = 8 + (8 + (8 + 8)) from rfl, toBits_add, toBits_add, toBits_add]
  simp only [littleEndianBytes, bytesBits_cons, bytesBits_nil, UInt8.toNat_ofNat', toBits_mod,
    Nat.div_div_eq_div_mul, List.append_nil, ← Nat.pow_add]

/-- Bits set above a number are added to it. -/
theorem lor_shiftLeft {low n : Nat} (h : low < 2 ^ n) (high : Nat) :
    low ||| high <<< n = low + high * 2 ^ n := by
  rw [Nat.lor_comm, ← Nat.shiftLeft_add_eq_or_of_lt h, Nat.shiftLeft_eq, Nat.add_comm]

theorem littleEndian_littleEndianBytes {value : Nat} (h : value < 2 ^ 32) :
    littleEndian (littleEndianBytes value) = value := by
  simp only [littleEndian, littleEndianBytes, List.getD_cons_zero, List.getD_cons_succ,
    UInt8.toNat_ofNat']
  rw [lor_shiftLeft (n := 8) (by omega), lor_shiftLeft (n := 16) (by omega),
    lor_shiftLeft (n := 24) (by omega)]
  omega

/-- An encoded ticket: its bits padded to whole bytes, and the checksum of these. -/
theorem encodeMigrationTicket_cases (ticket : MigrationTicket) :
    encodeMigrationTicket ticket = [] ∨
    ∃ body pad, encodeMigrationTicket ticket =
        body ++ littleEndianBytes (checksum body).toNat ∧
      bytesBits body = BitWriter.varintBits 4 kMigrationVersion ++ ticketBits ticket ++ pad ∧
      8 * body.length + 32 ≤ 4096 := by
  have hroom : ∀ (w : BitWriter) n, w.capacityBits = 4096 → w.Room n := by
    intro w n hw
    exact Or.inr (by rw [hw]; decide)
  obtain ⟨hwf₁, hcap₁, -, hcontent₁⟩ := writeTicket_emits ticket _
    (BitWriter.new_wf (fun _ => 0) kMigrationTicketBytes) (hroom _ _ (by decide))
  obtain ⟨hwf₂, hcap₂, -, hcontent₂⟩ := BitWriter.align_spec hwf₁ (hroom _ _ (by rw [hcap₁]; decide))
  unfold encodeMigrationTicket
  generalize writeTicket ticket _ = w₁ at *
  dsimp only
  split
  · exact Or.inl rfl
  · rename_i hclean₂
    obtain ⟨hclean₁, hpending₂, pad, hpad⟩ := hcontent₂ (by simpa using hclean₂)
    obtain ⟨hbytes₂, hsame⟩ := BitWriter.bytes_of_aligned hpending₂
    have hcap : w₁.align.capacityBits = 4096 := hcap₂.trans hcap₁
    have hspec := BitWriter.writeU32_emits (checksum w₁.align.bytes).toNat w₁.align hwf₂
      (hroom _ _ hcap)
    dsimp only at hspec
    obtain ⟨hwf₃, hcap₃, -, hcontent₃⟩ := hspec
    rw [hsame]
    split
    · exact Or.inl rfl
    · rename_i hclean₃
      obtain ⟨-, hsum⟩ := hcontent₃ (by simpa using hclean₃)
      have hlen := congrArg List.length hsum
      rw [hwf₃.content_length, List.length_append, hwf₂.content_length, toBits_length] at hlen
      have hpending₃ : (w₁.align.writeU32 (checksum w₁.align.bytes).toNat).pendingBits = 0 := by
        have := hwf₃.position
        have := hwf₃.pending
        have := hwf₂.position
        omega
      obtain ⟨hbytes₃, -⟩ := BitWriter.bytes_of_aligned hpending₃
      refine Or.inr ⟨w₁.align.bytes, pad, bytesBits_inj ?_, ?_, ?_⟩
      · rw [hbytes₃, hsum, bytesBits_append, hbytes₂, bytesBits_littleEndianBytes]
      · rw [hbytes₂, hpad, (hcontent₁ hclean₁).2]
        rfl
      · have hfits := hwf₃.fits
        have hcount := congrArg List.length hbytes₂
        rw [bytesBits_length, hwf₂.content_length] at hcount
        have : (w₁.align.writeU32 (checksum w₁.align.bytes).toNat).capacityBits = 4096 :=
          hcap₃.trans hcap
        omega

/-- A ticket that fits comes back, unless it names no player. -/
theorem decodeMigrationTicket_encode {ticket : MigrationTicket} (hrange : ticket.InRange)
    (hfits : encodeMigrationTicket ticket ≠ []) :
    decodeMigrationTicket (encodeMigrationTicket ticket) =
      if ticket.playerId = [] then none else some ticket := by
  obtain hnil | ⟨body, pad, henc, hbits, hlen⟩ := encodeMigrationTicket_cases ticket
  · exact absurd hnil hfits
  have hcount := congrArg List.length hbits
  rw [bytesBits_length, List.length_append, List.length_append] at hcount
  have hversion : (BitWriter.varintBits 4 kMigrationVersion).length = 8 := rfl
  have hticket : (ticketBits ticket).length ≤ 4096 := by omega
  simp only [ticketBits, List.length_append] at hticket
  have hplayer := BitWriter.stringBits_length_ge ticket.playerId
  have hfrom := BitWriter.stringBits_length_ge ticket.fromShard
  have hto := BitWriter.stringBits_length_ge ticket.toShard
  have hwritten : bytesBits body =
      BitWriter.varintBits 4 kMigrationVersion ++ (ticketBits ticket ++ []) ++ pad := by
    rw [hbits, List.append_nil]
  have hahead := BitReader.ofBytes_ahead hwritten (by omega)
  obtain ⟨r₁, e₁, hahead₁, -⟩ := hahead.readVarint (by decide)
  obtain ⟨r₂, e₂, hahead₂⟩ := readTicket_ahead hahead₁ hrange (by omega) (by omega) (by omega)
  have hsize : (encodeMigrationTicket ticket).length = body.length + 4 := by
    rw [henc, List.length_append]
    rfl
  have htake : (encodeMigrationTicket ticket).take ((encodeMigrationTicket ticket).length - 4) =
      body := by
    rw [hsize, henc, Nat.add_sub_cancel, List.take_left]
  have hdrop : (encodeMigrationTicket ticket).drop ((encodeMigrationTicket ticket).length - 4) =
      littleEndianBytes (checksum body).toNat := by
    rw [hsize, henc, Nat.add_sub_cancel, List.drop_left]
  rw [decodeMigrationTicket, if_neg (by rw [hsize, kMigrationTicketBytes]; omega)]
  dsimp only
  rw [htake, hdrop, littleEndian_littleEndianBytes (checksum body).toNat_lt, if_neg (by simp), e₁]
  simp only [e₂, hahead₂.clean, ne_eq, not_true, if_false, Bool.false_eq_true, false_or]

end Morton.Cluster
