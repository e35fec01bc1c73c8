import Morton.Base.Rolling
import Morton.Cluster.MigrationTicket
import Morton.Proto.EventCodec

/-! The wire form of a ticket: which tickets fit, and that no single altered byte gets past
the checksum. -/
namespace Morton.Cluster
open Proto Bits

/-- The bytes of a ticket's fields, its strings in full. -/
def fieldBytes (ticket : MigrationTicket) : Nat :=
  8 + BitWriter.stringBytes ticket.playerId + BitWriter.stringBytes ticket.fromShard +
    BitWriter.stringBytes ticket.toShard + BitWriter.varintBytes ticket.region + 4 + 16 +
    BitWriter.varintBytes ticket.lastInputSequence + 8

theorem ticketBits_length {ticket : MigrationTicket} (hplayer : ticket.playerId.length ≤ 1023)
    (hfrom : ticket.fromShard.length ≤ 1023) (hto : ticket.toShard.length ≤ 1023) :
    (ticketBits ticket).length = 8 * fieldBytes ticket := by
  simp only [ticketBits, List.length_append, toBits_length, BitWriter.varintBits_length,
    BitWriter.stringBits_length hplayer, BitWriter.stringBits_length hfrom,
    BitWriter.stringBits_length hto, fieldBytes]
  omega

theorem writeTicket_takes (ticket : MigrationTicket) :
    BitWriter.Takes (writeTicket ticket)
      (BitWriter.varintBits 4 kMigrationVersion ++ ticketBits ticket) :=
  (BitWriter.writeVarint_takes _).comp <|
  (BitWriter.writeU64_takes _).comp <|
  (BitWriter.writeString_takes _).comp <|
  (BitWriter.writeString_takes _).comp <|
  (BitWriter.writeString_takes _).comp <|
  (BitWriter.writeVarint_takes _).comp <|
  (BitWriter.writeU32_takes _).comp <|
  (BitWriter.writeU32_takes _).comp <|
  (BitWriter.writeU32_takes _).comp <|
  (BitWriter.writeU32_takes _).comp <|
  (BitWriter.writeU32_takes _).comp <|
  (BitWriter.writeVarint_takes _).comp <|
  BitWriter.writeU64_takes _

/-- A ticket that fits has strings that are written in full. -/
theorem strings_whole (ticket : MigrationTicket) (h : (ticketBits ticket).length ≤ 4096) :
    ticket.playerId.length ≤ 1023 ∧ ticket.fromShard.length ≤ 1023 ∧
      ticket.toShard.length ≤ 1023 := by
  have hplayer := BitWriter.stringBits_length_ge ticket.playerId
  have hfrom := BitWriter.stringBits_length_ge ticket.fromShard
  have hto := BitWriter.stringBits_length_ge ticket.toShard
  simp only [ticketBits, List.length_append] at h
  omega

theorem ticketBits_length_le_iff (ticket : MigrationTicket) {limit : Nat} (hlimit : limit ≤ 512) :
    (ticketBits ticket).length ≤ 8 * limit ↔ fieldBytes ticket ≤ limit := by
  constructor
  · intro h
    obtain ⟨hplayer, hfrom, hto⟩ := strings_whole ticket (by omega)
    rw [ticketBits_length hplayer hfrom hto] at h
    omega
  · intro h
    have hsize := h
    simp only [fieldBytes, BitWriter.stringBytes] at hsize
    rw [ticketBits_length (by omega) (by omega) (by omega)]
    omega

/-- Behind whole bytes the checksum goes in exactly when four more bytes have room. -/
theorem checksummed_eq_nil_iff {w : BitWriter} (hwf : w.WF) (hclean : w.overflow = false)
    (hroom : w.Room 32) (h8 : w.bitPos % 8 = 0) :
    (if (w.writeU32 (checksum w.bytes).toNat).overflow then []
      else (w.writeU32 (checksum w.bytes).toNat).bytes) = [] ↔ w.capacityBits < w.bitPos + 32 := by
  have hlength : (toBits 32 (checksum w.bytes).toNat).length = 32 := toBits_length 32 _
  have hiff := (BitWriter.writeU32_takes (checksum w.bytes).toNat).clean_iff hwf hclean
    (hlength.symm ▸ hroom)
  rw [hlength] at hiff
  cases hover : (w.writeU32 (checksum w.bytes).toNat).overflow with
  | true =>
    have hfull : ¬ w.bitPos + 32 ≤ w.capacityBits := by
      intro hle
      rw [hiff.mpr hle] at hover
      cases hover
    rw [if_pos rfl]
    constructor
    · intro _
      omega
    · intro _
      rfl
  | false =>
    have hle := hiff.mp hover
    have hemits := BitWriter.writeU32_emits (checksum w.bytes).toNat
    have hwf' : (w.writeU32 (checksum w.bytes).toNat).WF :=
      (hemits w hwf (hlength.symm ▸ hroom)).1
    have hpos : (w.writeU32 (checksum w.bytes).toNat).bitPos = w.bitPos + 32 := by
      rw [hemits.bitPos hwf (hlength.symm ▸ hroom) hover, hlength]
    have hbytes := BitWriter.bytes_length_of_aligned hwf' (by omega)
    rw [if_neg (by decide)]
    constructor
    · intro hnil
      rw [hnil, List.length_nil] at hbytes
      omega
    · intro h
      omega

/-- A ticket is refused exactly when its fields, the version before them and the checksum
behind them take more than the buffer. -/
theorem encodeMigrationTicket_eq_nil_iff (ticket : MigrationTicket) :
    encodeMigrationTicket ticket = [] ↔ kMigrationTicketBytes < 1 + fieldBytes ticket + 4 := by
  have hnew := BitWriter.new_wf (fun _ => 0) kMigrationTicketBytes
  have hcap : (BitWriter.new (fun _ => 0) kMigrationTicketBytes).capacityBits = 4096 := by decide
  have hstart : (BitWriter.new (fun _ => 0) kMigrationTicketBytes).bitPos = 0 := rfl
  have hversion : (BitWriter.varintBits 4 kMigrationVersion).length = 8 := rfl
  have hlimit : kMigrationTicketBytes = 512 := rfl
  have htakes := writeTicket_takes ticket
  have hroom : ∀ n, (BitWriter.new (fun _ => 0) kMigrationTicketBytes).Room n :=
    fun n => Or.inr (by omega)
  have hfits := htakes.clean_iff hnew rfl (hroom _)
  have hiff := ticketBits_length_le_iff ticket (show 507 ≤ 512 by omega)
  rw [List.length_append, hversion, hcap, hstart] at hfits
  unfold encodeMigrationTicket
  by_cases hclean : (writeTicket ticket (BitWriter.new (fun _ => 0) kMigrationTicketBytes)).overflow =
      false
  · have hbits := hfits.mp hclean
    obtain ⟨hplayer, hfrom, hto⟩ := strings_whole ticket (by omega)
    have hlength := ticketBits_length hplayer hfrom hto
    obtain ⟨hwf, -, hsame, hpos⟩ := htakes.position hnew rfl
      (by rw [List.length_append, hversion]; omega)
    rw [List.length_append, hversion] at hpos
    generalize writeTicket ticket _ = w at *
    -- whole bytes only: there is nothing to pad
    have halign : w.align = w := by
      rw [BitWriter.align]
      exact if_neg (by omega)
    have hpending : w.pendingBits = 0 := by
      have := hwf.position
      have := hwf.pending
      omega
    have hsum := checksummed_eq_nil_iff hwf hclean (Or.inr (by omega)) (by omega)
    simp only [halign, hclean, Bool.false_eq_true, if_false, (BitWriter.bytes_of_aligned hpending).2]
    rw [hsum]
    omega
  · obtain ⟨hwf, hsame, -, -⟩ := htakes.1 _ hnew (hroom _)
    obtain ⟨-, -, -, hpadded⟩ := BitWriter.align_spec hwf (Or.inr (by omega))
    have hfull : (writeTicket ticket
        (BitWriter.new (fun _ => 0) kMigrationTicketBytes)).align.overflow = true := by
      cases hover : (writeTicket ticket
          (BitWriter.new (fun _ => 0) kMigrationTicketBytes)).align.overflow with
      | true => rfl
      | false => exact absurd (hpadded hover).1 hclean
    dsimp only
    rw [if_pos hfull]
    constructor
    · intro _
      by_contra hsmall
      exact hclean (hfits.mpr (by omega))
    · intro _
      rfl

/-- Events, credentials and tickets come back as they were sent, and a ticket is refused only
for its size. -/
theorem message_codecs_round_trip :
    (∀ (event : WorldConfigEvent) capacity, event.InRange → capacity ≤ kMaxReliableMessageSize →
      encodeWorldConfig event capacity ≠ [] →
      decodeWorldConfig (encodeWorldConfig event capacity) = some event) ∧
    (∀ (event : MigrateRedirectEvent) capacity, event.InRange → event.endpoint ≠ [] →
      capacity ≤ kMaxReliableMessageSize → encodeMigrateRedirect event capacity ≠ [] →
      decodeMigrateRedirect (encodeMigrateRedirect event capacity) = some event) ∧
    (∀ credential : ConnectCredential, credential.token < 2 ^ 64 → credential.playerId ≠ [] →
      credential.playerId.length ≤ kMaxPlayerIdBytes →
      ∃ token, encodeCredential credential = some token ∧
        token.length = Net.kConnectTokenBytes ∧ decodeCredential token = some credential) ∧
    (∀ ticket : MigrationTicket, ticket.InRange → ticket.playerId ≠ [] →
      encodeMigrationTicket ticket ≠ [] →
      decodeMigrationTicket (encodeMigrationTicket ticket) = some ticket) ∧
    ∀ ticket : MigrationTicket, encodeMigrationTicket ticket = [] ↔
      kMigrationTicketBytes < 1 + fieldBytes ticket + 4 := by
  refine ⟨fun event capacity hrange hcapacity hfits => ?_,
    fun event capacity hrange hendpoint hcapacity hfits => ?_,
    fun credential htoken hnonempty hshort => ?_, fun ticket hrange hplayer hfits => ?_,
    encodeMigrationTicket_eq_nil_iff⟩
  · exact decodeWorldConfig_encode hrange hcapacity hfits
  · rw [decodeMigrateRedirect_encode hrange hcapacity hfits, if_neg hendpoint]
  · exact decodeCredential_encode htoken hnonempty hshort
  · rw [decodeMigrationTicket_encode hrange hfits, if_neg hplayer]

/-- A player on its way between two shards, with an input sequence of five bytes. -/
def movingTicket : MigrationTicket :=
  { token := 2 ^ 64 - 3, playerId := List.replicate 20 97, fromShard := [98], toShard := [99, 100]
    region := 300, tick := 4000, position := ⟨0x42C80000, 0x43480000⟩
    velocity := ⟨0x40A00000, 0x80000000⟩, lastInputSequence := 2 ^ 32 - 1, issuedMs := 1700000000000 }

/-- The redirect it is sent off with, and what the other shard welcomes it with. -/
def movingRedirect : MigrateRedirectEvent := ⟨2 ^ 64 - 3, 300, [99, 58, 55], [99, 100]⟩

def welcome : WorldConfigEvent := { entity := 9, tick := 4000, region := 300, shardId := [99, 100] }

/-- The messages of one migration, and a ticket whose shard has too long a name. -/
theorem message_codecs_round_trip_moving :
    decodeMigrationTicket (encodeMigrationTicket movingTicket) = some movingTicket ∧
    decodeMigrateRedirect (encodeMigrateRedirect movingRedirect 18) = some movingRedirect ∧
    (∃ token, encodeCredential ⟨.migration, 2 ^ 64 - 3, movingTicket.playerId⟩ = some token ∧
      token.length = Net.kConnectTokenBytes ∧
      decodeCredential token = some ⟨.migration, 2 ^ 64 - 3, movingTicket.playerId⟩) ∧
    decodeWorldConfig (encodeWorldConfig welcome 32) = some welcome ∧
    encodeMigrationTicket { movingTicket with toShard := List.replicate 500 98 } = [] := by
  obtain ⟨hconfig, hredirect, hcredential, hticket, hempty⟩ := message_codecs_round_trip
  refine ⟨?_, ?_, ?_, ?_, ?_⟩
  · exact hticket movingTicket (by constructor <;> decide) (by decide) (by decide +kernel)
  · exact hredirect movingRedirect 18 ⟨by decide, by decide⟩ (by decide) (by decide)
      (by decide +kernel)
  · exact hcredential _ (by decide) (by decide) (by decide)
  · exact hconfig welcome 32 (by constructor <;> decide) (by decide) (by decide +kernel)
  · rw [hempty]
    decide +kernel

/-- Fields of exactly the size of the buffer. -/
def fullTicket : MigrationTicket := { playerId := [97], fromShard := List.replicate 469 98 }

theorem fullTicket_refused :
    ¬ ∀ ticket : MigrationTicket, ticket.InRange → ticket.playerId ≠ [] →
      encodeMigrationTicket ticket = [] → kMigrationTicketBytes < fieldBytes ticket := by
  intro h
  have hfrom : fullTicket.fromShard.length = 469 := List.length_replicate
  have hsize : fieldBytes fullTicket = 512 := by
    simp only [fieldBytes, BitWriter.stringBytes, hfrom]
    rfl
  have hrange : fullTicket.InRange := by constructor <;> decide
  have hnil : encodeMigrationTicket fullTicket = [] := by
    rw [encodeMigrationTicket_eq_nil_iff, hsize]
    decide
  have hlarge := h fullTicket hrange (by decide) hnil
  rw [hsize] at hlarge
  exact absurd hlarge (by decide)

/-- The step of `checksum`: the prime is odd, so multiplying by it can be undone. -/
theorem checksum_lossless :
    Rolling.Lossless fun (hash : UInt32) (b : UInt8) => (hash ^^^ b.toUInt32) * 16777619 := by
  have hmul : ∀ x y : UInt32, x * 16777619 = y * 16777619 → x = y := by
    intro x y h
    have hundo : (16777619 : UInt32) * 899433627 = 1 := by decide
    calc x = x * 16777619 * 899433627 := by rw [UInt32.mul_assoc, hundo, UInt32.mul_one]
      _ = y * 16777619 * 899433627 := by rw [h]
      _ = y := by rw [UInt32.mul_assoc, hundo, UInt32.mul_one]
  constructor
  · intro b x y h
    exact UInt32.xor_left_inj b.toUInt32 |>.mp (hmul _ _ h)
  · intro hash a b h
    have hbyte := UInt32.xor_right_inj hash |>.mp (hmul _ _ h)
    have hnat := congrArg UInt32.toNat hbyte
    rw [UInt8.toNat_toUInt32, UInt8.toNat_toUInt32] at hnat
    exact UInt8.toNat_inj.mp hnat

theorem checksum_set_ne {data : Bytes} {i : Nat} (hi : i < data.length) {b : UInt8}
    (hb : b ≠ data[i]) : checksum (data.set i b) ≠ checksum data :=
  checksum_lossless.foldl_set_ne hi hb 2166136261

theorem littleEndianBytes_littleEndian (data : Bytes) (h : data.length = 4) :
    littleEndianBytes (littleEndian data) = data := by
  match data, h with
  | [a, b, c, d], _ =>
    have := a.toNat_lt
    have := b.toNat_lt
    have := c.toNat_lt
    have := d.toNat_lt
    have hbyte : ∀ (x : UInt8) (n : Nat), n % 256 = x.toNat → UInt8.ofNat n = x := by
      intro x n hx
      apply UInt8.toNat_inj.mp
      rw [UInt8.toNat_ofNat']
      exact hx
    simp only [littleEndian, List.getD_cons_zero, List.getD_cons_succ]
    rw [lor_shiftLeft (n := 8) (by omega), lor_shiftLeft (n := 16) (by omega),
      lor_shiftLeft (n := 24) (by omega), littleEndianBytes,
      hbyte a _ (by omega), hbyte b _ (by omega), hbyte c _ (by omega), hbyte d _ (by omega)]

/-- The decoder's test of the checksum, on a blob whose last four bytes are set apart. -/
theorem decodeMigrationTicket_append_eq_none {body tail : Bytes} (htail : tail.length = 4)
    (h : (checksum body).toNat ≠ littleEndian tail) : decodeMigrationTicket (body ++ tail) = none := by
  have hsize : (body ++ tail).length - 4 = body.length := by
    rw [List.length_append, htail]
    omega
  rw [decodeMigrationTicket]
  split
  · rfl
  · dsimp only
    rw [hsize, List.take_left, List.drop_left, if_pos h]

/-- One byte of an encoded ticket, in the body or in the checksum, is never altered unseen. -/
theorem decodeMigrationTicket_set_eq_none (ticket : MigrationTicket) (i : Nat)
    (hi : i < (encodeMigrationTicket ticket).length) (b : UInt8)
    (hb : b ≠ (encodeMigrationTicket ticket)[i]) :
    decodeMigrationTicket ((encodeMigrationTicket ticket).set i b) = none := by
  obtain hnil | ⟨body, pad, henc, -, -⟩ := encodeMigrationTicket_cases ticket
  · rw [hnil] at hi
    exact absurd hi (Nat.not_lt_zero i)
  have hsum : littleEndian (littleEndianBytes (checksum body).toNat) = (checksum body).toNat :=
    littleEndian_littleEndianBytes (checksum body).toNat_lt
  simp only [henc] at hi hb ⊢
  by_cases hbody : i < body.length
  · rw [List.getElem_append_left hbody] at hb
    rw [List.set_append_left i b hbody]
    apply decodeMigrationTicket_append_eq_none rfl
    rw [hsum]
    exact fun heq => checksum_set_ne hbody hb (UInt32.toNat_inj.mp heq)
  · rw [List.getElem_append_right (Nat.not_lt.mp hbody)] at hb
    rw [List.set_append_right i b (Nat.not_lt.mp hbody)]
    apply decodeMigrationTicket_append_eq_none (by rw [List.length_set]; rfl)
    intro heq
    -- the altered bytes would spell the same sum
    have hspelled := littleEndianBytes_littleEndian
      ((littleEndianBytes (checksum body).toNat).set (i - body.length) b)
      (by rw [List.length_set]; rfl)
    rw [← heq] at hspelled
    have hplace : i - body.length < (littleEndianBytes (checksum body).toNat).length := by
      rw [List.length_append] at hi
      omega
    apply hb
    apply Option.some.inj
    calc some b
      _ = ((littleEndianBytes (checksum body).toNat).set (i - body.length) b)[i - body.length]? :=
          (List.getElem?_set_self hplace).symm
      _ = (littleEndianBytes (checksum body).toNat)[i - body.length]? := by rw [← hspelled]
      _ = some _ := List.getElem?_eq_getElem hplace

/-- Another token, and another checksum. -/
theorem decodeMigrationTicket_set_eq_none_ends :
    decodeMigrationTicket ((encodeMigrationTicket { playerId := [97] }).set 1 7) = none ∧
    decodeMigrationTicket ((encodeMigrationTicket { playerId := [97] }).set 46 7) = none :=
  ⟨decodeMigrationTicket_set_eq_none { playerId := [97] } 1 (by decide +kernel) 7
      (by decide +kernel),
    decodeMigrationTicket_set_eq_none { playerId := [97] } 46 (by decide +kernel) 7
      (by decide +kernel)⟩

end Morton.Cluster
