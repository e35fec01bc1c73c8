import Morton.Net.Connection
import Morton.Proto.BitStreamRoom

/-! Datagrams as their readers see them: the type behind the protocol id, whatever follows,
and the fields of a body. -/
namespace Morton.Net
open Proto Bits

/-- What `write_header` writes. -/
def headerOf (capacity : Nat) (type : PacketType) : List UInt8 :=
  ((BitWriter.new (fun _ => 0) capacity).writeU32 kProtocolId |>.writeU8 type.code).bytes

theorem PacketType.code_lt (type : PacketType) : type.code < 2 ^ 8 := by
  cases type <;> decide

theorem PacketType.ofCode_code (type : PacketType) : PacketType.ofCode type.code = some type := by
  cases type <;> rfl

/-- A header is five bytes, the protocol id and the type. -/
theorem headerOf_bits {capacity : Nat} (hcapacity : capacity < 2 ^ 28) (hfits : 5 ≤ capacity)
    (type : PacketType) : (headerOf capacity type).length = 5 ∧
      bytesBits (headerOf capacity type) = toBits 32 kProtocolId ++ toBits 8 type.code := by
  have htakes := (BitWriter.writeU32_takes kProtocolId).comp (BitWriter.writeU8_takes type.code)
  have hlength : (toBits 32 kProtocolId ++ toBits 8 type.code).length = 40 := by
    rw [List.length_append, toBits_length, toBits_length]
  have hcap := BitWriter.new_capacity (fun _ => 0) hcapacity
  have hstart : (BitWriter.new (fun _ => 0) capacity).bitPos = 0 := rfl
  have hempty : (BitWriter.new (fun _ => 0) capacity).content = [] := by
    simp [BitWriter.content, BitWriter.new, toBits]
  have hnew := BitWriter.new_wf (fun _ => 0) capacity
  have hroom : (BitWriter.new (fun _ => 0) capacity).bitPos +
      (toBits 32 kProtocolId ++ toBits 8 type.code).length ≤
        (BitWriter.new (fun _ => 0) capacity).capacityBits := by
    omega
  obtain ⟨hwf, hclean, -, hpos⟩ := htakes.position hnew rfl hroom
  obtain ⟨-, -, -, hcontent⟩ := htakes.1 _ hnew (hnew.room hroom)
  rw [hstart, hlength] at hpos
  have hsize := BitWriter.bytes_length_of_aligned hwf (by rw [hpos])
  obtain ⟨pad, hbits, -⟩ := hwf.bytes_bits
  rw [(hcontent hclean).2, hempty, List.nil_append] at hbits
  have hpad := congrArg List.length hbits
  rw [bytesBits_length, List.length_append, hlength, hsize, hpos] at hpad
  have hnil : pad = [] := List.eq_nil_of_length_eq_zero (by omega)
  rw [hnil, List.append_nil] at hbits
  exact ⟨by rw [headerOf]; omega, hbits⟩

/-- The first bits of a memory that starts with these bytes. -/
theorem slice_view_append (front rest : List UInt8) :
    slice (BitReader.view (front ++ rest)) 0 (8 * front.length) = bytesBits front := by
  have hslice := slice_bytes (BitReader.view (front ++ rest)) 0 front.length
  rw [Nat.mul_zero] at hslice
  rw [hslice]
  congr 1
  apply List.ext_getElem
  · simp
  · intro i h₁ h₂
    simp [BitReader.view, h₂, List.getElem?_append_left]

/-- Whatever follows a header, its type is read or none is. -/
theorem readHeader_headerOf {capacity : Nat} (hcapacity : capacity < 2 ^ 28) (hfits : 5 ≤ capacity)
    {type type' : PacketType} {rest : List UInt8}
    (h : readHeader (headerOf capacity type ++ rest) = some type') : type' = type := by
  obtain ⟨hlength, hbits⟩ := headerOf_bits hcapacity hfits type
  have hslice := slice_view_append (headerOf capacity type) rest
  rw [hlength, hbits, show 8 * 5 = 32 + 8 from rfl, slice_add] at hslice
  obtain ⟨hid, hcode⟩ := List.append_inj hslice (by simp)
  rw [Nat.zero_add] at hcode
  unfold readHeader at h
  dsimp only at h
  split at h
  · cases h
  · split at h
    · cases h
    next hprotocol =>
      have hread : (BitReader.ofBytes (headerOf capacity type ++ rest)).readU32.2 =
          (BitReader.ofBytes (headerOf capacity type ++ rest)).advance 32 := by
        cases BitReader.readBits_cases (BitReader.ofBytes (headerOf capacity type ++ rest)) 32 with
        | inl hread => exact congrArg Prod.snd hread
        | inr hfail =>
          refine absurd ?_ hprotocol
          rw [BitReader.readU32, hfail]
          exact show 0 ≠ kProtocolId by decide
      rw [hread] at h
      cases BitReader.readBits_cases
        ((BitReader.ofBytes (headerOf capacity type ++ rest)).advance 32) 8 with
      | inl htype =>
        rw [BitReader.readU8, htype] at h
        change PacketType.ofCode (ofBits (slice (BitReader.view _) 32 8)) = _ at h
        rw [hcode, ofBits_toBits, Nat.mod_eq_of_lt type.code_lt, type.ofCode_code] at h
        exact (Option.some.inj h).symm
      | inr hfail =>
        rw [BitReader.readU8, hfail] at h
        cases h

theorem writeDatagram_eq (capacity : Nat) (type : PacketType) (body : BitWriter → BitWriter) :
    writeDatagram capacity type body = headerOf capacity type ++
      (body (BitWriter.new (fun _ => 0) (capacity - (headerOf capacity type).length))).bytes := rfl

/-- A datagram has the type it was written with. -/
theorem readHeader_writeDatagram {capacity : Nat} (hcapacity : capacity < 2 ^ 28)
    (hfits : 5 ≤ capacity) {type type' : PacketType} {body : BitWriter → BitWriter}
    {rest : List UInt8} (h : readHeader (writeDatagram capacity type body ++ rest) = some type') :
    type' = type := by
  rw [writeDatagram_eq, List.append_assoc] at h
  exact readHeader_headerOf hcapacity hfits h

/-- The reader of a body sees what was written. -/
theorem body_ahead {capacity : Nat} (hcapacity : capacity < 2 ^ 28) (hfits : 5 ≤ capacity)
    (type : PacketType) {body : BitWriter → BitWriter} {bits : List Bool}
    (hbody : BitWriter.Takes body bits) (hroom : bits.length ≤ 8 * (capacity - 5)) :
    (BitReader.ofBytes ((writeDatagram capacity type body).drop kHeaderBytes)).Ahead bits := by
  obtain ⟨hlength, -⟩ := headerOf_bits hcapacity hfits type
  have hclean := hbody.clean_new (fun _ => 0) (show capacity - 5 < 2 ^ 28 by omega) hroom
  obtain ⟨hahead, -⟩ := hbody.1.finished (fun _ => 0) (show capacity - 5 < 2 ^ 28 by omega) hclean
  rw [writeDatagram_eq, hlength, List.drop_left' (by rw [hlength]; rfl)]
  exact hahead

/-- A body of whole bytes is as long as its fields. -/
theorem body_length {capacity : Nat} (hcapacity : capacity < 2 ^ 28) (hfits : 5 ≤ capacity)
    (type : PacketType) {body : BitWriter → BitWriter} {bits : List Bool}
    (hbody : BitWriter.Takes body bits) (hroom : bits.length ≤ 8 * (capacity - 5))
    (haligned : bits.length % 8 = 0) :
    8 * ((writeDatagram capacity type body).drop kHeaderBytes).length = bits.length := by
  obtain ⟨hlength, -⟩ := headerOf_bits hcapacity hfits type
  have hcap := BitWriter.new_capacity (fun _ => 0) (show capacity - 5 < 2 ^ 28 by omega)
  have hstart : (BitWriter.new (fun _ => 0) (capacity - 5)).bitPos = 0 := rfl
  obtain ⟨hwf, -, -, hpos⟩ := hbody.position (BitWriter.new_wf (fun _ => 0) (capacity - 5)) rfl
    (by omega)
  have hsize := BitWriter.bytes_length_of_aligned hwf (by omega)
  rw [writeDatagram_eq, hlength, List.drop_left' (by rw [hlength]; rfl)]
  omega

/-- Every datagram that is not too long is recognised. -/
theorem readHeader_written {capacity : Nat} (hcapacity : capacity < 2 ^ 28) (hfits : 5 ≤ capacity)
    (type : PacketType) {body : BitWriter → BitWriter} {bits : List Bool}
    (hbody : BitWriter.Takes body bits) (hroom : bits.length ≤ 8 * (capacity - 5))
    (haligned : bits.length % 8 = 0) :
    readHeader (writeDatagram capacity type body) = some type := by
  obtain ⟨hlength, hbits⟩ := headerOf_bits hcapacity hfits type
  have hsize := body_length hcapacity hfits type hbody hroom haligned
  rw [writeDatagram_eq, hlength] at hsize ⊢
  generalize (body (BitWriter.new (fun _ => 0) (capacity - 5))).bytes = rest at hsize ⊢
  rw [List.drop_left' (by rw [hlength]; rfl)] at hsize
  have hlong : (headerOf capacity type ++ rest).length = 5 + rest.length := by
    rw [List.length_append, hlength]
  have hahead : (BitReader.ofBytes (headerOf capacity type ++ rest)).Ahead
      (toBits 32 kProtocolId ++ toBits 8 type.code) := by
    have hslice := slice_view_append (headerOf capacity type) rest
    rw [hlength, hbits] at hslice
    have hcap : (BitReader.ofBytes (headerOf capacity type ++ rest)).capacityBits =
        8 * (5 + rest.length) := by
      unfold BitReader.ofBytes BitReader.new
      rw [hlong]
      dsimp only
      omega
    have hstart : (BitReader.ofBytes (headerOf capacity type ++ rest)).bitPos = 0 := rfl
    refine ⟨rfl, ?_, by omega, ?_⟩
    · rw [hcap, hstart, List.length_append, toBits_length, toBits_length]
      omega
    · rw [List.length_append, toBits_length, toBits_length]
      exact hslice
  obtain ⟨r, hid, hnext, -⟩ := hahead.readU32 (by decide)
  rw [← List.append_nil (toBits 8 type.code)] at hnext
  obtain ⟨r', hcode, -, -⟩ := hnext.readU8 type.code_lt
  have hmin : ¬ (headerOf capacity type ++ rest).length < kHeaderBytes := by
    rw [hlong]
    unfold kHeaderBytes
    omega
  unfold readHeader
  rw [if_neg hmin, hid]
  dsimp only
  rw [hcode, if_neg (by simp)]
  exact type.ofCode_code

/-- An acceptance as its reader sees it. -/
theorem accepted_fields (salt clientId entity : Nat) :
    ∃ r r' r'', readSalt ((writeAccepted salt clientId entity).drop kHeaderBytes) =
        (salt % 2 ^ 64, r) ∧
      r.readU32 = (clientId % 2 ^ 32, r') ∧ r'.readU32 = (entity % 2 ^ 32, r'') ∧
      r''.overflow = false := by
  have htakes := ((BitWriter.writeU64_takes salt).comp (BitWriter.writeU32_takes clientId)).comp
    (BitWriter.writeU32_takes entity)
  have hahead := body_ahead (show 64 < 2 ^ 28 by decide) (by decide) .connectionAccepted htakes
    (by simp)
  rw [← toBits_mod 64 salt, ← toBits_mod 32 clientId, ← toBits_mod 32 entity, List.append_assoc]
    at hahead
  obtain ⟨r, hsalt, hnext, -⟩ := hahead.readU64 (Nat.mod_lt _ (by decide))
  obtain ⟨r', hclient, hlast, -⟩ := hnext.readU32 (Nat.mod_lt _ (by decide))
  rw [← List.append_nil (toBits 32 (entity % 2 ^ 32))] at hlast
  obtain ⟨r'', hentity, hend, -⟩ := hlast.readU32 (Nat.mod_lt _ (by decide))
  exact ⟨r, r', r'', hsalt, hclient, hentity, hend.clean⟩

end Morton.Net
