import Morton.Net.Connection
import Morton.Proto.BitStreamRoom

/-! Events and credentials come back from the wire. Their strings are cut at 1023 bytes only,
which no buffer they are written to holds. -/
namespace Morton.Proto
open Bits
open Net (kConnectTokenBytes)

/-- The ranges of the fields' types in the source. -/
structure WorldConfigEvent.InRange (event : WorldConfigEvent) : Prop where
  entity : event.entity < 2 ^ 32
  tick : event.tick < 2 ^ 32
  region : event.region < 2 ^ 32
  tickRate : event.tickRate < 2 ^ 32

def worldConfigBits (event : WorldConfigEvent) : List Bool :=
  toBits 8 kWorldConfig ++ (toBits 32 event.entity ++ (toBits 32 event.tick ++
    (BitWriter.varintBits 4 event.region ++ (toBits 32 event.worldSize.toNat ++
    (BitWriter.varintBits 4 event.tickRate ++ BitWriter.stringBits event.shardId)))))

theorem decodeWorldConfig_ahead {event : WorldConfigEvent} {data : Bytes} (hrange : event.InRange)
    (hshard : event.shardId.length ≤ 1023)
    (h : (BitReader.ofBytes data).Ahead (worldConfigBits event)) :
    decodeWorldConfig data = some event := by
  rw [← List.append_nil (worldConfigBits event)] at h
  simp only [worldConfigBits, List.append_assoc] at h
  obtain ⟨r₁, e₁, h, -⟩ := h.readU8 (by decide)
  obtain ⟨r₂, e₂, h, -⟩ := h.readU32 hrange.entity
  obtain ⟨r₃, e₃, h, -⟩ := h.readU32 hrange.tick
  obtain ⟨r₄, e₄, h, -⟩ := h.readVarint hrange.region
  obtain ⟨r₅, e₅, h, -⟩ := h.readU32 event.worldSize.toNat_lt
  obtain ⟨r₆, e₆, h, -⟩ := h.readVarint hrange.tickRate
  obtain ⟨r₇, e₇, h, -⟩ := h.readString hshard
  simp only [decodeWorldConfig, e₁, e₂, e₃, e₄, e₅, e₆, e₇, h.clean, UInt32.ofNat_toNat, ne_eq,
    not_true, if_false, Bool.false_eq_true]

theorem decodeWorldConfig_encode {event : WorldConfigEvent} {capacity : Nat}
    (hrange : event.InRange) (hcapacity : capacity ≤ kMaxReliableMessageSize)
    (hfits : encodeWorldConfig event capacity ≠ []) :
    decodeWorldConfig (encodeWorldConfig event capacity) = some event := by
  have hsmall : capacity ≤ 512 := hcapacity
  have hemits := (BitWriter.writeU8_emits kWorldConfig).comp <|
    (BitWriter.writeU32_emits event.entity).comp <|
    (BitWriter.writeU32_emits event.tick).comp <|
    (BitWriter.writeVarint_emits event.region).comp <|
    (BitWriter.writeU32_emits event.worldSize.toNat).comp <|
    (BitWriter.writeVarint_emits event.tickRate).comp <|
    BitWriter.writeString_emits event.shardId
  have hfinished := hemits.finished (fun _ => 0) (show capacity < 2 ^ 28 by omega)
  unfold encodeWorldConfig at hfits ⊢
  dsimp only at hfits hfinished ⊢
  split at hfits
  · exact absurd rfl hfits
  · rename_i hclean
    rw [if_neg hclean]
    obtain ⟨hahead, hlength⟩ := hfinished (by simpa using hclean)
    have hshard := BitWriter.stringBits_length_ge event.shardId
    simp only [List.length_append] at hlength
    apply decodeWorldConfig_ahead hrange (by omega)
    exact hahead

/-- The ranges of the fields' types in the source. -/
structure MigrateRedirectEvent.InRange (event : MigrateRedirectEvent) : Prop where
  ticket : event.ticket < 2 ^ 64
  region : event.region < 2 ^ 32

def migrateRedirectBits (event : MigrateRedirectEvent) : List Bool :=
  toBits 8 kMigrateRedirect ++ (toBits 64 event.ticket ++ (BitWriter.varintBits 4 event.region ++
    (BitWriter.stringBits event.endpoint ++ BitWriter.stringBits event.shardId)))

theorem decodeMigrateRedirect_ahead {event : MigrateRedirectEvent} {data : Bytes}
    (hrange : event.InRange) (hendpoint : event.endpoint.length ≤ 1023)
    (hshard : event.shardId.length ≤ 1023)
    (h : (BitReader.ofBytes data).Ahead (migrateRedirectBits event)) :
    decodeMigrateRedirect data = if event.endpoint = [] then none else some event := by
  rw [← List.append_nil (migrateRedirectBits event)] at h
  simp only [migrateRedirectBits, List.append_assoc] at h
  obtain ⟨r₁, e₁, h, -⟩ := h.readU8 (by decide)
  obtain ⟨r₂, e₂, h, -⟩ := h.readU64 hrange.ticket
  obtain ⟨r₃, e₃, h, -⟩ := h.readVarint hrange.region
  obtain ⟨r₄, e₄, h, -⟩ := h.readString hendpoint
  obtain ⟨r₅, e₅, h, -⟩ := h.readString hshard
  simp only [decodeMigrateRedirect, e₁, e₂, e₃, e₄, e₅, h.clean, ne_eq, not_true, if_false,
    Bool.false_eq_true, false_or]

/-- A redirect that fits comes back, unless it names no endpoint. -/
theorem decodeMigrateRedirect_encode {event : MigrateRedirectEvent} {capacity : Nat}
    (hrange : event.InRange) (hcapacity : capacity ≤ kMaxReliableMessageSize)
    (hfits : encodeMigrateRedirect event capacity ≠ []) :
    decodeMigrateRedirect (encodeMigrateRedirect event capacity) =
      if event.endpoint = [] then none else some event := by
  have hsmall : capacity ≤ 512 := hcapacity
  have hemits := (BitWriter.writeU8_emits kMigrateRedirect).comp <|
    (BitWriter.writeU64_emits event.ticket).comp <|
    (BitWriter.writeVarint_emits event.region).comp <|
    (BitWriter.writeString_emits event.endpoint).comp <|
    BitWriter.writeString_emits event.shardId
  have hfinished := hemits.finished (fun _ => 0) (show capacity < 2 ^ 28 by omega)
  unfold encodeMigrateRedirect at hfits ⊢
  dsimp only at hfits hfinished ⊢
  split at hfits
  · exact absurd rfl hfits
  · rename_i hclean
    rw [if_neg hclean]
    obtain ⟨hahead, hlength⟩ := hfinished (by simpa using hclean)
    have hendpoint := BitWriter.stringBits_length_ge event.endpoint
    have hshard := BitWriter.stringBits_length_ge event.shardId
    simp only [List.length_append] at hlength
    apply decodeMigrateRedirect_ahead hrange (by omega) (by omega)
    exact hahead

def CredentialKind.toNat : CredentialKind → Nat
  | .session => 0
  | .migration => 1

def writeCredential (credential : ConnectCredential) (w : BitWriter) : BitWriter :=
  let w := w.writeU8 credential.kind.toNat
  let w := w.writeU64 credential.token
  w.writeString credential.playerId

/-- The token field as the source fills it; `none` is `return false`. -/
def encodeCredential (credential : ConnectCredential) : Option Bytes :=
  if credential.playerId = [] ∨ kMaxPlayerIdBytes < credential.playerId.length then none
  else
    let w := writeCredential credential (BitWriter.new (fun _ => 0) kConnectTokenBytes)
    if w.overflow then none else some ((List.range kConnectTokenBytes).map w.buffer)

def credentialBits (credential : ConnectCredential) : List Bool :=
  toBits 8 credential.kind.toNat ++ (toBits 64 credential.token ++
    BitWriter.stringBits credential.playerId)

theorem writeCredential_takes (credential : ConnectCredential) :
    BitWriter.Takes (writeCredential credential) (credentialBits credential) :=
  (BitWriter.writeU8_takes _).comp <|
  (BitWriter.writeU64_takes _).comp <|
  BitWriter.writeString_takes _

theorem decodeCredential_ahead {credential : ConnectCredential} {token : Bytes}
    (htoken : credential.token < 2 ^ 64) (hnonempty : credential.playerId ≠ [])
    (hshort : credential.playerId.length ≤ kMaxPlayerIdBytes)
    (h : (BitReader.ofBytes token).Ahead (credentialBits credential)) :
    decodeCredential token = some credential := by
  have hkind : credential.kind.toNat < 2 := by cases credential.kind <;> decide
  have hlength : credential.playerId.length ≤ 20 := hshort
  rw [← List.append_nil (credentialBits credential)] at h
  simp only [credentialBits, List.append_assoc] at h
  obtain ⟨r₁, e₁, h, -⟩ := h.readU8 (by omega)
  obtain ⟨r₂, e₂, h, -⟩ := h.readU64 htoken
  obtain ⟨r₃, e₃, h, -⟩ := h.readString (by omega)
  have hsame : (if credential.kind.toNat = 0 then CredentialKind.session else .migration) =
      credential.kind := by cases credential.kind <;> rfl
  simp only [decodeCredential, e₁, e₂, e₃, h.clean, hsame, if_neg (show ¬ 1 < credential.kind.toNat by omega),
    Bool.false_eq_true, hnonempty, false_or, if_neg (Nat.not_lt.mpr hshort)]

/-- A credential with an id of one to twenty bytes always fits, and comes back. -/
theorem decodeCredential_encode {credential : ConnectCredential}
    (htoken : credential.token < 2 ^ 64) (hnonempty : credential.playerId ≠ [])
    (hshort : credential.playerId.length ≤ kMaxPlayerIdBytes) :
    ∃ token, encodeCredential credential = some token ∧ token.length = kConnectTokenBytes ∧
      decodeCredential token = some credential := by
  have hlength : credential.playerId.length ≤ 20 := hshort
  have hsize : (credentialBits credential).length = 80 + 8 * credential.playerId.length := by
    simp only [credentialBits, List.length_append, toBits_length,
      BitWriter.stringBits_length (show credential.playerId.length ≤ 1023 by omega),
      BitWriter.stringBytes, BitWriter.varintBytes, show credential.playerId.length < 2 ^ 7 by omega,
      if_true]
    omega
  have hnew := BitWriter.new_wf (fun _ => 0) kConnectTokenBytes
  have hcap : (BitWriter.new (fun _ => 0) kConnectTokenBytes).capacityBits = 256 := by decide
  have hstart : (BitWriter.new (fun _ => 0) kConnectTokenBytes).bitPos = 0 := rfl
  have htakes := writeCredential_takes credential
  obtain ⟨hwf, hclean, hsame, hpos⟩ := htakes.position hnew rfl (by omega)
  obtain ⟨-, -, -, hcontent⟩ := htakes.1 _ hnew (Or.inr (by omega))
  obtain ⟨-, hcontent⟩ := hcontent hclean
  have hempty : (BitWriter.new (fun _ => 0) kConnectTokenBytes).content = [] := by
    simp [BitWriter.content, BitWriter.new, toBits]
  rw [hempty, List.nil_append] at hcontent
  unfold encodeCredential
  rw [if_neg (by simpa [hnonempty] using hshort)]
  dsimp only
  rw [hclean, if_neg (by decide)]
  generalize writeCredential credential _ = w at *
  -- every field is whole bytes, so nothing is pending when the writer is dropped
  have hpending : w.pendingBits = 0 := by
    have := hwf.position
    have := hwf.pending
    omega
  have hflushed : w.flushedBytes ≤ kConnectTokenBytes := by
    have hfits := hwf.fits
    have hposition := hwf.position
    unfold kConnectTokenBytes
    omega
  refine ⟨_, rfl, by simp, decodeCredential_ahead htoken hnonempty hshort ?_⟩
  obtain ⟨rest, hrest⟩ := Nat.exists_eq_add_of_le hflushed
  have hbits : bytesBits ((List.range kConnectTokenBytes).map w.buffer) =
      credentialBits credential ++
        bytesBits ((List.range rest).map fun i => w.buffer (w.flushedBytes + i)) := by
    rw [hrest, List.range_add, List.map_append, bytesBits_append, List.map_map, ← hcontent,
      BitWriter.content, hpending, toBits, List.append_nil]
    rfl
  exact BitReader.ofBytes_ahead hbits (by simp [kConnectTokenBytes])

end Morton.Proto
