import QuicMls.HeaderKey
import QuicMls.KeySchedule

/-! Sealing and opening a packet with the keys of the two sides. The sender protects
the payload under the plain header and then the header. The receiver restores the
header first, since its first byte says where the payload begins. -/
namespace QuicMls.PacketProtection
open BigEndian Hkdf AesGcm PacketKey HeaderKey KeySchedule

def peer : Side → Side
  | .client => .server
  | .server => .client

section Packets
variable [Aes128] [Aes128Gcm]

/-- The sender's two calls, on a buffer with room for the tag. -/
def sealPacket (keys : Keys) (packet : UInt64) (pnOffset : Nat) (header payload : Bytes) : Option Bytes :=
  (keys.packet.localKey.encrypt packet (header ++ payload ++ List.replicate 16 0) header.length).bind
    (encrypt keys.header.localKey pnOffset)

/-- The receiver's two calls. The header ends with the packet number; `none` is a
panic of either call or of the split between them. -/
def openPacket (keys : Keys) (packet : UInt64) (pnOffset : Nat) (received : Bytes) :
    Option (Except CryptoError (Bytes × Bytes)) :=
  (decrypt keys.header.remoteKey pnOffset received).bind fun unmasked =>
    let headerLen := pnOffset + decodeLen (unmasked.headD 0)
    if unmasked.length < headerLen then none
    else
      let header := unmasked.take headerLen
      (keys.packet.remoteKey.decrypt packet header (unmasked.drop headerLen)).map
        (Except.map (header, ·))

end Packets

section Laws
variable {pnOffset : Nat} {header payload body : Bytes}

theorem headD_append (ends : header.length = pnOffset + decodeLen (header.headD 0)) (body : Bytes) :
    (header ++ body).headD 0 = header.headD 0 := by
  cases header with
  | nil => simp [decodeLen] at ends
  | cons first rest => rfl

variable [Aes128Gcm]

/-- What the packet key makes of a payload and the space for its tag. -/
def sealedBody (packetKey : Aes128GcmPacketKey) (packet : UInt64) (header payload : Bytes) : Bytes :=
  let sealed := Aes128Gcm.encryptInPlaceDetached packetKey.key (nonceFor packetKey.iv packet) header payload
  sealed.1 ++ sealed.2.toList

theorem length_sealedBody [opens : OpensSealed] (packetKey : Aes128GcmPacketKey) (packet : UInt64)
    (header payload : Bytes) : (sealedBody packetKey packet header payload).length = payload.length + 16 := by
  rw [sealedBody, List.length_append, opens.length, Vector.length_toList]

variable [Aes128]

theorem sealPacket_eq (keys : Keys) (packet : UInt64) (pnOffset : Nat) (header payload : Bytes) :
    sealPacket keys packet pnOffset header payload =
      encrypt keys.header.localKey pnOffset
        (header ++ sealedBody keys.packet.localKey packet header payload) := by
  rw [sealPacket, encrypt_eq _ _ _ _ List.length_replicate, sealedBody, ← List.append_assoc]
  rfl

/-- With the header restored, the packet is cut where the sender's header ended. -/
theorem openPacket_eq {keys : Keys} {packet : UInt64} {received : Bytes}
    (ends : header.length = pnOffset + decodeLen (header.headD 0))
    (restored : decrypt keys.header.remoteKey pnOffset received = some (header ++ body)) :
    openPacket keys packet pnOffset received =
      (keys.packet.remoteKey.decrypt packet header body).map (Except.map (header, ·)) := by
  have fits : ¬ (header ++ body).length < header.length := by simp
  rw [openPacket, restored, Option.bind_some]
  dsimp only
  rw [headD_append ends, ← ends, if_neg fits, List.take_left, List.drop_left]

/-- A receiver whose remote keys are the sender's local ones. -/
theorem open_seal [OpensSealed] {sender receiver : Keys}
    (sameHeader : receiver.header.remoteKey = sender.header.localKey)
    (samePacket : receiver.packet.remoteKey = sender.packet.localKey) (packet : UInt64)
    (behind : 1 ≤ pnOffset) (ends : header.length = pnOffset + decodeLen (header.headD 0))
    (room : pnOffset + 20 ≤ header.length + payload.length + 16) : ∃ body protectedPacket,
      body.length = payload.length + 16 ∧
      sealPacket sender packet pnOffset header payload = some protectedPacket ∧
      HeaderOnly pnOffset (decodeLen (header.headD 0)) (header ++ body) protectedPacket ∧
      decrypt receiver.header.remoteKey pnOffset protectedPacket = some (header ++ body) ∧
      openPacket receiver packet pnOffset protectedPacket = some (.ok (header, payload)) := by
  let body := sealedBody sender.packet.localKey packet header payload
  have size : body.length = payload.length + 16 := length_sealedBody _ _ _ _
  have sampled : pnOffset + 20 ≤ (header ++ body).length := by
    rw [List.length_append, size]
    omega
  obtain ⟨protectedPacket, encrypted⟩ : ∃ protectedPacket,
      encrypt sender.header.localKey pnOffset (header ++ body) = some protectedPacket :=
    ⟨_, encrypt_eq_some.mpr ⟨sampled, rfl⟩⟩
  have frame := encrypt_frame encrypted
  rw [headD_append ends] at frame
  have restored : decrypt receiver.header.remoteKey pnOffset protectedPacket = some (header ++ body) := by
    rw [sameHeader]
    exact decrypt_encrypt behind encrypted
  refine ⟨body, protectedPacket, size, ?_, frame, restored, ?_⟩
  · rw [sealPacket_eq]
    exact encrypted
  · rw [openPacket_eq ends restored, samePacket]
    have opened : sender.packet.localKey.decrypt packet header body = some (.ok payload) :=
      decrypt_sealed sender.packet.localKey packet header payload
    rw [opened]
    rfl

/-- The header takes at most four of the twenty bytes behind its offset, which
leaves a payload at least as long as a tag. -/
theorem openPacket_total (keys : Keys) (packet : UInt64) {received : Bytes}
    (room : pnOffset + 20 ≤ received.length) :
    ∃ result, openPacket keys packet pnOffset received = some result := by
  rw [openPacket, decrypt_eq _ room, Option.bind_some]
  dsimp only
  generalize masked : xorPnBytes _ pnOffset _ _ = unmasked
  have size : unmasked.length = received.length := by
    rw [← masked, length_xorPnBytes, length_xorFirstByte]
  have short := decodeLen_le (unmasked.headD 0)
  rw [if_neg (by omega)]
  have tagged : 16 ≤ (unmasked.drop (pnOffset + decodeLen (unmasked.headD 0))).length := by
    rw [List.length_drop]
    omega
  obtain ⟨result, opened⟩ := Option.isSome_iff_exists.mp (decrypt_isSome keys.packet.remoteKey packet
    (unmasked.take (pnOffset + decodeLen (unmasked.headD 0))) tagged)
  rw [opened]
  exact ⟨_, rfl⟩

end Laws

/-- What one side seals the other opens, and the sender's header protection and the
receiver's removal of it keep every byte but the first and the packet number. Any
packet with room for the sample is opened without a panic. -/
theorem packet_round_trip [HkdfSha256] [Aes128] [Aes128Gcm] [OpensSealed] (side : Side)
    (clientSecret serverSecret : Prk) (packet : UInt64) (pnOffset : Nat) :
    let sender := deriveDirectionalKeys clientSecret serverSecret side
    let receiver := deriveDirectionalKeys clientSecret serverSecret (peer side)
    (∀ header payload : Bytes, 1 ≤ pnOffset → header.length = pnOffset + decodeLen (header.headD 0) →
      pnOffset + 20 ≤ header.length + payload.length + 16 → ∃ body protectedPacket,
        body.length = payload.length + 16 ∧
        sealPacket sender packet pnOffset header payload = some protectedPacket ∧
        HeaderOnly pnOffset (decodeLen (header.headD 0)) (header ++ body) protectedPacket ∧
        decrypt receiver.header.remoteKey pnOffset protectedPacket = some (header ++ body) ∧
        openPacket receiver packet pnOffset protectedPacket = some (.ok (header, payload))) ∧
    ∀ received : Bytes, pnOffset + 20 ≤ received.length →
      (∃ result, openPacket receiver packet pnOffset received = some result) ∧
      (1 ≤ pnOffset → ∃ opened, decrypt receiver.header.remoteKey pnOffset received = some opened ∧
        HeaderOnly pnOffset (decodeLen (opened.headD 0)) received opened) := by
  intro sender receiver
  have crossed := crossed_directional clientSecret serverSecret
  constructor
  · intro header payload behind ends room
    cases side with
    | client => exact open_seal crossed.headerSent.symm crossed.packetSent.symm packet behind ends room
    | server => exact open_seal crossed.headerReceived crossed.packetReceived packet behind ends room
  · intro received room
    exact ⟨openPacket_total receiver packet room, fun behind => decrypt_total _ behind room⟩

/-! ### The packet of the known vector -/

def sampleHeader : Bytes :=
  [0xC0, 0x00, 0x00, 0x00, 0x01, 0x08, 0x06, 0xB8, 0x58, 0xEC, 0x6F, 0x80, 0x45, 0x2B, 0x00, 0x00, 0x40, 0x21,
   0x00]

def samplePacket : Bytes :=
  [0xC8, 0x00, 0x00, 0x00, 0x01, 0x08, 0x06, 0xB8, 0x58, 0xEC, 0x6F, 0x80, 0x45, 0x2B, 0x00, 0x00, 0x40, 0x21,
   0xBE, 0x3E, 0xF5, 0x08, 0x07, 0xB8, 0x41, 0x91, 0xA1, 0x96, 0xF7, 0x60, 0xA6, 0xDA, 0xD1, 0xE9, 0xD1,
   0xC4, 0x30, 0xC4, 0x89, 0x52, 0xCB, 0xA0, 0x14, 0x82, 0x50, 0xC2, 0x1C, 0x0A, 0x6A, 0x70, 0xE1]

def sampleClientSecret : Prk := .ofHash
  #v[0x04, 0xC0, 0xCF, 0xEC, 0x31, 0xA2, 0xD8, 0x9A, 0x1D, 0x53, 0x7B, 0x30, 0x54, 0x1F, 0x4E, 0x5C,
    0x09, 0x9E, 0x12, 0x1C, 0x45, 0x2D, 0x4F, 0x85, 0xDB, 0xC3, 0x1A, 0x1C, 0x69, 0x44, 0x8E, 0xB8]

def sampleServerSecret : Prk := .ofHash
  #v[0x12, 0xA3, 0x6A, 0x1E, 0x9B, 0xFC, 0x19, 0x3F, 0x94, 0xCE, 0x31, 0x65, 0xEE, 0x01, 0xD5, 0x7F,
    0x86, 0xEB, 0x4B, 0x72, 0xE9, 0x96, 0xDC, 0xE3, 0x44, 0x46, 0x75, 0xB8, 0x30, 0x50, 0x89, 0x36]

/-- The expansions of the two secrets under each of the three labels. -/
def sampleExpansions : List ((Bytes × Bytes) × Bytes) :=
  [((sampleClientSecret.bytes, hkdfLabelInfo "quic key" [] 16),
      [0x86, 0x70, 0x55, 0xE8, 0xAA, 0x30, 0xC4, 0x8C, 0x81, 0x7C, 0x8C, 0xF5, 0x33, 0xFE, 0x6F, 0xF9]),
    ((sampleClientSecret.bytes, hkdfLabelInfo "quic iv" [] 12),
      [0xED, 0xE8, 0x83, 0x9D, 0x4E, 0x72, 0x43, 0x4C, 0xEF, 0x43, 0xB0, 0x32]),
    ((sampleClientSecret.bytes, hkdfLabelInfo "quic hp" [] 16),
      [0x0B, 0xC5, 0xF8, 0x81, 0x88, 0xAC, 0x85, 0xAF, 0xCF, 0x90, 0xA6, 0x06, 0x1E, 0xA2, 0xC5, 0x9E]),
    ((sampleServerSecret.bytes, hkdfLabelInfo "quic key" [] 16),
      [0x5C, 0xF7, 0x89, 0x8C, 0xF1, 0x6F, 0xFC, 0x03, 0x19, 0x6E, 0x62, 0xA4, 0x3F, 0x2D, 0x81, 0x26]),
    ((sampleServerSecret.bytes, hkdfLabelInfo "quic iv" [] 12),
      [0x4A, 0x9B, 0x7D, 0xA2, 0xF1, 0xD4, 0x82, 0x34, 0xD6, 0x33, 0x47, 0xB9]),
    ((sampleServerSecret.bytes, hkdfLabelInfo "quic hp" [] 16),
      [0x71, 0xEC, 0x4D, 0x71, 0x45, 0xCB, 0x88, 0x74, 0x40, 0xEF, 0x60, 0xB0, 0x0B, 0x52, 0x3D, 0x9E])]

/-- Zeros for any other input. -/
@[reducible] def sampleHkdf : HkdfSha256 where
  expand secret info _ := Vector.ofFn fun i => ((sampleExpansions.lookup (secret, info)).getD []).getD i 0

/-- The block AES makes of the sample of the packet. -/
@[reducible] def sampleAes : Aes128 where
  encryptBlock _ _ i :=
    let block : Bytes :=
      [0x28, 0xBE, 0x04, 0x9D, 0x19, 0x77, 0x39, 0x65, 0xA9, 0xB0, 0xFB, 0x4C, 0x4D, 0x73, 0x8C, 0x1E]
    block.getD i 0

/-- The payload is zero, so the packet shows the key stream and the tag. -/
@[reducible] def sampleGcm : Aes128Gcm :=
  counterMode (fun _ _ i => (samplePacket.drop 19).getD i 0) fun _ _ _ _ => tagFromSlice (samplePacket.drop 35)

section Sample
attribute [local instance] sampleHkdf sampleAes sampleGcm

theorem packet_round_trip_sample :
    let payload : Bytes := List.replicate 16 0
    let client := deriveDirectionalKeys sampleClientSecret sampleServerSecret .client
    let server := deriveDirectionalKeys sampleClientSecret sampleServerSecret .server
    sealPacket client 0 18 sampleHeader payload = some samplePacket ∧
      openPacket server 0 18 samplePacket = some (.ok (sampleHeader, payload)) := by
  intro payload client server
  have _ : OpensSealed := counterMode_opens _ _
  have sealed : sealPacket client 0 18 sampleHeader payload = some samplePacket := by decide +kernel
  obtain ⟨_, protectedPacket, -, again, -, -, opened⟩ :=
    (packet_round_trip .client sampleClientSecret sampleServerSecret 0 18).1 sampleHeader payload (by decide)
      (by decide) (by decide)
  rw [sealed] at again
  cases again
  exact ⟨sealed, opened⟩

end Sample

end QuicMls.PacketProtection
