import QuicMls.AesGcm
import QuicMls.LengthFields

/-! Retry integrity. The sender tags a pseudo-packet made from a whole packet; the
receiver rebuilds it from the two slices it is given. -/
namespace QuicMls.Retry
open BigEndian LengthFields AesGcm

def RETRY_INTEGRITY_KEY : Vector UInt8 16 :=
  #v[0xBE, 0x0C, 0x69, 0x0B, 0x9F, 0x66, 0x57, 0x5A, 0x1D, 0x76, 0x6B, 0x54, 0xE3, 0x68, 0xC8, 0x4E]

def RETRY_INTEGRITY_NONCE : Vector UInt8 12 :=
  #v[0x46, 0x15, 0x99, 0xD3, 0x5D, 0x63, 0x2B, 0xF2, 0x23, 0x98, 0x25, 0xBB]

/-- What is authenticated: the connection id with its length and the packet. -/
def pseudoPacket (origDstCid packet : Bytes) : Bytes :=
  [UInt8.ofNat origDstCid.length] ++ origDstCid ++ packet

section Tag
variable [Aes128Gcm]

def computeRetryTag (origDstCid packet : Bytes) : Vector UInt8 16 :=
  (Aes128Gcm.encryptInPlaceDetached RETRY_INTEGRITY_KEY RETRY_INTEGRITY_NONCE
    (pseudoPacket origDstCid packet) []).2

def verifyRetryTag (origDstCid header payload : Bytes) : Bool :=
  if payload.length < 16 then false
  else
    let tagStart := payload.length - 16
    let pseudoPacket := [UInt8.ofNat origDstCid.length] ++ origDstCid ++ header ++ payload.take tagStart
    (Aes128Gcm.decryptInPlaceDetached RETRY_INTEGRITY_KEY RETRY_INTEGRITY_NONCE pseudoPacket []
      (tagFromSlice (payload.drop tagStart))).isSome

end Tag

/-- A length byte separates the connection id from the packet. -/
theorem pseudoPacket_injective {cid other packet another : Bytes} (short : cid.length ≤ 255)
    (otherShort : other.length ≤ 255) (same : pseudoPacket cid packet = pseudoPacket other another) :
    cid = other ∧ packet = another := by
  have fields : sized 1 cid ++ packet = sized 1 other ++ another := same
  exact sized_append_injective (Nat.lt_succ_of_le short) (Nat.lt_succ_of_le otherShort) fields

/-- The end of a packet is the end of its payload when that is long enough. -/
theorem cut_at_tag (header : Bytes) {payload : Bytes} (room : 16 ≤ payload.length) :
    payload.drop (payload.length - 16) = (header ++ payload).drop ((header ++ payload).length - 16) ∧
      header ++ payload.take (payload.length - 16) =
        (header ++ payload).take ((header ++ payload).length - 16) := by
  have tagStart : (header ++ payload).length - 16 = header.length + (payload.length - 16) := by
    rw [List.length_append]
    omega
  rw [tagStart, List.drop_append, List.take_append]
  simp

section Verify
variable [Aes128Gcm]

/-- The receiver rebuilds the pseudo-packet of the packet its two slices make up. -/
theorem verifyRetryTag_eq {payload : Bytes} (room : 16 ≤ payload.length) (origDstCid header : Bytes) :
    verifyRetryTag origDstCid header payload =
      (Aes128Gcm.decryptInPlaceDetached RETRY_INTEGRITY_KEY RETRY_INTEGRITY_NONCE
        (pseudoPacket origDstCid (header ++ payload.take (payload.length - 16))) []
        (tagFromSlice (payload.drop (payload.length - 16)))).isSome := by
  rw [verifyRetryTag, if_neg (Nat.not_lt.mpr room), pseudoPacket]
  simp only [List.append_assoc]

/-- Any two cuts of a packet in front of its tag get the same answer. -/
theorem verifyRetryTag_split (origDstCid : Bytes) {header payload otherHeader otherPayload : Bytes}
    (same : header ++ payload = otherHeader ++ otherPayload) (room : 16 ≤ payload.length)
    (otherRoom : 16 ≤ otherPayload.length) :
    verifyRetryTag origDstCid header payload = verifyRetryTag origDstCid otherHeader otherPayload := by
  obtain ⟨tag, front⟩ := cut_at_tag header room
  obtain ⟨otherTag, otherFront⟩ := cut_at_tag otherHeader otherRoom
  rw [verifyRetryTag_eq room, verifyRetryTag_eq otherRoom, tag, front, otherTag, otherFront, same]

variable [checks : ChecksTag]

theorem verifyRetryTag_iff (origDstCid header payload : Bytes) :
    verifyRetryTag origDstCid header payload = true ↔ 16 ≤ payload.length ∧
      payload.drop (payload.length - 16) =
        (computeRetryTag origDstCid (header ++ payload.take (payload.length - 16))).toList := by
  by_cases room : 16 ≤ payload.length
  · have size : (payload.drop (payload.length - 16)).length = 16 := by
      rw [List.length_drop]
      omega
    rw [verifyRetryTag_eq room, checks.accepts, ← Vector.toList_inj, toList_tagFromSlice size]
    exact (and_iff_right room).symm
  · rw [verifyRetryTag, if_pos (Nat.lt_of_not_le room)]
    exact iff_of_false Bool.false_ne_true fun both => room both.1

/-- Verification is the comparison with the computed tag, wherever the packet is
cut, and one pseudo-packet comes from one connection id and one packet. -/
theorem retry_integrity {origDstCid : Bytes} (short : origDstCid.length ≤ 20) :
    (∀ header payload, verifyRetryTag origDstCid header payload = true ↔ 16 ≤ payload.length ∧
      payload.drop (payload.length - 16) =
        (computeRetryTag origDstCid (header ++ payload.take (payload.length - 16))).toList) ∧
    (∀ header payload otherHeader otherPayload : Bytes, header ++ payload = otherHeader ++ otherPayload →
      16 ≤ payload.length → 16 ≤ otherPayload.length →
        verifyRetryTag origDstCid header payload = verifyRetryTag origDstCid otherHeader otherPayload) ∧
    ∀ other packet otherPacket : Bytes, other.length ≤ 20 →
      pseudoPacket origDstCid packet = pseudoPacket other otherPacket →
        origDstCid = other ∧ packet = otherPacket := by
  refine ⟨verifyRetryTag_iff origDstCid, ?_, ?_⟩
  · intro header payload otherHeader otherPayload same room otherRoom
    exact verifyRetryTag_split origDstCid same room otherRoom
  · intro other packet otherPacket otherShort same
    exact pseudoPacket_injective (by omega) (by omega) same

end Verify

/-! ### The sample Retry packet of the standard -/

def sampleCid : Bytes := [0x83, 0x94, 0xC8, 0xF0, 0x3E, 0x51, 0x57, 0x08]

/-- The packet before its tag. -/
def samplePacket : Bytes :=
  [0xFF, 0x00, 0x00, 0x00, 0x01, 0x00, 0x08, 0xF0, 0x67, 0xA5, 0x50, 0x2A, 0x42, 0x62, 0xB5, 0x74, 0x6F, 0x6B,
   0x65, 0x6E]

def sampleTag : Vector UInt8 16 :=
  #v[0x04, 0xA2, 0x65, 0xBA, 0x2E, 0xFF, 0x4D, 0x82, 0x90, 0x58, 0xFB, 0x3F, 0x0F, 0x24, 0x96, 0xBA]

/-- AES-GCM as far as the sample goes. -/
@[reducible] def sampleGcm : Aes128Gcm :=
  counterMode (fun _ _ _ => 0) fun _ _ aad _ =>
    if aad = pseudoPacket sampleCid samplePacket then sampleTag else Vector.replicate 16 0

section Sample
attribute [local instance] sampleGcm

/-- The receiver accepts the packet also when four bytes of it stand in the payload. -/
theorem retry_integrity_sample :
    verifyRetryTag sampleCid (samplePacket.take 16) (samplePacket.drop 16 ++ sampleTag.toList) = true := by
  have _ : ChecksTag := counterMode_checks _ _
  have short : sampleCid.length ≤ 20 := by decide
  apply ((retry_integrity short).1 _ _).mpr
  decide +kernel

end Sample

end QuicMls.Retry
