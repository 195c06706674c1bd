import QuicMls.AesGcm

/-! Packet and header protection keys, the nonce a packet number selects, and the
protection of one packet. -/
namespace QuicMls.PacketKey
open BigEndian AesGcm

structure Aes128GcmPacketKey where
  key : Vector UInt8 16
  iv : Vector UInt8 12
  deriving DecidableEq

structure Aes128EcbHeaderKey where
  key : Vector UInt8 16
  deriving DecidableEq

/-- The first four bytes stay, the packet number is added to the last eight. -/
def nonceFor (iv : Vector UInt8 12) (packet : UInt64) : Vector UInt8 12 :=
  let pnBytes := wordToBe packet
  Vector.ofFn fun i => if i.val < 4 then iv[i] else iv[i] ^^^ pnBytes.getD (i.val - 4) 0

theorem xor_left_injective (byte left right : UInt8) (same : byte ^^^ left = byte ^^^ right) :
    left = right := by
  have undone := congrArg (byte ^^^ ·) same
  simpa [← UInt8.xor_assoc] using undone

/-- Under one IV different packets get different nonces. -/
theorem nonceFor_injective (iv : Vector UInt8 12) : Function.Injective (nonceFor iv) := by
  intro left right same
  apply wordToBe_injective
  apply List.ext_getElem
  · rw [length_wordToBe, length_wordToBe]
  · intro index inLeft inRight
    rw [length_wordToBe] at inLeft
    -- The packet number sits in the last eight bytes.
    have place : 4 + index < 12 := by omega
    have byte := congrArg (fun nonce : Vector UInt8 12 => nonce[4 + index]) same
    have offset : ¬ 4 + index < 4 := by omega
    have back : 4 + index - 4 = index := by omega
    simp only [nonceFor, Vector.getElem_ofFn, if_neg offset, back] at byte
    have inner := xor_left_injective _ _ _ byte
    rwa [List.getD_eq_getElem _ _ (by rwa [length_wordToBe]),
      List.getD_eq_getElem _ _ (by rwa [length_wordToBe])] at inner

/-- What identifies one AES-GCM call: the key and the nonce. -/
def Aes128GcmPacketKey.sealing (packetKey : Aes128GcmPacketKey) (packet : UInt64) :
    Vector UInt8 16 × Vector UInt8 12 :=
  (packetKey.key, nonceFor packetKey.iv packet)

theorem sealing_eq_iff {packetKey : Aes128GcmPacketKey} {left right : UInt64} :
    packetKey.sealing left = packetKey.sealing right ↔ left = right := by
  constructor
  · intro same
    exact nonceFor_injective packetKey.iv (Prod.mk.inj same).2
  · rintro rfl
    rfl

/-! ### Protection -/

inductive CryptoError where
  | cryptoError
  deriving DecidableEq

section Protect
variable [Aes128Gcm]

/-- The header stays in front. `none` is the panic of a buffer without room for the
header and the tag. -/
def Aes128GcmPacketKey.encrypt (packetKey : Aes128GcmPacketKey) (packet : UInt64) (buf : Bytes)
    (headerLen : Nat) : Option Bytes :=
  if buf.length < headerLen then none
  else
    let nonceBytes := nonceFor packetKey.iv packet
    let header := buf.take headerLen
    let rest := buf.drop headerLen
    if rest.length < 16 then none
    else
      let plaintext := rest.take (rest.length - 16)
      let (ciphertext, tag) := Aes128Gcm.encryptInPlaceDetached packetKey.key nonceBytes header plaintext
      some (header ++ ciphertext ++ tag.toList)

/-- The payload without its tag. `none` is the underflow of a payload shorter than
a tag. -/
def Aes128GcmPacketKey.decrypt (packetKey : Aes128GcmPacketKey) (packet : UInt64) (header payload : Bytes) :
    Option (Except CryptoError Bytes) :=
  if payload.length < 16 then none
  else
    let nonceBytes := nonceFor packetKey.iv packet
    let tagStart := payload.length - 16
    match Aes128Gcm.decryptInPlaceDetached packetKey.key nonceBytes header (payload.take tagStart)
        (tagFromSlice (payload.drop tagStart)) with
    | some plaintext => some (.ok plaintext)
    | none => some (.error .cryptoError)

theorem encrypt_eq (packetKey : Aes128GcmPacketKey) (packet : UInt64) (header plaintext : Bytes)
    {tagSpace : Bytes} (size : tagSpace.length = 16) :
    packetKey.encrypt packet (header ++ plaintext ++ tagSpace) header.length =
      let sealed := Aes128Gcm.encryptInPlaceDetached packetKey.key (nonceFor packetKey.iv packet) header
        plaintext
      some (header ++ sealed.1 ++ sealed.2.toList) := by
  have room : ¬ (plaintext ++ tagSpace).length < 16 := by
    rw [List.length_append]
    omega
  have front : (plaintext ++ tagSpace).length - 16 = plaintext.length := by
    rw [List.length_append]
    omega
  rw [Aes128GcmPacketKey.encrypt, List.append_assoc, if_neg (by simp)]
  simp only [List.take_left, List.drop_left]
  rw [if_neg room, front, List.take_left]

/-- What was sealed under a header is opened under the same header. -/
theorem decrypt_sealed [opens : OpensSealed] (packetKey : Aes128GcmPacketKey) (packet : UInt64)
    (header plaintext : Bytes) :
    let sealed := Aes128Gcm.encryptInPlaceDetached packetKey.key (nonceFor packetKey.iv packet) header
      plaintext
    packetKey.decrypt packet header (sealed.1 ++ sealed.2.toList) = some (.ok plaintext) := by
  intro sealed
  have tagStart : (sealed.1 ++ sealed.2.toList).length - 16 = sealed.1.length := by simp
  have opened := opens.opens packetKey.key (nonceFor packetKey.iv packet) header plaintext
  rw [Aes128GcmPacketKey.decrypt, if_neg (by simp), tagStart]
  simp only [List.take_left, List.drop_left, tagFromSlice_toList]
  rw [opened]

theorem decrypt_isSome (packetKey : Aes128GcmPacketKey) (packet : UInt64) (header : Bytes)
    {payload : Bytes} (room : 16 ≤ payload.length) :
    (packetKey.decrypt packet header payload).isSome = true := by
  rw [Aes128GcmPacketKey.decrypt, if_neg (Nat.not_lt.mpr room)]
  dsimp only
  split
  · rfl
  · rfl

end Protect

end QuicMls.PacketKey
