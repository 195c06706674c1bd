import QuicMls.BigEndian

/-! AES-128-GCM with a detached tag over a buffer that is sealed in place. The
cipher is a parameter; what the code relies on stands in two laws. -/
namespace QuicMls.AesGcm
open BigEndian

/-- Key, nonce, associated data and buffer; `none` is a tag that does not match. The
crate's limit of `2^36` bytes is left out. -/
class Aes128Gcm where
  encryptInPlaceDetached : Vector UInt8 16 → Vector UInt8 12 → Bytes → Bytes → Bytes × Vector UInt8 16
  decryptInPlaceDetached : Vector UInt8 16 → Vector UInt8 12 → Bytes → Bytes → Vector UInt8 16 →
    Option Bytes

/-- Opening inverts sealing, and sealing in place keeps the length. -/
class OpensSealed [Aes128Gcm] : Prop where
  length : ∀ key nonce aad buffer,
    (Aes128Gcm.encryptInPlaceDetached key nonce aad buffer).1.length = buffer.length
  opens : ∀ key nonce aad buffer,
    Aes128Gcm.decryptInPlaceDetached key nonce aad
      (Aes128Gcm.encryptInPlaceDetached key nonce aad buffer).1
      (Aes128Gcm.encryptInPlaceDetached key nonce aad buffer).2 = some buffer

/-- On an empty buffer the tag of sealing is accepted and no other. -/
class ChecksTag [Aes128Gcm] : Prop where
  accepts : ∀ key nonce aad tag, (Aes128Gcm.decryptInPlaceDetached key nonce aad [] tag).isSome = true ↔
    tag = (Aes128Gcm.encryptInPlaceDetached key nonce aad []).2

/-- `Tag::from_slice` on sixteen bytes. -/
def tagFromSlice (bytes : Bytes) : Vector UInt8 16 := Vector.ofFn fun i => bytes.getD i 0

theorem toList_tagFromSlice {bytes : Bytes} (size : bytes.length = 16) :
    (tagFromSlice bytes).toList = bytes := by
  apply List.ext_getElem
  · rw [Vector.length_toList, size]
  · intro index inTag inBytes
    simp [tagFromSlice, inBytes]

@[simp] theorem tagFromSlice_toList (tag : Vector UInt8 16) : tagFromSlice tag.toList = tag :=
  Vector.toList_inj.mp (toList_tagFromSlice tag.length_toList)

/-! ### A cipher that meets the laws -/

section Counter
variable (stream : Vector UInt8 16 → Vector UInt8 12 → Nat → UInt8)
  (mac : Vector UInt8 16 → Vector UInt8 12 → Bytes → Bytes → Vector UInt8 16)

def masked (mask : Nat → UInt8) (buffer : Bytes) : Bytes :=
  buffer.mapIdx fun index byte => byte ^^^ mask index

theorem masked_masked (mask : Nat → UInt8) (buffer : Bytes) : masked mask (masked mask buffer) = buffer := by
  apply List.ext_getElem
  · simp [masked]
  · intro index _ _
    simp [masked]

/-- A key stream and a tag over the associated data and the masked buffer, as GCM
has them. -/
@[reducible] def counterMode : Aes128Gcm where
  encryptInPlaceDetached key nonce aad buffer :=
    let ciphertext := masked (stream key nonce) buffer
    (ciphertext, mac key nonce aad ciphertext)
  decryptInPlaceDetached key nonce aad buffer tag :=
    if tag = mac key nonce aad buffer then some (masked (stream key nonce) buffer) else none

theorem counterMode_opens : @OpensSealed (counterMode stream mac) := by
  let _ := counterMode stream mac
  constructor
  · intro key nonce aad buffer
    exact List.length_mapIdx
  · intro key nonce aad buffer
    exact (if_pos rfl).trans (congrArg some (masked_masked _ buffer))

theorem counterMode_checks : @ChecksTag (counterMode stream mac) := by
  let _ := counterMode stream mac
  constructor
  intro key nonce aad tag
  change (if tag = mac key nonce aad [] then some _ else none).isSome = true ↔ tag = mac key nonce aad []
  split
  · rename_i same
    exact iff_of_true rfl same
  · rename_i different
    exact iff_of_false (by simp) different

end Counter

end QuicMls.AesGcm
