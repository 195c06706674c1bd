import QuicMls.BigEndian

/-! HKDF-Expand-Label. HMAC-SHA-256 is a parameter; its expansion has the length
asked for. A `&str` is its UTF-8 bytes when it is hashed. The expansion panics on a
secret shorter than a hash, so a secret that keys come from is at least that long. -/
namespace QuicMls.Hkdf
open BigEndian

def utf8 (text : String) : Bytes := text.toUTF8.toList

theorem toList_loop (bytes : ByteArray) (index : Nat) (front : Bytes) :
    ByteArray.toList.loop bytes index front = front.reverse ++ bytes.data.toList.drop index := by
  induction index, front using ByteArray.toList.loop.induct bytes with
  | case1 index front more ih =>
      have inside : index < bytes.data.toList.length := more
      have byte : bytes.get! index = bytes.data.toList.get ⟨index, inside⟩ := by
        rw [ByteArray.get!, List.get_eq_getElem, Array.getElem_toList]
        exact getElem!_pos bytes.data index more
      rw [ByteArray.toList.loop, if_pos more, ih, List.reverse_cons, List.append_assoc,
        List.drop_eq_getElem_cons inside, byte]
      rfl
  | case2 index front none =>
      have behind : bytes.data.toList.length ≤ index := Nat.le_of_not_lt none
      rw [ByteArray.toList.loop, if_neg none, List.drop_of_length_le behind, List.append_nil]

theorem utf8_eq (text : String) : utf8 text = text.toByteArray.data.toList := by
  rw [utf8, String.toUTF8_eq_toByteArray, ByteArray.toList, toList_loop]
  rfl

theorem utf8_append (front back : String) : utf8 (front ++ back) = utf8 front ++ utf8 back := by
  rw [utf8_eq, utf8_eq, utf8_eq, String.toByteArray_append, ByteArray.toList_data_append]

theorem utf8_injective : Function.Injective utf8 := by
  intro left right same
  rw [utf8_eq, utf8_eq] at same
  exact String.toByteArray_inj.mp (ByteArray.ext (Array.toList_inj.mp same))

/-- `Hkdf::<Sha256>::from_prk(secret)` followed by `expand`. -/
class HkdfSha256 where
  expand : Bytes → Bytes → (len : Nat) → Vector UInt8 len

def hkdfLabelInfo (label : String) (context : Bytes) (len : Nat) : Bytes :=
  let fullLabel := utf8 ("tls13 " ++ label)
  toBe 2 len ++ toBe 1 fullLabel.length ++ fullLabel ++ toBe 1 context.length ++ context

/-- `none` is one of the two panics: `from_prk` refuses a secret shorter than a hash,
and `expand` refuses to make more than 255 hashes. -/
def hkdfExpandLabel [HkdfSha256] (secret : Bytes) (label : String) (context : Bytes) (len : Nat) :
    Option (Vector UInt8 len) :=
  if secret.length < 32 then none
  else if 255 * 32 < len then none
  else some (HkdfSha256.expand secret (hkdfLabelInfo label context len) len)

theorem hkdfExpandLabel_eq_some [HkdfSha256] {secret context : Bytes} {label : String} {len : Nat}
    {okm : Vector UInt8 len} : hkdfExpandLabel secret label context len = some okm ↔
      32 ≤ secret.length ∧ len ≤ 255 * 32 ∧
        HkdfSha256.expand secret (hkdfLabelInfo label context len) len = okm := by
  rw [hkdfExpandLabel]
  by_cases short : secret.length < 32
  · simp [short, Nat.not_le.mpr short]
  · by_cases much : 255 * 32 < len
    · simp [much, Nat.not_le.mpr much]
    · simp [short, much, Nat.le_of_not_lt short, Nat.le_of_not_lt much]

/-- A secret that `from_prk` accepts. -/
structure Prk where
  bytes : Bytes
  long : 32 ≤ bytes.length

/-- What the exporter and HKDF itself hand out for keys. -/
def Prk.ofHash (secret : Vector UInt8 32) : Prk where
  bytes := secret.toList
  long := by rw [Vector.length_toList]

theorem Prk.expands [HkdfSha256] (secret : Prk) (label : String) (context : Bytes) {len : Nat}
    (short : len ≤ 255 * 32) : (hkdfExpandLabel secret.bytes label context len).isSome := by
  rw [hkdfExpandLabel, if_neg (Nat.not_lt.mpr secret.long), if_neg (Nat.not_lt.mpr short)]
  rfl

example : hkdfLabelInfo "quic iv" [] 12 =
    [0, 12, 13, 0x74, 0x6C, 0x73, 0x31, 0x33, 0x20, 0x71, 0x75, 0x69, 0x63, 0x20, 0x69, 0x76, 0] := by
  decide +kernel

/-- A stand-in for HMAC that folds a secret of 32 bytes into its first half. -/
@[reducible] def folded : HkdfSha256 where
  expand secret _ len := Vector.ofFn fun i : Fin len => secret.getD i 0 ^^^ secret.getD (i + 16) 0

end QuicMls.Hkdf
