import QuicMls.KeySchedule
import QuicMls.LengthFields

/-! The info string of HKDF-Expand-Label against the `HkdfLabel` structure of
RFC 8446 section 7.1. Each of its fields ends where its own length says, so a
string comes from one request only. -/
namespace QuicMls.LabelEncoding
open BigEndian LengthFields Hkdf KeySchedule

/-- `struct { uint16 length; opaque label<7..255>; opaque context<0..255>; }`.
The floor of the label is not kept: an empty label is written as any other. -/
structure HkdfLabel where
  length : Nat
  label : Bytes
  context : Bytes
  lengthFits : length < 256 ^ 2
  labelFits : label.length ≤ 255
  contextFits : context.length ≤ 255

def HkdfLabel.encode (hkdfLabel : HkdfLabel) : Bytes :=
  toBe 2 hkdfLabel.length ++ vector 255 hkdfLabel.label ++ vector 255 hkdfLabel.context

theorem encode_injective : Function.Injective HkdfLabel.encode := by
  intro left right same
  rw [HkdfLabel.encode, HkdfLabel.encode, List.append_assoc, List.append_assoc] at same
  obtain ⟨length, fields⟩ := toBe_append_injective left.lengthFits right.lengthFits same
  obtain ⟨label, last⟩ := vector_append_injective left.labelFits right.labelFits fields
  rw [← List.append_nil (vector 255 left.context), ← List.append_nil (vector 255 right.context)] at last
  obtain ⟨context, _⟩ := vector_append_injective left.contextFits right.contextFits last
  cases left
  cases right
  cases length
  cases label
  cases context
  rfl

/-- What `hkdf_expand_label` is asked for under one secret. -/
structure Request where
  label : String
  context : Bytes
  len : Nat
  deriving DecidableEq

/-- The request keeps to the field sizes of `HkdfLabel`. -/
structure Request.Fits (request : Request) : Prop where
  label : (utf8 request.label).length ≤ 249
  context : request.context.length ≤ 255
  len : request.len < 65536

def Request.info (request : Request) : Bytes := hkdfLabelInfo request.label request.context request.len

theorem length_tls13 (label : String) : (utf8 ("tls13 " ++ label)).length = (utf8 label).length + 6 := by
  have front : (utf8 "tls13 ").length = 6 := by decide +kernel
  rw [utf8_append, List.length_append, front, Nat.add_comm]

/-- The structure a request is written as. -/
def Request.hkdfLabel (request : Request) (fits : request.Fits) : HkdfLabel where
  length := request.len
  label := utf8 ("tls13 " ++ request.label)
  context := request.context
  lengthFits := fits.len
  labelFits := by
    have label := fits.label
    rw [length_tls13]
    omega
  contextFits := fits.context

theorem info_eq (request : Request) (fits : request.Fits) :
    request.info = (request.hkdfLabel fits).encode := by
  have width : lengthWidth 255 = 1 := by norm_num [lengthWidth]
  rw [Request.info, hkdfLabelInfo, HkdfLabel.encode, vector, vector, width, sized, sized]
  simp only [Request.hkdfLabel, List.append_assoc]

theorem info_injective {left right : Request} (leftFits : left.Fits) (rightFits : right.Fits)
    (same : left.info = right.info) : left = right := by
  rw [info_eq left leftFits, info_eq right rightFits] at same
  have fields := encode_injective same
  obtain ⟨length, label, context⟩ := HkdfLabel.mk.inj fields
  cases left
  cases right
  rw [utf8_append, utf8_append] at label
  obtain rfl := utf8_injective (List.append_cancel_left label)
  cases length
  cases context
  rfl

/-- The info of a request is its `HkdfLabel`, and no other request that fits has
the same; the info is all that HKDF gets besides the secret and the length, wherever
`hkdf_expand_label` does not panic. -/
theorem hkdf_label_info_unambiguous {request other : Request} (fits : request.Fits)
    (otherFits : other.Fits) :
    hkdfLabelInfo request.label request.context request.len = (request.hkdfLabel fits).encode ∧
    (hkdfLabelInfo request.label request.context request.len =
        hkdfLabelInfo other.label other.context other.len ↔
      request.label = other.label ∧ request.context = other.context ∧ request.len = other.len) ∧
    ∀ [HkdfSha256] (secret : Bytes) (okm : Vector UInt8 request.len),
      hkdfExpandLabel secret request.label request.context request.len = some okm ↔
        32 ≤ secret.length ∧ request.len ≤ 255 * 32 ∧
          HkdfSha256.expand secret (hkdfLabelInfo request.label request.context request.len) request.len =
            okm := by
  refine ⟨info_eq request fits, ⟨fun same => ?_, ?_⟩, fun secret okm => hkdfExpandLabel_eq_some⟩
  · obtain rfl := info_injective fits otherFits same
    exact ⟨rfl, rfl, rfl⟩
  · rintro ⟨label, context, len⟩
    rw [label, context, len]

def packetIv : Request := { label := "quic iv", context := [], len := 12 }

def headerKey : Request := { label := "quic hp", context := [], len := 16 }

def packetKey : Request := { label := "quic key", context := [], len := 16 }

theorem packetIv_fits : packetIv.Fits := ⟨by decide +kernel, by decide, by decide⟩

theorem headerKey_fits : headerKey.Fits := ⟨by decide +kernel, by decide, by decide⟩

theorem packetKey_fits : packetKey.Fits := ⟨by decide +kernel, by decide, by decide⟩

theorem hkdf_label_info_unambiguous_keys : packetKey.info ≠ headerKey.info := by
  intro same
  have fields := (hkdf_label_info_unambiguous packetKey_fits headerKey_fits).2.1.mp same
  exact absurd fields.1 (by decide)

/-- The key, the IV and the header key of one secret come from three inputs. -/
theorem derived_inputs_differ [HkdfSha256] (secret : Prk) :
    ∃ key iv hp : Bytes, key ≠ iv ∧ iv ≠ hp ∧ key ≠ hp ∧
      (deriveKeysFromSecret secret).1.key = HkdfSha256.expand secret.bytes key 16 ∧
      (deriveKeysFromSecret secret).1.iv = HkdfSha256.expand secret.bytes iv 12 ∧
      (deriveKeysFromSecret secret).2.key = HkdfSha256.expand secret.bytes hp 16 := by
  obtain ⟨key, iv, hp⟩ := deriveKeysFromSecret_expand secret
  refine ⟨packetKey.info, packetIv.info, headerKey.info, ?_, ?_, ?_,
    (hkdfExpandLabel_eq_some.mp key).2.2.symm, (hkdfExpandLabel_eq_some.mp iv).2.2.symm,
    (hkdfExpandLabel_eq_some.mp hp).2.2.symm⟩
  · exact fun same => absurd (info_injective packetKey_fits packetIv_fits same) (by decide)
  · exact fun same => absurd (info_injective packetIv_fits headerKey_fits same) (by decide)
  · exact fun same => absurd (info_injective packetKey_fits headerKey_fits same) (by decide)

end QuicMls.LabelEncoding
