import QuicMls.PacketKey
import QuicMls.Preamble

/-! Header protection. The AES block cipher is a parameter. The mask may touch the low
bits of the first byte only, so a packet stays on its side of the preamble marker and
the receiver chooses the mask the sender chose. -/
namespace QuicMls.HeaderKey
open BigEndian Transcript Preamble PacketKey

/-- AES-128 on one block. -/
class Aes128 where
  encryptBlock : Vector UInt8 16 → Bytes → Fin 16 → UInt8

def xorFirstByte (packet : Bytes) (maskByte : UInt8) : Bytes :=
  match packet with
  | [] => []
  | first :: rest =>
      if first &&& 0x80 != 0 then (first ^^^ (maskByte &&& 0x0F)) :: rest
      else (first ^^^ (maskByte &&& 0x1F)) :: rest

def xorPnBytes (packet : Bytes) (pnOffset pnLen : Nat) (mask : Fin 16 → UInt8) : Bytes :=
  (List.range pnLen).foldl
    (fun packet i => packet.modify (pnOffset + i) (· ^^^ mask (Fin.ofNat 16 (1 + i)))) packet

/-- `xor_pn_bytes` with its indices checked. -/
def xorPnBytesChecked (packet : Bytes) (pnOffset pnLen : Nat) (mask : Fin 16 → UInt8) : Option Bytes :=
  (List.range pnLen).foldlM
    (fun packet i =>
      if pnOffset + i < packet.length ∧ 1 + i < 16 then
        some (packet.modify (pnOffset + i) (· ^^^ mask (Fin.ofNat 16 (1 + i))))
      else none)
    packet

section Protect
variable [Aes128]

def computeMask (key : Aes128EcbHeaderKey) (sample : Bytes) : Fin 16 → UInt8 :=
  Aes128.encryptBlock key.key sample

/-- `none` is the panic of a packet too short for its sample. -/
def encrypt (key : Aes128EcbHeaderKey) (pnOffset : Nat) (packet : Bytes) : Option Bytes :=
  if pnOffset + 20 > packet.length then none
  else
    let mask := computeMask key (slice packet (pnOffset + 4) (pnOffset + 20))
    let pnLen := (packet.headD 0 &&& 0x03).toNat + 1
    let packet := xorFirstByte packet (mask 0)
    some (xorPnBytes packet pnOffset pnLen mask)

/-- `none` is the panic of a slice or an index outside the packet. -/
def decrypt (key : Aes128EcbHeaderKey) (pnOffset : Nat) (packet : Bytes) : Option Bytes :=
  if pnOffset + 20 > packet.length then none
  else
    let mask := computeMask key (slice packet (pnOffset + 4) (pnOffset + 20))
    let packet := xorFirstByte packet (mask 0)
    let pnLen := (packet.headD 0 &&& 0x03).toNat + 1
    xorPnBytesChecked packet pnOffset pnLen mask

end Protect

/-! ### The marker bits -/

theorem and_xor_distrib (left right bits : UInt8) :
    (left ^^^ right) &&& bits = (left &&& bits) ^^^ (right &&& bits) := by
  apply UInt8.toBitVec_inj.mp
  ext i
  simp [Bool.and_xor_distrib_right]

/-- A mask leaves the bits it does not have. -/
theorem bits_xor (first maskByte : UInt8) {low bits : UInt8} (clear : low &&& bits = 0) :
    (first ^^^ (maskByte &&& low)) &&& bits = first &&& bits := by
  rw [and_xor_distrib, UInt8.and_assoc, clear, UInt8.and_zero, UInt8.xor_zero]

theorem marker_xor (first maskByte low : UInt8) (clear : low &&& 0xC0 = 0) :
    isPreambleMarker (first ^^^ (maskByte &&& low)) = isPreambleMarker first := by
  rw [isPreambleMarker, bits_xor first maskByte clear, isPreambleMarker]

/-- Bit 0x80 or 0x40 keeps a first byte off the marker. -/
theorem marker_clear {first : UInt8} (fixedBits : first &&& 0x80 ≠ 0 ∨ first &&& 0x40 ≠ 0) :
    isPreambleMarker first = false := by
  rw [isPreambleMarker, beq_eq_false_iff_ne]
  intro zero
  have below (bits : UInt8) (part : 0xC0 &&& bits = bits) : first &&& bits = 0 := by
    rw [← part, ← UInt8.and_assoc, zero, UInt8.zero_and]
  rcases fixedBits with long | short
  · exact long (below 0x80 (by decide))
  · exact short (below 0x40 (by decide))

theorem head_xorFirstByte (first maskByte : UInt8) (rest : Bytes) :
    ∃ protectedFirst, xorFirstByte (first :: rest) maskByte = protectedFirst :: rest ∧
      isPreambleMarker protectedFirst = isPreambleMarker first := by
  rw [xorFirstByte]
  split
  · exact ⟨_, rfl, marker_xor first maskByte 0x0F (by decide)⟩
  · exact ⟨_, rfl, marker_xor first maskByte 0x1F (by decide)⟩

theorem xorPnBytes_succ (packet : Bytes) (pnOffset pnLen : Nat) (mask : Fin 16 → UInt8) :
    xorPnBytes packet pnOffset (pnLen + 1) mask =
      (xorPnBytes packet pnOffset pnLen mask).modify (pnOffset + pnLen)
        (· ^^^ mask (Fin.ofNat 16 (1 + pnLen))) := by
  rw [xorPnBytes, List.range_succ, List.foldl_concat, xorPnBytes]

/-- The packet number stands behind the first byte. -/
theorem xorPnBytes_cons (first : UInt8) (rest : Bytes) (offset pnLen : Nat) (mask : Fin 16 → UInt8) :
    xorPnBytes (first :: rest) (offset + 1) pnLen mask = first :: xorPnBytes rest offset pnLen mask := by
  induction pnLen with
  | zero => rfl
  | succ pnLen ih =>
      have shift : offset + 1 + pnLen = offset + pnLen + 1 := by omega
      rw [xorPnBytes_succ, ih, shift, List.modify_succ_cons, xorPnBytes_succ]

/-- A packet with the fixed or the long-header bit is passed to QUIC also after its
header is protected. -/
theorem parsePreamble_encrypt [Aes128] {key : Aes128EcbHeaderKey} {pnOffset : Nat} (behind : 0 < pnOffset)
    {first : UInt8} {rest protectedPacket : Bytes} (fixedBits : first &&& 0x80 ≠ 0 ∨ first &&& 0x40 ≠ 0)
    (encrypted : encrypt key pnOffset (first :: rest) = some protectedPacket) :
    parsePreamble protectedPacket = none := by
  rw [encrypt] at encrypted
  split at encrypted
  · cases encrypted
  · dsimp only at encrypted
    obtain ⟨protectedFirst, masked, marker⟩ := head_xorFirstByte first
      (computeMask key (slice (first :: rest) (pnOffset + 4) (pnOffset + 20)) 0) rest
    rw [masked] at encrypted
    obtain ⟨offset, rfl⟩ := Nat.exists_eq_add_of_lt behind
    rw [Nat.zero_add, xorPnBytes_cons] at encrypted
    cases encrypted
    rw [parsePreamble, marker, marker_clear fixedBits]
    rfl

/-! ### Removing the protection -/

/-- The length of the packet number, from the low two bits of the first byte. -/
def decodeLen (first : UInt8) : Nat := (first &&& 0x03).toNat + 1

/-- `after` has the length of `before` and its bytes, the first byte and the packet
number apart. -/
structure HeaderOnly (pnOffset pnLen : Nat) (before after : Bytes) : Prop where
  length : after.length = before.length
  outside : ∀ index, index ≠ 0 → ¬ (pnOffset ≤ index ∧ index < pnOffset + pnLen) →
    after[index]? = before[index]?

theorem slice_congr {left right : Bytes} {start stop : Nat}
    (same : ∀ index, start ≤ index → index < stop → left[index]? = right[index]?) :
    slice left start stop = slice right start stop := by
  apply List.ext_getElem?
  intro index
  rw [slice, slice, List.getElem?_drop, List.getElem?_drop, List.getElem?_take, List.getElem?_take]
  split
  · rename_i inside
    exact same (start + index) (Nat.le_add_right start index) inside
  · rfl

/-- The sample begins four bytes behind the packet number's start, where the mask
does not reach. -/
theorem HeaderOnly.sample {pnOffset pnLen : Nat} {before after : Bytes}
    (frame : HeaderOnly pnOffset pnLen before after) (short : pnLen ≤ 4) :
    slice after (pnOffset + 4) (pnOffset + 20) = slice before (pnOffset + 4) (pnOffset + 20) := by
  apply slice_congr
  intro index start stop
  apply frame.outside
  · omega
  · omega

theorem xor_cancel (byte mask : UInt8) : byte ^^^ mask ^^^ mask = byte := by
  rw [UInt8.xor_assoc, UInt8.xor_self, UInt8.xor_zero]

theorem decodeLen_le (first : UInt8) : decodeLen first ≤ 4 := by
  rw [decodeLen, UInt8.toNat_and]
  exact Nat.succ_le_succ Nat.and_le_right

@[simp] theorem length_xorPnBytes (packet : Bytes) (pnOffset pnLen : Nat) (mask : Fin 16 → UInt8) :
    (xorPnBytes packet pnOffset pnLen mask).length = packet.length := by
  induction pnLen with
  | zero => rfl
  | succ pnLen ih => rw [xorPnBytes_succ, List.length_modify, ih]

theorem getElem?_xorPnBytes (packet : Bytes) (pnOffset pnLen : Nat) (mask : Fin 16 → UInt8) (index : Nat) :
    (xorPnBytes packet pnOffset pnLen mask)[index]? = packet[index]?.map fun byte =>
      if pnOffset ≤ index ∧ index < pnOffset + pnLen then
        byte ^^^ mask (Fin.ofNat 16 (1 + (index - pnOffset)))
      else byte := by
  induction pnLen with
  | zero =>
      have out : ¬ (pnOffset ≤ index ∧ index < pnOffset + 0) := by omega
      simp only [if_neg out, Option.map_id']
      rfl
  | succ pnLen ih =>
      rw [xorPnBytes_succ, List.getElem?_modify, ih, Option.map_eq_map, Option.map_map]
      congr 1
      funext byte
      dsimp only [Function.comp]
      by_cases last : pnOffset + pnLen = index
      · subst last
        have outBefore : ¬ (pnOffset ≤ pnOffset + pnLen ∧ pnOffset + pnLen < pnOffset + pnLen) := by omega
        have inAfter : pnOffset ≤ pnOffset + pnLen ∧ pnOffset + pnLen < pnOffset + (pnLen + 1) := by omega
        rw [if_pos rfl, if_neg outBefore, if_pos inAfter, Nat.add_sub_cancel_left]
      · have same : (pnOffset ≤ index ∧ index < pnOffset + (pnLen + 1)) ↔
            pnOffset ≤ index ∧ index < pnOffset + pnLen := by omega
        rw [if_neg last, if_congr same rfl rfl]

theorem xorPnBytes_xorPnBytes (packet : Bytes) (pnOffset pnLen : Nat) (mask : Fin 16 → UInt8) :
    xorPnBytes (xorPnBytes packet pnOffset pnLen mask) pnOffset pnLen mask = packet := by
  apply List.ext_getElem?
  intro index
  rw [getElem?_xorPnBytes, getElem?_xorPnBytes, Option.map_map]
  by_cases inside : pnOffset ≤ index ∧ index < pnOffset + pnLen
  · simp [Function.comp_def, inside]
  · simp [Function.comp_def, inside]

/-- With room for the packet number no index is out of range. -/
theorem xorPnBytesChecked_eq {packet : Bytes} {pnOffset pnLen : Nat} (mask : Fin 16 → UInt8)
    (room : pnOffset + pnLen ≤ packet.length) (short : pnLen ≤ 15) :
    xorPnBytesChecked packet pnOffset pnLen mask = some (xorPnBytes packet pnOffset pnLen mask) := by
  induction pnLen with
  | zero => rfl
  | succ pnLen ih =>
      have before := ih (by omega) (by omega)
      rw [xorPnBytesChecked] at before
      have inRange : pnOffset + pnLen < (xorPnBytes packet pnOffset pnLen mask).length ∧ 1 + pnLen < 16 := by
        rw [length_xorPnBytes]
        omega
      rw [xorPnBytesChecked, List.range_succ, List.foldlM_append, before, xorPnBytes_succ]
      simp only [List.foldlM_cons, List.foldlM_nil, Option.bind_eq_bind, Option.bind_some, if_pos inRange]
      rfl

/-- The mask leaves the bit that chooses it, so masking twice undoes it. -/
theorem xorFirstByte_xorFirstByte (packet : Bytes) (maskByte : UInt8) :
    xorFirstByte (xorFirstByte packet maskByte) maskByte = packet := by
  cases packet with
  | nil => rfl
  | cons first rest =>
      rw [xorFirstByte]
      split
      · rename_i long
        rw [xorFirstByte, bits_xor first maskByte (by decide), if_pos long, xor_cancel]
      · rename_i short
        rw [xorFirstByte, bits_xor first maskByte (by decide), if_neg short, xor_cancel]

@[simp] theorem length_xorFirstByte (packet : Bytes) (maskByte : UInt8) :
    (xorFirstByte packet maskByte).length = packet.length := by
  cases packet with
  | nil => rfl
  | cons first rest =>
      rw [xorFirstByte]
      split
      · rfl
      · rfl

/-- What both directions do to a packet once the mask is known. -/
theorem headerOnly_masked (packet : Bytes) (pnOffset pnLen : Nat) (mask : Fin 16 → UInt8) :
    HeaderOnly pnOffset pnLen packet (xorPnBytes (xorFirstByte packet (mask 0)) pnOffset pnLen mask) := by
  constructor
  · rw [length_xorPnBytes, length_xorFirstByte]
  · intro index behind out
    rw [getElem?_xorPnBytes]
    simp only [if_neg out, Option.map_id']
    obtain ⟨index, rfl⟩ := Nat.exists_eq_succ_of_ne_zero behind
    cases packet with
    | nil => rfl
    | cons first rest =>
        rw [xorFirstByte]
        split
        · rfl
        · rfl

theorem headD_xorPnBytes (packet : Bytes) {pnOffset : Nat} (behind : 0 < pnOffset) (pnLen : Nat)
    (mask : Fin 16 → UInt8) : (xorPnBytes packet pnOffset pnLen mask).headD 0 = packet.headD 0 := by
  rw [List.headD_eq_head?_getD, List.headD_eq_head?_getD, List.head?_eq_getElem?, List.head?_eq_getElem?,
    getElem?_xorPnBytes]
  have out : ¬ (pnOffset ≤ 0 ∧ 0 < pnOffset + pnLen) := by omega
  simp only [if_neg out, Option.map_id']

/-- The two maskings commute: the packet number stands behind the first byte. -/
theorem xorFirstByte_xorPnBytes (packet : Bytes) {pnOffset : Nat} (behind : 0 < pnOffset) (pnLen : Nat)
    (mask : Fin 16 → UInt8) (maskByte : UInt8) :
    xorFirstByte (xorPnBytes packet pnOffset pnLen mask) maskByte =
      xorPnBytes (xorFirstByte packet maskByte) pnOffset pnLen mask := by
  obtain ⟨offset, rfl⟩ := Nat.exists_eq_succ_of_ne_zero behind.ne'
  cases packet with
  | nil =>
      have empty : xorPnBytes [] (offset + 1) pnLen mask = [] :=
        List.eq_nil_of_length_eq_zero (length_xorPnBytes [] (offset + 1) pnLen mask)
      rw [xorFirstByte, Nat.succ_eq_add_one, empty, xorFirstByte]
  | cons first rest =>
      rw [Nat.succ_eq_add_one, xorPnBytes_cons, xorFirstByte, xorFirstByte]
      split
      · rw [xorPnBytes_cons]
      · rw [xorPnBytes_cons]

section Remove
variable [Aes128] {key : Aes128EcbHeaderKey} {pnOffset : Nat} {packet protectedPacket : Bytes}

/-- The mask both directions read from the sample. -/
def sampledMask (key : Aes128EcbHeaderKey) (pnOffset : Nat) (packet : Bytes) : Fin 16 → UInt8 :=
  computeMask key (slice packet (pnOffset + 4) (pnOffset + 20))

theorem encrypt_eq_some : encrypt key pnOffset packet = some protectedPacket ↔
    pnOffset + 20 ≤ packet.length ∧
      protectedPacket = xorPnBytes (xorFirstByte packet (sampledMask key pnOffset packet 0)) pnOffset
        (decodeLen (packet.headD 0)) (sampledMask key pnOffset packet) := by
  rw [encrypt]
  split
  · rename_i small
    exact iff_of_false (by simp) fun whole => absurd whole.1 (Nat.not_le.mpr small)
  · rename_i room
    constructor
    · intro encrypted
      exact ⟨Nat.not_lt.mp room, (Option.some.inj encrypted).symm⟩
    · rintro ⟨-, rfl⟩
      rfl

/-- The packet number is at most four bytes long, so it ends before the sample does. -/
theorem decrypt_eq (key : Aes128EcbHeaderKey) (room : pnOffset + 20 ≤ packet.length) :
    decrypt key pnOffset packet =
      let mask := sampledMask key pnOffset packet
      let unmasked := xorFirstByte packet (mask 0)
      some (xorPnBytes unmasked pnOffset (decodeLen (unmasked.headD 0)) mask) := by
  rw [decrypt, if_neg (Nat.not_lt.mpr room)]
  apply xorPnBytesChecked_eq
  · have short := decodeLen_le
      ((xorFirstByte packet (sampledMask key pnOffset packet 0)).headD 0)
    rw [length_xorFirstByte]
    exact Nat.le_trans (Nat.add_le_add_left (Nat.le_trans short (by decide)) pnOffset) room
  · exact Nat.le_trans (decodeLen_le _) (by decide)

theorem encrypt_frame (encrypted : encrypt key pnOffset packet = some protectedPacket) :
    HeaderOnly pnOffset (decodeLen (packet.headD 0)) packet protectedPacket := by
  obtain ⟨-, rfl⟩ := encrypt_eq_some.mp encrypted
  exact headerOnly_masked packet pnOffset _ _

/-- Removing the protection reads the mask the sender read and the packet number's
length from a first byte it has just restored. -/
theorem decrypt_encrypt (behind : 0 < pnOffset)
    (encrypted : encrypt key pnOffset packet = some protectedPacket) :
    decrypt key pnOffset protectedPacket = some packet := by
  have frame := encrypt_frame encrypted
  obtain ⟨room, rfl⟩ := encrypt_eq_some.mp encrypted
  have sameMask := congrArg (computeMask key) (frame.sample (decodeLen_le (packet.headD 0)))
  rw [← sampledMask, ← sampledMask] at sameMask
  rw [decrypt_eq key (by rwa [frame.length]), sameMask]
  dsimp only
  rw [xorFirstByte_xorPnBytes _ behind, xorFirstByte_xorFirstByte, headD_xorPnBytes _ behind,
    xorPnBytes_xorPnBytes]

/-- On any packet with room for the sample nothing is indexed out of range, and
nothing but the first byte and a packet number of at most four bytes changes. -/
theorem decrypt_total (key : Aes128EcbHeaderKey) (behind : 0 < pnOffset)
    (room : pnOffset + 20 ≤ protectedPacket.length) : ∃ opened,
      decrypt key pnOffset protectedPacket = some opened ∧
      HeaderOnly pnOffset (decodeLen (opened.headD 0)) protectedPacket opened := by
  refine ⟨_, decrypt_eq key room, ?_⟩
  rw [headD_xorPnBytes _ behind]
  exact headerOnly_masked protectedPacket pnOffset _ _

end Remove

end QuicMls.HeaderKey
