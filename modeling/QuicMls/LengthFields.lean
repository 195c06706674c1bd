import QuicMls.BigEndian

/-! Byte fields that carry their length in front, as in the TLS presentation
language. Such a field can be read off the front of any string, so what is put
together from them can be taken apart in one way only. -/
namespace QuicMls.LengthFields
open BigEndian

/-- A field behind its length. -/
def sized (width : Nat) (field : Bytes) : Bytes := toBe width field.length ++ field

theorem toBe_append_injective {width left right : Nat} (leftFits : left < 256 ^ width)
    (rightFits : right < 256 ^ width) {leftBack rightBack : Bytes}
    (same : toBe width left ++ leftBack = toBe width right ++ rightBack) :
    left = right ∧ leftBack = rightBack := by
  have length : (toBe width left).length = (toBe width right).length := by
    rw [length_toBe, length_toBe]
  obtain ⟨number, back⟩ := List.append_inj same length
  have read := congrArg fromBe number
  rw [fromBe_toBe_of_lt leftFits, fromBe_toBe_of_lt rightFits] at read
  exact ⟨read, back⟩

/-- The front field of a string is the only one that can stand there. -/
theorem sized_append_injective {width : Nat} {left right : Bytes} (leftFits : left.length < 256 ^ width)
    (rightFits : right.length < 256 ^ width) {leftBack rightBack : Bytes}
    (same : sized width left ++ leftBack = sized width right ++ rightBack) :
    left = right ∧ leftBack = rightBack := by
  rw [sized, sized, List.append_assoc, List.append_assoc] at same
  obtain ⟨length, behind⟩ := toBe_append_injective leftFits rightFits same
  exact List.append_inj behind length

/-! ### Vectors -/

/-- The bytes that hold every length up to a ceiling. -/
def lengthWidth (ceiling : Nat) : Nat := Nat.log 256 ceiling + 1

theorem lt_lengthWidth {ceiling length : Nat} (within : length ≤ ceiling) :
    length < 256 ^ lengthWidth ceiling :=
  within.trans_lt (Nat.lt_pow_succ_log_self (by decide) ceiling)

/-- A vector of bytes with a ceiling on its length. -/
def vector (ceiling : Nat) (field : Bytes) : Bytes := sized (lengthWidth ceiling) field

theorem vector_append_injective {ceiling : Nat} {left right : Bytes} (leftFits : left.length ≤ ceiling)
    (rightFits : right.length ≤ ceiling) {leftBack rightBack : Bytes}
    (same : vector ceiling left ++ leftBack = vector ceiling right ++ rightBack) :
    left = right ∧ leftBack = rightBack :=
  sized_append_injective (lt_lengthWidth leftFits) (lt_lengthWidth rightFits) same

end QuicMls.LengthFields
