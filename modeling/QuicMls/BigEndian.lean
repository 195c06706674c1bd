import Mathlib

/-! Fixed-width big-endian numerals over bytes. `toBe` drops what does not fit
in its width, as a narrowing cast does; `fromBe` reads any byte string. The two
are inverse on each width, which is all a length-prefixed format needs. -/
namespace QuicMls.BigEndian

abbrev Bytes := List UInt8

def toBe : Nat → Nat → Bytes
  | 0, _ => []
  | width + 1, value => toBe width (value / 256) ++ [UInt8.ofNat value]

def fromBe (bytes : Bytes) : Nat :=
  bytes.foldl (fun high low => 256 * high + low.toNat) 0

@[simp] theorem length_toBe (width value : Nat) : (toBe width value).length = width := by
  induction width generalizing value with
  | zero => rfl
  | succ width ih => simp [toBe, ih]

theorem fromBe_concat (bytes : Bytes) (last : UInt8) :
    fromBe (bytes ++ [last]) = 256 * fromBe bytes + last.toNat := by
  simp [fromBe]

theorem fromBe_toBe (width value : Nat) : fromBe (toBe width value) = value % 256 ^ width := by
  induction width generalizing value with
  | zero => simp [toBe, fromBe, Nat.mod_one]
  | succ width ih =>
      have low : (UInt8.ofNat value).toNat = value % 256 := by simp
      rw [toBe, fromBe_concat, ih, low, Nat.pow_succ', Nat.mod_mul]
      ring

theorem fromBe_toBe_of_lt {width value : Nat} (fits : value < 256 ^ width) :
    fromBe (toBe width value) = value := by
  rw [fromBe_toBe, Nat.mod_eq_of_lt fits]

theorem fromBe_lt (bytes : Bytes) : fromBe bytes < 256 ^ bytes.length := by
  induction bytes using List.reverseRecOn with
  | nil => simp [fromBe]
  | append_singleton front last ih =>
      have small := last.toNat_lt
      rw [fromBe_concat, List.length_append, List.length_singleton, Nat.pow_succ]
      omega

theorem toBe_fromBe (bytes : Bytes) : toBe bytes.length (fromBe bytes) = bytes := by
  induction bytes using List.reverseRecOn with
  | nil => rfl
  | append_singleton front last ih =>
      have small := last.toNat_lt
      have high : (256 * fromBe front + last.toNat) / 256 = fromBe front := by omega
      have low : UInt8.ofNat (256 * fromBe front + last.toNat) = last := by
        apply UInt8.toNat_inj.mp
        rw [UInt8.toNat_ofNat']
        omega
      rw [fromBe_concat, List.length_append, List.length_singleton, toBe, high, low, ih]

/-! A 64-bit word in network order. -/

def wordToBe (word : UInt64) : Bytes := toBe 8 word.toNat

def wordFromBe (bytes : Bytes) : UInt64 := UInt64.ofNat (fromBe bytes)

@[simp] theorem length_wordToBe (word : UInt64) : (wordToBe word).length = 8 :=
  length_toBe 8 word.toNat

theorem wordToBe_ne_nil (word : UInt64) : wordToBe word ≠ [] :=
  List.ne_nil_of_length_pos (by simp)

@[simp] theorem wordFromBe_wordToBe (word : UInt64) : wordFromBe (wordToBe word) = word := by
  rw [wordFromBe, wordToBe, fromBe_toBe_of_lt (by simpa using word.toNat_lt), UInt64.ofNat_toNat]

theorem wordToBe_wordFromBe {bytes : Bytes} (size : bytes.length = 8) :
    wordToBe (wordFromBe bytes) = bytes := by
  have small : fromBe bytes < 2 ^ 64 := by
    have bound := fromBe_lt bytes
    rwa [size] at bound
  have field := toBe_fromBe bytes
  rw [size] at field
  rw [wordToBe, wordFromBe, UInt64.toNat_ofNat', Nat.mod_eq_of_lt small, field]

theorem wordToBe_injective : Function.Injective wordToBe := by
  intro left right same
  rw [← wordFromBe_wordToBe left, same, wordFromBe_wordToBe]

end QuicMls.BigEndian
