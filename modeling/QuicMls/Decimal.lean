import Mathlib

/-! Decimal numerals: how whole numbers and numbers with a fixed number of places are
printed, and how they are read. -/
namespace QuicMls.Decimal

/-- The last digits of a number, with zeros in front. -/
def padded : Nat → Nat → List Char
  | 0, _ => []
  | places + 1, value => padded places (value / 10) ++ [(value % 10).digitChar]

/-- A number of units of the last place. -/
def fixed (places value : Nat) : List Char :=
  Nat.toDigits 10 (value / 10 ^ places) ++ '.' :: padded places (value % 10 ^ places)

def trim (text : List Char) : List Char := (text.dropWhile Char.isWhitespace).rdropWhile Char.isWhitespace

def readNat (text : List Char) : Option Nat :=
  if text ≠ [] ∧ text.all Char.isDigit then some (Nat.ofDigitChars 10 text 0) else none

/-- Digits around at most one point. -/
def readFixed (text : List Char) : Option ℚ :=
  let fraction := (text.dropWhile fun char => char != '.').tail
  (readNat ((text.takeWhile fun char => char != '.') ++ fraction)).map
    fun digits => digits / 10 ^ fraction.length

def signed {Number : Type} [Neg Number] (read : List Char → Option Number) : List Char → Option Number
  | '-' :: text => (read text).map Neg.neg
  | '+' :: text => read text
  | text => read text

/-- What is left behind a plus sign. -/
def unsigned : List Char → List Char
  | '+' :: text => text
  | text => text

def readInt (text : List Char) : Option ℤ := signed (fun text => (readNat text).map Nat.cast) (trim text)

def readDecimal (text : List Char) : Option ℚ := signed readFixed (trim text)

/-! ### Digits -/

def Digits (text : List Char) : Prop := ∀ char ∈ text, char.isDigit = true

theorem toDigits_digits (value : Nat) : Digits (Nat.toDigits 10 value) := fun _ member =>
  Nat.isDigit_of_mem_toDigits (by decide) le_rfl member

theorem padded_digits (places value : Nat) : Digits (padded places value) := by
  induction places generalizing value with
  | zero =>
      intro char member
      cases member
  | succ places ih =>
      intro char member
      rcases List.mem_append.mp member with member | member
      · exact ih _ char member
      · rw [List.mem_singleton.mp member, Nat.isDigit_digitChar]
        exact decide_eq_true (Nat.mod_lt _ (by decide))

theorem length_padded (places value : Nat) : (padded places value).length = places := by
  induction places generalizing value with
  | zero => rfl
  | succ places ih => rw [padded, List.length_append, ih, List.length_singleton]

theorem ofDigitChars_padded {places value : Nat} (few : value < 10 ^ places) (front : Nat) :
    Nat.ofDigitChars 10 (padded places value) front = front * 10 ^ places + value := by
  induction places generalizing value with
  | zero =>
      rw [padded, Nat.ofDigitChars_nil]
      omega
  | succ places ih =>
      have fewer : value / 10 < 10 ^ places := by
        rw [pow_succ] at few
        omega
      rw [padded, Nat.ofDigitChars_append, ih fewer,
        Nat.ofDigitChars_cons_digitChar_of_lt_ten (Nat.mod_lt _ (by decide)), Nat.ofDigitChars_nil]
      calc 10 * (front * 10 ^ places + value / 10) + value % 10
          = front * (10 ^ places * 10) + (10 * (value / 10) + value % 10) := by ring
        _ = front * 10 ^ (places + 1) + value := by rw [Nat.div_add_mod, pow_succ]

/-! ### Reading what was printed -/

theorem readNat_of_digits {text : List Char} (some : text ≠ []) (digits : Digits text) :
    readNat text = Option.some (Nat.ofDigitChars 10 text 0) :=
  if_pos ⟨some, List.all_eq_true.mpr digits⟩

theorem readNat_toDigits (value : Nat) : readNat (Nat.toDigits 10 value) = some value := by
  rw [readNat_of_digits Nat.toDigits_ne_nil (toDigits_digits value), Nat.ofDigitChars_ten_toDigits]

theorem trim_of_unspaced {text : List Char} (unspaced : ∀ char ∈ text, char.isWhitespace = false) :
    trim text = text := by
  rw [trim, List.dropWhile_eq_self_iff.mpr, List.rdropWhile_eq_self_iff.mpr]
  · intro some
    rw [unspaced _ (List.getLast_mem some)]
    decide
  · intro some
    rw [unspaced _ (List.getElem_mem some)]
    decide

theorem ne_of_digit {char other : Char} (digit : char.isDigit = true) (none : other.isDigit = false) :
    char ≠ other := by
  rintro rfl
  exact Bool.false_ne_true (none.symm.trans digit)

theorem unspaced_of_digit {char : Char} (digit : char.isDigit = true) : char.isWhitespace = false := by
  simp [Char.isWhitespace, ne_of_digit digit]

/-- A numeral that begins with a digit has no sign. -/
theorem signed_of_digit {Number : Type} [Neg Number] (read : List Char → Option Number) {char : Char}
    (digit : char.isDigit = true) (rest : List Char) : signed read (char :: rest) = read (char :: rest) := by
  unfold signed
  split
  · rename_i same
    rw [(List.cons.inj same).1] at digit
    cases digit
  · rename_i same
    rw [(List.cons.inj same).1] at digit
    cases digit
  · rfl

theorem trim_of_digits {text : List Char} (digits : Digits text) : trim text = text :=
  trim_of_unspaced fun char member => unspaced_of_digit (digits char member)

theorem signed_of_digits {Number : Type} [Neg Number] (read : List Char → Option Number) {text : List Char}
    (digits : Digits text) (some : text ≠ []) (rest : List Char) :
    signed read (text ++ rest) = read (text ++ rest) := by
  cases text with
  | nil => exact absurd rfl some
  | cons char text => exact signed_of_digit read (digits char List.mem_cons_self) _

theorem unsigned_of_digits {text : List Char} (digits : Digits text) : unsigned text = text := by
  unfold unsigned
  split
  · cases digits '+' List.mem_cons_self
  · rfl

theorem readInt_toDigits (value : Nat) : readInt (Nat.toDigits 10 value) = some (value : ℤ) := by
  have digits := toDigits_digits value
  have unsigned :=
    signed_of_digits (fun text => (readNat text).map (Nat.cast (R := ℤ))) digits Nat.toDigits_ne_nil []
  rw [List.append_nil] at unsigned
  rw [readInt, trim_of_digits digits, unsigned, readNat_toDigits]
  rfl

theorem readDecimal_toDigits (value : Nat) : readDecimal (Nat.toDigits 10 value) = some (value : ℚ) := by
  have digits := toDigits_digits value
  have pointless : ∀ char ∈ Nat.toDigits 10 value, (char != '.') = true := fun char member =>
    bne_iff_ne.mpr (ne_of_digit (digits char member) rfl)
  have unsigned := signed_of_digits readFixed digits Nat.toDigits_ne_nil []
  rw [List.append_nil] at unsigned
  rw [readDecimal, trim_of_digits digits, unsigned, readFixed, List.takeWhile_eq_self_iff.mpr pointless,
    List.dropWhile_eq_nil_iff.mpr pointless]
  simp [readNat_toDigits]

theorem readFixed_fixed (places value : Nat) :
    readFixed (fixed places value) = some ((value : ℚ) / 10 ^ places) := by
  have whole := toDigits_digits (value / 10 ^ places)
  have fraction := padded_digits places (value % 10 ^ places)
  have pointless : ∀ char ∈ Nat.toDigits 10 (value / 10 ^ places), (char != '.') = true := fun char member =>
    bne_iff_ne.mpr (ne_of_digit (whole char member) rfl)
  have front : (fixed places value).takeWhile (fun char => char != '.') =
      Nat.toDigits 10 (value / 10 ^ places) := by
    rw [fixed, List.takeWhile_append_of_pos pointless]
    simp
  have back : ((fixed places value).dropWhile fun char => char != '.').tail =
      padded places (value % 10 ^ places) := by
    rw [fixed, List.dropWhile_append_of_pos pointless]
    simp
  have digits : Digits (Nat.toDigits 10 (value / 10 ^ places) ++ padded places (value % 10 ^ places)) :=
    fun char member => (List.mem_append.mp member).elim (whole char) (fraction char)
  rw [readFixed, front, back, readNat_of_digits (by simp [Nat.toDigits_ne_nil]) digits, Nat.ofDigitChars_append,
    Nat.ofDigitChars_ten_toDigits, ofDigitChars_padded (Nat.mod_lt _ (by positivity)), length_padded,
    Nat.div_add_mod']
  rfl

theorem readDecimal_fixed (places value : Nat) :
    readDecimal (fixed places value) = some ((value : ℚ) / 10 ^ places) := by
  have whole := toDigits_digits (value / 10 ^ places)
  have unspaced : ∀ char ∈ fixed places value, char.isWhitespace = false := by
    intro char member
    rcases List.mem_append.mp member with member | member
    · exact unspaced_of_digit (whole char member)
    · rcases List.mem_cons.mp member with rfl | member
      · rfl
      · exact unspaced_of_digit (padded_digits _ _ char member)
  rw [readDecimal, trim_of_unspaced unspaced]
  exact (signed_of_digits readFixed whole Nat.toDigits_ne_nil _).trans (readFixed_fixed places value)

end QuicMls.Decimal
