import Mathlib

/-! Streams of self-delimiting messages. A reader takes one message off the head of
its input. Every input splits in one way into messages and a rest at which the
reader stops. -/
namespace QuicMls.MessageStream

variable {Byte Message Error : Type*}

/-- The reader inverts the encoding, accepts nothing else, and always makes progress. -/
structure Framing (encode : Message → List Byte)
    (read : List Byte → Except Error (Message × List Byte)) : Prop where
  complete : ∀ message rest, read (encode message ++ rest) = .ok (message, rest)
  sound : ∀ input message rest, read input = .ok (message, rest) → input = encode message ++ rest
  progress : ∀ message, encode message ≠ []

/-- Repeated reads, at most `fuel` of them: the messages and what is left. -/
def readUpTo (read : List Byte → Except Error (Message × List Byte)) :
    Nat → List Byte → List Message × List Byte
  | 0, input => ([], input)
  | fuel + 1, input =>
      match read input with
      | .ok (message, rest) =>
          let (messages, left) := readUpTo read fuel rest
          (message :: messages, left)
      | .error _ => ([], input)

/-- A message has a byte at least, so the input pays for every read. -/
def readAll (read : List Byte → Except Error (Message × List Byte)) (input : List Byte) :
    List Message × List Byte :=
  readUpTo read input.length input

/-- The messages at the head of an input, and a rest that begins with none. -/
structure Splits (encode : Message → List Byte)
    (read : List Byte → Except Error (Message × List Byte)) (input : List Byte)
    (messages : List Message) (left : List Byte) : Prop where
  whole : input = messages.flatMap encode ++ left
  stuck : ∃ e, read left = .error e

variable {encode : Message → List Byte} {read : List Byte → Except Error (Message × List Byte)}

theorem readUpTo_splits (framing : Framing encode read) (fuel : Nat) {input : List Byte}
    (enough : input.length ≤ fuel) :
    Splits encode read input (readUpTo read fuel input).1 (readUpTo read fuel input).2 := by
  induction fuel generalizing input with
  | zero =>
      obtain rfl := List.eq_nil_of_length_eq_zero (Nat.le_zero.mp enough)
      refine ⟨rfl, ?_⟩
      change ∃ e, read [] = .error e
      cases first : read [] with
      | error e => exact ⟨e, rfl⟩
      | ok found =>
          have empty := framing.sound _ _ _ first
          exact absurd (List.append_eq_nil_iff.mp empty.symm).1 (framing.progress _)
  | succ fuel ih =>
      rw [readUpTo]
      cases first : read input with
      | error e => exact ⟨rfl, e, first⟩
      | ok found =>
          obtain ⟨message, rest⟩ := found
          have split := framing.sound _ _ _ first
          have shorter : rest.length ≤ fuel := by
            have some := List.length_pos_of_ne_nil (framing.progress message)
            rw [split, List.length_append] at enough
            omega
          obtain ⟨whole, stuck⟩ := ih shorter
          refine ⟨?_, stuck⟩
          rw [List.flatMap_cons, List.append_assoc, ← whole]
          exact split

theorem readAll_splits (framing : Framing encode read) (input : List Byte) :
    Splits encode read input (readAll read input).1 (readAll read input).2 :=
  readUpTo_splits framing input.length (le_refl _)

/-- Messages that begin an input are the first ones read from it. -/
theorem Splits.longest {input left more : List Byte} {messages others : List Message}
    (framing : Framing encode read) (splits : Splits encode read input messages left)
    (begins : input = others.flatMap encode ++ more) :
    ∃ later, messages = others ++ later ∧ more = later.flatMap encode ++ left := by
  obtain ⟨whole, e, stuck⟩ := splits
  rw [begins] at whole
  clear begins
  induction others generalizing messages with
  | nil => exact ⟨messages, rfl, whole⟩
  | cons other others ih =>
      rw [List.flatMap_cons, List.append_assoc] at whole
      have first := framing.complete other (others.flatMap encode ++ more)
      rw [whole] at first
      cases messages with
      | nil =>
          rw [List.flatMap_nil, List.nil_append, stuck] at first
          cases first
      | cons message messages =>
          rw [List.flatMap_cons, List.append_assoc, framing.complete] at first
          obtain ⟨rfl, rest⟩ := Prod.mk.inj (Except.ok.inj first)
          obtain ⟨later, split, behind⟩ := ih rest.symm
          exact ⟨later, by rw [split, List.cons_append], behind⟩

theorem Splits.unique {input left right : List Byte} {messages others : List Message}
    (framing : Framing encode read) (one : Splits encode read input messages left)
    (two : Splits encode read input others right) : messages = others ∧ left = right := by
  obtain ⟨later, split, behind⟩ := one.longest framing two.whole
  obtain ⟨again, splitAgain, behindAgain⟩ := two.longest framing one.whole
  rw [splitAgain, List.append_assoc] at split
  obtain ⟨rfl, rfl⟩ := List.append_eq_nil_iff.mp (List.self_eq_append_right.mp split)
  rw [List.append_nil] at splitAgain
  rw [List.flatMap_nil, List.nil_append] at behind
  exact ⟨splitAgain.symm, behind.symm⟩

theorem readAll_eq {input left : List Byte} {messages : List Message} (framing : Framing encode read)
    (splits : Splits encode read input messages left) : readAll read input = (messages, left) :=
  Prod.ext_iff.mpr ((readAll_splits framing input).unique framing splits)

/-- Messages in front of an input are read before the messages in it. -/
theorem readAll_append (framing : Framing encode read) (messages : List Message) (input : List Byte) :
    readAll read (messages.flatMap encode ++ input) =
      (messages ++ (readAll read input).1, (readAll read input).2) := by
  obtain ⟨whole, stuck⟩ := readAll_splits framing input
  apply readAll_eq framing
  refine ⟨?_, stuck⟩
  rw [List.flatMap_append, List.append_assoc, ← whole]

theorem readAll_stuck {input : List Byte} {e : Error} (framing : Framing encode read)
    (stuck : read input = .error e) : readAll read input = ([], input) :=
  readAll_eq framing ⟨rfl, e, stuck⟩

end QuicMls.MessageStream
