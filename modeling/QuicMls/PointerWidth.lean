import QuicMls.Preamble
import QuicMls.TranscriptGrammar

/-! `decode_transcript` on pointers of 32 and of 64 bits, in a build where addition
wraps. A length field adds up to `2^32 - 1` to a position inside the input. With 32
bits that sum can wrap behind the position, where the bounds check lets it pass. -/
namespace QuicMls.PointerWidth
open BigEndian Groups Budget Transcript TranscriptGrammar Preamble

inductive UsizeWidth where
  | bits32
  | bits64
  deriving DecidableEq

def UsizeWidth.bits : UsizeWidth → Nat
  | .bits32 => 32
  | .bits64 => 64

/-- `isize::MAX`, which bounds every slice. -/
def UsizeWidth.maxLen (width : UsizeWidth) : Nat := 2 ^ (width.bits - 1) - 1

def wrappingAdd (width : UsizeWidth) (left right : Nat) : Nat := (left + right) % 2 ^ width.bits

/-! ### The decoder -/

/-- The entry loop; `none` is the panic of a slice. -/
def decodeEntriesAt (width : UsizeWidth) (bytes : Bytes) :
    Nat → Nat → Option (Except TranscriptDecodeError Window)
  | 0, _ => some (.ok [])
  | count + 1, pos =>
      if wrappingAdd width (wrappingAdd width pos 8) 4 > bytes.length then some (.error .truncated)
      else
        (checkedSlice bytes pos (wrappingAdd width pos 8)).bind fun epoch =>
          let pos := wrappingAdd width pos 8
          (checkedSlice bytes pos (wrappingAdd width pos 4)).bind fun len =>
            let pos := wrappingAdd width pos 4
            if wrappingAdd width pos (fromBe len) > bytes.length then some (.error .truncated)
            else
              (checkedSlice bytes pos (wrappingAdd width pos (fromBe len))).bind fun commit =>
                (decodeEntriesAt width bytes count (wrappingAdd width pos (fromBe len))).map
                  (Except.map ((wordFromBe epoch, commit) :: ·))

def decodeTranscriptAt (width : UsizeWidth) (bytes : Bytes) :
    Option (Except TranscriptDecodeError Window) :=
  if bytes.length < wrappingAdd width MAGIC.length 4 then some (.error .truncated)
  else
    (checkedSlice bytes 0 MAGIC.length).bind fun magic =>
      if magic ≠ MAGIC then some (.error .badMagic)
      else
        let pos := MAGIC.length
        (checkedSlice bytes pos (wrappingAdd width pos 4)).bind fun count =>
          decodeEntriesAt width bytes (fromBe count) (wrappingAdd width pos 4)

def parsePreambleAt (width : UsizeWidth) :
    Bytes → Option (Option (Except TranscriptDecodeError Window))
  | [] => some none
  | first :: rest =>
      if isPreambleMarker first then (decodeTranscriptAt width rest).map some else some none

def handlePreambleDatagramAt {State : Type} (width : UsizeWidth) (sink : Option (CommitSink State))
    (payload : Bytes) (state : State) : Option State :=
  (decodeTranscriptAt width payload).map fun decoded =>
    match decoded with
    | .ok window =>
        match sink with
        | some sink => sink window state
        | none => state
    | .error _ => state

/-- One received datagram, as the receive loop treats it. -/
def demultiplexAt {State : Type} (width : UsizeWidth) (sink : Option (CommitSink State))
    (datagram : Bytes) (state : State) : Option (Option Bytes × State) :=
  (parsePreambleAt width datagram).bind fun parsed =>
    match parsed with
    | some _ => (handlePreambleDatagramAt width sink (datagram.drop 1) state).map fun state => (none, state)
    | none => some (some datagram, state)

/-- The receive loop on some datagrams: what it passes to QUIC. -/
def receiveAt {State : Type} (width : UsizeWidth) (sink : Option (CommitSink State)) :
    List Bytes → State → Option (List Bytes × State)
  | [], state => some ([], state)
  | datagram :: rest, state =>
      (demultiplexAt width sink datagram state).bind fun (passed, state) =>
        (receiveAt width sink rest state).map fun (later, state) => (passed.toList ++ later, state)

/-! ### The inputs whose length field wraps -/

/-- From `pos` on some entries, fewer than announced, and behind them a length field
that reaches past the 32-bit address space. -/
def EntryWraps (bytes : Bytes) (count pos : Nat) : Prop :=
  ∃ front : Window, ∃ epoch len tail, front.length < count ∧ (∀ entry ∈ front, WellSized entry) ∧
    len < 2 ^ 32 ∧
    bytes.drop pos = front.flatMap encodeEntry ++ (wordToBe epoch ++ (toBe 4 len ++ tail)) ∧
    2 ^ 32 ≤ pos + total entryWireLen front + 12 + len

/-- A transcript with such an entry. -/
def LengthWraps (bytes : Bytes) : Prop :=
  ∃ count, count < 2 ^ 32 ∧ ∃ front : Window, ∃ epoch len tail, front.length < count ∧
    (∀ entry ∈ front, WellSized entry) ∧ len < 2 ^ 32 ∧
    bytes = MAGIC ++ (toBe 4 count ++
      (front.flatMap encodeEntry ++ (wordToBe epoch ++ (toBe 4 len ++ tail)))) ∧
    2 ^ 32 ≤ encodedSize front + 12 + len

/-- The length field an entry header at `pos` has. -/
def lenAt (bytes : Bytes) (pos : Nat) : Nat := fromBe (slice bytes (pos + 8) (pos + 8 + 4))

/-- An entry header spelled out in the input is the one the decoder reads there. -/
theorem lenAt_eq {bytes tail : Bytes} {pos len : Nat} {epoch : UInt64} (small : len < 2 ^ 32)
    (here : bytes.drop pos = wordToBe epoch ++ (toBe 4 len ++ tail)) :
    pos + 8 + 4 + tail.length = bytes.length ∧ lenAt bytes pos = len := by
  have size := congrArg List.length here
  simp only [List.length_drop, List.length_append, length_wordToBe, length_toBe] at size
  have inside : pos + 8 + 4 + tail.length = bytes.length := by omega
  refine ⟨inside, ?_⟩
  have field : slice bytes (pos + 8) (pos + 8 + 4) = toBe 4 len := by
    have shift : pos + 8 + 4 - (pos + 8) = 4 := by omega
    rw [slice, List.drop_take, shift, ← List.drop_drop, here, List.drop_left' (length_wordToBe epoch),
      List.take_left' (length_toBe 4 len)]
  rw [lenAt, field, fromBe_toBe_of_lt small]

theorem entryWraps_zero (bytes : Bytes) (pos : Nat) : ¬ EntryWraps bytes 0 pos := by
  rintro ⟨front, _, _, _, few, -⟩
  exact Nat.not_lt_zero _ few

/-- The first entry of a wrapping input is the one that wraps, or it is whole. -/
theorem EntryWraps.first {bytes : Bytes} {count pos : Nat} (wraps : EntryWraps bytes (count + 1) pos) :
    pos + 8 + 4 ≤ bytes.length ∧ (2 ^ 32 ≤ pos + 8 + 4 + lenAt bytes pos ∨
      pos + 8 + 4 + lenAt bytes pos ≤ bytes.length ∧
        EntryWraps bytes count (pos + 8 + 4 + lenAt bytes pos)) := by
  obtain ⟨front, epoch, len, tail, few, sized, small, here, reach⟩ := wraps
  cases front with
  | nil =>
      obtain ⟨inside, field⟩ := lenAt_eq small here
      rw [total_nil] at reach
      exact ⟨by omega, Or.inl (by omega)⟩
  | cons entry rest =>
      obtain ⟨first, others⟩ := List.forall_mem_cons.mp sized
      rw [List.flatMap_cons, encodeEntry, List.append_assoc, List.append_assoc, List.append_assoc] at here
      obtain ⟨inside, field⟩ := lenAt_eq first here
      rw [List.length_append] at inside
      refine ⟨by omega, Or.inr ⟨by omega, rest, epoch, len, tail, Nat.lt_of_succ_lt_succ few, others,
        small, ?_, ?_⟩⟩
      · have header : (wordToBe entry.1 ++ (toBe 4 entry.2.length ++ entry.2)).length =
            8 + 4 + lenAt bytes pos := by
          rw [field, List.length_append, List.length_append, length_wordToBe, length_toBe]
          omega
        rw [Nat.add_assoc pos 8 4, Nat.add_assoc pos, ← List.drop_drop, here, ← List.append_assoc,
          ← List.append_assoc, List.append_assoc (wordToBe entry.1), List.drop_left' header]
      · rw [total_cons, entryWireLen] at reach
        omega

theorem entryWraps_here {bytes : Bytes} {pos : Nat} (count : Nat) (header : pos + 8 + 4 ≤ bytes.length)
    (reach : 2 ^ 32 ≤ pos + 8 + 4 + lenAt bytes pos) : EntryWraps bytes (count + 1) pos := by
  refine ⟨[], _, lenAt bytes pos, _, Nat.zero_lt_succ _, List.forall_mem_nil _, lenField_lt header,
    header_slices header, ?_⟩
  rw [total_nil]
  omega

theorem entryWraps_behind {bytes : Bytes} {count pos : Nat} (header : pos + 8 + 4 ≤ bytes.length)
    (body : pos + 8 + 4 + lenAt bytes pos ≤ bytes.length)
    (later : EntryWraps bytes count (pos + 8 + 4 + lenAt bytes pos)) :
    EntryWraps bytes (count + 1) pos := by
  obtain ⟨front, epoch, len, tail, few, sized, small, here, reach⟩ := later
  obtain ⟨wellSized, entry⟩ := encodeEntry_slices header body
  refine ⟨_ :: front, epoch, len, tail, Nat.succ_lt_succ few,
    List.forall_mem_cons.mpr ⟨wellSized, sized⟩, small, ?_, ?_⟩
  · rw [entry, List.flatMap_cons, List.append_assoc, ← here]
    rfl
  · have size : (slice bytes (pos + 8 + 4) (pos + 8 + 4 + lenAt bytes pos)).length = lenAt bytes pos := by
      rw [length_slice body]
      omega
    rw [total_cons, entryWireLen]
    rw [lenAt] at size reach
    dsimp only
    rw [size]
    omega

/-- The entry at `pos` wraps, or it is whole and a later one wraps. -/
theorem entryWraps_succ (bytes : Bytes) (count pos : Nat) : EntryWraps bytes (count + 1) pos ↔
    pos + 8 + 4 ≤ bytes.length ∧ (2 ^ 32 ≤ pos + 8 + 4 + lenAt bytes pos ∨
      pos + 8 + 4 + lenAt bytes pos ≤ bytes.length ∧
        EntryWraps bytes count (pos + 8 + 4 + lenAt bytes pos)) := by
  constructor
  · exact EntryWraps.first
  · rintro ⟨header, reach | ⟨body, later⟩⟩
    · exact entryWraps_here count header reach
    · exact entryWraps_behind header body later

/-! ### Sums and slices -/

section Decode
variable {width : UsizeWidth} {bytes : Bytes}

theorem wrappingAdd_eq {left right : Nat} (room : left + right < 2 ^ width.bits) :
    wrappingAdd width left right = left + right :=
  Nat.mod_eq_of_lt room

/-- The fixed fields of an entry leave no address space. -/
theorem maxLen_lt (width : UsizeWidth) : width.maxLen + 12 < 2 ^ width.bits := by
  cases width with
  | bits32 => decide
  | bits64 => decide

/-- A length field behind a position inside the input wraps on 32 bits alone, and
then to somewhere before the position. -/
theorem wrappingAdd_len {pos len : Nat} (inside : pos ≤ width.maxLen) (small : len < 2 ^ 32) :
    width = .bits32 ∧ 2 ^ 32 ≤ pos + len ∧ wrappingAdd width pos len < pos ∨
    ¬ (width = .bits32 ∧ 2 ^ 32 ≤ pos + len) ∧ wrappingAdd width pos len = pos + len := by
  cases width with
  | bits32 =>
      have bound : pos ≤ 2 ^ 31 - 1 := inside
      by_cases wraps : 2 ^ 32 ≤ pos + len
      · refine Or.inl ⟨rfl, wraps, ?_⟩
        change (pos + len) % 2 ^ 32 < pos
        omega
      · refine Or.inr ⟨fun both => wraps both.2, wrappingAdd_eq ?_⟩
        exact Nat.lt_of_not_le wraps
  | bits64 =>
      have bound : pos ≤ 2 ^ 63 - 1 := inside
      refine Or.inr ⟨fun both => UsizeWidth.noConfusion both.1, wrappingAdd_eq ?_⟩
      change pos + len < 2 ^ 64
      omega

theorem checkedSlice_reversed {start stop : Nat} (order : stop < start) :
    checkedSlice bytes start stop = none :=
  if_neg fun both => Nat.not_lt.mpr both.1 order

/-- The loop panics where an entry wraps and else does what it does without a bound
on its sums. -/
theorem decodeEntriesAt_cases (fits : bytes.length ≤ width.maxLen) (count : Nat) {pos : Nat}
    (inside : pos ≤ bytes.length) :
    (width = .bits32 ∧ EntryWraps bytes count pos) ∧ decodeEntriesAt width bytes count pos = none ∨
    ¬ (width = .bits32 ∧ EntryWraps bytes count pos) ∧
      decodeEntriesAt width bytes count pos = some (decodeEntries bytes count pos) := by
  induction count generalizing pos with
  | zero => exact Or.inr ⟨fun both => entryWraps_zero bytes pos both.2, rfl⟩
  | succ count ih =>
      have room := maxLen_lt width
      have afterEpoch : wrappingAdd width pos 8 = pos + 8 := wrappingAdd_eq (by omega)
      have afterLen : wrappingAdd width (pos + 8) 4 = pos + 8 + 4 := wrappingAdd_eq (by omega)
      rw [entryWraps_succ, decodeEntriesAt, decodeEntries, afterEpoch, afterLen]
      by_cases short : pos + 8 + 4 > bytes.length
      · rw [if_pos short, if_pos short]
        exact Or.inr ⟨fun both => Nat.not_le.mpr short both.2.1, rfl⟩
      · have header := Nat.not_lt.mp short
        rw [if_neg short, if_neg short, checkedSlice_inside (by omega) (by omega), Option.bind_some]
        dsimp only
        rw [afterLen, checkedSlice_inside (by omega) (by omega), Option.bind_some, ← lenAt]
        have small : lenAt bytes pos < 2 ^ 32 := lenField_lt header
        rcases wrappingAdd_len (Nat.le_trans header fits) small with
          ⟨narrow, wraps, behind⟩ | ⟨whole, stop⟩
        · -- The wrapped end passes the bounds check and lies before the start.
          refine Or.inl ⟨⟨narrow, header, Or.inl wraps⟩, ?_⟩
          rw [if_neg (Nat.not_lt.mpr (Nat.le_trans (Nat.le_of_lt behind) header)),
            checkedSlice_reversed behind, Option.bind_none]
        · rw [stop]
          by_cases cut : pos + 8 + 4 + lenAt bytes pos > bytes.length
          · rw [if_pos cut, if_pos cut]
            refine Or.inr ⟨?_, rfl⟩
            rintro ⟨narrow, -, wraps | ⟨body, -⟩⟩
            · exact whole ⟨narrow, wraps⟩
            · exact Nat.not_le.mpr cut body
          · have body := Nat.not_lt.mp cut
            rw [if_neg cut, if_neg cut, checkedSlice_inside (Nat.le_add_right _ _) body, Option.bind_some]
            rcases ih body with ⟨⟨narrow, later⟩, panics⟩ | ⟨none, decoded⟩
            · rw [panics]
              exact Or.inl ⟨⟨narrow, header, Or.inr ⟨body, later⟩⟩, rfl⟩
            · rw [decoded]
              refine Or.inr ⟨?_, rfl⟩
              rintro ⟨narrow, -, wraps | ⟨-, later⟩⟩
              · exact whole ⟨narrow, wraps⟩
              · exact none ⟨narrow, later⟩

theorem lengthWraps_iff : LengthWraps bytes ↔
    (8 ≤ bytes.length ∧ MAGIC <+: bytes) ∧ EntryWraps bytes (fromBe (slice bytes 4 8)) 8 := by
  constructor
  · rintro ⟨count, countable, front, epoch, len, tail, few, sized, small, rfl, wraps⟩
    have countField : slice (MAGIC ++ (toBe 4 count ++
        (front.flatMap encodeEntry ++ (wordToBe epoch ++ (toBe 4 len ++ tail))))) 4 8 = toBe 4 count :=
      slice_append MAGIC (toBe 4 count) _
    rw [countField, fromBe_toBe_of_lt countable]
    refine ⟨⟨?_, List.prefix_append _ _⟩, front, epoch, len, tail, few, sized, small, rfl, ?_⟩
    · rw [List.length_append, List.length_append, length_toBe]
      change 8 ≤ 4 + (4 + _)
      omega
    · rw [encodedSize] at wraps
      exact wraps
  · rintro ⟨⟨long, magic⟩, front, epoch, len, tail, few, sized, small, here, wraps⟩
    obtain ⟨countable, split⟩ := header_of_magic long magic
    refine ⟨_, countable, front, epoch, len, tail, few, sized, small, ?_, wraps⟩
    rw [← here]
    exact split

theorem decodeTranscriptAt_cases (fits : bytes.length ≤ width.maxLen) :
    (width = .bits32 ∧ LengthWraps bytes) ∧ decodeTranscriptAt width bytes = none ∨
    ¬ (width = .bits32 ∧ LengthWraps bytes) ∧
      decodeTranscriptAt width bytes = some (decodeTranscript bytes) := by
  have header : wrappingAdd width MAGIC.length 4 = 8 := by
    cases width with
    | bits32 => decide
    | bits64 => decide
  rw [decodeTranscriptAt, lengthWraps_iff, header]
  rcases decodeTranscript_cases bytes with ⟨short, branch⟩ | ⟨⟨long, unmarked⟩, branch⟩ |
    ⟨⟨long, magic⟩, branch⟩
  · rw [branch, if_pos short]
    exact Or.inr ⟨fun both => Nat.not_le.mpr short both.2.1.1, rfl⟩
  · have room : MAGIC.length ≤ bytes.length := Nat.le_trans (by decide) long
    rw [branch, if_neg (Nat.not_lt.mpr long), checkedSlice_inside (Nat.zero_le _) room, Option.bind_some,
      if_pos (mt (magic_slice bytes).mp unmarked)]
    exact Or.inr ⟨fun both => unmarked both.2.1.2, rfl⟩
  · have room : MAGIC.length ≤ bytes.length := Nat.le_trans (by decide) long
    have loop := decodeEntriesAt_cases fits (fromBe (slice bytes 4 8)) long
    rw [branch, if_neg (Nat.not_lt.mpr long), checkedSlice_inside (Nat.zero_le _) room, Option.bind_some,
      if_neg (not_not_intro ((magic_slice bytes).mpr magic))]
    dsimp only
    have reaches :
        (8 ≤ bytes.length ∧ MAGIC <+: bytes) ∧ EntryWraps bytes (fromBe (slice bytes 4 8)) 8 ↔
          EntryWraps bytes (fromBe (slice bytes 4 8)) 8 := and_iff_right ⟨long, magic⟩
    rw [header, checkedSlice_inside (by decide) long, Option.bind_some, reaches]
    exact loop

end Decode

/-! ### The receive loop -/

/-- A datagram for the preamble channel whose transcript has such an entry. -/
def Crashing (datagram : Bytes) : Prop :=
  ∃ first rest, datagram = first :: rest ∧ isPreambleMarker first = true ∧ LengthWraps rest

theorem demultiplexAt_cases {State : Type} {width : UsizeWidth} (sink : Option (CommitSink State))
    {datagram : Bytes} (fits : datagram.length ≤ width.maxLen) (state : State) :
    (width = .bits32 ∧ Crashing datagram) ∧ demultiplexAt width sink datagram state = none ∨
    ¬ (width = .bits32 ∧ Crashing datagram) ∧
      demultiplexAt width sink datagram state = some (demultiplex sink datagram state) := by
  cases datagram with
  | nil =>
      refine Or.inr ⟨?_, rfl⟩
      rintro ⟨-, _, _, absurd, _⟩
      cases absurd
  | cons first rest =>
      rw [demultiplexAt, demultiplex, parsePreambleAt, parsePreamble]
      by_cases marked : isPreambleMarker first = true
      · have inner : Crashing (first :: rest) ↔ LengthWraps rest := by
          constructor
          · rintro ⟨_, _, same, _, wraps⟩
            obtain ⟨rfl, rfl⟩ := List.cons.inj same
            exact wraps
          · intro wraps
            exact ⟨first, rest, rfl, marked, wraps⟩
        have shorter : rest.length ≤ width.maxLen := Nat.le_trans (Nat.le_succ _) fits
        rw [if_pos marked, if_pos marked, inner]
        rcases decodeTranscriptAt_cases shorter with ⟨wraps, panics⟩ | ⟨none, decoded⟩
        · rw [panics]
          exact Or.inl ⟨wraps, rfl⟩
        · have handled : handlePreambleDatagramAt width sink rest state =
              some (handlePreambleDatagram sink rest state) := congrArg (Option.map _) decoded
          refine Or.inr ⟨none, ?_⟩
          rw [decoded, Option.map_some, Option.bind_some]
          exact congrArg (Option.map fun state => (Option.none, state)) handled
      · rw [if_neg marked, if_neg marked]
        refine Or.inr ⟨?_, rfl⟩
        rintro ⟨_, _, _, same, absurd, _⟩
        obtain ⟨rfl, -⟩ := List.cons.inj same
        exact marked absurd

/-- The loop gets through its datagrams unless one of them is crashing. -/
theorem receiveAt_isSome_iff {State : Type} {width : UsizeWidth} (sink : Option (CommitSink State))
    {datagrams : List Bytes} (fit : ∀ datagram ∈ datagrams, datagram.length ≤ width.maxLen)
    (state : State) :
    (receiveAt width sink datagrams state).isSome = true ↔
      ∀ datagram ∈ datagrams, ¬ (width = .bits32 ∧ Crashing datagram) := by
  induction datagrams generalizing state with
  | nil => exact iff_of_true rfl (List.forall_mem_nil _)
  | cons datagram rest ih =>
      obtain ⟨first, others⟩ := List.forall_mem_cons.mp fit
      rw [receiveAt, List.forall_mem_cons]
      rcases demultiplexAt_cases sink first state with ⟨crashing, panics⟩ | ⟨none, taken⟩
      · rw [panics]
        exact iff_of_false (by simp) fun all => all.1 crashing
      · rw [taken, and_iff_right none, Option.bind_some, Option.isSome_map]
        exact ih others _

/-- On either width the decoder leaves its input exactly when pointers have 32 bits and
a length field wraps; otherwise it answers as if sums had no bound, and the receive
loop goes on. -/
theorem decode_panics_iff (width : UsizeWidth) :
    (∀ bytes : Bytes, bytes.length ≤ width.maxLen →
      (decodeTranscriptAt width bytes = none ↔ width = .bits32 ∧ LengthWraps bytes) ∧
      (decodeTranscriptAt width bytes = some (decodeTranscript bytes) ↔
        ¬ (width = .bits32 ∧ LengthWraps bytes))) ∧
    ∀ (State : Type) (sink : Option (CommitSink State)) (datagrams : List Bytes) (state : State),
      (∀ datagram ∈ datagrams, datagram.length ≤ width.maxLen) →
      ((receiveAt width sink datagrams state).isSome = true ↔
        ∀ datagram ∈ datagrams, ¬ (width = .bits32 ∧ Crashing datagram)) := by
  constructor
  · intro bytes fits
    rcases decodeTranscriptAt_cases fits with ⟨wraps, panics⟩ | ⟨none, decoded⟩
    · rw [panics]
      exact ⟨iff_of_true rfl wraps, iff_of_false (by simp) (not_not_intro wraps)⟩
    · rw [decoded]
      exact ⟨iff_of_false (by simp) none, iff_of_true rfl none⟩
  · intro State sink datagrams state fit
    exact receiveAt_isSome_iff sink fit state

/-- One announced entry at epoch zero whose length field is `2^32 - 1`. -/
def wrappingTranscript : Bytes :=
  [0x51, 0x4D, 0x54, 0x31, 0x00, 0x00, 0x00, 0x01, 0x00, 0x00, 0x00, 0x00, 0x00, 0x00, 0x00, 0x00,
   0xFF, 0xFF, 0xFF, 0xFF]

theorem wrapping_transcript_panics :
    wrappingTranscript.length ≤ UsizeWidth.bits32.maxLen ∧
      decodeTranscriptAt .bits32 wrappingTranscript = none ∧
      @receiveAt Unit .bits32 none [0x00 :: wrappingTranscript] () = none ∧
      decodeTranscriptAt .bits64 wrappingTranscript = some (.error .truncated) := by
  decide +kernel

/-- With 64 bits the same datagram is answered and the loop goes on. -/
theorem decode_panics_iff_wrapping :
    decodeTranscriptAt .bits64 wrappingTranscript = some (decodeTranscript wrappingTranscript) ∧
      (receiveAt .bits64 none [0x00 :: wrappingTranscript] ()).isSome = true := by
  have wide (wraps : Prop) : ¬ (UsizeWidth.bits64 = .bits32 ∧ wraps) :=
    fun both => UsizeWidth.noConfusion both.1
  have answered := ((decode_panics_iff .bits64).1 wrappingTranscript (by decide)).2.mpr (wide _)
  have received := ((decode_panics_iff .bits64).2 Unit none [0x00 :: wrappingTranscript] () (by decide)).mpr
  exact ⟨answered, received fun _ _ => wide _⟩

end QuicMls.PointerWidth
