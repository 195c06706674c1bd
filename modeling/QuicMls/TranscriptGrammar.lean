import QuicMls.Transcript

/-! The language of `decode_transcript`: what it accepts, which error it gives to the
rest, and that no offset it computes leaves its input. -/
namespace QuicMls.TranscriptGrammar
open BigEndian Groups Budget Transcript

/-! ### The grammar -/

/-- The magic, the number of entries and the entries. -/
def encoding (window : Window) : Bytes :=
  MAGIC ++ toBe 4 window.length ++ window.flatMap encodeEntry

/-- Both kinds of length fields hold their lengths. -/
def Encodable (window : Window) : Prop :=
  window.length < 2 ^ 32 ∧ ∀ entry ∈ window, WellSized entry

/-- The input starts with the encoding of a window; what follows is not looked at. -/
def Encodes (bytes : Bytes) (window : Window) : Prop :=
  Encodable window ∧ ∃ tail, bytes = encoding window ++ tail

theorem Encodes.append {bytes : Bytes} {window : Window} (encodes : Encodes bytes window) (more : Bytes) :
    Encodes (bytes ++ more) window := by
  obtain ⟨encodable, tail, rfl⟩ := encodes
  exact ⟨encodable, tail ++ more, List.append_assoc _ _ _⟩

/-! ### Slices -/

theorem drop_slice {bytes : Bytes} {start stop : Nat} (order : start ≤ stop) :
    bytes.drop start = slice bytes start stop ++ bytes.drop stop := by
  have shift : bytes.drop stop = (bytes.drop start).drop (stop - start) := by
    rw [List.drop_drop, Nat.add_sub_cancel' order]
  rw [slice, List.drop_take, shift, List.take_append_drop]

theorem length_slice {bytes : Bytes} {start stop : Nat} (inside : stop ≤ bytes.length) :
    (slice bytes start stop).length = stop - start := by
  rw [slice, List.length_drop, List.length_take_of_le inside]

theorem lenField_lt {bytes : Bytes} {pos : Nat} (header : pos + 8 + 4 ≤ bytes.length) :
    fromBe (slice bytes (pos + 8) (pos + 8 + 4)) < 2 ^ 32 := by
  have size : (slice bytes (pos + 8) (pos + 8 + 4)).length = 4 := by
    rw [length_slice header]
    omega
  have small := fromBe_lt (slice bytes (pos + 8) (pos + 8 + 4))
  rwa [size] at small

/-- The fixed fields of an entry, spelled again. -/
theorem header_slices {bytes : Bytes} {pos : Nat} (header : pos + 8 + 4 ≤ bytes.length) :
    bytes.drop pos = wordToBe (wordFromBe (slice bytes pos (pos + 8))) ++
      (toBe 4 (fromBe (slice bytes (pos + 8) (pos + 8 + 4))) ++ bytes.drop (pos + 8 + 4)) := by
  have epochSize : (slice bytes pos (pos + 8)).length = 8 := by
    rw [length_slice (by omega)]
    omega
  have lenSize : (slice bytes (pos + 8) (pos + 8 + 4)).length = 4 := by
    rw [length_slice header]
    omega
  have lenField := toBe_fromBe (slice bytes (pos + 8) (pos + 8 + 4))
  rw [lenSize] at lenField
  rw [wordToBe_wordFromBe epochSize, lenField, ← drop_slice (Nat.le_add_right (pos + 8) 4),
    ← drop_slice (Nat.le_add_right pos 8)]

/-- The entry that three fields of the input spell. -/
theorem encodeEntry_slices {bytes : Bytes} {pos : Nat} (header : pos + 8 + 4 ≤ bytes.length)
    (body : pos + 8 + 4 + fromBe (slice bytes (pos + 8) (pos + 8 + 4)) ≤ bytes.length) :
    let len := fromBe (slice bytes (pos + 8) (pos + 8 + 4))
    let entry := (wordFromBe (slice bytes pos (pos + 8)), slice bytes (pos + 8 + 4) (pos + 8 + 4 + len))
    WellSized entry ∧ bytes.drop pos = encodeEntry entry ++ bytes.drop (pos + 8 + 4 + len) := by
  intro len entry
  have commitSize : entry.2.length = len := by
    rw [length_slice body]
    omega
  constructor
  · rw [WellSized, commitSize]
    exact lenField_lt header
  · rw [encodeEntry, commitSize, header_slices header, drop_slice (Nat.le_add_right (pos + 8 + 4) len)]
    simp only [List.append_assoc]
    rfl

/-! ### What is accepted -/

/-- One round of the loop is cut short or reads one entry. -/
theorem decodeEntries_step (bytes : Bytes) (count pos : Nat) :
    decodeEntries bytes (count + 1) pos = .error .truncated ∨
    ∃ entry next, WellSized entry ∧ bytes.drop pos = encodeEntry entry ++ bytes.drop next ∧
      decodeEntries bytes (count + 1) pos = (decodeEntries bytes count next).map (entry :: ·) := by
  rw [decodeEntries]
  by_cases short : pos + 8 + 4 > bytes.length
  · exact Or.inl (if_pos short)
  · rw [if_neg short]
    by_cases cut : pos + 8 + 4 + fromBe (slice bytes (pos + 8) (pos + 8 + 4)) > bytes.length
    · exact Or.inl (if_pos cut)
    · obtain ⟨wellSized, here⟩ := encodeEntry_slices (Nat.not_lt.mp short) (Nat.not_lt.mp cut)
      exact Or.inr ⟨_, _, wellSized, here, if_neg cut⟩

/-- What was read stands in the input, entry by entry. -/
theorem decodeEntries_ok {bytes : Bytes} {count pos : Nat} {window : Window}
    (decoded : decodeEntries bytes count pos = .ok window) :
    window.length = count ∧ (∀ entry ∈ window, WellSized entry) ∧
      ∃ tail, bytes.drop pos = window.flatMap encodeEntry ++ tail := by
  -- The position moves behind each entry that is read.
  induction count generalizing pos window with
  | zero =>
      obtain rfl := Except.ok.inj decoded
      exact ⟨rfl, by simp, bytes.drop pos, rfl⟩
  | succ count ih =>
      rcases decodeEntries_step bytes count pos with cut | ⟨entry, next, wellSized, here, onward⟩
      · rw [cut] at decoded
        cases decoded
      · rw [onward] at decoded
        cases later : decodeEntries bytes count next with
        | error e =>
            rw [later] at decoded
            cases decoded
        | ok rest =>
            rw [later] at decoded
            obtain rfl := Except.ok.inj decoded
            obtain ⟨length, all, tail, behind⟩ := ih later
            refine ⟨by rw [List.length_cons, length], List.forall_mem_cons.mpr ⟨wellSized, all⟩, tail, ?_⟩
            rw [here, behind, List.flatMap_cons, List.append_assoc]

/-- Past the header, the only error is a cut. -/
theorem decodeEntries_error {bytes : Bytes} {count pos : Nat} {e : TranscriptDecodeError}
    (failed : decodeEntries bytes count pos = .error e) : e = .truncated := by
  induction count generalizing pos with
  | zero => cases failed
  | succ count ih =>
      rcases decodeEntries_step bytes count pos with cut | ⟨entry, next, _, _, onward⟩
      · rw [cut] at failed
        exact (Except.error.inj failed).symm
      · rw [onward] at failed
        cases later : decodeEntries bytes count next with
        | error f =>
            rw [later] at failed
            obtain rfl := Except.error.inj failed
            exact ih later
        | ok rest =>
            rw [later] at failed
            cases failed

theorem magic_slice (bytes : Bytes) : slice bytes 0 MAGIC.length = MAGIC ↔ MAGIC <+: bytes := by
  rw [List.prefix_iff_eq_take, slice, List.drop_zero, eq_comm]

/-- The fields in front of the entries, spelled again. -/
theorem header_of_magic {bytes : Bytes} (long : 8 ≤ bytes.length) (magic : MAGIC <+: bytes) :
    fromBe (slice bytes 4 8) < 2 ^ 32 ∧
      bytes = MAGIC ++ (toBe 4 (fromBe (slice bytes 4 8)) ++ bytes.drop 8) := by
  have countSize : (slice bytes 4 8).length = 4 := length_slice long
  have small := fromBe_lt (slice bytes 4 8)
  have countField := toBe_fromBe (slice bytes 4 8)
  rw [countSize] at small countField
  have split : bytes = slice bytes 0 4 ++ (slice bytes 4 8 ++ bytes.drop 8) := by
    rw [← drop_slice (by decide), ← drop_slice (by decide), List.drop_zero]
  refine ⟨small, ?_⟩
  rw [countField, ← (magic_slice bytes).mpr magic]
  exact split

/-- The three branches of the decoder. -/
theorem decodeTranscript_cases (bytes : Bytes) :
    bytes.length < 8 ∧ decodeTranscript bytes = .error .truncated ∨
    (8 ≤ bytes.length ∧ ¬ MAGIC <+: bytes) ∧ decodeTranscript bytes = .error .badMagic ∨
    (8 ≤ bytes.length ∧ MAGIC <+: bytes) ∧
      decodeTranscript bytes = decodeEntries bytes (fromBe (slice bytes 4 8)) 8 := by
  have header : MAGIC.length + 4 = 8 := rfl
  rw [decodeTranscript, header]
  by_cases short : bytes.length < 8
  · exact Or.inl ⟨short, if_pos short⟩
  · rw [if_neg short]
    by_cases magic : MAGIC <+: bytes
    · rw [if_neg (not_not_intro ((magic_slice bytes).mpr magic))]
      exact Or.inr (Or.inr ⟨⟨Nat.not_lt.mp short, magic⟩, rfl⟩)
    · rw [if_pos (mt (magic_slice bytes).mp magic)]
      exact Or.inr (Or.inl ⟨⟨Nat.not_lt.mp short, magic⟩, rfl⟩)

theorem decodeTranscript_ok_iff {bytes : Bytes} {window : Window} :
    decodeTranscript bytes = .ok window ↔ Encodes bytes window := by
  constructor
  · intro decoded
    rcases decodeTranscript_cases bytes with ⟨_, branch⟩ | ⟨_, branch⟩ | ⟨⟨long, magic⟩, branch⟩
    · rw [branch] at decoded
      cases decoded
    · rw [branch] at decoded
      cases decoded
    · rw [branch] at decoded
      obtain ⟨length, wellSized, tail, behind⟩ := decodeEntries_ok decoded
      obtain ⟨small, split⟩ := header_of_magic long magic
      rw [← length] at small split
      refine ⟨⟨small, wellSized⟩, tail, ?_⟩
      rw [encoding, List.append_assoc, List.append_assoc, ← behind]
      exact split
  · rintro ⟨⟨countable, wellSized⟩, tail, rfl⟩
    exact decodeTranscript_encoding wellSized countable tail

theorem encodes_unique {bytes : Bytes} {one two : Window} (left : Encodes bytes one)
    (right : Encodes bytes two) : one = two :=
  Except.ok.inj ((decodeTranscript_ok_iff.mpr left).symm.trans (decodeTranscript_ok_iff.mpr right))

/-- A strict prefix of an encoding holds no window: it would be the window of the
whole encoding, which is longer. -/
theorem cut_encodes_nothing {window other : Window} {front : Bytes} (encodable : Encodable window)
    (before : front <+: encoding window) (strict : front ≠ encoding window) : ¬ Encodes front other := by
  intro encodes
  obtain ⟨left, whole⟩ := before
  have extended := encodes.append left
  rw [whole] at extended
  have same := encodes_unique extended ⟨encodable, [], (List.append_nil _).symm⟩
  obtain ⟨_, tail, split⟩ := encodes
  rw [same] at split
  have sizes := congrArg List.length whole
  rw [split, List.length_append, List.length_append] at sizes
  have empty : tail = [] := List.eq_nil_of_length_eq_zero (by omega)
  rw [empty, List.append_nil] at split
  exact strict split

/-! ### Offsets -/

/-- Addition on a 64-bit `usize`; `none` is the overflow panic. -/
def checkedAdd (left right : Nat) : Option Nat :=
  if left + right < 2 ^ 64 then some (left + right) else none

/-- `none` is the panic of a slice that leaves its input. -/
def checkedSlice (bytes : Bytes) (start stop : Nat) : Option Bytes :=
  if start ≤ stop ∧ stop ≤ bytes.length then some (slice bytes start stop) else none

/-- The entry loop of `decode_transcript` with every sum and slice checked. -/
def decodeEntriesChecked (bytes : Bytes) : Nat → Nat → Option (Except TranscriptDecodeError Window)
  | 0, _ => some (.ok [])
  | count + 1, pos =>
      (checkedAdd pos 8).bind fun afterEpoch =>
      (checkedAdd afterEpoch 4).bind fun afterLen =>
        if afterLen > bytes.length then some (.error .truncated)
        else
          (checkedSlice bytes pos afterEpoch).bind fun epoch =>
          (checkedSlice bytes afterEpoch afterLen).bind fun len =>
          (checkedAdd afterLen (fromBe len)).bind fun stop =>
            if stop > bytes.length then some (.error .truncated)
            else
              (checkedSlice bytes afterLen stop).bind fun commit =>
                (decodeEntriesChecked bytes count stop).map fun rest =>
                  rest.map ((wordFromBe epoch, commit) :: ·)

def decodeTranscriptChecked (bytes : Bytes) : Option (Except TranscriptDecodeError Window) :=
  if bytes.length < MAGIC.length + 4 then some (.error .truncated)
  else
    (checkedSlice bytes 0 MAGIC.length).bind fun magic =>
      if magic ≠ MAGIC then some (.error .badMagic)
      else
        (checkedSlice bytes MAGIC.length (MAGIC.length + 4)).bind fun count =>
          decodeEntriesChecked bytes (fromBe count) (MAGIC.length + 4)

/-- A slice has at most `isize::MAX` bytes. -/
def isizeMax : Nat := 2 ^ 63 - 1

theorem checkedSlice_inside {bytes : Bytes} {start stop : Nat} (order : start ≤ stop)
    (inside : stop ≤ bytes.length) : checkedSlice bytes start stop = some (slice bytes start stop) :=
  if_pos ⟨order, inside⟩

theorem decodeEntriesChecked_eq {bytes : Bytes} (room : bytes.length ≤ isizeMax) (count : Nat) {pos : Nat}
    (inside : pos ≤ bytes.length) :
    decodeEntriesChecked bytes count pos = some (decodeEntries bytes count pos) := by
  rw [isizeMax] at room
  induction count generalizing pos with
  | zero => rfl
  | succ count ih =>
      have afterEpoch : checkedAdd pos 8 = some (pos + 8) := if_pos (by omega)
      have afterLen : checkedAdd (pos + 8) 4 = some (pos + 8 + 4) := if_pos (by omega)
      rw [decodeEntriesChecked, afterEpoch, Option.bind_some, afterLen, Option.bind_some, decodeEntries]
      by_cases short : pos + 8 + 4 > bytes.length
      · rw [if_pos short, if_pos short]
      · rw [if_neg short, if_neg short, checkedSlice_inside (by omega) (by omega), Option.bind_some,
          checkedSlice_inside (by omega) (by omega), Option.bind_some]
        -- A length field adds less than `2^32` to a position inside the input.
        have small := lenField_lt (Nat.not_lt.mp short)
        have stop : checkedAdd (pos + 8 + 4) (fromBe (slice bytes (pos + 8) (pos + 8 + 4))) =
            some (pos + 8 + 4 + fromBe (slice bytes (pos + 8) (pos + 8 + 4))) := if_pos (by omega)
        rw [stop, Option.bind_some]
        simp only
        by_cases cut : pos + 8 + 4 + fromBe (slice bytes (pos + 8) (pos + 8 + 4)) > bytes.length
        · rw [if_pos cut, if_pos cut]
        · rw [if_neg cut, if_neg cut, checkedSlice_inside (by omega) (by omega), Option.bind_some,
            ih (by omega)]
          rfl

theorem decodeTranscriptChecked_eq {bytes : Bytes} (room : bytes.length ≤ isizeMax) :
    decodeTranscriptChecked bytes = some (decodeTranscript bytes) := by
  have header : MAGIC.length + 4 = 8 := rfl
  rw [decodeTranscriptChecked, decodeTranscript, header]
  by_cases short : bytes.length < 8
  · rw [if_pos short, if_pos short]
  · have magic : MAGIC.length ≤ bytes.length := by
      change 4 ≤ bytes.length
      omega
    rw [if_neg short, if_neg short, checkedSlice_inside (Nat.zero_le _) magic, Option.bind_some,
      checkedSlice_inside (by decide) (Nat.not_lt.mp short), Option.bind_some,
      decodeEntriesChecked_eq room _ (Nat.not_lt.mp short)]
    split
    · rfl
    · rfl

/-! ### The decoder -/

theorem decodeTranscript_badMagic_iff {bytes : Bytes} :
    decodeTranscript bytes = .error .badMagic ↔ 8 ≤ bytes.length ∧ ¬ MAGIC <+: bytes := by
  rcases decodeTranscript_cases bytes with ⟨short, branch⟩ | ⟨unmarked, branch⟩ | ⟨⟨_, magic⟩, branch⟩
  · rw [branch]
    exact iff_of_false (by simp) fun absurd => by omega
  · rw [branch]
    exact iff_of_true rfl unmarked
  · rw [branch]
    refine iff_of_false (fun absurd => ?_) fun unmarked => unmarked.2 magic
    cases decodeEntries_error absurd

theorem decodeTranscript_truncated_iff {bytes : Bytes} :
    decodeTranscript bytes = .error .truncated ↔
      (∀ window, ¬ Encodes bytes window) ∧ ¬ (8 ≤ bytes.length ∧ ¬ MAGIC <+: bytes) := by
  rw [← decodeTranscript_badMagic_iff]
  simp only [← decodeTranscript_ok_iff]
  cases decodeTranscript bytes with
  | ok window => simp
  | error e => cases e <;> simp

theorem decodeTranscript_cut {bytes : Bytes} {window : Window} (encodable : Encodable window)
    (before : bytes <+: encoding window) (strict : bytes ≠ encoding window) :
    decodeTranscript bytes = .error .truncated := by
  refine decodeTranscript_truncated_iff.mpr
    ⟨fun other => cut_encodes_nothing encodable before strict, fun ⟨long, unmarked⟩ => unmarked ?_⟩
  have magic : MAGIC <+: encoding window := by
    rw [encoding, List.append_assoc]
    exact List.prefix_append _ _
  have room : MAGIC.length ≤ bytes.length := by
    change 4 ≤ bytes.length
    omega
  exact List.prefix_of_prefix_length_le magic before room

/-- What the encoder writes is the encoding of what it keeps, or nothing. -/
theorem encodeTranscript_cut {bytes : Bytes} {window : Window} {maxBytes : Nat}
    (encodable : Encodable window) (before : bytes <+: encodeTranscript window maxBytes)
    (strict : bytes ≠ encodeTranscript window maxBytes) : decodeTranscript bytes = .error .truncated := by
  rw [encodeTranscript_eq] at before strict
  by_cases nothing : longestFitting window maxBytes = []
  · rw [if_pos nothing] at before strict
    exact absurd (List.prefix_nil.mp before) strict
  · rw [if_neg nothing] at before strict
    have kept := longestFitting_isPrefix window maxBytes
    exact decodeTranscript_cut
      ⟨kept.length_le.trans_lt encodable.1, fun entry member => encodable.2 entry (kept.subset member)⟩
      before strict

/-- The decoder accepts exactly the grammar, calls eight bytes without the magic a
bad magic and everything else truncated, gives one window at most, rejects every cut
of an encoding, and never leaves its input. -/
theorem decode_transcript_grammar (bytes : Bytes) :
    (∀ window, decodeTranscript bytes = .ok window ↔ Encodes bytes window) ∧
    (decodeTranscript bytes = .error .badMagic ↔ 8 ≤ bytes.length ∧ ¬ MAGIC <+: bytes) ∧
    (decodeTranscript bytes = .error .truncated ↔
      (∀ window, ¬ Encodes bytes window) ∧ ¬ (8 ≤ bytes.length ∧ ¬ MAGIC <+: bytes)) ∧
    (∀ one two, Encodes bytes one → Encodes bytes two → one = two) ∧
    (∀ window, Encodable window → bytes <+: encoding window → bytes ≠ encoding window →
      decodeTranscript bytes = .error .truncated) ∧
    (∀ window maxBytes, Encodable window → bytes <+: encodeTranscript window maxBytes →
      bytes ≠ encodeTranscript window maxBytes → decodeTranscript bytes = .error .truncated) ∧
    (bytes.length ≤ isizeMax → decodeTranscriptChecked bytes = some (decodeTranscript bytes)) :=
  ⟨fun _ => decodeTranscript_ok_iff, decodeTranscript_badMagic_iff, decodeTranscript_truncated_iff,
    fun _ _ => encodes_unique, fun _ => decodeTranscript_cut, fun _ _ => encodeTranscript_cut,
    decodeTranscriptChecked_eq⟩

end QuicMls.TranscriptGrammar
