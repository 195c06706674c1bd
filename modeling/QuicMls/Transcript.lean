import QuicMls.Budget
import QuicMls.Groups

/-! The transcript wire format: a magic, a count and length-prefixed entries. An
offset into the input is a `Nat`; on a 64-bit target nothing held in memory
makes the additions of the source wrap. -/
namespace QuicMls.Transcript
open BigEndian Groups Budget

/-- `QMT1` -/
def MAGIC : Bytes := [0x51, 0x4D, 0x54, 0x31]

inductive TranscriptDecodeError where
  | truncated
  | badMagic
  deriving DecidableEq

def TranscriptDecodeError.message : TranscriptDecodeError → String
  | .truncated => "transcript blob is truncated"
  | .badMagic => "transcript magic bytes did not match"

/-! ### Encoding -/

/-- The entries the encoder keeps, with the body length so far. -/
def included (headerLen maxBytes : Nat) : Window → Nat → Window
  | [], _ => []
  | entry :: rest, bodyLen =>
      let entryLen := 8 + 4 + entry.2.length
      if headerLen + bodyLen + entryLen > maxBytes then []
      else entry :: included headerLen maxBytes rest (bodyLen + entryLen)

def encodeEntry (entry : UInt64 × Bytes) : Bytes :=
  wordToBe entry.1 ++ toBe 4 entry.2.length ++ entry.2

def encodeTranscript (window : Window) (maxBytes : Nat) : Bytes :=
  if window.isEmpty || maxBytes == 0 then []
  else
    let headerLen := MAGIC.length + 4
    let included := included headerLen maxBytes window 0
    if included.isEmpty then []
    else MAGIC ++ toBe 4 included.length ++ included.flatMap encodeEntry

/-! ### Decoding -/

/-- `bytes[start..stop]` -/
def slice (bytes : Bytes) (start stop : Nat) : Bytes := (bytes.take stop).drop start

def decodeEntries (bytes : Bytes) : Nat → Nat → Except TranscriptDecodeError Window
  | 0, _ => .ok []
  | count + 1, pos =>
      if pos + 8 + 4 > bytes.length then .error .truncated
      else
        let epoch := wordFromBe (slice bytes pos (pos + 8))
        let pos := pos + 8
        let len := fromBe (slice bytes pos (pos + 4))
        let pos := pos + 4
        if pos + len > bytes.length then .error .truncated
        else (decodeEntries bytes count (pos + len)).map ((epoch, slice bytes pos (pos + len)) :: ·)

def decodeTranscript (bytes : Bytes) : Except TranscriptDecodeError Window :=
  if bytes.length < MAGIC.length + 4 then .error .truncated
  else if slice bytes 0 MAGIC.length ≠ MAGIC then .error .badMagic
  else
    let pos := MAGIC.length
    let count := fromBe (slice bytes pos (pos + 4))
    decodeEntries bytes count (pos + 4)

/-! ### What the encoder keeps -/

def entryWireLen (entry : UInt64 × Bytes) : Nat := 8 + 4 + entry.2.length

/-- The number of bytes a window takes on the wire. -/
def encodedSize (window : Window) : Nat := 8 + total entryWireLen window

/-- The longest prefix of a window whose encoding has at most `maxBytes` bytes. -/
def longestFitting (window : Window) (maxBytes : Nat) : Window :=
  window.take (Nat.findGreatest (fun count => encodedSize (window.take count) ≤ maxBytes) window.length)

theorem included_eq_fit {headerLen maxBytes bodyLen : Nat} (window : Window)
    (room : headerLen + bodyLen ≤ maxBytes) :
    included headerLen maxBytes window bodyLen = fit entryWireLen (maxBytes - (headerLen + bodyLen)) window := by
  induction window generalizing bodyLen with
  | nil => rfl
  | cons entry rest ih =>
      change (if headerLen + bodyLen + entryWireLen entry > maxBytes then []
        else entry :: included headerLen maxBytes rest (bodyLen + entryWireLen entry)) = _
      rw [fit]
      by_cases exceeds : headerLen + bodyLen + entryWireLen entry > maxBytes
      · rw [if_pos exceeds, if_neg (by omega)]
      · have left : maxBytes - (headerLen + (bodyLen + entryWireLen entry)) =
            maxBytes - (headerLen + bodyLen) - entryWireLen entry := by omega
        rw [if_neg exceeds, if_pos (by omega), ih (by omega), left]

theorem included_nil_of_lt {headerLen maxBytes bodyLen : Nat} (window : Window)
    (tight : maxBytes < headerLen + bodyLen) : included headerLen maxBytes window bodyLen = [] := by
  cases window with
  | nil => rfl
  | cons entry rest =>
      have exceeds : headerLen + bodyLen + (8 + 4 + entry.2.length) > maxBytes := by omega
      simp only [included, if_pos exceeds]

/-- The accumulating loop keeps exactly the longest prefix that fits. -/
theorem included_eq_longestFitting (window : Window) (maxBytes : Nat) :
    included 8 maxBytes window 0 = longestFitting window maxBytes := by
  -- A budget below the header keeps nothing on either side.
  by_cases room : 8 ≤ maxBytes
  · have greatest : Nat.findGreatest (fun count => encodedSize (window.take count) ≤ maxBytes)
        window.length = (fit entryWireLen (maxBytes - 8) window).length := by
      rw [Nat.findGreatest_eq_iff]
      refine ⟨(fit_isPrefix _ _).length_le, fun _ => ?_, fun count longer inside fits => ?_⟩
      · have bought : total entryWireLen (fit entryWireLen (maxBytes - 8) window) ≤ maxBytes - 8 :=
          fit_affordable (maxBytes - 8) window
        rw [take_length_fit, encodedSize]
        omega
      · have affordable : total entryWireLen (window.take count) ≤ maxBytes - 8 := by
          rw [encodedSize] at fits
          omega
        have most := fit_longest (List.take_prefix count window) affordable
        rw [List.length_take_of_le inside] at most
        omega
    rw [longestFitting, greatest, take_length_fit, included_eq_fit window (by omega)]
  · have none : Nat.findGreatest (fun count => encodedSize (window.take count) ≤ maxBytes)
        window.length = 0 := by
      rw [Nat.findGreatest_eq_zero_iff]
      intro count _ _ fits
      rw [encodedSize] at fits
      omega
    rw [longestFitting, none, List.take_zero, included_nil_of_lt window (by omega)]

theorem longestFitting_isPrefix (window : Window) (maxBytes : Nat) :
    longestFitting window maxBytes <+: window :=
  List.take_prefix _ _

theorem longestFitting_size {window : Window} {maxBytes : Nat}
    (kept : longestFitting window maxBytes ≠ []) :
    encodedSize (longestFitting window maxBytes) ≤ maxBytes := by
  rw [longestFitting] at kept ⊢
  refine Nat.findGreatest_of_ne_zero (P := fun count => encodedSize (window.take count) ≤ maxBytes)
    rfl fun zero => kept ?_
  rw [zero, List.take_zero]

/-- A budget of everything keeps everything. -/
theorem longestFitting_all {window : Window} {maxBytes : Nat} (fits : encodedSize window ≤ maxBytes) :
    longestFitting window maxBytes = window := by
  have whole : Nat.findGreatest (fun count => encodedSize (window.take count) ≤ maxBytes)
      window.length = window.length := by
    rw [Nat.findGreatest_eq_iff]
    exact ⟨Nat.le_refl _, fun _ => by rwa [List.take_length], fun _ longer inside => by omega⟩
  rw [longestFitting, whole, List.take_length]

theorem encodeTranscript_eq (window : Window) (maxBytes : Nat) :
    encodeTranscript window maxBytes =
      if longestFitting window maxBytes = [] then []
      else MAGIC ++ toBe 4 (longestFitting window maxBytes).length ++
        (longestFitting window maxBytes).flatMap encodeEntry := by
  rw [← included_eq_longestFitting, encodeTranscript]
  by_cases degenerate : window.isEmpty || maxBytes == 0
  · have nothing : included 8 maxBytes window 0 = [] := by
      rcases Bool.or_eq_true_iff.mp degenerate with empty | zero
      · rw [List.isEmpty_iff.mp empty, included]
      · exact included_nil_of_lt window (by rw [beq_iff_eq.mp zero]; omega)
    rw [if_pos degenerate, if_pos nothing]
  · rw [if_neg degenerate]
    by_cases empty : included 8 maxBytes window 0 = []
    · simp [MAGIC, empty]
    · simp [MAGIC, empty]

@[simp] theorem length_encodeEntry (entry : UInt64 × Bytes) :
    (encodeEntry entry).length = entryWireLen entry := by
  simp [encodeEntry, entryWireLen, ← Nat.add_assoc]

theorem length_encodeEntries (entries : Window) :
    (entries.flatMap encodeEntry).length = total entryWireLen entries := by
  rw [List.length_flatMap, total]
  simp

theorem length_encodeTranscript {window : Window} {maxBytes : Nat}
    (kept : longestFitting window maxBytes ≠ []) :
    (encodeTranscript window maxBytes).length = encodedSize (longestFitting window maxBytes) := by
  rw [encodeTranscript_eq, if_neg kept, List.length_append, length_encodeEntries, encodedSize]
  simp [MAGIC]

/-! ### Round trip -/

theorem slice_append (front middle back : Bytes) :
    slice (front ++ (middle ++ back)) front.length (front.length + middle.length) = middle := by
  rw [slice, List.take_length_add_append, List.drop_left, List.take_left]

/-- The length field holds the length. -/
def WellSized (entry : UInt64 × Bytes) : Prop := entry.2.length < 2 ^ 32

/-- One entry is read back and the position moves behind it. -/
theorem decodeEntries_entry {entry : UInt64 × Bytes} (wellSized : WellSized entry)
    (front back : Bytes) (count : Nat) :
    decodeEntries (front ++ (encodeEntry entry ++ back)) (count + 1) front.length =
      (decodeEntries (front ++ (encodeEntry entry ++ back)) count
        (front ++ encodeEntry entry).length).map (entry :: ·) := by
  obtain ⟨epoch, commit⟩ := entry
  -- The three fields of the entry are read at three offsets behind `front`.
  have split : front ++ (encodeEntry (epoch, commit) ++ back) =
      front ++ (wordToBe epoch ++ (toBe 4 commit.length ++ (commit ++ back))) := by
    simp [encodeEntry]
  have size : (front ++ encodeEntry (epoch, commit)).length = front.length + 8 + 4 + commit.length := by
    simp [entryWireLen]
    omega
  have readEpoch : slice (front ++ (wordToBe epoch ++ (toBe 4 commit.length ++ (commit ++ back))))
      front.length (front.length + 8) = wordToBe epoch := by
    simpa using slice_append front (wordToBe epoch) (toBe 4 commit.length ++ (commit ++ back))
  have readLen : slice (front ++ (wordToBe epoch ++ (toBe 4 commit.length ++ (commit ++ back))))
      (front.length + 8) (front.length + 8 + 4) = toBe 4 commit.length := by
    simpa using slice_append (front ++ wordToBe epoch) (toBe 4 commit.length) (commit ++ back)
  have readCommit : slice (front ++ (wordToBe epoch ++ (toBe 4 commit.length ++ (commit ++ back))))
      (front.length + 8 + 4) (front.length + 8 + 4 + commit.length) = commit := by
    simpa [Nat.add_assoc] using slice_append (front ++ wordToBe epoch ++ toBe 4 commit.length) commit back
  have len : fromBe (toBe 4 commit.length) = commit.length := fromBe_toBe_of_lt wellSized
  have inside : front.length + 8 + 4 + commit.length ≤
      (front ++ (wordToBe epoch ++ (toBe 4 commit.length ++ (commit ++ back)))).length := by
    simp
    omega
  rw [size, split, decodeEntries, if_neg (by omega)]
  simp only [readEpoch, readLen, len, wordFromBe_wordToBe]
  rw [if_neg (by omega), readCommit]

theorem decodeEntries_encodeEntries {entries : Window} (wellSized : ∀ entry ∈ entries, WellSized entry)
    (front back : Bytes) :
    decodeEntries (front ++ (entries.flatMap encodeEntry ++ back)) entries.length front.length =
      .ok entries := by
  -- What was read joins `front`, so the position is always its length.
  induction entries generalizing front with
  | nil => rfl
  | cons entry rest ih =>
      have head := decodeEntries_entry (wellSized entry List.mem_cons_self) front
        (rest.flatMap encodeEntry ++ back) rest.length
      have tail := ih (fun e member => wellSized e (List.mem_cons_of_mem entry member))
        (front ++ encodeEntry entry)
      rw [List.append_assoc] at tail
      rw [List.flatMap_cons, List.append_assoc, List.length_cons, head, tail]
      rfl

theorem decodeTranscript_encoding {entries : Window} (wellSized : ∀ entry ∈ entries, WellSized entry)
    (countable : entries.length < 2 ^ 32) (back : Bytes) :
    decodeTranscript (MAGIC ++ toBe 4 entries.length ++ entries.flatMap encodeEntry ++ back) =
      .ok entries := by
  have header : (MAGIC ++ toBe 4 entries.length).length = MAGIC.length + 4 := by simp
  have body := decodeEntries_encodeEntries wellSized (MAGIC ++ toBe 4 entries.length) back
  have magic : slice (MAGIC ++ (toBe 4 entries.length ++ (entries.flatMap encodeEntry ++ back))) 0
      MAGIC.length = MAGIC := by
    simpa using slice_append [] MAGIC (toBe 4 entries.length ++ (entries.flatMap encodeEntry ++ back))
  have count : slice (MAGIC ++ (toBe 4 entries.length ++ (entries.flatMap encodeEntry ++ back)))
      MAGIC.length (MAGIC.length + 4) = toBe 4 entries.length := by
    simpa using slice_append MAGIC (toBe 4 entries.length) (entries.flatMap encodeEntry ++ back)
  have number : fromBe (toBe 4 entries.length) = entries.length := fromBe_toBe_of_lt countable
  rw [header, List.append_assoc] at body
  rw [List.append_assoc, List.append_assoc, decodeTranscript, if_neg (by simp), if_neg (by simp [magic])]
  simp only [count, number]
  exact body

/-- Decoding an encoded window gives back the longest prefix that fits, and
nothing is sent when that prefix is empty. -/
theorem decode_encode_transcript (window : Window) (maxBytes : Nat)
    (short : ∀ entry ∈ window, entry.2.length < 2 ^ 32) (few : window.length < 2 ^ 32) :
    (longestFitting window maxBytes = [] → encodeTranscript window maxBytes = []) ∧
    (longestFitting window maxBytes ≠ [] →
      (encodeTranscript window maxBytes).length ≤ maxBytes ∧
      decodeTranscript (encodeTranscript window maxBytes) = .ok (longestFitting window maxBytes)) := by
  refine ⟨fun nothing => ?_, fun kept => ⟨?_, ?_⟩⟩
  · rw [encodeTranscript_eq, if_pos nothing]
  · rw [length_encodeTranscript kept]
    exact longestFitting_size kept
  · have before := longestFitting_isPrefix window maxBytes
    have decoded := decodeTranscript_encoding
      (fun entry member => short entry (before.subset member))
      (before.length_le.trans_lt few) []
    rw [List.append_nil] at decoded
    rw [encodeTranscript_eq, if_neg kept, decoded]

/-- Two entries and a budget that only the first one fits. -/
theorem decode_encode_transcript_cut :
    decodeTranscript (encodeTranscript [(1, [7]), (2, [8, 9])] 30) = .ok [(1, [7])] := by
  have cut := (decode_encode_transcript [(1, [7]), (2, [8, 9])] 30 (by decide) (by decide)).2
    (by decide)
  exact cut.2

end QuicMls.Transcript
