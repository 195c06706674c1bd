import QuicMls.Transcript

/-! The preamble channel: packing a commit window into datagrams, sending them
and demultiplexing what arrives. What `send_to` answers for each datagram and
what the commit sink does are parameters. -/
namespace QuicMls.Preamble
open BigEndian Groups Budget Transcript

def PREAMBLE_MARKER : UInt8 := 0x00

def isPreambleMarker (firstByte : UInt8) : Bool := firstByte &&& 0xC0 == 0

def MAX_DATAGRAM_PAYLOAD : Nat := 1200

def TRANSCRIPT_HEADER_LEN : Nat := 4 + 4

/-- `usize::MAX` -/
def usizeMax : Nat := 2 ^ 64 - 1

/-! ### Packing -/

/-- The locals of the packing loop. -/
structure Packing where
  buckets : List Window
  current : Window
  currentLen : Nat
  totalLen : Nat

def Packing.start : Packing :=
  { buckets := [], current := [], currentLen := TRANSCRIPT_HEADER_LEN, totalLen := 0 }

def Packing.push (packing : Packing) (perDatagramBudget : Nat) (entry : UInt64 × Bytes) : Packing :=
  let entryLen := entryWireLen entry
  if packing.currentLen + entryLen > perDatagramBudget then
    { buckets := packing.buckets ++ [packing.current], current := [entry],
      currentLen := TRANSCRIPT_HEADER_LEN + entryLen, totalLen := packing.totalLen + entryLen }
  else
    { packing with
      current := packing.current ++ [entry],
      currentLen := packing.currentLen + entryLen, totalLen := packing.totalLen + entryLen }

def packLoop (totalBudget perDatagramBudget : Nat) : Window → Packing → Packing
  | [], packing => packing
  | entry :: rest, packing =>
      let entryLen := entryWireLen entry
      -- An entry too large for any datagram ends the packing; the source breaks here.
      if TRANSCRIPT_HEADER_LEN + entryLen > perDatagramBudget then packing
      else if packing.totalLen + entryLen > totalBudget then packing
      else packLoop totalBudget perDatagramBudget rest (packing.push perDatagramBudget entry)

def bucketWindow (window : Window) (totalBudget perDatagramBudget : Nat) : List Window :=
  let packing := packLoop totalBudget perDatagramBudget window Packing.start
  if packing.current.isEmpty then packing.buckets else packing.buckets ++ [packing.current]

/-! ### Sending -/

structure PreambleSocket where
  preambleBytesSent : UInt64

def PreambleSocket.new : PreambleSocket := { preambleBytesSent := 0 }

/-- The send loop from the datagram numbered `index` on: what went out, and the
running total or the error that stopped it. -/
def sendBuckets {IoError : Type} (sendTo : Nat → Except IoError Unit) :
    List Window → Nat → UInt64 → List Bytes × Except IoError UInt64
  | [], _, total => ([], .ok total)
  | bucket :: rest, index, total =>
      let blob := encodeTranscript bucket usizeMax
      if blob.isEmpty then sendBuckets sendTo rest index total
      else
        let datagram := PREAMBLE_MARKER :: blob
        match sendTo index with
        | .error e => ([], .error e)
        | .ok () =>
            let (sent, result) := sendBuckets sendTo rest (index + 1) (total + UInt64.ofNat datagram.length)
            (datagram :: sent, result)

def PreambleSocket.sendPreamble {IoError : Type} (socket : PreambleSocket) (window : Window)
    (totalBudget : Nat) (sendTo : Nat → Except IoError Unit) :
    List Bytes × Except IoError UInt64 × PreambleSocket :=
  match sendBuckets sendTo (bucketWindow window totalBudget (MAX_DATAGRAM_PAYLOAD - 1)) 0 0 with
  | (sent, .error e) => (sent, .error e, socket)
  | (sent, .ok total) =>
      (sent, .ok total, { socket with preambleBytesSent := socket.preambleBytesSent + total })

/-! ### Receiving -/

def parsePreamble : Bytes → Option (Except TranscriptDecodeError Window)
  | [] => none
  | first :: rest => if isPreambleMarker first then some (decodeTranscript rest) else none

abbrev CommitSink (State : Type) := Window → State → State

def handlePreambleDatagram {State : Type} (sink : Option (CommitSink State)) (payload : Bytes)
    (state : State) : State :=
  match decodeTranscript payload with
  | .ok window =>
      match sink with
      | some sink => sink window state
      | none => state
  | .error _ => state

/-- One received datagram: a preamble goes to the sink, anything else to QUIC. -/
def demultiplex {State : Type} (sink : Option (CommitSink State)) (datagram : Bytes) (state : State) :
    Option Bytes × State :=
  match parsePreamble datagram with
  | some _ => (none, handlePreambleDatagram sink (datagram.drop 1) state)
  | none => (some datagram, state)

/-! ### What is packed -/

/-- Entries up to the first one too large for a datagram of its own. -/
def sendable (perDatagramBudget : Nat) (window : Window) : Window :=
  window.takeWhile fun entry => TRANSCRIPT_HEADER_LEN + entryWireLen entry ≤ perDatagramBudget

/-- The prefix of a window that goes out under a budget. -/
def sentPrefix (window : Window) (totalBudget perDatagramBudget : Nat) : Window :=
  fit entryWireLen totalBudget (sendable perDatagramBudget window)

theorem sentPrefix_isPrefix (window : Window) (totalBudget perDatagramBudget : Nat) :
    sentPrefix window totalBudget perDatagramBudget <+: window :=
  (fit_isPrefix _ _).trans (List.takeWhile_prefix _)

/-- Every bucket that is or will be pushed holds at least one entry and encodes
within a datagram. -/
structure Packing.Within (packing : Packing) (perDatagramBudget : Nat) : Prop where
  buckets : ∀ bucket ∈ packing.buckets, bucket ≠ [] ∧ encodedSize bucket ≤ perDatagramBudget
  current : packing.current = [] ∨ encodedSize packing.current ≤ perDatagramBudget
  length : packing.currentLen = encodedSize packing.current

theorem Packing.start_within (perDatagramBudget : Nat) : Packing.start.Within perDatagramBudget where
  buckets := fun _ absurd => by simp [Packing.start] at absurd
  current := Or.inl rfl
  length := rfl

theorem Packing.Within.push {packing : Packing} {perDatagramBudget : Nat}
    (within : packing.Within perDatagramBudget) {entry : UInt64 × Bytes}
    (alone : TRANSCRIPT_HEADER_LEN + entryWireLen entry ≤ perDatagramBudget) :
    (packing.push perDatagramBudget entry).Within perDatagramBudget := by
  obtain ⟨buckets, current, length⟩ := within
  rw [Packing.push]
  split
  · rename_i full
    refine ⟨fun bucket member => ?_,
      Or.inr (by simpa [encodedSize, TRANSCRIPT_HEADER_LEN] using alone), by
      simp [encodedSize, TRANSCRIPT_HEADER_LEN]⟩
    rcases List.mem_append.mp member with old | fresh
    · exact buckets bucket old
    · obtain rfl := List.mem_singleton.mp fresh
      rcases current with empty | fits
      · rw [length, empty] at full
        simp [encodedSize, TRANSCRIPT_HEADER_LEN] at full alone
        omega
      · refine ⟨fun empty => ?_, fits⟩
        rw [length, empty] at full
        simp [encodedSize, TRANSCRIPT_HEADER_LEN] at full alone
        omega
  · rename_i room
    have grown : encodedSize (packing.current ++ [entry]) = packing.currentLen + entryWireLen entry := by
      rw [length]
      simp [encodedSize, Nat.add_assoc]
    exact ⟨buckets, Or.inr (by rw [grown]; omega), grown.symm⟩

theorem packLoop_within (totalBudget perDatagramBudget : Nat) (window : Window) (packing : Packing)
    (within : packing.Within perDatagramBudget) :
    (packLoop totalBudget perDatagramBudget window packing).Within perDatagramBudget := by
  induction window generalizing packing with
  | nil => exact within
  | cons entry rest ih =>
      rw [packLoop]
      split
      · exact within
      · rename_i alone
        split
        · exact within
        · exact ih _ (within.push (by omega))

theorem Packing.push_entries (packing : Packing) (perDatagramBudget : Nat) (entry : UInt64 × Bytes) :
    (packing.push perDatagramBudget entry).buckets.flatten ++
        (packing.push perDatagramBudget entry).current =
      packing.buckets.flatten ++ packing.current ++ [entry] ∧
    (packing.push perDatagramBudget entry).totalLen = packing.totalLen + entryWireLen entry := by
  rw [Packing.push]
  split <;> simp

/-- The loop takes the affordable prefix of the sendable entries. -/
theorem packLoop_entries (totalBudget perDatagramBudget : Nat) (window : Window) (packing : Packing)
    (room : packing.totalLen ≤ totalBudget) :
    (packLoop totalBudget perDatagramBudget window packing).buckets.flatten ++
        (packLoop totalBudget perDatagramBudget window packing).current =
      packing.buckets.flatten ++ packing.current ++
        sentPrefix window (totalBudget - packing.totalLen) perDatagramBudget := by
  -- The invariant is on the flattened buckets: where a bucket ends does not matter.
  induction window generalizing packing with
  | nil => simp [packLoop, sentPrefix, sendable, fit]
  | cons entry rest ih =>
      rw [packLoop, sentPrefix, sendable, List.takeWhile_cons]
      by_cases alone : TRANSCRIPT_HEADER_LEN + entryWireLen entry ≤ perDatagramBudget
      · have kept : decide (TRANSCRIPT_HEADER_LEN + entryWireLen entry ≤ perDatagramBudget) = true :=
          decide_eq_true alone
        rw [if_neg (by omega), if_pos kept, fit]
        by_cases affordable : entryWireLen entry ≤ totalBudget - packing.totalLen
        · obtain ⟨entries, totalLen⟩ := packing.push_entries perDatagramBudget entry
          have left : totalBudget - (packing.totalLen + entryWireLen entry) =
              totalBudget - packing.totalLen - entryWireLen entry := by omega
          rw [if_neg (by omega), if_pos affordable, ih _ (by omega), entries, totalLen, left]
          simp [sentPrefix, sendable]
        · rw [if_neg affordable]
          by_cases exceeds : packing.totalLen + entryWireLen entry > totalBudget
          · rw [if_pos exceeds, List.append_nil]
          · omega
      · have dropped : ¬ decide (TRANSCRIPT_HEADER_LEN + entryWireLen entry ≤ perDatagramBudget) = true := by
          simpa using alone
        rw [if_pos (by omega), if_neg dropped, fit, List.append_nil]

theorem bucketWindow_flatten (window : Window) (totalBudget perDatagramBudget : Nat) :
    (bucketWindow window totalBudget perDatagramBudget).flatten =
      sentPrefix window totalBudget perDatagramBudget := by
  have entries := packLoop_entries totalBudget perDatagramBudget window Packing.start (Nat.zero_le _)
  simp only [Packing.start, List.flatten_nil, List.nil_append, Nat.sub_zero] at entries
  rw [bucketWindow, ← entries]
  split
  · rename_i empty
    rw [Packing.start] at empty ⊢
    rw [List.isEmpty_iff.mp empty, List.append_nil]
  · simp [Packing.start]

theorem mem_bucketWindow {window bucket : Window} {totalBudget perDatagramBudget : Nat}
    (member : bucket ∈ bucketWindow window totalBudget perDatagramBudget) :
    bucket ≠ [] ∧ encodedSize bucket ≤ perDatagramBudget := by
  have within := packLoop_within totalBudget perDatagramBudget window Packing.start
    (Packing.start_within perDatagramBudget)
  rw [bucketWindow] at member
  split at member
  · exact within.buckets bucket member
  · rename_i some
    rcases List.mem_append.mp member with pushed | last
    · exact within.buckets bucket pushed
    · obtain rfl := List.mem_singleton.mp last
      have kept : (packLoop totalBudget perDatagramBudget window Packing.start).current ≠ [] :=
        fun empty => some (List.isEmpty_iff.mpr empty)
      exact ⟨kept, within.current.resolve_left kept⟩

/-! ### What arrives -/

/-- The datagram that carries a bucket. -/
def datagramOf (bucket : Window) : Bytes := PREAMBLE_MARKER :: encodeTranscript bucket usizeMax

/-- A bucket of `bucketWindow` survives the wire whole. -/
theorem decode_bucket {bucket : Window} {perDatagramBudget : Nat}
    (kept : bucket ≠ []) (within : encodedSize bucket ≤ perDatagramBudget)
    (small : perDatagramBudget < 2 ^ 32) :
    (encodeTranscript bucket usizeMax).isEmpty = false ∧
      decodeTranscript (encodeTranscript bucket usizeMax) = .ok bucket := by
  have whole : longestFitting bucket usizeMax = bucket :=
    longestFitting_all (by rw [usizeMax]; omega)
  have short : ∀ entry ∈ bucket, WellSized entry := by
    intro entry member
    have cost : entryWireLen entry ≤ total entryWireLen bucket := cost_le_total member
    rw [encodedSize] at within
    rw [entryWireLen] at cost
    rw [WellSized]
    omega
  -- Every entry takes a byte at least, so the count fits its field.
  have few : bucket.length < 2 ^ 32 := by
    have many : bucket.length ≤ total entryWireLen bucket := by
      rw [total]
      simpa using List.card_nsmul_le_sum (bucket.map entryWireLen) 1 (by simp [entryWireLen]; omega)
    rw [encodedSize] at within
    omega
  have decoded := decodeTranscript_encoding short few []
  rw [encodeTranscript_eq, whole, if_neg kept]
  rw [List.append_nil] at decoded
  exact ⟨by simp [MAGIC], decoded⟩

/-- The loop sends every bucket, or the ones before the first refused. -/
theorem sendBuckets_cases {IoError : Type} (sendTo : Nat → Except IoError Unit) (buckets : List Window)
    (carried : ∀ bucket ∈ buckets, (encodeTranscript bucket usizeMax).isEmpty = false)
    (index : Nat) (before : UInt64) :
    ((∀ k, k < buckets.length → sendTo (index + k) = .ok ()) ∧
      ∃ bytes, sendBuckets sendTo buckets index before = (buckets.map datagramOf, .ok bytes)) ∨
    ∃ k e, k < buckets.length ∧ sendTo (index + k) = .error e ∧
      (∀ j, j < k → sendTo (index + j) = .ok ()) ∧
      sendBuckets sendTo buckets index before = ((buckets.take k).map datagramOf, .error e) := by
  induction buckets generalizing index before with
  | nil => exact Or.inl ⟨fun k inside => absurd inside (Nat.not_lt_zero k), before, rfl⟩
  | cons bucket rest ih =>
      have head := carried bucket List.mem_cons_self
      have tail := ih (fun b member => carried b (List.mem_cons_of_mem bucket member)) (index + 1)
        (before + UInt64.ofNat (datagramOf bucket).length)
      rw [sendBuckets, if_neg (by simp [head])]
      cases answer : sendTo index with
      | error e =>
          exact Or.inr ⟨0, e, Nat.zero_lt_succ _, answer, fun j absurd => by omega, rfl⟩
      | ok done =>
          -- Datagram `k` of the rest is datagram `k + 1` here.
          have shift (k : Nat) : index + 1 + k = index + (k + 1) := by omega
          simp only [shift] at tail
          rcases tail with ⟨all, bytes, ran⟩ | ⟨k, e, inside, refused, before, ran⟩
          · refine Or.inl ⟨?_, bytes, ?_⟩
            · intro k inside
              cases k with
              | zero => exact answer
              | succ k => exact all k (Nat.lt_of_succ_lt_succ inside)
            · exact congrArg (fun ran => (datagramOf bucket :: ran.1, ran.2)) ran
          · refine Or.inr ⟨k + 1, e, Nat.succ_lt_succ inside, refused, ?_, ?_⟩
            · intro j early
              cases j with
              | zero => exact answer
              | succ j => exact before j (Nat.lt_of_succ_lt_succ early)
            · exact congrArg (fun ran => (datagramOf bucket :: ran.1, ran.2)) ran

theorem sendBuckets_sent {IoError : Type} (sendTo : Nat → Except IoError Unit) (buckets : List Window)
    (carried : ∀ bucket ∈ buckets, (encodeTranscript bucket usizeMax).isEmpty = false)
    (index : Nat) (total : UInt64) :
    (sendBuckets sendTo buckets index total).1 <+: buckets.map datagramOf ∧
    ((∀ k, sendTo k = .ok ()) → (sendBuckets sendTo buckets index total).1 = buckets.map datagramOf) := by
  rcases sendBuckets_cases sendTo buckets carried index total with
    ⟨_, bytes, ran⟩ | ⟨k, e, _, refused, _, ran⟩
  · rw [ran]
    exact ⟨List.prefix_refl _, fun _ => rfl⟩
  · rw [ran, List.map_take]
    refine ⟨List.take_prefix _ _, fun delivered => ?_⟩
    rw [delivered] at refused
    cases refused

section Send
variable {IoError : Type} (socket : PreambleSocket) (window : Window) (totalBudget : Nat)
  (sendTo : Nat → Except IoError Unit)

theorem sendPreamble_fst : (socket.sendPreamble window totalBudget sendTo).1 =
    (sendBuckets sendTo (bucketWindow window totalBudget (MAX_DATAGRAM_PAYLOAD - 1)) 0 0).1 := by
  rw [PreambleSocket.sendPreamble]
  split <;> rename_i sent <;> rw [sent]

theorem carried_bucketWindow {bucket : Window}
    (member : bucket ∈ bucketWindow window totalBudget (MAX_DATAGRAM_PAYLOAD - 1)) :
    (encodeTranscript bucket usizeMax).isEmpty = false ∧
      decodeTranscript (encodeTranscript bucket usizeMax) = .ok bucket := by
  obtain ⟨kept, within⟩ := mem_bucketWindow member
  exact decode_bucket kept within (by simp [MAX_DATAGRAM_PAYLOAD])

/-- Every datagram that goes out is a bucket of the window. -/
theorem mem_sendPreamble {datagram : Bytes}
    (sent : datagram ∈ (socket.sendPreamble window totalBudget sendTo).1) :
    ∃ bucket ∈ bucketWindow window totalBudget (MAX_DATAGRAM_PAYLOAD - 1),
      datagram = datagramOf bucket := by
  rw [sendPreamble_fst] at sent
  have before := (sendBuckets_sent sendTo _
    (fun bucket member => (carried_bucketWindow window totalBudget member).1) 0 0).1
  obtain ⟨bucket, member, same⟩ := List.mem_map.mp (before.subset sent)
  exact ⟨bucket, member, same.symm⟩

/-- When no send fails, all buckets go out in order. -/
theorem sendPreamble_all (delivered : ∀ k, sendTo k = .ok ()) :
    (socket.sendPreamble window totalBudget sendTo).1 =
      (bucketWindow window totalBudget (MAX_DATAGRAM_PAYLOAD - 1)).map datagramOf := by
  rw [sendPreamble_fst]
  exact (sendBuckets_sent sendTo _
    (fun bucket member => (carried_bucketWindow window totalBudget member).1) 0 0).2 delivered

/-- What goes out is a front of the buckets, all of them when no send fails. -/
theorem sendPreamble_sent : ∃ buckets,
    buckets <+: bucketWindow window totalBudget (MAX_DATAGRAM_PAYLOAD - 1) ∧
    (socket.sendPreamble window totalBudget sendTo).1 = buckets.map datagramOf ∧
    ((∀ k, sendTo k = .ok ()) → buckets = bucketWindow window totalBudget (MAX_DATAGRAM_PAYLOAD - 1)) := by
  obtain ⟨before, whole⟩ := sendBuckets_sent sendTo _
    (fun bucket member => (carried_bucketWindow window totalBudget member).1) 0 0
  rw [← sendPreamble_fst socket] at before whole
  refine ⟨_, List.take_prefix (socket.sendPreamble window totalBudget sendTo).1.length _, ?_,
    fun delivered => ?_⟩
  · rw [List.map_take]
    exact List.prefix_iff_eq_take.mp before
  · rw [whole delivered, List.length_map, List.take_length]

end Send

/-- A datagram that carries a bucket reaches the sink as that bucket. -/
theorem demultiplex_datagramOf {State : Type} (sink : CommitSink State) {bucket : Window}
    (decoded : decodeTranscript (encodeTranscript bucket usizeMax) = .ok bucket) (state : State) :
    demultiplex (some sink) (datagramOf bucket) state = (none, sink bucket state) := by
  have marked : isPreambleMarker PREAMBLE_MARKER = true := by decide
  rw [demultiplex, datagramOf, parsePreamble, if_pos marked]
  simp [handlePreambleDatagram, decoded]

/-- The sink sees the decoded window of a preamble, and nothing else. -/
theorem demultiplex_cases {State : Type} (sink : CommitSink State) (datagram : Bytes) (state : State) :
    ((demultiplex (some sink) datagram state).2 = state ∧
      ∀ window, parsePreamble datagram ≠ some (.ok window)) ∨
    ∃ window, (demultiplex (some sink) datagram state).2 = sink window state ∧
      parsePreamble datagram = some (.ok window) := by
  cases datagram with
  | nil => exact Or.inl ⟨rfl, fun window => by simp [parsePreamble]⟩
  | cons first rest =>
      rw [demultiplex, parsePreamble]
      by_cases marked : isPreambleMarker first = true
      · rw [if_pos marked]
        simp only [List.drop_succ_cons, List.drop_zero, handlePreambleDatagram]
        cases decodeTranscript rest with
        | error e => exact Or.inl ⟨rfl, fun window => by simp⟩
        | ok window => exact Or.inr ⟨window, rfl, rfl⟩
      · rw [if_neg marked]
        exact Or.inl ⟨rfl, fun window => by simp⟩

end QuicMls.Preamble
