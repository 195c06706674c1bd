import QuicMls.Preamble

/-! What `send_preamble` puts on the wire: which entries, in how many datagrams
and with how many bytes. The packing loop fills each datagram before it opens
the next, so no cut of the same entries needs fewer. -/
namespace QuicMls.DatagramPacking
open BigEndian Groups Budget Transcript Preamble

/-- The window the sink gets from a datagram. -/
def decodedWindow (datagram : Bytes) : Option Window :=
  match parsePreamble datagram with
  | some (.ok window) => some window
  | _ => none

/-- The bytes of some datagrams. -/
def wireBytes (datagrams : List Bytes) : Nat := total List.length datagrams

/-! ### How full the datagrams are -/

/-- Every group but the last has no room for the entry behind it. -/
def Filled (packing : Packing) (perDatagramBudget : Nat) : Prop :=
  (packing.buckets ++ [packing.current]).IsChain
    (NoRoom entryWireLen (perDatagramBudget - TRANSCRIPT_HEADER_LEN))

theorem Filled.push {packing : Packing} {perDatagramBudget : Nat}
    (full : Filled packing perDatagramBudget) (within : packing.Within perDatagramBudget)
    {entry : UInt64 × Bytes} (alone : TRANSCRIPT_HEADER_LEN + entryWireLen entry ≤ perDatagramBudget) :
    Filled (packing.push perDatagramBudget entry) perDatagramBudget := by
  rw [Packing.push]
  split
  · rename_i exceeds
    refine full.append (List.isChain_singleton _) ?_
    intro last found first here
    rw [List.getLast?_concat, Option.mem_some_iff] at found
    rw [List.head?_singleton, Option.mem_some_iff] at here
    subst found here
    refine ⟨entry, [], rfl, ?_⟩
    rw [within.length, encodedSize] at exceeds
    rw [TRANSCRIPT_HEADER_LEN] at alone ⊢
    omega
  · obtain ⟨buckets, _, last⟩ := List.isChain_append.mp full
    refine List.isChain_append.mpr ⟨buckets, List.isChain_singleton _, ?_⟩
    intro before found current here
    rw [List.head?_singleton, Option.mem_some_iff] at here
    obtain ⟨head, tail, same, exceeds⟩ := last before found packing.current (by simp)
    exact ⟨head, tail ++ [entry], by rw [← here, same, List.cons_append], exceeds⟩

theorem packLoop_full (totalBudget perDatagramBudget : Nat) (window : Window) (packing : Packing)
    (within : packing.Within perDatagramBudget) (full : Filled packing perDatagramBudget) :
    Filled (packLoop totalBudget perDatagramBudget window packing) perDatagramBudget := by
  induction window generalizing packing with
  | nil => exact full
  | cons entry rest ih =>
      rw [packLoop]
      split
      · exact full
      · rename_i alone
        split
        · exact full
        · exact ih _ (within.push (Nat.not_lt.mp alone)) (full.push within (Nat.not_lt.mp alone))

theorem bucketWindow_full (window : Window) (totalBudget perDatagramBudget : Nat) :
    (bucketWindow window totalBudget perDatagramBudget).IsChain
      (NoRoom entryWireLen (perDatagramBudget - TRANSCRIPT_HEADER_LEN)) := by
  have full := packLoop_full totalBudget perDatagramBudget window Packing.start
    (Packing.start_within perDatagramBudget) (List.isChain_singleton _)
  rw [bucketWindow]
  split
  · exact full.left_of_append
  · exact full

/-- No cut of the sent entries into groups that fit a datagram has fewer groups. -/
theorem bucketWindow_fewest {window : Window} {totalBudget perDatagramBudget : Nat} {groups : List Window}
    (same : groups.flatten = sentPrefix window totalBudget perDatagramBudget)
    (fit : ∀ group ∈ groups, encodedSize group ≤ perDatagramBudget) :
    (bucketWindow window totalBudget perDatagramBudget).length ≤ groups.length := by
  have affordable : ∀ group ∈ groups,
      total entryWireLen group ≤ perDatagramBudget - TRANSCRIPT_HEADER_LEN := by
    intro group member
    have size := fit group member
    rw [encodedSize] at size
    rw [TRANSCRIPT_HEADER_LEN]
    omega
  rw [← bucketWindow_flatten] at same
  exact fewest_groups affordable (fun bucket member => (mem_bucketWindow member).1)
    (bucketWindow_full window totalBudget perDatagramBudget) (same.trans (List.nil_append _).symm)

/-! ### How long they are -/

/-- A datagram adds the marker and the transcript header to its entries. -/
theorem length_datagramOf {bucket : Window} (kept : bucket ≠ []) (size : encodedSize bucket ≤ usizeMax) :
    (datagramOf bucket).length = total entryWireLen bucket + 9 := by
  have whole : longestFitting bucket usizeMax = bucket := longestFitting_all size
  have length := length_encodeTranscript (whole.symm ▸ kept : longestFitting bucket usizeMax ≠ [])
  rw [datagramOf, List.length_cons, length, whole, encodedSize]
  omega

theorem wireBytes_datagrams {buckets : List Window}
    (carried : ∀ bucket ∈ buckets, bucket ≠ [] ∧ encodedSize bucket ≤ usizeMax) :
    wireBytes (buckets.map datagramOf) = total entryWireLen buckets.flatten + 9 * buckets.length := by
  induction buckets with
  | nil => rfl
  | cons bucket rest ih =>
      obtain ⟨kept, size⟩ := carried bucket List.mem_cons_self
      have later := ih fun b member => carried b (List.mem_cons_of_mem bucket member)
      rw [wireBytes] at later ⊢
      rw [List.map_cons, total_cons, later, length_datagramOf kept size, List.flatten_cons, total_append,
        List.length_cons]
      omega

/-- The running total counts what went out. -/
theorem sendBuckets_total {IoError : Type} (sendTo : Nat → Except IoError Unit) (buckets : List Window)
    (index : Nat) (before bytes : UInt64)
    (succeeded : (sendBuckets sendTo buckets index before).2 = .ok bytes) :
    bytes = before + UInt64.ofNat (wireBytes (sendBuckets sendTo buckets index before).1) := by
  induction buckets generalizing index before with
  | nil =>
      simp only [sendBuckets, Except.ok.injEq] at succeeded
      simp [sendBuckets, wireBytes, succeeded]
  | cons bucket rest ih =>
      rw [sendBuckets] at succeeded ⊢
      by_cases empty : (encodeTranscript bucket usizeMax).isEmpty = true
      · rw [if_pos empty] at succeeded ⊢
        exact ih index before succeeded
      · rw [if_neg empty] at succeeded ⊢
        cases answer : sendTo index with
        | error e => simp [answer] at succeeded
        | ok done =>
            simp only [answer] at succeeded ⊢
            rw [ih _ _ succeeded, wireBytes, wireBytes, total_cons, UInt64.ofNat_add, UInt64.add_assoc]

section Send
variable {IoError : Type} (socket : PreambleSocket) (window : Window) (totalBudget : Nat)
  (sendTo : Nat → Except IoError Unit)

/-- The value returned on success is the number of bytes sent, and it is what the
socket adds to its count. -/
theorem sendPreamble_total {bytes : UInt64}
    (succeeded : (socket.sendPreamble window totalBudget sendTo).2.1 = .ok bytes) :
    bytes = UInt64.ofNat (wireBytes (socket.sendPreamble window totalBudget sendTo).1) ∧
      (socket.sendPreamble window totalBudget sendTo).2.2.preambleBytesSent =
        socket.preambleBytesSent + bytes := by
  rw [PreambleSocket.sendPreamble] at succeeded ⊢
  rcases ran : sendBuckets sendTo (bucketWindow window totalBudget (MAX_DATAGRAM_PAYLOAD - 1)) 0 0 with
    ⟨sent, result⟩
  rw [ran] at succeeded
  cases result with
  | error e => cases succeeded
  | ok total =>
      obtain rfl := Except.ok.inj succeeded
      have counted := sendBuckets_total sendTo _ 0 0 total (by rw [ran])
      rw [ran, UInt64.zero_add] at counted
      exact ⟨counted, rfl⟩

theorem carried_size {bucket : Window}
    (member : bucket ∈ bucketWindow window totalBudget (MAX_DATAGRAM_PAYLOAD - 1)) :
    bucket ≠ [] ∧ encodedSize bucket ≤ 1199 ∧ encodedSize bucket ≤ usizeMax := by
  obtain ⟨kept, size⟩ := mem_bucketWindow member
  have small : encodedSize bucket ≤ 1199 := size
  exact ⟨kept, small, by rw [usizeMax]; omega⟩

/-! ### The budget -/

/-- The entries that go out can be cut into groups that fit a datagram each, so
that the budget also pays nine bytes for every group. -/
def Affords : Prop :=
  ∃ groups : List Window, groups.flatten = sentPrefix window totalBudget (MAX_DATAGRAM_PAYLOAD - 1) ∧
    (∀ group ∈ groups, encodedSize group ≤ MAX_DATAGRAM_PAYLOAD - 1) ∧
    total entryWireLen groups.flatten + 9 * groups.length ≤ totalBudget

/-- The budget is kept exactly when it also pays for the framing. -/
theorem send_within_budget_iff :
    (∀ (socket : PreambleSocket) (sendTo : Nat → Except IoError Unit),
      let sent := socket.sendPreamble window totalBudget sendTo
      ∀ bytes, sent.2.1 = .ok bytes → bytes = UInt64.ofNat (wireBytes sent.1) ∧
        sent.2.2.preambleBytesSent = socket.preambleBytesSent + bytes) ∧
    ((∀ (socket : PreambleSocket) (sendTo : Nat → Except IoError Unit),
      wireBytes (socket.sendPreamble window totalBudget sendTo).1 ≤ totalBudget) ↔
      Affords window totalBudget) := by
  refine ⟨fun socket sendTo bytes succeeded => sendPreamble_total socket window totalBudget sendTo succeeded,
    fun kept => ?_, fun affords socket sendTo => ?_⟩
  · have all := kept PreambleSocket.new fun _ => .ok ()
    rw [sendPreamble_all _ _ _ _ fun _ => rfl, wireBytes_datagrams fun bucket member =>
      ⟨(carried_size window totalBudget member).1, (carried_size window totalBudget member).2.2⟩] at all
    exact ⟨_, bucketWindow_flatten _ _ _, fun bucket member => (mem_bucketWindow member).2, all⟩
  · obtain ⟨groups, same, fit, paid⟩ := affords
    obtain ⟨buckets, front, sent, _⟩ := sendPreamble_sent socket window totalBudget sendTo
    rw [sent, wireBytes_datagrams fun bucket member =>
      ⟨(carried_size window totalBudget (front.subset member)).1,
        (carried_size window totalBudget (front.subset member)).2.2⟩]
    -- A socket that fails early sends less, and no cut has fewer groups.
    have fewer : buckets.length ≤ groups.length :=
      front.length_le.trans (bucketWindow_fewest same fit)
    have less : total entryWireLen buckets.flatten ≤ total entryWireLen groups.flatten := by
      obtain ⟨rest, whole⟩ := front
      rw [same, ← bucketWindow_flatten, ← whole, List.flatten_append, total_append]
      omega
    omega

end Send

/-- One commit of nine bytes, under a budget of exactly its entry. -/
theorem send_exceeds_budget :
    let sent := PreambleSocket.new.sendPreamble [(1, CounterGroup.commitOf 0)] 21
      fun _ => Except.ok (ε := Unit) ()
    wireBytes sent.1 = 30 ∧ sent.2.1.toOption = some 30 ∧ sent.2.2.preambleBytesSent = 30 ∧
      ¬ wireBytes sent.1 ≤ 21 := by
  decide +kernel

/-! ### The entries -/

section Entries
variable (window : Window) (totalBudget : Nat)

/-- The sent entries end with the window, before an entry too large for any
datagram, or before one the budget does not pay for. -/
theorem sentPrefix_stops (perDatagramBudget : Nat) :
    sentPrefix window totalBudget perDatagramBudget = window ∨
    ∃ entry rest, window = sentPrefix window totalBudget perDatagramBudget ++ entry :: rest ∧
      (perDatagramBudget < TRANSCRIPT_HEADER_LEN + entryWireLen entry ∨
        totalBudget < total entryWireLen (sentPrefix window totalBudget perDatagramBudget) +
          entryWireLen entry) := by
  have split : sendable perDatagramBudget window ++ window.dropWhile (fun entry =>
      TRANSCRIPT_HEADER_LEN + entryWireLen entry ≤ perDatagramBudget) = window :=
    List.takeWhile_append_dropWhile
  have stops := @fit_stops _ entryWireLen totalBudget (sendable perDatagramBudget window)
  rcases stops with all | ⟨entry, rest, bought, exceeds⟩
  · rw [sentPrefix, all]
    cases dropped : window.dropWhile (fun entry =>
        TRANSCRIPT_HEADER_LEN + entryWireLen entry ≤ perDatagramBudget) with
    | nil =>
        rw [dropped, List.append_nil] at split
        exact Or.inl split
    | cons entry rest =>
        rw [dropped] at split
        have present : window.dropWhile (fun entry =>
            TRANSCRIPT_HEADER_LEN + entryWireLen entry ≤ perDatagramBudget) ≠ [] :=
          dropped ▸ List.cons_ne_nil entry rest
        have large := List.head_dropWhile_not _ present
        simp only [dropped, List.head_cons, decide_eq_false_iff_not] at large
        exact Or.inr ⟨entry, rest, split.symm, Or.inl (Nat.not_le.mp large)⟩
  · refine Or.inr ⟨entry, rest ++ window.dropWhile (fun entry =>
      TRANSCRIPT_HEADER_LEN + entryWireLen entry ≤ perDatagramBudget), ?_, Or.inr exceeds⟩
    rw [sentPrefix, ← List.cons_append, ← List.append_assoc, ← bought, split]

theorem decodedWindow_datagramOf {bucket : Window}
    (decoded : decodeTranscript (encodeTranscript bucket usizeMax) = .ok bucket) :
    parsePreamble (datagramOf bucket) = some (.ok bucket) ∧
      decodedWindow (datagramOf bucket) = some bucket := by
  have marked : isPreambleMarker PREAMBLE_MARKER = true := by decide
  have parsed : parsePreamble (datagramOf bucket) = some (.ok bucket) := by
    rw [datagramOf, parsePreamble, if_pos marked, decoded]
  exact ⟨parsed, by rw [decodedWindow, parsed]⟩

theorem decodedWindows_datagrams {buckets : List Window}
    (carried : ∀ bucket ∈ buckets, decodeTranscript (encodeTranscript bucket usizeMax) = .ok bucket) :
    (buckets.map datagramOf).filterMap decodedWindow = buckets := by
  induction buckets with
  | nil => rfl
  | cons bucket rest ih =>
      have head := (decodedWindow_datagramOf (carried bucket List.mem_cons_self)).2
      rw [List.map_cons, List.filterMap_cons_some head,
        ih fun later member => carried later (List.mem_cons_of_mem bucket member)]

end Entries

/-- The datagrams carry a front of the window, in order and nothing twice, as long
as the sizes allow; each fits the path and comes back whole. -/
theorem send_preamble_lossless (window : Window) (totalBudget : Nat) :
    let buckets := bucketWindow window totalBudget (MAX_DATAGRAM_PAYLOAD - 1)
    (∀ bucket ∈ buckets, bucket ≠ []) ∧
    buckets.flatten <+: window ∧
    (buckets.flatten = window ∨ ∃ entry rest, window = buckets.flatten ++ entry :: rest ∧
      (8 + 12 + entry.2.length > 1199 ∨
        total entryWireLen buckets.flatten + entryWireLen entry > totalBudget)) ∧
    (∀ bucket ∈ buckets, included 8 usizeMax bucket 0 = bucket ∧ (datagramOf bucket).length ≤ 1200 ∧
      parsePreamble (datagramOf bucket) = some (.ok bucket)) ∧
    ∀ (IoError : Type) (socket : PreambleSocket) (sendTo : Nat → Except IoError Unit),
      ∃ sent, sent <+: buckets ∧
        (socket.sendPreamble window totalBudget sendTo).1 = sent.map datagramOf ∧
        (socket.sendPreamble window totalBudget sendTo).1.filterMap decodedWindow = sent ∧
        ((∀ k, sendTo k = .ok ()) → sent = buckets) := by
  intro buckets
  have flat : buckets.flatten = sentPrefix window totalBudget (MAX_DATAGRAM_PAYLOAD - 1) :=
    bucketWindow_flatten _ _ _
  have size := fun bucket (member : bucket ∈ buckets) => carried_size window totalBudget member
  refine ⟨fun bucket member => (size bucket member).1, ?_, ?_, fun bucket member => ⟨?_, ?_, ?_⟩,
    fun IoError socket sendTo => ?_⟩
  · rw [flat]
    exact sentPrefix_isPrefix _ _ _
  · rw [flat]
    rcases sentPrefix_stops window totalBudget (MAX_DATAGRAM_PAYLOAD - 1) with
      all | ⟨entry, rest, split, large | dear⟩
    · exact Or.inl all
    · refine Or.inr ⟨entry, rest, split, Or.inl ?_⟩
      rw [MAX_DATAGRAM_PAYLOAD, TRANSCRIPT_HEADER_LEN, entryWireLen] at large
      omega
    · exact Or.inr ⟨entry, rest, split, Or.inr dear⟩
  · rw [included_eq_longestFitting, longestFitting_all (size bucket member).2.2]
  · have length := length_datagramOf (size bucket member).1 (size bucket member).2.2
    have small := (size bucket member).2.1
    rw [encodedSize] at small
    omega
  · exact (decodedWindow_datagramOf (carried_bucketWindow window totalBudget member).2).1
  · obtain ⟨sent, front, datagrams, whole⟩ := sendPreamble_sent socket window totalBudget sendTo
    refine ⟨sent, front, datagrams, ?_, whole⟩
    rw [datagrams]
    exact decodedWindows_datagrams fun bucket member =>
      (carried_bucketWindow window totalBudget (front.subset member)).2

end QuicMls.DatagramPacking
