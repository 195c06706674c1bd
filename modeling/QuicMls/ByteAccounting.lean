import QuicMls.DatagramPacking

/-! The bytes a socket counts against the bytes it handed over, across calls that
may fail. A call that fails behind its first datagram leaves before it counts the
datagrams it has already sent. -/
namespace QuicMls.ByteAccounting
open BigEndian Groups Budget Transcript Preamble DatagramPacking

/-- One `send_preamble` and what `send_to` answers for each of its datagrams. -/
structure SendCall (IoError : Type) where
  window : Window
  totalBudget : Nat
  sendTo : Nat → Except IoError Unit
  /-- The window lies in one address space, an entry's fields beside its commit. -/
  inMemory : total (fun entry => 32 + entry.2.length) window < 2 ^ 64

/-- The socket and the datagrams it has handed over. -/
structure Accounts where
  socket : PreambleSocket
  handed : List Bytes

def Accounts.start : Accounts := { socket := PreambleSocket.new, handed := [] }

section Calls
variable {IoError : Type}

def SendCall.buckets (call : SendCall IoError) : List Window :=
  bucketWindow call.window call.totalBudget (MAX_DATAGRAM_PAYLOAD - 1)

def SendCall.Refused (call : SendCall IoError) (index : Nat) : Prop :=
  ∃ e, call.sendTo index = .error e

/-- If `send_to` refuses a datagram of the call, it refuses the first. -/
def SendCall.Clean (call : SendCall IoError) : Prop :=
  ∀ index, index < call.buckets.length → call.Refused index → call.Refused 0

def Accounts.call (accounts : Accounts) (call : SendCall IoError) : Accounts :=
  let (sent, _, socket) := accounts.socket.sendPreamble call.window call.totalBudget call.sendTo
  { socket, handed := accounts.handed ++ sent }

def Accounts.calls (accounts : Accounts) (calls : List (SendCall IoError)) : Accounts :=
  calls.foldl Accounts.call accounts

/-- The counter is the length of all datagrams handed over, as a `u64` has it. -/
def Accounts.Counted (accounts : Accounts) : Prop :=
  accounts.socket.preambleBytesSent = UInt64.ofNat (wireBytes accounts.handed)

/-! ### One call -/

/-- The window's memory also pays for the framing of its datagrams. -/
theorem wireBytes_le {buckets : List Window}
    (carried : ∀ bucket ∈ buckets, bucket ≠ [] ∧ encodedSize bucket ≤ usizeMax) :
    wireBytes (buckets.map datagramOf) ≤ total (fun entry => 32 + entry.2.length) buckets.flatten := by
  induction buckets with
  | nil => exact Nat.zero_le _
  | cons bucket rest ih =>
      obtain ⟨kept, size⟩ := carried bucket List.mem_cons_self
      have later := ih fun b member => carried b (List.mem_cons_of_mem bucket member)
      obtain ⟨entry, others, rfl⟩ := List.exists_cons_of_ne_nil kept
      have framed : total entryWireLen others ≤ total (fun entry => 32 + entry.2.length) others :=
        total_mono (fun entry => by rw [entryWireLen]; omega) others
      rw [wireBytes] at later ⊢
      rw [List.map_cons, total_cons, length_datagramOf kept size, List.flatten_cons, total_append,
        total_cons, total_cons, entryWireLen]
      omega

section Call
variable (accounts : Accounts) (call : SendCall IoError)

theorem call_cases :
    ((∀ k, k < call.buckets.length → ¬ call.Refused k) ∧
      accounts.call call =
        { socket := { preambleBytesSent := accounts.socket.preambleBytesSent +
            UInt64.ofNat (wireBytes (call.buckets.map datagramOf)) },
          handed := accounts.handed ++ call.buckets.map datagramOf }) ∨
    ∃ k, k < call.buckets.length ∧ call.Refused k ∧ (∀ j, j < k → ¬ call.Refused j) ∧
      accounts.call call =
        { socket := accounts.socket, handed := accounts.handed ++ (call.buckets.take k).map datagramOf } := by
  have sendable {k : Nat} (sent : call.sendTo k = .ok ()) : ¬ call.Refused k := by
    rintro ⟨e, refused⟩
    rw [sent] at refused
    cases refused
  rcases sendBuckets_cases call.sendTo call.buckets
      (fun bucket member => (carried_bucketWindow call.window call.totalBudget member).1) 0 0 with
    ⟨all, bytes, ran⟩ | ⟨k, e, inside, refused, before, ran⟩
  · simp only [Nat.zero_add] at all
    have counted := sendBuckets_total call.sendTo call.buckets 0 0 bytes (congrArg Prod.snd ran)
    rw [ran, UInt64.zero_add] at counted
    refine Or.inl ⟨fun k inside => sendable (all k inside), ?_⟩
    rw [Accounts.call, PreambleSocket.sendPreamble, ← SendCall.buckets, ran, counted]
  · simp only [Nat.zero_add] at refused before
    refine Or.inr ⟨k, inside, ⟨e, refused⟩, fun j early => sendable (before j early), ?_⟩
    rw [Accounts.call, PreambleSocket.sendPreamble, ← SendCall.buckets, ran]

/-- What goes out of one window is less than the counter's range. -/
theorem wireBytes_take_lt (k : Nat) : wireBytes ((call.buckets.take k).map datagramOf) < 2 ^ 64 := by
  have carried : ∀ bucket ∈ call.buckets.take k, bucket ≠ [] ∧ encodedSize bucket ≤ usizeMax := by
    intro bucket member
    obtain ⟨kept, -, size⟩ := carried_size call.window call.totalBudget (List.mem_of_mem_take member)
    exact ⟨kept, size⟩
  have front : (call.buckets.take k).flatten <+: call.window := by
    have whole := sentPrefix_isPrefix call.window call.totalBudget (MAX_DATAGRAM_PAYLOAD - 1)
    rw [← bucketWindow_flatten, ← SendCall.buckets, ← List.take_append_drop k call.buckets,
      List.flatten_append] at whole
    exact (List.prefix_append _ _).trans whole
  obtain ⟨rest, split⟩ := front
  have memory := call.inMemory
  have sent := wireBytes_le carried
  rw [← split, total_append] at memory
  omega

theorem wireBytes_take_pos {k : Nat} (inside : k < call.buckets.length) (some : k ≠ 0) :
    0 < wireBytes ((call.buckets.take k).map datagramOf) := by
  cases buckets : call.buckets with
  | nil => simp [buckets] at inside
  | cons bucket rest =>
      obtain ⟨k, rfl⟩ := Nat.exists_eq_succ_of_ne_zero some
      rw [List.take_succ_cons, List.map_cons, wireBytes, total_cons, datagramOf, List.length_cons]
      omega

end Call

/-- A correct count stays correct exactly when the call does not fail behind its
first datagram. -/
theorem call_counted_iff {accounts : Accounts} (counted : accounts.Counted) (call : SendCall IoError) :
    (accounts.call call).Counted ↔ call.Clean := by
  rw [Accounts.Counted] at counted
  rcases call_cases accounts call with ⟨all, ran⟩ | ⟨k, inside, refused, before, ran⟩
  · refine iff_of_true ?_ fun index inside refused => absurd refused (all index inside)
    rw [ran, Accounts.Counted, counted, ← UInt64.ofNat_add, wireBytes, wireBytes, wireBytes, total_append]
  · have sum : wireBytes (accounts.handed ++ (call.buckets.take k).map datagramOf) =
        wireBytes accounts.handed + wireBytes ((call.buckets.take k).map datagramOf) := total_append _ _
    rw [ran, Accounts.Counted]
    dsimp only
    rw [counted, sum, UInt64.ofNat_add]
    rcases Nat.eq_zero_or_pos k with rfl | later
    · refine iff_of_true ?_ fun _ _ _ => refused
      rw [List.take_zero, List.map_nil]
      exact (UInt64.add_zero _).symm
    · -- What went out before the refused datagram is missing from the count.
      refine iff_of_false ?_ fun clean => before 0 later (clean k inside refused)
      intro same
      have lost := congrArg UInt64.toNat (UInt64.left_eq_add.mp same)
      rw [UInt64.toNat_ofNat_of_lt' (wireBytes_take_lt call k)] at lost
      exact Nat.ne_of_gt (wireBytes_take_pos call inside (Nat.ne_of_gt later)) lost

theorem counted_prefixes_iff {accounts : Accounts} (counted : accounts.Counted)
    (calls : List (SendCall IoError)) :
    (∀ front, front <+: calls → (accounts.calls front).Counted) ↔ ∀ call ∈ calls, call.Clean := by
  induction calls generalizing accounts with
  | nil =>
      refine iff_of_true (fun front before => ?_) fun call absurd => by cases absurd
      rw [List.prefix_nil.mp before]
      exact counted
  | cons call rest ih =>
      constructor
      · intro all
        have first := all [call] (List.prefix_append [call] rest)
        have later := (ih first).mp fun front before =>
          all (call :: front) ((List.prefix_cons_inj call).mpr before)
        exact List.forall_mem_cons.mpr ⟨(call_counted_iff counted call).mp first, later⟩
      · intro clean front before
        obtain ⟨first, others⟩ := List.forall_mem_cons.mp clean
        cases front with
        | nil => exact counted
        | cons head front =>
            obtain ⟨rfl, behind⟩ := List.cons_prefix_cons.mp before
            exact (ih ((call_counted_iff counted head).mpr first)).mpr others front behind

/-- After each of any calls the counter is what was handed over, exactly when no call
fails behind the first datagram of its window. -/
theorem bytes_counted_iff (calls : List (SendCall IoError)) :
    (∀ front, front <+: calls → (Accounts.start.calls front).Counted) ↔
      ∀ call ∈ calls, call.Clean := by
  have initially : Accounts.start.Counted := rfl
  exact counted_prefixes_iff initially calls

end Calls

/-- Two commits that take a datagram each; the second datagram is refused. -/
def secondRefused : SendCall Unit where
  window := [(1, List.replicate 600 0), (2, List.replicate 600 0)]
  totalBudget := 2000
  sendTo index := if index = 0 then .ok () else .error ()
  inMemory := by decide +kernel

theorem refused_call_uncounted :
    let accounts := Accounts.start.calls [secondRefused]
    wireBytes accounts.handed = 621 ∧ accounts.socket.preambleBytesSent = 0 ∧ ¬ accounts.Counted := by
  have sent : wireBytes (Accounts.start.calls [secondRefused]).handed = 621 := by decide +kernel
  have count : (Accounts.start.calls [secondRefused]).socket.preambleBytesSent = 0 := by decide +kernel
  refine ⟨sent, count, ?_⟩
  rw [Accounts.Counted, sent, count]
  decide

end QuicMls.ByteAccounting
