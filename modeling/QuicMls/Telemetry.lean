import QuicMls.Machine

/-! The telemetry of a run of the harness: its rows, and the language they are in. A
reader that knows which row may follow which, and which commit a row belongs to, takes
every log the harness writes. -/
namespace QuicMls.Telemetry

inductive Event where
  | zeroRttAvailable
  | handshakeAccepted
  | handshakeRejected
  | handshakeTranscriptEmbedded
  | reconnectAttemptTimedOut
  | reconnectAttemptFailed
  | reconnectHandshakeAccepted
  | reconnectHandshakeRejected
  | commitCpu
  | commitNet
  | blackoutStart
  | commitOffline
  | blackoutEnd
  | done
  deriving DecidableEq

def Event.name : Event → String
  | .zeroRttAvailable => "zero_rtt_available"
  | .handshakeAccepted => "handshake_0rtt_accepted"
  | .handshakeRejected => "handshake_0rtt_rejected"
  | .handshakeTranscriptEmbedded => "handshake_transcript_embedded"
  | .reconnectAttemptTimedOut => "reconnect_attempt_timed_out"
  | .reconnectAttemptFailed => "reconnect_attempt_failed"
  | .reconnectHandshakeAccepted => "reconnect_handshake_0rtt_accepted"
  | .reconnectHandshakeRejected => "reconnect_handshake_0rtt_rejected"
  | .commitCpu => "commit_cpu"
  | .commitNet => "commit_net"
  | .blackoutStart => "blackout_start"
  | .commitOffline => "commit_offline"
  | .blackoutEnd => "blackout_end"
  | .done => "done"

/-- A row of the log. The wall clock stamps it; a latency is a length of time. -/
structure Row where
  timestamp : Nat
  event : Event
  epoch : UInt64
  bytes : UInt64
  latency : Nat
  deriving DecidableEq

/-! ### The language of logs -/

/-- How far a reader has followed the sender. -/
inductive Place where
  | fresh
  | opening
  | online
  | committed
  | dark
  | waiting
  | embedded
  | reopening
  | finished
  deriving DecidableEq

def Place.next : Place → Event → Option Place
  | .fresh, .zeroRttAvailable => some .opening
  | .fresh, .done => some .finished
  | .opening, .handshakeAccepted => some .online
  | .opening, .handshakeRejected => some .online
  | .online, .commitCpu => some .committed
  | .online, .blackoutStart => some .dark
  | .online, .done => some .finished
  | .committed, .commitNet => some .online
  | .dark, .commitOffline => some .dark
  | .dark, .blackoutEnd => some .waiting
  | .waiting, .handshakeTranscriptEmbedded => some .embedded
  | .waiting, .done => some .finished
  | .embedded, .zeroRttAvailable => some .reopening
  | .embedded, .reconnectAttemptTimedOut => some .waiting
  | .embedded, .reconnectAttemptFailed => some .waiting
  | .reopening, .reconnectHandshakeAccepted => some .online
  | .reopening, .reconnectHandshakeRejected => some .online
  | _, _ => none

/-- A row that reports a commit as made. -/
def Event.isCommit : Event → Bool
  | .commitCpu => true
  | .commitOffline => true
  | _ => false

/-- Rows about a handshake do not name an epoch. -/
def Event.isHandshake : Event → Bool
  | .zeroRttAvailable => true
  | .handshakeAccepted => true
  | .handshakeRejected => true
  | .reconnectHandshakeAccepted => true
  | .reconnectHandshakeRejected => true
  | _ => false

structure Reader where
  place : Place
  commits : UInt64
  deriving DecidableEq

def Reader.start : Reader := { place := .fresh, commits := 0 }

def Reader.commitsAt (reader : Reader) (event : Event) : UInt64 :=
  if event.isCommit then reader.commits + 1 else reader.commits

/-- The epoch a row must name. -/
def Reader.epochAt (reader : Reader) (event : Event) : UInt64 :=
  if event.isHandshake then 0 else reader.commitsAt event

/-- Takes a row that may come next and names the epoch reached so far. -/
def Reader.read (reader : Reader) (row : Row) : Option Reader :=
  if row.epoch = reader.epochAt row.event then
    (reader.place.next row.event).map fun place => { place, commits := reader.commitsAt row.event }
  else none

def readLog (rows : List Row) : Option Reader := Machine.run Reader.read Reader.start rows

def count (event : Event) (rows : List Row) : Nat := rows.countP fun row => row.event = event

theorem count_concat (event : Event) (rows : List Row) (row : Row) :
    count event (rows ++ [row]) = count event rows + if row.event = event then 1 else 0 := by
  simp [count, List.countP_append, List.countP_singleton]

theorem readLog_concat {rows : List Row} {row : Row} {reader : Reader} :
    readLog (rows ++ [row]) = some reader ↔
      ∃ before, readLog rows = some before ∧ before.read row = some reader := by
  rw [readLog, Machine.run_append, Option.bind_eq_some_iff]
  refine exists_congr fun before => and_congr_right fun _ => ?_
  simp [Machine.run]

theorem read_eq_some {before after : Reader} {row : Row} :
    before.read row = some after ↔ row.epoch = before.epochAt row.event ∧
      before.place.next row.event = some after.place ∧ after.commits = before.commitsAt row.event := by
  rw [Reader.read]
  by_cases named : row.epoch = before.epochAt row.event
  · rw [if_pos named, Option.map_eq_some_iff]
    constructor
    · rintro ⟨place, moved, rfl⟩
      exact ⟨named, moved, rfl⟩
    · rintro ⟨-, moved, commits⟩
      exact ⟨after.place, moved, by rw [← commits]⟩
  · rw [if_neg named]
    simp [named]

/-! ### Counting -/

/-- The weights of the rows, added up. -/
def tally (weight : Event → ℤ) (rows : List Row) : ℤ := (rows.map fun row => weight row.event).sum

def one (event : Event) : Event → ℤ := fun other => if other = event then 1 else 0

@[simp] theorem tally_one (event : Event) (rows : List Row) : tally (one event) rows = count event rows := by
  induction rows with
  | nil => rfl
  | cons row rest ih =>
      rw [tally, List.map_cons, List.sum_cons, ← tally, ih, one, count, count, List.countP_cons]
      split <;> simp [*, add_comm]

@[simp] theorem tally_add (left right : Event → ℤ) (rows : List Row) :
    tally (left + right) rows = tally left rows + tally right rows :=
  List.sum_map_add

@[simp] theorem tally_neg (weight : Event → ℤ) (rows : List Row) :
    tally (-weight) rows = -tally weight rows := by
  induction rows with
  | nil => rfl
  | cons row rest ih =>
      simp only [tally, List.map_cons, List.sum_cons, Pi.neg_apply] at ih ⊢
      rw [ih, neg_add]

/-- A table of the rows that may come next bounds what a log adds up to. -/
theorem tally_bound {potential : Place → ℤ} {weight : Event → ℤ} {rows : List Row} {reader : Reader}
    (pays : ∀ place event, ∀ next ∈ place.next event, potential next ≤ potential place + weight event)
    (read : readLog rows = some reader) :
    potential reader.place ≤ potential .fresh + tally weight rows := by
  have stepwise : ∀ before row after, Reader.read before row = some after →
      potential after.place ≤ potential before.place + weight row.event := fun before row after taken =>
    pays _ _ _ (read_eq_some.mp taken).2.1
  exact @Machine.run_le_sum _ _ _ _ _ _ _ _ (fun reader => potential reader.place)
    (fun row => weight row.event) _ _ stepwise read

/-- Where every row that may come next pays exactly, a log adds up exactly. -/
theorem tally_exact {potential : Place → ℤ} {weight : Event → ℤ} {rows : List Row} {reader : Reader}
    (pays : ∀ place event, ∀ next ∈ place.next event, potential next = potential place + weight event)
    (read : readLog rows = some reader) :
    potential reader.place = potential .fresh + tally weight rows := by
  apply le_antisymm
  · exact tally_bound (fun place event next moved => (pays place event next moved).le) read
  · have reversed := @tally_bound (-potential) (-weight) _ _
      (fun place event next moved => by
        rw [Pi.neg_apply, Pi.neg_apply, Pi.neg_apply, pays place event next moved, neg_add])
      read
    rw [tally_neg, Pi.neg_apply, Pi.neg_apply] at reversed
    linarith

/-- Connections made again after a blackout. -/
def reconnected (rows : List Row) : Nat :=
  count .reconnectHandshakeAccepted rows + count .reconnectHandshakeRejected rows

def recovering : Event → ℤ :=
  one .blackoutStart + -one .reconnectHandshakeAccepted + -one .reconnectHandshakeRejected

/-- A blackout has not been recovered from yet. -/
def Place.owed : Place → ℤ
  | .dark => 1
  | .waiting => 1
  | .embedded => 1
  | .reopening => 1
  | _ => 0

/-- A log may end in a blackout or after one. -/
def Place.spared (place : Place) : ℤ := if place = .finished then -1 else -place.owed

def attempting : Event → ℤ :=
  one .handshakeTranscriptEmbedded + -one .reconnectAttemptTimedOut + -one .reconnectAttemptFailed +
    -one .reconnectHandshakeAccepted + -one .reconnectHandshakeRejected

def Place.attempted (place : Place) : ℤ := if place = .embedded ∨ place = .reopening then 1 else 0

def sending : Event → ℤ := one .commitCpu + -one .commitNet

def Place.unsent (place : Place) : ℤ := if place = .committed then 1 else 0

def darkening : Event → ℤ := one .blackoutStart + -one .blackoutEnd

def Place.darkened (place : Place) : ℤ := if place = .dark then 1 else 0

def Place.ended (place : Place) : ℤ := if place = .finished then 1 else 0

def commits (rows : List Row) : Nat := count .commitCpu rows + count .commitOffline rows

theorem commits_concat (rows : List Row) (row : Row) :
    commits (rows ++ [row]) = commits rows + if row.event.isCommit then 1 else 0 := by
  rw [commits, commits, count_concat, count_concat]
  cases row.event <;> simp [Event.isCommit] <;> omega

section Counts
variable {rows : List Row} {reader : Reader}

/-- Every blackout but the last is followed by one reconnection, and no reconnection comes
without a blackout. -/
theorem blackouts_reconnected (read : readLog rows = some reader) :
    reconnected rows ≤ count .blackoutStart rows ∧ count .blackoutStart rows ≤ reconnected rows + 1 := by
  have total : tally recovering rows = count .blackoutStart rows - reconnected rows := by
    simp only [recovering, tally_add, tally_neg, tally_one, reconnected, Nat.cast_add]
    ring
  have lower := @tally_bound Place.owed recovering _ _
    (by intro place event; cases place <;> cases event <;> decide) read
  have upper := @tally_bound Place.spared (-recovering) _ _
    (by intro place event; cases place <;> cases event <;> decide) read
  have none : 0 ≤ reader.place.owed := by cases reader.place <;> decide
  have some : -1 ≤ reader.place.spared := by cases reader.place <;> decide
  have owes : Place.owed .fresh = 0 := rfl
  have spares : Place.spared .fresh = 0 := rfl
  rw [tally_neg, total] at upper
  rw [total] at lower
  omega

/-- Every reconnection that was tried ends in one of four rows. -/
theorem attempts_ended (read : readLog rows = some reader) :
    (count .handshakeTranscriptEmbedded rows : ℤ) = count .reconnectAttemptTimedOut rows +
      count .reconnectAttemptFailed rows + reconnected rows + reader.place.attempted := by
  have adds := @tally_exact Place.attempted attempting _ _
    (by intro place event; cases place <;> cases event <;> decide) read
  have none : Place.attempted .fresh = 0 := rfl
  simp only [attempting, tally_add, tally_neg, tally_one, none] at adds
  rw [adds, reconnected, Nat.cast_add]
  ring

/-- Every commit made online is sent. -/
theorem commits_sent (read : readLog rows = some reader) :
    (count .commitCpu rows : ℤ) = count .commitNet rows + reader.place.unsent := by
  have adds := @tally_exact Place.unsent sending _ _
    (by intro place event; cases place <;> cases event <;> decide) read
  have none : Place.unsent .fresh = 0 := rfl
  simp only [sending, tally_add, tally_neg, tally_one, none] at adds
  rw [adds]
  ring

theorem blackouts_ended (read : readLog rows = some reader) :
    (count .blackoutStart rows : ℤ) = count .blackoutEnd rows + reader.place.darkened := by
  have adds := @tally_exact Place.darkened darkening _ _
    (by intro place event; cases place <;> cases event <;> decide) read
  have none : Place.darkened .fresh = 0 := rfl
  simp only [darkening, tally_add, tally_neg, tally_one, none] at adds
  rw [adds]
  ring

/-- The last row is written once. -/
theorem done_once (read : readLog rows = some reader) : (count .done rows : ℤ) = reader.place.ended := by
  have adds := @tally_exact Place.ended (one .done) _ _
    (by intro place event; cases place <;> cases event <;> decide) read
  have none : Place.ended .fresh = 0 := rfl
  rw [adds, tally_one, none, zero_add]

/-- The reader counts the commits, in a word. -/
theorem commits_counted (read : readLog rows = some reader) :
    reader.commits = UInt64.ofNat (Telemetry.commits rows) := by
  induction rows using List.reverseRecOn generalizing reader with
  | nil =>
      obtain rfl := Option.some.inj read
      rfl
  | append_singleton rows row ih =>
      obtain ⟨before, behind, taken⟩ := readLog_concat.mp read
      obtain ⟨-, -, commits⟩ := read_eq_some.mp taken
      rw [commits, Reader.commitsAt, ih behind, commits_concat]
      cases row.event.isCommit with
      | true => exact (UInt64.ofNat_add _ 1).symm
      | false => rfl

/-- Every row names the number of commits up to it, itself included. -/
theorem row_epoch {front back : List Row} {row : Row} (read : readLog (front ++ row :: back) = some reader) :
    row.epoch = if row.event.isHandshake then 0 else UInt64.ofNat (Telemetry.commits (front ++ [row])) := by
  rw [List.append_cons, readLog, Machine.run_append, Option.bind_eq_some_iff] at read
  obtain ⟨middle, taken, -⟩ := read
  obtain ⟨before, -, moved⟩ := readLog_concat.mp taken
  obtain ⟨named, -, counted⟩ := read_eq_some.mp moved
  rw [named, Reader.epochAt, ← counted, commits_counted taken]

end Counts

end QuicMls.Telemetry
