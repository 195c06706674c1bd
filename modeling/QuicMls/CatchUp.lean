import QuicMls.Control
import QuicMls.Preamble
import QuicMls.Recording

/-! The catch-up system: a sender's `CommitLog`, a receiver's group behind the
commit sink, and the two channels between them. Both channels are what was ever
put on them, so a message may be lost, repeated, delayed or overtaken. -/
namespace QuicMls.CatchUp
open BigEndian Groups Budget Transcript Preamble Control CommitHistory Recording

/-! ### The receiver -/

structure Receiver (G : Type) where
  group : G
  localEpoch : UInt64
  epochTx : UInt64

def Receiver.new {G : Type} (group : G) : Receiver G := { group, localEpoch := 0, epochTx := 0 }

section Receiver
variable {G MlsError : Type} [ExportSecret G MlsError]

/-- The commit sink of `run_bob`. It drops the error of the window and publishes
the new epoch only when it changed. -/
def commitSink : CommitSink (Receiver G) := fun window bob =>
  let before := bob.localEpoch
  let applied := applyCommitWindow bob.group window bob.localEpoch
  let newEpoch := applied.2.2
  let changed := newEpoch != before
  { group := applied.2.1, localEpoch := newEpoch, epochTx := if changed then newEpoch else bob.epochTx }

def receive (datagram : Bytes) (bob : Receiver G) : Receiver G :=
  (demultiplex (some commitSink) datagram bob).2

@[simp] theorem commitSink_group (window : Window) (bob : Receiver G) :
    (commitSink window bob).group = (applyCommitWindow bob.group window bob.localEpoch).2.1 := rfl

@[simp] theorem commitSink_localEpoch (window : Window) (bob : Receiver G) :
    (commitSink window bob).localEpoch = (applyCommitWindow bob.group window bob.localEpoch).2.2 := rfl

theorem commitSink_published (window : Window) {bob : Receiver G}
    (published : bob.epochTx = bob.localEpoch) :
    (commitSink window bob).epochTx = (commitSink window bob).localEpoch := by
  by_cases changed : (applyCommitWindow bob.group window bob.localEpoch).2.2 = bob.localEpoch
  · simp [commitSink, changed, published]
  · simp [commitSink, changed]

/-- A datagram either reaches the sink or changes nothing. -/
theorem receive_cases (datagram : Bytes) (bob : Receiver G) :
    (receive datagram bob = bob ∧ ∀ window, parsePreamble datagram ≠ some (.ok window)) ∨
    ∃ window, receive datagram bob = commitSink window bob ∧ parsePreamble datagram = some (.ok window) :=
  demultiplex_cases commitSink datagram bob

theorem receive_datagramOf {bucket : Window}
    (decoded : decodeTranscript (encodeTranscript bucket usizeMax) = .ok bucket) (bob : Receiver G) :
    receive (datagramOf bucket) bob = commitSink bucket bob := by
  rw [receive, demultiplex_datagramOf commitSink decoded]

end Receiver

/-! ### The system -/

structure System (GA GB : Type) where
  alice : CommitLog GA
  socket : PreambleSocket
  bob : Receiver GB
  datagrams : List Bytes
  reports : List Bytes

inductive Action where
  | createCommit
  | sendPreamble (totalBudget : Nat) (sendTo : Nat → Except String Unit)
  | deliver (datagram : Bytes)
  | inject (datagram : Bytes)
  | sendReport
  | receiveReport (message : Bytes)

def initial {GA GB : Type} (groupA : GA) (groupB : GB) : System GA GB :=
  { alice := CommitLog.new groupA, socket := PreambleSocket.new, bob := Receiver.new groupB,
    datagrams := [], reports := [] }

/-- Memory a log takes: a key, a vector header and the bytes of each commit. -/
def heapBytes {G : Type} (log : CommitLog G) : Nat :=
  total (fun entry => 8 + 24 + entry.2.length) log.commitLog.entries

section Step
variable {GA GB EA EB : Type} [ExportSecret GA EA] [ExportSecret GB EB]

/-- A failed `create_commit` is unwrapped under the lock and a log that outgrows
the address space aborts, so neither has a successor. -/
def step (system : System GA GB) : Action → Option (System GA GB)
  | .createCommit =>
      match system.alice.createCommit with
      | (.error _, _) => none
      | (.ok _, alice) => if heapBytes alice ≤ usizeMax then some { system with alice } else none
  | .sendPreamble totalBudget sendTo =>
      let (sent, _, socket) := system.socket.sendPreamble system.alice.windowBytes totalBudget sendTo
      some { system with socket, datagrams := system.datagrams ++ sent }
  | .deliver datagram =>
      if datagram ∈ system.datagrams then some { system with bob := receive datagram system.bob } else none
  -- An injected datagram need not have been sent by anybody.
  | .inject datagram => some { system with bob := receive datagram system.bob }
  | .sendReport => some { system with reports := system.reports ++ [encode (.report system.bob.epochTx)] }
  | .receiveReport message =>
      if message ∈ system.reports then
        match reportReceiverStep system.alice message with
        | some (alice, _) => some { system with alice }
        | none => some system
      else none

variable {system after : System GA GB} {action : Action}

/-- A commit that goes through touches nothing but the log. -/
theorem step_createCommit (taken : step system .createCommit = some after) :
    ∃ commit, system.alice.createCommit = (.ok commit, after.alice) ∧
      heapBytes after.alice ≤ usizeMax ∧ after = { system with alice := after.alice } := by
  simp only [step] at taken
  split at taken
  · cases taken
  · rename_i commit alice made
    split at taken
    · rename_i room
      obtain rfl := Option.some.inj taken
      exact ⟨commit, made, room, rfl⟩
    · cases taken

/-- What a step can do to the sender's log. -/
theorem step_alice (taken : step system action = some after) :
    (action = .createCommit ∧ heapBytes after.alice ≤ usizeMax) ∨ after.alice = system.alice ∨
      ∃ k, after.alice = system.alice.trim k := by
  cases action with
  | createCommit =>
      obtain ⟨_, _, room, _⟩ := step_createCommit taken
      exact Or.inl ⟨rfl, room⟩
  | sendPreamble totalBudget sendTo =>
      obtain rfl := Option.some.inj taken
      exact Or.inr (Or.inl rfl)
  | deliver datagram =>
      simp only [step] at taken
      split at taken
      · obtain rfl := Option.some.inj taken
        exact Or.inr (Or.inl rfl)
      · cases taken
  | inject datagram =>
      obtain rfl := Option.some.inj taken
      exact Or.inr (Or.inl rfl)
  | sendReport =>
      obtain rfl := Option.some.inj taken
      exact Or.inr (Or.inl rfl)
  | receiveReport message =>
      simp only [step] at taken
      split at taken
      · simp only [reportReceiverStep] at taken
        cases read : readMessage message with
        | error e =>
            simp only [read, Option.some.injEq] at taken
            exact Or.inr (Or.inl (by rw [← taken]))
        | ok parsed =>
            obtain ⟨control, rest⟩ := parsed
            cases control with
            | report k =>
                simp only [read, Option.some.injEq] at taken
                exact Or.inr (Or.inr ⟨k, by rw [← taken]⟩)
            | hello =>
                simp only [read, Option.some.injEq] at taken
                exact Or.inr (Or.inl (by rw [← taken]))
      · cases taken

/-- What a step can do to the receiver. -/
theorem step_bob (taken : step system action = some after) :
    after.bob = system.bob ∨ ∃ datagram, after.bob = receive datagram system.bob ∧
      (action = .deliver datagram ∧ datagram ∈ system.datagrams ∨ action = .inject datagram) := by
  cases action with
  | createCommit =>
      obtain ⟨_, _, _, frame⟩ := step_createCommit taken
      exact Or.inl (by rw [frame])
  | sendPreamble totalBudget sendTo =>
      obtain rfl := Option.some.inj taken
      exact Or.inl rfl
  | deliver datagram =>
      simp only [step] at taken
      split at taken
      · rename_i inFlight
        obtain rfl := Option.some.inj taken
        exact Or.inr ⟨datagram, rfl, Or.inl ⟨rfl, inFlight⟩⟩
      · cases taken
  | inject datagram =>
      obtain rfl := Option.some.inj taken
      exact Or.inr ⟨datagram, rfl, Or.inr rfl⟩
  | sendReport =>
      obtain rfl := Option.some.inj taken
      exact Or.inl rfl
  | receiveReport message =>
      simp only [step] at taken
      split at taken
      · split at taken <;> (obtain rfl := Option.some.inj taken; exact Or.inl rfl)
      · cases taken

/-- Only a commit touches the sender's group. -/
theorem step_inner (quiet : action ≠ .createCommit) (taken : step system action = some after) :
    after.alice.inner = system.alice.inner := by
  rcases step_alice taken with ⟨commit, _⟩ | same | ⟨k, trimmed⟩
  · exact absurd commit quiet
  · rw [same]
  · rw [trimmed]
    rfl

theorem heapBytes_le_of_step (room : heapBytes system.alice ≤ usizeMax)
    (taken : step system action = some after) : heapBytes after.alice ≤ usizeMax := by
  rcases step_alice taken with ⟨_, fits⟩ | same | ⟨k, trimmed⟩
  · exact fits
  · rwa [same]
  · rw [trimmed]
    exact (total_filter_le _ _).trans room

end Step

/-- Nobody but the two parties puts datagrams on the wire. -/
def honest {GA GB : Type} (_ : System GA GB) : Action → Prop
  | .inject _ => False
  | _ => True

/-! ### Forgetting the record -/

def eraseLog {G : Type} (log : CommitLog (Recorded G)) : CommitLog G :=
  { log with inner := log.inner.group }

def eraseReceiver {G : Type} (bob : Receiver (Recorded G)) : Receiver G :=
  { bob with group := bob.group.group }

def erase {GA GB : Type} (system : System (Recorded GA) (Recorded GB)) : System GA GB :=
  { system with alice := eraseLog system.alice, bob := eraseReceiver system.bob }

section Erase
variable {GA GB EA EB : Type} [ExportSecret GA EA] [ExportSecret GB EB]

theorem erase_commitSink (window : Window) (bob : Receiver (Recorded GB)) :
    commitSink window (eraseReceiver bob) = eraseReceiver (commitSink window bob) := by
  have same := erase_window window bob.group bob.localEpoch
  simp [commitSink, eraseReceiver, same]

theorem erase_receive (datagram : Bytes) (bob : Receiver (Recorded GB)) :
    receive datagram (eraseReceiver bob) = eraseReceiver (receive datagram bob) := by
  simp only [receive, demultiplex]
  split
  · simp only [handlePreambleDatagram]
    split
    · exact erase_commitSink _ bob
    · rfl
  · rfl

theorem erase_reportReceiverStep (log : CommitLog (Recorded GA)) (message : Bytes) :
    reportReceiverStep (eraseLog log) message =
      (reportReceiverStep log message).map fun next => (eraseLog next.1, next.2) := by
  simp only [reportReceiverStep]
  split <;> rfl

theorem erase_step (system : System (Recorded GA) (Recorded GB)) (action : Action) :
    step (erase system) action = (step system action).map erase := by
  cases action with
  | createCommit =>
      have same : (eraseLog system.alice).createCommit =
          (system.alice.createCommit.1, eraseLog system.alice.createCommit.2) :=
        erase_create_commit system.alice
      simp only [step, erase, same]
      cases made : system.alice.createCommit with
      | mk result alice =>
          cases result with
          | error e => rfl
          | ok commit =>
              have size : heapBytes (eraseLog alice) = heapBytes alice := rfl
              simp only [size]
              split <;> rfl
  | sendPreamble totalBudget sendTo => rfl
  | deliver datagram =>
      simp only [step, erase, erase_receive]
      split <;> rfl
  | inject datagram => simp [step, erase, erase_receive]
  | sendReport => rfl
  | receiveReport message =>
      simp only [step, erase, erase_reportReceiverStep]
      by_cases sent : message ∈ system.reports
      · rw [if_pos sent, if_pos sent]
        cases reportReceiverStep system.alice message <;> rfl
      · rw [if_neg sent, if_neg sent]
        rfl

/-- Every run is the shadow of a recorded one. -/
theorem recorded_run {groupA : GA} {groupB : GB} {final : System GA GB}
    {allowed : System GA GB → Action → Prop}
    (run : Machine.Reachable step allowed (initial groupA groupB) final) :
    ∃ recorded, Machine.Reachable step (fun system => allowed (erase system))
      (initial (record groupA) (record groupB)) recorded ∧ erase recorded = final := by
  induction run with
  | start => exact ⟨_, .start, rfl⟩
  | next action _ permitted taken ih =>
      obtain ⟨recorded, path, rfl⟩ := ih
      rw [erase_step, Option.map_eq_some_iff] at taken
      obtain ⟨next, moved, rfl⟩ := taken
      exact ⟨next, .next action path permitted moved, rfl⟩

end Erase

end QuicMls.CatchUp
