import QuicMls.CommitLogRuns
import QuicMls.Control
import QuicMls.Machine
import QuicMls.MessageStream

/-! The report receiver on any stream. Bytes arrive in chunks cut anywhere, the stream
may end anywhere, and commits are made between any two steps of the receiver. The log
comes out as if every complete report before the first bad message were a `trim`. -/
namespace QuicMls.ReportStream
open BigEndian Groups CommitLogRuns Control MessageStream

/-! ### The framing -/

theorem readMessage_sound (input : Bytes) (message : ControlMessage) (rest : Bytes)
    (read : readMessage input = .ok (message, rest)) : input = encode message ++ rest := by
  cases input with
  | nil => cases read
  | cons msgType body =>
      rw [readMessage] at read
      split at read
      · rename_i report
        split at read
        · cases read
        · rename_i long
          obtain ⟨rfl, rfl⟩ := Prod.mk.inj (Except.ok.inj read)
          have size : (body.take 8).length = 8 := List.length_take_of_le (Nat.not_lt.mp long)
          rw [encode, wordToBe_wordFromBe size, report, List.cons_append, List.take_append_drop]
      · split at read
        · rename_i hello
          obtain ⟨rfl, rfl⟩ := Prod.mk.inj (Except.ok.inj read)
          rw [encode, hello, List.cons_append, List.nil_append]
        · cases read

theorem framing : Framing encode readMessage where
  complete := readMessage_encode
  sound := readMessage_sound
  progress message := by
    cases message with
    | report epoch => exact List.cons_ne_nil _ _
    | hello => exact List.cons_ne_nil _ _

/-- The input begins with a tag of no message. -/
def BadTag (input : Bytes) : Prop := ∃ text, readMessage input = .error (.invalidData text)

/-- More bytes do not make a bad tag good. -/
theorem BadTag.append {input : Bytes} (bad : BadTag input) (more : Bytes) : BadTag (input ++ more) := by
  obtain ⟨text, read⟩ := bad
  refine ⟨text, ?_⟩
  cases input with
  | nil => cases read
  | cons msgType body =>
      rw [readMessage] at read
      rw [List.cons_append, readMessage]
      split at read
      · split at read
        · cases read
        · cases read
      · rename_i noReport
        split at read
        · cases read
        · rename_i noHello
          rw [if_neg noReport, if_neg noHello]
          exact read

/-- The messages at the head of a stream and what is left of it. -/
def decodeStream : Bytes → List ControlMessage × Bytes := readAll readMessage

/-! ### The task -/

inductive Event where
  | createCommit
  | arrive (chunk : Bytes)
  | close
  | poll

def Event.isPoll : Event → Bool
  | .poll => true
  | _ => false

def Event.bytes : Event → Bytes
  | .arrive chunk => chunk
  | _ => []

/-- The log both tasks share, the bytes that have arrived and are not read yet, and
whether the stream has ended and the receiver still runs. -/
structure ReportTask (G : Type) where
  log : CommitLog G
  unread : Bytes
  closed : Bool
  running : Bool

def ReportTask.start {G : Type} (inner : G) : ReportTask G :=
  { log := CommitLog.new inner, unread := [], closed := false, running := true }

/-- Only a message that is cut short can still become whole. -/
def cutShort (stream : Bytes) : Bool :=
  match readMessage stream with
  | .error .unexpectedEof => true
  | _ => false

section Runs
variable {G MlsError : Type} [ExportSecret G MlsError]

/-- A poll is one iteration of `run_report_receiver`; it waits for a cut message while
the stream is open. -/
def step (task : ReportTask G) : Event → Option (ReportTask G)
  | .createCommit => some { task with log := task.log.createCommit.2 }
  | .arrive chunk => if task.closed then none else some { task with unread := task.unread ++ chunk }
  | .close => if task.closed then none else some { task with closed := true }
  | .poll =>
      if task.running then
        match reportReceiverStep task.log task.unread with
        | some (log, unread) => some { task with log, unread }
        | none =>
            if cutShort task.unread && !task.closed then none else some { task with running := false }
      else none

end Runs

def arrived (events : List Event) : Bytes := events.flatMap Event.bytes

def polls (events : List Event) : Nat := events.countP Event.isPoll

def trims : ControlMessage → List LogCall
  | .report k => [.trim k]
  | .hello => []

/-- The commits, and at the place of each poll what its message does to the log. -/
def interleaved : List Event → List ControlMessage → List LogCall
  | [], _ => []
  | .createCommit :: events, messages => .createCommit :: interleaved events messages
  | .arrive _ :: events, messages => interleaved events messages
  | .close :: events, messages => interleaved events messages
  | .poll :: events, [] => interleaved events []
  | .poll :: events, message :: messages => trims message ++ interleaved events messages

section Runs
variable {G MlsError : Type} [ExportSecret G MlsError]

/-! ### One poll -/

/-- What a message does to the log. -/
def received (log : CommitLog G) : ControlMessage → CommitLog G
  | .report k => log.trim k
  | .hello => log

theorem calls_trims (ledger : Ledger G) (message : ControlMessage) :
    (ledger.calls (trims message)).log = received ledger.log message := by
  cases message with
  | report k => rfl
  | hello => rfl

theorem call_createCommit_log (ledger : Ledger G) :
    (ledger.call .createCommit).log = ledger.log.createCommit.2 := by
  rw [Ledger.call]
  rcases ledger.log.createCommit with ⟨result, after⟩
  cases result with
  | ok bytes => rfl
  | error e => rfl

theorem poll_message {task : ReportTask G} {message : ControlMessage} {rest : Bytes}
    (running : task.running = true) (read : readMessage task.unread = .ok (message, rest)) :
    step task .poll = some { task with log := received task.log message, unread := rest } := by
  rw [step, if_pos running, reportReceiverStep, read]
  cases message with
  | report k => rfl
  | hello => rfl

theorem cutShort_iff {stream : Bytes} {e : ReadError} (stuck : readMessage stream = .error e) :
    cutShort stream = true ↔ ¬ BadTag stream := by
  rw [cutShort, BadTag, stuck]
  cases e with
  | unexpectedEof => simp
  | invalidData text => simp

/-- At a bad tag, or at anything else that is no message once the stream has ended,
the receiver stops. -/
theorem poll_stops {task : ReportTask G} {e : ReadError} (running : task.running = true)
    (stuck : readMessage task.unread = .error e) (final : task.closed = true ∨ BadTag task.unread) :
    step task .poll = some { task with running := false } := by
  have ends : ¬ (cutShort task.unread && !task.closed) = true := by
    rw [Bool.and_eq_true, cutShort_iff stuck, Bool.not_eq_true']
    rintro ⟨good, opened⟩
    rcases final with closed | bad
    · rw [closed] at opened
      cases opened
    · exact good bad
  rw [step, if_pos running, reportReceiverStep, stuck]
  exact if_neg ends

/-- Everything a poll can do. -/
theorem poll_cases {task after : ReportTask G} (taken : step task .poll = some after) :
    task.running = true ∧
      ((∃ message rest, readMessage task.unread = .ok (message, rest) ∧
        after = { task with log := received task.log message, unread := rest }) ∨
      ∃ e, readMessage task.unread = .error e ∧ (task.closed = true ∨ BadTag task.unread) ∧
        after = { task with running := false }) := by
  by_cases running : task.running = true
  · refine ⟨running, ?_⟩
    cases read : readMessage task.unread with
    | ok found =>
        obtain ⟨message, rest⟩ := found
        rw [poll_message running read] at taken
        exact Or.inl ⟨message, rest, rfl, (Option.some.inj taken).symm⟩
    | error e =>
        by_cases final : task.closed = true ∨ BadTag task.unread
        · rw [poll_stops running read final] at taken
          exact Or.inr ⟨e, rfl, final, (Option.some.inj taken).symm⟩
        · -- A cut message on an open stream: the receiver waits.
          obtain ⟨opened, good⟩ := not_or.mp final
          have waits : (cutShort task.unread && !task.closed) = true := by
            rw [Bool.and_eq_true, cutShort_iff read, Bool.not_eq_true']
            exact ⟨good, Bool.eq_false_iff.mpr opened⟩
          rw [step, if_pos running, reportReceiverStep, read] at taken
          simp only [if_pos waits] at taken
          cases taken
  · rw [step, if_neg running] at taken
    cases taken

theorem arrive_cases {task after : ReportTask G} {chunk : Bytes}
    (taken : step task (.arrive chunk) = some after) :
    task.closed = false ∧ after = { task with unread := task.unread ++ chunk } := by
  rw [step] at taken
  split at taken
  · cases taken
  · rename_i opened
    exact ⟨Bool.eq_false_iff.mpr opened, (Option.some.inj taken).symm⟩

theorem close_cases {task after : ReportTask G} (taken : step task .close = some after) :
    after = { task with closed := true } := by
  rw [step] at taken
  split at taken
  · cases taken
  · exact (Option.some.inj taken).symm

end Runs

/-! ### Runs -/

theorem decodeStream_message {stream rest : Bytes} {message : ControlMessage}
    (read : readMessage stream = .ok (message, rest)) (future : Bytes) :
    decodeStream (stream ++ future) =
      (message :: (decodeStream (rest ++ future)).1, (decodeStream (rest ++ future)).2) := by
  rw [readMessage_sound _ _ _ read, List.append_assoc]
  have first := readAll_append framing [message] (rest ++ future)
  rwa [List.flatMap_singleton] at first

theorem decodeStream_stuck {stream future : Bytes} {e : ReadError} (stuck : readMessage stream = .error e)
    (final : future = [] ∨ BadTag stream) : decodeStream (stream ++ future) = ([], stream ++ future) := by
  rcases final with rfl | bad
  · rw [List.append_nil]
    exact readAll_stuck framing stuck
  · obtain ⟨_, still⟩ := bad.append future
    exact readAll_stuck framing still

theorem decodeStream_bad {stream left : Bytes} {messages : List ControlMessage}
    (splits : Splits encode readMessage stream messages left) (bad : BadTag left) (more : Bytes) :
    (decodeStream (stream ++ more)).1 = messages := by
  obtain ⟨whole, e, stuck⟩ := splits
  have read := readAll_append framing messages (left ++ more)
  rw [← decodeStream, decodeStream_stuck stuck (Or.inr bad), ← List.append_assoc, ← whole] at read
  rw [read, List.append_nil]

/-- The messages a task has still to read, given the bytes that are to arrive. -/
def ahead {G : Type} (task : ReportTask G) (future : Bytes) : List ControlMessage :=
  if task.running then (decodeStream (task.unread ++ future)).1 else []

section Runs
variable {G MlsError : Type} [ExportSecret G MlsError] {task final : ReportTask G} {events : List Event}

/-- Nothing arrives on a closed stream, which stays closed. -/
theorem closed_step {event : Event} (taken : step task event = some final) (closed : task.closed = true) :
    event.bytes = [] ∧ final.closed = true := by
  cases event with
  | createCommit =>
      cases taken
      exact ⟨rfl, closed⟩
  | arrive chunk =>
      have opened := (arrive_cases taken).1
      rw [closed] at opened
      cases opened
  | close =>
      rw [close_cases taken]
      exact ⟨rfl, rfl⟩
  | poll =>
      obtain ⟨_, ⟨message, rest, _, rfl⟩ | ⟨e, _, _, rfl⟩⟩ := poll_cases taken
      · exact ⟨rfl, closed⟩
      · exact ⟨rfl, closed⟩

theorem closed_arrived (ran : Machine.run step task events = some final) (closed : task.closed = true) :
    arrived events = [] := by
  induction events generalizing task with
  | nil => rfl
  | cons event rest ih =>
      obtain ⟨next, taken, later⟩ := Machine.run_cons_iff.mp ran
      obtain ⟨nothing, still⟩ := closed_step taken closed
      rw [arrived, List.flatMap_cons, nothing, ← arrived, ih later still]
      rfl

/-- Where the receiver stops, no bytes that arrive later make a message. -/
theorem stopped_ahead {e : ReadError} (ran : Machine.run step task events = some final)
    (stuck : readMessage task.unread = .error e) (ends : task.closed = true ∨ BadTag task.unread) :
    decodeStream (task.unread ++ arrived events) = ([], task.unread ++ arrived events) :=
  decodeStream_stuck stuck (ends.imp_left (closed_arrived ran))

/-- The log of a run, from any state of the task. -/
theorem run_log {ledger : Ledger G} (ran : Machine.run step task events = some final)
    (same : ledger.log = task.log) :
    final.log = (ledger.calls (interleaved events (ahead task (arrived events)))).log := by
  induction events generalizing task ledger with
  | nil =>
      cases ran
      exact same.symm
  | cons event rest ih =>
      obtain ⟨next, taken, later⟩ := Machine.run_cons_iff.mp ran
      cases event with
      | createCommit =>
          cases taken
          have committed : (ledger.call .createCommit).log = task.log.createCommit.2 := by
            rw [call_createCommit_log, same]
          have onward := ih later committed
          exact onward
      | arrive chunk =>
          obtain ⟨-, rfl⟩ := arrive_cases taken
          have onward := ih later same
          rw [ahead, List.append_assoc] at onward
          exact onward
      | close =>
          rw [close_cases taken] at later
          have onward := ih later same
          exact onward
      | poll =>
          obtain ⟨running, ⟨message, unread, read, rfl⟩ | ⟨e, stuck, ends, rfl⟩⟩ := poll_cases taken
          · -- The message is the first one still ahead.
            have here : ahead task (arrived (.poll :: rest)) =
                message :: ahead { task with log := received task.log message, unread } (arrived rest) := by
              rw [ahead, if_pos running, ahead, if_pos running]
              exact congrArg Prod.fst (decodeStream_message read (arrived rest))
            have trimmed : (ledger.calls (trims message)).log = received task.log message := by
              rw [calls_trims, same]
            rw [here, interleaved, Ledger.calls, List.foldl_append]
            exact ih later trimmed
          · have none : ahead task (arrived (.poll :: rest)) = [] := by
              rw [ahead, if_pos running]
              exact congrArg Prod.fst (stopped_ahead later stuck ends)
            rw [none]
            exact ih later same

/-- A task whose receiver has stopped, and why. -/
structure Stopped (task : ReportTask G) : Prop where
  running : task.running = false
  stuck : ∃ e, readMessage task.unread = .error e
  ends : task.closed = true ∨ BadTag task.unread

theorem stopped_step {event : Event} (stopped : Stopped task) (taken : step task event = some final) :
    Stopped final ∧ event.isPoll = false ∧ final.unread = task.unread ++ event.bytes := by
  obtain ⟨running, stuck, ends⟩ := stopped
  cases event with
  | createCommit =>
      cases taken
      exact ⟨⟨running, stuck, ends⟩, rfl, (List.append_nil _).symm⟩
  | arrive chunk =>
      obtain ⟨opened, rfl⟩ := arrive_cases taken
      -- On an open stream only a bad tag has stopped the receiver.
      have bad := (ends.resolve_left (by simp [opened])).append chunk
      obtain ⟨text, still⟩ := bad
      exact ⟨⟨running, ⟨_, still⟩, Or.inr ⟨text, still⟩⟩, rfl, rfl⟩
  | close =>
      obtain rfl := close_cases taken
      exact ⟨⟨running, stuck, Or.inl rfl⟩, rfl, (List.append_nil _).symm⟩
  | poll =>
      have again := (poll_cases taken).1
      rw [running] at again
      cases again

theorem stopped_run (stopped : Stopped task) (ran : Machine.run step task events = some final) :
    Stopped final ∧ polls events = 0 ∧ final.unread = task.unread ++ arrived events := by
  induction events generalizing task with
  | nil =>
      cases ran
      exact ⟨stopped, rfl, (List.append_nil _).symm⟩
  | cons event rest ih =>
      obtain ⟨next, taken, later⟩ := Machine.run_cons_iff.mp ran
      obtain ⟨still, noPoll, unread⟩ := stopped_step stopped taken
      obtain ⟨done, none, behind⟩ := ih still later
      refine ⟨done, ?_, ?_⟩
      · rw [polls, List.countP_cons_of_neg (by simp [noPoll])]
        exact none
      · rw [behind, unread, List.append_assoc]
        rfl

/-- What a run has read stands in front of what it has not, and each poll has read a
message, but for the one that stopped the receiver. -/
theorem run_reads (ran : Machine.run step task events = some final) (running : task.running = true) :
    ∃ handled : List ControlMessage,
      task.unread ++ arrived events = handled.flatMap encode ++ final.unread ∧
      (final.running = true ∧ polls events = handled.length ∨
        Stopped final ∧ polls events = handled.length + 1) := by
  induction events generalizing task with
  | nil =>
      cases ran
      exact ⟨[], List.append_nil _, Or.inl ⟨running, rfl⟩⟩
  | cons event rest ih =>
      obtain ⟨next, taken, later⟩ := Machine.run_cons_iff.mp ran
      cases event with
      | createCommit =>
          cases taken
          have onward := ih later running
          exact onward
      | arrive chunk =>
          obtain ⟨-, rfl⟩ := arrive_cases taken
          have onward := ih later running
          rw [List.append_assoc] at onward
          exact onward
      | close =>
          rw [close_cases taken] at later
          have onward := ih later running
          exact onward
      | poll =>
          have counted : polls (.poll :: rest) = polls rest + 1 := List.countP_cons_of_pos rfl
          obtain ⟨-, ⟨message, unread, read, rfl⟩ | ⟨e, stuck, ends, rfl⟩⟩ := poll_cases taken
          · obtain ⟨handled, split, count⟩ := ih later running
            refine ⟨message :: handled, ?_, ?_⟩
            · rw [readMessage_sound _ _ _ read, List.append_assoc, List.flatMap_cons, List.append_assoc]
              exact congrArg (encode message ++ ·) split
            · rw [counted, List.length_cons, Nat.add_right_cancel_iff, Nat.add_right_cancel_iff]
              exact count
          · have stopped : Stopped { task with running := false } := ⟨rfl, ⟨e, stuck⟩, ends⟩
            obtain ⟨done, none, behind⟩ := stopped_run stopped later
            exact ⟨[], behind.symm, Or.inr ⟨done, by rw [counted, none, List.length_nil]⟩⟩

/-- Once the stream ends or shows a bad tag, polls alone stop the receiver. -/
theorem polls_stop {messages : List ControlMessage} {left : Bytes} {e : ReadError}
    (running : task.running = true) (whole : task.unread = messages.flatMap encode ++ left)
    (stuck : readMessage left = .error e) (ends : task.closed = true ∨ BadTag left) : ∃ stopped,
      Machine.run step task (List.replicate (messages.length + 1) .poll) = some stopped ∧
      stopped.running = false := by
  induction messages generalizing task with
  | nil =>
      rw [List.flatMap_nil, List.nil_append] at whole
      rw [← whole] at stuck ends
      exact ⟨_, Machine.run_cons_iff.mpr ⟨_, poll_stops running stuck ends, rfl⟩, rfl⟩
  | cons message rest ih =>
      have read : readMessage task.unread = .ok (message, rest.flatMap encode ++ left) := by
        rw [whole, List.flatMap_cons, List.append_assoc]
        exact readMessage_encode message _
      obtain ⟨stopped, ran, off⟩ :=
        @ih { task with log := received task.log message, unread := rest.flatMap encode ++ left }
          running rfl ends
      exact ⟨stopped, Machine.run_cons_iff.mpr ⟨_, poll_message running read, ran⟩, off⟩

/-- How far a run from the start has come: the messages read and the ones to read make
up the stream, and a stopped receiver has read them all. -/
theorem run_decoded {inner : G} (ran : Machine.run step (ReportTask.start inner) events = some final) :
    ∃ handled, decodeStream (arrived events) =
        (handled ++ (decodeStream final.unread).1, (decodeStream final.unread).2) ∧
      (final.running = true ∧ polls events = handled.length ∨
        (decodeStream final.unread = ([], final.unread) ∧ Stopped final) ∧
          polls events = handled.length + 1) := by
  obtain ⟨handled, split, how⟩ := run_reads ran rfl
  rw [ReportTask.start, List.nil_append] at split
  refine ⟨handled, ?_, ?_⟩
  · rw [split]
    exact readAll_append framing handled final.unread
  · refine how.imp_right fun ⟨stopped, count⟩ => ⟨⟨?_, stopped⟩, count⟩
    obtain ⟨e, stuck⟩ := stopped.stuck
    exact readAll_stuck framing stuck

/-- The receiver stops exactly when it has read every message and the stream has
nothing more to wait for. -/
theorem run_stops {inner : G} {messages : List ControlMessage} {left : Bytes}
    (ran : Machine.run step (ReportTask.start inner) events = some final)
    (decoded : decodeStream (arrived events) = (messages, left)) :
    (final.running = true → polls events ≤ messages.length) ∧
    (final.running = false →
      polls events = messages.length + 1 ∧ (final.closed = true ∨ BadTag left)) ∧
    (final.running = true → final.closed = true ∨ BadTag left → ∃ stopped,
      Machine.run step final (List.replicate (messages.length + 1 - polls events) .poll) = some stopped ∧
      stopped.running = false) := by
  obtain ⟨handled, again, ⟨running, count⟩ | ⟨⟨none, stopped⟩, count⟩⟩ := run_decoded ran
  · obtain ⟨rfl, rfl⟩ := Prod.mk.inj (decoded.symm.trans again)
    rw [count, List.length_append]
    refine ⟨fun _ => Nat.le_add_right _ _, fun off => ?_, fun _ ends => ?_⟩
    · rw [running] at off
      cases off
    · obtain ⟨whole, e, stuck⟩ := readAll_splits framing final.unread
      have behind : handled.length + (decodeStream final.unread).1.length + 1 - handled.length =
          (decodeStream final.unread).1.length + 1 := by omega
      rw [behind]
      exact polls_stop running whole stuck ends
  · rw [none, List.append_nil] at again
    obtain ⟨rfl, rfl⟩ := Prod.mk.inj (decoded.symm.trans again)
    refine ⟨fun on => ?_, fun _ => ⟨count, stopped.ends⟩, fun on => ?_⟩
    · rw [stopped.running] at on
      cases on
    · rw [stopped.running] at on
      cases on

end Runs

section Receiver
variable {G MlsError : Type} [ExportSecret G MlsError]

/-- Encoded messages are read back as they were sent. On any stream, however it is cut
and whenever commits are made, the log is the one of the same commits and one `trim` for
each complete report before the first bad message; there, and at the end of the
stream, the receiver stops. -/
theorem report_receiver_exact :
    (∀ messages : List ControlMessage, decodeStream (messages.flatMap encode) = (messages, [])) ∧
    ∀ (inner : G) (events : List Event) (task : ReportTask G),
      Machine.run step (ReportTask.start inner) events = some task → ∃ messages left,
        decodeStream (arrived events) = (messages, left) ∧
        arrived events = messages.flatMap encode ++ left ∧
        (∀ others more, arrived events = others.flatMap encode ++ more → others <+: messages) ∧
        task.log = ((Ledger.start inner).calls (interleaved events messages)).log ∧
        (task.running = true → polls events ≤ messages.length) ∧
        (task.running = false →
          polls events = messages.length + 1 ∧ (task.closed = true ∨ BadTag left)) ∧
        (task.running = true → task.closed = true ∨ BadTag left → ∃ stopped,
          Machine.run step task (List.replicate (messages.length + 1 - polls events) .poll) = some stopped ∧
          stopped.running = false) ∧
        (BadTag left → ∀ more, (decodeStream (arrived events ++ more)).1 = messages) := by
  constructor
  · intro messages
    have stuck : readMessage [] = .error .unexpectedEof := rfl
    exact readAll_eq framing ⟨(List.append_nil _).symm, _, stuck⟩
  · intro inner events task ran
    obtain ⟨messages, left, decoded⟩ :
        ∃ messages left, decodeStream (arrived events) = (messages, left) := ⟨_, _, rfl⟩
    have splits : Splits encode readMessage (arrived events) messages left := by
      have found := readAll_splits framing (arrived events)
      rwa [← decodeStream, decoded] at found
    refine ⟨messages, left, decoded, splits.whole, ?_, ?_, ?_⟩
    · intro others more begins
      obtain ⟨later, same, -⟩ := splits.longest framing begins
      exact ⟨later, same.symm⟩
    · have log := @run_log _ _ _ _ _ _ (Ledger.start inner) ran rfl
      rwa [ahead, ReportTask.start, if_pos rfl, List.nil_append, decoded] at log
    · obtain ⟨reading, done, finish⟩ := run_stops ran decoded
      exact ⟨reading, done, finish, fun bad more => decodeStream_bad splits bad more⟩

end Receiver

/-- A report cut in two by a commit, then a tag of no message. -/
def garbled : List Event :=
  [.createCommit, .arrive [0x02, 0, 0, 0, 0], .createCommit, .arrive [0, 0, 0, 1, 0x07, 0x02], .poll, .poll,
   .createCommit]

theorem report_receiver_exact_garbled : ∃ task,
    Machine.run step (ReportTask.start CounterGroup.fresh) garbled = some task ∧ task.running = false ∧
    task.log = ((Ledger.start CounterGroup.fresh).calls
      [.createCommit, .createCommit, .trim 1, .createCommit]).log := by
  have stopped : (Machine.run step (ReportTask.start CounterGroup.fresh) garbled).map ReportTask.running =
      some false := by decide
  obtain ⟨task, ran, off⟩ := Option.map_eq_some_iff.mp stopped
  obtain ⟨messages, left, decoded, -, -, log, -⟩ :=
    report_receiver_exact.2 CounterGroup.fresh garbled task ran
  have read : decodeStream (arrived garbled) = ([.report 1], [0x07, 0x02]) := by decide
  obtain ⟨rfl, rfl⟩ := Prod.mk.inj (decoded.symm.trans read)
  exact ⟨task, ran, off, log⟩

end QuicMls.ReportStream
