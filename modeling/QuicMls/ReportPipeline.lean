import QuicMls.CatchUpSafety
import QuicMls.ReportSender

/-! The two parties with the report channel as it is built: the epoch is published on a
watch channel, every connection has a sender task, a byte stream and a receiver task,
and any of them may be slow, cut off or aborted. The catch-up system, in which a report
is one message, is what remains when the streams are forgotten. -/
namespace QuicMls.ReportPipeline
open BigEndian Groups Preamble Control MessageStream ReportStream ReportSender Watch

/-! ### The receiver of commits -/

structure Bob (G : Type) where
  group : G
  localEpoch : UInt64
  epochTx : Channel UInt64

def Bob.new {G : Type} (group : G) : Bob G := { group, localEpoch := 0, epochTx := Channel.new 0 }

/-- The catch-up system keeps the published value only. -/
def Bob.view {G : Type} (bob : Bob G) : CatchUp.Receiver G :=
  { group := bob.group, localEpoch := bob.localEpoch, epochTx := bob.epochTx.value }

section Sink
variable {G MlsError : Type} [ExportSecret G MlsError]

/-- The commit sink of `run_bob`, on the channel itself. -/
def sink : CommitSink (Bob G) := fun window bob =>
  let before := bob.localEpoch
  let applied := applyCommitWindow bob.group window bob.localEpoch
  let newEpoch := applied.2.2
  let changed := newEpoch != before
  { group := applied.2.1, localEpoch := newEpoch,
    epochTx := if changed then bob.epochTx.sendReplace newEpoch else bob.epochTx }

def Bob.receive (bob : Bob G) (datagram : Bytes) : Bob G := (demultiplex (some sink) datagram bob).2

theorem view_sink (window : Window) (bob : Bob G) :
    (sink window bob).view = CatchUp.commitSink window bob.view := by
  simp only [sink, Bob.view, CatchUp.commitSink, apply_ite Channel.value, Channel.sendReplace]
  rfl

theorem view_receive (datagram : Bytes) (bob : Bob G) :
    (bob.receive datagram).view = CatchUp.receive datagram bob.view := by
  simp only [Bob.receive, CatchUp.receive, demultiplex]
  split
  · simp only [handlePreambleDatagram]
    split
    · exact view_sink _ bob
    · rfl
  · rfl

theorem localEpoch_le_applied (group : G) (window : Window) (localEpoch : UInt64) :
    localEpoch ≤ (applyCommitWindow group window localEpoch).2.2 := by
  induction window generalizing group localEpoch with
  | nil => exact UInt64.le_refl _
  | cons entry rest ih =>
      rcases entry_cases group localEpoch entry with stale | ⟨larger, gap⟩ |
        ⟨larger, successor, e, after, answer⟩ | ⟨larger, successor, after, answer⟩
      · rw [applyCommitWindow_stale rest stale]
        exact ih group localEpoch
      · rw [applyCommitWindow_gap rest larger gap]
      · rw [applyCommitWindow_rejected rest larger successor answer]
      · rw [applyCommitWindow_accepted rest larger successor answer]
        have next : localEpoch ≤ localEpoch + 1 := by
          rw [UInt64.le_iff_toNat_le, toNat_succ_of_lt larger]
          exact Nat.le_succ _
        exact UInt64.le_trans next (ih after _)

/-- Whatever arrives, the channel holds the local epoch and is only overwritten by a
higher one. -/
theorem receive_publishes {bob : Bob G} (published : bob.epochTx.value = bob.localEpoch) (datagram : Bytes) :
    (bob.receive datagram).epochTx.value = (bob.receive datagram).localEpoch ∧
      ((bob.receive datagram).epochTx = bob.epochTx ∨ ∃ epoch, bob.epochTx.value < epoch ∧
        (bob.receive datagram).epochTx = bob.epochTx.sendReplace epoch) := by
  rcases demultiplex_cases sink datagram bob with ⟨same, -⟩ | ⟨window, given, -⟩
  · rw [Bob.receive, same]
    exact ⟨published, Or.inl rfl⟩
  · rw [Bob.receive, given]
    have rises := localEpoch_le_applied bob.group window bob.localEpoch
    by_cases same : (applyCommitWindow bob.group window bob.localEpoch).2.2 = bob.localEpoch
    · have kept : (sink window bob).epochTx = bob.epochTx := by simp [sink, same]
      exact ⟨by rw [kept, published]; exact same.symm, Or.inl kept⟩
    · have sent : (sink window bob).epochTx = bob.epochTx.sendReplace (sink window bob).localEpoch := by
        simp [sink, same]
      refine ⟨by rw [sent]; rfl, Or.inr ⟨_, ?_, sent⟩⟩
      rw [published]
      exact lt_of_le_of_ne rises (Ne.symm same)

end Sink

/-! ### One connection -/

/-- The control stream of a connection between the two tasks, each of which runs once it
is spawned. The first `delivered` bytes of what was written have arrived; those the
receiver has not read yet are `unread`. -/
structure Link where
  sender : SenderTask
  sending : Bool
  delivered : Nat
  unread : Bytes
  closed : Bool
  receiving : Bool
  running : Bool
  deriving DecidableEq

inductive LinkEvent where
  | spawnSender
  | sender (event : ReportSender.Event)
  | deliver (count : Nat)
  | close
  | spawnReceiver
  | poll
  | abortReceiver

/-- `run_bob` clones a receiver it never reads, whenever that is, and sets the flag. -/
def Link.new : Link :=
  { sender := SenderTask.spawn 0 true, sending := false, delivered := 0, unread := [], closed := false,
    receiving := false, running := true }

def Link.task {G : Type} (link : Link) (log : CommitLog G) : ReportTask G :=
  { log, unread := link.unread, closed := link.closed, running := link.running }

/-- What a step of the receiver task leaves. -/
def Link.received {G : Type} (link : Link) (task : ReportTask G) : CommitLog G × Link :=
  (task.log, { link with unread := task.unread, closed := task.closed, running := task.running })

section Link
variable {G MlsError : Type} [ExportSecret G MlsError]

def Link.step (epochTx : Channel UInt64) (log : CommitLog G) (link : Link) :
    LinkEvent → Option (CommitLog G × Link)
  | .spawnSender => if link.sending then none else some (log, { link with sending := true })
  | .sender event =>
      if link.sending then
        (reportSenderStep epochTx link.sender event).map fun sender => (log, { link with sender })
      else none
  | .deliver count =>
      if 0 < count ∧ link.delivered + count ≤ link.sender.written.length then
        let chunk := (link.sender.written.drop link.delivered).take count
        (ReportStream.step (link.task log) (.arrive chunk)).map fun task =>
          { link with delivered := link.delivered + count }.received task
      else none
  | .close => (ReportStream.step (link.task log) .close).map link.received
  | .spawnReceiver => if link.receiving then none else some (log, { link with receiving := true })
  | .poll => if link.receiving then (ReportStream.step (link.task log) .poll).map link.received else none
  | .abortReceiver => some (log, { link with running := false })

/-- Everything a step of a connection can do to it and to the log. -/
inductive Link.Moved (epochTx : Channel UInt64) (log : CommitLog G) (link : Link) :
    LinkEvent → CommitLog G → Link → Prop
  | spawnSender (absent : link.sending = false) :
      Link.Moved epochTx log link .spawnSender log { link with sending := true }
  | sender {event : ReportSender.Event} {sender : SenderTask} (spawned : link.sending = true)
      (ran : reportSenderStep epochTx link.sender event = some sender) :
      Link.Moved epochTx log link (.sender event) log { link with sender }
  | delivered {count : Nat} (some : 0 < count) (room : link.delivered + count ≤ link.sender.written.length)
      (opened : link.closed = false) :
      Link.Moved epochTx log link (.deliver count) log
        { link with
          delivered := link.delivered + count
          unread := link.unread ++ (link.sender.written.drop link.delivered).take count }
  | closed : Link.Moved epochTx log link .close log { link with closed := true }
  | spawnReceiver (absent : link.receiving = false) :
      Link.Moved epochTx log link .spawnReceiver log { link with receiving := true }
  | handled {message : ControlMessage} {unread : Bytes} (spawned : link.receiving = true)
      (read : readMessage link.unread = .ok (message, unread)) :
      Link.Moved epochTx log link .poll (ReportStream.received log message) { link with unread }
  | stopped {e : ReadError} (spawned : link.receiving = true) (stuck : readMessage link.unread = .error e)
      (final : link.closed = true ∨ BadTag link.unread) :
      Link.Moved epochTx log link .poll log { link with running := false }
  | aborted : Link.Moved epochTx log link .abortReceiver log { link with running := false }

theorem Link.moved_of_step {epochTx : Channel UInt64} {log after : CommitLog G} {link next : Link}
    {event : LinkEvent} (taken : link.step epochTx log event = some (after, next)) :
    Link.Moved epochTx log link event after next := by
  cases event with
  | spawnSender =>
      simp only [Link.step] at taken
      split at taken
      · cases taken
      · rename_i absent
        cases taken
        exact .spawnSender (Bool.eq_false_iff.mpr absent)
  | sender event =>
      simp only [Link.step] at taken
      split at taken
      · rename_i spawned
        simp only [Option.map_eq_some_iff, Prod.mk.injEq] at taken
        obtain ⟨sender, ran, rfl, rfl⟩ := taken
        exact .sender spawned ran
      · cases taken
  | deliver count =>
      simp only [Link.step] at taken
      split at taken
      · rename_i room
        simp only [Option.map_eq_some_iff, Link.received, Prod.mk.injEq] at taken
        obtain ⟨task, arrived, rfl, rfl⟩ := taken
        obtain ⟨opened, rfl⟩ := arrive_cases arrived
        exact .delivered room.1 room.2 opened
      · cases taken
  | close =>
      simp only [Link.step, Option.map_eq_some_iff, Link.received, Prod.mk.injEq] at taken
      obtain ⟨task, closed, rfl, rfl⟩ := taken
      obtain rfl := close_cases closed
      exact .closed
  | spawnReceiver =>
      simp only [Link.step] at taken
      split at taken
      · cases taken
      · rename_i absent
        cases taken
        exact .spawnReceiver (Bool.eq_false_iff.mpr absent)
  | poll =>
      simp only [Link.step] at taken
      split at taken
      · rename_i spawned
        simp only [Option.map_eq_some_iff, Link.received, Prod.mk.injEq] at taken
        obtain ⟨task, polled, rfl, rfl⟩ := taken
        obtain ⟨-, ⟨message, unread, read, rfl⟩ | ⟨e, stuck, final, rfl⟩⟩ := poll_cases polled
        · exact .handled spawned read
        · exact .stopped spawned stuck final
      · cases taken
  | abortReceiver =>
      cases taken
      exact .aborted

end Link

/-! ### The system -/

structure Pipeline (GA GB : Type) where
  alice : CommitLog GA
  socket : PreambleSocket
  bob : Bob GB
  datagrams : List Bytes
  links : List Link

inductive Action where
  | createCommit
  | sendPreamble (totalBudget : Nat) (sendTo : Nat → Except String Unit)
  | deliver (datagram : Bytes)
  | inject (datagram : Bytes)
  | connect
  | link (index : Nat) (event : LinkEvent)
  | dropEpochTx

def initial {GA GB : Type} (groupA : GA) (groupB : GB) : Pipeline GA GB :=
  { alice := CommitLog.new groupA, socket := PreambleSocket.new, bob := Bob.new groupB,
    datagrams := [], links := [] }

section Step
variable {GA GB EA EB : Type} [ExportSecret GA EA] [ExportSecret GB EB]

/-- The tasks of one connection, or anything outside the streams. -/
def step (pipeline : Pipeline GA GB) : Action → Option (Pipeline GA GB)
  | .createCommit =>
      match pipeline.alice.createCommit with
      | (.error _, _) => none
      | (.ok _, alice) => if CatchUp.heapBytes alice ≤ usizeMax then some { pipeline with alice } else none
  | .sendPreamble totalBudget sendTo =>
      let (sent, _, socket) := pipeline.socket.sendPreamble pipeline.alice.windowBytes totalBudget sendTo
      some { pipeline with socket, datagrams := pipeline.datagrams ++ sent }
  | .deliver datagram =>
      if pipeline.datagrams.contains datagram then some { pipeline with bob := pipeline.bob.receive datagram }
      else none
  | .inject datagram => some { pipeline with bob := pipeline.bob.receive datagram }
  | .connect => some { pipeline with links := pipeline.links ++ [Link.new] }
  | .link index event =>
      match pipeline.links[index]? with
      | none => none
      | some link =>
          (link.step pipeline.bob.epochTx pipeline.alice event).map fun (alice, link) =>
            { pipeline with alice, links := pipeline.links.set index link }
  -- `run_bob` returns: the sink and the sending half of the channel are dropped.
  | .dropEpochTx =>
      some { pipeline with bob := { pipeline.bob with epochTx := { pipeline.bob.epochTx with closed := true } } }

/-- Everything a step can do. -/
inductive Pipeline.Moved (pipeline : Pipeline GA GB) : Action → Pipeline GA GB → Prop
  | created {commit : Bytes} {alice : CommitLog GA} (made : pipeline.alice.createCommit = (.ok commit, alice))
      (room : CatchUp.heapBytes alice ≤ usizeMax) :
      Pipeline.Moved pipeline .createCommit { pipeline with alice }
  | sent (totalBudget : Nat) (sendTo : Nat → Except String Unit) :
      Pipeline.Moved pipeline (.sendPreamble totalBudget sendTo)
        { pipeline with
          socket := (pipeline.socket.sendPreamble pipeline.alice.windowBytes totalBudget sendTo).2.2
          datagrams := pipeline.datagrams ++
            (pipeline.socket.sendPreamble pipeline.alice.windowBytes totalBudget sendTo).1 }
  | delivered {datagram : Bytes} (sent : datagram ∈ pipeline.datagrams) :
      Pipeline.Moved pipeline (.deliver datagram) { pipeline with bob := pipeline.bob.receive datagram }
  | injected (datagram : Bytes) :
      Pipeline.Moved pipeline (.inject datagram) { pipeline with bob := pipeline.bob.receive datagram }
  | connected : Pipeline.Moved pipeline .connect { pipeline with links := pipeline.links ++ [Link.new] }
  | linked {index : Nat} {event : LinkEvent} {link next : Link} {alice : CommitLog GA}
      (found : pipeline.links[index]? = some link)
      (moved : Link.Moved pipeline.bob.epochTx pipeline.alice link event alice next) :
      Pipeline.Moved pipeline (.link index event) { pipeline with alice, links := pipeline.links.set index next }
  | dropped : Pipeline.Moved pipeline .dropEpochTx
      { pipeline with bob := { pipeline.bob with epochTx := { pipeline.bob.epochTx with closed := true } } }

theorem Pipeline.moved_of_step {pipeline after : Pipeline GA GB} {action : Action}
    (taken : step pipeline action = some after) : Pipeline.Moved pipeline action after := by
  cases action with
  | createCommit =>
      simp only [step] at taken
      split at taken
      · cases taken
      · rename_i made
        split at taken
        · rename_i room
          obtain rfl := Option.some.inj taken
          exact .created made room
        · cases taken
  | sendPreamble totalBudget sendTo =>
      obtain rfl := Option.some.inj taken
      exact .sent totalBudget sendTo
  | deliver datagram =>
      simp only [step] at taken
      split at taken
      · rename_i sent
        obtain rfl := Option.some.inj taken
        exact .delivered (List.contains_iff_mem.mp sent)
      · cases taken
  | inject datagram =>
      obtain rfl := Option.some.inj taken
      exact .injected datagram
  | connect =>
      obtain rfl := Option.some.inj taken
      exact .connected
  | link index event =>
      simp only [step] at taken
      split at taken
      · cases taken
      · rename_i found
        obtain ⟨⟨alice, next⟩, moved, rfl⟩ := Option.map_eq_some_iff.mp taken
        exact .linked found (Link.moved_of_step moved)
  | dropEpochTx =>
      obtain rfl := Option.some.inj taken
      exact .dropped

end Step

def honest : Action → Prop
  | .inject _ => False
  | _ => True

/-- Nobody clears a `should_report`. -/
def steady : Action → Prop
  | .link _ (.sender (.setShouldReport false)) => False
  | _ => True

end QuicMls.ReportPipeline
