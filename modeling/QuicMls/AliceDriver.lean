import QuicMls.ReportPipeline
import QuicMls.Telemetry

/-! `run_alice`, the sending side of the measurement harness: it connects, commits at an
interval, goes dark, commits on, and reconnects with everything the log still holds. The
clock is read where the source reads it; readings with no await between them are one.
Time is in nanoseconds since the scenario started. -/
namespace QuicMls.AliceDriver
open BigEndian Groups Preamble ReportPipeline Telemetry

/-! ### The driver -/

structure Args where
  commitInterval : Nat
  duration : Nat
  blackoutOn : Nat
  blackoutOff : Nat
  reportTimeout : Nat
  transcriptMaxBytes : Nat

inductive Phase where
  | online
  | blackout
  deriving DecidableEq

/-- The locals of the two commit loops. The ticker is due at `ticker`. -/
structure Loop where
  phase : Phase
  start : Nat
  length : Nat
  ticker : Nat
  deadline : Nat
  deriving DecidableEq

inductive Point where
  | scenario
  | waitForReady (start : Nat)
  | connect (t0 : Nat) (opened : Bool)
  | confirm (t0 : Nat)
  | embed (t0 : Nat)
  | reconnect (t0 since : Nat) (opened : Bool)
  | reconfirm (t0 : Nat) (ok : Bool)
  | beginPhase (phase : Phase)
  | startTicker (phase : Phase) (start length : Nat)
  | loopHead (loop : Loop)
  | select (loop : Loop)
  | recheck (loop : Loop)
  | commit (loop : Loop)
  | send (loop : Loop) (cpu : Nat)
  | logCpu (loop : Loop) (cpu net : Nat) (bytes : UInt64)
  | logNet (loop : Loop) (net : Nat) (bytes : UInt64)
  | logOffline (loop : Loop)
  | leave (phase : Phase)
  | returned
  | failed
  deriving DecidableEq

/-- What the driver waits for at a point turns out so. -/
inductive Outcome where
  | go
  | ready (content : Option UInt64)
  | accepted (ok : Bool)
  | timedOut
  | refused
  | tick (missed : Bool)
  | deadline
  | sendTo (answer : Nat → Except String Unit)
  | fail

structure Driver where
  clock : Nat
  point : Point
  epoch : UInt64
  cycle : UInt64
  lastReadySeen : UInt64
  conn : Nat
  rows : List Row

def Driver.start : Driver :=
  { clock := 0, point := .scenario, epoch := 0, cycle := 0, lastReadySeen := 0, conn := 0, rows := [] }

def Driver.goto (driver : Driver) (now : Nat) (point : Point) : Driver := { driver with clock := now, point }

def Driver.row (driver : Driver) (now timestamp : Nat) (event : Event) (epoch bytes : UInt64) (latency : Nat)
    (point : Point) : Driver :=
  { driver with clock := now, point, rows := driver.rows ++ [{ timestamp, event, epoch, bytes, latency }] }

/-- The driver beside everything else: her log, the sockets, the other party, the tasks. -/
structure Testbed (GA GB : Type) where
  driver : Driver
  pipeline : Pipeline GA GB

def Testbed.start {GA GB : Type} (groupA : GA) (groupB : GB) : Testbed GA GB :=
  { driver := Driver.start, pipeline := initial groupA groupB }

def Args.phaseLength (args : Args) (now : Nat) : Phase → Nat
  | .online => if args.blackoutOn = 0 then args.duration - now else args.blackoutOn
  | .blackout => args.blackoutOff

section Step
variable {GA GB EA EB : Type} [ExportSecret GA EA] [ExportSecret GB EB]

/-- `send_preamble` of the current window, what it returned, and the pipeline after it. -/
def sendWindow (args : Args) (pipeline : Pipeline GA GB) (sendTo : Nat → Except String Unit) :
    Except String UInt64 × Option (Pipeline GA GB) :=
  ((pipeline.socket.sendPreamble pipeline.alice.windowBytes args.transcriptMaxBytes sendTo).2.1,
    ReportPipeline.step pipeline (.sendPreamble args.transcriptMaxBytes sendTo))

/-- A connection is begun and its control stream opened. -/
def opened (driver : Driver) (now : Nat) (point : Point) (pipeline : Pipeline GA GB) : Option (Testbed GA GB) :=
  (ReportPipeline.step pipeline .connect).map fun pipeline' =>
    { driver := { driver.goto now point with conn := pipeline.links.length }, pipeline := pipeline' }

/-- The connection is up: the report receiver of its stream is spawned. -/
def connected (driver : Driver) (pipeline : Pipeline GA GB) : Option (Testbed GA GB) :=
  (ReportPipeline.step pipeline (.link driver.conn .spawnReceiver)).map fun pipeline => { driver, pipeline }

/-- One step of `run_alice`, from one await or reading of the clock to the next. `fail`
is an error that `?` passes on. -/
def runAlice (args : Args) (testbed : Testbed GA GB) (now timestamp : Nat) (outcome : Outcome) :
    Option (Testbed GA GB) :=
  let driver := testbed.driver
  let pipeline := testbed.pipeline
  let goto (point : Point) : Option (Testbed GA GB) := some { driver := driver.goto now point, pipeline }
  let row (event : Event) (epoch bytes : UInt64) (latency : Nat) (point : Point) : Option (Testbed GA GB) :=
    some { driver := driver.row now timestamp event epoch bytes latency point, pipeline }
  match driver.point, outcome with
  | .returned, _ => none
  | .failed, _ => none
  | _, .fail => goto .failed
  | .scenario, .go =>
      if now < args.duration then goto (.waitForReady now) else row .done driver.epoch 0 0 .returned
  | .waitForReady start, .ready content =>
      let fresh := content.filter fun cycle => driver.lastReadySeen < cycle
      -- A stale file is polled again until the time is up.
      if fresh.isNone ∧ now - start < args.reportTimeout then goto (.waitForReady start)
      else
        let cycle := driver.cycle + 1
        let point := if cycle = 1 then .connect now false else .embed now
        some { driver := { driver with
                clock := now, point, cycle, lastReadySeen := fresh.getD driver.lastReadySeen },
               pipeline }
  | .connect t0 false, .go => opened driver now (.connect t0 true) pipeline
  | .connect t0 true, .go => row .zeroRttAvailable 0 0 (now - t0) (.confirm t0)
  | .confirm t0, .accepted ok =>
      let event := if ok then .handshakeAccepted else .handshakeRejected
      connected (driver.row now timestamp event 0 0 (now - t0) (.beginPhase .online)) pipeline
  | .embed t0, .sendTo answer =>
      match sendWindow args pipeline answer with
      | (.error _, sent) => sent.map fun pipeline => { driver := driver.goto now .failed, pipeline }
      | (.ok bytes, sent) =>
          sent.map fun pipeline =>
            { driver := driver.row now timestamp .handshakeTranscriptEmbedded driver.epoch bytes
                (now - driver.clock) (.reconnect t0 now false),
              pipeline }
  | .reconnect t0 since false, .go => opened driver now (.reconnect t0 since true) pipeline
  | .reconnect t0 _ true, .accepted ok => row .zeroRttAvailable 0 0 (now - t0) (.reconfirm t0 ok)
  | .reconnect t0 since _, .timedOut =>
      if now < since + args.reportTimeout then none
      else row .reconnectAttemptTimedOut driver.epoch 0 (now - t0) .scenario
  | .reconnect t0 _ _, .refused => row .reconnectAttemptFailed driver.epoch 0 (now - t0) .scenario
  | .reconfirm t0 ok, .go =>
      let event := if ok then .reconnectHandshakeAccepted else .reconnectHandshakeRejected
      connected (driver.row now timestamp event 0 0 (now - t0) (.beginPhase .online)) pipeline
  | .beginPhase phase, .go => goto (.startTicker phase now (args.phaseLength now phase))
  | .startTicker phase start length, .go =>
      -- `interval` panics on a period of zero.
      if args.commitInterval = 0 then none
      else
        goto (.loopHead
          { phase, start, length, ticker := now, deadline := min args.duration (start + length) })
  | .loopHead loop, .go =>
      if now - loop.start < loop.length ∧ now < args.duration then goto (.select loop)
      else goto (.leave loop.phase)
  | .select loop, .tick missed =>
      if now < loop.ticker then none
      else
        let ticker := if missed then now + args.commitInterval else loop.ticker + args.commitInterval
        goto (.recheck { loop with ticker })
  | .select loop, .deadline => if now < loop.deadline then none else goto (.leave loop.phase)
  | .recheck loop, .go =>
      if loop.length ≤ now - loop.start ∨ args.duration ≤ now then goto (.leave loop.phase)
      else goto (.commit loop)
  | .commit loop, .go =>
      let point := match loop.phase with
        | .online => .send loop (now - driver.clock)
        | .blackout => .logOffline loop
      (ReportPipeline.step pipeline .createCommit).map fun pipeline =>
        { driver := { driver with clock := now, point, epoch := driver.epoch + 1 }, pipeline }
  | .send loop cpu, .sendTo answer =>
      match sendWindow args pipeline answer with
      | (.error _, sent) => sent.map fun pipeline => { driver := driver.goto now .failed, pipeline }
      | (.ok bytes, sent) =>
          sent.map fun pipeline =>
            { driver := driver.goto now (.logCpu loop cpu (now - driver.clock) bytes), pipeline }
  | .logCpu loop cpu net bytes, .go => row .commitCpu driver.epoch 0 cpu (.logNet loop net bytes)
  | .logNet loop net bytes, .go => row .commitNet driver.epoch bytes net (.loopHead loop)
  | .logOffline loop, .go => row .commitOffline driver.epoch 0 0 (.loopHead loop)
  | .leave .online, .go =>
      -- The connection is closed and its report receiver aborted.
      (ReportPipeline.step pipeline (.link driver.conn .abortReceiver)).map fun pipeline =>
        if args.blackoutOff = 0 ∨ args.duration ≤ now then
          { driver := driver.row now timestamp .done driver.epoch 0 0 .returned, pipeline }
        else
          { driver := driver.row now timestamp .blackoutStart driver.epoch 0 0 (.beginPhase .blackout),
            pipeline }
  | .leave .blackout, .go => row .blackoutEnd driver.epoch 0 0 .scenario
  | _, _ => none

inductive Action where
  | alice (now timestamp : Nat) (outcome : Outcome)
  | other (action : ReportPipeline.Action)

/-- The calls that only the driver makes. -/
def isDrivers : ReportPipeline.Action → Bool
  | .createCommit => true
  | .sendPreamble _ _ => true
  | .connect => true
  | .link _ .spawnReceiver => true
  | .link _ .abortReceiver => true
  | _ => false

/-- Beside the driver run the network, the other party and the report tasks. -/
def step (args : Args) (testbed : Testbed GA GB) : Action → Option (Testbed GA GB)
  | .alice now timestamp outcome =>
      if now < testbed.driver.clock then none else runAlice args testbed now timestamp outcome
  | .other action =>
      if isDrivers action then none
      else (ReportPipeline.step testbed.pipeline action).map fun pipeline => { testbed with pipeline }

end Step

end QuicMls.AliceDriver
