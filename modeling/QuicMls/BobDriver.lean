import QuicMls.AliceRuns

/-! `run_bob`, the receiving side of the measurement harness: it offers contact, cycle
after cycle, reports on the control stream of each connection until that is closed, and
logs what it confirmed. -/
namespace QuicMls.BobDriver
open BigEndian Groups AliceDriver
open ReportPipeline hiding step Action honest steady

/-! ### The log -/

inductive Event where
  | zeroRttAvailable
  | controlStream0rtt
  | controlStream1rtt
  | handshakeConfirmed
  | reconnectHandshakeConfirmed
  | done
  deriving DecidableEq

def Event.name : Event → String
  | .zeroRttAvailable => "zero_rtt_available"
  | .controlStream0rtt => "control_stream_0rtt"
  | .controlStream1rtt => "control_stream_1rtt"
  | .handshakeConfirmed => "handshake_confirmed"
  | .reconnectHandshakeConfirmed => "reconnect_handshake_confirmed"
  | .done => "done"

/-- The receiver sends no windows: the bytes of his rows are all zero. -/
structure Row where
  timestamp : Nat
  event : Event
  epoch : UInt64
  latency : Nat
  deriving DecidableEq

/-! ### The driver -/

/-- `MlsServerConfig` gives its group away to the first session. -/
inductive ServerConfig where
  | holds
  | taken
  deriving DecidableEq

/-- `start_session`: taking the group twice is a panic (`none`). -/
def ServerConfig.startSession : ServerConfig → Option ServerConfig
  | .holds => some .taken
  | .taken => none

inductive Point where
  | scenario
  | accept (t0 deadline : Nat)
  | acceptBi (t0 since : Nat)
  | logAvailable (t0 conn : Nat) (is0rtt : Bool)
  | logStream (t0 conn : Nat) (is0rtt : Bool)
  | confirm (t0 conn : Nat)
  | spawn (conn : Nat)
  | closed (conn : Nat)
  | finish
  | returned
  | failed
  | noKeys
  | singleUse
  deriving DecidableEq

/-- What the driver waits for at a point turns out so. -/
inductive Outcome where
  | go
  | incoming (keys : Bool)
  | stream (conn : Nat) (is0rtt : Bool)
  | timedOut
  | none
  | fail

/-- `ready` is the text of `bob_ready.bin`, once there is one. -/
structure Driver where
  clock : Nat
  point : Point
  cycle : UInt64
  serverConfig : ServerConfig
  ready : Option (List Char)
  rows : List Row

def Driver.start : Driver :=
  { clock := 0, point := .scenario, cycle := 0, serverConfig := .holds, ready := none, rows := [] }

def Driver.goto (driver : Driver) (now : Nat) (point : Point) : Driver := { driver with clock := now, point }

def Driver.row (driver : Driver) (now timestamp : Nat) (event : Event) (epoch : UInt64) (latency : Nat)
    (point : Point) : Driver :=
  { driver with clock := now, point, rows := driver.rows ++ [{ timestamp, event, epoch, latency }] }

/-- Thirty seconds. -/
def grace : Nat := 30000000000

section Step
variable {GA GB EA EB : Type} [ExportSecret GA EA] [ExportSecret GB EB]

/-- Connections whose control stream has not been taken up. -/
def offered (pipeline : Pipeline GA GB) (conn : Nat) : Bool :=
  match pipeline.links[conn]? with
  | some link => !link.sending
  | none => false

/-- One step of `run_bob`, from one await or reading of the clock to the next. `fail` is
an error that `?` passes on, or a ready file that cannot be written. -/
def runBob (args : Args) (driver : Driver) (pipeline : Pipeline GA GB) (now timestamp : Nat)
    (outcome : Outcome) : Option (Driver × Pipeline GA GB) :=
  let goto (point : Point) : Option (Driver × Pipeline GA GB) := some (driver.goto now point, pipeline)
  let row (event : Event) (epoch : UInt64) (latency : Nat) (point : Point) :
      Option (Driver × Pipeline GA GB) :=
    some (driver.row now timestamp event epoch latency point, pipeline)
  match driver.point, outcome with
  | .returned, _ => none
  | .failed, _ => none
  | .noKeys, _ => none
  | .singleUse, _ => none
  | _, .fail => goto .failed
  | .scenario, .go =>
      if now < args.duration then
        let cycle := driver.cycle + 1
        let serverConfig := if 1 < cycle then .holds else driver.serverConfig
        let remaining := args.duration - now
        some ({ driver with
                clock := now, point := .accept now (now + (remaining + grace)), cycle, serverConfig,
                ready := some (Nat.toDigits 10 cycle.toNat) },
              pipeline)
      else goto .finish
  | .accept t0 _, .incoming keys =>
      match driver.serverConfig.startSession with
      | none => goto .singleUse
      | some serverConfig =>
          let point := if keys then .acceptBi t0 now else .noKeys
          some ({ driver with clock := now, point, serverConfig }, pipeline)
  | .accept _ deadline, .timedOut => if now < deadline then none else goto .finish
  | .accept _ _, .none => goto .finish
  | .acceptBi t0 _, .stream conn is0rtt =>
      if offered pipeline conn then goto (.logAvailable t0 conn is0rtt) else none
  -- The connection is stale: it is closed, and the next cycle begins.
  | .acceptBi _ since, .timedOut => if now < since + args.reportTimeout then none else goto .scenario
  | .acceptBi _ _, .none => goto .scenario
  | .logAvailable t0 conn is0rtt, .go => row .zeroRttAvailable 0 (now - t0) (.logStream t0 conn is0rtt)
  | .logStream t0 conn is0rtt, .go =>
      row (if is0rtt then .controlStream0rtt else .controlStream1rtt) 0 0 (.confirm t0 conn)
  | .confirm t0 conn, .go =>
      let event := if driver.cycle = 1 then .handshakeConfirmed else .reconnectHandshakeConfirmed
      row event pipeline.bob.localEpoch (now - t0) (.spawn conn)
  | .spawn conn, .go =>
      (ReportPipeline.step pipeline (.link conn .spawnSender)).map fun pipeline =>
        (driver.goto now (.closed conn), pipeline)
  | .closed conn, .go =>
      let point := if args.blackoutOff = 0 then .finish else .scenario
      (ReportPipeline.step pipeline (.link conn (.sender .abort))).map fun pipeline =>
        (driver.goto now point, pipeline)
  | .finish, .go =>
      (ReportPipeline.step pipeline .dropEpochTx).map fun pipeline =>
        (driver.row now timestamp .done 0 0 .returned, pipeline)
  | _, _ => none

end Step

end QuicMls.BobDriver
