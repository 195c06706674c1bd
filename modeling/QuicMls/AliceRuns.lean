import QuicMls.ReportDelivery
import QuicMls.AliceDriver

/-! Runs of the sender's driver. -/
namespace QuicMls.AliceRuns
open BigEndian Groups Preamble Telemetry AliceDriver
open ReportPipeline hiding step Action honest steady

/-! ### Everything a step can do -/

/-- Moves that write no row. -/
inductive Silent (args : Args) (now : Nat) : Point → Point → Prop
  | fail (point : Point) : Silent args now point .failed
  | begin : Silent args now .scenario (.waitForReady now)
  | poll (start : Nat) : Silent args now (.waitForReady start) (.waitForReady start)
  | phase (phase : Phase) :
      Silent args now (.beginPhase phase) (.startTicker phase now (args.phaseLength now phase))
  | ticker (phase : Phase) (start length : Nat) (positive : 0 < args.commitInterval) :
      Silent args now (.startTicker phase start length)
        (.loopHead { phase, start, length, ticker := now, deadline := min args.duration (start + length) })
  | enter (loop : Loop) : Silent args now (.loopHead loop) (.select loop)
  | expired (loop : Loop) : Silent args now (.loopHead loop) (.leave loop.phase)
  | tick (loop : Loop) (ticker : Nat) (due : loop.ticker ≤ now)
      (later : loop.ticker + args.commitInterval ≤ ticker) :
      Silent args now (.select loop) (.recheck { loop with ticker })
  | deadline (loop : Loop) : Silent args now (.select loop) (.leave loop.phase)
  | checked (loop : Loop) (within : now - loop.start < loop.length) :
      Silent args now (.recheck loop) (.commit loop)
  | late (loop : Loop) : Silent args now (.recheck loop) (.leave loop.phase)

/-- Moves that write a row and touch nothing else: the event, and the epoch and bytes of
the row. -/
inductive Logs (epoch : UInt64) : Point → Event → UInt64 → UInt64 → Point → Prop
  | done : Logs epoch .scenario .done epoch 0 .returned
  | available (t0 : Nat) : Logs epoch (.connect t0 true) .zeroRttAvailable 0 0 (.confirm t0)
  | availableAgain (t0 since : Nat) (ok : Bool) :
      Logs epoch (.reconnect t0 since true) .zeroRttAvailable 0 0 (.reconfirm t0 ok)
  | timedOut (t0 since : Nat) (opened : Bool) :
      Logs epoch (.reconnect t0 since opened) .reconnectAttemptTimedOut epoch 0 .scenario
  | refused (t0 since : Nat) (opened : Bool) :
      Logs epoch (.reconnect t0 since opened) .reconnectAttemptFailed epoch 0 .scenario
  | cpu (loop : Loop) (cpu net : Nat) (bytes : UInt64) :
      Logs epoch (.logCpu loop cpu net bytes) .commitCpu epoch 0 (.logNet loop net bytes)
  | net (loop : Loop) (net : Nat) (bytes : UInt64) :
      Logs epoch (.logNet loop net bytes) .commitNet epoch bytes (.loopHead loop)
  | offline (loop : Loop) : Logs epoch (.logOffline loop) .commitOffline epoch 0 (.loopHead loop)
  | blackoutEnd : Logs epoch (.leave .blackout) .blackoutEnd epoch 0 .scenario

/-- Moves that begin a connection. -/
inductive Opens : Point → Point → Prop
  | first (t0 : Nat) : Opens (.connect t0 false) (.connect t0 true)
  | again (t0 since : Nat) : Opens (.reconnect t0 since false) (.reconnect t0 since true)

/-- The handshake rows behind which the driver is connected. -/
inductive Confirms : Point → Event → Prop
  | accepted (t0 : Nat) : Confirms (.confirm t0) .handshakeAccepted
  | rejected (t0 : Nat) : Confirms (.confirm t0) .handshakeRejected
  | acceptedAgain (t0 : Nat) : Confirms (.reconfirm t0 true) .reconnectHandshakeAccepted
  | rejectedAgain (t0 : Nat) : Confirms (.reconfirm t0 false) .reconnectHandshakeRejected

def Loop.committed (loop : Loop) (cpu : Nat) : Point :=
  match loop.phase with
  | .online => .send loop cpu
  | .blackout => .logOffline loop

section Moved
variable {GA GB EA EB : Type} [ExportSecret GA EA] [ExportSecret GB EB]

inductive Moved (args : Args) (now timestamp : Nat) (driver : Driver) (pipeline : Pipeline GA GB) :
    Driver → Pipeline GA GB → Prop
  | silent {point : Point} (moves : Silent args now driver.point point) :
      Moved args now timestamp driver pipeline (driver.goto now point) pipeline
  | logged {event : Event} {epoch bytes : UInt64} {point : Point} (latency : Nat)
      (logs : Logs driver.epoch driver.point event epoch bytes point) :
      Moved args now timestamp driver pipeline
        (driver.row now timestamp event epoch bytes latency point) pipeline
  | contact {start : Nat} (waits : driver.point = .waitForReady start) (lastReadySeen : UInt64) :
      Moved args now timestamp driver pipeline
        { driver with
          clock := now, point := if driver.cycle + 1 = 1 then .connect now false else .embed now,
          cycle := driver.cycle + 1, lastReadySeen }
        pipeline
  | opened {point : Point} {after : Pipeline GA GB} (opens : Opens driver.point point)
      (taken : ReportPipeline.step pipeline .connect = some after) :
      Moved args now timestamp driver pipeline
        { driver.goto now point with conn := pipeline.links.length } after
  | connected {event : Event} {after : Pipeline GA GB} (latency : Nat) (confirms : Confirms driver.point event)
      (taken : ReportPipeline.step pipeline (.link driver.conn .spawnReceiver) = some after) :
      Moved args now timestamp driver pipeline
        (driver.row now timestamp event 0 0 latency (.beginPhase .online)) after
  | sendFailed {answer : Nat → Except String Unit} {e : String} {after : Pipeline GA GB}
      (sent : sendWindow args pipeline answer = (.error e, some after)) :
      Moved args now timestamp driver pipeline (driver.goto now .failed) after
  | embedded {t0 : Nat} {answer : Nat → Except String Unit} {bytes : UInt64} {after : Pipeline GA GB}
      (embeds : driver.point = .embed t0) (sent : sendWindow args pipeline answer = (.ok bytes, some after)) :
      Moved args now timestamp driver pipeline
        (driver.row now timestamp .handshakeTranscriptEmbedded driver.epoch bytes (now - driver.clock)
          (.reconnect t0 now false))
        after
  | committed {loop : Loop} {after : Pipeline GA GB} (commits : driver.point = .commit loop)
      (taken : ReportPipeline.step pipeline .createCommit = some after) :
      Moved args now timestamp driver pipeline
        { driver with
          clock := now, point := Loop.committed loop (now - driver.clock), epoch := driver.epoch + 1 }
        after
  | sent {loop : Loop} {cpu : Nat} {answer : Nat → Except String Unit} {bytes : UInt64} {after : Pipeline GA GB}
      (sends : driver.point = .send loop cpu)
      (sent : sendWindow args pipeline answer = (.ok bytes, some after)) :
      Moved args now timestamp driver pipeline
        (driver.goto now (.logCpu loop cpu (now - driver.clock) bytes)) after
  | quit {after : Pipeline GA GB} (leaves : driver.point = .leave .online)
      (taken : ReportPipeline.step pipeline (.link driver.conn .abortReceiver) = some after) :
      Moved args now timestamp driver pipeline
        (driver.row now timestamp .done driver.epoch 0 0 .returned) after
  | dark {after : Pipeline GA GB} (leaves : driver.point = .leave .online)
      (taken : ReportPipeline.step pipeline (.link driver.conn .abortReceiver) = some after) :
      Moved args now timestamp driver pipeline
        (driver.row now timestamp .blackoutStart driver.epoch 0 0 (.beginPhase .blackout)) after

/-- Every step reads the clock. -/
theorem moved_clock {args : Args} {now timestamp : Nat} {driver driver' : Driver}
    {pipeline pipeline' : Pipeline GA GB}
    (moved : Moved args now timestamp driver pipeline driver' pipeline') : driver'.clock = now := by
  cases moved <;> rfl

/-- A failure is the same at every point. -/
theorem runAlice_fail {args : Args} {testbed after : Testbed GA GB} {now timestamp : Nat}
    (taken : runAlice args testbed now timestamp .fail = some after) :
    after = { testbed with driver := testbed.driver.goto now .failed } := by
  cases point : testbed.driver.point <;> simp [runAlice, point] at taken <;> exact taken.symm

theorem moved_of_runAlice {args : Args} {testbed after : Testbed GA GB} {now timestamp : Nat}
    {outcome : Outcome} (taken : runAlice args testbed now timestamp outcome = some after) :
    Moved args now timestamp testbed.driver testbed.pipeline after.driver after.pipeline := by
  by_cases fails : outcome = .fail
  · subst fails
    obtain rfl := runAlice_fail taken
    exact .silent (.fail _)
  cases point : testbed.driver.point with
  | returned => simp [runAlice, point] at taken
  | failed => simp [runAlice, point] at taken
  | scenario =>
      cases outcome with
      | go =>
          simp only [runAlice, point] at taken
          split at taken
          · obtain rfl := Option.some.inj taken
            exact .silent (point ▸ .begin)
          · obtain rfl := Option.some.inj taken
            exact .logged 0 (point ▸ .done)
      | fail => exact absurd rfl fails
      | _ => simp [runAlice, point] at taken
  | waitForReady start =>
      cases outcome with
      | ready content =>
          simp only [runAlice, point] at taken
          split at taken
          · obtain rfl := Option.some.inj taken
            exact .silent (by rw [point]; exact .poll start)
          · obtain rfl := Option.some.inj taken
            exact .contact point _
      | fail => exact absurd rfl fails
      | _ => simp [runAlice, point] at taken
  | connect t0 begun =>
      cases outcome with
      | go =>
          cases begun with
          | false =>
              simp only [runAlice, point, opened, Option.map_eq_some_iff] at taken
              obtain ⟨pipeline, begins, rfl⟩ := taken
              exact .opened (point ▸ .first t0) begins
          | true =>
              simp only [runAlice, point, Option.some.injEq] at taken
              obtain rfl := taken
              exact .logged (now - t0) (point ▸ .available t0)
      | fail => exact absurd rfl fails
      | _ => simp [runAlice, point] at taken
  | confirm t0 =>
      cases outcome with
      | accepted ok =>
          simp only [runAlice, point, connected, Option.map_eq_some_iff] at taken
          obtain ⟨pipeline, spawned, rfl⟩ := taken
          cases ok with
          | true => exact .connected (now - t0) (point ▸ .accepted t0) spawned
          | false => exact .connected (now - t0) (point ▸ .rejected t0) spawned
      | fail => exact absurd rfl fails
      | _ => simp [runAlice, point] at taken
  | embed t0 =>
      cases outcome with
      | sendTo answer =>
          simp only [runAlice, point] at taken
          rcases sent : sendWindow args testbed.pipeline answer with ⟨result, pipeline⟩
          cases result with
          | error e =>
              simp only [sent, Option.map_eq_some_iff] at taken
              obtain ⟨pipeline, rfl, rfl⟩ := taken
              exact .sendFailed sent
          | ok bytes =>
              simp only [sent, Option.map_eq_some_iff] at taken
              obtain ⟨pipeline, rfl, rfl⟩ := taken
              exact .embedded point sent
      | fail => exact absurd rfl fails
      | _ => simp [runAlice, point] at taken
  | reconnect t0 since begun =>
      cases outcome with
      | go =>
          cases begun with
          | false =>
              simp only [runAlice, point, opened, Option.map_eq_some_iff] at taken
              obtain ⟨pipeline, begins, rfl⟩ := taken
              exact .opened (point ▸ .again t0 since) begins
          | true => simp [runAlice, point] at taken
      | accepted ok =>
          cases begun with
          | false => simp [runAlice, point] at taken
          | true =>
              simp only [runAlice, point, Option.some.injEq] at taken
              obtain rfl := taken
              exact .logged (now - t0) (point ▸ .availableAgain t0 since ok)
      | timedOut =>
          simp only [runAlice, point] at taken
          split at taken
          · cases taken
          · obtain rfl := Option.some.inj taken
            exact .logged (now - t0) (point ▸ .timedOut t0 since begun)
      | refused =>
          simp only [runAlice, point, Option.some.injEq] at taken
          obtain rfl := taken
          exact .logged (now - t0) (point ▸ .refused t0 since begun)
      | fail => exact absurd rfl fails
      | _ => simp [runAlice, point] at taken
  | reconfirm t0 ok =>
      cases outcome with
      | go =>
          simp only [runAlice, point, connected, Option.map_eq_some_iff] at taken
          obtain ⟨pipeline, spawned, rfl⟩ := taken
          cases ok with
          | true => exact .connected (now - t0) (point ▸ .acceptedAgain t0) spawned
          | false => exact .connected (now - t0) (point ▸ .rejectedAgain t0) spawned
      | fail => exact absurd rfl fails
      | _ => simp [runAlice, point] at taken
  | beginPhase phase =>
      cases outcome with
      | go =>
          simp only [runAlice, point, Option.some.injEq] at taken
          obtain rfl := taken
          exact .silent (point ▸ .phase phase)
      | fail => exact absurd rfl fails
      | _ => simp [runAlice, point] at taken
  | startTicker phase start length =>
      cases outcome with
      | go =>
          simp only [runAlice, point] at taken
          split at taken
          · cases taken
          · rename_i positive
            obtain rfl := Option.some.inj taken
            exact .silent (point ▸ .ticker phase start length (Nat.pos_of_ne_zero positive))
      | fail => exact absurd rfl fails
      | _ => simp [runAlice, point] at taken
  | loopHead loop =>
      cases outcome with
      | go =>
          simp only [runAlice, point] at taken
          split at taken
          · obtain rfl := Option.some.inj taken
            exact .silent (point ▸ .enter loop)
          · obtain rfl := Option.some.inj taken
            exact .silent (point ▸ .expired loop)
      | fail => exact absurd rfl fails
      | _ => simp [runAlice, point] at taken
  | select loop =>
      cases outcome with
      | tick missed =>
          simp only [runAlice, point] at taken
          split at taken
          · cases taken
          · rename_i due
            obtain rfl := Option.some.inj taken
            exact .silent (point ▸ .tick loop _ (Nat.le_of_not_lt due) (by split <;> omega))
      | deadline =>
          simp only [runAlice, point] at taken
          split at taken
          · cases taken
          · obtain rfl := Option.some.inj taken
            exact .silent (point ▸ .deadline loop)
      | fail => exact absurd rfl fails
      | _ => simp [runAlice, point] at taken
  | recheck loop =>
      cases outcome with
      | go =>
          simp only [runAlice, point] at taken
          split at taken
          · obtain rfl := Option.some.inj taken
            exact .silent (point ▸ .late loop)
          · rename_i within
            obtain rfl := Option.some.inj taken
            exact .silent (point ▸ .checked loop (by omega))
      | fail => exact absurd rfl fails
      | _ => simp [runAlice, point] at taken
  | commit loop =>
      cases outcome with
      | go =>
          simp only [runAlice, point, Option.map_eq_some_iff] at taken
          obtain ⟨pipeline, made, rfl⟩ := taken
          exact .committed point made
      | fail => exact absurd rfl fails
      | _ => simp [runAlice, point] at taken
  | send loop cpu =>
      cases outcome with
      | sendTo answer =>
          simp only [runAlice, point] at taken
          rcases sent : sendWindow args testbed.pipeline answer with ⟨result, pipeline⟩
          cases result with
          | error e =>
              simp only [sent, Option.map_eq_some_iff] at taken
              obtain ⟨pipeline, rfl, rfl⟩ := taken
              exact .sendFailed sent
          | ok bytes =>
              simp only [sent, Option.map_eq_some_iff] at taken
              obtain ⟨pipeline, rfl, rfl⟩ := taken
              exact .sent point sent
      | fail => exact absurd rfl fails
      | _ => simp [runAlice, point] at taken
  | logCpu loop cpu net bytes =>
      cases outcome with
      | go =>
          simp only [runAlice, point, Option.some.injEq] at taken
          obtain rfl := taken
          exact .logged cpu (point ▸ .cpu loop cpu net bytes)
      | fail => exact absurd rfl fails
      | _ => simp [runAlice, point] at taken
  | logNet loop net bytes =>
      cases outcome with
      | go =>
          simp only [runAlice, point, Option.some.injEq] at taken
          obtain rfl := taken
          exact .logged net (point ▸ .net loop net bytes)
      | fail => exact absurd rfl fails
      | _ => simp [runAlice, point] at taken
  | logOffline loop =>
      cases outcome with
      | go =>
          simp only [runAlice, point, Option.some.injEq] at taken
          obtain rfl := taken
          exact .logged 0 (point ▸ .offline loop)
      | fail => exact absurd rfl fails
      | _ => simp [runAlice, point] at taken
  | leave phase =>
      cases phase with
      | online =>
          cases outcome with
          | go =>
              simp only [runAlice, point, Option.map_eq_some_iff] at taken
              obtain ⟨pipeline, aborted, rfl⟩ := taken
              split
              · exact .quit point aborted
              · exact .dark point aborted
          | fail => exact absurd rfl fails
          | _ => simp [runAlice, point] at taken
      | blackout =>
          cases outcome with
          | go =>
              simp only [runAlice, point, Option.some.injEq] at taken
              obtain rfl := taken
              exact .logged 0 (point ▸ .blackoutEnd)
          | fail => exact absurd rfl fails
          | _ => simp [runAlice, point] at taken

end Moved

/-! ### What runs beside the driver -/

section Beside
variable {GA GB EA EB : Type} [ExportSecret GA EA] [ExportSecret GB EB]

theorem link_currentEpoch {epochTx : Watch.Channel UInt64} {log after : CommitLog GA} {link next : Link}
    {event : LinkEvent} (moved : Link.Moved epochTx log link event after next) :
    after.currentEpoch = log.currentEpoch := by
  cases moved with
  | @handled message unread spawned read => cases message <;> rfl
  | _ => rfl

/-- The socket and what it sent, and how many commits were made, are the driver's. -/
structure Untouched (before after : Pipeline GA GB) : Prop where
  epoch : after.alice.currentEpoch = before.alice.currentEpoch
  socket : after.socket = before.socket
  datagrams : after.datagrams = before.datagrams

variable {before after : Pipeline GA GB}

theorem untouched_of_link {index : Nat} {event : LinkEvent}
    (taken : ReportPipeline.step before (.link index event) = some after) : Untouched before after := by
  cases Pipeline.moved_of_step taken with
  | linked found moved => exact ⟨link_currentEpoch moved, rfl, rfl⟩

theorem untouched_of_step {action : ReportPipeline.Action} (other : isDrivers action = false)
    (taken : ReportPipeline.step before action = some after) : Untouched before after := by
  cases Pipeline.moved_of_step taken with
  | created made room => cases other
  | sent totalBudget sendTo => cases other
  | connected => cases other
  | linked found moved => exact ⟨link_currentEpoch moved, rfl, rfl⟩
  | _ => exact ⟨rfl, rfl, rfl⟩

theorem untouched_of_connect (taken : ReportPipeline.step before .connect = some after) :
    Untouched before after := by
  cases Pipeline.moved_of_step taken with
  | connected => exact ⟨rfl, rfl, rfl⟩

/-- A commit counts, and sends nothing. -/
theorem createCommit_counts (taken : ReportPipeline.step before .createCommit = some after) :
    after.alice.currentEpoch = before.alice.currentEpoch + 1 ∧ after.socket = before.socket ∧
      after.datagrams = before.datagrams := by
  cases Pipeline.moved_of_step taken with
  | created made room => exact ⟨by rw [(CommitLog.createCommit_ok made).2], rfl, rfl⟩

end Beside

/-! ### The driver's view of the log -/

section Runs
variable {GA GB EA EB : Type} [ExportSecret GA EA] [ExportSecret GB EB] {args : Args}
  {before after : Testbed GA GB}

/-- A step of the driver, or one of everything else that leaves her alone. -/
theorem step_cases {action : AliceDriver.Action} (taken : step args before action = some after) :
    (∃ now timestamp outcome, action = .alice now timestamp outcome ∧ before.driver.clock ≤ now ∧
      Moved args now timestamp before.driver before.pipeline after.driver after.pipeline) ∨
    ∃ inner, action = .other inner ∧ after.driver = before.driver ∧
      ReportPipeline.step before.pipeline inner = some after.pipeline ∧
      Untouched before.pipeline after.pipeline := by
  cases action with
  | alice now timestamp outcome =>
      simp only [step] at taken
      split at taken
      · cases taken
      · exact Or.inl ⟨now, timestamp, outcome, rfl, by omega, moved_of_runAlice taken⟩
  | other inner =>
      simp only [step] at taken
      split at taken
      · cases taken
      · rename_i theirs
        obtain ⟨pipeline, moved, rfl⟩ := Option.map_eq_some_iff.mp taken
        exact Or.inr ⟨inner, rfl, rfl, moved, untouched_of_step (Bool.eq_false_iff.mpr theirs) moved⟩

def honest : AliceDriver.Action → Prop
  | .alice _ _ _ => True
  | .other action => ReportPipeline.honest action

def steady : AliceDriver.Action → Prop
  | .alice _ _ _ => True
  | .other action => ReportPipeline.steady action

theorem sendWindow_step {pipeline next : Pipeline GA GB} {answer : Nat → Except String Unit}
    {result : Except String UInt64} (sent : sendWindow args pipeline answer = (result, some next)) :
    ReportPipeline.step pipeline (.sendPreamble args.transcriptMaxBytes answer) = some next :=
  congrArg Prod.snd sent

/-- The driver does at most one thing to the pipeline in a step, and none that an honest
one would not. -/
theorem moved_pipeline {now timestamp : Nat} {driver driver' : Driver} {pipeline pipeline' : Pipeline GA GB}
    (moved : Moved args now timestamp driver pipeline driver' pipeline') :
    pipeline' = pipeline ∨ ∃ action, ReportPipeline.step pipeline action = some pipeline' ∧
      isDrivers action = true ∧ ReportPipeline.honest action ∧ ReportPipeline.steady action := by
  cases moved with
  | silent moves => exact Or.inl rfl
  | logged latency logs => exact Or.inl rfl
  | contact waits lastReadySeen => exact Or.inl rfl
  | opened opens taken => exact Or.inr ⟨_, taken, rfl, trivial, trivial⟩
  | connected latency confirms taken => exact Or.inr ⟨_, taken, rfl, trivial, trivial⟩
  | sendFailed sent => exact Or.inr ⟨_, sendWindow_step sent, rfl, trivial, trivial⟩
  | embedded embeds sent => exact Or.inr ⟨_, sendWindow_step sent, rfl, trivial, trivial⟩
  | committed commits taken => exact Or.inr ⟨_, taken, rfl, trivial, trivial⟩
  | sent sends sent => exact Or.inr ⟨_, sendWindow_step sent, rfl, trivial, trivial⟩
  | quit leaves taken => exact Or.inr ⟨_, taken, rfl, trivial, trivial⟩
  | dark leaves taken => exact Or.inr ⟨_, taken, rfl, trivial, trivial⟩

variable {groupA : GA} {groupB : GB} {final : Testbed GA GB}

/-- Without the driver, a run of the testbed is a run of the pipeline. -/
theorem pipeline_run {Honest Steady : Prop}
    (run : Machine.Reachable (step args)
      (fun _ action => (Honest → honest action) ∧ (Steady → steady action)) (Testbed.start groupA groupB)
      final) :
    Machine.Reachable ReportPipeline.step (ReportRefinement.Allowed Honest Steady)
      (initial groupA groupB) final.pipeline := by
  induction run with
  | start => exact .start
  | next action _ permitted taken ih =>
      rcases step_cases taken with ⟨_, _, _, rfl, _, moved⟩ | ⟨inner, rfl, _, moved, _⟩
      · rcases moved_pipeline moved with same | ⟨inner, moved, -, fair, steady⟩
        · rw [same]
          exact ih
        · exact ih.next inner ⟨fun _ => fair, fun _ => steady⟩ moved
      · exact ih.next inner permitted moved

/-- The driver's epoch is the log's. -/
theorem epoch_mirrored {allowed : Testbed GA GB → AliceDriver.Action → Prop}
    (run : Machine.Reachable (step args) allowed (Testbed.start groupA groupB) final) :
    final.driver.epoch = final.pipeline.alice.currentEpoch := by
  refine @Machine.Reachable.invariant _ _ _ _ _ _
    (fun testbed => testbed.driver.epoch = testbed.pipeline.alice.currentEpoch) run rfl
    fun before action after mirrored _ taken => ?_
  rcases step_cases taken with ⟨now, timestamp, outcome, rfl, _, moved⟩ | ⟨inner, rfl, same, _, untouched⟩
  · cases before
    cases after
    cases moved with
    | silent moves => exact mirrored
    | logged latency logs => exact mirrored
    | contact waits lastReadySeen => exact mirrored
    | opened opens taken => exact mirrored.trans (untouched_of_connect taken).epoch.symm
    | connected latency confirms taken => exact mirrored.trans (untouched_of_link taken).epoch.symm
    | sendFailed sent =>
        obtain rfl := Option.some.inj (sendWindow_step sent)
        exact mirrored
    | embedded embeds sent =>
        obtain rfl := Option.some.inj (sendWindow_step sent)
        exact mirrored
    | committed commits taken =>
        refine Eq.trans ?_ (createCommit_counts taken).1.symm
        exact congrArg (· + 1) mirrored
    | sent sends sent =>
        obtain rfl := Option.some.inj (sendWindow_step sent)
        exact mirrored
    | quit leaves taken => exact mirrored.trans (untouched_of_link taken).epoch.symm
    | dark leaves taken => exact mirrored.trans (untouched_of_link taken).epoch.symm
  · rw [same, untouched.epoch, mirrored]

end Runs

end QuicMls.AliceRuns
