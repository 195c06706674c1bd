import QuicMls.BobDriver

/-! What the receiver's driver can do in a step, and the language of its log. -/
namespace QuicMls.BobRuns
open BigEndian Groups BobDriver
open AliceDriver (Args)
open ReportPipeline hiding step Action honest steady

/-! ### Everything a step can do -/

/-- Moves that write no row. -/
inductive Silent {GA GB : Type} (pipeline : Pipeline GA GB) : Point → Point → Prop
  | fail (point : Point) : Silent pipeline point .failed
  | expired : Silent pipeline .scenario .finish
  | alone (t0 deadline : Nat) : Silent pipeline (.accept t0 deadline) .finish
  | stale (t0 since : Nat) : Silent pipeline (.acceptBi t0 since) .scenario
  | stream (t0 since conn : Nat) (is0rtt : Bool) (fresh : offered pipeline conn = true) :
      Silent pipeline (.acceptBi t0 since) (.logAvailable t0 conn is0rtt)

/-- Moves that write a row: the event and the epoch of the row. -/
inductive Logs (cycle localEpoch : UInt64) : Point → Event → UInt64 → Point → Prop
  | available (t0 conn : Nat) (is0rtt : Bool) :
      Logs cycle localEpoch (.logAvailable t0 conn is0rtt) .zeroRttAvailable 0 (.logStream t0 conn is0rtt)
  | early (t0 conn : Nat) :
      Logs cycle localEpoch (.logStream t0 conn true) .controlStream0rtt 0 (.confirm t0 conn)
  | late (t0 conn : Nat) :
      Logs cycle localEpoch (.logStream t0 conn false) .controlStream1rtt 0 (.confirm t0 conn)
  | first (t0 conn : Nat) (once : cycle = 1) :
      Logs cycle localEpoch (.confirm t0 conn) .handshakeConfirmed localEpoch (.spawn conn)
  | again (t0 conn : Nat) :
      Logs cycle localEpoch (.confirm t0 conn) .reconnectHandshakeConfirmed localEpoch (.spawn conn)

section Moved
variable {GA GB EA EB : Type} [ExportSecret GA EA] [ExportSecret GB EB]

/-- The next cycle: a new configuration, but for the first. -/
def contacted (args : Args) (driver : Driver) (now : Nat) : Driver :=
  { driver with
    clock := now, point := .accept now (now + (args.duration - now + grace)), cycle := driver.cycle + 1,
    serverConfig := if 1 < driver.cycle + 1 then .holds else driver.serverConfig,
    ready := some (Nat.toDigits 10 (driver.cycle + 1).toNat) }

inductive Moved (args : Args) (now timestamp : Nat) (driver : Driver) (pipeline : Pipeline GA GB) :
    Driver → Pipeline GA GB → Prop
  | silent {point : Point} (moves : Silent pipeline driver.point point) :
      Moved args now timestamp driver pipeline (driver.goto now point) pipeline
  | logged {event : Event} {epoch : UInt64} {point : Point} (latency : Nat)
      (logs : Logs driver.cycle pipeline.bob.localEpoch driver.point event epoch point) :
      Moved args now timestamp driver pipeline (driver.row now timestamp event epoch latency point) pipeline
  | contact (waits : driver.point = .scenario) :
      Moved args now timestamp driver pipeline (contacted args driver now) pipeline
  | incoming {t0 deadline : Nat} (keys : Bool) (waits : driver.point = .accept t0 deadline)
      (holds : driver.serverConfig = .holds) :
      Moved args now timestamp driver pipeline
        { driver with clock := now, point := if keys then .acceptBi t0 now else .noKeys, serverConfig := .taken }
        pipeline
  | reused {t0 deadline : Nat} (waits : driver.point = .accept t0 deadline)
      (spent : driver.serverConfig = .taken) :
      Moved args now timestamp driver pipeline (driver.goto now .singleUse) pipeline
  | spawned {conn : Nat} {after : Pipeline GA GB} (waits : driver.point = .spawn conn)
      (taken : ReportPipeline.step pipeline (.link conn .spawnSender) = some after) :
      Moved args now timestamp driver pipeline (driver.goto now (.closed conn)) after
  | aborted {conn : Nat} {point : Point} {after : Pipeline GA GB} (waits : driver.point = .closed conn)
      (leaves : point = .finish ∨ point = .scenario)
      (taken : ReportPipeline.step pipeline (.link conn (.sender .abort)) = some after) :
      Moved args now timestamp driver pipeline (driver.goto now point) after
  | returned {after : Pipeline GA GB} (waits : driver.point = .finish)
      (taken : ReportPipeline.step pipeline .dropEpochTx = some after) :
      Moved args now timestamp driver pipeline (driver.row now timestamp .done 0 0 .returned) after

variable {args : Args} {driver driver' : Driver} {pipeline pipeline' : Pipeline GA GB} {now timestamp : Nat}

theorem runBob_fail (taken : runBob args driver pipeline now timestamp .fail = some (driver', pipeline')) :
    driver' = driver.goto now .failed ∧ pipeline' = pipeline := by
  cases point : driver.point <;> simp [runBob, point] at taken <;> exact ⟨taken.1.symm, taken.2.symm⟩

theorem moved_of_runBob {outcome : Outcome}
    (taken : runBob args driver pipeline now timestamp outcome = some (driver', pipeline')) :
    Moved args now timestamp driver pipeline driver' pipeline' := by
  by_cases fails : outcome = .fail
  · subst fails
    obtain ⟨rfl, rfl⟩ := runBob_fail taken
    exact .silent (.fail _)
  cases point : driver.point with
  | returned => simp [runBob, point] at taken
  | failed => simp [runBob, point] at taken
  | noKeys => simp [runBob, point] at taken
  | singleUse => simp [runBob, point] at taken
  | scenario =>
      cases outcome with
      | go =>
          simp only [runBob, point] at taken
          split at taken
          · cases taken
            exact .contact point
          · cases taken
            exact .silent (point ▸ .expired)
      | fail => exact absurd rfl fails
      | _ => simp [runBob, point] at taken
  | accept t0 deadline =>
      cases outcome with
      | incoming keys =>
          cases config : driver.serverConfig with
          | holds =>
              simp only [runBob, point, config, ServerConfig.startSession, Option.some.injEq,
                Prod.mk.injEq] at taken
              obtain ⟨rfl, rfl⟩ := taken
              exact .incoming keys point config
          | taken =>
              simp only [runBob, point, config, ServerConfig.startSession, Option.some.injEq,
                Prod.mk.injEq] at taken
              obtain ⟨rfl, rfl⟩ := taken
              exact .reused point config
      | timedOut =>
          simp only [runBob, point] at taken
          split at taken
          · cases taken
          · cases taken
            exact .silent (point ▸ .alone t0 deadline)
      | none =>
          simp only [runBob, point, Option.some.injEq, Prod.mk.injEq] at taken
          obtain ⟨rfl, rfl⟩ := taken
          exact .silent (point ▸ .alone t0 deadline)
      | fail => exact absurd rfl fails
      | _ => simp [runBob, point] at taken
  | acceptBi t0 since =>
      cases outcome with
      | stream conn is0rtt =>
          simp only [runBob, point] at taken
          split at taken
          · rename_i fresh
            cases taken
            exact .silent (point ▸ .stream t0 since conn is0rtt fresh)
          · cases taken
      | timedOut =>
          simp only [runBob, point] at taken
          split at taken
          · cases taken
          · cases taken
            exact .silent (point ▸ .stale t0 since)
      | none =>
          simp only [runBob, point, Option.some.injEq, Prod.mk.injEq] at taken
          obtain ⟨rfl, rfl⟩ := taken
          exact .silent (point ▸ .stale t0 since)
      | fail => exact absurd rfl fails
      | _ => simp [runBob, point] at taken
  | logAvailable t0 conn is0rtt =>
      cases outcome with
      | go =>
          simp only [runBob, point, Option.some.injEq, Prod.mk.injEq] at taken
          obtain ⟨rfl, rfl⟩ := taken
          exact .logged (now - t0) (point ▸ .available t0 conn is0rtt)
      | fail => exact absurd rfl fails
      | _ => simp [runBob, point] at taken
  | logStream t0 conn is0rtt =>
      cases outcome with
      | go =>
          simp only [runBob, point, Option.some.injEq, Prod.mk.injEq] at taken
          obtain ⟨rfl, rfl⟩ := taken
          cases is0rtt with
          | true => exact .logged 0 (point ▸ .early t0 conn)
          | false => exact .logged 0 (point ▸ .late t0 conn)
      | fail => exact absurd rfl fails
      | _ => simp [runBob, point] at taken
  | confirm t0 conn =>
      cases outcome with
      | go =>
          simp only [runBob, point, Option.some.injEq, Prod.mk.injEq] at taken
          obtain ⟨rfl, rfl⟩ := taken
          split
          · rename_i once
            exact .logged (now - t0) (point ▸ .first t0 conn once)
          · exact .logged (now - t0) (point ▸ .again t0 conn)
      | fail => exact absurd rfl fails
      | _ => simp [runBob, point] at taken
  | spawn conn =>
      cases outcome with
      | go =>
          simp only [runBob, point, Option.map_eq_some_iff, Prod.mk.injEq] at taken
          obtain ⟨pipeline, spawned, rfl, rfl⟩ := taken
          exact .spawned point spawned
      | fail => exact absurd rfl fails
      | _ => simp [runBob, point] at taken
  | closed conn =>
      cases outcome with
      | go =>
          simp only [runBob, point, Option.map_eq_some_iff, Prod.mk.injEq] at taken
          obtain ⟨pipeline, aborted, rfl, rfl⟩ := taken
          refine .aborted point ?_ aborted
          split
          · exact Or.inl rfl
          · exact Or.inr rfl
      | fail => exact absurd rfl fails
      | _ => simp [runBob, point] at taken
  | finish =>
      cases outcome with
      | go =>
          simp only [runBob, point, Option.map_eq_some_iff, Prod.mk.injEq] at taken
          obtain ⟨pipeline, dropped, rfl, rfl⟩ := taken
          exact .returned point dropped
      | fail => exact absurd rfl fails
      | _ => simp [runBob, point] at taken

end Moved

end QuicMls.BobRuns
