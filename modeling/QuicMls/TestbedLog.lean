import QuicMls.AliceRuns

/-! The log a run of the driver leaves. At every point the driver and a reader of her
log agree on where they are, so the reader takes every row. -/
namespace QuicMls.TestbedLog
open BigEndian Groups Preamble Telemetry AliceDriver AliceRuns
open ReportPipeline hiding step Action honest steady

/-! ### The driver and her reader -/

def phasePlace : Phase → Place
  | .online => .online
  | .blackout => .dark

/-- Around the outer loop, the first contact differs from all others. -/
def Between (contacts : Nat) (place : Place) : Prop :=
  (contacts = 0 ∧ place = .fresh) ∨ (contacts ≠ 0 ∧ place = .waiting)

/-- Where the reader is at a point behind `contacts` contacts. -/
def Fits (contacts : Nat) (place : Place) : Point → Prop
  | .scenario => Between contacts place
  | .waitForReady _ => Between contacts place
  | .connect _ _ => contacts ≠ 0 ∧ place = .fresh
  | .confirm _ => contacts ≠ 0 ∧ place = .opening
  | .embed _ => contacts ≠ 0 ∧ place = .waiting
  | .reconnect _ _ _ => contacts ≠ 0 ∧ place = .embedded
  | .reconfirm _ _ => contacts ≠ 0 ∧ place = .reopening
  | .beginPhase phase => contacts ≠ 0 ∧ place = phasePlace phase
  | .startTicker phase _ _ => contacts ≠ 0 ∧ place = phasePlace phase
  | .loopHead loop => contacts ≠ 0 ∧ place = phasePlace loop.phase
  | .select loop => contacts ≠ 0 ∧ place = phasePlace loop.phase
  | .recheck loop => contacts ≠ 0 ∧ place = phasePlace loop.phase
  | .commit loop => contacts ≠ 0 ∧ place = phasePlace loop.phase
  | .send loop _ => contacts ≠ 0 ∧ place = .online ∧ loop.phase = .online
  | .logCpu loop _ _ _ => contacts ≠ 0 ∧ place = .online ∧ loop.phase = .online
  | .logNet loop _ _ => contacts ≠ 0 ∧ place = .committed ∧ loop.phase = .online
  | .logOffline loop => contacts ≠ 0 ∧ place = .dark ∧ loop.phase = .blackout
  | .leave phase => contacts ≠ 0 ∧ place = phasePlace phase
  | .returned => place = .finished
  | .failed => True

/-- Commits that have no row yet. -/
def unlogged : Point → UInt64
  | .send _ _ => 1
  | .logCpu _ _ _ _ => 1
  | .logOffline _ => 1
  | _ => 0

/-- A contact that has no row yet. -/
def opening : Point → Nat
  | .connect _ _ => 1
  | .embed _ => 1
  | .failed => 1
  | _ => 0

structure LogSound (driver : Driver) (contacts : Nat) (reader : Reader) : Prop where
  cycle : driver.cycle = UInt64.ofNat contacts
  few : contacts ≤ driver.rows.length + opening driver.point
  read : readLog driver.rows = some reader
  fits : Fits contacts reader.place driver.point
  epoch : driver.point ≠ .failed → driver.epoch = reader.commits + unlogged driver.point

/-! ### One move -/

section Moves
variable {args : Args} {now timestamp contacts : Nat} {place : Place} {point next : Point}

theorem silent_fits (moves : Silent args now point next) (fits : Fits contacts place point) :
    Fits contacts place next ∧ opening point ≤ opening next ∧
      (next ≠ .failed → unlogged next = unlogged point) := by
  cases moves with
  | fail point =>
      refine ⟨trivial, ?_, fun other => absurd rfl other⟩
      cases point <;> simp [opening]
  | begin => exact ⟨fits, le_rfl, fun _ => rfl⟩
  | poll start => exact ⟨fits, le_rfl, fun _ => rfl⟩
  | phase phase => exact ⟨fits, le_rfl, fun _ => rfl⟩
  | ticker phase start length positive => exact ⟨fits, le_rfl, fun _ => rfl⟩
  | enter loop => exact ⟨fits, le_rfl, fun _ => rfl⟩
  | expired loop => exact ⟨fits, le_rfl, fun _ => rfl⟩
  | tick loop ticker due later => exact ⟨fits, le_rfl, fun _ => rfl⟩
  | deadline loop => exact ⟨fits, le_rfl, fun _ => rfl⟩
  | checked loop within => exact ⟨fits, le_rfl, fun _ => rfl⟩
  | late loop => exact ⟨fits, le_rfl, fun _ => rfl⟩

/-- The row that a point writes is one the reader takes there. -/
theorem logs_fits {reader : Reader} {event : Event} {epoch named bytes : UInt64}
    (logs : Logs epoch point event named bytes next) (fits : Fits contacts reader.place point)
    (counted : epoch = reader.commits + unlogged point) :
    ∃ place, reader.place.next event = some place ∧ Fits contacts place next ∧
      named = reader.epochAt event ∧ epoch = reader.commitsAt event + unlogged next := by
  cases logs with
  | done =>
      rcases fits with ⟨-, here⟩ | ⟨-, here⟩
      · exact ⟨.finished, by rw [here]; rfl, rfl, counted.trans (UInt64.add_zero _), counted⟩
      · exact ⟨.finished, by rw [here]; rfl, rfl, counted.trans (UInt64.add_zero _), counted⟩
  | available t0 => exact ⟨.opening, by rw [fits.2]; rfl, ⟨fits.1, rfl⟩, rfl, counted⟩
  | availableAgain t0 since ok => exact ⟨.reopening, by rw [fits.2]; rfl, ⟨fits.1, rfl⟩, rfl, counted⟩
  | timedOut t0 since opened =>
      exact ⟨.waiting, by rw [fits.2]; rfl, Or.inr ⟨fits.1, rfl⟩, counted.trans (UInt64.add_zero _), counted⟩
  | refused t0 since opened =>
      exact ⟨.waiting, by rw [fits.2]; rfl, Or.inr ⟨fits.1, rfl⟩, counted.trans (UInt64.add_zero _), counted⟩
  | cpu loop cpu net sent =>
      exact ⟨.committed, by rw [fits.2.1]; rfl, ⟨fits.1, rfl, fits.2.2⟩, counted,
        counted.trans (UInt64.add_zero _).symm⟩
  | net loop net sent =>
      refine ⟨.online, by rw [fits.2.1]; rfl, ⟨fits.1, ?_⟩, counted.trans (UInt64.add_zero _), counted⟩
      rw [fits.2.2]
      rfl
  | offline loop =>
      refine ⟨.dark, by rw [fits.2.1]; rfl, ⟨fits.1, ?_⟩, counted, counted.trans (UInt64.add_zero _).symm⟩
      rw [fits.2.2]
      rfl
  | blackoutEnd =>
      exact ⟨.waiting, by rw [fits.2]; rfl, Or.inr ⟨fits.1, rfl⟩, counted.trans (UInt64.add_zero _), counted⟩

theorem opens_fits (opens : Opens point next) (fits : Fits contacts place point) :
    Fits contacts place next ∧ opening point ≤ opening next ∧ unlogged next = unlogged point := by
  cases opens with
  | first t0 => exact ⟨fits, le_rfl, rfl⟩
  | again t0 since => exact ⟨fits, le_rfl, rfl⟩

theorem confirms_fits {event : Event} (confirms : Confirms point event) (fits : Fits contacts place point) :
    contacts ≠ 0 ∧ place.next event = some .online ∧ event.isHandshake = true ∧ event.isCommit = false ∧
      unlogged point = 0 ∧ opening point = 0 := by
  cases confirms with
  | accepted t0 => exact ⟨fits.1, by rw [fits.2]; rfl, rfl, rfl, rfl, rfl⟩
  | rejected t0 => exact ⟨fits.1, by rw [fits.2]; rfl, rfl, rfl, rfl, rfl⟩
  | acceptedAgain t0 => exact ⟨fits.1, by rw [fits.2]; rfl, rfl, rfl, rfl, rfl⟩
  | rejectedAgain t0 => exact ⟨fits.1, by rw [fits.2]; rfl, rfl, rfl, rfl, rfl⟩

theorem read_row {rows : List Row} {reader : Reader} {row : Row} (read : readLog rows = some reader)
    (moved : reader.place.next row.event = some place) (named : row.epoch = reader.epochAt row.event) :
    readLog (rows ++ [row]) = some { place, commits := reader.commitsAt row.event } :=
  readLog_concat.mpr ⟨reader, read, read_eq_some.mpr ⟨named, moved, rfl⟩⟩

end Moves

section Sound
variable {GA GB EA EB : Type} [ExportSecret GA EA] [ExportSecret GB EB] {args : Args} {now timestamp : Nat}
  {driver driver' : Driver} {pipeline pipeline' : Pipeline GA GB} {contacts : Nat} {reader : Reader}

/-- A point whose row is `row` goes on to `next`, with `named` commits made. -/
theorem LogSound.writes {place : Place} {next : Point} {row : Row}
    (sound : LogSound driver contacts reader) (after : driver'.rows = driver.rows ++ [row])
    (cycle : driver'.cycle = driver.cycle) (point : driver'.point = next) (few : opening driver.point ≤ 1)
    (moved : reader.place.next row.event = some place) (named : row.epoch = reader.epochAt row.event)
    (fits : Fits contacts place next) (epoch : driver'.epoch = reader.commitsAt row.event + unlogged next) :
    LogSound driver' contacts { place, commits := reader.commitsAt row.event } where
  cycle := cycle.trans sound.cycle
  few := by
    have before := sound.few
    rw [after, List.length_append, List.length_singleton]
    omega
  read := by
    rw [after]
    exact read_row sound.read moved named
  fits := point ▸ fits
  epoch := fun _ => by rw [point, epoch]

theorem opening_le (point : Point) : opening point ≤ 1 := by
  cases point <;> simp [opening]

/-- Room for one more row is room for one more contact in a word. -/
theorem contact_first {cycle : UInt64} (counts : cycle = UInt64.ofNat contacts) (room : contacts + 1 < 2 ^ 64) :
    cycle + 1 = 1 ↔ contacts = 0 := by
  have label : (UInt64.ofNat contacts).toNat = contacts := UInt64.toNat_ofNat_of_lt' (Nat.lt_of_succ_lt room)
  rw [counts, ← UInt64.toNat_inj, UInt64.toNat_add, label]
  change (contacts + 1) % 2 ^ 64 = 1 ↔ _
  rw [Nat.mod_eq_of_lt room]
  omega

theorem moved_sound (moved : Moved args now timestamp driver pipeline driver' pipeline')
    (sound : LogSound driver contacts reader) (room : driver'.rows.length + 1 < 2 ^ 64) :
    ∃ contacts reader, LogSound driver' contacts reader := by
  have fits := sound.fits
  cases moved with
  | @silent point moves =>
      obtain ⟨behind, few, kept⟩ := silent_fits moves fits
      refine ⟨contacts, reader, sound.cycle, sound.few.trans (Nat.add_le_add_left few _), sound.read, behind,
        fun lives => ?_⟩
      have lived : driver.point ≠ .failed := by
        intro dead
        rw [dead] at moves
        cases moves
        exact lives rfl
      exact (sound.epoch lived).trans (congrArg _ (kept lives).symm)
  | @logged event epoch bytes point latency logs =>
      have lived : driver.point ≠ .failed := by
        intro dead
        rw [dead] at logs
        cases logs
      obtain ⟨place, read, behind, named, counted⟩ := logs_fits logs fits (sound.epoch lived)
      exact ⟨contacts, _, sound.writes rfl rfl rfl (opening_le _) read named behind counted⟩
  | @contact start waits lastReadySeen =>
      rw [waits] at fits
      have few := sound.few
      have epoch := sound.epoch (by simp [waits])
      rw [waits] at few epoch
      have cycle : driver.cycle + 1 = UInt64.ofNat (contacts + 1) := by
        rw [sound.cycle, UInt64.ofNat_add]
        rfl
      have first := contact_first sound.cycle
        (show contacts + 1 < 2 ^ 64 from lt_of_le_of_lt (Nat.succ_le_succ few) room)
      refine ⟨contacts + 1, reader, cycle, ?_, sound.read, ?_, fun _ => epoch.trans ?_⟩
      · split <;> exact Nat.succ_le_succ few
      · rcases fits with ⟨none, here⟩ | ⟨some, here⟩
        · rw [if_pos (first.mpr none)]
          exact ⟨Nat.succ_ne_zero _, here⟩
        · rw [if_neg (mt first.mp some)]
          exact ⟨Nat.succ_ne_zero _, here⟩
      · split <;> rfl
  | @opened point after opens taken =>
      obtain ⟨behind, few, kept⟩ := opens_fits opens fits
      have lived : driver.point ≠ .failed := by
        intro dead
        rw [dead] at opens
        cases opens
      exact ⟨contacts, reader, sound.cycle, sound.few.trans (Nat.add_le_add_left few _), sound.read, behind,
        fun _ => (sound.epoch lived).trans (congrArg _ kept.symm)⟩
  | @connected event after latency confirms taken =>
      obtain ⟨some, read, handshake, kept, none, settled⟩ := confirms_fits confirms fits
      have lived : driver.point ≠ .failed := by
        intro dead
        rw [dead] at confirms
        cases confirms
      have counted := sound.epoch lived
      rw [none] at counted
      refine ⟨contacts, _, sound.writes rfl rfl rfl (opening_le _) read ?_ ⟨some, rfl⟩ ?_⟩
      · exact (if_pos handshake).symm
      · rw [Reader.commitsAt, kept]
        exact counted
  | sendFailed sent =>
      refine ⟨contacts, reader, sound.cycle, ?_, sound.read, trivial, fun dead => absurd rfl dead⟩
      exact sound.few.trans (Nat.add_le_add_left (opening_le _) _)
  | @embedded t0 answer bytes after embeds sent =>
      rw [embeds] at fits
      have counted := sound.epoch (by simp [embeds])
      rw [embeds] at counted
      exact ⟨contacts, _, sound.writes rfl rfl rfl (opening_le _) (by rw [fits.2]; rfl)
        (counted.trans (UInt64.add_zero _)) ⟨fits.1, rfl⟩ counted⟩
  | @committed loop after commits taken =>
      rw [commits] at fits
      have few := sound.few
      have counted := sound.epoch (by simp [commits])
      rw [commits] at few counted
      have next : driver.epoch + 1 = reader.commits + 1 := congrArg (· + 1) (counted.trans (UInt64.add_zero _))
      cases phase : loop.phase with
      | online =>
          refine ⟨contacts, reader, sound.cycle, ?_, sound.read, ?_, fun _ => next.trans ?_⟩ <;>
            simp only [Loop.committed, phase]
          · exact few
          · exact ⟨fits.1, by rw [fits.2, phase]; rfl, phase⟩
          · rfl
      | blackout =>
          refine ⟨contacts, reader, sound.cycle, ?_, sound.read, ?_, fun _ => next.trans ?_⟩ <;>
            simp only [Loop.committed, phase]
          · exact few
          · exact ⟨fits.1, by rw [fits.2, phase]; rfl, phase⟩
          · rfl
  | @sent loop cpu answer bytes after sends sent =>
      have few := sound.few
      have counted := sound.epoch (by simp [sends])
      rw [sends] at fits few counted
      exact ⟨contacts, reader, sound.cycle, few, sound.read, fits, fun _ => counted⟩
  | quit leaves taken =>
      rw [leaves] at fits
      have counted := sound.epoch (by simp [leaves])
      rw [leaves] at counted
      exact ⟨contacts, _, sound.writes rfl rfl rfl (opening_le _) (by rw [fits.2]; rfl)
        (counted.trans (UInt64.add_zero _)) rfl counted⟩
  | dark leaves taken =>
      rw [leaves] at fits
      have counted := sound.epoch (by simp [leaves])
      rw [leaves] at counted
      exact ⟨contacts, _, sound.writes rfl rfl rfl (opening_le _) (by rw [fits.2]; rfl)
        (counted.trans (UInt64.add_zero _)) ⟨fits.1, rfl⟩ counted⟩

end Sound

/-! ### Runs -/

section Runs
variable {GA GB EA EB : Type} [ExportSecret GA EA] [ExportSecret GB EB] {args : Args} {groupA : GA} {groupB : GB}
  {final : Testbed GA GB} {allowed : Testbed GA GB → AliceDriver.Action → Prop}

theorem rows_grow {now timestamp : Nat} {driver driver' : Driver} {pipeline pipeline' : Pipeline GA GB}
    (moved : Moved args now timestamp driver pipeline driver' pipeline') :
    driver'.rows = driver.rows ∨ ∃ row, driver'.rows = driver.rows ++ [row] := by
  cases moved with
  | silent moves => exact Or.inl rfl
  | logged latency logs => exact Or.inr ⟨_, rfl⟩
  | contact waits lastReadySeen => exact Or.inl rfl
  | opened opens taken => exact Or.inl rfl
  | connected latency confirms taken => exact Or.inr ⟨_, rfl⟩
  | sendFailed sent => exact Or.inl rfl
  | embedded embeds sent => exact Or.inr ⟨_, rfl⟩
  | committed commits taken => exact Or.inl rfl
  | sent sends sent => exact Or.inl rfl
  | quit leaves taken => exact Or.inr ⟨_, rfl⟩
  | dark leaves taken => exact Or.inr ⟨_, rfl⟩

/-- The contacts of a run of the driver do not fill a word before her rows do. -/
theorem sound_of_run (run : Machine.Reachable (step args) allowed (Testbed.start groupA groupB) final)
    (room : final.driver.rows.length + 1 < 2 ^ 64) :
    ∃ contacts reader, LogSound final.driver contacts reader := by
  induction run with
  | start => exact ⟨0, Reader.start, rfl, le_rfl, rfl, Or.inl ⟨rfl, rfl⟩, fun _ => rfl⟩
  | next action _ _ taken ih =>
      rcases step_cases taken with ⟨now, timestamp, outcome, -, -, moved⟩ | ⟨inner, -, same, -, -⟩
      · have before := ih (by
          rcases rows_grow moved with same | ⟨row, more⟩
          · rwa [← same]
          · rw [more, List.length_append] at room
            omega)
        obtain ⟨contacts, reader, sound⟩ := before
        exact moved_sound moved sound room
      · rw [same] at room ⊢
        exact ih room

end Runs

/-! ### A run over one blackout -/

def oneBlackout : Args :=
  { commitInterval := 10, duration := 40, blackoutOn := 15, blackoutOff := 8, reportTimeout := 5,
    transcriptMaxBytes := 100 }

def aliceAt (now : Nat) (outcomes : List Outcome) : List AliceDriver.Action := outcomes.map (.alice now now)

/-- Two commits online, one in the dark, and one behind the reconnection. -/
def oneBlackoutRun : List AliceDriver.Action :=
  aliceAt 0 [.go, .ready (some 1), .go, .go, .accepted true, .go, .go, .go, .tick false, .go, .go,
    .sendTo fun _ => .ok (), .go, .go, .go] ++
  aliceAt 10 [.tick false, .go, .go, .sendTo fun _ => .ok (), .go, .go, .go] ++
  aliceAt 15 [.deadline, .go, .go, .go, .go, .tick false, .go, .go, .go, .go] ++
  aliceAt 23 [.deadline, .go, .go, .ready none] ++
  aliceAt 28 [.ready none, .sendTo fun _ => .ok (), .go, .accepted false, .go, .go, .go, .go, .tick false,
    .go, .go, .sendTo fun _ => .ok (), .go, .go, .go] ++
  aliceAt 40 [.tick false, .go, .go]

theorem oneBlackoutRun_returns : ∃ final,
    Machine.run (step oneBlackout) (Testbed.start CounterGroup.fresh CounterGroup.fresh) oneBlackoutRun =
      some final ∧ final.driver.point = .returned ∧ final.driver.rows.length = 15 := by
  have view : (Machine.run (step oneBlackout) (Testbed.start CounterGroup.fresh CounterGroup.fresh)
      oneBlackoutRun).map (fun final => (final.driver.point, final.driver.rows.length)) =
        some (.returned, 15) := by
    decide +kernel
  obtain ⟨final, ran, same⟩ := Option.map_eq_some_iff.mp view
  obtain ⟨returned, length⟩ := Prod.mk.inj same
  exact ⟨final, ran, returned, length⟩

/-! ### Every log -/

section Runs
variable {GA GB EA EB : Type} [ExportSecret GA EA] [ExportSecret GB EB] {args : Args} {groupA : GA} {groupB : GB}
  {final : Testbed GA GB}

/-- Whatever the network, the other party and the clock do, a reader takes every row of
the log in turn, and each row names the epoch its sender had reached. -/
theorem log_accepted (run : Machine.Reachable (step args) (fun _ _ => True) (Testbed.start groupA groupB) final)
    (room : final.driver.rows.length + 1 < 2 ^ 64) :
    (∃ reader, readLog final.driver.rows = some reader) ∧
    (∀ front row back, final.driver.rows = front ++ row :: back →
      row.epoch = if row.event.isHandshake then 0 else UInt64.ofNat (commits (front ++ [row]))) ∧
    (final.driver.point ≠ .failed → final.pipeline.alice.currentEpoch =
      UInt64.ofNat (commits final.driver.rows) + unlogged final.driver.point) := by
  obtain ⟨contacts, reader, sound⟩ := sound_of_run run room
  refine ⟨⟨reader, sound.read⟩, fun front row back split => ?_, fun lives => ?_⟩
  · have read := sound.read
    rw [split] at read
    exact row_epoch read
  · rw [← epoch_mirrored run, sound.epoch lives, commits_counted sound.read]

end Runs

theorem log_accepted_one_blackout : ∃ final,
    Machine.run (step oneBlackout) (Testbed.start CounterGroup.fresh CounterGroup.fresh) oneBlackoutRun =
      some final ∧ ∃ reader, readLog final.driver.rows = some reader := by
  obtain ⟨final, ran, -, length⟩ := oneBlackoutRun_returns
  have run := @Machine.reachable_of_run _ _ _ (fun _ _ => True) _ _ _ (fun _ _ _ => trivial) ran
  exact ⟨final, ran, (log_accepted run (by rw [length]; decide)).1⟩

section Runs
variable {GA GB EA EB : Type} [ExportSecret GA EA] [ExportSecret GB EB] {args : Args} {groupA : GA} {groupB : GB}
  {final : Testbed GA GB}

/-- The log of a run that returned balances: what was begun in it has ended. -/
theorem returned_log (run : Machine.Reachable (step args) (fun _ _ => True) (Testbed.start groupA groupB) final)
    (room : final.driver.rows.length + 1 < 2 ^ 64) (returned : final.driver.point = .returned) :
    count .done final.driver.rows = 1 ∧
    count .commitCpu final.driver.rows = count .commitNet final.driver.rows ∧
    count .blackoutStart final.driver.rows = count .blackoutEnd final.driver.rows ∧
    count .handshakeTranscriptEmbedded final.driver.rows = count .reconnectAttemptTimedOut final.driver.rows +
      count .reconnectAttemptFailed final.driver.rows + reconnected final.driver.rows ∧
    reconnected final.driver.rows ≤ count .blackoutStart final.driver.rows ∧
    count .blackoutStart final.driver.rows ≤ reconnected final.driver.rows + 1 ∧
    final.pipeline.alice.currentEpoch = UInt64.ofNat (commits final.driver.rows) := by
  obtain ⟨contacts, reader, sound⟩ := sound_of_run run room
  have finished := sound.fits
  rw [returned] at finished
  have once := done_once sound.read
  have sent := commits_sent sound.read
  have ended := blackouts_ended sound.read
  have tried := attempts_ended sound.read
  rw [show reader.place = .finished from finished] at once sent ended tried
  have epoch := sound.epoch (by simp [returned])
  rw [returned, epoch_mirrored run, commits_counted sound.read] at epoch
  refine ⟨by simpa [Place.ended] using once, ?_, ?_, ?_, blackouts_reconnected sound.read |>.1,
    blackouts_reconnected sound.read |>.2, epoch.trans (UInt64.add_zero _)⟩
  · simpa [Place.unsent] using sent
  · simpa [Place.darkened] using ended
  · simp only [Place.attempted, reduceCtorEq, or_self, if_false, add_zero] at tried
    exact_mod_cast tried

end Runs

theorem returned_log_one_blackout : ∃ final,
    Machine.run (step oneBlackout) (Testbed.start CounterGroup.fresh CounterGroup.fresh) oneBlackoutRun =
      some final ∧ count .done final.driver.rows = 1 := by
  obtain ⟨final, ran, returned, length⟩ := oneBlackoutRun_returns
  have run := @Machine.reachable_of_run _ _ _ (fun _ _ => True) _ _ _ (fun _ _ _ => trivial) ran
  exact ⟨final, ran, (returned_log run (by rw [length]; decide) returned).1⟩

end QuicMls.TestbedLog
