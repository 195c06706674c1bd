import QuicMls.Harness
import QuicMls.TestbedLog

/-! The log of the receiver's driver. A reader takes every row, the epochs that are
confirmed never go back, and a configuration is never asked for a second session. -/
namespace QuicMls.HarnessLog
open BigEndian Groups BobDriver BobRuns Harness
open AliceDriver (Args Testbed)
open ReportPipeline hiding step Action honest steady

/-! ### The language of logs -/

inductive Place where
  | waiting
  | announced
  | streamed
  | finished
  deriving DecidableEq

def Place.next : Place → Event → Option Place
  | .waiting, .zeroRttAvailable => some .announced
  | .waiting, .done => some .finished
  | .announced, .controlStream0rtt => some .streamed
  | .announced, .controlStream1rtt => some .streamed
  | .streamed, .handshakeConfirmed => some .waiting
  | .streamed, .reconnectHandshakeConfirmed => some .waiting
  | _, _ => none

def Event.confirms : Event → Bool
  | .handshakeConfirmed => true
  | .reconnectHandshakeConfirmed => true
  | _ => false

/-- The last epoch confirmed, if any. -/
structure Reader where
  place : Place
  confirmed : Option UInt64
  deriving DecidableEq

def Reader.start : Reader := { place := .waiting, confirmed := none }

/-- What a row may say: a first confirmation once, and epochs that do not go back. -/
def Reader.admits (reader : Reader) (row : Row) : Bool :=
  match row.event with
  | .handshakeConfirmed => reader.confirmed.isNone
  | .reconnectHandshakeConfirmed => reader.confirmed.all fun epoch => epoch ≤ row.epoch
  | _ => row.epoch == 0

def Reader.read (reader : Reader) (row : Row) : Option Reader :=
  if reader.admits row then
    (reader.place.next row.event).map fun place =>
      { place, confirmed := if Event.confirms row.event then some row.epoch else reader.confirmed }
  else none

def readLog (rows : List Row) : Option Reader := Machine.run Reader.read Reader.start rows

/-- The epochs the log confirms. -/
def confirmedEpochs (rows : List Row) : List UInt64 :=
  (rows.filter fun row => Event.confirms row.event).map Row.epoch

theorem confirmedEpochs_concat (rows : List Row) (row : Row) :
    confirmedEpochs (rows ++ [row]) =
      confirmedEpochs rows ++ if Event.confirms row.event then [row.epoch] else [] := by
  rw [confirmedEpochs, List.filter_append, List.map_append, ← confirmedEpochs, List.filter_singleton]
  cases Event.confirms row.event <;> rfl

theorem readLog_concat {rows : List Row} {row : Row} {reader : Reader} :
    readLog (rows ++ [row]) = some reader ↔
      ∃ before, readLog rows = some before ∧ before.read row = some reader := by
  rw [readLog, Machine.run_append, Option.bind_eq_some_iff]
  refine exists_congr fun before => and_congr_right fun _ => ?_
  simp [Machine.run]

theorem read_eq_some {before after : Reader} {row : Row} (taken : before.read row = some after) :
    before.admits row = true ∧ before.place.next row.event = some after.place ∧
      after.confirmed = if Event.confirms row.event then some row.epoch else before.confirmed := by
  rw [Reader.read] at taken
  split at taken
  · rename_i admitted
    obtain ⟨place, moved, rfl⟩ := Option.map_eq_some_iff.mp taken
    exact ⟨admitted, moved, rfl⟩
  · cases taken

/-- The confirmed epochs of a log that is read do not go back, and the reader holds the
last. -/
theorem confirmed_of_read {rows : List Row} {reader : Reader} (read : readLog rows = some reader) :
    (confirmedEpochs rows).Pairwise (· ≤ ·) ∧ (confirmedEpochs rows).getLast? = reader.confirmed ∧
      ∀ epoch ∈ confirmedEpochs rows, ∀ last ∈ reader.confirmed, epoch ≤ last := by
  induction rows using List.reverseRecOn generalizing reader with
  | nil =>
      cases read
      exact ⟨.nil, rfl, fun _ absurd => by cases absurd⟩
  | append_singleton rows row ih =>
      obtain ⟨before, behind, taken⟩ := readLog_concat.mp read
      obtain ⟨admitted, -, confirmed⟩ := read_eq_some taken
      obtain ⟨rising, last, below⟩ := ih behind
      rw [confirmedEpochs_concat, confirmed]
      cases confirms : Event.confirms row.event with
      | false =>
          rw [if_neg Bool.false_ne_true, if_neg Bool.false_ne_true, List.append_nil]
          exact ⟨rising, last, below⟩
      | true =>
          rw [if_pos rfl, if_pos rfl]
          have reached : ∀ epoch ∈ confirmedEpochs rows, epoch ≤ row.epoch := by
            intro epoch member
            have some : before.confirmed.isSome := by
              rw [← last, List.getLast?_isSome]
              exact List.ne_nil_of_mem member
            obtain ⟨latest, here⟩ := Option.isSome_iff_exists.mp some
            refine UInt64.le_trans (below epoch member latest here) ?_
            cases event : row.event with
            | handshakeConfirmed => simp [Reader.admits, event, here] at admitted
            | reconnectHandshakeConfirmed => simpa [Reader.admits, event, here] using admitted
            | _ => simp [event, Event.confirms] at confirms
          refine ⟨List.pairwise_append.mpr ⟨rising, List.pairwise_singleton _ _, ?_⟩, by simp, ?_⟩
          · intro epoch member other here
            obtain rfl := List.mem_singleton.mp here
            exact reached epoch member
          · intro epoch member latest here
            obtain rfl := Option.some.inj here
            rcases List.mem_append.mp member with old | fresh
            · exact reached epoch old
            · exact (List.mem_singleton.mp fresh).le

/-! ### The driver and its reader -/

/-- In the first cycle nothing has been confirmed. -/
def Unconfirmed (contacts : Nat) (reader : Reader) : Prop :=
  contacts ≠ 0 ∧ (contacts = 1 → reader.confirmed = none)

/-- Where the reader is at a point behind `contacts` cycles, and which configuration the
endpoint has. -/
def Fits (contacts : Nat) (config : ServerConfig) (reader : Reader) : Point → Prop
  | .scenario => reader.place = .waiting ∧ (contacts = 0 → config = .holds ∧ reader.confirmed = none)
  | .accept _ _ => reader.place = .waiting ∧ config = .holds ∧ Unconfirmed contacts reader
  | .acceptBi _ _ => reader.place = .waiting ∧ Unconfirmed contacts reader
  | .logAvailable _ _ _ => reader.place = .waiting ∧ Unconfirmed contacts reader
  | .logStream _ _ _ => reader.place = .announced ∧ Unconfirmed contacts reader
  | .confirm _ _ => reader.place = .streamed ∧ Unconfirmed contacts reader
  | .spawn _ => reader.place = .waiting ∧ contacts ≠ 0
  | .closed _ => reader.place = .waiting ∧ contacts ≠ 0
  | .finish => reader.place = .waiting
  | .returned => reader.place = .finished
  | .failed => True
  | .noKeys => True
  | .singleUse => False

structure LogSound (driver : Driver) (localEpoch : UInt64) (contacts : Nat) (reader : Reader) : Prop where
  cycle : driver.cycle = UInt64.ofNat contacts
  read : readLog driver.rows = some reader
  fits : Fits contacts driver.serverConfig reader driver.point
  below : ∀ epoch ∈ reader.confirmed, epoch ≤ localEpoch

theorem LogSound.confirmed_le {driver : Driver} {localEpoch : UInt64} {contacts : Nat} {reader : Reader}
    (sound : LogSound driver localEpoch contacts reader) :
    ∀ epoch ∈ confirmedEpochs driver.rows, epoch ≤ localEpoch := by
  obtain ⟨-, last, within⟩ := confirmed_of_read sound.read
  intro epoch member
  have some : reader.confirmed.isSome := by
    rw [← last, List.getLast?_isSome]
    exact List.ne_nil_of_mem member
  obtain ⟨latest, here⟩ := Option.isSome_iff_exists.mp some
  exact UInt64.le_trans (within epoch member latest here) (sound.below latest here)

section Moves
variable {GA GB EA EB : Type} [ExportSecret GA EA] [ExportSecret GB EB] {args : Args} {now timestamp : Nat}
  {driver driver' : Driver} {pipeline pipeline' : Pipeline GA GB} {contacts : Nat} {reader : Reader}

theorem localEpoch_le_of_step {action : ReportPipeline.Action}
    (taken : ReportPipeline.step pipeline action = some pipeline') :
    pipeline.bob.localEpoch ≤ pipeline'.bob.localEpoch := by
  have received (datagram : Bytes) : pipeline.bob.localEpoch ≤ (pipeline.bob.receive datagram).localEpoch := by
    rcases Preamble.demultiplex_cases sink datagram pipeline.bob with ⟨same, -⟩ | ⟨window, given, -⟩
    · rw [Bob.receive, same]
    · rw [Bob.receive, given]
      exact localEpoch_le_applied _ _ _
  cases Pipeline.moved_of_step taken with
  | delivered sent => exact received _
  | injected datagram => exact received datagram
  | _ => exact UInt64.le_refl _

theorem silent_fits {config : ServerConfig} {point next : Point} (moves : Silent pipeline point next)
    (fits : Fits contacts config reader point) : Fits contacts config reader next := by
  cases moves with
  | fail point => trivial
  | expired => exact fits.1
  | alone t0 deadline => exact fits.1
  | stale t0 since => exact ⟨fits.1, fun none => absurd none fits.2.1⟩
  | stream t0 since conn is0rtt fresh => exact fits

theorem toNat_cycle (room : contacts < 2 ^ 64) : (UInt64.ofNat contacts).toNat = contacts :=
  UInt64.toNat_ofNat_of_lt' room

/-- The row that a point writes is one the reader takes there. -/
theorem logs_fits {cycle localEpoch epoch : UInt64} {config : ServerConfig} {point next : Point} {row : Row}
    (logs : Logs cycle localEpoch point row.event epoch next) (named : row.epoch = epoch)
    (fits : Fits contacts config reader point) (counts : cycle = UInt64.ofNat contacts)
    (room : contacts < 2 ^ 64) (below : ∀ epoch ∈ reader.confirmed, epoch ≤ localEpoch) :
    ∃ after, reader.read row = some after ∧ Fits contacts config after next ∧
      ∀ epoch ∈ after.confirmed, epoch ≤ localEpoch := by
  obtain ⟨timestamp, event, labelled, latency⟩ := row
  obtain rfl : labelled = epoch := named
  cases logs with
  | available t0 conn is0rtt =>
      obtain ⟨here, fresh⟩ := fits
      exact ⟨{ reader with place := .announced },
        by simp [Reader.read, Reader.admits, here, Place.next, Event.confirms],
        ⟨rfl, fresh⟩, below⟩
  | early t0 conn =>
      obtain ⟨here, fresh⟩ := fits
      exact ⟨{ reader with place := .streamed },
        by simp [Reader.read, Reader.admits, here, Place.next, Event.confirms],
        ⟨rfl, fresh⟩, below⟩
  | late t0 conn =>
      obtain ⟨here, fresh⟩ := fits
      exact ⟨{ reader with place := .streamed },
        by simp [Reader.read, Reader.admits, here, Place.next, Event.confirms],
        ⟨rfl, fresh⟩, below⟩
  | first t0 conn once =>
      obtain ⟨here, begun, fresh⟩ := fits
      have one : contacts = 1 := by
        rw [← toNat_cycle room, ← counts, once]
        rfl
      refine ⟨{ place := .waiting, confirmed := some localEpoch }, ?_, ⟨rfl, begun⟩, ?_⟩
      · simp [Reader.read, Reader.admits, here, fresh one, Place.next, Event.confirms]
      · intro epoch latest
        exact (Option.some.inj latest).ge
  | again t0 conn =>
      obtain ⟨here, begun, -⟩ := fits
      refine ⟨{ place := .waiting, confirmed := some localEpoch }, ?_, ⟨rfl, begun⟩, ?_⟩
      · have back : (reader.confirmed.all fun epoch => epoch ≤ localEpoch) = true := by
          rw [Option.all_eq_true]
          exact fun epoch latest => decide_eq_true (below epoch latest)
        simp [Reader.read, Reader.admits, here, back, Place.next, Event.confirms]
      · intro epoch latest
        exact (Option.some.inj latest).ge

theorem moved_sound (moved : Moved args now timestamp driver pipeline driver' pipeline')
    (sound : LogSound driver pipeline.bob.localEpoch contacts reader) (room : contacts + 1 < 2 ^ 64) :
    ∃ contacts' reader, contacts' ≤ contacts + 1 ∧
      LogSound driver' pipeline'.bob.localEpoch contacts' reader := by
  obtain ⟨cycle, read, fits, below⟩ := sound
  have raised (action : ReportPipeline.Action) (taken : ReportPipeline.step pipeline action = some pipeline') :
      ∀ epoch ∈ reader.confirmed, epoch ≤ pipeline'.bob.localEpoch := fun epoch latest =>
    UInt64.le_trans (below epoch latest) (localEpoch_le_of_step taken)
  cases moved with
  | silent moves => exact ⟨contacts, reader, Nat.le_succ _, cycle, read, silent_fits moves fits, below⟩
  | @logged event epoch point latency logs =>
      obtain ⟨after, taken, behind, within⟩ := @logs_fits _ _ _ _ _ _ _ _ ⟨timestamp, event, epoch, latency⟩
        logs rfl fits cycle (Nat.lt_of_succ_lt room) below
      exact ⟨contacts, after, Nat.le_succ _, cycle, readLog_concat.mpr ⟨reader, read, taken⟩, behind, within⟩
  | contact waits =>
      rw [waits] at fits
      obtain ⟨here, fresh⟩ := fits
      have next : driver.cycle + 1 = UInt64.ofNat (contacts + 1) := by
        rw [cycle, UInt64.ofNat_add]
        rfl
      have unconfirmed : Unconfirmed (contacts + 1) reader :=
        ⟨Nat.succ_ne_zero _, fun one => (fresh (Nat.succ.inj one)).2⟩
      have later : 1 < driver.cycle + 1 ↔ contacts ≠ 0 := by
        rw [next, UInt64.lt_iff_toNat_lt, toNat_cycle room]
        change 1 < contacts + 1 ↔ _
        omega
      have holds : (contacted args driver now).serverConfig = .holds := by
        rw [contacted]
        dsimp only
        by_cases first : contacts = 0
        · rw [if_neg fun late => later.mp late first]
          exact (fresh first).1
        · rw [if_pos (later.mpr first)]
      have fits : Fits (contacts + 1) (contacted args driver now).serverConfig reader
          (contacted args driver now).point := ⟨here, holds, unconfirmed⟩
      exact ⟨contacts + 1, reader, le_rfl, next, read, fits, below⟩
  | incoming keys waits holds =>
      rw [waits] at fits
      refine ⟨contacts, reader, Nat.le_succ _, cycle, read, ?_, below⟩
      cases keys with
      | true => exact ⟨fits.1, fits.2.2⟩
      | false => trivial
  | reused waits spent =>
      rw [waits] at fits
      exact absurd (spent.symm.trans fits.2.1) (by decide)
  | spawned waits taken =>
      rw [waits] at fits
      exact ⟨contacts, reader, Nat.le_succ _, cycle, read, fits, raised _ taken⟩
  | aborted waits leaves taken =>
      rw [waits] at fits
      refine ⟨contacts, reader, Nat.le_succ _, cycle, read, ?_, raised _ taken⟩
      rcases leaves with rfl | rfl
      · exact fits.1
      · exact ⟨fits.1, fun none => absurd none fits.2⟩
  | returned waits taken =>
      rw [waits] at fits
      refine ⟨contacts, { reader with place := .finished }, Nat.le_succ _, cycle,
        readLog_concat.mpr ⟨reader, read, ?_⟩,
        rfl, raised _ taken⟩
      have here : reader.place = .waiting := fits
      simp [Reader.read, Reader.admits, here, Place.next, Event.confirms]

end Moves

/-! ### Runs -/

section Runs
variable {GA GB EA EB : Type} [ExportSecret GA EA] [ExportSecret GB EB] {argsA argsB : Args} {groupA : GA}
  {groupB : GB} {final : Parties GA GB} {actions : List Harness.Action}

theorem testbed_localEpoch_le {before after : Testbed GA GB} {action : AliceDriver.Action}
    (taken : AliceDriver.step argsA before action = some after) :
    before.pipeline.bob.localEpoch ≤ after.pipeline.bob.localEpoch := by
  rcases AliceRuns.step_cases taken with ⟨_, _, _, -, -, moved⟩ | ⟨inner, -, -, moved, -⟩
  · rcases AliceRuns.moved_pipeline moved with same | ⟨inner, moved, -⟩
    · rw [same]
    · exact localEpoch_le_of_step moved
  · exact localEpoch_le_of_step moved

/-- After `count` steps, at most as many cycles have begun. -/
def SoundAfter (count : Nat) (parties : Parties GA GB) : Prop :=
  count < 2 ^ 64 → ∃ contacts reader, contacts ≤ count ∧
    LogSound parties.bob parties.testbed.pipeline.bob.localEpoch contacts reader

theorem start_sound : SoundAfter 0 (Parties.start groupA groupB) := by
  intro _
  have fits : Fits 0 Driver.start.serverConfig Reader.start Driver.start.point := ⟨rfl, fun _ => ⟨rfl, rfl⟩⟩
  exact ⟨0, Reader.start, le_rfl, rfl, rfl, fits, fun _ absurd => by cases absurd⟩

theorem step_sound {count : Nat} {before after : Parties GA GB} {action : Harness.Action}
    (sound : SoundAfter count before) (taken : Harness.step argsA argsB before action = some after) :
    SoundAfter (count + 1) after := by
  intro room
  obtain ⟨contacts, reader, few, sound⟩ := sound (Nat.lt_of_succ_lt room)
  have beside (same : after.bob = before.bob)
      (raised : before.testbed.pipeline.bob.localEpoch ≤ after.testbed.pipeline.bob.localEpoch) :
      LogSound after.bob after.testbed.pipeline.bob.localEpoch contacts reader := by
    rw [same]
    exact ⟨sound.cycle, sound.read, sound.fits, fun epoch latest =>
      UInt64.le_trans (sound.below epoch latest) raised⟩
  rcases step_cases taken with ⟨_, _, _, -, -, same, moved⟩ | ⟨_, _, _, -, -, moved⟩ | ⟨_, -, -, same, moved⟩
  · exact ⟨contacts, reader, Nat.le_succ_of_le few, beside same (testbed_localEpoch_le moved)⟩
  · obtain ⟨contacts', reader, more, sound⟩ := moved_sound moved sound (by omega)
    exact ⟨contacts', reader, by omega, sound⟩
  · exact ⟨contacts, reader, Nat.le_succ_of_le few, beside same (testbed_localEpoch_le moved)⟩

theorem sound_of_run
    (ran : Machine.run (Harness.step argsA argsB) (Parties.start groupA groupB) actions = some final)
    (short : actions.length < 2 ^ 64) :
    ∃ contacts reader, LogSound final.bob final.testbed.pipeline.bob.localEpoch contacts reader := by
  have counted : SoundAfter actions.length final :=
    Machine.run_counted start_sound (fun _ _ _ _ sound taken => step_sound sound taken) ran
  obtain ⟨contacts, reader, -, sound⟩ := counted short
  exact ⟨contacts, reader, sound⟩

theorem rows_le_run
    (ran : Machine.run (Harness.step argsA argsB) (Parties.start groupA groupB) actions = some final) :
    final.testbed.driver.rows.length ≤ actions.length := by
  refine @Machine.run_counted _ _ _ _ (fun count parties => parties.testbed.driver.rows.length ≤ count) _ _
    le_rfl (fun count before action after few taken => ?_) ran
  rcases testbed_step taken with same | ⟨inner, moved, -⟩
  · rw [same]
    exact Nat.le_succ_of_le few
  · rcases AliceRuns.step_cases moved with ⟨_, _, _, -, -, moved⟩ | ⟨_, -, same, -, -⟩
    · rcases TestbedLog.rows_grow moved with same | ⟨row, more⟩
      · rw [same]
        exact Nat.le_succ_of_le few
      · rw [more, List.length_append, List.length_singleton]
        exact Nat.succ_le_succ few
    · rw [same]
      exact Nat.le_succ_of_le few

end Runs

/-! ### Two contacts and the blackout between them -/

def aliceAt (now : Nat) (outcomes : List AliceDriver.Outcome) : List Harness.Action :=
  outcomes.map (.alice now now)

def bobAt (now : Nat) (outcomes : List Outcome) : List Harness.Action := outcomes.map (.bob now now)

/-- One commit is made, sent, applied, and reported. -/
def commitReported : List Harness.Action :=
  aliceAt 0 [.tick false, .go, .go, .sendTo fun _ => .ok (), .go, .go] ++
  [.network (.deliver (Preamble.datagramOf [(1, CounterGroup.commitOf 0)]))] ++
  [.sender .run, .sender .run, .sender (.take 9), .deliver 9, .sender .run, .poll].map fun event =>
    .network (.link 0 event)

def firstContact : List Harness.Action :=
  bobAt 0 [.go] ++ aliceAt 0 [.go, .ready (some 1), .go, .go] ++
  bobAt 0 [.incoming true, .stream 0 true, .go, .go, .go, .go] ++ aliceAt 0 [.accepted true, .go, .go, .go]

def secondContact : List Harness.Action :=
  aliceAt 15 [.go, .go, .go, .go, .go] ++ bobAt 15 [.go, .go] ++
  aliceAt 23 [.deadline, .go, .go, .ready (some 2), .sendTo fun _ => .ok (), .go] ++
  bobAt 23 [.incoming true, .stream 1 false, .go, .go, .go, .go] ++
  aliceAt 23 [.accepted false, .go, .go, .go] ++ aliceAt 40 [.go, .go] ++ bobAt 40 [.go, .go, .go]

def twoContacts : List Harness.Action := firstContact ++ commitReported ++ secondContact

theorem twoContacts_returns : ∃ final,
    Machine.run (Harness.step TestbedLog.oneBlackout TestbedLog.oneBlackout)
      (Parties.start CounterGroup.fresh CounterGroup.fresh) twoContacts = some final ∧
      final.testbed.driver.point ≠ .failed ∧ confirmedEpochs final.bob.rows = [0, 1] := by
  have view : (Machine.run (Harness.step TestbedLog.oneBlackout TestbedLog.oneBlackout)
      (Parties.start CounterGroup.fresh CounterGroup.fresh) twoContacts).map
        (fun final => (final.testbed.driver.point, confirmedEpochs final.bob.rows)) =
          some (.returned, [0, 1]) := by
    decide +kernel
  obtain ⟨final, ran, same⟩ := Option.map_eq_some_iff.mp view
  obtain ⟨returned, confirmed⟩ := Prod.mk.inj same
  exact ⟨final, ran, by simp [returned], confirmed⟩

/-! ### Every log -/

section Runs
variable {GA GB EA EB : Type} [ExportSecret GA EA] [ExportSecret GB EB] {argsA argsB : Args} {groupA : GA}
  {groupB : GB} {final : Parties GA GB} {actions : List Harness.Action}

/-- Whatever the sender, the network and the clock do, no configuration is asked for a
second session, a reader takes every row of the receiver's log in turn, and the epochs it
confirms never go back nor run ahead of the receiver. -/
theorem bob_logged
    (ran : Machine.run (Harness.step argsA argsB) (Parties.start groupA groupB) actions = some final)
    (short : actions.length < 2 ^ 64) :
    final.bob.point ≠ .singleUse ∧
      (∃ reader, readLog final.bob.rows = some reader ∧
        (final.bob.point = .returned → reader.place = .finished)) ∧
      (confirmedEpochs final.bob.rows).Pairwise (· ≤ ·) ∧
      ∀ epoch ∈ confirmedEpochs final.bob.rows, epoch ≤ final.testbed.pipeline.bob.localEpoch := by
  obtain ⟨contacts, reader, sound⟩ := sound_of_run ran short
  have fits := sound.fits
  refine ⟨fun again => ?_, ⟨reader, sound.read, fun returned => ?_⟩, (confirmed_of_read sound.read).1,
    sound.confirmed_le⟩
  · rw [again] at fits
    exact fits
  · rw [returned] at fits
    exact fits

end Runs

theorem bob_logged_two_contacts : ∃ final reader,
    Machine.run (Harness.step TestbedLog.oneBlackout TestbedLog.oneBlackout)
      (Parties.start CounterGroup.fresh CounterGroup.fresh) twoContacts = some final ∧
      final.bob.point ≠ .singleUse ∧ readLog final.bob.rows = some reader ∧
      confirmedEpochs final.bob.rows = [0, 1] ∧ 1 ≤ final.testbed.pipeline.bob.localEpoch := by
  obtain ⟨final, ran, -, confirmed⟩ := twoContacts_returns
  obtain ⟨fresh, ⟨reader, read, -⟩, -, reached⟩ := bob_logged ran (by decide)
  exact ⟨final, reader, ran, fresh, read, confirmed, reached 1 (by rw [confirmed]; decide)⟩

section Commits
variable {GA Message EA : Type} [MlsGroup GA Message EA] [LawfulCommit GA] {GB EB : Type}
  [ExportSecret GB EB] {argsA argsB : Args} {groupA : GA} {groupB : GB} {final : Parties GA GB}
  {actions : List Harness.Action}

/-- In an honest run the two logs agree: the receiver's names no epoch beyond the commits
in the sender's, but for one whose row is still to come. -/
theorem confirmed_created
    (ran : Machine.run (Harness.step argsA argsB) (Parties.start groupA groupB) actions = some final)
    (short : actions.length + 1 < 2 ^ 64) (fair : ∀ action ∈ actions, honest action)
    (lives : final.testbed.driver.point ≠ .failed) :
    ∀ epoch ∈ confirmedEpochs final.bob.rows,
      epoch ≤ UInt64.ofNat (Telemetry.commits final.testbed.driver.rows) +
        TestbedLog.unlogged final.testbed.driver.point := by
  obtain ⟨contacts, reader, sound⟩ := sound_of_run ran (Nat.lt_of_succ_lt short)
  have run := @Machine.reachable_of_run _ _ _ (fun _ action => True → honest action) _ _ _
    (fun _ action member _ => fair action member) ran
  have ordered := (ReportDelivery.followed (pipeline_run run)).2.1
  have mirrored := AliceRuns.epoch_mirrored (testbed_run run)
  have room : final.testbed.driver.rows.length + 1 < 2 ^ 64 :=
    lt_of_le_of_lt (Nat.succ_le_succ (rows_le_run ran)) short
  obtain ⟨contacts, senders, logged⟩ := TestbedLog.sound_of_run (testbed_run run) room
  rw [← Telemetry.commits_counted logged.read, ← logged.epoch lives, mirrored]
  exact fun epoch member => (sound.confirmed_le epoch member).trans ordered

end Commits

theorem confirmed_created_two_contacts : ∃ final,
    Machine.run (Harness.step TestbedLog.oneBlackout TestbedLog.oneBlackout)
      (Parties.start CounterGroup.fresh CounterGroup.fresh) twoContacts = some final ∧
      1 ∈ confirmedEpochs final.bob.rows ∧ 1 ≤ UInt64.ofNat (Telemetry.commits final.testbed.driver.rows) +
        TestbedLog.unlogged final.testbed.driver.point := by
  obtain ⟨final, ran, lives, confirmed⟩ := twoContacts_returns
  have named : 1 ∈ confirmedEpochs final.bob.rows := by
    rw [confirmed]
    decide
  refine ⟨final, ran, named, confirmed_created ran (by decide) ?_ lives 1 named⟩
  simp [twoContacts, firstContact, commitReported, secondContact, aliceAt, bobAt, honest, ReportPipeline.honest]

end QuicMls.HarnessLog
