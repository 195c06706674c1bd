import QuicMls.HarnessLog

/-! The report tasks of both parties under their drivers. However the drivers interleave,
at most one task of each party runs, and while both drivers are on one connection its
tasks bring the sender's checkpoint to the receiver's epoch. -/
namespace QuicMls.HarnessTasks
open BigEndian Groups ReportSender BobDriver Harness
open AliceDriver (Args Testbed)
open ReportPipeline hiding step Action honest steady

/-! ### Which tasks run -/

def Reports (link : Link) : Prop := link.sending = true ∧ link.sender.point ≠ .ended

def Receives (link : Link) : Prop := link.receiving = true ∧ link.running = true

def reporting {GA GB : Type} (pipeline : Pipeline GA GB) : Set Nat :=
  { conn | ∃ link, pipeline.links[conn]? = some link ∧ Reports link }

def receiving {GA GB : Type} (pipeline : Pipeline GA GB) : Set Nat :=
  { conn | ∃ link, pipeline.links[conn]? = some link ∧ Receives link }

section Links
variable {GA GB EA EB : Type} [ExportSecret GA EA] [ExportSecret GB EB] {pipeline pipeline' : Pipeline GA GB}

/-- A step of one connection leaves the others. -/
theorem link_taken {conn : Nat} {event : LinkEvent}
    (taken : ReportPipeline.step pipeline (.link conn event) = some pipeline') :
    ∃ link link' alice, pipeline.links[conn]? = some link ∧ pipeline'.links[conn]? = some link' ∧
      Link.Moved pipeline.bob.epochTx pipeline.alice link event alice link' ∧
      ∀ other, other ≠ conn → pipeline'.links[other]? = pipeline.links[other]? := by
  cases Pipeline.moved_of_step taken with
  | @linked _ _ link next alice found moved =>
      refine ⟨link, next, alice, found, ?_, moved, fun other different => ?_⟩
      · exact List.getElem?_set_self (List.getElem?_eq_some_iff.mp found).1
      · exact List.getElem?_set_ne different.symm

/-- What a step does to a connection. -/
theorem link_cases {action : ReportPipeline.Action}
    (taken : ReportPipeline.step pipeline action = some pipeline') {conn : Nat} {link' : Link}
    (found : pipeline'.links[conn]? = some link') :
    pipeline.links[conn]? = some link' ∨ (action = .connect ∧ link' = Link.new) ∨
      ∃ event link alice, action = .link conn event ∧ pipeline.links[conn]? = some link ∧
        Link.Moved pipeline.bob.epochTx pipeline.alice link event alice link' := by
  cases Pipeline.moved_of_step taken with
  | connected =>
      dsimp only at found
      rw [List.getElem?_append] at found
      split at found
      · exact Or.inl found
      · exact Or.inr (Or.inl ⟨rfl, List.mem_singleton.mp (List.mem_of_getElem? found)⟩)
  | @linked index event link next alice here moved =>
      by_cases same : index = conn
      · subst same
        dsimp only at found
        rw [List.getElem?_set_self (List.getElem?_eq_some_iff.mp here).1] at found
        obtain rfl := Option.some.inj found
        exact Or.inr (Or.inr ⟨event, link, alice, rfl, here, moved⟩)
      · rw [List.getElem?_set_ne same] at found
        exact Or.inl found
  | _ => exact Or.inl found

section Moved
variable {epochTx : Watch.Channel UInt64} {log alice : CommitLog GA} {link link' : Link} {event : LinkEvent}

theorem point_of_ended {sender after : SenderTask} {event : ReportSender.Event}
    (taken : reportSenderStep epochTx sender event = some after) (ended : sender.point = .ended) :
    after.point = .ended := by
  cases event <;> simp [reportSenderStep, ended] at taken <;> simp [← taken]

/-- A task runs only where it ran, or is spawned. -/
theorem reports_of_moved (moved : Link.Moved epochTx log link event alice link') (reports : Reports link') :
    Reports link ∨ event = .spawnSender := by
  cases moved with
  | spawnSender absent => exact Or.inr rfl
  | sender spawned ran => exact Or.inl ⟨spawned, fun ended => reports.2 (point_of_ended ran ended)⟩
  | _ => exact Or.inl reports

theorem receives_of_moved (moved : Link.Moved epochTx log link event alice link') (receives : Receives link') :
    Receives link ∨ event = .spawnReceiver := by
  cases moved with
  | spawnReceiver absent => exact Or.inr rfl
  | stopped spawned stuck final => cases receives.2
  | aborted => cases receives.2
  | _ => exact Or.inl receives

end Moved

theorem reporting_step {action : ReportPipeline.Action}
    (taken : ReportPipeline.step pipeline action = some pipeline') {conn : Nat}
    (member : conn ∈ reporting pipeline') :
    conn ∈ reporting pipeline ∨ action = .link conn .spawnSender := by
  obtain ⟨link', found, reports⟩ := member
  rcases link_cases taken found with same | ⟨-, rfl⟩ | ⟨event, link, alice, rfl, here, moved⟩
  · exact Or.inl ⟨link', same, reports⟩
  · cases reports.1
  · rcases reports_of_moved moved reports with before | rfl
    · exact Or.inl ⟨link, here, before⟩
    · exact Or.inr rfl

theorem receiving_step {action : ReportPipeline.Action}
    (taken : ReportPipeline.step pipeline action = some pipeline') {conn : Nat}
    (member : conn ∈ receiving pipeline') :
    conn ∈ receiving pipeline ∨ action = .link conn .spawnReceiver := by
  obtain ⟨link', found, receives⟩ := member
  rcases link_cases taken found with same | ⟨-, rfl⟩ | ⟨event, link, alice, rfl, here, moved⟩
  · exact Or.inl ⟨link', same, receives⟩
  · cases receives.1
  · rcases receives_of_moved moved receives with before | rfl
    · exact Or.inl ⟨link, here, before⟩
    · exact Or.inr rfl

theorem reporting_abort {conn : Nat}
    (taken : ReportPipeline.step pipeline (.link conn (.sender .abort)) = some pipeline') :
    conn ∉ reporting pipeline' := by
  rintro ⟨link', found, reports⟩
  obtain ⟨link, next, alice, -, there, moved, -⟩ := link_taken taken
  obtain rfl := Option.some.inj (found.symm.trans there)
  cases moved with
  | sender spawned ran =>
      obtain rfl := Option.some.inj ran
      exact reports.2 rfl

theorem receiving_abort {conn : Nat}
    (taken : ReportPipeline.step pipeline (.link conn .abortReceiver) = some pipeline') :
    conn ∉ receiving pipeline' := by
  rintro ⟨link', found, receives⟩
  obtain ⟨link, next, alice, -, there, moved, -⟩ := link_taken taken
  obtain rfl := Option.some.inj (found.symm.trans there)
  cases moved with
  | aborted => cases receives.2

end Links

/-! ### Which task may run -/

/-- The phase the sender's driver is in, while it is connected or dark. -/
def phaseAt : AliceDriver.Point → Option AliceDriver.Phase
  | .beginPhase phase => some phase
  | .startTicker phase _ _ => some phase
  | .loopHead loop => some loop.phase
  | .select loop => some loop.phase
  | .recheck loop => some loop.phase
  | .commit loop => some loop.phase
  | .send loop _ => some loop.phase
  | .logCpu loop _ _ _ => some loop.phase
  | .logNet loop _ _ => some loop.phase
  | .logOffline loop => some loop.phase
  | .leave phase => some phase
  | _ => none

/-- The report task of a driver belongs to the connection it is on. A driver that failed
leaves its task behind. -/
structure Exclusive {GA GB : Type} (parties : Parties GA GB) : Prop where
  reporting : ∀ conn ∈ reporting parties.testbed.pipeline,
    parties.bob.point = .closed conn ∨ parties.bob.point = .failed
  oneReporting : (HarnessTasks.reporting parties.testbed.pipeline).Subsingleton
  receiving : ∀ conn ∈ receiving parties.testbed.pipeline, parties.testbed.driver.conn = conn ∧
    (phaseAt parties.testbed.driver.point = some .online ∨ parties.testbed.driver.point = .failed)

section Drivers
variable {GA GB EA EB : Type} [ExportSecret GA EA] [ExportSecret GB EB] {args : Args} {now timestamp : Nat}
  {pipeline pipeline' : Pipeline GA GB}

/-- The receiver's driver spawns a task only when none is left. -/
theorem bob_exclusive {driver driver' : Driver}
    (moved : BobRuns.Moved args now timestamp driver pipeline driver' pipeline')
    (before : ∀ conn ∈ reporting pipeline, driver.point = .closed conn ∨ driver.point = .failed)
    (one : (reporting pipeline).Subsingleton) :
    (∀ conn ∈ reporting pipeline', driver'.point = .closed conn ∨ driver'.point = .failed) ∧
      (reporting pipeline').Subsingleton := by
  have none (stays : pipeline' = pipeline) (elsewhere : ∀ conn, driver.point ≠ .closed conn)
      (lives : driver.point ≠ .failed) :
      (∀ conn ∈ reporting pipeline', driver'.point = .closed conn ∨ driver'.point = .failed) ∧
        (reporting pipeline').Subsingleton := by
    have empty : ∀ conn, conn ∉ reporting pipeline := fun conn member =>
      (before conn member).elim (elsewhere conn) lives
    rw [stays]
    exact ⟨fun conn member => absurd member (empty conn), one⟩
  cases moved with
  | @silent point moves =>
      generalize here : driver.point = old at moves
      cases moves with
      | fail point => exact ⟨fun _ _ => Or.inr rfl, one⟩
      | _ => exact none rfl (by simp [here]) (by simp [here])
  | @logged event epoch point latency logs =>
      generalize here : driver.point = old at logs
      cases logs <;> exact none rfl (by simp [here]) (by simp [here])
  | contact waits => exact none rfl (by simp [waits]) (by simp [waits])
  | incoming keys waits holds => exact none rfl (by simp [waits]) (by simp [waits])
  | reused waits spent => exact none rfl (by simp [waits]) (by simp [waits])
  | @spawned conn after waits taken =>
      have only : ∀ other ∈ reporting pipeline', other = conn := by
        intro other member
        rcases reporting_step taken member with old | fresh
        · rcases before other old with here | here <;> simp [waits] at here
        · cases fresh
          rfl
      exact ⟨fun other member => Or.inl (by rw [only other member]; rfl), fun left member right among =>
        (only left member).trans (only right among).symm⟩
  | @aborted conn point after waits leaves taken =>
      have empty : ∀ other, other ∉ reporting pipeline' := by
        intro other member
        rcases reporting_step taken member with old | fresh
        · rcases before other old with here | here
          · obtain rfl := Point.closed.inj (waits.symm.trans here)
            exact reporting_abort taken member
          · simp [waits] at here
        · cases fresh
      exact ⟨fun other member => absurd member (empty other), fun left member => absurd member (empty left)⟩
  | returned waits taken =>
      have empty : ∀ other, other ∉ reporting pipeline' := by
        intro other member
        rcases reporting_step taken member with old | fresh
        · rcases before other old with here | here <;> simp [waits] at here
        · cases fresh
      exact ⟨fun other member => absurd member (empty other), fun left member => absurd member (empty left)⟩

theorem silent_phase {point next : AliceDriver.Point} (moves : AliceRuns.Silent args now point next) :
    next = .failed ∨ phaseAt next = phaseAt point := by
  cases moves with
  | fail point => exact Or.inl rfl
  | expired loop => exact Or.inr rfl
  | deadline loop => exact Or.inr rfl
  | late loop => exact Or.inr rfl
  | _ => exact Or.inr rfl

theorem logs_phase {epoch named bytes : UInt64} {event : Telemetry.Event} {point next : AliceDriver.Point}
    (logs : AliceRuns.Logs epoch point event named bytes next) (online : phaseAt point = some .online) :
    phaseAt next = some .online := by
  cases logs with
  | cpu loop cpu net sent => exact online
  | net loop net sent => exact online
  | offline loop => exact online
  | _ => cases online

/-- The sender's driver spawns a task only when none is left. -/
theorem alice_exclusive {driver driver' : AliceDriver.Driver}
    (moved : AliceRuns.Moved args now timestamp driver pipeline driver' pipeline')
    (before : ∀ conn ∈ receiving pipeline, driver.conn = conn ∧
      (phaseAt driver.point = some .online ∨ driver.point = .failed)) :
    ∀ conn ∈ receiving pipeline', driver'.conn = conn ∧
      (phaseAt driver'.point = some .online ∨ driver'.point = .failed) := by
  -- A step that spawns nothing leaves the tasks there were.
  have kept (action : ReportPipeline.Action) (taken : ReportPipeline.step pipeline action = some pipeline')
      (quiet : ∀ conn, action ≠ .link conn .spawnReceiver) {conn : Nat} (member : conn ∈ receiving pipeline') :
      conn ∈ receiving pipeline := by
    rcases receiving_step taken member with old | rfl
    · exact old
    · exact absurd rfl (quiet conn)
  intro conn member
  cases moved with
  | silent moves =>
      obtain ⟨here, phase | dead⟩ := before conn member
      · exact ⟨here, (silent_phase moves).elim Or.inr fun same => Or.inl (same.trans phase)⟩
      · rw [dead] at moves
        cases moves
        exact ⟨here, Or.inr rfl⟩
  | logged latency logs =>
      obtain ⟨here, phase | dead⟩ := before conn member
      · exact ⟨here, Or.inl (logs_phase logs phase)⟩
      · rw [dead] at logs
        cases logs
  | contact waits lastReadySeen =>
      obtain ⟨here, phase | dead⟩ := before conn member
      · rw [waits] at phase
        cases phase
      · cases waits.symm.trans dead
  | opened opens taken =>
      obtain ⟨-, phase | dead⟩ := before conn (kept _ taken (by simp) member)
      · generalize driver.point = point at opens phase
        cases opens <;> cases phase
      · rw [dead] at opens
        cases opens
  | connected latency confirms taken =>
      rcases receiving_step taken member with old | fresh
      · obtain ⟨-, phase | dead⟩ := before conn old
        · generalize driver.point = point at confirms phase
          cases confirms <;> cases phase
        · rw [dead] at confirms
          cases confirms
      · cases fresh
        exact ⟨rfl, Or.inl rfl⟩
  | sendFailed sent =>
      obtain ⟨here, -⟩ := before conn (kept _ (AliceRuns.sendWindow_step sent) (by simp) member)
      exact ⟨here, Or.inr rfl⟩
  | embedded embeds sent =>
      obtain ⟨-, phase | dead⟩ := before conn (kept _ (AliceRuns.sendWindow_step sent) (by simp) member)
      · rw [embeds] at phase
        cases phase
      · cases embeds.symm.trans dead
  | @committed loop after commits taken =>
      obtain ⟨here, phase | dead⟩ := before conn (kept _ taken (by simp) member)
      · rw [commits] at phase
        refine ⟨here, Or.inl ?_⟩
        have online : loop.phase = .online := Option.some.inj phase
        simp only [AliceRuns.Loop.committed, online, phaseAt]
      · cases commits.symm.trans dead
  | sent sends sent =>
      obtain ⟨here, phase | dead⟩ := before conn (kept _ (AliceRuns.sendWindow_step sent) (by simp) member)
      · rw [sends] at phase
        exact ⟨here, Or.inl phase⟩
      · cases sends.symm.trans dead
  | quit leaves taken =>
      obtain ⟨rfl, -⟩ := before conn (kept _ taken (by simp) member)
      exact absurd member (receiving_abort taken)
  | dark leaves taken =>
      obtain ⟨rfl, -⟩ := before conn (kept _ taken (by simp) member)
      exact absurd member (receiving_abort taken)

end Drivers

section Runs
variable {GA GB EA EB : Type} [ExportSecret GA EA] [ExportSecret GB EB] {argsA argsB : Args} {groupA : GA}
  {groupB : GB} {before after final : Parties GA GB}

theorem exclusive_step {action : Harness.Action} (sound : Exclusive before)
    (taken : Harness.step argsA argsB before action = some after) : Exclusive after := by
  obtain ⟨reports, one, receives⟩ := sound
  rcases step_cases taken with ⟨_, _, _, -, -, same, moved⟩ | ⟨_, _, _, -, same, moved⟩ |
    ⟨inner, -, theirs, same, moved⟩
  · have moved := alice_taken moved
    have fewer : reporting after.testbed.pipeline ⊆ reporting before.testbed.pipeline := by
      intro conn member
      rcases AliceRuns.moved_pipeline moved with stays | ⟨inner, taken, hers, -⟩
      · rwa [stays] at member
      · rcases reporting_step taken member with old | rfl
        · exact old
        · cases hers
    exact ⟨fun conn member => same ▸ reports conn (fewer member), one.anti fewer, alice_exclusive moved receives⟩
  · obtain ⟨reports, one⟩ := bob_exclusive moved reports one
    refine ⟨reports, one, fun conn member => ?_⟩
    rw [same]
    rcases moved_pipeline moved with stays | ⟨inner, taken, free, -⟩
    · rw [stays] at member
      exact receives conn member
    · rcases receiving_step taken member with old | rfl
      · exact receives conn old
      · cases free
  · obtain ⟨free, driver, moved⟩ := network_taken moved
    have fewer : reporting after.testbed.pipeline ⊆ reporting before.testbed.pipeline := by
      intro conn member
      rcases reporting_step moved member with old | rfl
      · exact old
      · cases theirs
    refine ⟨fun conn member => same ▸ reports conn (fewer member), one.anti fewer, fun conn member => ?_⟩
    rw [driver]
    rcases receiving_step moved member with old | rfl
    · exact receives conn old
    · cases free

/-- However the drivers, the network and the tasks interleave, at most one report task of
each party runs, and it is that of the connection its driver is on: the receiver's from
the confirmation to the end of the connection, the sender's while she is online. -/
theorem tasks_exclusive {allowed : Parties GA GB → Harness.Action → Prop}
    (run : Machine.Reachable (Harness.step argsA argsB) allowed (Parties.start groupA groupB) final) :
    (reporting final.testbed.pipeline).Subsingleton ∧ (receiving final.testbed.pipeline).Subsingleton ∧
      (∀ conn ∈ reporting final.testbed.pipeline,
        final.bob.point = .closed conn ∨ final.bob.point = .failed) ∧
      ∀ conn ∈ receiving final.testbed.pipeline, final.testbed.driver.conn = conn ∧
        (phaseAt final.testbed.driver.point = some .online ∨ final.testbed.driver.point = .failed) := by
  have sound : Exclusive final := by
    refine @Machine.Reachable.invariant _ _ _ _ _ _ (fun parties => Exclusive parties) run ?_
      fun _ _ _ sound _ taken => exclusive_step sound taken
    refine ⟨?_, ?_, ?_⟩
    · rintro conn ⟨link, found, -⟩
      cases found
    · rintro left ⟨link, found, -⟩
      cases found
    · rintro conn ⟨link, found, -⟩
      cases found
  exact ⟨sound.oneReporting,
    fun left member right among => (sound.receiving left member).1.symm.trans (sound.receiving right among).1,
    sound.reporting, sound.receiving⟩

end Runs

theorem tasks_exclusive_first_contact : ∃ final,
    Machine.run (Harness.step TestbedLog.oneBlackout TestbedLog.oneBlackout)
      (Parties.start CounterGroup.fresh CounterGroup.fresh) HarnessLog.firstContact = some final ∧
      reporting final.testbed.pipeline = {0} ∧ receiving final.testbed.pipeline = {0} ∧
      final.testbed.driver.conn = 0 := by
  have view : (Machine.run (Harness.step TestbedLog.oneBlackout TestbedLog.oneBlackout)
      (Parties.start CounterGroup.fresh CounterGroup.fresh) HarnessLog.firstContact).map
        (fun final => final.testbed.pipeline.links) = some [ReportDelivery.freshLink] := by
    decide +kernel
  obtain ⟨final, ran, links⟩ := Option.map_eq_some_iff.mp view
  have run := @Machine.reachable_of_run _ _ _ (fun _ _ => True) _ _ _ (fun _ _ _ => trivial) ran
  have here : final.testbed.pipeline.links[0]? = some ReportDelivery.freshLink := by rw [links]; rfl
  have reports : 0 ∈ reporting final.testbed.pipeline := ⟨_, here, rfl, by decide⟩
  have receives : 0 ∈ receiving final.testbed.pipeline := ⟨_, here, rfl, by decide⟩
  obtain ⟨oneReporting, oneReceiving, -, driving⟩ := tasks_exclusive run
  exact ⟨final, ran, oneReporting.eq_singleton_of_mem reports, oneReceiving.eq_singleton_of_mem receives,
    (driving 0 receives).1⟩

end QuicMls.HarnessTasks
